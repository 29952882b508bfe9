import Shaka.Store.Linked
import Shaka.Properties.StepEvidence

namespace Shaka.Properties
open Shaka.Core Queue Plan Store CheckedSteps GuardedRuns

variable {encoding : StoreEncoding} {tx tx' : PlanTx} {plan : PlanSpec} {now : Time} {x : PlanStepId}
  {task : TaskRecord} {report : FinishReport} {planContext : PlanClaimContext}

-- The step is recorded as Succeeded, and what follows leaves it so.
def Raised (x : PlanStepId) (tx : PlanTx) : Prop := tx.rows.stepState x = some .succeeded

theorem appendStep_raises {origin : PlanStepState} {key : String}
    (ok : appendStepTransitionTx encoding tx plan x origin .succeeded key now = .ok tx') : Raised x tx' := by
  obtain ⟨_,_,ran⟩ := appendStep_ok ok
  rw [Raised,← view_steps,ran.reached]
  simp

theorem appendStep_raised {y : PlanStepId} {origin target : PlanStepState} {key : String}
    (raised : Raised x tx) (other : origin ≠ .succeeded)
    (ok : appendStepTransitionTx encoding tx plan y origin target key now = .ok tx') :
    Raised x tx' := by
  obtain ⟨found,_,ran⟩ := appendStep_ok ok
  have differs : x ≠ y := by
    rintro rfl
    exact other (Option.some.inj (found.symm.trans raised))
  have kept : tx.rows.stepState x = some .succeeded := raised
  rw [Raised,← view_steps,ran.reached]
  simpa [differs] using kept

theorem appendPlan_raised {origin target : PlanState} {key : String} (raised : Raised x tx)
    (ok : appendPlanTransitionTx encoding tx plan origin target key now = .ok tx') : Raised x tx' := by
  obtain ⟨_,_,ran⟩ := appendPlan_ok ok
  have kept : tx.rows.stepState x = some .succeeded := raised
  rw [Raised,← view_steps,ran.reached]
  simpa using kept

theorem insertCheckpoint_raised {stepId : Option PlanStepId} {phase : PlanCheckpointPhase}
    {status : PlanCheckpointStatus} {digest : Option String} (raised : Raised x tx)
    (ok : insertCheckpointTx tx stepId phase status digest now = .ok tx') : Raised x tx' := by
  rw [insertCheckpointTx_ok ok]
  exact raised

-- The outcomes after which the work of the step is done.
def isDone : FinishOutcome → Bool
  | .succeeded | .planStepSucceeded _ | .compensated => true
  | .requeued _ | .failed | .cancelled => false

theorem completeCompensation_raised {result : Option String} {effect : FinishEffect} (raised : Raised x tx)
    (ok : completeCompensationTx encoding tx plan x result now = .ok effect) :
    Raised x effect.2.1 ∧ isDone effect.1 = true ∧ effect.1 ≠ .succeeded := by
  simp only [completeCompensationTx,bind_ok] at ok
  obtain ⟨moved,loop,noted,checkpoint,ok⟩ := ok
  have sources : Raised x moved :=
    foldEach_preserves (fun _ _ _ _ raised ok => appendStep_raised raised (by simp) ok) raised loop
  have after := insertCheckpoint_raised sources checkpoint
  split at ok
  · obtain ⟨closed,last,done⟩ := bind_ok.mp ok
    cases done
    exact ⟨appendPlan_raised after last,rfl,by simp⟩
  · cases ok
    exact ⟨after,rfl,by simp⟩

theorem finishSucceeded_raised {attempts : Nat} {effect : FinishEffect}
    (ok : finishSucceededTx encoding tx plan task x attempts report planContext now = .ok effect) :
    Raised x effect.2.1 ∧ isDone effect.1 = true ∧ (effect.1 = .succeeded →
      effect.2.2 = taskUpdate task fun row =>
      unbindStep (closeRow .succeeded report.result none now row)) := by
  simp only [finishSucceededTx,bind_ok] at ok
  obtain ⟨stepped,first,noted,second,ok⟩ := ok
  have before := insertCheckpoint_raised (appendStep_raises first) second
  split at ok
  · obtain ⟨raised,done,other⟩ := completeCompensation_raised before ok
    exact ⟨raised,done,fun same => absurd same other⟩
  split at ok
  · obtain ⟨closed,third,done⟩ := bind_ok.mp ok
    cases done
    exact ⟨appendPlan_raised before third,rfl,fun _ => rfl⟩
  · cases ok
    exact ⟨before,rfl,fun done => by cases done⟩

-- The verifier finds the postconditions of the step satisfied.
def PostconditionsHold (encoding : StoreEncoding) (task : TaskRecord) (rows : PlanRows) (x : PlanStepId)
    (planContext : PlanClaimContext) (now : Time) : Prop :=
  isExecutable encoding (snapshotOf rows)
    (postStepContext task rows.stepStates (loadApprovalsTx rows (snapshotOf rows)) planContext now x) = true

theorem judgeStep_passed {tx : PlanTx}
    (ok : judgeStep encoding tx (snapshotOf tx.rows) task x report planContext now = .ok none) :
    report.error = none ∧ PostconditionsHold encoding task tx.rows x planContext now := by
  unfold judgeStep at ok
  cases reported : report.error with
  | some error =>
    rw [reported] at ok
    cases ok
  | none =>
    rw [reported] at ok
    obtain ⟨states,read,ok⟩ := bind_ok.mp ok
    obtain rfl := loadStepStatesTx_ok read
    simp only at ok
    split at ok
    · next passed => exact ⟨rfl,passed⟩
    · cases ok

def unmetPostcondition : String := "pós-condição planejada não satisfeita"

theorem judgeStep_failed {tx : PlanTx} {safeError : String} (reported : report.error = none)
    (ok : judgeStep encoding tx (snapshotOf tx.rows) task x report planContext now = .ok (some safeError)) :
    ¬ PostconditionsHold encoding task tx.rows x planContext now ∧ safeError = unmetPostcondition := by
  rw [judgeStep,reported] at ok
  obtain ⟨states,read,ok⟩ := bind_ok.mp ok
  obtain rfl := loadStepStatesTx_ok read
  simp only at ok
  split at ok
  · cases ok
  · next unmet =>
    cases ok
    exact ⟨unmet,rfl⟩

-- What the end of a planned step under lease comes down to.
structure StepFinish (encoding : StoreEncoding) (tx : PlanTx) (task : TaskRecord) (x : PlanStepId)
    (row : PlanStepRow) (report : FinishReport) (planContext : PlanClaimContext) (now : Time)
    (effect : FinishEffect) : Prop where
  bound : task.planStepId = some x
  stored : tx.rows.steps.lookup x = some row
  live : row.state = .running ∨ row.state = .cancelRequested
  ended : (Requested task ∧ finishCancelledTx encoding tx (snapshotOf tx.rows) task x planContext now =
    .ok effect) ∨ ¬ Requested task ∧
      ((judgeStep encoding tx (snapshotOf tx.rows) task x report planContext now = .ok none ∧
        finishSucceededTx encoding tx (snapshotOf tx.rows) task x row.attempts report planContext now =
          .ok effect) ∨
      ∃ safeError, judgeStep encoding tx (snapshotOf tx.rows) task x report planContext now =
        .ok (some safeError) ∧
        finishFailedTx encoding tx (snapshotOf tx.rows) task x row.attempts row.maxAttempts safeError
          report planContext now = .ok effect)

theorem finishPlannedStep_parts {reference : PlanTaskReference} {effect : FinishEffect}
    (ok : finishPlannedStepTx encoding tx task reference report planContext now = .ok effect) :
    ∃ x row, StepFinish encoding tx task x row report planContext now effect := by
  simp only [finishPlannedStepTx,bind_ok,orFail_ok,require_ok,exists_const] at ok
  obtain ⟨plan,loaded,x,bound,row,stored,_,live,ok⟩ := ok
  obtain rfl := (loadPlanTx_ok.mp loaded).1
  refine ⟨x,row,bound,stored,live,?_⟩
  split at ok
  · next requested => exact .inl ⟨requested,ok⟩
  · next unrequested =>
    obtain ⟨verdict,judged,done⟩ := bind_ok.mp ok
    refine .inr ⟨unrequested,?_⟩
    cases verdict with
    | none => exact .inl ⟨judged,done⟩
    | some safeError => exact .inr ⟨safeError,judged,done⟩

theorem finishFailed_undone {tx : PlanTx} {attempts maxAttempts : Nat} {safeError : String}
    {effect : FinishEffect}
    (ok : finishFailedTx encoding tx plan task x attempts maxAttempts safeError report planContext now =
      .ok effect) : isDone effect.1 = false := by
  simp only [finishFailedTx,bind_ok] at ok
  obtain ⟨_,_,_,_,ok⟩ := ok
  split at ok
  · obtain ⟨_,_,done⟩ := bind_ok.mp ok
    cases done
    rfl
  split at ok
  · obtain ⟨_,_,done⟩ := bind_ok.mp ok
    cases done
    rfl
  · obtain ⟨_,_,done⟩ := bind_ok.mp ok
    cases done
    rfl

-- A report without an error, and the task was not asked to stop.
theorem StepFinish.success {row : PlanStepRow} {effect : FinishEffect}
    (finish : StepFinish encoding tx task x row report planContext now effect)
    (unrequested : ¬ Requested task) (reported : report.error = none) :
    (Raised x effect.2.1 ↔ PostconditionsHold encoding task tx.rows x planContext now) ∧
    (isDone effect.1 = true ↔ PostconditionsHold encoding task tx.rows x planContext now) ∧
    (effect.1 = .succeeded →
      effect.2.2 = taskUpdate task fun row =>
      unbindStep (closeRow .succeeded report.result none now row)) := by
  rcases finish.ended with ⟨requested,_⟩ | ⟨_,⟨judged,ran⟩ | ⟨safeError,judged,ran⟩⟩
  · exact absurd requested unrequested
  · obtain ⟨_,holds⟩ := judgeStep_passed judged
    obtain ⟨raised,done,settled⟩ := finishSucceeded_raised ran
    exact ⟨⟨fun _ => holds,fun _ => raised⟩,⟨fun _ => holds,fun _ => done⟩,settled⟩
  · obtain ⟨unmet,_⟩ := judgeStep_failed reported judged
    have undone := finishFailed_undone ran
    have before : tx.rows.stepState x = some row.state := by simp [PlanRows.stepState,finish.stored]
    have unraised : ¬ Raised x effect.2.1 := by
      intro raised
      have early := finishFailed_unraised ran x raised
      rw [before,Option.some.injEq] at early
      rcases finish.live with live | live <;> simp [live] at early
    refine ⟨⟨fun raised => absurd raised unraised,fun holds => absurd holds unmet⟩,?_,fun succeeded => ?_⟩
    · rw [undone]
      simpa using unmet
    · rw [succeeded] at undone
      cases undone

section Finish
variable {s s' : QueueStore} {taskId : TaskId} {tenantId : TenantId} {leaseToken : LeaseToken}
  {outcome : FinishOutcome}

-- The finish of a task under lease, with what it answers.
theorem finish_answers (loaded : loadTask encoding s taskId tenantId = .ok task)
    (open_ : task.status.isTerminal = false)
    (ok : finishTaskWithLeaseToken encoding s taskId tenantId leaseToken report now planContext =
      .ok (outcome,s')) : (task.planId = none ∧ outcome = (finishDirect task report now).1 ∧
      s' = s.updateTask (finishDirect task report now).2) ∨
    ∃ reference rows tx' update, planKeyOf task = some (reference.planId,reference.revision) ∧
      s.plans.lookup (reference.planId,reference.revision) = some rows ∧
      finishPlannedStepTx encoding ⟨rows,s.nextUuid⟩ task reference report planContext now = .ok (outcome,
        tx',update) ∧ s' = (s.storePlan (reference.planId,reference.revision) tx').updateTask update := by
  rw [finishTaskWithLeaseToken,loaded,ok_bind,open_] at ok
  obtain ⟨_,_,ok⟩ := bind_ok.mp ok
  split at ok
  · obtain ⟨reference,named,ok⟩ := bind_ok.mp ok
    obtain ⟨tx,begun,ok⟩ := bind_ok.mp ok
    obtain ⟨⟨answer,tx',update⟩,ran,ok⟩ := bind_ok.mp ok
    cases ok
    obtain ⟨rows,stored,rfl⟩ := beginPlan_ok begun
    exact .inr ⟨reference,rows,tx',update,taskReference_key named,stored,ran,rfl⟩
  · next direct =>
    cases ok
    exact .inl ⟨by simpa using direct,rfl,rfl⟩

-- The task is done and keeps the result.
def StoresResult (s' : QueueStore) (taskId : TaskId) (result : Option String) : Prop :=
  ∃ row, s'.tasks.lookup taskId = some row ∧ row.status = .succeeded ∧ row.result = result

-- A direct task without another attempt under the report ends Succeeded; the step of a planned task
-- is done exactly when its postconditions hold.
structure Finalises (encoding : StoreEncoding) (s : QueueStore) (task : TaskRecord) (leaseToken : LeaseToken)
    (report : FinishReport) (now : Time) (planContext : PlanClaimContext) : Prop where
  direct : task.planId = none → ¬ (report.retryable = true ∧ task.attempts < task.maxAttempts) →
    ∃ s', finishTaskWithLeaseToken encoding s task.taskId task.tenantId leaseToken report now planContext =
      .ok (.succeeded,s') ∧ StoresResult s' task.taskId report.result
  planned : task.planId ≠ none → ∀ outcome s',
    finishTaskWithLeaseToken encoding s task.taskId task.tenantId leaseToken report now planContext =
      .ok (outcome,s') →
    ∃ key rows rows' x, planKeyOf task = some key ∧ s.plans.lookup key = some rows ∧
    s'.plans.lookup key = some rows' ∧ task.planStepId = some x ∧
      (rows'.stepState x = some .succeeded ↔ PostconditionsHold encoding task rows x planContext now) ∧
      (isDone outcome = true ↔ PostconditionsHold encoding task rows x planContext now) ∧
      (outcome = .succeeded → StoresResult s' task.taskId report.result)

theorem success_final {allowed : QueueStore → Operation → Prop} (run : Run encoding allowed s)
    (loaded : loadTask encoding s taskId tenantId = .ok task) (running : task.status = .running)
    (live : task.cancelRequested = false)
    (held : task.leaseToken = some leaseToken ∧ ∃ leaseUntil ∈ task.leaseUntil, now < leaseUntil)
    (succeeded : report.error = none) : Finalises encoding s task leaseToken report now planContext := by
  obtain ⟨found,rfl,_⟩ := loadTask_ok.mp loaded
  obtain rfl := ((run_linked run).rowed _ _ found).taskId
  have unrequested : ¬ Requested task := by simp [Requested,running,live]
  have open_ : task.status.isTerminal = false := by rw [running]; rfl
  constructor
  · intro direct last
    have finish :
        finishTaskWithLeaseToken encoding s task.taskId task.tenantId leaseToken report now planContext =
        .ok ((finishDirect task report now).1,s.updateTask (finishDirect task report now).2) := by
      rw [finishTaskWithLeaseToken,loaded,ok_bind,open_]
      refine bind_ok.mpr ⟨(),require_pos _ held,?_⟩
      rw [direct]
      rfl
    have ends : finishDirect task report now = (.succeeded,
        taskUpdate task (closeRow .succeeded report.result none now)) := by
      simp only [finishDirect,succeeded,live,running,reduceCtorEq,Bool.false_eq_true,or_self,last,if_false,
        Option.isSome_none,Option.map_none]
    rw [ends] at finish
    refine ⟨_,finish,closeRow .succeeded report.result none now task,?_,rfl,rfl⟩
    rw [updateTask_found task found rfl]
    exact AList.lookup_insert _
  · intro planned outcome s' ok
    rcases finish_answers loaded open_ ok with ⟨direct,_⟩ | ⟨reference,rows,tx',update,refers,stored,ran,rfl⟩
    · exact absurd direct planned
    obtain ⟨x,row,finish⟩ := finishPlannedStep_parts ran
    obtain ⟨raised,done,settled⟩ := finish.success unrequested succeeded
    refine ⟨_,rows,tx'.rows,x,refers,stored,?_,finish.bound,raised,done,fun complete => ?_⟩
    · rw [updateTask_plans]
      exact AList.lookup_insert _
    · have named : update = _ := settled complete
      rw [named]
      refine ⟨unbindStep (closeRow .succeeded report.result none now task),?_,rfl,rfl⟩
      rw [@updateTask_found (s.storePlan _ tx') (taskUpdate task _) task found rfl]
      exact AList.lookup_insert _

end Finish

-- A claimed plan whose step promises a closed circuit, and may be tried twice.

def promisedStep : PlanStep := {trialStep "a" [] none with postconditions:=[.circuitClosed],maxAttempts:=2}

def promisedRun : List Operation := trialOpen 7 [promisedStep] ++ [trialClaim 2]

def successReport : FinishReport := ⟨some "done",none,true,0,0⟩

-- A finish of the claimed task under a circuit that is closed or not: what it answers, what
-- becomes of the step, and whether the task waits for another attempt.
def promisedFinish (circuitClosed : Bool) (task : TaskRecord) :
    Except QueueError (FinishOutcome × QueueStore) :=
  finishTaskWithLeaseToken trialEncoding (trial promisedRun) task.taskId task.tenantId ⟨7⟩ successReport
    (second 2) {PlanClaimContext.default with circuitClosed:=circuitClosed}

structure FinishSeen where
  outcome : FinishOutcome
  step : Option (Option PlanStepState)
  status : Option TaskStatus
  deriving DecidableEq

def finishSeen (answer : FinishOutcome × QueueStore) : FinishSeen :=
  ⟨answer.1,stepsOf answer.2,(answer.2.tasks.lookup ⟨7⟩).map (·.status)⟩

def isHeld (task : TaskRecord) : Bool :=
  task.status == .running && !task.cancelRequested && task.leaseToken == some ⟨7⟩ && task.leaseUntil ==
    some (second 3) && task.planId.isSome

-- The claimed task is held, and its finish has been seen.
def promisedSeen (circuitClosed : Bool) : Option (Bool × Option FinishSeen) :=
  (loadTask trialEncoding (trial promisedRun) ⟨7⟩ trialAdmin.tenantId).toOption.map fun task =>
    (isHeld task,(promisedFinish circuitClosed task).toOption.map finishSeen)

-- What a finish of a held task by a run that succeeded starts from.
structure Held (task : TaskRecord) : Prop where
  loaded : loadTask trialEncoding (trial promisedRun) ⟨7⟩ trialAdmin.tenantId = .ok task
  status : task.status = .running
  live : task.cancelRequested = false
  lease : task.leaseToken = some ⟨7⟩ ∧ ∃ leaseUntil ∈ task.leaseUntil, second 2 < leaseUntil
  planned : task.planId ≠ none

theorem promisedSeen_parts {circuitClosed : Bool} {seen : FinishSeen}
    (evaluated : promisedSeen circuitClosed = some (true,some seen)) : ∃ task outcome s', Held task ∧
      promisedFinish circuitClosed task = .ok (outcome,s') ∧ finishSeen (outcome,s') = seen := by
  unfold promisedSeen at evaluated
  cases loaded : loadTask trialEncoding (trial promisedRun) ⟨7⟩ trialAdmin.tenantId with
  | error error =>
    rw [loaded] at evaluated
    cases evaluated
  | ok task =>
    rw [loaded] at evaluated
    obtain ⟨held,answered⟩ := Prod.mk.inj (Option.some.inj evaluated)
    simp only [isHeld,Bool.and_eq_true,Bool.not_eq_true',beq_iff_eq] at held
    obtain ⟨⟨⟨⟨running,live⟩,token⟩,expiry⟩,planned⟩ := held
    cases finished : promisedFinish circuitClosed task with
    | error error =>
      rw [finished] at answered
      cases answered
    | ok answer =>
      rw [finished] at answered
      refine ⟨task,answer.1,answer.2,⟨loaded,running,live,⟨token,_,expiry,by decide⟩,?_⟩,finished,
        Option.some.inj answered⟩
      rw [Option.isSome_iff_ne_none] at planned
      exact planned

-- The circuit is closed, and the task can do no other than end.
theorem success_final_promised : ∃ task outcome s', Held task ∧ promisedFinish true task = .ok (outcome,s') ∧
    outcome = .succeeded ∧ StoresResult s' task.taskId (some "done") := by
  have seen : promisedSeen true = some (true,some ⟨.succeeded,some (some .succeeded),some .succeeded⟩) := by
    decide +kernel
  obtain ⟨task,outcome,s',held,finished,shape⟩ := promisedSeen_parts seen
  have run : Run trialEncoding (fun _ _ => True) (trial promisedRun) :=
    play_reaches (admitted_always fun _ _ _ => trivial)
  obtain ⟨_,planned⟩ :=
    @success_final _ _ task successReport {PlanClaimContext.default with circuitClosed:=true} _ _ _ _ _ run
    held.loaded held.status held.live held.lease rfl
  obtain ⟨_,_,_,_,_,_,_,_,_,_,stored⟩ := planned held.planned outcome s' finished
  obtain rfl : outcome = .succeeded := congrArg FinishSeen.outcome shape
  exact ⟨task,_,s',held,finished,rfl,stored rfl⟩

-- The run has reported success, and the step goes back for another attempt.
theorem success_returned : ∃ task outcome s', Held task ∧ promisedFinish false task = .ok (outcome,s') ∧
    outcome = .requeued (second 2) ∧ stepsOf s' = some (some .ready) ∧
    (s'.tasks.lookup ⟨7⟩).map (·.status) = some .queued := by
  have seen : promisedSeen false = some (true,some ⟨.requeued (second 2),some (some .ready),
      some .queued⟩) := by
    decide +kernel
  obtain ⟨task,outcome,s',held,finished,shape⟩ := promisedSeen_parts seen
  simp only [finishSeen,FinishSeen.mk.injEq] at shape
  exact ⟨task,outcome,s',held,finished,shape⟩

end Shaka.Properties
