import Shaka.Properties.SuccessFinal
import Shaka.Properties.CompensationClaims

namespace Shaka.Properties
open Shaka.Core Queue Plan Store CheckedSteps GuardedRuns

variable {encoding : StoreEncoding} {tx : PlanTx} {now : Time} {x : PlanStepId} {task row : TaskRecord}
  {report : FinishReport} {planContext : PlanClaimContext} {s s' t : QueueStore}

-- A finish that leaves the task terminal answers what its status tells afterwards.
def Told (task : TaskRecord) (effect : FinishEffect) : Prop :=
  (effect.2.2.set task).status.isTerminal = true →
    effect.1 = finishOutcomeForTerminalStatus (effect.2.2.set task).status

theorem finishFailed_told {attempts maxAttempts : Nat} {plan : PlanSpec} {safeError : String}
    {effect : FinishEffect}
    (ok : finishFailedTx encoding tx plan task x attempts maxAttempts safeError report planContext now =
      .ok effect) : Told task effect := by
  simp only [finishFailedTx,bind_ok] at ok
  obtain ⟨_,_,_,_,ok⟩ := ok
  split at ok
  · obtain ⟨_,_,done⟩ := bind_ok.mp ok
    cases done
    exact fun _ => rfl
  split at ok
  · obtain ⟨_,_,done⟩ := bind_ok.mp ok
    cases done
    exact fun terminal => by cases terminal
  · obtain ⟨_,_,done⟩ := bind_ok.mp ok
    cases done
    exact fun _ => rfl

theorem finishCancelled_told {plan : PlanSpec} {effect : FinishEffect}
    (ok : finishCancelledTx encoding tx plan task x planContext now = .ok effect) :
    Told task effect ∧ effect.1 = .cancelled := by
  simp only [finishCancelledTx,bind_ok] at ok
  obtain ⟨_,_,done⟩ := ok
  cases done
  exact ⟨fun _ => rfl,rfl⟩

-- The end of a compensation is the one that is told otherwise: the task is Failed.
theorem completeCompensation_told {plan : PlanSpec} {result : Option String} {effect : FinishEffect}
    (ok : completeCompensationTx encoding tx plan x result now = .ok effect) :
    (effect.1 = .compensated ∧ (effect.2.2.set task).status = .failed) ∨
      (effect.1 ≠ .compensated ∧ Told task effect) := by
  simp only [completeCompensationTx,bind_ok] at ok
  obtain ⟨_,_,_,_,ok⟩ := ok
  split at ok
  · obtain ⟨_,_,done⟩ := bind_ok.mp ok
    cases done
    exact .inl ⟨rfl,rfl⟩
  · cases ok
    exact .inr ⟨by simp,fun terminal => by cases terminal⟩

theorem finishSucceeded_told {plan : PlanSpec} {attempts : Nat} {effect : FinishEffect}
    (ok : finishSucceededTx encoding tx plan task x attempts report planContext now = .ok effect) :
    (effect.1 = .compensated ∧ (effect.2.2.set task).status = .failed) ∨
      (effect.1 ≠ .compensated ∧ Told task effect) := by
  simp only [finishSucceededTx,bind_ok] at ok
  obtain ⟨_,_,_,_,ok⟩ := ok
  split at ok
  · exact completeCompensation_told ok
  split at ok
  · obtain ⟨_,_,done⟩ := bind_ok.mp ok
    cases done
    exact .inr ⟨by simp,fun _ => rfl⟩
  · cases ok
    exact .inr ⟨by simp,fun terminal => by cases terminal⟩

-- The success of a compensation step is the last one when every step still to be compensated names it.
theorem finishSucceeded_compensated {attempts : Nat} {effect : FinishEffect} (columned : Columned tx.rows)
    (ok : finishSucceededTx encoding tx (snapshotOf tx.rows) task x attempts report planContext now =
      .ok effect) : effect.1 = .compensated ↔ tx.rows.state = .compensating ∧
      ∀ y, tx.rows.stepState y = some .compensating → Compensates tx.rows.plan y x := by
  simp only [finishSucceededTx,bind_ok] at ok
  obtain ⟨stepped,first,noted,second,ok⟩ := ok
  have ran := appendStep_writes.ran first
  have ran' : Ran encoding stepped noted [] := insertCheckpoint_writes.ran second
  have running : tx.rows.stepState x = some .running := (appendStep_ok first).1
  split at ok
  · next compensating =>
    rw [snapshotOf_state] at compensating
    simp only [completeCompensationTx,bind_ok] at ok
    obtain ⟨moved,loop,closed,checkpoint,ok⟩ := ok
    rw [compensationSources_reported running ran ran'] at loop
    have ran'' : Ran encoding moved closed [] := insertCheckpoint_writes.ran checkpoint
    have after := compensated_steps ran ran' (completeSources_writes.ran loop) ran''
    have left : closed.rows.stepStates.countP (fun entry => entry.2 == .compensating) = 0 ↔
        ∀ y, tx.rows.stepState y = some .compensating → Compensates tx.rows.plan y x := by
      rw [countP_stepStates]
      constructor
      · intro none y found
        by_contra other
        have state := none y .compensating
        rw [after,if_neg (fun listed => other ((mem_reportedSources columned running).mp listed).2)] at state
        rw [if_neg (by rintro rfl; exact absurd (running.symm.trans found) (by simp))] at state
        simpa using state found
      · intro all y state found
        rw [after] at found
        split at found
        · cases found
          rfl
        next unlisted =>
        split at found
        · cases found
          rfl
        · have other : state ≠ .compensating := by
            rintro rfl
            exact unlisted ((mem_reportedSources columned running).mpr ⟨found,all y found⟩)
          simpa using other
    split at ok
    · next done =>
      obtain ⟨_,_,ended⟩ := bind_ok.mp ok
      cases ended
      simp only [true_iff]
      exact ⟨compensating,left.mp done⟩
    · next more =>
      cases ok
      simp only [reduceCtorEq,false_iff,not_and]
      exact fun _ all => more (left.mpr all)
  · next other =>
    rw [snapshotOf_state] at other
    split at ok
    · obtain ⟨_,_,ended⟩ := bind_ok.mp ok
      cases ended
      simp [other]
    · cases ok
      simp [other]

-- The operator resolves the plan of the task.
def Resolves (task : TaskRecord) : Operation → Prop
  | .resolvePlanUnknown request _ =>
    task.planId = some request.planId ∧ task.tenantId = request.principal.tenantId
  | _ => False

theorem leased_open {status : TaskStatus} (leased : status.isLeased = true) : status.isTerminal = false := by
  cases status <;> first | rfl | cases leased

theorem rowStep_terminal {op : Operation} (step : RowStep op row task)
    (terminal : row.status.isTerminal = true) : Resolves row op := by
  cases step with
  | claimed due =>
    simp only [isDue,Bool.and_eq_true,beq_iff_eq] at due
    rw [due.1.1] at terminal
    cases terminal
  | finished open_ | cancelled open_ =>
    rw [open_] at terminal
    cases terminal
  | recovered expired | expired expired =>
    simp only [isExpired,Bool.and_eq_true] at expired
    rw [leased_open expired.1] at terminal
    cases terminal
  | resolved planned tenant => exact ⟨planned,tenant⟩

theorem exec_terminal {taskId : TaskId} (linked : Linked encoding s) (op : Operation)
    (found : s.tasks.lookup taskId = some row) (terminal : row.status.isTerminal = true)
    (spared : ¬ Resolves row op) : (exec encoding s op).tasks.lookup taskId = some row := by
  have change := exec_rows linked op taskId
  rw [found] at change
  generalize after : (exec encoding s op).tasks.lookup taskId = now at change
  cases change with
  | kept => rfl
  | stepped step => exact absurd (rowStep_terminal step terminal) spared

theorem run_terminal {taskId : TaskId} (linked : Linked encoding s)
    (later : Reaches (exec encoding) (fun _ op => ¬ Resolves row op) s t)
    (found : s.tasks.lookup taskId = some row) (terminal : row.status.isTerminal = true) :
    Linked encoding t ∧ t.tasks.lookup taskId = some row := by
  refine later.invariant (motive := fun t => Linked encoding t ∧ t.tasks.lookup taskId = some row) ⟨linked,
    found⟩ fun s op kept spared => ?_
  exact ⟨exec_linked kept.1 op,exec_terminal kept.1 op kept.2 terminal spared⟩

-- The finish that the last source of a compensation waits for: the run of a step of a plan that is
-- Compensating has succeeded, and every step still to be compensated names it.
structure CompensationEnds (encoding : StoreEncoding) (task : TaskRecord) (rows : PlanRows) (x : PlanStepId)
    (report : FinishReport) (planContext : PlanClaimContext) (now : Time) : Prop where
  bound : task.planStepId = some x
  unrequested : ¬ Requested task
  reported : report.error = none
  postconditions : PostconditionsHold encoding task rows x planContext now
  compensating : rows.state = .compensating
  last : ∀ y, rows.stepState y = some .compensating → Compensates rows.plan y x

def EndsCompensation (encoding : StoreEncoding) (s : QueueStore) (taskId : TaskId) (report : FinishReport)
    (planContext : PlanClaimContext) (now : Time) : Prop :=
  ∃ task key rows x, s.tasks.lookup taskId = some task ∧ task.status.isTerminal = false ∧
    planKeyOf task = some key ∧
    s.plans.lookup key = some rows ∧ CompensationEnds encoding task rows x report planContext now

theorem StepFinish.compensated {stepRow : PlanStepRow} {effect : FinishEffect} (columned : Columned tx.rows)
    (finish : StepFinish encoding tx task x stepRow report planContext now effect) :
    effect.1 = .compensated ↔ CompensationEnds encoding task tx.rows x report planContext now := by
  rcases finish.ended with ⟨requested,ran⟩ | ⟨unrequested,⟨judged,ran⟩ | ⟨safeError,judged,ran⟩⟩
  · rw [(@finishCancelled_told _ _ _ _ task _ _ _ ran).2]
    simp only [reduceCtorEq,false_iff]
    exact fun ends => ends.unrequested requested
  · obtain ⟨reported,holds⟩ := judgeStep_passed judged
    rw [finishSucceeded_compensated columned ran]
    constructor
    · rintro ⟨compensating,last⟩
      exact ⟨finish.bound,unrequested,reported,holds,compensating,last⟩
    · intro ends
      exact ⟨ends.compensating,ends.last⟩
  · have undone := finishFailed_undone ran
    constructor
    · intro compensated
      rw [compensated] at undone
      cases undone
    · intro ends
      exact absurd ends.postconditions (judgeStep_failed ends.reported judged).1

theorem StepFinish.told {stepRow : PlanStepRow} {effect : FinishEffect}
    (finish : StepFinish encoding tx task x stepRow report planContext now effect) :
    (effect.1 = .compensated ∧ (effect.2.2.set task).status = .failed) ∨
      (effect.1 ≠ .compensated ∧ Told task effect) := by
  rcases finish.ended with ⟨_,ran⟩ | ⟨_,⟨_,ran⟩ | ⟨safeError,_,ran⟩⟩
  · obtain ⟨told,cancelled⟩ := @finishCancelled_told _ _ _ _ task _ _ _ ran
    exact .inr ⟨by simp [cancelled],told⟩
  · exact finishSucceeded_told ran
  · refine .inr ⟨?_,finishFailed_told ran⟩
    intro compensated
    have undone := finishFailed_undone ran
    rw [compensated] at undone
    cases undone

theorem finishDirect_told (task : TaskRecord) (report : FinishReport) (now : Time) :
    ((finishDirect task report now).2.set task).status.isTerminal = true →
      (finishDirect task report now).1 =
        finishOutcomeForTerminalStatus ((finishDirect task report now).2.set task).status := by
  unfold finishDirect
  split
  · exact fun _ => rfl
  split
  · exact fun terminal => by cases terminal
  split <;> exact fun _ => rfl

section Replay
variable {taskId : TaskId} {tenantId : TenantId} {leaseToken : LeaseToken} {outcome : FinishOutcome}

-- What the first call that leaves the task terminal answers, against the status it leaves.
theorem finish_told (linked : Linked encoding s)
    (ok : finishTaskWithLeaseToken encoding s taskId tenantId leaseToken report now planContext =
      .ok (outcome,s'))
    (ended : s'.tasks.lookup taskId = some row) (terminal : row.status.isTerminal = true) :
    row.tenantId = tenantId ∧ (outcome = finishOutcomeForTerminalStatus row.status ↔
      ¬ EndsCompensation encoding s taskId report planContext now) := by
  obtain ⟨task,loaded,_⟩ := bind_ok.mp ok
  obtain ⟨found,rfl,_⟩ := loadTask_ok.mp loaded
  obtain rfl := (linked.rowed _ _ found).taskId
  have only : ∀ {other}, s.tasks.lookup task.taskId = some other → other = task := fun {other} listed =>
    Option.some.inj (listed.symm.trans found)
  cases closed : task.status.isTerminal with
  | true =>
    rw [finishTaskWithLeaseToken,loaded,ok_bind,closed] at ok
    cases ok
    obtain rfl := only ended
    refine ⟨rfl,fun _ => ?_,fun _ => rfl⟩
    rintro ⟨other,_,_,_,listed,open_,_⟩
    rw [only listed,closed] at open_
    cases open_
  | false =>
    have settled : ∀ {update : TaskUpdate} {middle : QueueStore}, middle.tasks = s.tasks →
        update.taskId = task.taskId →
        update.tenantId = task.tenantId → s' = middle.updateTask update → row = update.set task := by
      intro update middle tasks own tenant same
      have stored : middle.tasks.lookup update.taskId = some task := by
        rw [tasks,own]
        exact found
      rw [same,updateTask_found task stored tenant.symm,own] at ended
      exact (Option.some.inj ((AList.lookup_insert _).symm.trans ended)).symm
    rcases finish_answers loaded closed ok with ⟨direct,rfl,same⟩ | ⟨reference,rows,tx',update,refers,
      stored,ran,same⟩
    · obtain ⟨own,tenant,kept,_⟩ := @finishDirect_same task report now
      obtain rfl := settled rfl own tenant same
      refine ⟨kept.tenantId,fun _ => ?_,fun _ => finishDirect_told task report now terminal⟩
      rintro ⟨other,key,_,_,listed,_,refers,_⟩
      rw [only listed] at refers
      simp [planKeyOf,direct] at refers
    · obtain ⟨rows',stored',joined⟩ := linked.joined _ _ _ found refers
      obtain rfl := Option.some.inj (stored.symm.trans stored')
      have planned : task.planId ≠ none := by simp [joined.planId]
      obtain ⟨own,tenant,closing⟩ := finishPlannedStepTx_ended ⟨joined.taskId,joined.tenantId⟩ planned ran
      obtain ⟨x,stepRow,finish⟩ := finishPlannedStep_parts ran
      obtain rfl := @settled update (s.storePlan _ tx') rfl own tenant same
      have ends : outcome = .compensated ↔
          EndsCompensation encoding s task.taskId report planContext now := by
        have exactly := finish.compensated (linked.filed _ _ stored).columned
        constructor
        · intro compensated
          exact ⟨task,_,rows,x,found,closed,refers,stored,exactly.mp compensated⟩
        · rintro ⟨other,key,rows',y,listed,_,refers',stored',compensation⟩
          obtain rfl := only listed
          obtain rfl := Option.some.inj (refers.symm.trans refers')
          obtain rfl := Option.some.inj (stored.symm.trans stored')
          obtain rfl := Option.some.inj (finish.bound.symm.trans compensation.bound)
          exact exactly.mpr compensation
      refine ⟨(Ended.identity closing).1.tenantId,?_⟩
      rw [← ends]
      rcases finish.told with ⟨compensated,failed⟩ | ⟨other,told⟩
      · have answer : outcome = .compensated := compensated
        rw [answer,failed]
        simp [finishOutcomeForTerminalStatus]
      · exact ⟨fun _ => other,fun _ => told terminal⟩

-- Whatever happened meanwhile, the call finds the task as the first one left it.
theorem finish_replays {allowed : QueueStore → Operation → Prop} (run : Run encoding allowed s)
    (ok : finishTaskWithLeaseToken encoding s taskId tenantId leaseToken report now planContext =
      .ok (outcome,s'))
    (ended : s'.tasks.lookup taskId = some row) (terminal : row.status.isTerminal = true)
    (later : Reaches (exec encoding) (fun _ op => ¬ Resolves row op) s' t) :
    (∀ again, finishTaskWithLeaseToken encoding t taskId tenantId leaseToken report again planContext =
      .ok (outcome,t)) ↔ ¬ EndsCompensation encoding s taskId report planContext now := by
  have linked := run_linked run
  have after : Linked encoding s' := by
    have stepped :
        transaction encoding (.finish taskId tenantId leaseToken report now planContext) s = .ok ((),s') :=
      storeOf_ok.mpr ⟨outcome,ok⟩
    rw [← exec_ok stepped]
    exact exec_linked linked _
  obtain ⟨tenant,told⟩ := finish_told linked ok ended terminal
  obtain ⟨last,found⟩ := run_terminal after later ended terminal
  have answers :
      ∀ again, finishTaskWithLeaseToken encoding t taskId tenantId leaseToken report again planContext =
      .ok (finishOutcomeForTerminalStatus row.status,t) := by
    intro again
    rw [finishTaskWithLeaseToken,loadTask_ok.mpr ⟨found,tenant,(last.rowed _ _ found).checked⟩,
      ok_bind,terminal]
    rfl
  rw [← told]
  constructor
  · intro same
    exact congrArg Prod.fst (Except.ok.inj ((same now).symm.trans (answers now)))
  · rintro rfl
    exact answers

end Replay

-- The task of the one step that promises a closed circuit has ended, and the leases are recovered later.
theorem finish_replays_promised : ∃ task outcome s', Held task ∧ promisedFinish true task = .ok (outcome,s') ∧
    ∀ again, finishTaskWithLeaseToken trialEncoding
      (exec trialEncoding s' (.recoverExpiredLeases (second 9))) task.taskId
      task.tenantId ⟨7⟩ successReport again {PlanClaimContext.default with circuitClosed:=true} =
      .ok (outcome,exec trialEncoding s' (.recoverExpiredLeases (second 9))) := by
  have seen : promisedSeen true = some (true,some ⟨.succeeded,some (some .succeeded),some .succeeded⟩) := by
    decide +kernel
  obtain ⟨task,outcome,s',held,finished,shape⟩ := promisedSeen_parts seen
  have run : Run trialEncoding (fun _ _ => True) (trial promisedRun) :=
    play_reaches (admitted_always fun _ _ _ => trivial)
  obtain ⟨row,ended,succeeded⟩ := Option.map_eq_some_iff.mp (congrArg FinishSeen.status shape)
  have own : task.taskId = ⟨7⟩ := ((run_linked run).rowed _ _ (loadTask_ok.mp held.loaded).1).taskId
  have states : (trial promisedRun).plans.entries.map (fun entry => entry.2.state) = [.running] := by
    decide +kernel
  rw [← own] at ended
  refine ⟨task,outcome,s',held,finished,(finish_replays run finished ended ?_ (.step .start ?_)).mpr ?_⟩
  · rw [succeeded]
    rfl
  · exact id
  · rintro ⟨_,key,rows,_,_,_,_,stored,ends⟩
    have listed : rows.state ∈ (trial promisedRun).plans.entries.map fun entry => entry.2.state :=
      List.mem_map.mpr ⟨⟨key,rows⟩,AList.mem_lookup_iff.mp stored,rfl⟩
    rw [states,ends.compensating] at listed
    simp at listed

-- The step that undoes the other has succeeded, and the call is made once more.
def undoneRun : List Operation := decidedRun ++ [trialClaim 7]

def undoneFinish (s : QueueStore) (count : Nat) : Except QueueError (FinishOutcome × QueueStore) :=
  finishTaskWithLeaseToken trialEncoding s ⟨7⟩ trialAdmin.tenantId ⟨14⟩ successReport (second count) .default

def undoneSeen : Option (FinishOutcome × Option TaskStatus × Option FinishOutcome) :=
  (undoneFinish (trial undoneRun) 7).toOption.map fun answer =>
    (answer.1,(answer.2.tasks.lookup ⟨7⟩).map (·.status),(undoneFinish answer.2 8).toOption.map (·.1))

theorem finish_retold : ∃ s' row outcome t, undoneFinish (trial undoneRun) 7 = .ok (.compensated,s') ∧
    s'.tasks.lookup ⟨7⟩ = some row ∧ row.status.isTerminal = true ∧
    undoneFinish s' 8 = .ok (outcome,t) ∧ outcome ≠ .compensated := by
  have seen : undoneSeen = some (.compensated,some .failed,some .failed) := by decide +kernel
  obtain ⟨⟨first,s'⟩,finished,shape⟩ := Option.map_eq_some_iff.mp seen
  simp only [Prod.mk.injEq] at shape
  obtain ⟨rfl,status,replayed⟩ := shape
  obtain ⟨row,found,failed⟩ := Option.map_eq_some_iff.mp status
  obtain ⟨⟨second,t⟩,again,rfl⟩ := Option.map_eq_some_iff.mp replayed
  refine ⟨s',row,_,t,toOption_ok finished,found,?_,toOption_ok again,?_⟩
  · rw [failed]
    rfl
  · simp

end Shaka.Properties
