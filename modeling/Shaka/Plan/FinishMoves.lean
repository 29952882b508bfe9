import Shaka.Plan.ClaimMoves
import Shaka.Queue.Cancellation

namespace Shaka.Plan
open Shaka.Core Queue CheckedSteps

-- The columns of a task that no end of a lease changes.
structure SameTask (row row' : TaskRecord) : Prop where
  taskId : row'.taskId = row.taskId
  tenantId : row'.tenantId = row.tenantId
  planId : row'.planId = row.planId
  planRevision : row'.planRevision = row.planRevision
  planDigest : row'.planDigest = row.planDigest
  priority : row'.priority = row.priority
  attempts : row'.attempts = row.attempts
  maxAttempts : row'.maxAttempts = row.maxAttempts

structure Settles (update : TaskUpdate) (task : TaskRecord) (lease : Lease) : Prop where
  taskId : update.taskId = task.taskId
  tenantId : update.tenantId = task.tenantId
  lease : leaseOf (update.set task) = lease
  same : SameTask task (update.set task)

-- The task that a plan was admitted for.
structure Bound (task : TaskRecord) (rows : PlanRows) : Prop where
  taskId : rows.plan.taskId = task.taskId
  tenantId : rows.plan.tenantId = task.tenantId

section Mark
variable {encoding : StoreEncoding} {tx : PlanTx} {plan : PlanSpec} {x : PlanStepId} {digest : Option String}
  {now : Time}

theorem markPlanUnknownTx_writes {current : PlanStepState} (known : tx.rows.state ≠ .unknown)
    (planMay : tx.rows.state.permits .unknown = true) (found : tx.rows.stepState x = some current)
    (different : current ≠ .unknown) (stepMay : current.permits .unknown = true) :
    WritesTx encoding tx (unknownWrites encoding.toEncoding x now)
      (markPlanUnknownTx encoding tx plan (some x) digest now) := by
  unfold markPlanUnknownTx markPlanStateUnknownTx
  rw [if_neg known,if_pos planMay]
  refine Writes.bind (w := [_]) appendPlan_writes fun marked ran => ?_
  have steps : marked.rows.stepState x = some current := by
    rw [← view_steps,ran.reached]
    exact found
  simp only [markNamedStepUnknownTx,markStepStateUnknownTx,steps,if_neg different,stepMay,if_true]
  exact Writes.bind (w := []) appendStep_writes fun _ _ => insertCheckpoint_writes

-- A plan that is unknown already, with its step, only gets the checkpoint.
theorem markPlanUnknownTx_idle (known : tx.rows.state = .unknown)
    (step : tx.rows.stepState x = some .unknown) :
    WritesTx encoding tx [] (markPlanUnknownTx encoding tx plan (some x) digest now) := by
  unfold markPlanUnknownTx markPlanStateUnknownTx markNamedStepUnknownTx markStepStateUnknownTx
  rw [if_pos known]
  simp only [ok_bind,step,if_true]
  exact insertCheckpoint_writes

end Mark

-- Counting step states that are left.
theorem countP_stepStates {rows : PlanRows} {left : PlanStepId × PlanStepState → Bool} :
    rows.stepStates.countP left = 0 ↔ ∀ x state, rows.stepState x = some state → left (x,state) = false := by
  rw [List.countP_eq_zero]
  simp only [Prod.forall,mem_stepStates,Bool.not_eq_true]

-- The rows of the steps hold the compensations that the plan declares.
def Columned (rows : PlanRows) : Prop := ∀ x row, rows.steps.lookup x = some row →
  ∀ compensation, row.compensationStepId = some compensation ↔ Compensates rows.plan x compensation

theorem mem_compensationSources {rows : PlanRows} (columned : Columned rows)
    {compensation stepId : PlanStepId} : stepId ∈ compensationSources rows compensation ↔
      rows.stepState stepId = some .compensating ∧ Compensates rows.plan stepId compensation := by
  simp only [compensationSources,List.mem_filter,mem_sortedStepIds,PlanRows.stepState]
  cases found : rows.steps.lookup stepId with
  | none => simp
  | some row => simp [← columned stepId row found,and_comm]

theorem Columned.setStep {rows : PlanRows} (columned : Columned rows) (x : PlanStepId)
    (state : PlanStepState) : Columned (rows.setStep x state) := by
  intro y row found compensation
  have same := (setStep_same rows x state).compensations y
  rw [found] at same
  obtain ⟨old,stored,equal⟩ := Option.map_eq_some_iff.mp same.symm
  rw [(setStep_same rows x state).plan,← columned y old stored,equal]

theorem compensationSources_nodup (rows : PlanRows) (compensation : PlanStepId) :
    (compensationSources rows compensation).Nodup := (sortedStepIds_nodup rows).filter _

theorem compensationSources_congr {rows rows' : PlanRows} (keys : rows'.steps.keys.Perm rows.steps.keys)
    (compensations : ∀ y, (rows'.steps.lookup y).map (·.compensationStepId) =
      (rows.steps.lookup y).map (·.compensationStepId))
    (states : ∀ y, rows'.stepState y = rows.stepState y) (compensation : PlanStepId) :
    compensationSources rows' compensation = compensationSources rows compensation := by
  unfold compensationSources
  rw [show rows'.sortedStepIds = rows.sortedStepIds from sortedIds_perm keys]
  refine List.filter_congr fun y _ => ?_
  have state := states y
  have declared := compensations y
  unfold PlanRows.stepState at state
  cases found : rows.steps.lookup y <;> cases found' : rows'.steps.lookup y <;> simp_all

section Finish
variable {encoding : StoreEncoding} {tx : PlanTx} {task : TaskRecord} {x : PlanStepId} {report : FinishReport}
  {claimContext : PlanClaimContext} {now : Time}

-- What the end of a planned step answers: the rows, and an update that leaves
-- the task with the lease of the move.
def Finished (task : TaskRecord) (effect : FinishEffect) (tx' : PlanTx) (lease : Lease) : Prop :=
  effect.2.1 = tx' ∧ Settles effect.2.2 task lease

-- The rows after the step was reported and the checkpoint was written.
theorem reported_steps {stepped noted : PlanTx} {key : String} {target : PlanStepState}
    (ran : Ran encoding tx stepped [.step key x target now]) (ran' : Ran encoding stepped noted [])
    (y : PlanStepId) : noted.rows.stepState y = if y = x then some target else tx.rows.stepState y := by
  rw [← view_steps,(ran.trans ran').reached]
  simp

theorem closeRow_settles {status : TaskStatus} {result lastError : Option String} {lease : Lease}
    (settled : .free status task.cancelRequested = lease) :
    Settles (taskUpdate task fun row => unbindStep (closeRow status result lastError now row)) task lease :=
  ⟨rfl,rfl,settled,⟨rfl,rfl,rfl,rfl,rfl,rfl,rfl,rfl⟩⟩

theorem requeueRow_settles {lastError : Option String} {nextAttemptAt : Time} {lease : Lease}
    (settled : .free .queued task.cancelRequested = lease) :
    Settles (taskUpdate task fun row => unbindStep (requeueRow lastError nextAttemptAt now row)) task lease :=
  ⟨rfl,rfl,settled,⟨rfl,rfl,rfl,rfl,rfl,rfl,rfl,rfl⟩⟩

theorem finishSucceeded_running (working : Working (flowOf task tx.rows) x)
    (running : tx.rows.state = .running) : Moves encoding tx.rows.plan (.finish now) task tx (Finished task)
      (finishSucceededTx encoding tx (snapshotOf tx.rows) task x (tx.rows.attemptsOf x) report claimContext
        now) := by
  have free : ∀ status, Lease.free status task.cancelRequested = .free status false := fun status => by
    rw [show task.cancelRequested = false from working.uncancelled]
  unfold finishSucceededTx
  simp only [snapshotOf_state,running,reduceCtorEq,if_false]
  by_cases others : ∀ y state, tx.rows.stepState y = some state → y = x ∨ state = .succeeded
  · refine .of (.planSucceeded working running others) ?_
    refine Writes.bind (w := [_]) appendStep_writes fun stepped ran => ?_
    refine Writes.bind (v := []) insertCheckpoint_writes fun noted ran' => ?_
    have done : noted.rows.stepStates.countP (fun entry => entry.2 != .succeeded) = 0 := by
      refine countP_stepStates.mpr fun y state found => ?_
      rw [reported_steps ran ran'] at found
      have := others y state
      grind
    rw [if_pos done]
    exact Writes.last appendPlan_writes fun _ _ => .pure ⟨rfl,closeRow_settles (free _)⟩
  · refine .of (.stepSucceeded working running) ?_
    refine Writes.last appendStep_writes fun stepped ran => ?_
    refine Writes.bind (v := []) insertCheckpoint_writes fun noted ran' => ?_
    have more : noted.rows.stepStates.countP (fun entry => entry.2 != .succeeded) ≠ 0 := by
      intro done
      refine others fun y state found => or_iff_not_imp_left.mpr fun other => ?_
      have := countP_stepStates.mp done y state (by rw [reported_steps ran ran',if_neg other]; exact found)
      simpa using this
    rw [if_neg more]
    exact .pure ⟨rfl,requeueRow_settles (free _)⟩

-- The sources that the code finds after it recorded the success are those whose
-- compensation `x` is, before it.
theorem compensationSources_reported {stepped noted : PlanTx} {key : String}
    (running : tx.rows.stepState x = some .running)
    (ran : Ran encoding tx stepped [.step key x .succeeded now]) (ran' : Ran encoding stepped noted []) :
    compensationSources noted.rows x = compensationSources (tx.rows.setStep x .succeeded) x := by
  have same := (ran.trans ran').edits.same
  have same' := setStep_same tx.rows x .succeeded
  refine compensationSources_congr (same.keys.trans same'.keys.symm)
    (fun y => (same.compensations y).trans (same'.compensations y).symm) (fun y => ?_) x
  rw [reported_steps ran ran',stepState_setStep,running]
  rfl

theorem completeSources_writes {plan : PlanSpec} {sources : List PlanStepId} :
    WritesTx encoding tx (compensatedWrites encoding.toEncoding now sources)
      (foldEach (completeSource encoding plan now) tx sources) := by
  have loop : WritesTx encoding tx (compensatedWrites encoding.toEncoding now (sources.map id))
      (foldEach (completeSource encoding plan now) tx sources) :=
    WritesTx.foldAll (fun tx' source => appendStep_writes) tx
  rwa [List.map_id] at loop

theorem mem_reportedSources (columned : Columned tx.rows) (running : tx.rows.stepState x = some .running)
    {y : PlanStepId} : y ∈ compensationSources (tx.rows.setStep x .succeeded) x ↔
      tx.rows.stepState y = some .compensating ∧ Compensates tx.rows.plan y x := by
  rw [mem_compensationSources (columned.setStep x .succeeded),stepState_setStep,running,
    (setStep_same tx.rows x .succeeded).plan]
  split
  · next here => simp [here,running]
  · rfl

-- The steps once the success, the sources and the checkpoints are recorded.
theorem compensated_steps {stepped noted moved closed : PlanTx} {key : String} {sources : List PlanStepId}
    (ran : Ran encoding tx stepped [.step key x .succeeded now]) (ran' : Ran encoding stepped noted [])
    (ran'' : Ran encoding noted moved (compensatedWrites encoding.toEncoding now sources))
    (checkpointed : Ran encoding moved closed []) (y : PlanStepId) : closed.rows.stepState y =
      if y ∈ sources then some .compensated else if y = x then some .succeeded else tx.rows.stepState y := by
  rw [← view_steps,(ran''.trans checkpointed).reached]
  simp only [compensatedWrites,List.append_nil,stepWrites_steps,view_steps,reported_steps ran ran']

theorem finishSucceeded_compensating (bound : Bound task tx.rows) (columned : Columned tx.rows)
    (working : Working (flowOf task tx.rows) x) (compensating : tx.rows.state = .compensating) :
    Moves encoding tx.rows.plan (.finish now) task tx (Finished task)
      (finishSucceededTx encoding tx (snapshotOf tx.rows) task x (tx.rows.attemptsOf x) report claimContext
        now) := by
  have running : tx.rows.stepState x = some .running := working.running
  have free : ∀ status, Lease.free status task.cancelRequested = .free status false := fun status => by
    rw [show task.cancelRequested = false from working.uncancelled]
  obtain ⟨sources,listed⟩ : ∃ sources, sources = compensationSources (tx.rows.setStep x .succeeded) x :=
    ⟨_,rfl⟩
  have distinct : sources.Nodup := listed ▸ compensationSources_nodup _ _
  have among : ∀ y, y ∈ sources ↔ tx.rows.stepState y = some .compensating ∧
      Compensates tx.rows.plan y x := fun y => by
    rw [listed,mem_reportedSources columned running]
  unfold finishSucceededTx completeCompensationTx
  simp only [snapshotOf_state,compensating,if_true]
  by_cases last : ∀ y, tx.rows.stepState y = some .compensating → y ∈ sources
  · refine .of (.planCompensated working compensating distinct fun y =>
      ⟨fun source => ((among y).mp source).1,last y⟩) ?_
    refine Writes.bind (v := [_]) appendStep_writes fun stepped ran => ?_
    refine Writes.bind (v := []) insertCheckpoint_writes fun noted ran' => ?_
    rw [compensationSources_reported running ran ran',← listed]
    refine Writes.bind completeSources_writes fun moved ran'' => ?_
    refine Writes.bind (v := []) insertCheckpoint_writes fun closed checkpointed => ?_
    have done : closed.rows.stepStates.countP (fun entry => entry.2 == .compensating) = 0 := by
      refine countP_stepStates.mpr fun y state found => ?_
      rw [compensated_steps ran ran' ran'' checkpointed] at found
      have := last y
      grind
    rw [if_pos done]
    exact Writes.last appendPlan_writes fun _ _ =>
      .pure ⟨rfl,bound.taskId,bound.tenantId,free _,⟨rfl,rfl,rfl,rfl,rfl,rfl,rfl,rfl⟩⟩
  · have left : ∃ y, tx.rows.stepState y = some .compensating ∧ y ∉ sources := by simpa using last
    refine .of (.sourcesCompensated working compensating distinct among left) ?_
    refine Writes.bind (v := [_]) appendStep_writes fun stepped ran => ?_
    refine Writes.bind (v := []) insertCheckpoint_writes fun noted ran' => ?_
    rw [compensationSources_reported running ran ran',← listed]
    refine Writes.last completeSources_writes fun moved ran'' => ?_
    refine Writes.bind (v := []) insertCheckpoint_writes fun closed checkpointed => ?_
    have more : closed.rows.stepStates.countP (fun entry => entry.2 == .compensating) ≠ 0 := by
      intro done
      refine last fun y found => ?_
      have none := countP_stepStates.mp done y
      rw [compensated_steps ran ran' ran'' checkpointed] at none
      grind
    rw [if_neg more]
    exact .pure ⟨rfl,bound.taskId,bound.tenantId,free _,⟨rfl,rfl,rfl,rfl,rfl,rfl,rfl,rfl⟩⟩

theorem finishFailed_moves (working : Working (flowOf task tx.rows) x)
    (plan : tx.rows.state = .running ∨ tx.rows.state = .compensating) {maxAttempts : Nat}
    {safeError : String} : Moves encoding tx.rows.plan (.finish now) task tx (Finished task)
      (finishFailedTx encoding tx (snapshotOf tx.rows) task x (tx.rows.attemptsOf x) maxAttempts
        safeError report claimContext now) := by
  have free : ∀ status, Lease.free status task.cancelRequested = .free status false := fun status => by
    rw [show task.cancelRequested = false from working.uncancelled]
  unfold finishFailedTx
  by_cases compensating : tx.rows.state = .compensating
  · refine .of (.compensationFailed working compensating) ?_
    refine Writes.bind (v := [_]) appendStep_writes fun stepped ran => ?_
    refine Writes.bind (v := []) insertCheckpoint_writes fun noted ran' => ?_
    have state : noted.rows.state = .compensating := by
      rw [← view_plan,(ran.trans ran').reached]
      exact compensating
    have step : noted.rows.stepState x = some .failed := by
      rw [reported_steps ran ran',if_pos rfl]
    simp only [snapshotOf_state,compensating,if_true]
    refine Writes.last (markPlanUnknownTx_writes (by simp [state]) (by simp [state]; rfl) step (by simp) rfl)
      fun _ _ => ?_
    exact .pure ⟨rfl,closeRow_settles (free _)⟩
  · have running := plan.resolve_right compensating
    by_cases retry : report.retryable = true ∧ tx.rows.attemptsOf x < maxAttempts
    · refine .of (.stepRetried working running) ?_
      refine Writes.bind (v := [_]) appendStep_writes fun stepped ran => ?_
      refine Writes.bind (v := []) insertCheckpoint_writes fun noted ran' => ?_
      simp only [snapshotOf_state,compensating,if_false,retry,and_self,if_true]
      exact Writes.last appendStep_writes fun _ _ => .pure ⟨rfl,requeueRow_settles (free _)⟩
    · refine .of (.planFailed working running) ?_
      refine Writes.bind (v := [_]) appendStep_writes fun stepped ran => ?_
      refine Writes.bind (v := []) insertCheckpoint_writes fun noted ran' => ?_
      simp only [snapshotOf_state,running,reduceCtorEq,if_false,retry,stepIf,if_true]
      exact Writes.last appendPlan_writes fun _ _ => .pure ⟨rfl,closeRow_settles (free _)⟩

theorem finishCancelled_moves (requested : task.status = .cancelRequested) (bound : task.planStepId = some x)
    (running : tx.rows.stepState x = some .running) (plan : tx.rows.state = .cancelRequested) :
    Moves encoding tx.rows.plan (.finish now) task tx (Finished task)
      (finishCancelledTx encoding tx (snapshotOf tx.rows) task x claimContext now) := by
  unfold finishCancelledTx
  refine .of (.interrupted requested bound running plan) ?_
  refine Writes.last (markPlanUnknownTx_writes (by simp [plan]) (by simp [plan]; rfl) running (by simp) rfl)
    fun _ _ => ?_
  exact .pure ⟨rfl,rfl,rfl,rfl,⟨rfl,rfl,rfl,rfl,rfl,rfl,rfl,rfl⟩⟩

-- A task with a step under lease is working on it, or was asked to stop.
theorem leased_cases (coherent : Coherent (flowOf task tx.rows)) (held : task.planStepId = some x)
    (live : tx.rows.stepState x ≠ some .unknown) :
    (Working (flowOf task tx.rows) x ∧ (tx.rows.state = .running ∨ tx.rows.state = .compensating)) ∨
      (task.status = .cancelRequested ∧ task.cancelRequested = true ∧ tx.rows.stepState x = some .running ∧
        tx.rows.state = .cancelRequested) := by
  obtain ⟨leased,_,_,flag,phase,bound,_,_,_⟩ := coherent
  have running := (bound x held).resolve_right fun unknown => live unknown.1
  simp only [flowOf,leaseOf,held,Option.isSome_some,view_plan,view_steps] at leased flag phase running
  cases status : task.status <;> rw [status] at leased flag phase <;>
    simp only [TaskStatus.isLeased,reduceCtorEq] at leased
  · refine .inl ⟨⟨status,show task.cancelRequested = false by simpa using flag,held,running.1⟩,?_⟩
    simpa [phases,running.2] using phase
  · refine .inr ⟨rfl,by simpa using flag,running.1,?_⟩
    simpa [phases,running.2] using phase

theorem judgeStep_keyless {plan : PlanSpec} :
    Keyless (judgeStep encoding tx plan task x report claimContext now) := by
  unfold judgeStep
  split
  · exact keyless_pure
  · refine .bind loadStepStatesTx_keyless fun _ => ?_
    simp only
    split <;> exact keyless_pure

theorem finishPlannedStepTx_moves {reference : PlanTaskReference} (coherent : Coherent (flowOf task tx.rows))
    (bound : Bound task tx.rows) (columned : Columned tx.rows) :
    Moves encoding tx.rows.plan (.finish now) task tx (Finished task)
      (finishPlannedStepTx encoding tx task reference report claimContext now) := by
  unfold finishPlannedStepTx
  refine .check loadPlanTx_keyless fun plan loaded => ?_
  obtain rfl := (loadPlanTx_ok.mp loaded).1
  refine .check (by simp) fun x held => .check (by simp) fun row stored => .check (by simp) fun _ _ =>
    .check (by simp) fun _ live => ?_
  rw [orFail_ok] at held stored
  rw [require_ok] at live
  have state : tx.rows.stepState x = some row.state := by simp [PlanRows.stepState,stored]
  have attempts : row.attempts = tx.rows.attemptsOf x := by simp [PlanRows.attemptsOf,stored]
  rcases leased_cases coherent held (by rw [state]; rcases live with live | live <;> simp [live]) with
    ⟨working,plan⟩ | ⟨status,requested,running,plan⟩
  · rw [if_neg (by simp [show task.cancelRequested = false from working.uncancelled,
      show task.status = .running from working.status]),attempts]
    refine .check judgeStep_keyless fun verdict _ => ?_
    cases verdict with
    | some safeError => exact finishFailed_moves working plan
    | none =>
      rcases plan with running | compensating
      · exact finishSucceeded_running working running
      · exact finishSucceeded_compensating bound columned working compensating
  · rw [if_pos (.inl requested)]
    exact finishCancelled_moves status held running plan

end Finish

section Cancel
variable {encoding : StoreEncoding} {tx : PlanTx} {task : TaskRecord} {reference : PlanTaskReference}
  {now : Time}

def Cancelled (now : Time) (task : TaskRecord) (result tx' : PlanTx) (lease : Lease) : Prop :=
  result = tx' ∧ leaseOf (cancelRow now task) = lease

theorem cancelSteps_writes {plan : PlanSpec} {entries : StepStates} :
    WritesTx encoding tx (cancelledWrites encoding.toEncoding now (entries.map (·.1)))
      (foldEach (cancelStep encoding plan now) tx entries) :=
  WritesTx.foldAll (k := fun id => (StoreKey.step .cancelled id).text encoding.toEncoding)
    (fun _ _ => appendStep_writes) tx

theorem isUnstarted_plain {state : PlanStepState} (plain : state ≠ .awaitingApproval) :
    isUnstarted state = true ↔ state = .pending ∨ state = .ready := by
  cases state <;> simp_all [isUnstarted]

theorem mem_unstarted {rows : PlanRows} {y : PlanStepId}
    (plain : ∀ x, rows.stepState x ≠ some .awaitingApproval) :
    y ∈ (rows.stepStates.filter fun entry => isUnstarted entry.2).map (·.1) ↔
      rows.stepState y = some .pending ∨ rows.stepState y = some .ready := by
  simp only [List.mem_map,List.mem_filter,mem_stepStates,Prod.exists,exists_and_right,exists_eq_right]
  constructor
  · rintro ⟨state,found,unstarted⟩
    have := (isUnstarted_plain fun awaiting => plain y (awaiting ▸ found)).mp unstarted
    simpa [found] using this
  · rintro (found | found) <;> exact ⟨_,found,rfl⟩

theorem cancelPlannedTaskTx_moves (coherent : Coherent (flowOf task tx.rows))
    (open_ : task.status.isTerminal = false) :
    Moves encoding tx.rows.plan .cancel task tx (Cancelled now task)
      (cancelPlannedTaskTx encoding tx task reference now) := by
  unfold cancelPlannedTaskTx
  refine .check loadPlanTx_keyless fun plan loaded => ?_
  obtain rfl := (loadPlanTx_ok.mp loaded).1
  refine .check (keyless_require.mpr (.inr (by simp))) fun _ allowed => ?_
  rw [require_ok,snapshotOf_state] at allowed
  have phase := coherent.phase
  simp only [flowOf,leaseOf,view_plan] at phase
  cases status : task.status with
  | queued =>
    have plan : tx.rows.state = .approved ∨ tx.rows.state = .running := by
      simp only [status,phases,List.mem_cons,List.not_mem_nil,or_false] at phase
      tauto
    obtain ⟨ids,listed⟩ : ∃ ids, ids =
        (tx.rows.stepStates.filter fun entry => isUnstarted entry.2).map (·.1) := ⟨_,rfl⟩
    refine .of (@Move.cancelQueued _ _ ids _ now status plan ?_ ?_) ?_
    · rw [listed]
      exact (stepStates_keys tx.rows ▸ sortedStepIds_nodup tx.rows).sublist (List.filter_sublist.map _)
    · intro y
      rw [listed]
      exact mem_unstarted fun x => (coherent.plain x).2.2
    · simp only [if_true,snapshotOf_state]
      have asked : WritesTx encoding tx _ (stepIf (tx.rows.state = .approved ∨ tx.rows.state = .running)
          (appendPlanTransitionTx encoding tx (snapshotOf tx.rows) tx.rows.state .cancelRequested
            "cancel:plan:requested" now) tx) := WritesTx.stepIf fun _ => appendPlan_writes
      rw [if_pos plan] at asked
      refine Writes.bind (v := [_]) asked fun requested ran => ?_
      refine .check loadStepStatesTx_keyless fun states read => ?_
      obtain rfl := loadStepStatesTx_ok read
      have same : requested.rows.stepStates = tx.rows.stepStates :=
        stepStates_congr ran.edits.same.keys (by rw [← view_steps,ran.reached]; rfl)
      rw [same,listed]
      refine Writes.bind cancelSteps_writes fun closed ran' => ?_
      have state : closed.rows.state = .cancelRequested := by
        rw [← view_plan,(ran.trans ran').reached]
        simp
      rw [stepIf,if_pos state]
      refine appendPlan_writes.weaken fun a tx' same => ⟨same,?_⟩
      simp [leaseOf,cancelRow,status,flowOf]
  | running =>
    have plan : tx.rows.state = .running := by
      simp only [status,phases,List.mem_cons,List.not_mem_nil,or_false] at phase
      tauto
    refine .of (@Move.cancelRunning _ _ _ now status plan) ?_
    rw [if_neg (by simp),stepIf,if_pos ⟨rfl,plan⟩]
    refine appendPlan_writes.weaken fun a tx' same => ⟨same,?_⟩
    simp [leaseOf,cancelRow,status,flowOf]
  | cancelRequested =>
    refine .of (.cancelAgain status) ?_
    rw [if_neg (by simp),stepIf,if_neg (by simp)]
    refine .pure ⟨rfl,?_⟩
    simp [leaseOf,cancelRow,status,flowOf]
  | succeeded | failed | cancelled => simp [status,TaskStatus.isTerminal] at open_

def Recovered (task : TaskRecord) (result : PlanTx × TaskUpdate) (tx' : PlanTx) (lease : Lease) : Prop :=
  result.1 = tx' ∧ Settles result.2 task lease

theorem recoverExpiredPlanLeaseTx_moves (coherent : Coherent (flowOf task tx.rows))
    (leased : task.status.isLeased = true) :
    Moves encoding tx.rows.plan (.recover now) task tx (Recovered task)
      (recoverExpiredPlanLeaseTx encoding tx task reference now) := by
  have held : task.planStepId.isSome := coherent.leased.symm.trans leased
  obtain ⟨x,held⟩ := Option.isSome_iff_exists.mp held
  have settled :
      ∀ lease tx', Lease.free (if task.cancelRequested then TaskStatus.cancelled else TaskStatus.failed)
      task.cancelRequested = lease → Recovered task (tx',taskUpdate task fun row => unbindStep {releaseRow
        (if task.cancelRequested then TaskStatus.cancelled else TaskStatus.failed) now row with
          completedAt:=some now,lastError:=some "lease planejada expirada; estado requer resolução"})
              tx' lease :=
    fun lease tx' same => ⟨rfl,rfl,rfl,same,⟨rfl,rfl,rfl,rfl,rfl,rfl,rfl,rfl⟩⟩
  unfold recoverExpiredPlanLeaseTx
  refine .check loadPlanTx_keyless fun plan loaded => ?_
  rw [held]
  rcases coherent.bound x held with ⟨running,known⟩ | ⟨unknown,plan⟩
  · have live : tx.rows.stepState x ≠ some .unknown := fun unknown => by
      simp [show tx.rows.stepState x = some .running from running] at unknown
    have state : tx.rows.state = .running ∨ tx.rows.state = .compensating ∨
        tx.rows.state = .cancelRequested := by
      rcases leased_cases coherent held live with ⟨_,plan⟩ | ⟨_,_,_,plan⟩
      · tauto
      · exact .inr (.inr plan)
    refine .of (.leaseExpired leased held running state) ?_
    exact Writes.last (markPlanUnknownTx_writes known (by rcases state with s | s | s <;> rw [s] <;> rfl)
      running (by simp) rfl) fun _ _ => .pure (settled _ _ rfl)
  · refine .of (.unknownExpired leased plan) ?_
    exact Writes.last (markPlanUnknownTx_idle plan unknown) fun _ _ => .pure (settled _ _ rfl)

end Cancel

end Shaka.Plan
