import Shaka.Plan.Writes
import Shaka.Plan.Coherence
import Shaka.Queue.Claim

namespace Shaka.Plan
open Shaka.Core Queue CheckedSteps

def flowOf (task : TaskRecord) (rows : PlanRows) : Flow := ⟨leaseOf task,view rows⟩

-- The snapshot of a plan that a transaction works with.
def snapshotOf (rows : PlanRows) : PlanSpec := {rows.plan with state:=rows.state}

@[simp] theorem snapshotOf_state (rows : PlanRows) : (snapshotOf rows).state = rows.state := rfl
@[simp] theorem snapshotOf_steps (rows : PlanRows) : (snapshotOf rows).steps = rows.plan.steps := rfl
@[simp] theorem snapshotOf_stepIds (rows : PlanRows) : (snapshotOf rows).stepIds = rows.plan.stepIds := rfl

theorem loadPlanTx_ok {encoding : StoreEncoding} {rows : PlanRows} {tenantId : TenantId}
    {reference : PlanTaskReference} {plan : PlanSpec} :
    loadPlanTx encoding rows tenantId reference = .ok plan ↔ plan = snapshotOf rows ∧
      rows.tenantId = tenantId ∧ rows.digest = reference.digest ∧ rows.plan.planId = reference.planId ∧
      rows.plan.revision = reference.revision ∧ rows.plan.tenantId = tenantId ∧
      rows.plan.digest = reference.digest ∧ (snapshotOf rows).validateStructure = .ok () ∧
      (snapshotOf rows).verifyDigest encoding.toEncoding = .ok () := by
  simp only [loadPlanTx,bind_ok,require_ok,liftCore_ok,pure_ok,exists_const]
  constructor
  · rintro ⟨tenant,digest,⟨planId,revision,planTenant,planDigest⟩,_,structured,_,sealed,rfl⟩
    exact ⟨rfl,tenant,digest,planId,revision,planTenant,planDigest,structured,sealed⟩
  · rintro ⟨rfl,tenant,digest,planId,revision,planTenant,planDigest,structured,sealed⟩
    exact ⟨tenant,digest,⟨planId,revision,planTenant,planDigest⟩,(),structured,(),sealed,rfl⟩

theorem loadStepStatesTx_ok {rows : PlanRows} {states : StepStates}
    (ok : loadStepStatesTx rows = .ok states) : states = rows.stepStates := by
  simp only [loadStepStatesTx,bind_ok,pure_ok] at ok
  obtain ⟨_,_,rfl⟩ := ok
  rfl

theorem mem_loadApprovals {rows : PlanRows} {plan : PlanSpec} {approval : PlanApproval}
    (listed : approval ∈ loadApprovalsTx rows plan) : ∃ row ∈ rows.approvals, row.approval = approval := by
  simp only [loadApprovalsTx,List.mem_map,List.mem_insertionSort,List.mem_filter] at listed
  obtain ⟨row,⟨stored,_⟩,same⟩ := listed
  exact ⟨row,stored,same⟩

-- What a claim has checked when it answers with a step.
structure Granted (encoding : StoreEncoding) (tx : PlanTx) (task : TaskRecord) (reference : PlanTaskReference)
    (claimContext : PlanClaimContext) (now : Time) (step : PlanStep) : Prop where
  loaded : loadPlanTx encoding tx.rows task.tenantId reference = .ok (snapshotOf tx.rows)
  taskId : tx.rows.plan.taskId = task.taskId
  mode : tx.rows.plan.mode = .dryRun
  unbound : task.planStepId = none
  claimable : isClaimable tx.rows.state = true
  states : loadStepStatesTx tx.rows = .ok tx.rows.stepStates
  preflight : isExecutable encoding (snapshotOf tx.rows)
    (preflightContext (loadApprovalsTx tx.rows (snapshotOf tx.rows)) now) = true
  selected : selectStep encoding (snapshotOf tx.rows) task tx.rows.stepStates
    (loadApprovalsTx tx.rows (snapshotOf tx.rows)) claimContext now = some step

theorem preparePlannedClaimTx_ok {encoding : StoreEncoding} {tx tx' : PlanTx} {task : TaskRecord}
    {reference : PlanTaskReference} {claimContext : PlanClaimContext} {now : Time} {step : PlanStep} :
    preparePlannedClaimTx encoding tx task reference claimContext now = .ok (some (step,tx')) ↔
      Granted encoding tx task reference claimContext now step ∧
      bindStepTx encoding tx (snapshotOf tx.rows) tx.rows.stepStates step claimContext now = .ok tx' := by
  simp only [preparePlannedClaimTx,bind_ok,require_ok,exists_const]
  constructor
  · rintro ⟨plan,loaded,⟨taskId,mode⟩,unbound,rest⟩
    obtain rfl := (loadPlanTx_ok.mp loaded).1
    split at rest
    · simp at rest
    next claimable =>
    obtain ⟨states,read,rest⟩ := bind_ok.mp rest
    obtain rfl := loadStepStatesTx_ok read
    split at rest
    · simp at rest
    next preflight =>
    split at rest
    · simp at rest
    next selected found =>
    obtain ⟨bound,ran,same⟩ := bind_ok.mp rest
    simp only [pure_ok,Option.some.injEq,Prod.mk.injEq] at same
    obtain ⟨rfl,rfl⟩ := same
    exact ⟨⟨loaded,taskId,mode,unbound,by simpa using claimable,read,by simpa using preflight,found⟩,ran⟩
  · rintro ⟨granted,ran⟩
    refine ⟨_,granted.loaded,⟨granted.taskId,granted.mode⟩,granted.unbound,?_⟩
    rw [if_neg (by simp [granted.claimable]),granted.states,ok_bind,if_neg (by simp [granted.preflight]),
      granted.selected]
    simp only [ran,ok_bind]
    rfl

theorem mem_stepCandidates {plan : PlanSpec} {states : StepStates} {step : PlanStep} :
    step ∈ stepCandidates plan states ↔ step ∈ plan.steps ∧
      (states.lookup step.stepId = some .ready ∨ states.lookup step.stepId = some .pending) ∧
      (plan.state = .compensating → step.stepId ∈ compensationTargets plan states) := by
  simp only [stepCandidates,List.mem_insertionSort,List.mem_filter,Bool.and_eq_true,Bool.or_eq_true,
    beq_iff_eq,bne_iff_ne,List.contains_iff_mem,ne_eq]
  tauto

theorem mem_succeededSteps {rows : PlanRows} {stepId : PlanStepId} :
    stepId ∈ succeededSteps rows.stepStates ↔ rows.stepState stepId = some .succeeded := by
  simp only [succeededSteps,List.mem_map,List.mem_filter,beq_iff_eq,mem_stepStates]
  constructor
  · rintro ⟨⟨x,state⟩,⟨found,same⟩,rfl⟩
    exact same ▸ found
  · exact fun found => ⟨(stepId,.succeeded),⟨found,rfl⟩,rfl⟩

theorem selectStep_some {encoding : StoreEncoding} {rows : PlanRows} {task : TaskRecord}
    {approvals : List PlanApproval} {claimContext : PlanClaimContext} {now : Time} {step : PlanStep}
    (selected : selectStep encoding (snapshotOf rows) task rows.stepStates approvals claimContext now =
      some step) :
    step ∈ rows.plan.steps ∧ (rows.stepState step.stepId = some .pending ∨
      rows.stepState step.stepId = some .ready) ∧
      (∀ dependency ∈ step.dependsOn, rows.stepState dependency = some .succeeded) ∧
      isExecutable encoding (snapshotOf rows)
        (stepReadyContext task rows.stepStates approvals claimContext now step.stepId) = true := by
  have candidate := mem_stepCandidates.mp (List.mem_of_find?_eq_some selected)
  have ready := List.find?_some selected
  simp only [Bool.and_eq_true,List.all_eq_true,List.contains_iff_mem,mem_succeededSteps] at ready
  simp only [lookup_stepStates,snapshotOf_steps] at candidate
  exact ⟨candidate.1,candidate.2.1.symm,ready.1,ready.2⟩

theorem bump_ran {encoding : StoreEncoding} {tx : PlanTx} {stepId : PlanStepId}
    (present : (tx.rows.steps.lookup stepId).isSome) :
    Ran encoding tx {tx with rows:=tx.rows.updateStep stepId bumpAttempts} [.attempt stepId] :=
  ⟨.single .attempt,view_bump tx.rows stepId present⟩

theorem bindStepTx_writes {encoding : StoreEncoding} {tx : PlanTx} {selected : PlanStep}
    {claimContext : PlanClaimContext} {now : Time} :
    WritesTx encoding tx (claimWrites encoding.toEncoding (view tx.rows) selected.stepId now)
      (bindStepTx encoding tx (snapshotOf tx.rows) tx.rows.stepStates selected claimContext now) := by
  unfold bindStepTx claimWrites
  refine Writes.bind (WritesTx.stepIf fun _ => appendPlan_writes) fun started ran => ?_
  have view' := ran.reached
  have steps : (view started.rows).steps = (view tx.rows).steps := by rw [view']; split <;> simp
  have attempts : (view started.rows).attempts = (view tx.rows).attempts := by rw [view']; split <;> simp
  refine .check (by simp) fun current found => .check (by simp) fun row stored =>
    .check (by simp) fun _ _ => ?_
  rw [orFail_ok,lookup_stepStates] at found
  rw [orFail_ok] at stored
  have counted : (view tx.rows).attempts selected.stepId = row.attempts := by
    rw [← attempts]
    simp [PlanRows.attemptsOf,stored]
  have number : claimNumber (view tx.rows) selected.stepId = min (row.attempts + 1) maxU32 := by
    rw [claimNumber,counted]
  rw [number]
  refine Writes.bind ?_ fun readied _ => Writes.bind appendStep_writes fun bound ran => ?_
  · simp only [view_steps,found,Option.some.injEq]
    exact WritesTx.stepIf fun _ => appendStep_writes
  · have present : (bound.rows.stepState selected.stepId).isSome := by
      rw [← view_steps,ran.reached]
      simp
    exact Writes.after (bump_ran (by simpa [PlanRows.stepState] using present)) insertCheckpoint_writes

theorem Granted.step {encoding : StoreEncoding} {tx : PlanTx} {task : TaskRecord}
    {reference : PlanTaskReference} {claimContext : PlanClaimContext} {now : Time} {step : PlanStep}
    (granted : Granted encoding tx task reference claimContext now step) :
    step ∈ tx.rows.plan.steps ∧
      (tx.rows.stepState step.stepId = some .pending ∨ tx.rows.stepState step.stepId = some .ready) ∧
      (∀ dependency ∈ step.dependsOn, tx.rows.stepState dependency = some .succeeded) ∧
      isExecutable encoding (snapshotOf tx.rows) (stepReadyContext task tx.rows.stepStates
        (loadApprovalsTx tx.rows (snapshotOf tx.rows)) claimContext now step.stepId) = true :=
  selectStep_some granted.selected

theorem isClaimable_states {state : PlanState} (claimable : isClaimable state = true) :
    state = .approved ∨ state = .running ∨ state = .compensating := by
  cases state <;> simp_all [isClaimable]

theorem Granted.claimable_step {encoding : StoreEncoding} {tx : PlanTx} {task : TaskRecord}
    {reference : PlanTaskReference} {claimContext : PlanClaimContext} {now : Time} {step : PlanStep}
    (granted : Granted encoding tx task reference claimContext now step) (due : isDue now task = true) :
    Claimable tx.rows.plan (flowOf task tx.rows) step.stepId := by
  simp only [isDue,Bool.and_eq_true,beq_iff_eq,Bool.not_eq_true',decide_eq_true_eq] at due
  obtain ⟨present,state,ready,_⟩ := granted.step
  exact ⟨due.1.1,due.1.2,isClaimable_states granted.claimable,state,step,present,rfl,ready⟩

-- A transaction that makes one move of the life of a task, and that is refused
-- for a taken key only where a move would record a key that is taken.
structure Moves (encoding : StoreEncoding) (spec : PlanSpec) (act : Act) (task : TaskRecord) (tx : PlanTx)
    {α : Type} (post : α → PlanTx → Lease → Prop) (run : Except QueueError α) : Prop where
  done : ∀ a, run = .ok a → ∃ ws lease tx', Move encoding.toEncoding spec act (flowOf task tx.rows) ws lease ∧
    Ran encoding tx tx' ws ∧ post a tx' lease
  refused : run = .error (.sqlite .uniqueTransitionKey) →
    ∃ ws lease, Move encoding.toEncoding spec act (flowOf task tx.rows) ws lease ∧ ¬ Fresh (view tx.rows) ws

theorem Moves.of {encoding : StoreEncoding} {spec : PlanSpec} {act : Act} {task : TaskRecord} {tx : PlanTx}
    {α : Type} {post : α → PlanTx → Lease → Prop} {run : Except QueueError α} {ws : List Write}
    {lease : Lease} (move : Move encoding.toEncoding spec act (flowOf task tx.rows) ws lease)
    (writes : Writes encoding tx ws (fun a tx' => post a tx' lease) run) :
    Moves encoding spec act task tx post run := by
  constructor
  · intro a ok
    obtain ⟨tx',ran,holds⟩ := writes.done a ok
    exact ⟨ws,lease,tx',move,ran,holds⟩
  · exact fun refused => ⟨ws,lease,move,writes.refused refused⟩

theorem Moves.check {encoding : StoreEncoding} {spec : PlanSpec} {act : Act} {task : TaskRecord}
    {tx : PlanTx} {α β : Type} {post : α → PlanTx → Lease → Prop} {read : Except QueueError β}
    {next : β → Except QueueError α} (harmless : Keyless read)
    (rest : ∀ b, read = .ok b → Moves encoding spec act task tx post (next b)) :
    Moves encoding spec act task tx post (read >>= next) := by
  constructor
  · intro a ok
    obtain ⟨b,found,ran⟩ := bind_ok.mp ok
    exact (rest b found).done a ran
  · intro refused
    rcases bind_error.mp refused with stopped | ⟨b,found,ran⟩
    · exact absurd stopped harmless
    · exact (rest b found).refused ran

end Shaka.Plan
