import Shaka.Store.Linked

namespace Shaka.Properties
open Shaka.Core Queue Plan Store CheckedSteps GuardedRuns

variable {encoding : StoreEncoding} {s s' : QueueStore}

-- The first match in a sorted list comes before every other.
theorem find?_least {α : Type} {r : α → α → Prop} {p : α → Bool} {items : List α} {x y : α}
    (sorted : items.Pairwise r) (found : items.find? p = some x) (listed : y ∈ items)
    (matched : p y = true) : y = x ∨ r x y := by
  obtain ⟨_,before,after,rfl,unmatched⟩ := List.find?_eq_some_iff_append.mp found
  rcases List.mem_append.mp listed with early | late
  · have refused := unmatched y early
    rw [matched] at refused
    cases refused
  · rcases List.mem_cons.mp late with same | later
    · exact .inl same
    · exact .inr (List.rel_of_pairwise_cons (List.pairwise_append.mp sorted).2.1 later)

-- What a claim that binds a step has found.
structure Grants (encoding : StoreEncoding) (s : QueueStore) (planContext : PlanClaimContext) (now : Time)
    (task : TaskRecord) (key : PlanKey) (rows : PlanRows) (reference : PlanTaskReference)
    (step : PlanStep) : Prop where
  refers : planKeyOf task = some key
  stored : s.plans.lookup key = some rows
  granted : Granted encoding ⟨rows,s.nextUuid⟩ task reference (effectiveContext planContext task) now step

theorem claim_granted (linked : Linked encoding s) {now leaseFor : Time} {planContext : PlanClaimContext}
    {claimed : TaskRecord} {x : PlanStepId}
    (ok : claimNextWithPlanContext encoding s now leaseFor planContext = .ok (some claimed,s'))
    (bound : claimed.planStepId = some x) :
    ∃ task key rows reference step, s.tasks.lookup claimed.taskId = some task ∧
      step.stepId = x ∧ Grants encoding s planContext now task key rows reference step := by
  obtain ⟨task,found,_,⟨_,unbound⟩ | ⟨reference,rows,step,_,prepared⟩⟩ :=
    claim_prepared (fun taskId task found => (linked.rowed taskId task found).taskId) ok
  · rw [unbound] at bound
    cases bound
  · exact ⟨task,_,rows,reference,step,found,Option.some.inj (prepared.bound.symm.trans bound),
      taskReference_key prepared.named,prepared.stored,prepared.granted⟩

-- Some other step of the plan names it as its compensation.
def Declared (rows : PlanRows) (x : PlanStepId) : Prop :=
  ∃ source ∈ rows.plan.steps, source.stepId ≠ x ∧ source.compensationStepId = some x

-- A declared step is claimed only to compensate a step that declares it.
def RunsAsCompensation (rows : PlanRows) (x : PlanStepId) : Prop :=
  Declared rows x → rows.state = .compensating ∧ ∃ source ∈ rows.plan.steps, source.stepId ≠ x ∧
    source.compensationStepId = some x ∧ rows.stepState source.stepId = some .compensating

-- A step that a claim could bind: it waits, its dependencies are done, and the verifier finds it ready.
structure Startable (encoding : StoreEncoding) (task : TaskRecord) (planContext : PlanClaimContext)
    (now : Time) (rows : PlanRows) (step : PlanStep) : Prop where
  listed : step ∈ rows.plan.steps
  waiting : rows.stepState step.stepId = some .pending ∨ rows.stepState step.stepId = some .ready
  dependencies : ∀ dependency ∈ step.dependsOn, rows.stepState dependency = some .succeeded
  ready : isExecutable encoding (snapshotOf rows) (stepReadyContext task rows.stepStates
    (loadApprovalsTx rows (snapshotOf rows)) (effectiveContext planContext task) now step.stepId) = true

-- Each startable step that another declares stands behind a startable step that none declares.
def Screened (encoding : StoreEncoding) (task : TaskRecord) (planContext : PlanClaimContext) (now : Time)
    (rows : PlanRows) : Prop :=
  ∀ step, Startable encoding task planContext now rows step → Declared rows step.stepId →
    ∃ earlier, Startable encoding task planContext now rows earlier ∧ ¬ Declared rows earlier.stepId ∧
      PlanStepId.le earlier.stepId step.stepId ∧ earlier.stepId ≠ step.stepId

theorem compensationTargets_sources {plan : PlanSpec} {states : StepStates} {x : PlanStepId}
    (target : x ∈ compensationTargets plan states) : plan.state = .compensating ∧ ∃ source ∈ plan.steps,
      source.compensationStepId = some x ∧ states.lookup source.stepId = some .compensating := by
  unfold compensationTargets at target
  split at target
  · rename_i compensating
    obtain ⟨source,among,declares⟩ := List.mem_filterMap.mp target
    obtain ⟨listed,state⟩ := List.mem_filter.mp among
    exact ⟨compensating,source,listed,declares,by simpa using state⟩
  · cases target

variable {planContext : PlanClaimContext} {now : Time} {task : TaskRecord} {key : PlanKey} {rows : PlanRows}
  {reference : PlanTaskReference} {step : PlanStep}

theorem Grants.startable (grants : Grants encoding s planContext now task key rows reference step) :
    Startable encoding task planContext now rows step := by
  obtain ⟨listed,waiting,dependencies,ready⟩ := grants.granted.step
  exact ⟨listed,waiting,dependencies,ready⟩

-- Outside of a compensation the bound step is the least of the startable ones.
theorem Grants.least (grants : Grants encoding s planContext now task key rows reference step)
    (forward : rows.state ≠ .compensating) {other : PlanStep}
    (startable : Startable encoding task planContext now rows other) :
    other = step ∨ PlanStepId.le step.stepId other.stepId := by
  have sorted := List.pairwise_insertionSort (fun left right : PlanStep =>
    PlanStepId.le left.stepId right.stepId) ((snapshotOf rows).steps.filter fun step =>
      (rows.stepStates.lookup step.stepId == some .ready || rows.stepStates.lookup step.stepId ==
        some .pending) &&
      ((snapshotOf rows).state != .compensating ||
        (compensationTargets (snapshotOf rows) rows.stepStates).contains step.stepId))
  refine find?_least sorted grants.granted.selected ?_ ?_
  · refine mem_stepCandidates.mpr ⟨startable.listed,?_,fun compensating => absurd compensating forward⟩
    rw [lookup_stepStates]
    exact startable.waiting.symm
  · simp only [Bool.and_eq_true,List.all_eq_true,List.contains_iff_mem,mem_succeededSteps]
    exact ⟨startable.dependencies,startable.ready⟩

theorem Grants.compensates (grants : Grants encoding s planContext now task key rows reference step)
    (compensating : rows.state = .compensating) : RunsAsCompensation rows step.stepId := by
  intro _
  have candidate := mem_stepCandidates.mp (List.mem_of_find?_eq_some grants.granted.selected)
  obtain ⟨_,source,listed,declares,state⟩ := compensationTargets_sources (candidate.2.2 compensating)
  rw [lookup_stepStates] at state
  refine ⟨compensating,source,listed,fun same => ?_,declares,state⟩
  rw [same] at state
  rcases grants.startable.waiting with waiting | waiting
  · cases waiting.symm.trans state
  · cases waiting.symm.trans state

theorem Grants.screened (grants : Grants encoding s planContext now task key rows reference step)
    (forward : rows.state ≠ .compensating) :
    RunsAsCompensation rows step.stepId ↔ Screened encoding task planContext now rows := by
  constructor
  · intro only other startable declared
    have undeclared : ¬ Declared rows step.stepId := fun declared => forward (only declared).1
    rcases grants.least forward startable with rfl | before
    · exact absurd declared undeclared
    · refine ⟨step,grants.startable,undeclared,before,fun same => undeclared ?_⟩
      rwa [same]
  · intro screened declared
    obtain ⟨earlier,startable,undeclared,before,differs⟩ := screened step grants.startable declared
    rcases grants.least forward startable with rfl | after
    · exact absurd rfl differs
    · exact absurd (antisymm before after) differs

-- A claim binds a declared step only as a compensation exactly when the plan is compensating or
-- no startable declared step comes before the startable others.
theorem compensation_only (run : Run encoding (fun _ _ => True) s) {now leaseFor : Time}
    {planContext : PlanClaimContext} {claimed : TaskRecord} {x : PlanStepId}
    (ok : claimNextWithPlanContext encoding s now leaseFor planContext = .ok (some claimed,s'))
    (bound : claimed.planStepId = some x) :
    ∃ task key rows, s.tasks.lookup claimed.taskId = some task ∧ planKeyOf task = some key ∧
      s.plans.lookup key = some rows ∧ (RunsAsCompensation rows x ↔
        rows.state = .compensating ∨ Screened encoding task planContext now rows) := by
  obtain ⟨task,key,rows,reference,step,listed,rfl,grants⟩ := claim_granted (run_linked run) ok bound
  refine ⟨task,key,rows,listed,grants.refers,grants.stored,?_⟩
  by_cases compensating : rows.state = .compensating
  · exact ⟨fun _ => .inl compensating,fun _ => grants.compensates compensating⟩
  · rw [grants.screened compensating]
    exact (or_iff_right compensating).symm

-- A plan whose step is lost and compensated by decision, and one that starts with its compensation.

def decidedRun : List Operation := trialOpen 7 [trialStep "a" [] (some "undo"),trialStep "undo" [] none] ++
  [trialClaim 2,.recoverExpiredLeases (second 5),trialResolve 7 .compensate "fix-1" 6]

theorem compensation_only_decided :
    ∃ claimed s', claimNextWithPlanContext trialEncoding (trial decidedRun) (second 7)
    (second 1) .default = .ok (some claimed,s') ∧ claimed.planStepId = some ⟨"undo"⟩ ∧
    ∃ task key rows, (trial decidedRun).tasks.lookup claimed.taskId = some task ∧ planKeyOf task = some key ∧
      (trial decidedRun).plans.lookup key = some rows ∧ (RunsAsCompensation rows ⟨"undo"⟩ ↔
        rows.state = .compensating ∨ Screened trialEncoding task .default (second 7) rows) := by
  have evaluated :
      (claimNextWithPlanContext trialEncoding (trial decidedRun) (second 7) (second 1) .default).toOption.map
      (fun answer => answer.1.map (·.planStepId)) = some (some (some ⟨"undo"⟩)) := by decide +kernel
  obtain ⟨claimed,s',claim,bound⟩ := handed_out evaluated
  have run : Run trialEncoding (fun _ _ => True) (trial decidedRun) :=
    (@ordinary_run _ decidedRun rfl).weaken fun _ _ _ => trivial
  exact ⟨claimed,s',claim,bound,compensation_only run claim bound⟩

def forwardRun : List Operation := trialOpen 7 [trialStep "a" [] none,trialStep "b" [] (some "a")]

theorem compensation_only_forward :
    ∃ claimed s' rows, claimNextWithPlanContext trialEncoding (trial forwardRun) (second 2)
    (second 1) .default = .ok (some claimed,s') ∧ claimed.planStepId = some ⟨"a"⟩ ∧
    (trial forwardRun).plans.lookup (⟨7⟩,1) = some rows ∧ ¬ RunsAsCompensation rows ⟨"a"⟩ := by
  have evaluated :
      (claimNextWithPlanContext trialEncoding (trial forwardRun) (second 2) (second 1) .default).toOption.map
      (fun answer => answer.1.map (·.planStepId)) = some (some (some ⟨"a"⟩)) := by decide +kernel
  obtain ⟨claimed,s',claim,bound⟩ := handed_out evaluated
  have planned : ((trial forwardRun).plans.lookup (⟨7⟩,1)).map (fun rows => (rows.state,rows.plan.steps)) =
      some (.approved,[trialStep "a" [] none,trialStep "b" [] (some "a")]) := by decide +kernel
  obtain ⟨rows,stored,same⟩ := Option.map_eq_some_iff.mp planned
  simp only [Prod.mk.injEq] at same
  refine ⟨claimed,s',rows,claim,bound,stored,fun only => ?_⟩
  have declared : Declared rows ⟨"a"⟩ := by
    refine ⟨trialStep "b" [] (some "a"),?_,by decide,rfl⟩
    rw [same.2]
    exact List.mem_cons_of_mem _ List.mem_cons_self
  have compensating := (only declared).1
  rw [same.1] at compensating
  cases compensating

end Shaka.Properties
