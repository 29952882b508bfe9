import Shaka.Store.Linked

namespace Shaka.Properties
open Shaka.Core Queue Plan Store CheckedSteps GuardedRuns

variable {encoding : StoreEncoding} {s s' : QueueStore}

-- A planned submission under a new key asks for no more than the plan it names
-- allows, and a claim is told of no more than the plans of the waiting tasks allow.
def BudgetsWithin (s : QueueStore) : Operation → Prop
  | .submit request _ => ∀ reference rows, request.planReference = some reference →
      (∀ task ∈ s.taskRows, task.tenantId = request.principal.tenantId →
        task.idempotencyKey ≠ request.idempotencyKey) →
      s.plans.lookup (reference.planId,reference.revision) = some rows →
      budgetAtLeast rows.plan.budget request.envelope.budget = true
  | .claim now _ planContext => ∀ remaining task key rows, planContext.remainingBudget = some remaining →
      task ∈ s.taskRows → isDue now task = true → planKeyOf task = some key → s.plans.lookup key = some rows →
      budgetAtLeast rows.plan.budget remaining = true
  | _ => True

-- No task has a larger budget than the plan that it is for.
def BudgetsBound (s : QueueStore) : Prop :=
  ∀ taskId row key rows, s.tasks.lookup taskId = some row → planKeyOf row = some key →
    s.plans.lookup key = some rows → budgetAtLeast rows.plan.budget row.envelope.budget = true

theorem SameIdentity.key {row row' : TaskRecord} (same : SameIdentity row row') :
    planKeyOf row' = planKeyOf row := by
  rw [planKeyOf,planKeyOf,same.planId,same.planRevision]

theorem newTask_key {request : SubmitRequest} {envelope : TaskEnvelope} {now : Time} {key : PlanKey}
    (keyed : planKeyOf (newTask request envelope now) = some key) :
    ∃ reference, request.planReference = some reference ∧ key = (reference.planId,reference.revision) := by
  cases named : request.planReference with
  | none => simp [planKeyOf,newTask,named] at keyed
  | some reference =>
    refine ⟨reference,rfl,?_⟩
    simpa [planKeyOf,newTask,named,eq_comm] using keyed

-- A row that was there before keeps its budget, and its plan is the one it had.
theorem kept_budget {op : Operation} {row row' : TaskRecord} {taskId : TaskId} {key : PlanKey}
    {rows' : PlanRows} (linked : Linked encoding s) (bound : BudgetsBound s)
    (found : s.tasks.lookup taskId = some row) (planKey : planKeyOf row' = planKeyOf row)
    (envelope : row'.envelope = row.envelope) (keyed : planKeyOf row' = some key)
    (stored : (exec encoding s op).plans.lookup key = some rows') :
    budgetAtLeast rows'.plan.budget row'.envelope.budget = true := by
  have keyed := planKey.symm.trans keyed
  obtain ⟨rows,present,_⟩ := linked.joined taskId row key found keyed
  obtain ⟨rows'',stored',plan,_⟩ := (exec_carries encoding s op).kept key rows present
  obtain rfl := Option.some.inj (stored.symm.trans stored')
  rw [plan,envelope]
  exact bound taskId row key rows found keyed present

theorem exec_budgets (linked : Linked encoding s) (op : Operation) (within : BudgetsWithin s op)
    (bound : BudgetsBound s) : BudgetsBound (exec encoding s op) := by
  intro taskId row' key rows' found keyed stored
  have change := exec_rows linked op taskId
  rw [found] at change
  generalize was : s.tasks.lookup taskId = before at change
  cases change with
  | kept => exact kept_budget linked bound was rfl rfl keyed stored
  | stepped step =>
    exact kept_budget linked bound was (SameIdentity.key step.identity) step.identity.envelope keyed stored
  | @entered request envelope clock budget =>
    obtain ⟨reference,named,rfl⟩ := newTask_key keyed
    rcases (exec_carries encoding s (.submit request clock)).origin _ rows' stored with ⟨rows,present,
      plan⟩ | saving
    · show budgetAtLeast rows'.plan.budget envelope.budget = true
      rw [plan,budget]
      refine within reference rows named ?_ present
      rcases exec_cases encoding s (.submit request clock) with same | ok
      · rw [same,was] at found
        cases found
      obtain ⟨answer,ok⟩ := storeOf_ok.mp ok
      rcases submit_parts ok with ⟨_,same⟩ | ⟨_,_,_,_,submitted⟩
      · rw [same,was] at found
        cases found
      · exact submitted.unkeyed
    · cases saving

theorem run_budgets (run : Run encoding BudgetsWithin s) : BudgetsBound s := by
  refine run.invariant_under (fun _ reached => run_linked reached) ?_ fun s op linked bound within =>
    exec_budgets linked op within bound
  intro taskId row key rows found
  cases found

-- The claim of a step whose plan bounds the budget that the task is executed under
-- and the one that its step was verified with.
structure BudgetedClaim (s : QueueStore) (now : Time) (planContext : PlanClaimContext)
    (claimed row : TaskRecord) (rows : PlanRows) (x : PlanStepId) : Prop where
  listed : s.tasks.lookup claimed.taskId = some row
  key : ∃ key, planKeyOf row = some key ∧ s.plans.lookup key = some rows
  joined : Joined row rows
  executed : budgetAtLeast rows.plan.budget claimed.envelope.budget = true
  verified : budgetAtLeast rows.plan.budget (stepReadyContext row rows.stepStates
    (loadApprovalsTx rows rows.plan) (effectiveContext planContext row) now x).remainingBudget = true

theorem plan_budget_bound {now leaseFor : Time} {planContext : PlanClaimContext} {claimed : TaskRecord}
    {x : PlanStepId} (run : Run encoding BudgetsWithin s)
    (within : BudgetsWithin s (.claim now leaseFor planContext))
    (ok : claimNextWithPlanContext encoding s now leaseFor planContext = .ok (some claimed,s'))
    (stepId : claimed.planStepId = some x) :
    ∃ row rows, BudgetedClaim s now planContext claimed row rows x := by
  have linked := run_linked run
  rcases claim_rows linked ok with ⟨none,_⟩ | ⟨row,token,_,scope,found,due,planned,_,_,answer⟩
  · cases none
  obtain rfl := Option.some.inj answer
  rw [leaseRow_due due] at stepId ⊢
  obtain rfl : _ = some x := stepId
  obtain ⟨planId,named⟩ := Option.ne_none_iff_exists'.mp fun direct => Option.some_ne_none x (planned direct)
  obtain ⟨revision,numbered⟩ : ∃ revision, row.planRevision = some revision :=
    Option.isSome_iff_exists.mp (by rw [(linked.rowed _ _ found).revision,named]; rfl)
  have keyed : planKeyOf row = some (planId,revision) := by simp [planKeyOf,named,numbered]
  obtain ⟨rows,stored,joined⟩ := linked.joined _ row _ found keyed
  have executed := run_budgets run _ row _ rows found keyed stored
  refine ⟨row,rows,found,⟨_,keyed,stored⟩,joined,executed,?_⟩
  show budgetAtLeast rows.plan.budget (planContext.remainingBudget.getD row.envelope.budget) = true
  cases told : planContext.remainingBudget with
  | none => exact executed
  | some remaining => exact within remaining row _ rows told (mem_taskRows.mpr ⟨_,found⟩) due keyed stored

def oneStepRun : List Operation := trialOpen 7 [trialStep "a" [] none]

theorem plan_budget_bound_claimed : ∃ claimed row rows,
    BudgetedClaim (trial oneStepRun) (second 2) .default claimed row rows ⟨"a"⟩ := by
  have saved : ((trial (oneStepRun.take 3)).plans.lookup (⟨7⟩,1)).map (·.plan.budget) = some .default := by
    decide +kernel
  have evaluated :
      (claimNextWithPlanContext trialEncoding (trial oneStepRun) (second 2) (second 1) .default).toOption.map
      (fun answer => answer.1.map (·.planStepId)) = some (some (some ⟨"a"⟩)) := by decide +kernel
  obtain ⟨claimed,s',claim,stepId⟩ := handed_out evaluated
  have run : Run trialEncoding BudgetsWithin (trial oneStepRun) := by
    refine play_reaches ⟨trivial,trivial,trivial,fun reference rows named _ stored => ?_,trivial⟩
    cases named
    have budget : ExecutionBudget.default = rows.plan.budget :=
      Option.some.inj (saved.symm.trans (congrArg (Option.map (·.plan.budget)) stored))
    rw [← budget]
    decide
  exact ⟨claimed,plan_budget_bound run (fun _ _ _ _ told => by cases told) claim stepId⟩

-- The largest budget that is accepted, for a plan that was digested with the default.

def wideBudget : ExecutionBudget := ⟨256,512,300000,10000000⟩

def wideRun : List Operation := oneStepRun.map (trialBudgeted wideBudget)

theorem plan_budget_bound_exceeded :
    ¬ ∀ s s' now leaseFor planContext claimed x, Run trialEncoding Ordinary s →
    claimNextWithPlanContext trialEncoding s now leaseFor planContext = .ok (some claimed,s') →
    claimed.planStepId = some x → ∃ row rows, BudgetedClaim s now planContext claimed row rows x := by
  intro bounded
  have evaluated :
      (claimNextWithPlanContext trialEncoding (trial wideRun) (second 2) (second 1) .default).toOption.map
      (fun answer => answer.1.map fun claimed => (claimed.planStepId,claimed.envelope.budget)) =
      some (some (some ⟨"a"⟩,wideBudget)) := by decide +kernel
  obtain ⟨claimed,s',claim,columns⟩ := handed_out evaluated
  simp only [Prod.mk.injEq] at columns
  obtain ⟨row,rows,budgeted⟩ := bounded _ s' _ _ _ claimed _ (@ordinary_run _ wideRun rfl) claim columns.1
  obtain ⟨key,_,stored⟩ := budgeted.key
  have budgets : (trial wideRun).planRows.all (·.plan.budget = .default) = true := by decide +kernel
  have listed : rows ∈ (trial wideRun).planRows :=
    List.mem_map.mpr ⟨⟨key,rows⟩,AList.mem_lookup_iff.mp stored,rfl⟩
  have budget : rows.plan.budget = .default := by simpa using List.all_eq_true.mp budgets rows listed
  have executed := budgeted.executed
  rw [columns.2,budget] at executed
  exact absurd executed (by decide)

end Shaka.Properties
