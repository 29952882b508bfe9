import Shaka.Runtime.Limits

namespace Shaka.Properties
open Shaka.Core Shaka.Runtime Memory KeptState

-- What the budget of a run promises of its end.
structure Respected (run : AgentRun) (outcome : Except OrchestratorError AgentRunResult × World) : Prop where
  requests : outcome.2.requests ≤ run.envelope.budget.maxSteps
  executions : outcome.2.executions ≤ run.envelope.budget.maxToolCalls
  cost : ∀ result, outcome.1 = .ok result →
    run.spent outcome.2.requests ≤ run.envelope.budget.maxCostMicrounits

variable {run : AgentRun}

-- Every run ends, and as the program computes it.
theorem runs_ended (run : AgentRun) : run.Runs .start (run.runWithCancellationAndScope .start) := by
  unfold AgentRun.runWithCancellationAndScope
  cases valid : run.envelope.budget.validate with
  | error error => exact .refused valid
  | ok u =>
    by_cases timeless : run.envelope.budget.maxElapsedMs = 0
    · simp only [if_pos timeless]
      exact .timeless valid timeless
    simp only [if_neg timeless]
    have loops := @agentLoop_loops run run.envelope.budget.maxSteps AgentRun.Progress.start World.start
      (Nat.zero_add _) (Nat.le_of_lt (validate_widths valid).steps)
    apply bind_ends
    · intro error w ran
      rw [ran] at loops
      exact .stopped valid timeless loops
    · rintro ⟨content,progress⟩ w ran
      rw [ran] at loops
      exact .finished valid timeless loops

theorem runs_unique {outcome outcome' : Except OrchestratorError AgentRunResult × World}
    (one : run.Runs .start outcome) (two : run.Runs .start outcome') : outcome = outcome' := by
  cases one with
  | refused invalid =>
    cases two with
    | refused invalid' => cases invalid.symm.trans invalid'; rfl
    | timeless valid | stopped valid | finished valid => cases valid.symm.trans invalid
  | timeless valid timeless =>
    cases two with
    | refused invalid => cases valid.symm.trans invalid
    | timeless => rfl
    | stopped _ timed | finished _ timed => exact absurd timeless timed
  | stopped valid timed loops =>
    cases two with
    | refused invalid => cases valid.symm.trans invalid
    | timeless _ timeless => exact absurd timeless timed
    | stopped _ _ loops' => cases loops.unique loops'; rfl
    | finished _ _ loops' => cases loops.unique loops'
  | finished valid timed loops =>
    cases two with
    | refused invalid => cases valid.symm.trans invalid
    | timeless _ timeless => exact absurd timeless timed
    | stopped _ _ loops' => cases loops.unique loops'
    | finished _ _ loops' => cases loops.unique loops'; rfl

theorem finish_requests (content : String) (progress : AgentRun.Progress) (w : World) :
    (run.finish content progress w).2.requests = w.requests :=
  @finish_keeps (fun after => after.requests = w.requests)
    (records_steady fun after _ other same => (requests_emit after other).trans same) run content
      progress w rfl

theorem runs_bounded {outcome : Except OrchestratorError AgentRunResult × World}
    (runs : run.Runs .start outcome) : Bounded run outcome.2 ∧
      ∀ result, outcome.1 = .ok result →
      run.spent outcome.2.requests ≤ run.envelope.budget.maxCostMicrounits := by
  have idle : Bounded run .start := ⟨Nat.zero_le _,Nat.zero_le _⟩
  cases runs with
  | refused invalid =>
    refine ⟨@failed_keeps _ bounded_records run _ _ _ idle,fun result done => ?_⟩
    cases done
  | timeless valid timeless =>
    refine ⟨@failed_keeps _ bounded_records run _ _ _ idle,fun result done => ?_⟩
    cases done
  | stopped valid _ loops =>
    refine ⟨loops_fares valid loops,fun result done => ?_⟩
    cases done
  | finished valid _ loops =>
    have within := loops_fares valid loops
    refine ⟨finish_keeps bounded_records run _ _ _ within.bounded,fun _ _ => ?_⟩
    rw [finish_requests,within.requests,←within.cost]
    exact within.affordable

theorem runs_executions {outcome : Except OrchestratorError AgentRunResult × World}
    (runs : run.Runs .start outcome) : outcome.2.executions ≤ outcome.2.reached := by
  obtain rfl := runs_unique runs (runs_ended run)
  exact run_keeps (executions_sustained run) .start (Nat.le_refl _)

-- Whatever the model, the tools and the world do, a run ends, with no more requests, executions
-- and cost than its budget allows.
theorem runBudgets_respected (run : AgentRun) :
    (∃ outcome, run.Runs .start outcome) ∧ ∀ outcome, run.Runs .start outcome →
      outcome = run.runWithCancellationAndScope .start ∧ Respected run outcome := by
  refine ⟨⟨_,runs_ended run⟩,fun outcome runs => ⟨runs_unique runs (runs_ended run),?_⟩⟩
  obtain ⟨bounded,cost⟩ := runs_bounded runs
  exact ⟨bounded.requests,Nat.le_trans (runs_executions runs) bounded.reached,cost⟩

end Shaka.Properties
