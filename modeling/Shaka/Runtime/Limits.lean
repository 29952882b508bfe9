import Shaka.Runtime.Results

namespace Shaka.Runtime
open Shaka.Core Memory CheckedSteps KeptState

def Effect.isRequest : Effect → Bool
  | .requested _ => true
  | _ => false

def Effect.isExecution : Effect → Bool
  | .began _ _ _ => true
  | _ => false

-- How often the model has been called, and how many tools have begun to run.
def World.requests (w : World) : Nat := w.trace.countP Effect.isRequest

def World.executions (w : World) : Nat := w.trace.countP Effect.isExecution

namespace AgentRun
variable (run : AgentRun)

-- The cost that the model reports for a turn, and for the turns before one.
def costOf (turn : Nat) : Nat :=
  match (run.schedule.turn turn).complete with
  | .finished (.ok response) => response.estimatedCostMicrounits
  | _ => 0

def spent : Nat → Nat
  | 0 => 0
  | turns + 1 => spent turns + run.costOf turns

def askModel (progress : Progress) : Program World OrchestratorError ((String × Progress) ⊕ Progress) := do
  let response ← run.raceModel (run.schedule.turn progress.stepCount) progress
  let (content,progress) ← run.takeReply response progress
  match content with
  | some content => pure (.inl (content,progress))
  | none => pure (.inr progress)

-- One iteration of the `loop`, with the guards in the source's order.
def turn (progress : Progress) : Program World OrchestratorError ((String × Progress) ⊕ Progress) := do
  let moment := run.schedule.turn progress.stepCount
  if moment.cancelled then run.cancelled
  else if progress.stepCount ≥ run.envelope.budget.maxSteps then run.failed (.core (.budgetExceeded "max_steps"))
  else if run.remainingMs moment.elapsedMs = 0 then run.failed .deadlineExceeded
  else run.askModel progress

-- A run from a state of the world to its end, with no bound on the turns of its loop.
inductive Runs (w : World) : Except OrchestratorError AgentRunResult × World → Prop where
  | refused {error : CoreError} : run.envelope.budget.validate = .error error →
      Runs w (run.failed (.core error) w)
  | timeless : run.envelope.budget.validate = .ok () → run.envelope.budget.maxElapsedMs = 0 →
      Runs w (run.failed (.core (.budgetExceeded "max_elapsed_ms")) w)
  | stopped {error : OrchestratorError} {w' : World} : run.envelope.budget.validate = .ok () →
      run.envelope.budget.maxElapsedMs ≠ 0 → Loops run.turn Progress.start w (.error error,w') →
      Runs w (.error error,w')
  | finished {content : String} {progress : Progress} {w' : World} : run.envelope.budget.validate = .ok () →
      run.envelope.budget.maxElapsedMs ≠ 0 → Loops run.turn Progress.start w (.ok (content,progress),w') →
      Runs w (run.finish content progress w')

end AgentRun

variable {run : AgentRun}

theorem takeReply_steps {response : ModelResponse} {progress progress' : AgentRun.Progress}
    {content : Option String} {w w' : World}
    (ran : run.takeReply response progress w = (.ok (content,progress'),w')) :
    progress'.stepCount = min (progress.stepCount + 1) Queue.maxU32 := by
  simp only [AgentRun.takeReply] at ran
  split at ran
  · cases congrArg Prod.fst ran
  split at ran
  · cases ran
    rfl
  split at ran
  · cases congrArg Prod.fst ran
  · obtain ⟨results,middle,_,done⟩ := bind_ran.mp ran
    cases done
    rfl

-- The recursion on what `max_steps` leaves is the loop: the guard of the turns ends it in time.
theorem agentLoop_loops {left : Nat} {progress : AgentRun.Progress} (w : World)
    (counted : progress.stepCount + left = run.envelope.budget.maxSteps)
    (bounded : run.envelope.budget.maxSteps ≤ Queue.maxU32) :
    Loops run.turn progress w (run.agentLoop left progress w) := by
  induction left generalizing progress w with
  | zero =>
    by_cases halted : (run.schedule.turn progress.stepCount).cancelled = true
    · have same : run.turn progress w = run.cancelled w := by simp only [AgentRun.turn,if_pos halted]
      simp only [AgentRun.agentLoop,if_pos halted]
      exact .failed same
    · have spent : progress.stepCount ≥ run.envelope.budget.maxSteps := by omega
      have same : run.turn progress w = run.failed (.core (.budgetExceeded "max_steps")) w := by
        simp only [AgentRun.turn,if_neg halted,if_pos spent]
      simp only [AgentRun.agentLoop,if_neg halted]
      exact .failed same
  | succ left ih =>
    by_cases halted : (run.schedule.turn progress.stepCount).cancelled = true
    · have same : run.turn progress w = run.cancelled w := by simp only [AgentRun.turn,if_pos halted]
      simp only [AgentRun.agentLoop,if_pos halted]
      exact .failed same
    have unspent : ¬ progress.stepCount ≥ run.envelope.budget.maxSteps := by omega
    by_cases late : run.remainingMs (run.schedule.turn progress.stepCount).elapsedMs = 0
    · have same : run.turn progress w = run.failed .deadlineExceeded w := by
        simp only [AgentRun.turn,if_neg halted,if_neg unspent,if_pos late]
      simp only [AgentRun.agentLoop,if_neg halted,if_pos late]
      exact .failed same
    have same : run.turn progress w = run.askModel progress w := by
      simp only [AgentRun.turn,if_neg halted,if_neg unspent,if_neg late]
    simp only [AgentRun.agentLoop,if_neg halted,if_neg late]
    apply bind_ends
    · intro error w' asking
      exact .failed (same.trans (bind_of_error asking))
    intro response w' asking
    apply bind_ends
    · intro error w'' taking
      exact .failed (same.trans ((bind_of_ok asking).trans (bind_of_error taking)))
    rintro ⟨content,progress'⟩ w'' taking
    have steps := takeReply_steps taking
    have turned : run.turn progress w = _ := same.trans ((bind_of_ok asking).trans (bind_of_ok taking))
    cases content with
    | some content => exact .left turned
    | none =>
      refine .again turned (ih w'' ?_)
      rw [steps]
      omega

section Calls
variable {motive : World → Prop}
  (steady : ∀ w effect, effect.isRequest = false → motive w → motive (w.emit effect))
include steady

theorem executeWithScope_steady (number : Nat) (call : ModelToolCall) :
    Keeps motive (run.executeWithScope number call) := by
  unfold AgentRun.executeWithScope
  cases run.authorize call with
  | error error => exact keeps_pure _
  | ok permit =>
    cases permit with
    | dryRun tool => exact keeps_bind (keeps_update fun w => steady w _ rfl) fun _ => keeps_pure _
    | execute tool => exact keeps_bind (keeps_update fun w => steady w _ rfl) fun _ => keeps_pure _

theorem recordCall_steady (number : Nat) (result : ToolResult) :
    Keeps motive (run.recordCall number result) := by
  refine keeps_bind (keeps_reword ?_) fun _ => keeps_pure _
  unfold appendAudit
  cases (run.schedule.call number).audit.failure with
  | some error => exact keeps_fail error
  | none => exact keeps_update fun w => steady w _ rfl

theorem records_steady (w : World) (effect : Effect) (closing : effect.isRecord = true) (holds : motive w) :
    motive (w.emit effect) := by
  apply steady w effect ?_ holds
  cases effect with
  | requested request => cases closing
  | began | spared | audited | remembered => rfl

theorem raceTool_steady (number : Nat) (call : ModelToolCall) : Keeps motive (run.raceTool number call) := by
  unfold AgentRun.raceTool
  split
  · exact cancelled_keeps (records_steady steady) run
  refine keeps_bind (executeWithScope_steady steady number call) fun raced => ?_
  cases raced with
  | cancelled => exact cancelled_keeps (records_steady steady) run
  | timedOut => exact keeps_pure _
  | finished answer =>
    cases answer with
    | error error => exact keeps_pure _
    | ok result => exact keeps_pure _

-- A call keeps what being taken up and every effect but a request of the model keep.
theorem callTool_steady (taken : ∀ w, motive w → motive w.taken) (call : ModelToolCall) :
    Keeps motive (run.callTool call) := by
  refine keeps_bind (keeps_observe _) fun number => keeps_bind (keeps_update taken) fun _ => ?_
  unfold AgentRun.callNumbered
  dsimp only
  split
  · exact failed_keeps (records_steady steady) run _
  split
  · exact cancelled_keeps (records_steady steady) run
  · exact keeps_bind (raceTool_steady steady number call) fun result => recordCall_steady steady number result

end Calls

theorem requests_emit (w : World) {effect : Effect} (other : effect.isRequest = false) :
    (w.emit effect).requests = w.requests := by
  simp [World.requests,World.emit,List.countP_append,other]

theorem collect_requests (calls : List ModelToolCall) (w : World) :
    (collect run.callTool calls w).2.requests = w.requests := by
  have kept : Keeps (fun w' => w'.requests = w.requests) (collect run.callTool calls) := by
    apply keeps_collect
    apply callTool_steady
    · exact fun w' effect other same => (requests_emit w' other).trans same
    · exact fun w' same => same
  exact kept w rfl

-- Every call is taken up once.
theorem called_reached {call : ModelToolCall} {w w' : World} (called : Called run call w w') :
    w'.reached = w.reached + 1 := by
  cases called with
  | stopped notes =>
    exact @notes_keep (fun after => after.reached = w.reached + 1) _ _ notes (fun _ _ _ same => same) rfl
  | answered | unrecorded | spared | recorded => rfl
  | lost _ _ notes =>
    exact @notes_keep (fun after => after.reached = w.reached + 1) _ _ notes (fun _ _ _ same => same) rfl

theorem collect_reached (calls : List ModelToolCall) (w : World) :
    (collect run.callTool calls w).2.reached ≤ w.reached + calls.length :=
  collect_rises (fun call w => Nat.le_of_eq (called_reached (callTool_called call w))) calls w

-- No call begins more than one execution.
theorem executions_sustained (run : AgentRun) : Sustained run fun w => w.executions ≤ w.reached := by
  have quiet : ∀ (w : World) (effect : Effect), effect.isExecution = false → w.executions ≤ w.reached →
      (w.emit effect).executions ≤ (w.emit effect).reached := by
    intro w effect other fewer
    simpa [World.executions,World.emit,List.countP_append,other] using fewer
  have silent : ∀ (w : World) (effect : Effect), effect.number = none → w.executions ≤ w.reached →
      (w.emit effect).executions ≤ (w.emit effect).reached := by
    intro w effect none
    apply quiet
    cases effect with
    | began number tool request => cases none
    | requested | spared | audited | remembered => rfl
  have began : ∀ (w : World) (tool : ToolDefinition) (request : ToolCall), w.executions ≤ w.reached →
      (w.taken.emit (.began w.reached tool request)).executions ≤ w.reached + 1 := by
    intro w tool request fewer
    have one : (w.taken.emit (.began w.reached tool request)).executions = w.executions + 1 := by
      simp [World.executions,World.emit,World.taken,List.countP_append,Effect.isExecution]
    omega
  refine ⟨silent,fun call w w' fewer called => ?_⟩
  have taken : w.taken.executions ≤ w.taken.reached := Nat.le_succ_of_le fewer
  cases called with
  | stopped notes => exact notes_keep notes silent taken
  | answered | unrecorded => exact quiet _ _ rfl taken
  | spared => exact quiet _ _ rfl (quiet _ _ rfl taken)
  | recorded => exact quiet _ _ rfl (began _ _ _ fewer)
  | lost _ _ notes => exact notes_keep notes silent (began _ _ _ fewer)

-- The variables of the loop count what has been done, and are within the budget.
structure Within (run : AgentRun) (progress : AgentRun.Progress) (w : World) : Prop where
  requests : w.requests = progress.stepCount
  steps : progress.stepCount ≤ run.envelope.budget.maxSteps
  reached : w.reached ≤ progress.toolCallCount
  calls : progress.toolCallCount ≤ run.envelope.budget.maxToolCalls
  cost : progress.totalCostMicrounits = run.spent progress.stepCount
  affordable : progress.totalCostMicrounits ≤ run.envelope.budget.maxCostMicrounits

-- What is left of that where a run fails.
structure Bounded (run : AgentRun) (w : World) : Prop where
  requests : w.requests ≤ run.envelope.budget.maxSteps
  reached : w.reached ≤ run.envelope.budget.maxToolCalls

theorem Within.bounded {progress : AgentRun.Progress} {w : World} (within : Within run progress w) :
    Bounded run w :=
  ⟨within.requests ▸ within.steps,Nat.le_trans within.reached within.calls⟩

theorem bounded_records (w : World) (effect : Effect) (closing : effect.isRecord = true)
    (bounded : Bounded run w) : Bounded run (w.emit effect) := by
  refine records_steady (fun w effect other bounded => ⟨?_,bounded.reached⟩) w effect closing bounded
  rw [requests_emit w other]
  exact bounded.requests

-- How a part of a turn ends: within the budget, by the variables that it hands on.
def Fares {α : Type} (run : AgentRun) (handed : α → AgentRun.Progress) :
    Except OrchestratorError α × World → Prop
  | (.error _,w) => Bounded run w
  | (.ok a,w) => Within run (handed a) w

theorem failed_fares {α : Type} {handed : α → AgentRun.Progress} {w : World} (error : OrchestratorError)
    (bounded : Bounded run w) : Fares run handed (run.failed error w) :=
  @failed_keeps _ bounded_records run α error w bounded

theorem cancelled_fares {α : Type} {handed : α → AgentRun.Progress} {w : World} (bounded : Bounded run w) :
    Fares run handed (run.cancelled w) :=
  @cancelled_keeps _ bounded_records run α w bounded

theorem requested_bounded {progress : AgentRun.Progress} {w : World} (within : Within run progress w)
    (unspent : progress.stepCount < run.envelope.budget.maxSteps) :
    (w.emit (.requested (run.modelRequest progress))).requests = progress.stepCount + 1 ∧
      Bounded run (w.emit (.requested (run.modelRequest progress))) := by
  have more : (w.emit (.requested (run.modelRequest progress))).requests = w.requests + 1 := by
    simp [World.requests,World.emit,List.countP_append,Effect.isRequest]
  rw [within.requests] at more
  refine ⟨more,?_,within.bounded.reached⟩
  rw [more]
  exact unspent

theorem raceModel_bounded {progress : AgentRun.Progress} {w : World} (moment : TurnMoment)
    (within : Within run progress w) (unspent : progress.stepCount < run.envelope.budget.maxSteps) :
    Bounded run (run.raceModel moment progress w).2 := by
  have bounded := (requested_bounded within unspent).2
  unfold AgentRun.raceModel
  rw [bind_of_ok (show update (World.emit (.requested (run.modelRequest progress))) w = (.ok (),_) from rfl)]
  cases moment.complete with
  | cancelled => exact @cancelled_keeps _ bounded_records run _ _ bounded
  | timedOut => exact @failed_keeps _ bounded_records run _ _ _ bounded
  | finished answer =>
    cases answer with
    | error error => exact @failed_keeps _ bounded_records run _ error _ bounded
    | ok response => exact bounded

-- A counter under its limit has not stuck at the width of its type.
theorem unsaturated {count limit width : Nat} (under : min count width ≤ limit) (wide : limit < width) :
    min count width = count := by omega

-- The limits of a budget are below the widths of the counters.
structure Widths (budget : ExecutionBudget) : Prop where
  steps : budget.maxSteps < Queue.maxU32
  calls : budget.maxToolCalls < Queue.maxU32
  cost : budget.maxCostMicrounits < AgentRun.maxU64

theorem validate_widths {budget : ExecutionBudget} (valid : budget.validate = .ok ()) : Widths budget := by
  obtain ⟨⟨_,steps⟩,calls,_,cost⟩ := validateBudget_ok.mp valid
  refine ⟨Nat.lt_of_le_of_lt steps ?_,Nat.lt_of_le_of_lt calls ?_,Nat.lt_of_le_of_lt cost ?_⟩
  · simp [maxExecutionSteps,Queue.maxU32]
  · simp [maxToolCalls,Queue.maxU32]
  · simp [maxExecutionCostMicrounits,AgentRun.maxU64]

variable (valid : run.envelope.budget.validate = .ok ())
include valid

-- The counters are within the budget, far below the widths at which they would stick.
theorem takeReply_fares {response : ModelResponse} {progress : AgentRun.Progress} {w : World}
    (within : Within run progress w) (unspent : progress.stepCount < run.envelope.budget.maxSteps)
    (completed : (run.schedule.turn progress.stepCount).complete = .finished (.ok response)) :
    Fares run Prod.snd (run.takeReply response progress
      (w.emit (.requested (run.modelRequest progress)))) := by
  obtain ⟨more,bounded⟩ := requested_bounded within unspent
  have widths := validate_widths valid
  have counted : min (progress.stepCount + 1) Queue.maxU32 = progress.stepCount + 1 :=
    Nat.min_eq_left (Nat.le_of_lt (Nat.lt_of_le_of_lt unspent widths.steps))
  have reported :
      run.spent (progress.stepCount + 1) = progress.totalCostMicrounits +
      response.estimatedCostMicrounits := by
    rw [AgentRun.spent,AgentRun.costOf,completed,within.cost]
  have taken : w.reached ≤ progress.toolCallCount := within.reached
  have allowed : progress.toolCallCount ≤ run.envelope.budget.maxToolCalls := within.calls
  unfold AgentRun.takeReply
  dsimp only
  split
  · exact failed_fares _ bounded
  rename_i affordable
  have paid : min (progress.totalCostMicrounits + response.estimatedCostMicrounits) AgentRun.maxU64 =
      progress.totalCostMicrounits + response.estimatedCostMicrounits :=
    unsaturated (Nat.le_of_not_lt affordable) widths.cost
  split
  · refine ⟨?_,?_,taken,allowed,?_,?_⟩
    · rw [counted]
      exact more
    · rw [counted]
      exact unspent
    · rw [counted,reported]
      exact paid
    · exact Nat.le_of_not_lt affordable
  split
  · exact failed_fares _ bounded
  rename_i proposed
  have all : min (progress.toolCallCount + min response.toolCalls.length Queue.maxU32) Queue.maxU32 =
      progress.toolCallCount + min response.toolCalls.length Queue.maxU32 :=
    unsaturated (Nat.le_of_not_lt proposed) widths.calls
  have small :
      progress.toolCallCount + min response.toolCalls.length Queue.maxU32 ≤
      run.envelope.budget.maxToolCalls := by
    rw [←all]
    exact Nat.le_of_not_lt proposed
  have each : min response.toolCalls.length Queue.maxU32 = response.toolCalls.length :=
    unsaturated (Nat.le_trans (Nat.le_add_left _ _) small) widths.calls
  have covered : w.reached + response.toolCalls.length ≤ progress.toolCallCount + response.toolCalls.length :=
    Nat.add_le_add_right taken _
  rw [each] at all small
  have requests := @collect_requests run response.toolCalls (w.emit (.requested (run.modelRequest progress)))
  have reached := @collect_reached run response.toolCalls (w.emit (.requested (run.modelRequest progress)))
  change (collect run.callTool response.toolCalls (w.emit _)).2.reached ≤
    w.reached + response.toolCalls.length at reached
  rw [more] at requests
  apply bind_ends
  · intro error w' ran
    rw [ran] at requests reached
    refine ⟨?_,?_⟩
    · exact Nat.le_trans (Nat.le_of_eq requests) unspent
    · exact Nat.le_trans reached (Nat.le_trans covered small)
  · intro results w' ran
    rw [ran] at requests reached
    refine ⟨?_,?_,?_,?_,?_,?_⟩
    · rw [counted]
      exact requests
    · rw [counted]
      exact unspent
    · apply Nat.le_trans reached
      change _ ≤ min (progress.toolCallCount + min response.toolCalls.length Queue.maxU32) Queue.maxU32
      rw [each,all]
      exact covered
    · exact Nat.le_of_not_lt proposed
    · rw [counted,reported]
      exact paid
    · exact Nat.le_of_not_lt affordable

def progressOf : (String × AgentRun.Progress) ⊕ AgentRun.Progress → AgentRun.Progress
  | .inl (_,progress) | .inr progress => progress

theorem turn_fares {progress : AgentRun.Progress} {w : World} (within : Within run progress w) :
    Fares run progressOf (run.turn progress w) := by
  unfold AgentRun.turn
  split
  · exact cancelled_fares within.bounded
  split
  · exact failed_fares _ within.bounded
  rename_i unspent
  split
  · exact failed_fares _ within.bounded
  have asking := raceModel_bounded (run.schedule.turn progress.stepCount) within (Nat.lt_of_not_le unspent)
  unfold AgentRun.askModel
  apply bind_ends
  · intro error w' ran
    rw [ran] at asking
    exact asking
  intro response w' ran
  obtain ⟨completed,rfl⟩ := raceModel_ok ran
  have taking := takeReply_fares valid within (Nat.lt_of_not_le unspent) completed
  apply bind_ends
  · intro error w'' ran
    rw [ran] at taking
    exact taking
  rintro ⟨content,progress'⟩ w'' ran
  rw [ran] at taking
  cases content with
  | some content => exact taking
  | none => exact taking

-- The loop, however many turns it takes.
theorem loops_fares {outcome : Except OrchestratorError (String × AgentRun.Progress) × World}
    (loops : Loops run.turn AgentRun.Progress.start World.start outcome) : Fares run Prod.snd outcome := by
  refine @Loops.invariant _ _ _ _ run.turn (Within run) (Fares run Prod.snd) ?_ ?_ ?_ _ _ _ loops ?_
  · intro progress w error w' within ran
    have fares := turn_fares valid within
    rw [ran] at fares
    exact fares
  · intro progress w answer w' within ran
    have fares := turn_fares valid within
    rw [ran] at fares
    exact fares
  · intro progress w next w' within ran
    have fares := turn_fares valid within
    rw [ran] at fares
    exact fares
  · exact ⟨rfl,Nat.zero_le _,Nat.zero_le _,Nat.zero_le _,rfl,Nat.zero_le _⟩

end Shaka.Runtime
