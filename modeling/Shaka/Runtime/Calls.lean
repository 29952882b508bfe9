import Shaka.Runtime.Orchestrator

namespace Shaka.Runtime
open Shaka.Core Memory CheckedSteps KeptState

-- The call of a tool that an effect belongs to.
def Effect.number : Effect → Option Nat
  | .began number _ _ | .spared number _ => some number
  | .audited number _ => number
  | .requested _ | .remembered _ => none

-- What closes a run: its episode and the event that goes with it.
def Effect.isRecord : Effect → Bool
  | .remembered _ | .audited none _ => true
  | _ => false

theorem Effect.isRecord_number {effect : Effect} (closing : effect.isRecord = true) :
    effect.number = none := by
  cases effect with
  | remembered record => rfl
  | audited call event =>
    cases call with
    | none => rfl
    | some number => cases closing
  | requested | began | spared => cases closing

-- Only effects of no call have been added.
def Notes (w w' : World) : Prop :=
  ∃ notes, (∀ note ∈ notes, note.number = none) ∧ w' = {w with trace:=w.trace ++ notes}

theorem notes_refl (w : World) : Notes w w := ⟨[],by simp,by simp⟩

theorem notes_emit {w w' : World} {effect : Effect} (notes : Notes w w') (quiet : effect.number = none) :
    Notes w (w'.emit effect) := by
  obtain ⟨before,silent,rfl⟩ := notes
  refine ⟨before ++ [effect],?_,by simp [World.emit]⟩
  intro note listed
  rcases List.mem_append.mp listed with earlier | last
  · exact silent note earlier
  · rw [List.mem_singleton.mp last]
    exact quiet

-- A property that survives every note survives them together.
theorem notes_keep {motive : World → Prop} {w w' : World} (notes : Notes w w')
    (quiet : ∀ w effect, effect.number = none → motive w → motive (w.emit effect)) (holds : motive w) :
    motive w' := by
  obtain ⟨added,silent,rfl⟩ := notes
  induction added generalizing w with
  | nil => simpa using holds
  | cons first rest ih =>
    have next := ih (quiet w first (silent first List.mem_cons_self) holds)
      fun note later => silent note (List.mem_cons_of_mem _ later)
    simpa [World.emit] using next

section Records
variable {motive : World → Prop}
  (records : ∀ w effect, effect.isRecord = true → motive w → motive (w.emit effect))
include records

theorem appendEpisode_keeps (write : Write) (record : EpisodicRecord) :
    Keeps motive (appendEpisode write record) := by
  unfold appendEpisode
  cases write.failure with
  | some error => exact keeps_fail error
  | none => exact keeps_update fun w => records w _ rfl

theorem appendAudit_keeps (write : Write) (event : AuditEvent) :
    Keeps motive (appendAudit write none event) := by
  unfold appendAudit
  cases write.failure with
  | some error => exact keeps_fail error
  | none => exact keeps_update fun w => records w _ rfl

variable (run : AgentRun)

theorem recordFailure_keeps (error : OrchestratorError) : Keeps motive (run.recordFailure error) :=
  keeps_bind (appendEpisode_keeps records _ _) fun _ => appendAudit_keeps records _ _

theorem recordCancelled_keeps : Keeps motive run.recordCancelled :=
  keeps_bind (appendEpisode_keeps records _ _) fun _ => appendAudit_keeps records _ _

theorem failed_keeps {α : Type} (error : OrchestratorError) :
    Keeps motive (run.failed error : Program World _ α) :=
  keeps_bind (keeps_attempt (recordFailure_keeps records run error)) fun _ => keeps_fail error

theorem cancelled_keeps {α : Type} : Keeps motive (run.cancelled : Program World _ α) :=
  keeps_bind (keeps_attempt (recordCancelled_keeps records run)) fun _ => keeps_fail _

theorem finish_keeps (content : String) (progress : AgentRun.Progress) :
    Keeps motive (run.finish content progress) :=
  keeps_bind (keeps_reword (appendEpisode_keeps records _ _)) fun _ =>
    keeps_bind (keeps_reword (appendAudit_keeps records _ _)) fun _ => keeps_pure _

end Records

theorem notes_records (w : World) :
    ∀ w' effect, effect.isRecord = true → Notes w w' → Notes w (w'.emit effect) :=
  fun _ _ closing notes => notes_emit notes (Effect.isRecord_number closing)

variable {run : AgentRun}

theorem cancelled_notes {α : Type} (w : World) : Notes w ((run.cancelled : Program World _ α) w).2 :=
  cancelled_keeps (notes_records w) run w (notes_refl w)

theorem failed_notes {α : Type} (error : OrchestratorError) (w : World) :
    Notes w ((run.failed error : Program World _ α) w).2 :=
  failed_keeps (notes_records w) run error w (notes_refl w)

-- The request with which a call of the model reaches its tool.
def AgentRun.toolCall (run : AgentRun) (number : Nat) (call : ModelToolCall) : ToolCall :=
  ⟨run.envelope.taskId,call.toolName,call.arguments,(run.schedule.call number).requestedAt⟩

-- All that one call of the model can do, by how far it gets: it ends before it is decided; it is
-- refused; its side effect is left undone; its tool runs. The event of the call may be lost.
inductive Called (run : AgentRun) (call : ModelToolCall) (w : World) : World → Prop where
  | stopped : Notes w.taken w' → Called run call w w'
  | answered :
      event.action = "tool.execute" → Called run call w (w.taken.emit (.audited (some w.reached) event))
  | unrecorded :
      run.authorize call = .ok (.dryRun tool) → Called run call w (w.taken.emit (.spared w.reached tool))
  | spared : run.authorize call = .ok (.dryRun tool) → event.action = "tool.execute" →
      Called run call w ((w.taken.emit (.spared w.reached tool)).emit (.audited (some w.reached) event))
  | lost : run.authorize call = .ok (.execute tool) →
      ((run.schedule.call w.reached).execute (run.toolCall w.reached call) = .cancelled ∨
        (run.schedule.call w.reached).audit.failure ≠ none) →
      Notes (w.taken.emit (.began w.reached tool (run.toolCall w.reached call))) w' → Called run call w w'
  | recorded : run.authorize call = .ok (.execute tool) →
      (run.schedule.call w.reached).execute (run.toolCall w.reached call) ≠ .cancelled →
      (run.schedule.call w.reached).audit.failure = none → event.action = "tool.execute" →
      Called run call w ((w.taken.emit (.began w.reached tool (run.toolCall w.reached call))).emit
        (.audited (some w.reached) event))

-- The same for the race around the tool alone.
inductive Race (run : AgentRun) (call : ModelToolCall) (number : Nat) (w : World) :
    Except OrchestratorError ToolResult × World → Prop where
  | preempted : (run.schedule.call number).preempted = true → Notes w w' →
      Race run call number w (.error .cancelled,w')
  | refused : run.authorize call = .error error →
      Race run call number w (.ok (run.failedToolResult call.toolName error),w)
  | spared : run.authorize call = .ok (.dryRun tool) →
      Race run call number w (.ok (AgentRun.dryRunResult call.toolName),w.emit (.spared number tool))
  | cancelled : run.authorize call = .ok (.execute tool) →
      (run.schedule.call number).execute (run.toolCall number call) = .cancelled →
      Notes (w.emit (.began number tool (run.toolCall number call))) w' →
      Race run call number w (.error .cancelled,w')
  | timedOut : run.authorize call = .ok (.execute tool) →
      (run.schedule.call number).execute (run.toolCall number call) = .timedOut →
      Race run call number w (.ok (AgentRun.deadlineToolResult call.toolName),
        w.emit (.began number tool (run.toolCall number call)))
  | finished : run.authorize call = .ok (.execute tool) →
      (run.schedule.call number).execute (run.toolCall number call) = .finished answer →
      Race run call number w (.ok (run.toolResult call.toolName answer),
        w.emit (.began number tool (run.toolCall number call)))

theorem executeWithScope_refused {number : Nat} {call : ModelToolCall} {error : OrchestratorError}
    (decided : run.authorize call = .error error) (w : World) :
    run.executeWithScope number call w = (.ok (.finished (.error error)),w) := by
  rw [AgentRun.executeWithScope,decided]
  rfl

theorem executeWithScope_spared {number : Nat} {call : ModelToolCall} {tool : ToolDefinition}
    (decided : run.authorize call = .ok (.dryRun tool)) (w : World) : run.executeWithScope number call w =
      (.ok (.finished (.ok (AgentRun.dryRunResult call.toolName))),w.emit (.spared number tool)) := by
  rw [AgentRun.executeWithScope,decided]
  rfl

theorem executeWithScope_began {number : Nat} {call : ModelToolCall} {tool : ToolDefinition}
    (decided : run.authorize call = .ok (.execute tool)) (w : World) :
    run.executeWithScope number call w =
      (.ok (((run.schedule.call number).execute (run.toolCall number call)).map
        fun answer => .ok (run.toolResult call.toolName answer)),
        w.emit (.began number tool (run.toolCall number call))) := by
  rw [AgentRun.executeWithScope,decided]
  rfl

theorem raceTool_race (number : Nat) (call : ModelToolCall) (w : World) :
    Race run call number w (run.raceTool number call w) := by
  unfold AgentRun.raceTool
  by_cases early : (run.schedule.call number).preempted = true
  · rw [if_pos early]
    exact .preempted early (@cancelled_notes _ ToolResult w)
  rw [if_neg early]
  cases decided : run.authorize call with
  | error error =>
    rw [bind_of_ok (executeWithScope_refused decided w)]
    exact .refused decided
  | ok permitted =>
    cases permitted with
    | dryRun tool =>
      rw [bind_of_ok (executeWithScope_spared decided w)]
      exact .spared decided
    | execute tool =>
      rw [bind_of_ok (executeWithScope_began decided w)]
      cases ending : (run.schedule.call number).execute (run.toolCall number call) with
      | cancelled => exact .cancelled decided ending (@cancelled_notes _ ToolResult _)
      | timedOut => exact .timedOut decided ending
      | finished answer => exact .finished decided ending

theorem recordCall_written {number : Nat} (result : ToolResult) (w : World)
    (stored : (run.schedule.call number).audit.failure = none) :
    run.recordCall number result w = (.ok (run.sanitizeToolResult result),
      w.emit (.audited (some number) (run.toolEvent number (run.sanitizeToolResult result)))) := by
  simp only [AgentRun.recordCall,appendAudit,stored]
  rfl

theorem recordCall_refused {number : Nat} (result : ToolResult) (w : World) {error : MemoryError}
    (refused : (run.schedule.call number).audit.failure = some error) :
    run.recordCall number result w = (.error (.memory error),w) := by
  simp only [AgentRun.recordCall,appendAudit,refused]
  rfl

-- Once a tool has answered, the event of its call is written or lost.
theorem recordCall_called {call : ModelToolCall} {tool : ToolDefinition} (result : ToolResult) (w : World)
    (decided : run.authorize call = .ok (.execute tool))
    (ended : (run.schedule.call w.reached).execute (run.toolCall w.reached call) ≠ .cancelled) :
    Called run call w (run.recordCall w.reached result
      (w.taken.emit (.began w.reached tool (run.toolCall w.reached call)))).2 := by
  cases stored : (run.schedule.call w.reached).audit.failure with
  | none =>
    rw [recordCall_written result _ stored]
    exact .recorded decided ended stored rfl
  | some error =>
    rw [recordCall_refused result _ stored]
    exact .lost decided (.inr (by simp [stored])) (notes_refl _)

theorem recordCall_answered (call : ModelToolCall) (result : ToolResult) (w : World) :
    Called run call w (run.recordCall w.reached result w.taken).2 := by
  cases stored : (run.schedule.call w.reached).audit.failure with
  | none =>
    rw [recordCall_written result _ stored]
    exact .answered rfl
  | some error =>
    rw [recordCall_refused result _ stored]
    exact .stopped (notes_refl _)

theorem recordCall_spared {call : ModelToolCall} {tool : ToolDefinition} (result : ToolResult) (w : World)
    (decided : run.authorize call = .ok (.dryRun tool)) :
    Called run call w (run.recordCall w.reached result (w.taken.emit (.spared w.reached tool))).2 := by
  cases stored : (run.schedule.call w.reached).audit.failure with
  | none =>
    rw [recordCall_written result _ stored]
    exact .spared decided rfl
  | some error =>
    rw [recordCall_refused result _ stored]
    exact .unrecorded decided

theorem callTool_called (call : ModelToolCall) (w : World) : Called run call w (run.callTool call w).2 := by
  change Called run call w (run.callNumbered w.reached call w.taken).2
  simp only [AgentRun.callNumbered]
  by_cases late : run.remainingMs (run.schedule.call w.reached).elapsedMs = 0
  · simp only [if_pos late]
    exact .stopped (@failed_notes _ ToolResult _ _)
  by_cases halted : (run.schedule.call w.reached).cancelled = true
  · simp only [if_neg late,if_pos halted]
    exact .stopped (@cancelled_notes _ ToolResult _)
  simp only [if_neg late,if_neg halted]
  have race := @raceTool_race run w.reached call w.taken
  generalize ran : run.raceTool w.reached call w.taken = after at race
  cases race with
  | preempted _ notes =>
    rw [bind_of_error ran]
    exact .stopped notes
  | refused decided =>
    rw [bind_of_ok ran]
    exact recordCall_answered call _ w
  | spared decided =>
    rw [bind_of_ok ran]
    exact recordCall_spared _ w decided
  | cancelled decided ending notes =>
    rw [bind_of_error ran]
    exact .lost decided (.inl ending) notes
  | timedOut decided ending =>
    rw [bind_of_ok ran]
    exact recordCall_called _ w decided (by simp [ending])
  | finished decided ending =>
    rw [bind_of_ok ran]
    exact recordCall_called _ w decided (by simp [ending])

-- A property of runs: notes keep it, and so does each call.
structure Sustained (run : AgentRun) (motive : World → Prop) : Prop where
  quiet : ∀ w effect, effect.number = none → motive w → motive (w.emit effect)
  called : ∀ call w w', motive w → Called run call w w' → motive w'

theorem Sustained.records {motive : World → Prop} (sustained : Sustained run motive) :
    ∀ w effect, effect.isRecord = true → motive w → motive (w.emit effect) :=
  fun w effect closing => sustained.quiet w effect (Effect.isRecord_number closing)

section Runs
variable {motive : World → Prop} (sustained : Sustained run motive)
include sustained

theorem callTool_keeps (call : ModelToolCall) : Keeps motive (run.callTool call) :=
  fun w holds => sustained.called call w _ holds (callTool_called call w)

theorem raceModel_keeps (moment : TurnMoment) (progress : AgentRun.Progress) :
    Keeps motive (run.raceModel moment progress) := by
  refine keeps_bind (keeps_update fun w => sustained.quiet w _ rfl) fun _ => ?_
  cases moment.complete with
  | cancelled => exact cancelled_keeps sustained.records run
  | timedOut => exact failed_keeps sustained.records run _
  | finished answer =>
    cases answer with
    | error error => exact failed_keeps sustained.records run error
    | ok response => exact keeps_pure response

theorem takeReply_keeps (response : ModelResponse) (progress : AgentRun.Progress) :
    Keeps motive (run.takeReply response progress) := by
  unfold AgentRun.takeReply
  dsimp only
  split
  · exact failed_keeps sustained.records run _
  split
  · exact keeps_pure _
  split
  · exact failed_keeps sustained.records run _
  · exact keeps_bind (keeps_collect (callTool_keeps sustained) _) fun _ => keeps_pure _

-- The induction is on the turns that `max_steps` leaves.
theorem agentLoop_keeps (left : Nat) (progress : AgentRun.Progress) :
    Keeps motive (run.agentLoop left progress) := by
  induction left generalizing progress with
  | zero =>
    unfold AgentRun.agentLoop
    dsimp only
    split
    · exact cancelled_keeps sustained.records run
    · exact failed_keeps sustained.records run _
  | succ left ih =>
    unfold AgentRun.agentLoop
    dsimp only
    split
    · exact cancelled_keeps sustained.records run
    split
    · exact failed_keeps sustained.records run _
    refine keeps_bind (raceModel_keeps sustained _ _) fun response => ?_
    refine keeps_bind (takeReply_keeps sustained _ _) fun answer => ?_
    cases answer.1 with
    | some content => exact keeps_pure _
    | none => exact ih answer.2

theorem run_keeps : Keeps motive run.runWithCancellationAndScope := by
  unfold AgentRun.runWithCancellationAndScope
  split
  · exact failed_keeps sustained.records run _
  split
  · exact failed_keeps sustained.records run _
  · exact keeps_bind (agentLoop_keeps sustained _ _) fun _ => finish_keeps sustained.records run _ _

end Runs

end Shaka.Runtime
