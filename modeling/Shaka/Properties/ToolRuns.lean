import Shaka.Runtime.Calls

namespace Shaka.Properties
open Shaka.Core Shaka.Runtime Memory CheckedSteps KeptState JsonValue

-- All that has to hold before the runtime runs a tool.
structure Authority (run : AgentRun) (tool : ToolDefinition) (request : ToolCall) : Prop where
  registered : tool ∈ run.tools.tools
  named : tool.name = request.toolName
  accepted : ∃ validator, run.host.validatorFor tool.inputSchema = .ok validator ∧
    validator request.input = .ok ()
  granted : ∀ capability ∈ tool.requiredCapabilities, capability ∈ run.envelope.executionContext.capabilities
  confined : ∀ scope ∈ run.scope, scope.action = .executeTool tool.name
  harmless : run.envelope.dryRun = true → tool.sideEffect = .readOnly

theorem validateInput_ok {definition : ToolDefinition} {host : Host} {input : Json} {u : Unit} :
    definition.validateInput host input = .ok u ↔
      ∃ validator, host.validatorFor definition.inputSchema = .ok validator ∧ validator input = .ok () := by
  simp [ToolDefinition.validateInput,bind_ok]

theorem authorize_ok {run : AgentRun} {call : ModelToolCall} {number : Nat} {tool : ToolDefinition}
    (decided : run.authorize call = .ok (.execute tool)) : Authority run tool (run.toolCall number call) := by
  simp only [AgentRun.authorize,bind_ok,orFail_ok,require_ok,exists_const,mapError_ok,pure_ok,
    checkCapabilities_ok] at decided
  obtain ⟨definition,found,confined,granted,_,accepted,permitted⟩ := decided
  obtain ⟨registered,named⟩ := get_parts found
  split at permitted
  · cases permitted
  rename_i spare
  cases permitted
  refine ⟨registered,named,validateInput_ok.mp accepted,granted,fun scope under =>
    allowsTool_iff.mp (confined scope under),?_⟩
  intro dry
  simpa [dry] using spare

-- Every execution in the trace had that authority.
def Authorized (run : AgentRun) (w : World) : Prop :=
  ∀ number tool request, .began number tool request ∈ w.trace → Authority run tool request

theorem authorized_emit {run : AgentRun} {w : World} {effect : Effect} (authorized : Authorized run w)
    (fresh : ∀ number tool request, effect = .began number tool request → Authority run tool request) :
    Authorized run (w.emit effect) := by
  intro number tool request began
  rcases List.mem_append.mp began with earlier | last
  · exact authorized number tool request earlier
  · exact fresh number tool request (List.mem_singleton.mp last).symm

theorem authorized_quiet (run : AgentRun) (w : World) (effect : Effect) (quiet : effect.number = none)
    (authorized : Authorized run w) : Authorized run (w.emit effect) :=
  authorized_emit authorized fun _ _ _ same => by subst same; cases quiet

theorem authorized_began {run : AgentRun} {w : World} {call : ModelToolCall} {tool : ToolDefinition}
    (authorized : Authorized run w) (decided : run.authorize call = .ok (.execute tool)) :
    Authorized run (w.taken.emit (.began w.reached tool (run.toolCall w.reached call))) := by
  have before : Authorized run w.taken := authorized
  refine authorized_emit before fun number tool request same => ?_
  cases same
  exact authorize_ok decided

theorem authorized_sustained (run : AgentRun) : Sustained run (Authorized run) := by
  refine ⟨authorized_quiet run,fun call w w' authorized called => ?_⟩
  have taken : Authorized run w.taken := authorized
  cases called with
  | stopped notes => exact notes_keep notes (authorized_quiet run) taken
  | answered | unrecorded => exact authorized_emit taken (by simp)
  | spared => exact authorized_emit (authorized_emit taken (by simp)) (by simp)
  | lost decided _ notes =>
    exact notes_keep notes (authorized_quiet run) (authorized_began authorized decided)
  | recorded decided => exact authorized_emit (authorized_began authorized decided) (by simp)

theorem tool_authority (run : AgentRun) {number : Nat} {tool : ToolDefinition} {request : ToolCall}
    (began : .began number tool request ∈ (run.runWithCancellationAndScope .start).2.trace) :
    Authority run tool request :=
  run_keeps (authorized_sustained run) .start (by simp [Authorized,World.start]) number tool request began

-- A run of the tool that repeats a message: the model asks for it once, then replies.

def trialHost : Host where
  audit := ⟨fun text => text,fun _ => "uuid",fun _ => "instant",fun _ => "instant",fun _ => false,fun _ =>
    "",fun _ => none⟩
  validatorFor := fun _ => .ok fun input => match input with
    | .object [("message",.string _)] => .ok ()
    | _ => .error "message"
  jsonText := fun _ => ""
  redactSensitive := id
  memoryText := fun _ => ""

def echoTool : ToolDefinition where
  name := "echo"
  description := "Repete uma mensagem sem efeito colateral."
  inputSchema := .object [("properties",.object [("message",.object [("type",.string "string")])]),
    ("required",.array [.string "message"]),("type",.string "object")]
  requiredCapabilities := []
  sideEffect := .readOnly

def echo (request : ToolCall) : Except OrchestratorError Json :=
  match request.input with
  | .object [("message",.string message)] => .ok (.object [("message",.string message)])
  | _ => .error (.toolExecution "message ausente")

def trialEnvelope : TaskEnvelope :=
  ⟨⟨1⟩,⟨"tenant"⟩,⟨"operator"⟩,.default,false,⟨.operator,[],⟨none,none⟩⟩⟩

def echoSchedule (execute : ToolCall → Raced (Except OrchestratorError Json)) : Schedule where
  turn := fun turn => ⟨false,0,.finished (.ok (match turn with
    | 0 => ⟨"",[⟨"echo",.object [("message",.string "ok")]⟩],0⟩
    | _ => ⟨"ok",[],0⟩))⟩
  call := fun number => ⟨0,false,false,0,execute,⟨number,0,none⟩⟩
  closing := ⟨0,⟨100,0,none⟩,⟨101,0,none⟩⟩

def echoRun (execute : ToolCall → Raced (Except OrchestratorError Json)) : AgentRun where
  host := trialHost
  tools := ⟨[echoTool],by simp,[]⟩
  envelope := trialEnvelope
  objective := "ok"
  scope := some ⟨⟨7⟩,⟨"a"⟩,.executeTool "echo"⟩
  schedule := echoSchedule execute

def echoCall : ToolCall := ⟨⟨1⟩,"echo",.object [("message",.string "ok")],0⟩

theorem tool_authority_echo :
    Authority (echoRun fun request => .finished (echo request)) echoTool echoCall := by
  have began :
      ((echoRun fun request => .finished (echo request)).runWithCancellationAndScope .start).2.trace[1]? =
      some (.began 0 echoTool echoCall) := rfl
  exact tool_authority _ (List.mem_of_getElem? began)

-- The events of one call's execution.
def isToolEvent (number : Nat) : Effect → Bool
  | .audited (some other) event => other == number && event.action == "tool.execute"
  | _ => false

def toolEvents (number : Nat) (trace : List Effect) : List Effect := trace.filter (isToolEvent number)

-- Each execution that was begun has left exactly one event.
def FullyAudited (trace : List Effect) : Prop :=
  ∀ number tool request, .began number tool request ∈ trace → (toolEvents number trace).length = 1

-- The execution does not lose its race to the cancellation, and the store takes its event.
def Settles (run : AgentRun) (number : Nat) (request : ToolCall) : Prop :=
  (run.schedule.call number).execute request ≠ .cancelled ∧ (run.schedule.call number).audit.failure = none

-- Calls are numbered in turn, and the events of each are those that its race leaves.
structure Tallied (run : AgentRun) (w : World) : Prop where
  numbered : ∀ effect ∈ w.trace, ∀ number ∈ effect.number, number < w.reached
  single : ∀ number, (toolEvents number w.trace).length ≤ 1
  settled : ∀ number tool request, .began number tool request ∈ w.trace →
    ((toolEvents number w.trace).length = 1 ↔ Settles run number request)

theorem isToolEvent_number {number : Nat} {effect : Effect} (event : isToolEvent number effect = true) :
    effect.number = some number := by
  cases effect with
  | audited call event' =>
    cases call with
    | some other =>
      simp only [isToolEvent,Bool.and_eq_true,beq_iff_eq] at event
      exact congrArg some event.1
    | none => cases event
  | requested | began | spared | remembered => cases event

theorem toolEvents_none {number : Nat} {trace : List Effect}
    (others : ∀ effect ∈ trace, effect.number ≠ some number) : toolEvents number trace = [] :=
  List.filter_eq_nil_iff.mpr fun effect listed event => others effect listed (isToolEvent_number event)

theorem toolEvents_append (number : Nat) (one two : List Effect) :
    toolEvents number (one ++ two) = toolEvents number one ++ toolEvents number two :=
  List.filter_append ..

-- What is added belongs to the call that is next in turn, or to none.
theorem tallied_added {run : AgentRun} {w : World} (tallied : Tallied run w) {added : List Effect}
    {next : Nat} (later : w.reached ≤ next)
    (own : ∀ effect ∈ added, ∀ number ∈ effect.number, number = w.reached ∧ w.reached < next)
    (single : (toolEvents w.reached added).length ≤ 1)
    (settled : ∀ tool request, .began w.reached tool request ∈ added →
      ((toolEvents w.reached added).length = 1 ↔ Settles run w.reached request)) :
    Tallied run ⟨w.trace ++ added,next⟩ := by
  have fresh : toolEvents w.reached w.trace = [] := by
    refine toolEvents_none fun effect listed named => ?_
    have below := tallied.numbered effect listed w.reached named
    omega
  have events : ∀ number, toolEvents number (w.trace ++ added) =
      if number = w.reached then toolEvents w.reached added else toolEvents number w.trace := by
    intro number
    rw [toolEvents_append]
    split
    · rename_i same
      rw [same,fresh]
      rfl
    · rename_i differs
      rw [toolEvents_none fun effect listed named => differs (own effect listed number named).1,
        List.append_nil]
  refine ⟨?_,?_,?_⟩
  · intro effect listed number named
    rcases List.mem_append.mp listed with earlier | last
    · exact Nat.lt_of_lt_of_le (tallied.numbered effect earlier number named) later
    · obtain ⟨rfl,below⟩ := own effect last number named
      exact below
  · intro number
    rw [events]
    split
    · exact single
    · exact tallied.single number
  · intro number tool request began
    rw [events]
    rcases List.mem_append.mp began with earlier | last
    · have below := tallied.numbered _ earlier number rfl
      rw [if_neg (by omega)]
      exact tallied.settled number tool request earlier
    · obtain ⟨rfl,_⟩ := own _ last number rfl
      rw [if_pos rfl]
      exact settled tool request last

theorem tallied_quiet (run : AgentRun) (w : World) (effect : Effect) (quiet : effect.number = none)
    (tallied : Tallied run w) : Tallied run (w.emit effect) := by
  have silent : toolEvents w.reached [effect] = [] := toolEvents_none (by simp [quiet])
  refine tallied_added tallied (Nat.le_refl _) (by simp [quiet]) (by simp [silent])
    fun tool request began => ?_
  rw [←List.mem_singleton.mp began] at quiet
  cases quiet

theorem tallied_sustained (run : AgentRun) : Sustained run (Tallied run) := by
  refine ⟨tallied_quiet run,fun call w w' tallied called => ?_⟩
  cases called with
  | stopped notes =>
    have taken : Tallied run w.taken := by
      have grown := @tallied_added run w tallied [] (w.reached + 1) (Nat.le_succ _) (by simp)
          (by simp [toolEvents]) (by simp)
      rwa [List.append_nil] at grown
    exact notes_keep notes (tallied_quiet run) taken
  | @answered event action =>
    refine @tallied_added run w tallied [.audited (some w.reached) event] (w.reached + 1)
      (Nat.le_succ _) ?_ ?_ ?_
    · simp [Effect.number]
    · simp [toolEvents,isToolEvent,action]
    · simp
  | @unrecorded tool decided =>
    exact @tallied_added run w tallied [.spared w.reached tool] (w.reached + 1) (Nat.le_succ _)
      (by simp [Effect.number]) (by simp [toolEvents,isToolEvent]) (by simp)
  | @spared tool event decided action =>
    have grown := @tallied_added run w tallied [.spared w.reached tool,
      .audited (some w.reached) event] (w.reached + 1)
      (Nat.le_succ _) (by simp [Effect.number]) (by simp [toolEvents,isToolEvent,action]) (by simp)
    simpa [World.emit,World.taken] using grown
  | @lost tool _ decided lost notes =>
    refine notes_keep notes (tallied_quiet run) ?_
    refine @tallied_added run w tallied [.began w.reached tool (run.toolCall w.reached call)] (w.reached + 1)
      (Nat.le_succ _) ?_ ?_ ?_
    · simp [Effect.number]
    · simp [toolEvents,isToolEvent]
    · intro tool' request began
      cases List.mem_singleton.mp began
      constructor
      · intro single
        simp [toolEvents,isToolEvent] at single
      · intro settles
        rcases lost with cancelled | refused
        · exact absurd cancelled settles.1
        · exact absurd settles.2 refused
  | @recorded tool event decided ended stored action =>
    have grown := @tallied_added run w tallied
      [.began w.reached tool (run.toolCall w.reached call),.audited (some w.reached) event] (w.reached + 1)
      (Nat.le_succ _) (by simp [Effect.number]) (by simp [toolEvents,isToolEvent,action]) (by
        intro tool' request began
        simp only [List.mem_cons,Effect.began.injEq,true_and,reduceCtorEq,List.not_mem_nil,or_false] at began
        obtain ⟨rfl,rfl⟩ := began
        constructor
        · intro _
          exact ⟨ended,stored⟩
        · intro _
          simp [toolEvents,isToolEvent,action])
    simpa [World.emit,World.taken] using grown

-- Exactly the executions that are not cancelled underway and whose event the store takes leave
-- one; none ever leaves two.
theorem tool_audit_complete (run : AgentRun) :
    (FullyAudited (run.runWithCancellationAndScope .start).2.trace ↔
      ∀ number tool request, .began number tool request ∈ (run.runWithCancellationAndScope .start).2.trace →
        Settles run number request) ∧
    ∀ number, (toolEvents number (run.runWithCancellationAndScope .start).2.trace).length ≤ 1 := by
  have tallied : Tallied run (run.runWithCancellationAndScope .start).2 :=
    run_keeps (tallied_sustained run) .start ⟨by simp [World.start],by simp [World.start,toolEvents],by
      simp [World.start]⟩
  refine ⟨⟨?_,?_⟩,tallied.single⟩
  · intro audited number tool request began
    exact (tallied.settled number tool request began).mp (audited number tool request began)
  · intro settles number tool request began
    exact (tallied.settled number tool request began).mpr (settles number tool request began)

-- The operator cancels while the tool runs.
theorem tool_audit_complete_cancelled :
    ¬ FullyAudited ((echoRun fun _ => .cancelled).runWithCancellationAndScope .start).2.trace := by
  have began : ((echoRun fun _ => .cancelled).runWithCancellationAndScope .start).2.trace[1]? =
      some (.began 0 echoTool echoCall) := rfl
  have silent :
      (toolEvents 0 ((echoRun fun _ => .cancelled).runWithCancellationAndScope .start).2.trace).length =
      0 := rfl
  intro audited
  have single := audited 0 echoTool echoCall (List.mem_of_getElem? began)
  omega

end Shaka.Properties
