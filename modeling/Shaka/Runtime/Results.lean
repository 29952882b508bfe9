import Shaka.Runtime.Calls

namespace Shaka.Runtime
open Shaka.Core Memory CheckedSteps KeptState

-- The call is permitted, and its tool, where it runs, answers without an error.
def Succeeds (run : AgentRun) (number : Nat) (call : ModelToolCall) : Prop :=
  (∃ tool, run.authorize call = .ok (.dryRun tool)) ∨
  ∃ tool output, run.authorize call = .ok (.execute tool) ∧
    (run.schedule.call number).execute (run.toolCall number call) = .finished (.ok output)

-- A tool of the name has run, or a dry run has left its effect undone.
def Executed (toolName : String) (trace : List Effect) : Prop :=
  (∃ number tool request, .began number tool request ∈ trace ∧ tool.name = toolName) ∨
  ∃ number tool, .spared number tool ∈ trace ∧ tool.name = toolName

theorem executed_append {toolName : String} {trace added : List Effect} (executed : Executed toolName trace) :
    Executed toolName (trace ++ added) := by
  rcases executed with ⟨number,tool,request,began,named⟩ | ⟨number,tool,spared,named⟩
  · exact .inl ⟨number,tool,request,List.mem_append_left _ began,named⟩
  · exact .inr ⟨number,tool,List.mem_append_left _ spared,named⟩

theorem executed_sustained (run : AgentRun) (toolName : String) :
    Sustained run fun w => Executed toolName w.trace := by
  have quiet : ∀ (w : World) (effect : Effect), effect.number = none → Executed toolName w.trace →
      Executed toolName (w.emit effect).trace :=
    fun _ _ _ executed => executed_append executed
  refine ⟨quiet,fun call w w' executed called => ?_⟩
  have taken : Executed toolName w.taken.trace := executed
  cases called with
  | stopped notes => exact notes_keep notes quiet taken
  | answered | unrecorded => exact executed_append taken
  | spared | recorded => exact executed_append (executed_append taken)
  | lost _ _ notes => exact notes_keep notes quiet (executed_append taken)

variable {run : AgentRun}

def Permit.tool : Permit → ToolDefinition
  | .dryRun tool | .execute tool => tool

theorem authorize_named {call : ModelToolCall} {permit : Permit} (decided : run.authorize call = .ok permit)
    {scope : PlanExecutionScope} (under : scope ∈ run.scope) {toolName : String}
    (action : scope.action = .executeTool toolName) : permit.tool.name = toolName := by
  simp only [AgentRun.authorize,bind_ok,orFail_ok,require_ok,exists_const,mapError_ok,pure_ok] at decided
  obtain ⟨definition,_,confined,_,_,_,_,permitted⟩ := decided
  have named := (allowsTool_iff.mp (confined scope under)).symm.trans action
  split at permitted
  · cases permitted
    exact PlanAction.executeTool.inj named
  · cases permitted
    exact PlanAction.executeTool.inj named

-- What a recorded result says about the call, and what it leaves in the trace.
structure Reported (run : AgentRun) (call : ModelToolCall) (w : World) (result : ToolResult) (w' : World) :
    Prop where
  reached : w'.reached = w.reached + 1
  success : result.success = true ↔ Succeeds run w.reached call
  executed : result.success = true → ∀ scope ∈ run.scope, ∀ toolName, scope.action = .executeTool toolName →
    Executed toolName w'.trace

theorem recordCall_ok {number : Nat} {result safeResult : ToolResult} {w w' : World}
    (ran : run.recordCall number result w = (.ok safeResult,w')) :
    safeResult.success = result.success ∧ ∃ event, w' = w.emit (.audited (some number) event) := by
  cases stored : (run.schedule.call number).audit.failure with
  | none =>
    rw [recordCall_written result w stored] at ran
    cases ran
    exact ⟨rfl,_,rfl⟩
  | some error =>
    rw [recordCall_refused result w stored] at ran
    cases ran

theorem callTool_ok {call : ModelToolCall} {result : ToolResult} {w w' : World}
    (ran : run.callTool call w = (.ok result,w')) : Reported run call w result w' := by
  change run.callNumbered w.reached call w.taken = _ at ran
  simp only [AgentRun.callNumbered] at ran
  by_cases late : run.remainingMs (run.schedule.call w.reached).elapsedMs = 0
  · simp only [if_pos late] at ran
    cases congrArg Prod.fst ran
  by_cases halted : (run.schedule.call w.reached).cancelled = true
  · simp only [if_neg late,if_pos halted] at ran
    cases congrArg Prod.fst ran
  simp only [if_neg late,if_neg halted] at ran
  obtain ⟨raced,middle,racing,recording⟩ := bind_ran.mp ran
  obtain ⟨success,event,rfl⟩ := recordCall_ok recording
  have race := @raceTool_race run w.reached call w.taken
  rw [racing] at race
  cases race with
  | refused decided =>
    refine ⟨rfl,?_,fun succeeded => ?_⟩
    · rw [success]
      simp [AgentRun.failedToolResult,Succeeds,decided]
    · simp [success,AgentRun.failedToolResult] at succeeded
  | @spared tool decided =>
    refine ⟨rfl,?_,fun _ scope under toolName action => ?_⟩
    · rw [success]
      simp [AgentRun.dryRunResult,Succeeds,decided]
    · exact .inr ⟨w.reached,tool,by simp [World.emit],authorize_named decided under action⟩
  | timedOut decided ending =>
    refine ⟨rfl,?_,fun succeeded => ?_⟩
    · rw [success]
      simp [AgentRun.deadlineToolResult,Succeeds,decided,ending]
    · simp [success,AgentRun.deadlineToolResult] at succeeded
  | @finished tool answer decided ending =>
    refine ⟨rfl,?_,fun _ scope under toolName action => ?_⟩
    · rw [success]
      cases answer with
      | ok output => simp [AgentRun.toolResult,Succeeds,decided,ending]
      | error error => simp [AgentRun.toolResult,Succeeds,decided,ending]
    · exact .inl ⟨w.reached,tool,run.toolCall w.reached call,by simp [World.emit],
        authorize_named decided under action⟩

-- The calls that the model asks for in the turns from `turn` on.
def AgentRun.asked (run : AgentRun) (turn : Nat) : List ModelToolCall :=
  match (run.schedule.turn turn).complete with
  | .finished (.ok response) => response.toolCalls
  | _ => []

def AgentRun.proposals (run : AgentRun) (turn : Nat) : Nat → List ModelToolCall
  | 0 => []
  | turns + 1 => run.asked turn ++ run.proposals (turn + 1) turns

-- What a run of calls says about its results.
structure Answered (run : AgentRun) (calls : List ModelToolCall) (w : World) (results : List ToolResult)
    (w' : World) : Prop where
  reached : w'.reached = w.reached + calls.length
  length : results.length = calls.length
  success : (∀ result ∈ results, result.success = true) ↔
    ∀ position call, calls[position]? = some call → Succeeds run (w.reached + position) call
  executed : calls ≠ [] → (∀ result ∈ results, result.success = true) → ∀ scope ∈ run.scope, ∀ toolName,
    scope.action = .executeTool toolName → Executed toolName w'.trace

theorem collect_answered {calls : List ModelToolCall} {results : List ToolResult} {w w' : World}
    (ran : collect run.callTool calls w = (.ok results,w')) : Answered run calls w results w' := by
  induction calls generalizing w results with
  | nil =>
    cases ran
    exact ⟨rfl,rfl,by simp,by simp⟩
  | cons call rest ih =>
    obtain ⟨first,middle,calling,later⟩ := bind_ran.mp ran
    obtain ⟨others,after,collecting,done⟩ := bind_ran.mp later
    cases done
    have reported := callTool_ok calling
    have answered := ih collecting
    refine ⟨?_,?_,?_,?_⟩
    · rw [answered.reached,reported.reached,List.length_cons]
      omega
    · rw [List.length_cons,List.length_cons,answered.length]
    · rw [List.forall_mem_cons,reported.success,answered.success,reported.reached]
      constructor
      · rintro ⟨head,tail⟩ position call' listed
        cases position with
        | zero =>
          cases listed
          exact head
        | succ position =>
          have succeeds := tail position call' listed
          rwa [show w.reached + 1 + position = w.reached + (position + 1) by omega] at succeeds
      · intro all
        refine ⟨all 0 call rfl,fun position call' listed => ?_⟩
        have succeeds := all (position + 1) call' listed
        rwa [show w.reached + (position + 1) = w.reached + 1 + position by omega] at succeeds
    · intro _ succeeded scope under toolName action
      have early := reported.executed (succeeded first List.mem_cons_self) scope under toolName action
      have kept := keeps_collect (callTool_keeps (executed_sustained run toolName)) rest middle early
      rw [collecting] at kept
      exact kept

theorem answered_append {calls later : List ModelToolCall} {results others : List ToolResult}
    {w middle w' : World} (first : Answered run calls w results middle)
    (second : Answered run later middle others w')
    (kept : ∀ toolName, Executed toolName middle.trace → Executed toolName w'.trace) :
    Answered run (calls ++ later) w (results ++ others) w' := by
  refine ⟨?_,?_,?_,?_⟩
  · rw [second.reached,first.reached,List.length_append]
    omega
  · rw [List.length_append,List.length_append,first.length,second.length]
  · rw [List.forall_mem_append,first.success,second.success,first.reached]
    constructor
    · rintro ⟨early,late⟩ position call listed
      by_cases before : position < calls.length
      · exact early position call (by rwa [List.getElem?_append_left before] at listed)
      · rw [List.getElem?_append_right (by omega)] at listed
        have succeeds := late (position - calls.length) call listed
        rwa [show w.reached + calls.length + (position - calls.length) = w.reached + position by omega]
          at succeeds
    · intro all
      refine ⟨fun position call listed => all position call ?_,fun position call listed => ?_⟩
      · rw [List.getElem?_append_left (List.getElem?_eq_some_iff.mp listed).1]
        exact listed
      · have succeeds := all (calls.length + position) call (by
          rw [List.getElem?_append_right (by omega),Nat.add_sub_cancel_left]
          exact listed)
        rwa [show w.reached + (calls.length + position) = w.reached + calls.length + position by omega]
          at succeeds
  · intro some succeeded scope under toolName action
    have early := fun result listed => succeeded result (List.mem_append_left others listed)
    have late := fun result listed => succeeded result (List.mem_append_right results listed)
    by_cases none : calls = []
    · exact second.executed (by simpa [none] using some) late scope under toolName action
    · exact kept toolName (first.executed none early scope under toolName action)

theorem raceModel_ok {moment : TurnMoment} {progress : AgentRun.Progress} {response : ModelResponse}
    {w w' : World} (ran : run.raceModel moment progress w = (.ok response,w')) :
    moment.complete = .finished (.ok response) ∧ w' = w.emit (.requested (run.modelRequest progress)) := by
  obtain ⟨_,middle,requested,answered⟩ := bind_ran.mp ran
  cases requested
  cases completed : moment.complete with
  | cancelled =>
    simp only [completed] at answered
    cases congrArg Prod.fst answered
  | timedOut =>
    simp only [completed] at answered
    cases congrArg Prod.fst answered
  | finished reply =>
    simp only [completed] at answered
    cases reply with
    | error error => cases congrArg Prod.fst answered
    | ok reply =>
      cases answered
      exact ⟨rfl,rfl⟩

-- A reply without calls ends the loop; the others hand their results on.
theorem takeReply_ok {response : ModelResponse} {progress progress' : AgentRun.Progress}
    {content : Option String} {w w' : World} (bounded : progress.stepCount < Queue.maxU32)
    (ran : run.takeReply response progress w = (.ok (content,progress'),w')) :
    progress'.stepCount = progress.stepCount + 1 ∧ ∃ results, Answered run response.toolCalls w results w' ∧
      progress'.allToolResults = progress.allToolResults ++ results ∧
      (content.isSome ↔ response.toolCalls = []) := by
  have counted : min (progress.stepCount + 1) Queue.maxU32 = progress.stepCount + 1 := Nat.min_eq_left bounded
  simp only [AgentRun.takeReply] at ran
  split at ran
  · cases congrArg Prod.fst ran
  split at ran
  · rename_i silent
    have none : response.toolCalls = [] := List.isEmpty_iff.mp silent
    cases ran
    refine ⟨counted,[],?_,by simp,by simp [none]⟩
    rw [none]
    exact ⟨rfl,rfl,by simp,by simp⟩
  rename_i speaking
  split at ran
  · cases congrArg Prod.fst ran
  · obtain ⟨results,middle,collecting,done⟩ := bind_ran.mp ran
    cases done
    exact ⟨counted,results,collect_answered collecting,rfl,by simpa using speaking⟩

-- What the loop has done when it ends: some turns asked for calls, then one did not.
structure Concluded (run : AgentRun) (progress : AgentRun.Progress) (w : World)
    (progress' : AgentRun.Progress) (w' : World) (turns : Nat) : Prop where
  asked : ∀ turn < turns, run.asked (progress.stepCount + turn) ≠ []
  closed : run.asked (progress.stepCount + turns) = []
  answered : ∃ results, progress'.allToolResults = progress.allToolResults ++ results ∧
    Answered run (run.proposals progress.stepCount turns) w results w'

-- The induction is on the turns that `max_steps` leaves.
theorem agentLoop_concluded {left : Nat} {progress progress' : AgentRun.Progress} {content : String}
    {w w' : World} (bounded : progress.stepCount + left ≤ Queue.maxU32)
    (ran : run.agentLoop left progress w = (.ok (content,progress'),w')) :
    ∃ turns, Concluded run progress w progress' w' turns := by
  induction left generalizing progress w with
  | zero =>
    simp only [AgentRun.agentLoop] at ran
    split at ran
    · cases congrArg Prod.fst ran
    · cases congrArg Prod.fst ran
  | succ left ih =>
    simp only [AgentRun.agentLoop] at ran
    split at ran
    · cases congrArg Prod.fst ran
    split at ran
    · cases congrArg Prod.fst ran
    obtain ⟨response,asking,modelled,taking⟩ := bind_ran.mp ran
    obtain ⟨completed,rfl⟩ := raceModel_ok modelled
    have asked : run.asked progress.stepCount = response.toolCalls := by simp [AgentRun.asked,completed]
    obtain ⟨⟨reply,middle⟩,after,replied,rest⟩ := bind_ran.mp taking
    obtain ⟨counted,results,answered,kept,silent⟩ := takeReply_ok (by omega) replied
    change middle.stepCount = progress.stepCount + 1 at counted
    have here : Answered run response.toolCalls w results after :=
      ⟨answered.reached,answered.length,answered.success,answered.executed⟩
    cases reply with
    | some final =>
      cases rest
      have none : response.toolCalls = [] := silent.mp rfl
      have empty : results = [] := List.eq_nil_of_length_eq_zero (by rw [answered.length,none]; rfl)
      refine ⟨0,by simp,by simpa [none] using asked,[],by simpa [empty] using kept,?_⟩
      simpa [none,empty,AgentRun.proposals] using here
    | none =>
      have speaking : response.toolCalls ≠ [] := fun none => by simpa using silent.mpr none
      have looping : run.agentLoop left middle after = (.ok (content,progress'),w') := rest
      obtain ⟨turns,concluded⟩ := ih (by omega) looping
      obtain ⟨others,all,later⟩ := concluded.answered
      refine ⟨turns + 1,?_,?_,results ++ others,?_,?_⟩
      · intro turn below
        cases turn with
        | zero => simpa [asked] using speaking
        | succ turn =>
          have ongoing := concluded.asked turn (by omega)
          rwa [counted,show progress.stepCount + 1 + turn = progress.stepCount + (turn + 1) by omega]
            at ongoing
      · have closed := concluded.closed
        rwa [counted,show progress.stepCount + 1 + turns = progress.stepCount + (turns + 1) by omega]
          at closed
      · rw [all,kept,List.append_assoc]
      · rw [AgentRun.proposals,asked]
        rw [counted] at later
        refine answered_append here later fun toolName executed => ?_
        have kept := agentLoop_keeps (executed_sustained run toolName) left middle after executed
        rw [looping] at kept
        exact kept

-- The model's first reply asks for a tool, and all that it asks for before it closes succeeds.
structure Grounded (run : AgentRun) : Prop where
  asks : run.asked 0 ≠ []
  succeed : ∀ turns, (∀ turn < turns, run.asked turn ≠ []) → ∀ number call,
    (run.proposals 0 turns)[number]? = some call → Succeeds run number call

-- What stands behind a run that reports success.
structure Backed (run : AgentRun) (toolName : String) : Prop where
  executed : Executed toolName (run.runWithCancellationAndScope .start).2.trace
  successful : ∃ result, (run.runWithCancellationAndScope .start).1 = .ok result ∧ result.success = true

-- The effects of calls belong to calls that have been taken up.
def Numbered (w : World) : Prop := ∀ effect ∈ w.trace, ∀ number ∈ effect.number, number < w.reached

theorem numbered_emit {w : World} {effect : Effect} (numbered : Numbered w)
    (own : ∀ number ∈ effect.number, number < w.reached) : Numbered (w.emit effect) := by
  intro other listed
  rcases List.mem_append.mp listed with earlier | last
  · exact numbered other earlier
  · obtain rfl := List.mem_singleton.mp last
    exact own

theorem numbered_sustained (run : AgentRun) : Sustained run Numbered := by
  have quiet : ∀ (w : World) (effect : Effect), effect.number = none → Numbered w →
      Numbered (w.emit effect) :=
    fun w effect silent numbered => numbered_emit numbered (by simp [silent])
  refine ⟨quiet,fun call w w' numbered called => ?_⟩
  have taken : Numbered w.taken := fun effect listed number named =>
    Nat.lt_succ_of_lt (numbered effect listed number named)
  have own : ∀ number ∈ some w.reached, number < w.taken.reached := by
    intro number named
    obtain rfl := Option.some.inj named
    exact Nat.lt_succ_self _
  cases called with
  | stopped notes => exact notes_keep notes quiet taken
  | answered | unrecorded => exact numbered_emit taken own
  | spared | recorded => exact numbered_emit (numbered_emit taken own) own
  | lost _ _ notes => exact notes_keep notes quiet (numbered_emit taken own)

theorem outcomeOf_success {results : List ToolResult} :
    (AgentRun.outcomeOf results == "success") = true ↔ ∀ result ∈ results, result.success = true := by
  unfold AgentRun.outcomeOf
  split <;> simp_all

-- A run that ends well has gone through its loop, and its closing records change nothing.
structure Ended (run : AgentRun) (result : AgentRunResult) (progress : AgentRun.Progress) (w : World)
    (turns : Nat) : Prop where
  concluded : Concluded run .start .start progress w turns
  success : result.success = true ↔ ∀ result ∈ progress.allToolResults, result.success = true
  kept : ∀ motive : World → Prop, (∀ w effect, effect.number = none → motive w → motive (w.emit effect)) →
    motive w → motive (run.runWithCancellationAndScope .start).2

theorem finish_ok {content : String} {progress : AgentRun.Progress} {result : AgentRunResult} {w w' : World}
    (ran : run.finish content progress w = (.ok result,w')) :
    result.success = (AgentRun.outcomeOf progress.allToolResults == "success") := by
  obtain ⟨_,middle,_,rest⟩ := bind_ran.mp ran
  obtain ⟨_,after,_,done⟩ := bind_ran.mp rest
  cases done
  rfl

theorem run_ended {result : AgentRunResult} (ran : (run.runWithCancellationAndScope .start).1 = .ok result) :
    ∃ progress w turns, Ended run result progress w turns := by
  have whole :
      run.runWithCancellationAndScope .start = (.ok result,(run.runWithCancellationAndScope .start).2) :=
    Prod.ext ran rfl
  obtain ⟨final,named⟩ : ∃ final, (run.runWithCancellationAndScope .start).2 = final := ⟨_,rfl⟩
  rw [named] at whole
  simp only [AgentRun.runWithCancellationAndScope] at whole
  cases valid : run.envelope.budget.validate with
  | error error =>
    simp only [valid] at whole
    cases congrArg Prod.fst whole
  | ok u =>
    simp only [valid] at whole
    split at whole
    · cases congrArg Prod.fst whole
    obtain ⟨⟨content,progress⟩,w,looping,finishing⟩ := bind_ran.mp whole
    have small := (validateBudget_ok.mp valid).1.2
    obtain ⟨turns,concluded⟩ := agentLoop_concluded (by
      change 0 + run.envelope.budget.maxSteps ≤ 4294967295
      have limit : maxExecutionSteps = 256 := rfl
      omega) looping
    refine ⟨progress,w,turns,concluded,?_,fun motive quiet holds => ?_⟩
    · rw [finish_ok finishing]
      exact outcomeOf_success
    · have kept := finish_keeps (fun w effect closing =>
          quiet w effect (Effect.isRecord_number closing)) run content progress w holds
      rw [finishing] at kept
      rw [named]
      exact kept

theorem proposals_extend {turns : Nat} {first : Nat} (more : Nat) :
    ∃ later, run.proposals first (turns + more) = run.proposals first turns ++ later := by
  induction turns generalizing first with
  | zero => exact ⟨_,(List.nil_append _).symm⟩
  | succ turns ih =>
    obtain ⟨later,split⟩ := @ih (first + 1)
    refine ⟨later,?_⟩
    rw [show turns + 1 + more = (turns + more) + 1 by omega,AgentRun.proposals,AgentRun.proposals,split,
      List.append_assoc]

theorem Ended.grounded {result : AgentRunResult} {progress : AgentRun.Progress} {w : World} {turns : Nat}
    (ended : Ended run result progress w turns) : Grounded run ↔ turns ≠ 0 ∧ result.success = true := by
  obtain ⟨results,all,answered⟩ := ended.concluded.answered
  have total : result.success = true ↔ ∀ number call, (run.proposals 0 turns)[number]? = some call →
      Succeeds run number call := by
    rw [ended.success,show progress.allToolResults = results from all,answered.success]
    simp [World.start,AgentRun.Progress.start]
  constructor
  · intro grounded
    refine ⟨?_,total.mpr (grounded.succeed turns fun turn below => ?_)⟩
    · intro none
      have closed := ended.concluded.closed
      rw [none] at closed
      exact grounded.asks closed
    · simpa [AgentRun.Progress.start] using ended.concluded.asked turn below
  · rintro ⟨some,succeeded⟩
    refine ⟨?_,fun turns' ongoing number call listed => ?_⟩
    · exact ended.concluded.asked 0 (by omega)
    · have within : turns' ≤ turns := by
        by_contra beyond
        have closed := ended.concluded.closed
        exact ongoing turns (by omega) (by simpa [AgentRun.Progress.start] using closed)
      obtain ⟨later,split⟩ := @proposals_extend run turns' 0 (turns - turns')
      refine total.mp succeeded number call ?_
      rw [show turns = turns' + (turns - turns') by omega,split,
        List.getElem?_append_left (List.getElem?_eq_some_iff.mp listed).1]
      exact listed

-- Exactly the grounded runs are backed, among those that end well under a scope for the tool.
theorem backed_iff {result : AgentRunResult} {toolName : String} {scope : PlanExecutionScope}
    (under : run.scope = some scope) (action : scope.action = .executeTool toolName)
    (ran : (run.runWithCancellationAndScope .start).1 = .ok result) : Backed run toolName ↔ Grounded run := by
  obtain ⟨progress,w,turns,ended⟩ := run_ended ran
  obtain ⟨results,all,answered⟩ := ended.concluded.answered
  rw [ended.grounded]
  constructor
  · intro backed
    obtain ⟨result',ran',succeeded⟩ := backed.successful
    obtain rfl := Except.ok.inj (ran.symm.trans ran')
    refine ⟨fun none => ?_,succeeded⟩
    -- without a turn of calls no call was taken up
    have idle : w.reached = 0 := by
      rw [answered.reached,none]
      rfl
    have untouched := ended.kept (fun w => w.reached = 0) (fun _ _ _ same => same) idle
    have numbered : Numbered (run.runWithCancellationAndScope .start).2 :=
      run_keeps (numbered_sustained run) .start (by simp [Numbered,World.start])
    rcases backed.executed with ⟨number,tool,request,began,_⟩ | ⟨number,tool,spared,_⟩
    · have below := numbered _ began number rfl
      omega
    · have below := numbered _ spared number rfl
      omega
  · rintro ⟨some,succeeded⟩
    refine ⟨?_,result,ran,succeeded⟩
    have good := ended.success.mp succeeded
    rw [show progress.allToolResults = results from all] at good
    have asked : run.proposals 0 turns ≠ [] := by
      obtain ⟨turns,rfl⟩ := Nat.exists_eq_succ_of_ne_zero some
      intro none
      exact ended.concluded.asked 0 (by omega) (List.append_eq_nil_iff.mp none).1
    have executed := answered.executed asked good scope (by simp [under]) toolName action
    exact ended.kept (fun w => Executed toolName w.trace) (executed_sustained run toolName).quiet executed

end Shaka.Runtime
