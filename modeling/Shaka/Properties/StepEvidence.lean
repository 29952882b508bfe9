import Shaka.Store.Leases
import Shaka.Api.Worker
import Shaka.Runtime.Results
import Shaka.Properties.ClaimSafety
import Shaka.Properties.ToolRuns

namespace Shaka.Properties
open Shaka.Core Queue Plan Store Shaka.Runtime Api CheckedSteps

variable {encoding : StoreEncoding} {tx tx' : PlanTx} {plan : PlanSpec} {now : Time}

-- No step has become Succeeded.
def Unraised (tx tx' : PlanTx) : Prop :=
  ∀ y, tx'.rows.stepState y = some .succeeded → tx.rows.stepState y = some .succeeded

theorem Unraised.trans {first middle last : PlanTx} (one : Unraised first middle)
    (two : Unraised middle last) : Unraised first last := fun y raised => one y (two y raised)

theorem appendPlan_unraised {origin target : PlanState} {key : String}
    (ok : appendPlanTransitionTx encoding tx plan origin target key now = .ok tx') : Unraised tx tx' := by
  intro y raised
  obtain ⟨_,_,ran⟩ := appendPlan_ok ok
  rw [←view_steps,ran.reached] at raised
  exact raised

theorem appendStep_unraised {x : PlanStepId} {origin target : PlanStepState} {key : String}
    (other : target ≠ .succeeded)
    (ok : appendStepTransitionTx encoding tx plan x origin target key now = .ok tx') : Unraised tx tx' := by
  intro y raised
  obtain ⟨_,_,ran⟩ := appendStep_ok ok
  rw [←view_steps,ran.reached] at raised
  simp only [writes_cons,writes_nil,View.write,View.setStep] at raised
  split at raised
  · exact absurd (Option.some.inj raised) other
  · exact raised

theorem insertCheckpoint_unraised {stepId : Option PlanStepId} {phase : PlanCheckpointPhase}
    {status : PlanCheckpointStatus} {digest : Option String}
    (ok : insertCheckpointTx tx stepId phase status digest now = .ok tx') : Unraised tx tx' := by
  rw [insertCheckpointTx_ok ok]
  exact fun _ raised => raised

theorem markPlanState_unraised (ok : markPlanStateUnknownTx encoding tx plan now = .ok tx') :
    Unraised tx tx' := by
  unfold markPlanStateUnknownTx at ok
  split at ok
  · cases ok
    exact fun _ raised => raised
  split at ok
  · exact appendPlan_unraised ok
  · cases ok
    exact fun _ raised => raised

theorem markStepState_unraised {x : PlanStepId}
    (ok : markStepStateUnknownTx encoding tx plan x now = .ok tx') :
    Unraised tx tx' := by
  unfold markStepStateUnknownTx at ok
  cases found : tx.rows.stepState x with
  | none =>
    simp only [found] at ok
    cases ok
    exact fun _ raised => raised
  | some current =>
    simp only [found] at ok
    split at ok
    · cases ok
      exact fun _ raised => raised
    split at ok
    · exact appendStep_unraised (by simp) ok
    · cases ok
      intro y raised
      have state : (tx.rows.setStep x .unknown).stepState y = some .succeeded := raised
      rw [stepState_setStep,found] at state
      split at state
      · simp at state
      · exact state

theorem markPlan_unraised {x : PlanStepId} {digest : Option String}
    (ok : markPlanUnknownTx encoding tx plan (some x) digest now = .ok tx') : Unraised tx tx' := by
  simp only [markPlanUnknownTx,markNamedStepUnknownTx,bind_ok] at ok
  obtain ⟨marked,first,stepped,second,noted⟩ := ok
  exact (markPlanState_unraised first).trans ((markStepState_unraised second).trans
    (insertCheckpoint_unraised noted))

variable {task : TaskRecord} {x : PlanStepId} {report : FinishReport} {claimContext : PlanClaimContext}

theorem finishFailed_unraised {attempts maxAttempts : Nat} {safeError : String} {effect : FinishEffect}
    (ok : finishFailedTx encoding tx plan task x attempts maxAttempts safeError report claimContext now =
      .ok effect) : Unraised tx effect.2.1 := by
  simp only [finishFailedTx,bind_ok] at ok
  obtain ⟨stepped,first,noted,second,ok⟩ := ok
  have before := (appendStep_unraised (by simp) first).trans (insertCheckpoint_unraised second)
  split at ok
  · obtain ⟨marked,third,done⟩ := bind_ok.mp ok
    cases done
    exact before.trans (markPlan_unraised third)
  split at ok
  · obtain ⟨readied,third,done⟩ := bind_ok.mp ok
    cases done
    exact before.trans (appendStep_unraised (by simp) third)
  · obtain ⟨closed,third,done⟩ := bind_ok.mp ok
    cases done
    rcases stepIf_ok.mp third with ⟨_,moved⟩ | ⟨_,rfl⟩
    · exact before.trans (appendPlan_unraised moved)
    · exact before

theorem finishPlannedStep_unraised {reference : PlanTaskReference} {effect : FinishEffect} {error : String}
    (failed : report.error = some error)
    (ok : finishPlannedStepTx encoding tx task reference report claimContext now = .ok effect) :
    Unraised tx effect.2.1 := by
  simp only [finishPlannedStepTx,bind_ok,orFail_ok,require_ok,exists_const] at ok
  obtain ⟨plan,_,x,_,row,_,_,_,ok⟩ := ok
  split at ok
  · obtain ⟨marked,marking,done⟩ := bind_ok.mp ok
    cases done
    exact markPlan_unraised marking
  · obtain ⟨verdict,judged,done⟩ := bind_ok.mp ok
    rw [judgeStep,failed] at judged
    cases judged
    exact finishFailed_unraised done

-- A finish that reports an error makes no step Succeeded.
theorem finish_unraised {s s' : QueueStore} {taskId : TaskId} {tenantId : TenantId} {leaseToken : LeaseToken}
    {answer : FinishOutcome} {error : String} (failed : report.error = some error)
    (ok : finishTaskWithLeaseToken encoding s taskId tenantId leaseToken report now claimContext =
      .ok (answer,s')) {key : PlanKey} {rows rows' : PlanRows} (stored : s.plans.lookup key = some rows)
    (stored' : s'.plans.lookup key = some rows') (succeeded : rows'.stepState x = some .succeeded) :
    rows.stepState x = some .succeeded := by
  rcases finish_parts ok with rfl | ⟨task,found,_,_,_,_,⟨_,rfl⟩ | ⟨reference,held,_,tx',update,_,
    begun,ran,rfl⟩⟩
  · obtain rfl := Option.some.inj (stored.symm.trans stored')
    exact succeeded
  · rw [updateTask_plans,stored] at stored'
    obtain rfl := Option.some.inj stored'
    exact succeeded
  · rw [updateTask_plans] at stored'
    by_cases own : key = (reference.planId,reference.revision)
    · subst own
      obtain rfl := Option.some.inj (begun.symm.trans stored)
      obtain rfl := Option.some.inj ((AList.lookup_insert _).symm.trans stored')
      exact finishPlannedStep_unraised failed ran x succeeded
    · have kept : s.plans.lookup key = some rows' := (AList.lookup_insert_ne own).symm.trans stored'
      obtain rfl := Option.some.inj (stored.symm.trans kept)
      exact succeeded

-- The end of the execution is what makes the step Succeeded.
def RecordsSucceeded (encoding : StoreEncoding) (execution : Execution) (state : ApiState) (key : PlanKey)
    (x : PlanStepId) : Prop :=
  ∃ rows rows', (execution.beforeFinish encoding state).queue.plans.lookup key = some rows ∧
    (execution.executeTask encoding state).queue.plans.lookup key = some rows' ∧
    rows.stepState x ≠ some .succeeded ∧ rows'.stepState x = some .succeeded

theorem recorded_outcome {execution : Execution} {state : ApiState} {key : PlanKey}
    {leaseToken : LeaseToken} (held : execution.task.leaseToken = some leaseToken)
    (recorded : RecordsSucceeded encoding execution state key x) :
    ∃ result, execution.outcome = .ok result := by
  obtain ⟨rows,rows',stored,stored',open_,succeeded⟩ := recorded
  simp only [Execution.executeTask,held,Execution.finish] at stored'
  cases ran : finishTaskWithLeaseToken encoding (execution.beforeFinish encoding state).queue
      execution.task.taskId execution.task.tenantId leaseToken execution.report execution.now
      (execution.workerPlanContext (execution.beforeFinish encoding state)) with
  | error error =>
    simp only [ran] at stored'
    obtain rfl := Option.some.inj (stored.symm.trans stored')
    exact absurd succeeded open_
  | ok answer =>
    simp only [ran] at stored'
    cases ended : execution.outcome with
    | ok result => exact ⟨result,rfl⟩
    | error error =>
      have failed :
          execution.report.error = some (execution.host.redactSensitive (error.text execution.host)) := by
        simp only [Execution.report,ended]
      exact absurd (finish_unraised failed ran stored stored' succeeded) open_

-- Of the executions under the scope of a tool that make a step Succeeded, exactly those whose
-- model asked for the tool and had every call answered stand on a successful run of it.
theorem step_evidence {execution : Execution} {state : ApiState} {key : PlanKey} {leaseToken : LeaseToken}
    {scope : PlanExecutionScope} {toolName : String} (held : execution.task.leaseToken = some leaseToken)
    (bound : execution.task.planExecutionScope = some scope) (action : scope.action = .executeTool toolName)
    (recorded : RecordsSucceeded encoding execution state key scope.stepId) :
    Backed execution.agent toolName ↔ Grounded execution.agent := by
  obtain ⟨result,ran⟩ := recorded_outcome held recorded
  exact backed_iff bound action ran

-- A plan of one step that has the tool run, and its execution.

def toolStep : PlanStep := {trialStep "a" [] none with action:=.executeTool "echo",risk:=.mutation,approval:=.reviewer}

def toolPlan : PlanSpec := {trialPlan 7 [toolStep] with risk:=.mutation,approval:=.reviewer}

def toolRun : List Operation :=
  [.bootstrapPrincipal trialAdmin,.createSession trialAdmin,.savePlan toolPlan,
    .approvePlan ⟨⟨"reviewer"⟩,⟨"tenant"⟩,.reviewer⟩ trialApproval "approval-1" (second 1),
    trialSubmit 7 true (second 1)]

def toolExecution (schedule : Schedule) (task : TaskRecord) : Execution where
  config := .default
  task := task
  objective := "ok"
  host := trialHost
  tools := ⟨[echoTool],List.nodup_singleton _,[]⟩
  schedule := schedule
  shutdown := false
  now := second 2
  circuitFault := none
  resultJson := fun _ => none
  meanwhile := id
  between := id

def trialBreaker : CircuitBreaker := circuitBreaker "agent-runtime" .default none

-- The local model replies at once.
def localSchedule : Schedule where
  turn := fun _ =>
    ⟨false,0,.finished
    (.ok ⟨"MVP local do Shaka: objetivo recebido: ok. As ferramentas disponíveis foram validadas pelo host antes de qualquer execução.",[],0⟩)⟩
  call := fun number => ⟨0,false,false,0,fun _ => .cancelled,⟨number,0,none⟩⟩
  closing := ⟨0,⟨100,0,none⟩,⟨101,0,none⟩⟩

def stepsOf (s : QueueStore) : Option (Option PlanStepState) :=
  (s.plans.lookup (⟨7⟩,1)).map (·.stepState ⟨"a"⟩)

def isExecution : Effect → Bool
  | .began .. | .spared .. => true
  | .requested _ | .audited .. | .remembered _ => false

def toolScope : PlanExecutionScope := ⟨⟨7⟩,⟨"a"⟩,.executeTool "echo"⟩

-- Whether a claim of the plan hands the step to the worker and its execution makes the step
-- Succeeded, and whether a tool has run.
def observed (schedule : Schedule) : Option (Option (Bool × Bool)) :=
  (claimNextWithPlanContext trialEncoding (trial toolRun) (second 2) (second 1) .default).toOption.map
      fun answer =>
    answer.1.map fun claimed =>
      let execution := toolExecution schedule claimed
      (claimed.leaseToken == some ⟨7⟩ && claimed.planExecutionScope == some toolScope &&
        stepsOf (execution.beforeFinish trialEncoding ⟨answer.2,trialBreaker⟩).queue ==
          some (some .running) &&
        stepsOf (execution.executeTask trialEncoding ⟨answer.2,trialBreaker⟩).queue == some (some .succeeded),
        (execution.agent.runWithCancellationAndScope .start).2.trace.any isExecution)

theorem observed_parts {schedule : Schedule} {ran : Bool}
    (seen : observed schedule = some (some (true,ran))) :
    ∃ claimed s', claimNextWithPlanContext trialEncoding (trial toolRun) (second 2) (second 1) .default =
      .ok (some claimed,s') ∧ claimed.leaseToken = some ⟨7⟩ ∧ claimed.planExecutionScope = some toolScope ∧
      RecordsSucceeded trialEncoding (toolExecution schedule claimed) ⟨s',trialBreaker⟩ (⟨7⟩,
        1) toolScope.stepId ∧
      ((toolExecution schedule claimed).agent.runWithCancellationAndScope .start).2.trace.any isExecution =
        ran := by
  unfold observed at seen
  cases claim : claimNextWithPlanContext trialEncoding (trial toolRun) (second 2) (second 1) .default with
  | error error =>
    rw [claim] at seen
    cases seen
  | ok answer =>
    obtain ⟨handed,s'⟩ := answer
    rw [claim] at seen
    obtain ⟨claimed,rfl,same⟩ := Option.map_eq_some_iff.mp (Option.some.inj seen)
    simp only [Prod.mk.injEq,Bool.and_eq_true,beq_iff_eq] at same
    obtain ⟨⟨⟨⟨token,scope⟩,before⟩,after⟩,trace⟩ := same
    obtain ⟨rows,stored,running⟩ := Option.map_eq_some_iff.mp before
    obtain ⟨rows',stored',succeeded⟩ := Option.map_eq_some_iff.mp after
    exact ⟨claimed,s',rfl,token,scope,⟨rows,rows',stored,stored',by
      change rows.stepState ⟨"a"⟩ ≠ _
      rw [running]
      simp,succeeded⟩,trace⟩

theorem step_evidence_echo : ∃ claimed s',
    claimNextWithPlanContext trialEncoding (trial toolRun) (second 2) (second 1) .default = .ok (some claimed,s') ∧
    (Backed (toolExecution (echoSchedule fun request => .finished (echo request)) claimed).agent "echo" ↔
      Grounded (toolExecution (echoSchedule fun request => .finished (echo request)) claimed).agent) := by
  have seen : observed (echoSchedule fun request => .finished (echo request)) = some (some (true,true)) := by
    decide +kernel
  obtain ⟨claimed,s',claim,held,bound,recorded,_⟩ := observed_parts seen
  exact ⟨claimed,s',claim,step_evidence held bound rfl recorded⟩

-- The local model never asks for the tool, and the step has succeeded.
theorem step_evidence_local : ∃ claimed s',
    claimNextWithPlanContext trialEncoding (trial toolRun) (second 2) (second 1) .default =
      .ok (some claimed,s') ∧ claimed.planExecutionScope = some toolScope ∧
    RecordsSucceeded trialEncoding (toolExecution localSchedule claimed) ⟨s',trialBreaker⟩ (⟨7⟩,1) toolScope.stepId ∧
    ¬ Backed (toolExecution localSchedule claimed).agent "echo" := by
  have seen : observed localSchedule = some (some (true,false)) := by decide +kernel
  obtain ⟨claimed,s',claim,_,bound,recorded,silent⟩ := observed_parts seen
  refine ⟨claimed,s',claim,bound,recorded,fun backed => ?_⟩
  rw [List.any_eq_false] at silent
  rcases backed.executed with ⟨number,tool,request,began,_⟩ | ⟨number,tool,spared,_⟩
  · exact silent _ began rfl
  · exact silent _ spared rfl

end Shaka.Properties
