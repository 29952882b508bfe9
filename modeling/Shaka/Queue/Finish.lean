import Shaka.Queue.Claim
import Mathlib.Algebra.Ring.Int.Defs

namespace Shaka.Queue
open Shaka.Core CheckedSteps

inductive FinishOutcome where
  | succeeded
  | planStepSucceeded (nextAttemptAt : Time)
  | compensated
  | requeued (nextAttemptAt : Time)
  | failed
  | cancelled
  deriving DecidableEq, Repr

-- The arguments that describe how the worker's run ended.
structure FinishReport where
  result : Option String
  error : Option String
  retryable : Bool
  baseDelay : Time
  maxDelay : Time

def safeErrorText (error : String) : String := String.ofList (error.toList.take 4096)

def saturateI64 (value : Int) : Int := max (-9223372036854775808) (min value 9223372036854775807)

def nanosPerMilli : Int := 1000000

-- Exponential back-off with at most ten doublings, bounded by `max_delay`.
def retryDelay (attempts : Nat) (report : FinishReport) : Time :=
  let delayMs := min (saturateI64 (report.baseDelay.tdiv nanosPerMilli * 2 ^ min (attempts - 1) 10))
    (report.maxDelay.tdiv nanosPerMilli)
  max delayMs 0 * nanosPerMilli

-- The columns that every end of a lease writes.
def releaseRow (status : TaskStatus) (now : Time) (row : TaskRecord) : TaskRecord :=
  {row with status:=status,leaseUntil:=none,leaseToken:=none,updatedAt:=now}

def closeRow (status : TaskStatus) (result lastError : Option String) (now : Time) (row : TaskRecord) :
    TaskRecord :=
  {releaseRow status now row with result:=result,lastError:=lastError,completedAt:=some now}

def requeueRow (lastError : Option String) (nextAttemptAt now : Time) (row : TaskRecord) : TaskRecord :=
  {releaseRow .queued now row with result:=none,lastError:=lastError,nextAttemptAt:=nextAttemptAt}

def unbindStep (row : TaskRecord) : TaskRecord := {row with planStepId:=none}

def taskUpdate (task : TaskRecord) (set : TaskRecord → TaskRecord) : TaskUpdate :=
  ⟨task.taskId,task.tenantId,set⟩

def planTaskUpdate (plan : PlanSpec) (set : TaskRecord → TaskRecord) : TaskUpdate :=
  ⟨plan.taskId,plan.tenantId,set⟩

abbrev FinishEffect := FinishOutcome × PlanTx × TaskUpdate

def compensationSources (rows : PlanRows) (compensationStepId : PlanStepId) : List PlanStepId :=
  rows.sortedStepIds.filter fun stepId => match rows.steps.lookup stepId with
    | some row => row.compensationStepId == some compensationStepId && row.state == .compensating
    | none => false

def completeSource (encoding : StoreEncoding) (plan : PlanSpec) (now : Time) (tx : PlanTx)
    (sourceId : PlanStepId) : Except QueueError PlanTx :=
  appendStepTransitionTx encoding tx plan sourceId .compensating .compensated
    s!"compensation:source:{sourceId.text}" now

def completeCompensationTx (encoding : StoreEncoding) (tx : PlanTx) (plan : PlanSpec)
    (compensationStepId : PlanStepId) (result : Option String) (now : Time) :
    Except QueueError FinishEffect := do
  let sourceIds := compensationSources tx.rows compensationStepId
  let tx ← foldEach (completeSource encoding plan now) tx sourceIds
  let tx ← insertCheckpointTx tx (some compensationStepId) .compensation .succeeded none now
  let remainingSources := tx.rows.stepStates.countP fun entry => entry.2 == .compensating
  if remainingSources = 0 then do
    let tx ← appendPlanTransitionTx encoding tx plan .compensating .compensated
      "compensation:plan:compensated" now
    pure (.compensated,tx,planTaskUpdate plan fun row => unbindStep (closeRow .failed result
      (some "operação original compensada; não representa sucesso da task") now row))
  else pure (.planStepSucceeded now,tx,planTaskUpdate plan fun row =>
    unbindStep (requeueRow none now now row))

def postStepContext (task : TaskRecord) (states : StepStates) (approvals : List PlanApproval)
    (claimContext : PlanClaimContext) (now : Time) (stepId : PlanStepId) : PlanVerificationContext :=
  {PlanVerificationContext.new .postStep now with
    targetStep:=some stepId
    taskState:=some .succeeded
    succeededSteps:=(states.filter fun entry => entry.2 == .succeeded || entry.1 == stepId).map (·.1)
    grantedCapabilities:=task.envelope.executionContext.capabilities
    circuitClosed:=claimContext.circuitClosed
    remainingBudget:=claimContext.remainingBudget.getD task.envelope.budget
    stateDigest:=claimContext.stateDigest
    approvals:=approvals}

-- A run that reported success fails when a postcondition does not hold; the
-- outcome is the error to record, or none.
def judgeStep (encoding : StoreEncoding) (tx : PlanTx) (plan : PlanSpec) (task : TaskRecord)
    (stepId : PlanStepId) (report : FinishReport) (claimContext : PlanClaimContext) (now : Time) :
    Except QueueError (Option String) :=
  match report.error with
  | some error => pure (some (safeErrorText error))
  | none => do
    let states ← loadStepStatesTx tx.rows
    let context := postStepContext task states (loadApprovalsTx tx.rows plan) claimContext now stepId
    if isExecutable encoding plan context then pure none
    else pure (some "pós-condição planejada não satisfeita")

def finishSucceededTx (encoding : StoreEncoding) (tx : PlanTx) (plan : PlanSpec) (task : TaskRecord)
    (stepId : PlanStepId) (attempts : Nat) (report : FinishReport) (claimContext : PlanClaimContext)
    (now : Time) : Except QueueError FinishEffect := do
  let tx ← appendStepTransitionTx encoding tx plan stepId .running .succeeded
    s!"finish:succeeded:{stepId.text}:{attempts}" now
  let tx ← insertCheckpointTx tx (some stepId) .afterStep .succeeded claimContext.stateDigest now
  if plan.state = .compensating then completeCompensationTx encoding tx plan stepId report.result now
  else
    let remaining := tx.rows.stepStates.countP fun entry => entry.2 != .succeeded
    if remaining = 0 then do
      let tx ← appendPlanTransitionTx encoding tx plan .running .succeeded "finish:plan:succeeded" now
      pure (.succeeded,tx,taskUpdate task fun row =>
        unbindStep (closeRow .succeeded report.result none now row))
    else pure (.planStepSucceeded now,tx,taskUpdate task fun row => unbindStep (requeueRow none now now row))

def finishFailedTx (encoding : StoreEncoding) (tx : PlanTx) (plan : PlanSpec) (task : TaskRecord)
    (stepId : PlanStepId) (attempts maxAttempts : Nat) (safeError : String) (report : FinishReport)
    (claimContext : PlanClaimContext) (now : Time) : Except QueueError FinishEffect := do
  let tx ← appendStepTransitionTx encoding tx plan stepId .running .failed
    s!"finish:failed:{stepId.text}:{attempts}" now
  let tx ← insertCheckpointTx tx (some stepId) .afterStep .failed claimContext.stateDigest now
  if plan.state = .compensating then do
    let tx ← markPlanUnknownTx encoding tx plan (some stepId) claimContext.stateDigest now
    pure (.failed,tx,taskUpdate task fun row => unbindStep (closeRow .failed none
      (some "falha durante compensação; resolução humana necessária") now row))
  else if report.retryable = true ∧ attempts < maxAttempts then do
    let tx ← appendStepTransitionTx encoding tx plan stepId .failed .ready
      s!"retry:ready:{stepId.text}:{attempts}" now
    let nextAttemptAt := now + retryDelay attempts report
    pure (.requeued nextAttemptAt,tx,taskUpdate task fun row =>
      unbindStep (requeueRow (some safeError) nextAttemptAt now row))
  else do
    let tx ← stepIf (plan.state = .running)
      (appendPlanTransitionTx encoding tx plan .running .failed "finish:plan:failed" now) tx
    pure (.failed,tx,taskUpdate task fun row => unbindStep (closeRow .failed none (some safeError) now row))

def finishCancelledTx (encoding : StoreEncoding) (tx : PlanTx) (plan : PlanSpec) (task : TaskRecord)
    (stepId : PlanStepId) (claimContext : PlanClaimContext) (now : Time) :
    Except QueueError FinishEffect := do
  let tx ← markPlanUnknownTx encoding tx plan (some stepId) claimContext.stateDigest now
  pure (.cancelled,tx,taskUpdate task fun row =>
    unbindStep {releaseRow .cancelled now row with cancelRequested:=true,completedAt:=some now})

def finishPlannedStepTx (encoding : StoreEncoding) (tx : PlanTx) (task : TaskRecord)
    (reference : PlanTaskReference) (report : FinishReport) (claimContext : PlanClaimContext) (now : Time) :
    Except QueueError FinishEffect := do
  let plan ← loadPlanTx encoding tx.rows task.tenantId reference
  let stepId ← orFail task.planStepId (.invalidInput "task planejada sem etapa locada")
  let row ← orFail (tx.rows.steps.lookup stepId) (.sqlite .queryReturnedNoRows)
  require (row.attempts ≤ maxU32 ∧ row.maxAttempts ≤ maxU32) (.sqlite .integerOutOfRange)
  require (row.state = .running ∨ row.state = .cancelRequested)
    (.invalidInput "etapa planejada não está em execução")
  if task.cancelRequested = true ∨ task.status = .cancelRequested then
    finishCancelledTx encoding tx plan task stepId claimContext now
  else do
    match ← judgeStep encoding tx plan task stepId report claimContext now with
    | none => finishSucceededTx encoding tx plan task stepId row.attempts report claimContext now
    | some safeError =>
      finishFailedTx encoding tx plan task stepId row.attempts row.maxAttempts safeError report
        claimContext now

def finishOutcomeForTerminalStatus : TaskStatus → FinishOutcome
  | .succeeded => .succeeded
  | .cancelled => .cancelled
  | _ => .failed

-- The end of a task without a plan: `finish_direct_cancel_tx`,
-- `finish_direct_requeue_tx` and `finish_direct_terminal_tx`. Their common
-- condition on the lease token was checked on the row just read.
def finishDirect (task : TaskRecord) (report : FinishReport) (now : Time) : FinishOutcome × TaskUpdate :=
  let safeError := report.error.map safeErrorText
  if task.cancelRequested = true ∨ task.status = .cancelRequested then
    (.cancelled,taskUpdate task fun row =>
      {releaseRow .cancelled now row with cancelRequested:=true,completedAt:=some now})
  else if report.retryable = true ∧ task.attempts < task.maxAttempts then
    let nextAttemptAt := now + retryDelay task.attempts report
    (.requeued nextAttemptAt,taskUpdate task (requeueRow safeError nextAttemptAt now))
  else if report.error.isSome then
    (.failed,taskUpdate task (closeRow .failed report.result safeError now))
  else (.succeeded,taskUpdate task (closeRow .succeeded report.result safeError now))

def finishTaskWithLeaseToken (encoding : StoreEncoding) (s : QueueStore) (taskId : TaskId)
    (tenantId : TenantId) (leaseToken : LeaseToken) (report : FinishReport) (now : Time)
    (planContext : PlanClaimContext) :
    Except QueueError (FinishOutcome × QueueStore) := do
  let task ← loadTask encoding s taskId tenantId
  if task.status.isTerminal then pure (finishOutcomeForTerminalStatus task.status,s)
  else do
    require (task.leaseToken = some leaseToken ∧ ∃ leaseUntil ∈ task.leaseUntil, now < leaseUntil) .leaseLost
    if task.planId.isSome then do
      let reference ← taskReference task
      let tx ← s.beginPlan encoding reference
      let (outcome,tx,update) ← finishPlannedStepTx encoding tx task reference report planContext now
      pure (outcome,(s.storePlan (reference.planId,reference.revision) tx).updateTask update)
    else
      let (outcome,update) := finishDirect task report now
      pure (outcome,s.updateTask update)

end Shaka.Queue
