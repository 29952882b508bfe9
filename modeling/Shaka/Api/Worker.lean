import Shaka.Api.Config
import Shaka.Queue.Circuit
import Shaka.Runtime.Orchestrator

namespace Shaka.Api
open Shaka.Core Queue Shaka.Runtime KeptState

def isRetryable : OrchestratorError → Bool
  | .http _ | .deadlineExceeded => true
  | _ => false

-- What the workers of a process share.
structure ApiState where
  queue : QueueStore
  breaker : CircuitBreaker

-- One call of `execute_task`: the task it was handed, the runtime with all that happens to its
-- run, the writes of the breaker, and what the other workers do meanwhile and between its calls.
structure Execution where
  config : ApiConfig
  task : TaskRecord
  objective : String
  host : Host
  tools : ToolRegistry
  schedule : Schedule
  shutdown : Bool
  now : Time
  circuitFault : Option QueueError
  resultJson : AgentRunResult → Option String
  meanwhile : ApiState → ApiState
  between : ApiState → ApiState

namespace Execution
variable (encoding : StoreEncoding) (execution : Execution)

def agent : AgentRun where
  host := execution.host
  tools := execution.tools
  envelope := execution.task.envelope
  objective := execution.objective
  scope := execution.task.planExecutionScope
  schedule := execution.schedule

def outcome : Except OrchestratorError AgentRunResult :=
  (execution.agent.runWithCancellationAndScope .start).1

-- The calls whose failures are only logged.
def logged {α : Type} (program : Program CircuitBreaker QueueError α) (state : ApiState) : ApiState :=
  {state with breaker:=(program state.breaker).2}

def requestShutdownCancel (state : ApiState) : ApiState :=
  match requestCancel encoding state.queue execution.task.taskId execution.task.tenantId execution.now with
  | .ok (_,queue) => {state with queue:=queue}
  | .error _ => state

-- What the worker records of its run before it comes to the queue.
def recordOutcome (state : ApiState) : ApiState :=
  match execution.outcome with
  | .ok _ => logged (CircuitBreaker.recordSuccess execution.circuitFault) state
  | .error error =>
    let state := if error = .cancelled ∧
      execution.shutdown = true then execution.requestShutdownCancel encoding state else state
    if isRetryable error then logged (CircuitBreaker.recordFailure execution.now execution.circuitFault)
      state else state

def report : FinishReport where
  result := match execution.outcome with
    | .ok result => execution.resultJson result
    | .error _ => none
  error := match execution.outcome with
    | .ok _ => none
    | .error error => some (execution.host.redactSensitive (error.text execution.host))
  retryable := match execution.outcome with
    | .ok _ => false
    | .error error => isRetryable error
  baseDelay := execution.config.retryBaseDelay
  maxDelay := execution.config.retryMaxDelay

def workerPlanContext (state : ApiState) : PlanClaimContext where
  circuitClosed := state.breaker.snapshot.state == .closed
  grantedCapabilities := execution.tools.capabilities
  remainingBudget := none
  stateDigest := none

-- `finish_success` and `finish_failure`, which differ in the report alone.
def finish (leaseToken : LeaseToken) (state : ApiState) : ApiState :=
  match finishTaskWithLeaseToken encoding state.queue execution.task.taskId execution.task.tenantId leaseToken
      execution.report execution.now (execution.workerPlanContext state) with
  | .ok (_,queue) => {state with queue:=queue}
  | .error _ => state

-- The state that the worker finds when it comes to finish its task.
def beforeFinish (state : ApiState) : ApiState :=
  execution.between (execution.recordOutcome encoding (execution.meanwhile state))

def executeTask (state : ApiState) : ApiState :=
  match execution.task.leaseToken with
  | none => state
  | some leaseToken => execution.finish encoding leaseToken (execution.beforeFinish encoding state)

end Execution
end Shaka.Api
