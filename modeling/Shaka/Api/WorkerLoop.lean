import Shaka.Api.Worker

namespace Shaka.Api
open Shaka.Core Queue Shaka.Runtime KeptState

-- Where a worker stands in its loop. An execution that is `recorded` has yet to come to the queue.
inductive WorkerPhase where
  | waiting
  | allowed (now : Time)
  | executing (task : TaskRecord) (leaseToken : LeaseToken)
  | recorded (execution : Execution) (leaseToken : LeaseToken)
  | returned

-- The breaker has let the worker through and knows nothing of its run yet.
def WorkerPhase.isEngaged : WorkerPhase → Bool
  | .allowed _ | .executing .. => true
  | .waiting | .recorded .. | .returned => false

-- What a process is configured with: the tools are those of its runtime.
structure ServiceConfig where
  api : ApiConfig
  circuit : CircuitConfig
  tools : ToolRegistry

-- A process with its workers. `probe` is the worker that `allow` let through last to try an open breaker.
structure Service (n : Nat) where
  config : ServiceConfig
  api : ApiState
  phase : Fin n → WorkerPhase
  probe : Option (Fin n)
  shutdown : Bool

-- What a worker meets in its next step: the clock, the refusal of the database, and the
-- execution it would start of a task.
structure WorkerMoment where
  now : Time
  fault : Option QueueError
  execution : TaskRecord → Execution

namespace Service
variable {n : Nat}

def put (worker : Fin n) (phase : WorkerPhase) (s : Service n) : Service n :=
  {s with phase:=fun other => if other = worker then phase else s.phase other}

def setBreaker (breaker : CircuitBreaker) (s : Service n) : Service n :=
  {s with api:={s.api with breaker:=breaker}}

def setQueue (queue : QueueStore) (s : Service n) : Service n := {s with api:={s.api with queue:=queue}}

-- `start_workers` of a process that finds the row of the breaker in the store.
def startWorkers (encoding : StoreEncoding) (config : ServiceConfig) (row : Option CircuitSnapshot)
    (queue : QueueStore) (now : Time) : Service n where
  config := config
  api := {
    queue := match recoverExpiredLeases encoding queue now with
      | .ok (_,recovered) => recovered
      | .error _ => queue
    breaker := circuitBreaker "agent-runtime" config.circuit row}
  phase := fun _ => .waiting
  probe := none
  shutdown := false

-- The first part of the loop.
def enter (worker : Fin n) (moment : WorkerMoment) (s : Service n) : Service n :=
  if s.shutdown then s.put worker .returned
  else match CircuitBreaker.allow moment.now moment.fault s.api.breaker with
    | (.ok true,breaker) =>
      {(s.setBreaker breaker).put worker (.allowed moment.now) with
        probe:=if s.api.breaker.snapshot.state = .opened then some worker else s.probe}
    | (_,breaker) => s.setBreaker breaker

def planContext (s : Service n) : PlanClaimContext where
  circuitClosed := true
  grantedCapabilities := s.config.tools.capabilities
  remainingBudget := none
  stateDigest := none

def claimOf (encoding : StoreEncoding) (now : Time) (moment : WorkerMoment) (s : Service n) :
    Except QueueError (Option TaskRecord × QueueStore) :=
  match moment.fault with
  | some error => .error error
  | none => claimNextWithPlanContext encoding s.api.queue now s.config.api.leaseFor s.planContext

-- The second part; a task without its token is given up at once.
def claim (encoding : StoreEncoding) (worker : Fin n) (now : Time) (moment : WorkerMoment) (s : Service n) :
    Service n :=
  match s.claimOf encoding now moment with
  | .ok (some task,queue) => (s.setQueue queue).put worker (match task.leaseToken with
    | some leaseToken => .executing task leaseToken
    | none => .waiting)
  | .ok (none,queue) => (s.setQueue queue).put worker .waiting
  | .error _ => s.put worker .waiting

def executionOf (task : TaskRecord) (moment : WorkerMoment) (s : Service n) : Execution :=
  {moment.execution task with config:=s.config.api,tools:=s.config.tools,task:=task,shutdown:=s.shutdown}

def record (encoding : StoreEncoding) (worker : Fin n) (task : TaskRecord) (leaseToken : LeaseToken)
    (moment : WorkerMoment) (s : Service n) : Service n :=
  let execution := s.executionOf task moment
  {s.put worker (.recorded execution leaseToken) with api:=execution.recordOutcome encoding s.api}

-- The worker's own next step.
def work (encoding : StoreEncoding) (worker : Fin n) (moment : WorkerMoment) (s : Service n) : Service n :=
  match s.phase worker with
  | .waiting => s.enter worker moment
  | .allowed now => s.claim encoding worker now moment
  | .executing task leaseToken => s.record encoding worker task leaseToken moment
  | .recorded execution leaseToken =>
    {s.put worker .waiting with api:=execution.finish encoding leaseToken s.api}
  | .returned => s

end Service

-- The steps of the workers, the requests of the clients to the queue, and the end of the process.
inductive ServiceEvent (n : Nat) where
  | work (worker : Fin n) (moment : WorkerMoment)
  | request (queue : QueueStore)
  | shutdown
  | restart (config : ServiceConfig) (now : Time)

def serve {n : Nat} (encoding : StoreEncoding) (s : Service n) : ServiceEvent n → Service n
  | .work worker moment => s.work encoding worker moment
  | .request queue => s.setQueue queue
  | .shutdown => {s with shutdown:=true}
  | .restart config now => .startWorkers encoding config s.api.breaker.row s.api.queue now

end Shaka.Api
