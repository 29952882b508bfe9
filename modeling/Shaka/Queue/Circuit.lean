import Shaka.Queue.Admission
import Shaka.Queue.TextQueries
import Shaka.Library.KeptState

namespace Shaka.Queue
open Shaka.Core KeptState CheckedSteps

inductive CircuitState where
  | closed
  | opened
  | halfOpen
  deriving DecidableEq, Repr

structure CircuitSnapshot where
  name : String
  state : CircuitState
  failureCount : Nat
  openedAt : Option Time
  nextProbeAt : Option Time
  deriving DecidableEq, Repr

structure CircuitConfig where
  failureThreshold : Nat
  openFor : Time
  deriving DecidableEq, Repr

def CircuitConfig.default : CircuitConfig := ⟨3,30 * nanosPerSecond⟩

def CircuitState.asStr : CircuitState → String
  | .closed => "closed"
  | .opened => "open"
  | .halfOpen => "half_open"

def CircuitState.parse (value : String) : Except QueueError CircuitState :=
  match value with
  | "closed" => .ok .closed
  | "open" => .ok .opened
  | "half_open" => .ok .halfOpen
  | other => .error (.invalidInput s!"circuit state desconhecido: {other}")

-- The columns of `api_circuit_breaker` under one name.
structure CircuitRow where
  state : String
  failureCount : Int
  openedAt : Option String
  nextProbeAt : Option String
  deriving DecidableEq, Repr

def CircuitSnapshot.columns (snapshot : CircuitSnapshot) : CircuitRow where
  state := snapshot.state.asStr
  failureCount := snapshot.failureCount
  openedAt := snapshot.openedAt.map timestamp
  nextProbeAt := snapshot.nextProbeAt.map timestamp

-- `parse` is `DateTime::parse_from_rfc3339`.
def parseDatetime (parse : String → Except String Time) (value : String) : Except QueueError Time :=
  (parse value).mapError fun error => .invalidInput s!"timestamp inválido: {error}"

def parseColumn (parse : String → Except String Time) : Option String → Except QueueError (Option Time)
  | none => .ok none
  | some value => (parseDatetime parse value).map some

def loadCircuit (parse : String → Except String Time) (name : String) (row : CircuitRow) :
    Except QueueError CircuitSnapshot := do
  validateKey name "circuit name" 128
  require (0 ≤ row.failureCount ∧ row.failureCount ≤ maxU32)
    (.invalidInput "failure_count persistido inválido: out of range integral type conversion attempted")
  let state ← CircuitState.parse row.state
  let openedAt ← parseColumn parse row.openedAt
  let nextProbeAt ← parseColumn parse row.nextProbeAt
  pure ⟨name,state,row.failureCount.toNat,openedAt,nextProbeAt⟩

def CircuitSnapshot.closed (name : String) : CircuitSnapshot := ⟨name,.closed,0,none,none⟩

-- The breaker of a process: its snapshot, and the row that the store keeps under its name.
structure CircuitBreaker where
  config : CircuitConfig
  snapshot : CircuitSnapshot
  row : Option CircuitSnapshot
  deriving DecidableEq, Repr

-- `circuit_breaker`: a process that starts takes the row over, and makes a closed one if there is none.
def circuitBreaker (name : String) (config : CircuitConfig) (row : Option CircuitSnapshot) : CircuitBreaker :=
  let snapshot := row.getD (.closed name)
  ⟨config,snapshot,some snapshot⟩

-- The same over the row as it is stored, which has to be read first.
def reopenCircuit (parse : String → Except String Time) (name : String) (config : CircuitConfig)
    (row : CircuitRow) : Except QueueError CircuitBreaker := do
  let snapshot ← loadCircuit parse name row
  pure (circuitBreaker name config (some snapshot))

-- `fault` is the refusal of the database, if it refuses the write.
def saveCircuit (fault : Option QueueError) : Program CircuitBreaker QueueError Unit :=
  match fault with
  | some error => fail error
  | none => update fun breaker => {breaker with row:=some breaker.snapshot}

def setSnapshot (f : CircuitSnapshot → CircuitSnapshot) (breaker : CircuitBreaker) : CircuitBreaker :=
  {breaker with snapshot:=f breaker.snapshot}

def CircuitBreaker.allow (now : Time) (fault : Option QueueError) :
    Program CircuitBreaker QueueError Bool := do
  let snapshot ← observe CircuitBreaker.snapshot
  match snapshot.state with
  | .closed => pure true
  | .opened =>
    if snapshot.nextProbeAt.any (· ≤ now) then do
      update (setSnapshot fun snapshot => {snapshot with state:=.halfOpen,nextProbeAt:=none})
      saveCircuit fault
      pure true
    else pure false
  | .halfOpen => pure false

def CircuitBreaker.recordSuccess (fault : Option QueueError) : Program CircuitBreaker QueueError Unit := do
  update (setSnapshot fun snapshot => {snapshot with state:=.closed,failureCount:=0,openedAt:=none,nextProbeAt:=none})
  saveCircuit fault

def countFailure (config : CircuitConfig) (now : Time) (snapshot : CircuitSnapshot) : CircuitSnapshot :=
  let snapshot := {snapshot with failureCount:=min (snapshot.failureCount + 1) maxU32}
  if snapshot.state = .halfOpen ∨ config.failureThreshold ≤ snapshot.failureCount then
    {snapshot with state:=.opened,openedAt:=some now,nextProbeAt:=some (now + config.openFor)}
  else snapshot

def CircuitBreaker.recordFailure (now : Time) (fault : Option QueueError) :
    Program CircuitBreaker QueueError Unit := do
  update fun breaker => setSnapshot (countFailure breaker.config now) breaker
  saveCircuit fault

end Shaka.Queue
