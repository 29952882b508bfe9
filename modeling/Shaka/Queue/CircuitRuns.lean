import Shaka.Queue.Circuit
import Shaka.Library.GuardedRuns

namespace Shaka.Queue
open Shaka.Core KeptState CheckedSteps GuardedRuns

-- The answers of `allow`, with what each leaves of the breaker.

def probed (breaker : CircuitBreaker) : CircuitBreaker :=
  setSnapshot (fun snapshot => {snapshot with state:=.halfOpen,nextProbeAt:=none}) breaker

-- The row of the breaker is the snapshot.
def saved (breaker : CircuitBreaker) : CircuitBreaker := {breaker with row:=some breaker.snapshot}

def isProbeDue (now : Time) (snapshot : CircuitSnapshot) : Bool := snapshot.nextProbeAt.any (· ≤ now)

inductive Allowed (now : Time) (fault : Option QueueError) (breaker : CircuitBreaker) :
    Except QueueError Bool × CircuitBreaker → Prop
  | closed : breaker.snapshot.state = .closed → Allowed now fault breaker (.ok true,breaker)
  | early : breaker.snapshot.state = .opened → isProbeDue now breaker.snapshot = false →
      Allowed now fault breaker (.ok false,breaker)
  | halfOpen : breaker.snapshot.state = .halfOpen → Allowed now fault breaker (.ok false,breaker)
  | probe : breaker.snapshot.state = .opened → isProbeDue now breaker.snapshot = true → fault = none →
      Allowed now fault breaker (.ok true,saved (probed breaker))
  | refused : breaker.snapshot.state = .opened → isProbeDue now breaker.snapshot = true →
      fault = some error → Allowed now fault breaker (.error error,probed breaker)

theorem allow_parts (now : Time) (fault : Option QueueError) (breaker : CircuitBreaker) :
    Allowed now fault breaker (CircuitBreaker.allow now fault breaker) := by
  unfold CircuitBreaker.allow
  rw [bind_of_ok (show observe CircuitBreaker.snapshot breaker = (.ok breaker.snapshot,breaker) from rfl)]
  cases state : breaker.snapshot.state with
  | closed => exact .closed state
  | halfOpen => exact .halfOpen state
  | opened =>
    by_cases due : isProbeDue now breaker.snapshot = true
    · simp only [show breaker.snapshot.nextProbeAt.any (· ≤ now) = true from due,if_true]
      cases fault with
      | none => exact .probe state due rfl
      | some error => exact .refused state due rfl
    · simp only [show ¬ breaker.snapshot.nextProbeAt.any (· ≤ now) = true from due,Bool.false_eq_true,
        if_false]
      exact .early state (by simpa using due)

theorem saveCircuit_snapshot (fault : Option QueueError) (breaker : CircuitBreaker) :
    (saveCircuit fault breaker).2.snapshot = breaker.snapshot := by
  cases fault <;> rfl

def restored (snapshot : CircuitSnapshot) : CircuitSnapshot :=
  {snapshot with state:=.closed,failureCount:=0,openedAt:=none,nextProbeAt:=none}

theorem recordSuccess_snapshot (fault : Option QueueError) (breaker : CircuitBreaker) :
    (CircuitBreaker.recordSuccess fault breaker).2.snapshot = restored breaker.snapshot := by
  change (saveCircuit fault _).2.snapshot = _
  rw [saveCircuit_snapshot]
  rfl

theorem recordFailure_snapshot (now : Time) (fault : Option QueueError) (breaker : CircuitBreaker) :
    (CircuitBreaker.recordFailure now fault breaker).2.snapshot = countFailure breaker.config now
      breaker.snapshot := by
  change (saveCircuit fault _).2.snapshot = _
  rw [saveCircuit_snapshot]
  rfl

theorem countFailure_moves (config : CircuitConfig) (now : Time) (snapshot : CircuitSnapshot) :
    (countFailure config now snapshot).state ≠ .halfOpen := by
  simp only [countFailure]
  split
  · simp
  · next held => exact fun same => held (.inl same)

-- The breaker has been told of a success or of a failure.
def Records (breaker after : CircuitBreaker) : Prop :=
  ∃ fault, after = (CircuitBreaker.recordSuccess fault breaker).2 ∨
    ∃ now, after = (CircuitBreaker.recordFailure now fault breaker).2

theorem Records.moves {breaker after : CircuitBreaker} (records : Records breaker after) :
    after.snapshot.state ≠ .halfOpen := by
  obtain ⟨fault,rfl | ⟨now,rfl⟩⟩ := records
  · rw [recordSuccess_snapshot]
    simp [restored]
  · rw [recordFailure_snapshot]
    exact countFailure_moves _ _ _

-- The calls of a breaker, with the refusal of the database that each meets, and its reload from the row.

inductive CircuitEvent where
  | allow (now : Time) (fault : Option QueueError)
  | success (fault : Option QueueError)
  | failure (now : Time) (fault : Option QueueError)
  | reload

def CircuitEvent.fault : CircuitEvent → Option QueueError
  | .allow _ fault | .success fault | .failure _ fault => fault
  | .reload => none

-- The answer is that of `allow`.
def perform (breaker : CircuitBreaker) : CircuitEvent → Except QueueError (Option Bool) × CircuitBreaker
  | .allow now fault =>
    let (answer,after) := CircuitBreaker.allow now fault breaker
    (answer.map some,after)
  | .success fault =>
    let (answer,after) := CircuitBreaker.recordSuccess fault breaker
    (answer.map fun _ => none,after)
  | .failure now fault =>
    let (answer,after) := CircuitBreaker.recordFailure now fault breaker
    (answer.map fun _ => none,after)
  | .reload => (.ok none,circuitBreaker breaker.snapshot.name breaker.config breaker.row)

def advance (breaker : CircuitBreaker) (event : CircuitEvent) : CircuitBreaker := (perform breaker event).2

end Shaka.Queue
