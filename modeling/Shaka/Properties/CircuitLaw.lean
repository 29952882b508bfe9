import Shaka.Queue.CircuitRuns
import Shaka.Library.PrefixCode
import Shaka.Store.SpentKeys

namespace Shaka.Properties
open Shaka.Core Queue Store KeptState CheckedSteps GuardedRuns

variable {breaker b : CircuitBreaker} {event : CircuitEvent} {fault : Option QueueError} {now : Time}

-- What a call makes of the snapshot, whether or not the row is written.
def advanced (breaker : CircuitBreaker) : CircuitEvent → CircuitSnapshot
  | .allow now _ =>
    if breaker.snapshot.state = .opened ∧
      isProbeDue now breaker.snapshot = true then (probed breaker).snapshot
    else breaker.snapshot
  | .success _ => restored breaker.snapshot
  | .failure now _ => countFailure breaker.config now breaker.snapshot
  | .reload => breaker.row.getD (.closed breaker.snapshot.name)

theorem perform_allow (breaker : CircuitBreaker) (now : Time) (fault : Option QueueError) :
    perform breaker (.allow now fault) =
      ((CircuitBreaker.allow now fault breaker).1.map some,(CircuitBreaker.allow now fault breaker).2) := rfl

theorem advance_snapshot (breaker : CircuitBreaker) (event : CircuitEvent) :
    (advance breaker event).snapshot = advanced breaker event := by
  cases event with
  | allow now fault =>
    have parts := allow_parts now fault breaker
    rw [advance,perform_allow]
    generalize CircuitBreaker.allow now fault breaker = answer at parts ⊢
    unfold advanced
    cases parts with
    | closed state | halfOpen state => simp [state]
    | early _ due => simp [due]
    | probe state due _ | refused state due _ =>
      simp only [state,due,and_self,if_true,saved]
  | success fault => exact recordSuccess_snapshot fault breaker
  | failure now fault => exact recordFailure_snapshot now fault breaker
  | reload => rfl

theorem advance_config (breaker : CircuitBreaker) (event : CircuitEvent) :
    (advance breaker event).config = breaker.config := by
  cases event with
  | allow now fault =>
    have parts := allow_parts now fault breaker
    rw [advance,perform_allow]
    generalize CircuitBreaker.allow now fault breaker = answer at parts ⊢
    cases parts <;> rfl
  | success fault | failure now fault => cases fault <;> rfl
  | reload => rfl

-- A call that is not refused leaves the row as the snapshot is, where it was so before.
theorem advance_saved (accepted : event.fault = none) (same : breaker.row = some breaker.snapshot) :
    (advance breaker event).row = some (advance breaker event).snapshot := by
  cases event with
  | allow now fault =>
    have parts := allow_parts now fault breaker
    rw [advance,perform_allow]
    generalize CircuitBreaker.allow now fault breaker = answer at parts ⊢
    cases parts with
    | closed | early | halfOpen => exact same
    | probe => rfl
    | refused _ _ refused =>
      rw [show fault = none from accepted] at refused
      cases refused
  | success fault | failure now fault =>
    rw [show fault = none from accepted]
    rfl
  | reload => rfl

theorem advance_refused (refused : event.fault ≠ none) : (advance breaker event).row = breaker.row := by
  cases event with
  | allow now fault =>
    have parts := allow_parts now fault breaker
    rw [advance,perform_allow]
    generalize CircuitBreaker.allow now fault breaker = answer at parts ⊢
    cases parts with
    | closed | early | halfOpen | refused => rfl
    | probe _ _ accepted => exact absurd accepted refused
  | success fault | failure now fault =>
    cases fault with
    | none => exact absurd rfl refused
    | some error => rfl
  | reload => exact absurd rfl refused

-- A refused call that moves the breaker in memory.

def Atomic (breaker : CircuitBreaker) (event : CircuitEvent) : Prop :=
  ∀ error, (perform breaker event).1 = .error error → (advance breaker event).snapshot = breaker.snapshot

-- The call has nothing to change: no probe is due, the breaker was restored already, or the
-- counter is full and the breaker opened at this instant.
def Unmoved (breaker : CircuitBreaker) : CircuitEvent → Prop
  | .allow now _ => breaker.snapshot.state ≠ .opened ∨ isProbeDue now breaker.snapshot = false
  | .success _ => breaker.snapshot.state = .closed ∧ breaker.snapshot.failureCount = 0 ∧
      breaker.snapshot.openedAt = none ∧ breaker.snapshot.nextProbeAt = none
  | .failure now _ => breaker.snapshot.failureCount = maxU32 ∧
      (breaker.snapshot.state = .halfOpen ∨ breaker.config.failureThreshold ≤ maxU32 →
        breaker.snapshot.state = .opened ∧ breaker.snapshot.openedAt = some now ∧
          breaker.snapshot.nextProbeAt = some (now + breaker.config.openFor))
  | .reload => True

theorem restored_same {snapshot : CircuitSnapshot} : restored snapshot = snapshot ↔
    snapshot.state = .closed ∧ snapshot.failureCount = 0 ∧ snapshot.openedAt = none ∧
    snapshot.nextProbeAt = none := by
  obtain ⟨name,state,failureCount,openedAt,nextProbeAt⟩ := snapshot
  simp [restored,eq_comm]

theorem countFailure_same {config : CircuitConfig} {snapshot : CircuitSnapshot} :
    countFailure config now snapshot = snapshot ↔ snapshot.failureCount = maxU32 ∧
      (snapshot.state = .halfOpen ∨ config.failureThreshold ≤ maxU32 →
        snapshot.state = .opened ∧ snapshot.openedAt = some now ∧
        snapshot.nextProbeAt = some (now + config.openFor)) := by
  obtain ⟨name,state,failureCount,openedAt,nextProbeAt⟩ := snapshot
  have full : min (failureCount + 1) maxU32 = failureCount ↔ failureCount = maxU32 := by omega
  simp only [countFailure]
  split
  · next opens =>
    simp only [CircuitSnapshot.mk.injEq,true_and,full]
    constructor
    · rintro ⟨rfl,full,rfl,rfl⟩
      exact ⟨full,fun _ => ⟨rfl,rfl,rfl⟩⟩
    · rintro ⟨rfl,same⟩
      obtain ⟨rfl,rfl,rfl⟩ := same (by simpa using opens)
      exact ⟨rfl,rfl,rfl,rfl⟩
  · next stays =>
    simp only [CircuitSnapshot.mk.injEq,true_and,and_true,full]
    constructor
    · rintro rfl
      exact ⟨rfl,fun opens => absurd (by simpa using opens) stays⟩
    · exact fun same => same.1

theorem advanced_same (call : event ≠ .reload) :
    advanced breaker event = breaker.snapshot ↔ Unmoved breaker event := by
  cases event with
  | allow now fault =>
    simp only [advanced,Unmoved]
    split
    · next due =>
      constructor
      · intro same
        have state := congrArg CircuitSnapshot.state same
        rw [due.1] at state
        cases state
      · rintro (other | early)
        · exact absurd due.1 other
        · rw [due.2] at early
          cases early
    · next early =>
      refine ⟨fun _ => ?_,fun _ => rfl⟩
      rw [← Bool.not_eq_true]
      exact not_and_or.mp early
  | success fault => exact restored_same
  | failure now fault => exact countFailure_same
  | reload => exact absurd rfl call

-- Only a call that meets a refusal can be refused, and then it moves the snapshot all the same.
theorem atomic_exact (breaker : CircuitBreaker) (event : CircuitEvent) :
    Atomic breaker event ↔ event.fault = none ∨ Unmoved breaker event := by
  unfold Atomic
  rw [advance_snapshot]
  cases event with
  | allow now fault =>
    rw [← advanced_same (by simp),perform_allow]
    have parts := allow_parts now fault breaker
    generalize CircuitBreaker.allow now fault breaker = answer at parts
    cases parts with
    | closed state | halfOpen state => simp [advanced,state,Except.map]
    | early state due => simp [advanced,due,Except.map]
    | probe state due accepted => simp [accepted,CircuitEvent.fault,Except.map]
    | refused state due refused => simp [refused,CircuitEvent.fault,Except.map]
  | success fault | failure now fault =>
    rw [← advanced_same (by simp)]
    cases fault with
    | none =>
      refine ⟨fun _ => .inl rfl,fun _ error refused => ?_⟩
      change Except.ok none = Except.error error at refused
      cases refused
    | some error =>
      refine ⟨fun same => .inr (same error rfl),fun unmoved _ _ => ?_⟩
      exact unmoved.resolve_left (by simp [CircuitEvent.fault])
  | reload => simp [CircuitEvent.fault,perform]

theorem advance_kept (kept : event.fault = none ∨ Unmoved breaker event)
    (same : breaker.row = some breaker.snapshot) :
    (advance breaker event).row = some (advance breaker event).snapshot := by
  by_cases accepted : event.fault = none
  · exact advance_saved accepted same
  · have call : event ≠ .reload := fun reload => accepted (by rw [reload]; rfl)
    rw [advance_refused accepted,advance_snapshot,(advanced_same call).mpr (kept.resolve_left accepted),same]

-- A call leaves the breaker as it was when its write is refused exactly if it has nothing to
-- change, and while calls are so the row is the snapshot in memory.
theorem breaker_atomic (breaker : CircuitBreaker) (event : CircuitEvent) (name : String)
    (config : CircuitConfig) (row : Option CircuitSnapshot) (b : CircuitBreaker) :
    (Atomic breaker event ↔ event.fault = none ∨ Unmoved breaker event) ∧
    (Reaches advance (fun breaker event => event.fault = none ∨ Unmoved breaker event)
      (circuitBreaker name config row) b → b.row = some b.snapshot) := by
  refine ⟨atomic_exact breaker event,fun run => ?_⟩
  exact run.invariant (motive := fun breaker => breaker.row = some breaker.snapshot) rfl
    fun breaker event same kept => advance_kept kept same

-- A failure whose row is refused is counted in memory alone.
theorem breaker_torn : ¬ Atomic (circuitBreaker "agent-runtime" .default none)
      (.failure 0 (some (.sqlite .queryReturnedNoRows))) ∧
    ∃ b, Reaches advance (fun _ _ => True) (circuitBreaker "agent-runtime" .default none) b ∧
    b.row ≠ some b.snapshot := by
  refine ⟨?_,advance (circuitBreaker "agent-runtime" .default none)
    (.failure 0 (some (.sqlite .queryReturnedNoRows))),
    .step .start trivial,?_⟩
  · rw [atomic_exact]
    rintro (accepted | ⟨full,_⟩)
    · cases accepted
    · cases full
  · rw [advance_refused (by simp [CircuitEvent.fault]),advance_snapshot]
    change some (CircuitSnapshot.closed "agent-runtime") ≠
      some (countFailure .default 0 (.closed "agent-runtime"))
    decide

-- The failures recorded since the last success.

def countOutcome (failures : Nat) : CircuitEvent → Nat
  | .success _ => 0
  | .failure .. => failures + 1
  | .allow .. | .reload => failures

def failuresSince (history : List CircuitEvent) : Nat := history.foldl countOutcome 0

-- A breaker that has lived through such a history without a refusal.
structure Lived (name : String) (config : CircuitConfig) (failures : Nat) (b : CircuitBreaker) : Prop where
  settings : b.config = config
  named : b.snapshot.name = name
  count : b.snapshot.failureCount = min failures maxU32
  closed : b.snapshot.state = .closed ↔ failures < config.failureThreshold
  dated : b.snapshot.state = .opened → ∃ opening, b.snapshot.openedAt = some opening ∧
    b.snapshot.nextProbeAt = some (opening + config.openFor)
  saved : b.row = some b.snapshot

variable {name : String} {config : CircuitConfig} {failures : Nat}

theorem countFailure_lived (bounded : config.failureThreshold ≤ maxU32) {snapshot : CircuitSnapshot}
    (count : snapshot.failureCount = min failures maxU32)
    (closed : snapshot.state = .closed ↔ failures < config.failureThreshold)
    (dated : snapshot.state = .opened → ∃ opening, snapshot.openedAt = some opening ∧
      snapshot.nextProbeAt = some (opening + config.openFor)) :
    (countFailure config now snapshot).name = snapshot.name ∧
    (countFailure config now snapshot).failureCount = min (failures + 1) maxU32 ∧
    ((countFailure config now snapshot).state = .closed ↔ failures + 1 < config.failureThreshold) ∧
    ((countFailure config now snapshot).state = .opened → ∃ opening,
      (countFailure config now snapshot).openedAt = some opening ∧
      (countFailure config now snapshot).nextProbeAt = some (opening + config.openFor)) := by
  have full : min (snapshot.failureCount + 1) maxU32 = min (failures + 1) maxU32 := by omega
  simp only [countFailure,full]
  split
  · next opens =>
    refine ⟨rfl,rfl,?_,fun _ => ⟨now,rfl,rfl⟩⟩
    simp only [reduceCtorEq,false_iff,not_lt]
    rcases opens with halfOpen | reached
    · have open_ : ¬ failures < config.failureThreshold := by
        rw [← closed,halfOpen]
        simp
      omega
    · omega
  · next stays =>
    simp only [not_or,not_le] at stays
    have few : failures + 1 < config.failureThreshold := by omega
    refine ⟨rfl,rfl,?_,dated⟩
    exact ⟨fun _ => few,fun _ => closed.mpr (by omega)⟩

theorem Lived.advance (lived : Lived name config failures b) (threshold : 1 ≤ config.failureThreshold)
    (bounded : config.failureThreshold ≤ maxU32) (accepted : event.fault = none) :
    Lived name config (countOutcome failures event) (Queue.advance b event) := by
  obtain ⟨settings,named,count,closed,dated,same⟩ := lived
  have saves := advance_saved accepted same
  have snapshot := advance_snapshot b event
  have kept := (advance_config b event).trans settings
  cases event with
  | allow now fault =>
    simp only [advanced] at snapshot
    split at snapshot
    · next due =>
      refine ⟨kept,?_,?_,?_,fun opened => ?_,saves⟩ <;> rw [snapshot]
      · exact named
      · exact count
      · simp only [countOutcome,← closed,due.1]
        simp [probed,setSnapshot]
      · rw [snapshot] at opened
        cases opened
    · refine ⟨kept,?_,?_,?_,?_,saves⟩ <;> rw [snapshot] <;> assumption
  | success fault =>
    simp only [advanced] at snapshot
    refine ⟨kept,?_,?_,?_,fun opened => ?_,saves⟩
    · rw [snapshot]
      exact named
    · rw [snapshot]
      rfl
    · rw [snapshot]
      exact ⟨fun _ => threshold,fun _ => rfl⟩
    · rw [snapshot] at opened
      cases opened
  | failure now fault =>
    simp only [advanced,settings] at snapshot
    obtain ⟨same,count',closed',dated'⟩ :=
      @countFailure_lived now config failures bounded b.snapshot count closed dated
    refine ⟨kept,?_,?_,?_,?_,saves⟩ <;> rw [snapshot]
    · rw [same,named]
    · exact count'
    · exact closed'
    · exact dated'
  | reload =>
    simp only [advanced,same,Option.getD_some] at snapshot
    refine ⟨kept,?_,?_,?_,?_,saves⟩ <;> rw [snapshot] <;> assumption

theorem Lived.play (lived : Lived name config failures b) (threshold : 1 ≤ config.failureThreshold)
    (bounded : config.failureThreshold ≤ maxU32) {history : List CircuitEvent}
    (accepted : ∀ event ∈ history, event.fault = none) :
    Lived name config (history.foldl countOutcome failures) (play Queue.advance b history) := by
  induction history generalizing failures b with
  | nil => exact lived
  | cons event rest ih =>
    refine ih (lived.advance threshold bounded (accepted event List.mem_cons_self)) ?_
    exact fun later listed => accepted later (List.mem_cons_of_mem _ listed)

theorem circuitBreaker_lived (threshold : 1 ≤ config.failureThreshold) :
    Lived name config 0 (circuitBreaker name config none) := by
  refine ⟨rfl,rfl,rfl,⟨fun _ => threshold,fun _ => rfl⟩,fun opened => ?_,rfl⟩
  cases opened

-- The answers of calls of `allow` that follow each other.
def allows (b : CircuitBreaker) : List Time → List (Except QueueError (Option Bool))
  | [] => []
  | now :: rest => (perform b (.allow now none)).1 :: allows (Queue.advance b (.allow now none)) rest

def isAllowed : Except QueueError (Option Bool) → Bool
  | .ok (some true) => true
  | _ => false

theorem allows_halfOpen {times : List Time} (halfOpen : b.snapshot.state = .halfOpen) :
    (allows b times).countP isAllowed = 0 := by
  induction times with
  | nil => rfl
  | cons now rest ih =>
    have parts := allow_parts now none b
    rw [allows,Queue.advance,perform_allow]
    generalize CircuitBreaker.allow now none b = answer at parts ⊢
    cases parts with
    | halfOpen => simpa [isAllowed,Except.map] using ih
    | closed state | early state | probe state | refused state =>
      exact absurd (halfOpen.symm.trans state) (by simp)

theorem allows_opened {times : List Time} (opened : b.snapshot.state = .opened) :
    (allows b times).countP isAllowed ≤ 1 := by
  induction times with
  | nil => exact Nat.zero_le 1
  | cons now rest ih =>
    have parts := allow_parts now none b
    rw [allows,Queue.advance,perform_allow]
    generalize CircuitBreaker.allow now none b = answer at parts ⊢
    cases parts with
    | early => simpa [isAllowed,Except.map] using ih
    | probe =>
      have silent := @allows_halfOpen (saved (probed b)) rest rfl
      change (Except.ok (some true) :: allows (saved (probed b)) rest).countP isAllowed ≤ 1
      rw [List.countP_cons_of_pos rfl,silent]
    | closed state | halfOpen state => exact absurd (opened.symm.trans state) (by simp)
    | refused _ _ refused => cases refused

theorem parse_asStr (state : CircuitState) : CircuitState.parse state.asStr = .ok state := by
  cases state <;> rfl

-- What `DateTime::parse_from_rfc3339` makes of what `to_rfc3339` printed: a year takes four digits, and no
-- sign.
structure ReadsRfc3339 (parse : String → Except String Time) : Prop where
  reads : ∀ time, Dated time → parse (timestamp time) = .ok time
  refuses : ∀ time, ¬ Dated time → ∃ error, parse (timestamp time) = .error error

def DatedColumn (column : Option Time) : Prop := ∀ time ∈ column, Dated time

-- The times that a snapshot is stored with are read back.
structure DatedSnapshot (snapshot : CircuitSnapshot) : Prop where
  openedAt : DatedColumn snapshot.openedAt
  nextProbeAt : DatedColumn snapshot.nextProbeAt

variable {parse : String → Except String Time}

theorem parseColumn_exact (reader : ReadsRfc3339 parse) {column : Option Time} :
    (DatedColumn column → parseColumn parse (column.map timestamp) = .ok column) ∧
    (¬ DatedColumn column → ∃ error, parseColumn parse (column.map timestamp) = .error error) := by
  cases column with
  | none =>
    exact ⟨fun _ => rfl,fun undated => absurd (fun _ listed => absurd listed (Option.not_mem_none _)) undated⟩
  | some time =>
    have whole : DatedColumn (some time) ↔ Dated time := by simp [DatedColumn]
    rw [whole,Option.map_some,parseColumn,parseDatetime]
    refine ⟨fun dated => ?_,fun undated => ?_⟩
    · rw [reader.reads time dated]
      rfl
    · obtain ⟨error,refused⟩ := reader.refuses time undated
      rw [refused]
      exact ⟨_,rfl⟩

theorem loadCircuit_columns (reader : ReadsRfc3339 parse) {snapshot : CircuitSnapshot}
    (valid : validateKey snapshot.name "circuit name" 128 = .ok ())
    (bounded : snapshot.failureCount ≤ maxU32) :
    loadCircuit parse snapshot.name snapshot.columns = .ok snapshot ↔ DatedSnapshot snapshot := by
  obtain ⟨opened,unopened⟩ := @parseColumn_exact parse reader snapshot.openedAt
  obtain ⟨probed,unprobed⟩ := @parseColumn_exact parse reader snapshot.nextProbeAt
  unfold loadCircuit CircuitSnapshot.columns
  simp only [valid,ok_bind,parse_asStr]
  rw [require_pos _ (by omega)]
  constructor
  · intro loaded
    simp only [ok_bind,bind_ok] at loaded
    obtain ⟨_,openedAt,_,nextProbeAt,_⟩ := loaded
    constructor
    · by_contra undated
      obtain ⟨_,refused⟩ := unopened undated
      cases refused.symm.trans openedAt
    · by_contra undated
      obtain ⟨_,refused⟩ := unprobed undated
      cases refused.symm.trans nextProbeAt
  · intro dated
    rw [opened dated.openedAt,probed dated.nextProbeAt]
    rfl

-- What the breaker promises after a history without refusals.
structure Lawful (parse : String → Except String Time) (config : CircuitConfig) (history : List CircuitEvent)
    (b : CircuitBreaker) : Prop where
  opens : b.snapshot.state = .closed → ∀ now, (Queue.advance b (.failure now none)).snapshot.state = .opened ↔
    failuresSince (history ++ [.failure now none]) = config.failureThreshold
  admits : b.snapshot.state = .closed → ∀ now, perform b (.allow now none) = (.ok (some true),b)
  reopens : b.snapshot.state = .halfOpen → ∀ now,
    (Queue.advance b (.failure now none)).snapshot.state = .opened
  probes : b.snapshot.state = .opened → ∃ probeAt, b.snapshot.nextProbeAt = some probeAt ∧
    (∀ now < probeAt, perform b (.allow now none) = (.ok (some false),b)) ∧
    ∀ now, probeAt ≤ now → (perform b (.allow now none)).1 = .ok (some true) ∧
      (Queue.advance b (.allow now none)).snapshot.state = .halfOpen
  single : b.snapshot.state = .opened → ∀ times, (allows b times).countP isAllowed ≤ 1
  closes : (Queue.advance b (.success none)).snapshot.state = .closed ∧
    (Queue.advance b (.success none)).snapshot.failureCount = 0
  reloads : ∃ row, b.row = some row ∧ (reopenCircuit parse row.name config row.columns = .ok b ↔
    DatedSnapshot row)

-- The breaker counts, opens, probes and closes as it should whatever its times are; a process that starts
-- anew goes on with it just when the times of its row have years of four digits.
theorem circuit_law (reader : ReadsRfc3339 parse)
    (valid : validateKey name "circuit name" 128 = .ok ()) (threshold : 1 ≤ config.failureThreshold)
    (bounded : config.failureThreshold ≤ maxU32) {history : List CircuitEvent}
    (accepted : ∀ event ∈ history, event.fault = none) :
    Lawful parse config history (GuardedRuns.play Queue.advance (circuitBreaker name config none)
      history) := by
  have fresh : Lived name config 0 (circuitBreaker name config none) := circuitBreaker_lived threshold
  have lived := fresh.play threshold bounded accepted
  generalize GuardedRuns.play Queue.advance (circuitBreaker name config none) history = b at lived
  refine ⟨fun closed now => ?_,fun closed now => ?_,fun halfOpen now => ?_,fun opened =>
    ?_,fun opened times => ?_,?_,?_⟩
  · -- the count was below the threshold, and the failure adds one to it
    have few := lived.closed.mp closed
    have later :=
      (lived.advance threshold bounded (show (CircuitEvent.failure now none).fault = none from rfl)).closed
    have moved := countFailure_moves b.config now b.snapshot
    rw [← recordFailure_snapshot now none b] at moved
    rw [failuresSince,List.foldl_append]
    simp only [List.foldl_cons,List.foldl_nil,countOutcome] at later ⊢
    constructor
    · intro opened
      have reached : ¬ (Queue.advance b (.failure now none)).snapshot.state = .closed := by
        rw [opened]
        simp
      rw [later] at reached
      omega
    · intro reached
      have left : ¬ (Queue.advance b (.failure now none)).snapshot.state = .closed := fun closed => by
        have := later.mp closed
        omega
      change (CircuitBreaker.recordFailure now none b).2.snapshot.state = _
      change ¬ (CircuitBreaker.recordFailure now none b).2.snapshot.state = _ at left
      cases state : (CircuitBreaker.recordFailure now none b).2.snapshot.state with
      | closed => exact absurd state left
      | opened => rfl
      | halfOpen => exact absurd state moved
  · have parts := allow_parts now none b
    rw [perform_allow]
    generalize CircuitBreaker.allow now none b = answer at parts ⊢
    cases parts with
    | closed => rfl
    | early state | probe state | halfOpen state | refused state =>
      exact absurd (closed.symm.trans state) (by simp)
  · rw [advance_snapshot]
    simp [advanced,countFailure,halfOpen]
  · obtain ⟨opening,_,dated⟩ := lived.dated opened
    refine ⟨_,dated,fun now before => ?_,fun now after => ?_⟩
    · have early : isProbeDue now b.snapshot = false := by simpa [isProbeDue,dated] using before
      have parts := allow_parts now none b
      rw [perform_allow]
      generalize CircuitBreaker.allow now none b = answer at parts ⊢
      cases parts with
      | early => rfl
      | probe _ due => rw [early] at due; cases due
      | refused _ _ refused => cases refused
      | closed state | halfOpen state => exact absurd (opened.symm.trans state) (by simp)
    · have due : isProbeDue now b.snapshot = true := by simpa [isProbeDue,dated] using after
      have parts := allow_parts now none b
      rw [Queue.advance,perform_allow]
      generalize CircuitBreaker.allow now none b = answer at parts ⊢
      cases parts with
      | probe => exact ⟨rfl,rfl⟩
      | early _ early => rw [due] at early; cases early
      | refused _ _ refused => cases refused
      | closed state | halfOpen state => exact absurd (opened.symm.trans state) (by simp)
  · exact allows_opened opened
  · rw [advance_snapshot]
    exact ⟨rfl,rfl⟩
  · have exact_ : loadCircuit parse b.snapshot.name b.snapshot.columns = .ok b.snapshot ↔
        DatedSnapshot b.snapshot :=
      loadCircuit_columns reader (lived.named ▸ valid) (lived.count ▸ Nat.min_le_right _ _)
    refine ⟨b.snapshot,lived.saved,?_⟩
    rw [← exact_]
    unfold reopenCircuit
    constructor
    · intro reopened
      obtain ⟨snapshot,loaded,same⟩ := bind_ok.mp reopened
      rw [loaded,← congrArg CircuitBreaker.snapshot (Except.ok.inj same)]
      rfl
    · intro loaded
      rw [loaded,← lived.settings]
      refine congrArg Except.ok ?_
      change (⟨b.config,b.snapshot,some b.snapshot⟩ : CircuitBreaker) = b
      rw [← lived.saved]

-- A reader of the texts that have years of four digits.
noncomputable def readStamp (text : String) : Except String Time :=
  orFail (PrefixCode.readBack Dated timestamp text) "input contains invalid characters"

theorem readStamp_reads : ReadsRfc3339 readStamp where
  reads := fun time dated => orFail_ok.mpr (PrefixCode.readBack_written timestamp_apart dated)
  refuses := fun time undated => by
    have foreign : ∀ other, Dated other → timestamp other ≠ timestamp time := fun other dated same =>
      undated (timestamp_dated dated same)
    exact ⟨_,by rw [readStamp,PrefixCode.readBack_none foreign]; rfl⟩

-- One failure opens the breaker until the year 10000.
def farProbe : CircuitConfig := ⟨1,253402300800 * nanosPerSecond⟩

theorem circuit_law_far :
    ¬ ∀ (config : CircuitConfig) (history : List CircuitEvent), 1 ≤ config.failureThreshold →
    0 < config.openFor → (∀ event ∈ history, event.fault = none) →
    ∃ row, (GuardedRuns.play Queue.advance (circuitBreaker "agent-runtime" config none) history).row =
      some row ∧ reopenCircuit readStamp row.name config row.columns =
        .ok (GuardedRuns.play Queue.advance (circuitBreaker "agent-runtime" config none) history) := by
  intro claim
  obtain ⟨row,stored,reopened⟩ :=
    claim farProbe [.failure 0 none] (by decide) (by decide) (by simp [CircuitEvent.fault])
  have lawful : Lawful readStamp farProbe [.failure 0 none]
      (GuardedRuns.play Queue.advance (circuitBreaker "agent-runtime" farProbe none) [.failure 0 none]) :=
    circuit_law readStamp_reads (by decide +kernel) (by decide) (by decide) (by simp [CircuitEvent.fault])
  obtain ⟨row',stored',exact_⟩ := lawful.reloads
  obtain rfl := Option.some.inj (stored.symm.trans stored')
  have opened :
      (GuardedRuns.play Queue.advance (circuitBreaker "agent-runtime" farProbe none) [.failure 0 none]).row =
      some ⟨"agent-runtime",.opened,1,some 0,some farProbe.openFor⟩ := by decide +kernel
  obtain rfl := Option.some.inj (stored.symm.trans opened)
  have far : ¬ Dated farProbe.openFor := by decide +kernel
  exact far ((exact_.mp reopened).nextProbeAt _ rfl)

-- Three failures in a row, a call that comes too early, the probe, and another call.
theorem circuit_law_probed :
    Lawful readStamp .default [.failure 1 none,.failure 2 none,.failure 3 none,.allow 4 none,
    .allow (second 31) none,.allow (second 32) none]
    (GuardedRuns.play Queue.advance (circuitBreaker "agent-runtime" .default none) [.failure 1 none,
      .failure 2 none,.failure 3 none,.allow 4 none,.allow (second 31) none,.allow (second 32) none]) :=
  circuit_law readStamp_reads (by decide +kernel) (by decide) (by decide) (by simp [CircuitEvent.fault])

end Shaka.Properties
