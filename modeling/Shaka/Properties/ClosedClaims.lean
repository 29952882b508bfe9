import Shaka.Properties.HalfOpenProbe

namespace Shaka.Properties
open Shaka.Core Queue Store Shaka.Runtime Api KeptState GuardedRuns

variable {n : Nat} {encoding : StoreEncoding} {s : Service n}

-- Since the last success fewer failures were counted than open the breaker.
def FewFailures (threshold : Nat) (snapshot : CircuitSnapshot) : Prop :=
  snapshot.failureCount = 0 ∨ snapshot.failureCount < threshold

def Counts (threshold : Nat) (snapshot : CircuitSnapshot) : Prop :=
  snapshot.state = .closed ↔ FewFailures threshold snapshot

theorem restored_counts (threshold : Nat) (snapshot : CircuitSnapshot) :
    Counts threshold (restored snapshot) :=
  ⟨fun _ => .inl rfl,fun _ => rfl⟩

theorem countFailure_counts {config : CircuitConfig} {now : Time} {snapshot : CircuitSnapshot}
    (bounded : config.failureThreshold ≤ maxU32) (counts : Counts config.failureThreshold snapshot) :
    Counts config.failureThreshold (countFailure config now snapshot) := by
  simp only [Counts,FewFailures] at counts ⊢
  have room : 0 < maxU32 := by decide
  simp only [countFailure]
  split
  · next opens =>
    constructor
    · intro closed
      cases closed
    · intro few
      rcases opens with halfOpen | reached
      · rw [halfOpen] at counts
        have many : ¬ (snapshot.failureCount = 0 ∨ snapshot.failureCount < config.failureThreshold) :=
          fun few => by cases counts.mpr few
        simp only at few
        omega
      · simp only at few reached
        omega
  · next stays =>
    have below : ¬ config.failureThreshold ≤ min (snapshot.failureCount + 1) maxU32 := fun reached =>
        stays (.inr reached)
    simp only
    refine ⟨fun _ => .inr (by omega),fun _ => counts.mpr (.inr (by omega))⟩

-- The breaker is closed exactly while it has counted few failures, and so is its row.
structure Counted (breaker : CircuitBreaker) : Prop where
  bounded : breaker.config.failureThreshold ≤ maxU32
  snapshot : Counts breaker.config.failureThreshold breaker.snapshot
  row : ∀ row ∈ breaker.row, Counts breaker.config.failureThreshold row

-- A call that leaves its settings, and writes no row but that of its snapshot.
theorem Counted.moved {breaker after : CircuitBreaker} (counted : Counted breaker)
    (config : after.config = breaker.config)
    (snapshot : Counts breaker.config.failureThreshold after.snapshot)
    (row : after.row = breaker.row ∨ after.row = some after.snapshot) : Counted after := by
  refine ⟨?_,?_,?_⟩ <;> rw [config]
  · exact counted.bounded
  · exact snapshot
  · rcases row with same | saved
    · rw [same]
      exact counted.row
    · intro row found
      rw [saved] at found
      cases found
      exact snapshot

theorem allow_counted (now : Time) (fault : Option QueueError) {breaker : CircuitBreaker}
    (counted : Counted breaker) : Counted (CircuitBreaker.allow now fault breaker).2 := by
  have parts := allow_parts now fault breaker
  generalize CircuitBreaker.allow now fault breaker = answer at parts ⊢
  have probed_counts : breaker.snapshot.state = .opened →
      Counts breaker.config.failureThreshold (probed breaker).snapshot := by
    intro opened
    have held := counted.snapshot
    simp only [Counts,opened,reduceCtorEq,false_iff] at held
    simp only [Counts,probed,setSnapshot,reduceCtorEq,false_iff]
    exact held
  cases parts with
  | closed | early | halfOpen => exact counted
  | probe opened => exact counted.moved rfl (probed_counts opened) (.inr rfl)
  | refused opened => exact counted.moved rfl (probed_counts opened) (.inl rfl)

theorem saveCircuit_row (fault : Option QueueError) (breaker : CircuitBreaker) :
    (saveCircuit fault breaker).2.row = breaker.row ∨
      (saveCircuit fault breaker).2.row = some (saveCircuit fault breaker).2.snapshot := by
  cases fault with
  | none => exact .inr rfl
  | some error => exact .inl rfl

theorem saveCircuit_config (fault : Option QueueError) (breaker : CircuitBreaker) :
    (saveCircuit fault breaker).2.config = breaker.config := by
  cases fault <;> rfl

theorem records_counted {breaker after : CircuitBreaker} (records : Records breaker after)
    (counted : Counted breaker) : Counted after := by
  obtain ⟨fault,rfl | ⟨now,rfl⟩⟩ := records
  · refine counted.moved (saveCircuit_config fault _) ?_ (saveCircuit_row fault _)
    rw [recordSuccess_snapshot]
    exact restored_counts _ _
  · refine counted.moved (saveCircuit_config fault _) ?_ (saveCircuit_row fault _)
    rw [recordFailure_snapshot]
    exact countFailure_counts counted.bounded counted.snapshot

-- A process that takes the place of another has its threshold.
def KeepsThreshold (s : Service n) : ServiceEvent n → Prop
  | .restart config _ => config.circuit.failureThreshold = s.api.breaker.config.failureThreshold
  | _ => True

theorem closed_counts (threshold : Nat) (name : String) : Counts threshold (.closed name) :=
  ⟨fun _ => .inl rfl,fun _ => rfl⟩

theorem circuitBreaker_counted {name : String} {config : CircuitConfig} {row : Option CircuitSnapshot}
    (bounded : config.failureThreshold ≤ maxU32)
    (counts : ∀ snapshot ∈ row, Counts config.failureThreshold snapshot) :
    Counted (circuitBreaker name config row) := by
  have taken : Counts config.failureThreshold (row.getD (.closed name)) := by
    cases row with
    | none => exact closed_counts _ _
    | some snapshot => exact counts snapshot rfl
  refine ⟨bounded,taken,fun snapshot found => ?_⟩
  cases found
  exact taken

theorem work_counted {worker : Fin n} {moment : WorkerMoment} (counted : Counted s.api.breaker) :
    Counted (s.work encoding worker moment).api.breaker := by
  unfold Service.work
  cases s.phase worker with
  | waiting =>
    have later := allow_counted moment.now moment.fault counted
    simp only [Service.enter]
    split
    · exact counted
    · generalize CircuitBreaker.allow moment.now moment.fault s.api.breaker = answer at later ⊢
      rcases answer with ⟨error | (_ | _),breaker⟩ <;> exact later
  | allowed now =>
    simp only [Service.claim]
    split <;> exact counted
  | executing task leaseToken =>
    obtain ⟨told,silent⟩ := @recordOutcome_breaker encoding (s.executionOf task moment) s.api
    change Counted ((s.executionOf task moment).recordOutcome encoding s.api).breaker
    cases reported : isReported (s.executionOf task moment).outcome with
    | true => exact records_counted (told reported) counted
    | false =>
      rw [silent reported]
      exact counted
  | recorded execution leaseToken =>
    change Counted (execution.finish encoding leaseToken s.api).breaker
    rw [finish_breaker]
    exact counted
  | returned => exact counted

theorem serve_counted {event : ServiceEvent n} (counted : Counted s.api.breaker)
    (keeps : KeepsThreshold s event) : Counted (serve encoding s event).api.breaker := by
  cases event with
  | work worker moment => exact work_counted counted
  | request queue => exact counted
  | shutdown => exact counted
  | restart config now =>
    have same : config.circuit.failureThreshold = s.api.breaker.config.failureThreshold := keeps
    refine circuitBreaker_counted ?_ ?_ <;> rw [same]
    · exact counted.bounded
    · exact counted.row

-- The step that the task was handed out for asks for a closed circuit.
def startsGuarded (queue : QueueStore) (task : TaskRecord) : Bool :=
  match planKeyOf task,task.planExecutionScope with
  | some key,some scope => (queue.plans.lookup key).any fun rows =>
    rows.plan.steps.any fun step => step.stepId == scope.stepId && step.preconditions.contains .circuitClosed
  | _,_ => false

-- The circuit is closed, as the worker would report it when it finishes the task.
def ClosedAtClaim (s : Service n) (task : TaskRecord) (moment : WorkerMoment) : Prop :=
  s.api.breaker.snapshot.state = .closed ∧
    ((s.executionOf task moment).workerPlanContext s.api).circuitClosed = s.planContext.circuitClosed

theorem closedAtClaim_iff {task : TaskRecord} {moment : WorkerMoment} :
    ClosedAtClaim s task moment ↔ s.api.breaker.snapshot.state = .closed := by
  simp [ClosedAtClaim,Execution.workerPlanContext,Service.planContext]

-- No worker is let through to try an open breaker, and while one stands between `allow` and its claim no
-- failure that is recorded reaches the threshold.
def Calm (s : Service n) : ServiceEvent n → Prop
  | .work worker moment => match s.phase worker with
    | .waiting => s.shutdown = false → s.api.breaker.snapshot.state = .opened →
        isProbeDue moment.now s.api.breaker.snapshot = false
    | .executing task _ => (∃ other since, s.phase other = .allowed since) →
        (∀ error, (s.executionOf task moment).outcome = .error error → isRetryable error = true →
          s.api.breaker.snapshot.failureCount + 1 < s.api.breaker.config.failureThreshold)
    | .allowed _ | .recorded .. | .returned => True
  | .request _ | .shutdown => True
  | .restart config now => KeepsThreshold s (.restart config now)

theorem Calm.keeps {event : ServiceEvent n} (calm : Calm s event) : KeepsThreshold s event := by
  cases event with
  | restart => exact calm
  | work | request | shutdown => trivial

-- A worker that was let through stands before a closed breaker.
def Waved (s : Service n) : Prop := ∀ worker since, s.phase worker = .allowed since →
    s.api.breaker.snapshot.state = .closed

theorem countFailure_closed {config : CircuitConfig} {now : Time} {snapshot : CircuitSnapshot}
    (closed : snapshot.state = .closed) (few : snapshot.failureCount + 1 < config.failureThreshold) :
    (countFailure config now snapshot).state = .closed := by
  simp only [countFailure]
  rw [if_neg]
  · exact closed
  · rw [closed]
    rintro (halfOpen | reached)
    · cases halfOpen
    · omega

theorem recordOutcome_success {execution : Execution} {result : AgentRunResult} (state : ApiState)
    (ok : execution.outcome = .ok result) : (execution.recordOutcome encoding state).breaker =
      (CircuitBreaker.recordSuccess execution.circuitFault state.breaker).2 := by
  unfold Execution.recordOutcome
  rw [ok]
  rfl

-- What a run that ends tells a closed breaker, unless it is a failure too many.
theorem recordOutcome_closed {execution : Execution} {state : ApiState}
    (closed : state.breaker.snapshot.state = .closed)
    (few : ∀ error, execution.outcome = .error error → isRetryable error = true →
      state.breaker.snapshot.failureCount + 1 < state.breaker.config.failureThreshold) :
    (execution.recordOutcome encoding state).breaker.snapshot.state = .closed := by
  cases outcome : execution.outcome with
  | ok result =>
    rw [recordOutcome_success state outcome,recordSuccess_snapshot]
    rfl
  | error error =>
    obtain ⟨told,silent⟩ := @recordOutcome_breaker encoding execution state
    rw [outcome] at told silent
    cases reported : isRetryable error with
    | false =>
      rw [silent reported]
      exact closed
    | true =>
      obtain ⟨fault,recorded | ⟨now,recorded⟩⟩ := told reported
      · rw [recorded,recordSuccess_snapshot]
        rfl
      · rw [recorded,recordFailure_snapshot]
        exact countFailure_closed closed (few error outcome reported)

-- A step after which nobody else was let through, and that leaves the breaker.
theorem Waved.aside {s' : Service n} (waved : Waved s) (breaker : s'.api.breaker = s.api.breaker)
    (phases : ∀ worker since, s'.phase worker = .allowed since → s.phase worker = .allowed since) :
    Waved s' := by
  intro worker since allowed
  rw [breaker]
  exact waved worker since (phases worker since allowed)

theorem put_allowed {worker : Fin n} {phase : WorkerPhase} (other : ∀ since, phase ≠ .allowed since) :
    ∀ worker' since, (s.put worker phase).phase worker' = .allowed since →
    s.phase worker' = .allowed since := by
  intro worker' since allowed
  simp only [Service.put] at allowed
  split at allowed
  · exact absurd allowed (other since)
  · exact allowed

theorem enter_waved {worker : Fin n} {moment : WorkerMoment} (waved : Waved s)
    (calm : s.shutdown = false → s.api.breaker.snapshot.state = .opened →
      isProbeDue moment.now s.api.breaker.snapshot = false) :
    Waved (s.enter worker moment) := by
  unfold Service.enter
  split
  · exact waved.aside rfl (put_allowed fun _ same => by cases same)
  next runs =>
  have parts := allow_parts moment.now moment.fault s.api.breaker
  generalize CircuitBreaker.allow moment.now moment.fault s.api.breaker = answer at parts ⊢
  cases parts with
  | closed closed => exact fun _ _ _ => closed
  | early | halfOpen => exact waved.aside rfl fun _ _ allowed => allowed
  | probe opened due | refused opened due => rw [calm (by simpa using runs) opened] at due; cases due

theorem work_waved {worker : Fin n} {moment : WorkerMoment} (waved : Waved s)
    (calm : Calm s (.work worker moment)) : Waved (s.work encoding worker moment) := by
  unfold Service.work
  simp only [Calm] at calm
  cases place : s.phase worker with
  | waiting =>
    rw [place] at calm
    exact enter_waved waved calm
  | allowed now =>
    simp only [Service.claim]
    split
    · next task _ _ =>
      refine Waved.aside (s := s.setQueue _) waved rfl (put_allowed fun _ same => ?_)
      cases token : task.leaseToken <;> simp [token] at same
    · exact Waved.aside (s := s.setQueue _) waved rfl (put_allowed fun _ same => by cases same)
    · exact waved.aside rfl (put_allowed fun _ same => by cases same)
  | executing task leaseToken =>
    rw [place] at calm
    intro other since allowed
    have before := @put_allowed n s worker (.recorded (s.executionOf task moment) leaseToken)
      (fun _ same => by cases same) other since allowed
    exact recordOutcome_closed (waved other since before) (calm ⟨other,since,before⟩)
  | recorded execution leaseToken =>
    exact waved.aside (finish_breaker execution leaseToken s.api) (put_allowed fun _ same => by cases same)
  | returned => exact waved

theorem serve_waved {event : ServiceEvent n} (waved : Waved s) (calm : Calm s event) :
    Waved (serve encoding s event) := by
  cases event with
  | work worker moment => exact work_waved waved calm
  | request queue => exact waved
  | shutdown => exact waved
  | restart config now => exact fun _ _ allowed => by cases allowed

-- The circuit is closed exactly where few failures are counted, whatever is claimed there. In a calm run it
-- is closed at every claim that starts a guarded step.
theorem guarded_claim_closed {config : ServiceConfig} {queue : QueueStore} {start : Time}
    (bounded : config.circuit.failureThreshold ≤ maxU32) :
    (∀ s : Service n,
      Reaches (serve encoding) KeepsThreshold (.startWorkers encoding config none queue start) s →
      ∀ task moment, ClosedAtClaim s task moment ↔
        FewFailures s.api.breaker.config.failureThreshold s.api.breaker.snapshot) ∧
    ∀ s : Service n, Reaches (serve encoding) Calm (.startWorkers encoding config none queue start) s →
      ∀ worker now moment task queue', s.phase worker = .allowed now →
        s.claimOf encoding now moment = .ok (some task,queue') → startsGuarded queue' task = true →
        ClosedAtClaim s task moment := by
  refine ⟨fun s run task moment => ?_,fun s run worker now moment task queue' allowed _ _ => ?_⟩
  · have counted : Counted s.api.breaker := by
      refine run.invariant ?_ fun _ _ counted keeps => serve_counted counted keeps
      exact circuitBreaker_counted bounded fun _ found => nomatch found
    rw [closedAtClaim_iff]
    exact counted.snapshot
  · have waved : Waved s := by
      refine run.invariant (fun _ _ allowed => ?_) fun _ _ waved calm => serve_waved waved calm
      cases allowed
    exact closedAtClaim_iff.mpr (waved worker now allowed)

-- A plan with a guarded step waits; in a second store three tasks come first, whose model cannot be reached.

def calmStep : PlanStep := {trialStep "a" [] none with preconditions:=[.circuitClosed]}

def calmService (operations : List Operation) : Service 1 :=
  .startWorkers trialEncoding ⟨.default,.default,.withCapabilities []⟩ none (trial operations) (second 1)

def calmPlan : List Operation := trialOpen 7 [calmStep]

def disturbedPlan : List Operation :=
  [.bootstrapPrincipal trialAdmin,.createSession trialAdmin,.savePlan (trialPlan 7 [calmStep]),
    trialSubmit 1 false (second 1),trialSubmit 2 false (second 1),trialSubmit 3 false (second 1),
    trialSubmit 7 true (second 3)]

def sinceAllowed : WorkerPhase → Option Time
  | .allowed now => some now
  | .waiting | .executing _ _ | .recorded _ _ | .returned => none

-- What the next step of the worker, if it is a claim, finds and hands out.
def claimSeen (count : Nat) (s : Service 1) : Option (CircuitState × Option Bool) :=
  (sinceAllowed (s.phase ⟨0,Nat.one_pos⟩)).bind fun now =>
    (s.claimOf trialEncoding now (unreachableMoment count)).toOption.map fun answer =>
      (s.api.breaker.snapshot.state,answer.1.map (startsGuarded answer.2))

theorem claimSeen_parts {count : Nat} {s : Service 1} {state : CircuitState} {guarded : Bool}
    (seen : claimSeen count s = some (state,some guarded)) : ∃ now task queue', s.phase 0 = .allowed now ∧
      s.claimOf trialEncoding now (unreachableMoment count) = .ok (some task,queue') ∧
      startsGuarded queue' task = guarded ∧ s.api.breaker.snapshot.state = state := by
  unfold claimSeen at seen
  cases place : s.phase ⟨0,Nat.one_pos⟩ with
  | allowed now =>
    simp only [place,sinceAllowed,Option.bind_some] at seen
    cases claimed : s.claimOf trialEncoding now (unreachableMoment count) with
    | error error =>
      rw [claimed] at seen
      cases seen
    | ok answer =>
      obtain ⟨handed,queue'⟩ := answer
      simp only [claimed,Except.toOption,Option.map_some,Option.some.injEq,Prod.mk.injEq] at seen
      obtain ⟨task,rfl,same⟩ := Option.map_eq_some_iff.mp seen.2
      exact ⟨now,task,queue',place,claimed,same,seen.1⟩
  | waiting | executing | recorded | returned =>
    simp only [place,sinceAllowed,Option.bind_none] at seen
    cases seen

theorem guarded_claim_closed_calm : ∃ now task queue',
    (play (serve trialEncoding) (calmService calmPlan) (steps 2 1)).claimOf trialEncoding now
      (unreachableMoment 2) = .ok (some task,queue') ∧ startsGuarded queue' task = true ∧
    ClosedAtClaim (play (serve trialEncoding) (calmService calmPlan) (steps 2 1)) task (unreachableMoment 2) ∧
    FewFailures 3 (play (serve trialEncoding) (calmService calmPlan) (steps 2 1)).api.breaker.snapshot := by
  have seen : claimSeen 2 (play (serve trialEncoding) (calmService calmPlan) (steps 2 1)) =
      some (.closed,some true) := by decide +kernel
  obtain ⟨now,task,queue',place,claimed,guarded,_⟩ := claimSeen_parts seen
  have run : Reaches (serve trialEncoding) Calm (calmService calmPlan)
      (play (serve trialEncoding) (calmService calmPlan) (steps 2 1)) := by
    refine play_reaches ⟨fun _ opened => ?_,trivial⟩
    cases opened
  have law := @guarded_claim_closed 1 trialEncoding ⟨.default,.default,
    .withCapabilities []⟩ (trial calmPlan) (second 1) (by decide)
  have closed := law.2 _ run 0 now (unreachableMoment 2) task queue' place claimed guarded
  have keeps := run.weaken fun _ _ calm => calm.keeps
  exact ⟨now,task,queue',claimed,guarded,closed,(law.1 _ keeps task (unreachableMoment 2)).mp closed⟩

-- The worker that tries the open breaker again is handed the guarded step.
theorem guarded_claim_halfOpen : ∃ s :
    Service 1, Reaches (serve trialEncoding) KeepsThreshold (calmService disturbedPlan) s ∧
    ∃ now task queue', s.phase 0 = .allowed now ∧
      s.claimOf trialEncoding now (unreachableMoment 40) = .ok (some task,queue') ∧
      startsGuarded queue' task = true ∧
      s.api.breaker.snapshot.state = .halfOpen ∧ ¬ ClosedAtClaim s task (unreachableMoment 40) := by
  have seen : claimSeen 40 (play (serve trialEncoding) (calmService disturbedPlan) (steps 2 12 ++
      steps 40 1)) = some (.halfOpen,some true) := by decide +kernel
  obtain ⟨now,task,queue',place,claimed,guarded,halfOpen⟩ := claimSeen_parts seen
  refine ⟨_,play_reaches (admitted_always fun event listed s => ?_),now,task,queue',place,claimed,guarded,
    halfOpen,?_⟩
  · simp only [steps,List.mem_append,List.mem_replicate] at listed
    rcases listed with ⟨_,rfl⟩ | ⟨_,rfl⟩ <;> trivial
  · rw [closedAtClaim_iff,halfOpen]
    simp

end Shaka.Properties
