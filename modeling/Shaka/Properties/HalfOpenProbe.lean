import Shaka.Api.WorkerLoop
import Shaka.Queue.CircuitRuns
import Shaka.Properties.StepEvidence

namespace Shaka.Properties
open Shaka.Core Queue Store Shaka.Runtime Api KeptState GuardedRuns

variable {n : Nat} {encoding : StoreEncoding} {s : Service n}

def HalfOpen (s : Service n) : Prop := s.api.breaker.snapshot.state = .halfOpen

instance : Decidable (HalfOpen s) := inferInstanceAs (Decidable (s.api.breaker.snapshot.state = .halfOpen))

-- The worker holds the probe and has not come to the end of its run.
def Probing (s : Service n) (worker : Fin n) : Prop :=
  s.probe = some worker ∧ (s.phase worker).isEngaged = true

def handsTask : Except QueueError (Option TaskRecord × QueueStore) → Bool
  | .ok (some task,_) => task.leaseToken.isSome
  | _ => false

-- The outcomes that the worker tells the breaker.
def isReported : Except OrchestratorError AgentRunResult → Bool
  | .ok _ => true
  | .error error => isRetryable error

-- While the breaker waits for its probe, the claim of the worker that holds it hands out a task
-- and its run ends with a success or a retryable error; the store takes the row that
-- admits the probe, and no process starts from such a row.
def ProbeAnswered (encoding : StoreEncoding) (s : Service n) : ServiceEvent n → Prop
  | .work worker moment => match s.phase worker with
    | .waiting => s.shutdown = false → s.api.breaker.snapshot.state = .opened →
        s.api.breaker.snapshot.nextProbeAt.any (· ≤ moment.now) = true → moment.fault = none
    | .allowed now => HalfOpen s → s.probe = some worker → handsTask (s.claimOf encoding now moment) = true
    | .executing task _ =>
      HalfOpen s → s.probe = some worker → isReported (s.executionOf task moment).outcome = true
    | .recorded .. | .returned => True
  | .request _ | .shutdown => True
  | .restart _ _ => ∀ row ∈ s.api.breaker.row, row.state ≠ .halfOpen

-- A breaker that is half open waits for a worker in the middle of its cycle, and
-- whatever step ends that cycle tells the breaker how it went.
def Attended (encoding : StoreEncoding) (s : Service n) : Prop :=
  HalfOpen s → ∃ worker, Probing s worker ∧ ∀ event, ProbeAnswered encoding s event →
    ((serve encoding s event).phase worker).isEngaged = false →
    Records s.api.breaker (serve encoding s event).api.breaker ∧ ¬ HalfOpen (serve encoding s event)

structure ProbeKept (s : Service n) : Prop where
  held : HalfOpen s → ∃ worker, Probing s worker
  saved : HalfOpen s → ∃ row ∈ s.api.breaker.row, row.state = .halfOpen

theorem ProbeKept.moved {s' : Service n} (moved : ¬ HalfOpen s') : ProbeKept s' :=
  ⟨fun halfOpen => absurd halfOpen moved,fun halfOpen => absurd halfOpen moved⟩

-- A step that leaves the breaker and the holder of its probe alone.
theorem ProbeKept.aside {s' : Service n} (kept : ProbeKept s) (breaker : s'.api.breaker = s.api.breaker)
    (probe : s'.probe = s.probe)
    (engaged : HalfOpen s → ∀ worker, Probing s worker → (s'.phase worker).isEngaged = true) :
    ProbeKept s' := by
  have before : HalfOpen s' → HalfOpen s := by
    unfold HalfOpen
    rw [breaker]
    exact id
  constructor
  · intro halfOpen
    obtain ⟨worker,holds⟩ := kept.held (before halfOpen)
    exact ⟨worker,probe.trans holds.1,engaged (before halfOpen) worker holds⟩
  · intro halfOpen
    rw [breaker]
    exact kept.saved (before halfOpen)

theorem put_other {worker other : Fin n} {phase : WorkerPhase} (differs : other ≠ worker) :
    (s.put worker phase).phase other = s.phase other := by
  simp only [Service.put,differs,if_false]

theorem put_own {worker : Fin n} {phase : WorkerPhase} : (s.put worker phase).phase worker = phase := by
  simp only [Service.put,if_true]

theorem Probing.differs {worker other : Fin n} (probing : Probing s other)
    (idle : (s.phase worker).isEngaged = false) : other ≠ worker := by
  intro same
  have engaged := probing.2
  rw [same,idle] at engaged
  cases engaged

-- Giving a worker another place keeps the probe if the worker does not hold it, or holds it still.
theorem ProbeKept.put {s' : Service n} {worker : Fin n} {phase : WorkerPhase} (kept : ProbeKept s)
    (breaker : s'.api.breaker = s.api.breaker) (probe : s'.probe = s.probe)
    (placed : s'.phase = (s.put worker phase).phase)
    (engaged : HalfOpen s → Probing s worker → phase.isEngaged = true) : ProbeKept s' := by
  refine kept.aside breaker probe fun halfOpen other holds => ?_
  rw [placed]
  by_cases same : other = worker
  · subst same
    rw [put_own]
    exact engaged halfOpen holds
  · rw [put_other same]
    exact holds.2

variable {worker : Fin n} {moment : WorkerMoment}

theorem enter_probe (kept : ProbeKept s) (waiting : s.phase worker = .waiting)
    (answered : s.shutdown = false → s.api.breaker.snapshot.state = .opened →
      s.api.breaker.snapshot.nextProbeAt.any (· ≤ moment.now) = true → moment.fault = none) :
    ProbeKept (s.enter worker moment) := by
  have idle : ¬ Probing s worker := by
    intro holds
    have engaged := holds.2
    rw [waiting] at engaged
    cases engaged
  unfold Service.enter
  split
  · exact kept.put rfl rfl rfl fun _ holds => absurd holds idle
  · next live =>
    have parts := allow_parts moment.now moment.fault s.api.breaker
    generalize CircuitBreaker.allow moment.now moment.fault s.api.breaker = answer at parts ⊢
    cases parts with
    | closed state =>
      apply ProbeKept.moved
      unfold HalfOpen
      simp [Service.put,Service.setBreaker,state]
    | early state _ =>
      apply ProbeKept.moved
      unfold HalfOpen
      simp [Service.setBreaker,state]
    | halfOpen state => exact kept.aside rfl rfl fun _ _ holds => holds.2
    | probe state due none =>
      refine ⟨fun _ => ⟨worker,?_,?_⟩,fun _ => ⟨_,rfl,rfl⟩⟩
      · simp only [state,if_true]
      · simp [Service.put,Service.setBreaker,WorkerPhase.isEngaged]
    | refused state due fault =>
      have none := answered (by simpa using live) state due
      rw [none] at fault
      cases fault

theorem claim_probe {now : Time} (kept : ProbeKept s)
    (answered : HalfOpen s → s.probe = some worker →
      handsTask (s.claimOf encoding now moment) = true) :
    ProbeKept (s.claim encoding worker now moment) := by
  unfold Service.claim
  cases claimed : s.claimOf encoding now moment with
  | error error =>
    refine kept.put rfl rfl rfl fun halfOpen holds => ?_
    have handed := answered halfOpen holds.1
    rw [claimed] at handed
    cases handed
  | ok answer =>
    obtain ⟨none | task,queue⟩ := answer
    · refine kept.put rfl rfl rfl fun halfOpen holds => ?_
      have handed := answered halfOpen holds.1
      rw [claimed] at handed
      cases handed
    · refine kept.put rfl rfl rfl fun halfOpen holds => ?_
      have handed := answered halfOpen holds.1
      rw [claimed] at handed
      obtain ⟨leaseToken,held⟩ := Option.isSome_iff_exists.mp handed
      rw [held]
      rfl

-- What the worker records of its run, as the breaker sees it.
theorem recordOutcome_breaker (execution : Execution) (state : ApiState) :
    (isReported execution.outcome = true →
      Records state.breaker (execution.recordOutcome encoding state).breaker) ∧
      (isReported execution.outcome = false → (execution.recordOutcome encoding state).breaker =
        state.breaker) := by
  have cancelled : ∀ state, (execution.requestShutdownCancel encoding state).breaker = state.breaker := by
    intro state
    unfold Execution.requestShutdownCancel
    split <;> rfl
  unfold Execution.recordOutcome
  cases execution.outcome with
  | ok result => exact ⟨fun _ => ⟨execution.circuitFault,.inl rfl⟩,fun silent => by cases silent⟩
  | error error =>
    simp only [isReported]
    constructor
    · intro retryable
      rw [if_pos retryable]
      refine ⟨execution.circuitFault,.inr ⟨execution.now,?_⟩⟩
      simp only [Execution.logged]
      split
      · rw [cancelled]
      · rfl
    · intro final
      rw [if_neg (by simp [final])]
      split
      · exact cancelled state
      · rfl

theorem record_probe {task : TaskRecord} {leaseToken : LeaseToken} (kept : ProbeKept s)
    (answered : HalfOpen s → s.probe = some worker → isReported (s.executionOf task moment).outcome = true) :
    ProbeKept (s.record encoding worker task leaseToken moment) := by
  obtain ⟨told,silent⟩ := @recordOutcome_breaker encoding (s.executionOf task moment) s.api
  cases reported : isReported (s.executionOf task moment).outcome with
  | true => exact .moved (told reported).moves
  | false =>
    refine kept.put (silent reported) rfl rfl fun halfOpen holds => ?_
    rw [answered halfOpen holds.1] at reported
    cases reported

theorem finish_breaker (execution : Execution) (leaseToken : LeaseToken) (state : ApiState) :
    (execution.finish encoding leaseToken state).breaker = state.breaker := by
  unfold Execution.finish
  split <;> rfl

theorem serve_probe {event : ServiceEvent n} (kept : ProbeKept s)
    (answered : ProbeAnswered encoding s event) : ProbeKept (serve encoding s event) := by
  cases event with
  | work worker moment =>
    simp only [ProbeAnswered] at answered
    simp only [serve,Service.work]
    cases place : s.phase worker with
    | waiting =>
      simp only [place] at answered
      exact enter_probe kept place answered
    | allowed now =>
      simp only [place] at answered
      exact claim_probe kept answered
    | executing task leaseToken =>
      simp only [place] at answered
      exact record_probe kept answered
    | recorded execution leaseToken =>
      refine kept.put (finish_breaker execution leaseToken s.api) rfl rfl fun _ holds => ?_
      have engaged := holds.2
      rw [place] at engaged
      cases engaged
    | returned => exact kept
  | request queue => exact kept.aside rfl rfl fun _ _ holds => holds.2
  | shutdown => exact kept.aside rfl rfl fun _ _ holds => holds.2
  | restart config now =>
    apply ProbeKept.moved
    unfold HalfOpen
    simp only [serve,Service.startWorkers,circuitBreaker]
    cases row : s.api.breaker.row with
    | none => simp [CircuitSnapshot.closed]
    | some snapshot => exact answered snapshot row

-- The step that ends the cycle of the holder is the one that records its run.
theorem probe_records {worker : Fin n} {event : ServiceEvent n} (kept : ProbeKept s) (halfOpen : HalfOpen s)
    (holds : Probing s worker) (answered : ProbeAnswered encoding s event)
    (ended : ((serve encoding s event).phase worker).isEngaged = false) :
    Records s.api.breaker (serve encoding s event).api.breaker := by
  have engaged := holds.2
  have stays : ((serve encoding s event).phase worker) ≠ s.phase worker := by
    intro same
    rw [same,engaged] at ended
    cases ended
  cases event with
  | work other moment =>
    by_cases own : other = worker
    · subst own
      simp only [ProbeAnswered] at answered
      simp only [serve,Service.work] at ended ⊢
      cases place : s.phase other with
      | waiting | recorded | returned =>
        rw [place] at engaged
        cases engaged
      | allowed now =>
        simp only [place] at answered ended ⊢
        have handed := answered halfOpen holds.1
        unfold Service.claim at ended
        generalize s.claimOf encoding now moment = answer at handed ended
        rcases answer with error | ⟨_ | task,queue⟩
        · cases handed
        · cases handed
        · obtain ⟨leaseToken,held⟩ := Option.isSome_iff_exists.mp handed
          simp only [put_own,held,WorkerPhase.isEngaged] at ended
          cases ended
      | executing task leaseToken =>
        simp only [place] at answered ⊢
        exact (recordOutcome_breaker _ _).1 (answered halfOpen holds.1)
    · refine absurd ?_ stays
      have differs : worker ≠ other := fun same => own same.symm
      simp only [serve,Service.work,Service.enter,Service.claim,Service.record]
      repeat' split
      all_goals first | rfl | exact put_other differs
  | request queue => exact absurd rfl stays
  | shutdown => exact absurd rfl stays
  | restart config now =>
    obtain ⟨row,saved,state⟩ := kept.saved halfOpen
    exact absurd state (answered row saved)

theorem started_probe (config : ServiceConfig) (queue : QueueStore) (now : Time) :
    ProbeKept (Service.startWorkers encoding config none queue now : Service n) :=
  .moved (by simp [HalfOpen,Service.startWorkers,circuitBreaker,CircuitSnapshot.closed])

-- From a first start, as long as every probe is answered, a breaker that is half open is attended.
theorem probe_attended {config : ServiceConfig} {queue : QueueStore} {now : Time}
    (run : Reaches (serve encoding) (ProbeAnswered encoding) (.startWorkers encoding config none queue now)
      s) : Attended encoding s := by
  have kept := run.invariant (started_probe config queue now) fun s event kept answered =>
      serve_probe kept answered
  intro halfOpen
  obtain ⟨worker,holds⟩ := kept.held halfOpen
  refine ⟨worker,holds,fun event answered ended => ?_⟩
  have records := probe_records kept halfOpen holds answered ended
  exact ⟨records,records.moves⟩

-- Three tasks whose model cannot be reached open the breaker; the worker that tries it
-- again finds no other task.

def probedStore : QueueStore :=
  trial [.bootstrapPrincipal trialAdmin,.createSession trialAdmin,trialSubmit 1 false (second 1),
    trialSubmit 2 false (second 1),trialSubmit 3 false (second 1)]

def trialService : Service 1 :=
  .startWorkers trialEncoding ⟨.default,.default,.withCapabilities []⟩ none probedStore (second 1)

def unreachable : Schedule :=
  {localSchedule with turn:=fun _ => ⟨false,0,.finished (.error (.http "unreachable"))⟩}

def unreachableMoment (count : Nat) : WorkerMoment :=
  ⟨second count,none,fun task => {toolExecution unreachable task with now:=second count}⟩

-- The worker takes as many steps at the instant.
def steps (count number : Nat) : List (ServiceEvent 1) :=
  List.replicate number (.work 0 (unreachableMoment count))

def probedService : Service 1 := play (serve trialEncoding) trialService (steps 2 12 ++ steps 40 1)

def observedService (s : Service 1) : CircuitState × Bool :=
  (s.api.breaker.snapshot.state,(s.phase 0).isEngaged)

-- Without a half open breaker only the write of the row that admits a probe can go wrong.
theorem unhalved_answered {count : Nat} {s : Service 1} (other : ¬ HalfOpen s) :
    ProbeAnswered trialEncoding s (.work 0 (unreachableMoment count)) := by
  simp only [ProbeAnswered]
  split
  · exact fun _ _ _ => rfl
  · exact fun halfOpen => absurd halfOpen other
  · exact fun halfOpen => absurd halfOpen other
  · trivial
  · trivial

theorem steps_admitted {count number : Nat} {s : Service 1}
    (other : ∀ done < number, ¬ HalfOpen (play (serve trialEncoding) s (steps count done))) :
    Admitted (serve trialEncoding) (ProbeAnswered trialEncoding) s (steps count number) := by
  induction number generalizing s with
  | zero => trivial
  | succ number ih =>
    refine ⟨unhalved_answered (other 0 (Nat.succ_pos _)),ih fun done below => ?_⟩
    exact other (done + 1) (Nat.succ_lt_succ below)

theorem probe_attended_held : HalfOpen probedService ∧ Attended trialEncoding probedService := by
  have opening : ∀ done < 12, ¬ HalfOpen (play (serve trialEncoding) trialService (steps 2 done)) := by
    decide +kernel
  have opened : ¬ HalfOpen (play (serve trialEncoding) trialService (steps 2 12)) := by decide +kernel
  refine ⟨by decide +kernel,probe_attended (play_reaches (admitted_append (steps_admitted opening) ?_))⟩
  exact ⟨unhalved_answered opened,trivial⟩

-- The worker comes back without a task, and no call of `allow` moves the breaker again.
theorem probe_stranded : ∃ s : Service 1, Reaches (serve trialEncoding) (fun _ _ => True) trialService s ∧
    HalfOpen s ∧ (∀ worker, ¬ Probing s worker) ∧
    ∀ now fault, CircuitBreaker.allow now fault s.api.breaker = (.ok false,s.api.breaker) := by
  have stranded : observedService (play (serve trialEncoding) trialService (steps 2 12 ++ steps 40 2)) =
      (.halfOpen,false) := by decide +kernel
  obtain ⟨halfOpen,idle⟩ := Prod.mk.inj stranded
  refine ⟨_,play_reaches (admitted_always fun _ _ _ => trivial),halfOpen,fun worker holds =>
    ?_,fun now fault => ?_⟩
  · have engaged := holds.2
    rw [Fin.fin_one_eq_zero worker,idle] at engaged
    cases engaged
  · have parts :=
      allow_parts now fault (play (serve trialEncoding) trialService (steps 2 12 ++ steps 40 2)).api.breaker
    generalize CircuitBreaker.allow now fault _ = answer at parts ⊢
    cases parts with
    | halfOpen => rfl
    | closed state | early state | probe state | refused state =>
      exact absurd (halfOpen.symm.trans state) (by simp)

end Shaka.Properties
