import Shaka.Plan.Lifecycle

namespace Shaka.Plan
open Shaka.Core Queue

-- The plan states in which a task of this status can be found.
def phases : TaskStatus → List PlanState
  | .queued => [.approved,.running,.compensating,.unknown]
  | .running => [.running,.compensating,.unknown]
  | .cancelRequested => [.cancelRequested,.unknown]
  | .succeeded => [.succeeded]
  | .failed => [.failed,.unknown,.compensated]
  | .cancelled => [.cancelled,.unknown]

-- What holds of a planned task and its plan between any two operations.
structure Coherent (f : Flow) : Prop where
  leased : f.lease.status.isLeased = f.lease.planStep.isSome
  token : f.lease.leaseToken.isSome = f.lease.planStep.isSome
  expiry : f.lease.leaseUntil.isSome = f.lease.planStep.isSome
  flag : f.lease.cancelRequested = true ↔ f.lease.status = .cancelRequested ∨ f.lease.status = .cancelled
  phase : f.view.plan ∈ phases f.lease.status
  bound : ∀ x, f.lease.planStep = some x → (f.view.steps x = some .running ∧ f.view.plan ≠ .unknown) ∨
    (f.view.steps x = some .unknown ∧ f.view.plan = .unknown)
  sole : ∀ x, f.view.steps x = some .running → f.lease.planStep = some x
  plain : ∀ x, f.view.steps x ≠ some .cancelRequested ∧ f.view.steps x ≠ some .blocked ∧
    f.view.steps x ≠ some .awaitingApproval
  early : f.view.plan = .approved → ∀ x state, f.view.steps x = some state → state = .pending

-- Without a lease no step is bound.
theorem Coherent.unbound (coherent : Coherent f) (idle : f.lease.status.isLeased = false) :
    f.lease.planStep = none := by
  have leased := coherent.leased
  rw [idle] at leased
  exact Option.not_isSome_iff_eq_none.mp (by simp [← leased])

@[simp] theorem claimWrites_plan (encoding : Encoding) (v : View) (x : PlanStepId) (now : Time) :
    (v.writes (claimWrites encoding v x now)).plan = if v.plan = .approved then .running else v.plan := by
  unfold claimWrites
  split <;> split <;> simp

@[simp] theorem claimWrites_steps (encoding : Encoding) (v : View) (x y : PlanStepId) (now : Time) :
    (v.writes (claimWrites encoding v x now)).steps y = if y = x then some .running else v.steps y := by
  unfold claimWrites
  split <;> split <;> by_cases same : y = x <;> simp [same]

@[simp] theorem claimWrites_attempts (encoding : Encoding) (v : View) (x y : PlanStepId) (now : Time) :
    (v.writes (claimWrites encoding v x now)).attempts y = if y = x then v.attempts y + 1
    else v.attempts y := by
  unfold claimWrites
  split <;> split <;> simp

@[simp] theorem claimWrites_overwrites (encoding : Encoding) (v : View) (x : PlanStepId) (now : Time) :
    (v.writes (claimWrites encoding v x now)).overwrites = v.overwrites := by
  unfold claimWrites
  split <;> split <;> simp

-- A step is in one of the states that the store makes use of.
def PlainSteps (v : View) : Prop := ∀ x, v.steps x ≠ some .cancelRequested ∧ v.steps x ≠ some .blocked ∧
  v.steps x ≠ some .awaitingApproval

-- Once the lease is given back no step may be left running.
theorem Coherent.free {status : TaskStatus} {flag : Bool} {v : View} (unleased : status.isLeased = false)
    (flagged : flag = true ↔ status = .cancelled) (phase : v.plan ∈ phases status)
    (idle : ∀ x, v.steps x ≠ some .running) (plain : PlainSteps v) (late : v.plan ≠ .approved) :
    Coherent ⟨.free status flag,v⟩ := by
  refine ⟨unleased,rfl,rfl,?_,phase,?_,fun x running => absurd running (idle x),plain,
    fun early => absurd early late⟩
  · constructor
    · exact fun raised => .inr (flagged.mp raised)
    · rintro (requested | cancelled)
      · rw [show status = .cancelRequested from requested] at unleased
        cases unleased
      · exact flagged.mpr cancelled
  · intro x held
    cases held

theorem Move.coherent {encoding : Encoding} {spec : PlanSpec} {f : Flow} {ws : List Write} {lease : Lease}
    (move : Move encoding spec act f ws lease) (coherent : Coherent f) : Coherent (f.after ws lease) := by
  obtain ⟨leased,token,expiry,flag,phase,bound,sole,plain,early⟩ := coherent
  cases move with
  | claimed claimable =>
    obtain ⟨status,uncancelled,plan,state,ready⟩ := claimable
    refine ⟨rfl,rfl,rfl,?_,?_,?_,?_,?_,?_⟩
    all_goals simp only [after_view,after_lease,claimWrites_plan,claimWrites_steps]
    all_goals grind [phases,TaskStatus.isLeased]
  | stepSucceeded working plan =>
    obtain ⟨status,uncancelled,step,running⟩ := working
    refine .free rfl (by simp) ?_ ?_ ?_ ?_ <;> simp [PlainSteps] <;> grind [phases]
  | planSucceeded working plan others =>
    obtain ⟨status,uncancelled,step,running⟩ := working
    refine .free rfl (by simp) ?_ ?_ ?_ ?_ <;> simp [PlainSteps] <;> grind [phases]
  | sourcesCompensated working plan distinct sources =>
    obtain ⟨status,uncancelled,step,running⟩ := working
    refine .free rfl (by simp) ?_ ?_ ?_ ?_ <;> simp [PlainSteps] <;> grind [phases]
  | planCompensated working plan distinct sources =>
    obtain ⟨status,uncancelled,step,running⟩ := working
    refine .free rfl (by simp) ?_ ?_ ?_ ?_ <;> simp [PlainSteps] <;> grind [phases]
  | compensationFailed working plan =>
    obtain ⟨status,uncancelled,step,running⟩ := working
    refine .free rfl (by simp) ?_ ?_ ?_ ?_ <;> simp [PlainSteps] <;> grind [phases]
  | stepRetried working plan =>
    obtain ⟨status,uncancelled,step,running⟩ := working
    refine .free rfl (by simp) ?_ ?_ ?_ ?_ <;> simp [PlainSteps] <;> grind [phases]
  | planFailed working plan =>
    obtain ⟨status,uncancelled,step,running⟩ := working
    refine .free rfl (by simp) ?_ ?_ ?_ ?_ <;> simp [PlainSteps] <;> grind [phases]
  | interrupted status step running plan =>
    refine .free rfl (by simp) ?_ ?_ ?_ ?_ <;> simp [PlainSteps] <;> grind [phases]
  | cancelQueued status plan distinct ids =>
    have unbound : f.lease.planStep = none := by
      rw [status] at leased
      exact Option.isNone_iff_eq_none.mp (by simpa [TaskStatus.isLeased] using leased)
    refine ⟨?_,?_,?_,?_,?_,?_,?_,?_,?_⟩
    all_goals simp
    all_goals grind [phases,TaskStatus.isLeased]
  | cancelRunning status plan =>
    refine ⟨?_,?_,?_,?_,?_,?_,?_,?_,?_⟩
    all_goals simp
    all_goals grind [phases,TaskStatus.isLeased]
  | cancelAgain status =>
    refine ⟨leased,token,expiry,by simp [status],phase,bound,sole,plain,early⟩
  | leaseExpired status step running plan =>
    refine .free ?_ ?_ ?_ ?_ ?_ ?_
    · split <;> rfl
    · split <;> simp_all
    all_goals simp [PlainSteps]
    all_goals grind [phases]
  | unknownExpired status plan =>
    refine .free ?_ ?_ ?_ ?_ ?_ ?_
    · split <;> rfl
    · split <;> simp_all
    all_goals simp [PlainSteps]
    all_goals grind [phases]
  | resumed plan distinct ids =>
    refine .free rfl (by simp) ?_ ?_ ?_ ?_ <;> simp [PlainSteps] <;> grind [phases]
  | compensating plan distinct distinct' sources targets =>
    refine .free rfl (by simp) ?_ ?_ ?_ ?_ <;> simp [PlainSteps] <;> grind [phases]
  | unknownCancelled plan settled =>
    refine .free rfl (by simp) ?_ ?_ ?_ ?_ <;> simp [PlainSteps] <;> grind [phases]
  | restarted plan distinct ids =>
    have unknown : PlanState.unknown ∈ phases f.lease.status := by
      cases status : f.lease.status <;> grind [phases]
    refine ⟨?_,?_,?_,?_,?_,?_,?_,?_,?_⟩
    all_goals simp
    all_goals grind [phases,TaskStatus.isLeased]

-- No move overwrites a state without a record.
theorem Move.overwrites {encoding : Encoding} {spec : PlanSpec} {f : Flow} {ws : List Write} {lease : Lease}
    (move : Move encoding spec act f ws lease) : (f.view.writes ws).overwrites = f.view.overwrites := by
  cases move <;> simp

end Shaka.Plan
