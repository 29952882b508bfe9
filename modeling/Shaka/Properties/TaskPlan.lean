import Shaka.Store.Runs

namespace Shaka.Properties
open Shaka.Core Queue Plan Store CheckedSteps GuardedRuns

abbrev StepView := PlanStepId → Option PlanStepState

def Live (steps : StepView) (x : PlanStepId) : Prop := steps x = some .running ∨ steps x = some .succeeded

def Done (steps : StepView) (x : PlanStepId) : Prop :=
  steps x = some .succeeded ∨ steps x = some .compensating ∨ steps x = some .compensated

def Founded (spec : PlanSpec) (steps : StepView) : Prop :=
  ∀ step ∈ spec.steps, Live steps step.stepId → ∀ dependency ∈ step.dependsOn, Done steps dependency

-- How the steps of a plan hang together with the task, while nothing restarts.
structure Ordered (spec : PlanSpec) (f : Flow) : Prop where
  busy : ∀ x, f.lease.planStep = some x → f.view.steps x = some .running
  complete : f.view.plan = .succeeded → ∀ x state, f.view.steps x = some state → state = .succeeded
  founded : Founded spec f.view.steps

theorem ordered_entered (spec : PlanSpec) (v : View) (entered : Entered v) :
    Ordered spec ⟨.free .queued false,v⟩ := by
  obtain ⟨plan,pending⟩ := entered
  refine ⟨fun x held => (by cases held),fun complete => ?_,fun step _ live => ?_⟩
  · rw [plan] at complete
    cases complete
  · rcases live with live | live <;> cases pending _ _ live

theorem Founded.kept {spec : PlanSpec} {steps steps' : StepView} (founded : Founded spec steps)
    (live : ∀ x, Live steps' x → Live steps x) (done : ∀ x, Done steps x → Done steps' x) :
    Founded spec steps' :=
  fun step present now dependency needed => done _ (founded step present (live _ now) dependency needed)

-- A step becomes live only when it is claimed, and no step that is done is undone.
theorem move_steps {encoding : Encoding} {spec : PlanSpec} {f : Flow} {ws : List Write} {lease : Lease}
    {act : Act} (move : Move encoding spec act f ws lease) (awake : act ≠ .restart) :
    (∀ x, Live (f.view.writes ws).steps x → Live f.view.steps x ∨ act = .claim x) ∧
      ∀ x, Done f.view.steps x → Done (f.view.writes ws).steps x := by
  cases move with
  | claimed claimable =>
    obtain ⟨_,_,_,state,_⟩ := claimable
    constructor <;> intro x <;> simp only [Live,Done,claimWrites_steps] <;> grind
  | restarted => exact absurd rfl awake
  | stepSucceeded working | planSucceeded working | compensationFailed working | stepRetried working
    | planFailed working | sourcesCompensated working | planCompensated working =>
    obtain ⟨_,_,_,running⟩ := working
    constructor <;> intro x <;> simp [Live,Done] <;> grind
  | interrupted | cancelQueued | cancelRunning | cancelAgain | leaseExpired | unknownExpired | resumed
    | compensating | unknownCancelled =>
    constructor <;> intro x <;> simp [Live,Done] <;> grind

theorem move_founded {encoding : Encoding} {spec : PlanSpec} {f : Flow} {ws : List Write} {lease : Lease}
    {act : Act} (move : Move encoding spec act f ws lease) (distinct : spec.stepIds.Nodup)
    (awake : act ≠ .restart) (founded : Founded spec f.view.steps) :
    Founded spec (f.view.writes ws).steps := by
  obtain ⟨live,done⟩ := move_steps move awake
  intro step present now dependency needed
  rcases live _ now with before | claims
  · exact done _ (founded step present before dependency needed)
  · subst claims
    cases move with
    | claimed claimable =>
      obtain ⟨chosen,listed,same,ready⟩ := claimable.ready
      rw [same_step distinct present listed same.symm] at needed
      exact done _ (.inl (ready dependency needed))

theorem move_ordered {encoding : Encoding} {spec : PlanSpec} {f : Flow} {ws : List Write} {lease : Lease}
    {act : Act} (move : Move encoding spec act f ws lease) (distinct : spec.stepIds.Nodup)
    (coherent : Coherent f) (awake : act ≠ .restart) (ordered : Ordered spec f) :
    Ordered spec (f.after ws lease) := by
  obtain ⟨busy,complete,founded⟩ := ordered
  refine ⟨?_,?_,move_founded move distinct awake founded⟩
  · cases move with
    | restarted => exact absurd rfl awake
    | claimed => simp
    | cancelQueued status =>
      have unbound := coherent.unbound (by rw [status]; rfl)
      simp [unbound]
    | cancelRunning | cancelAgain => simpa using busy
    | _ => exact fun x held => by cases held
  · cases move with
    | restarted => exact absurd rfl awake
    | claimed claimable =>
      intro closed
      obtain ⟨_,_,plan,_⟩ := claimable
      simp only [after_view,claimWrites_plan] at closed
      grind
    | planSucceeded working plan others =>
      intro _ x state found
      simp at found
      grind
    | stepSucceeded working plan | stepRetried working plan | sourcesCompensated working plan =>
      simp [plan]
    | cancelAgain status =>
      intro closed
      have phase := coherent.phase
      simp only [after_view,writes_nil] at closed
      rw [status,closed] at phase
      cases phase with | tail _ rest => cases rest with | tail _ rest => cases rest
    | unknownExpired leased plan => simp [plan]
    | _ => simp

-- Any run that makes no use of the restart keeps the order.
theorem run_ordered {encoding : StoreEncoding} {s : QueueStore} (run : Run encoding Ordinary s) :
    Consistent encoding (fun task rows => PairCoherent task rows ∧
      Ordered rows.plan (flowOf task rows)) Idle s := by
  refine run_consistent (@flow_preserved _ (fun act _ _ => act ≠ .restart) _ ordered_entered ?_) run
    ordinary_safe ?_
  · exact fun act task rows ws lease distinct coherent awake move ordered =>
      move_ordered move distinct coherent awake ordered
  · rintro s op act task rows ordinary ⟨_,_,act⟩ _ rfl
    exact restart_resumes act ordinary

-- A worker holds the lease of the task, and the step it was given runs alone.
structure Leased (task : TaskRecord) (rows : PlanRows) (x : PlanStepId) : Prop where
  step : task.planStepId = some x
  token : task.leaseToken.isSome
  expiry : task.leaseUntil.isSome
  running : rows.stepState x = some .running
  alone : ∀ y, rows.stepState y = some .running → y = x

structure TaskAgrees (task : TaskRecord) (rows : PlanRows) : Prop where
  leased : task.status.isLeased = true ↔ ∃ x, task.planStepId = some x ∧ task.leaseToken.isSome ∧
    task.leaseUntil.isSome
  bound : task.status.isLeased = true → ∃ x, Leased task rows x
  idle : task.status.isLeased = false → ∀ y, rows.stepState y ≠ some .running
  succeeded : task.status = .succeeded ↔ rows.state = .succeeded
  complete : rows.state = .succeeded → ∀ x state, rows.stepState x = some state → state = .succeeded
  founded : ∀ step ∈ rows.plan.steps, rows.stepState step.stepId = some .running ∨
      rows.stepState step.stepId = some .succeeded → ∀ dependency ∈ step.dependsOn,
    rows.stepState dependency = some .succeeded ∨ rows.stepState dependency = some .compensating ∨
      rows.stepState dependency = some .compensated

theorem phases_succeeded {status : TaskStatus} :
    PlanState.succeeded ∈ phases status ↔ status = .succeeded := by
  cases status <;> simp [phases]

theorem agrees {task : TaskRecord} {rows : PlanRows} (coherent : Coherent (flowOf task rows))
    (ordered : Ordered rows.plan (flowOf task rows)) : TaskAgrees task rows := by
  have some_ : task.status.isLeased = true ↔ ∃ x, task.planStepId = some x := by
    rw [show task.status.isLeased = task.planStepId.isSome from coherent.leased,Option.isSome_iff_exists]
  have parts : ∀ x, task.planStepId = some x → task.leaseToken.isSome ∧ task.leaseUntil.isSome :=
    fun x held =>
    have step : task.planStepId.isSome = true := by rw [held]; rfl
    ⟨(show task.leaseToken.isSome = task.planStepId.isSome from coherent.token).trans step,
      (show task.leaseUntil.isSome = task.planStepId.isSome from coherent.expiry).trans step⟩
  refine ⟨?_,fun leased => ?_,fun free y running => ?_,?_,ordered.complete,ordered.founded⟩
  · exact some_.trans (exists_congr fun x => ⟨fun held => ⟨held,parts x held⟩,fun held => held.1⟩)
  · obtain ⟨x,held⟩ := some_.mp leased
    refine ⟨x,held,(parts x held).1,(parts x held).2,ordered.busy x held,fun y running => ?_⟩
    exact Option.some.inj ((coherent.sole y running).symm.trans held)
  · rw [some_.mpr ⟨y,coherent.sole y running⟩] at free
    cases free
  · have phase : rows.state ∈ phases task.status := coherent.phase
    constructor
    · intro succeeded
      rw [succeeded] at phase
      simpa [phases] using phase
    · intro succeeded
      rw [succeeded] at phase
      exact phases_succeeded.mp phase

theorem task_plan_coherence {encoding : StoreEncoding} {s : QueueStore} (run : Run encoding Ordinary s)
    {taskId : TaskId} {task : TaskRecord} (listed : s.tasks.lookup taskId = some task)
    (planned : task.planId.isSome) :
    ∃ key rows, planKeyOf task = some key ∧ s.plans.lookup key = some rows ∧ TaskAgrees task rows := by
  have consistent := run_ordered run
  have revision := (consistent.rowed taskId task listed).revision
  rw [planned] at revision
  obtain ⟨planId,named⟩ := Option.isSome_iff_exists.mp planned
  obtain ⟨number,numbered⟩ := Option.isSome_iff_exists.mp revision
  have refers : planKeyOf task = some (planId,number) := by simp [planKeyOf,named,numbered]
  obtain ⟨rows,stored,_,coherent,ordered⟩ := consistent.joined taskId task _ listed refers
  exact ⟨_,rows,refers,stored,agrees coherent ordered⟩

-- The first step of a plan was just claimed.
def claimedRun : List Operation :=
  trialOpen 7 [trialStep "a" [] none,trialStep "b" ["a"] none] ++ [trialClaim 2]

theorem task_plan_coherence_claimed : ∃ task key rows, (trial claimedRun).tasks.lookup ⟨7⟩ = some task ∧
    task.status = .running ∧ (trial claimedRun).plans.lookup key = some rows ∧ TaskAgrees task rows := by
  have row : ((trial claimedRun).tasks.lookup ⟨7⟩).map (fun task => (task.status,task.planId.isSome)) =
      some (.running,true) := by decide +kernel
  obtain ⟨task,listed,shape⟩ := Option.map_eq_some_iff.mp row
  obtain ⟨running,planned⟩ := Prod.mk.inj shape
  obtain ⟨key,rows,_,stored,agrees⟩ := task_plan_coherence (@ordinary_run _ claimedRun rfl) listed planned
  exact ⟨task,key,rows,listed,running,stored,agrees⟩

end Shaka.Properties
