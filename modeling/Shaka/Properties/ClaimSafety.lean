import Shaka.Store.TaskRows

namespace Shaka.Properties
open Shaka.Core Queue Plan Store CheckedSteps GuardedRuns

variable {encoding : StoreEncoding} {s s' : QueueStore}

-- Either nobody has to approve the plan, or somebody did who could.
def Approvable (rows : PlanRows) (now : Time) : Prop :=
  rows.plan.requiredApproval = .none ∨ ∃ row ∈ rows.approvals, ValidApproval row.approval rows.plan now

theorem preflight_approvable {rows : PlanRows} {now : Time}
    (preflight : isExecutable encoding (snapshotOf rows)
    (preflightContext (loadApprovalsTx rows (snapshotOf rows)) now) = true) : Approvable rows now := by
  obtain ⟨_,_,clean⟩ := verify_executable.mp preflight
  rcases verifyPreflightApproval_clean.mp clean with free | ⟨approval,listed,valid⟩
  · exact .inl free
  · obtain ⟨row,stored,rfl⟩ := mem_loadApprovals listed
    exact .inr ⟨row,stored,valid.state⟩

-- The record of every admission of a plan was made when it was approvable.

def Justified (rows : PlanRows) : Prop :=
  ∀ event ∈ (view rows).events, event.change = .plan .approved → Approvable rows event.time

-- A plan on its way to `Approved` holds no approval that could let it through:
-- the approval that does is stored together with the last transition.
structure Waiting (rows : PlanRows) : Prop where
  idle : Idle rows
  justified : Justified rows
  undecided : stage rows.state < 4 → ∀ row ∈ rows.approvals,
    ¬ (row.approval.decision = .approved ∧ row.approval.stepId = none)

theorem Approvable.more {rows rows' : PlanRows} {now : Time} (plan : rows'.plan = rows.plan)
    (kept : ∀ row ∈ rows.approvals, row ∈ rows'.approvals) (approvable : Approvable rows now) :
    Approvable rows' now := by
  rcases approvable with free | ⟨row,stored,valid⟩
  · exact .inl (plan ▸ free)
  · exact .inr ⟨row,kept row stored,plan ▸ valid⟩

-- New events leave the record justified when those that admit the plan are.
theorem Justified.writes {rows rows' : PlanRows} {ws : List Write} (justified : Justified rows)
    (plan : rows'.plan = rows.plan) (kept : ∀ row ∈ rows.approvals, row ∈ rows'.approvals)
    (reached : view rows' = (view rows).writes ws)
    (fresh : ∀ event ∈ eventsOf ws, event.change = .plan .approved → Approvable rows' event.time) :
    Justified rows' := by
  intro event listed admits
  rw [reached,writes_events,List.mem_append] at listed
  rcases listed with earlier | later
  · exact (justified event earlier admits).more plan kept
  · exact fresh event later admits

theorem admissionWrites_admits {key : PlanState → String} {now : Time} {state : PlanState} {event : Event}
    (written : event ∈ eventsOf (admissionWrites key now state)) (admits : event.change = .plan .approved) :
    event.time = now ∧ stage state < 4 := by
  cases state <;> simp [admissionWrites,stage] at written ⊢
  all_goals rcases written with rfl | rfl | rfl <;> rfl

theorem decisionWrites_admits {encoding : Encoding} {approval : PlanApproval} {now : Time} {state : PlanState}
    {event : Event} (written : event ∈ eventsOf (decisionWrites encoding approval now state))
    (admits : event.change = .plan .approved) :
    event.time = now ∧ approval.decision = .approved ∧ approval.stepId = none := by
  unfold decisionWrites at written
  cases decision : approval.decision with
  | approved =>
    simp only [decision] at written
    split at written
    · cases written
    · next whole =>
      exact ⟨(admissionWrites_admits written admits).1,rfl,by simpa using whole⟩
  | rejected =>
    simp only [decision,eventsOf_plan,eventsOf_nil,List.mem_singleton] at written
    subst written
    cases admits

-- No move admits a plan.
theorem move_admits {encoding : Encoding} {spec : PlanSpec} {f : Flow} {ws : List Write} {lease : Lease}
    {act : Act} (move : Move encoding spec act f ws lease) : .approved ∉ targetsOf ws := by
  cases move with
  | claimed =>
    unfold claimWrites
    split <;> split <;> simp
  | _ => simp

theorem Waiting.decided {rows rows' : PlanRows} {row : PlanApprovalRow} (waiting : Waiting rows)
    (decided : Decided encoding rows rows' row) : Waiting rows' := by
  have plan := (SameSpec.decided decided.edits.same).1
  refine ⟨waiting.idle.decided decided,?_,fun early old stored => ?_⟩
  · refine waiting.justified.writes plan (fun old stored => by simp [decided_approvals decided,stored])
      decided.reached ?_
    intro event written admits
    obtain ⟨time,approved,whole⟩ := decisionWrites_admits written admits
    rw [time]
    exact .inr ⟨row,by simp [decided_approvals decided],plan ▸ (decided.valid approved whole).state⟩
  · rw [decided_approvals decided,List.mem_append,List.mem_singleton] at stored
    rintro ⟨approved,whole⟩
    rcases stored with earlier | rfl
    · rcases decided.state with same | approved' | rejected
      · exact waiting.undecided (same ▸ early) old earlier ⟨approved,whole⟩
      · rw [approved'] at early; exact absurd early (by decide)
      · rw [rejected] at early; exact absurd early (by decide)
    · rw [decided_approves decided approved whole] at early
      exact absurd early (by decide)

theorem admitted_justified {task : TaskRecord} {rows rows' : PlanRows} {verifyNow now : Time}
    (admitted : Admitted encoding task rows rows' verifyNow now) (waiting : Waiting rows) :
    Justified rows' := by
  have same := admitted.edits.same
  refine waiting.justified.writes same.plan (fun row stored => same.approvals ▸ stored) admitted.reached ?_
  intro event written admits
  obtain ⟨_,early⟩ := admissionWrites_admits written admits
  rcases preflight_approvable admitted.preflight with free | ⟨row,stored,valid⟩
  · exact .inl (same.plan ▸ free)
  · exact absurd ⟨valid.decided,valid.isGlobal⟩ (waiting.undecided early row stored)

theorem justified_preserved {permitted : Act → TaskRecord → PlanRows → Prop} :
    Preserved encoding permitted (fun task rows => PairCoherent task rows ∧ Justified rows) Waiting where
  saved key rows filed saved := by
    refine ⟨.saved saved,fun event listed => ?_,fun _ row stored => ?_⟩
    · simp [view,saved.transitions] at listed
    · simp [saved.approvals] at stored
  decidedLone _ _ _ _ _ decided waiting := waiting.decided decided
  decidedPair key task rows rows' row filed joined decided pair := by
    refine ⟨(@coherent_preserved _ permitted).decidedPair key _ _ _ _ filed joined decided pair.1,?_⟩
    have quiet : view rows' = (view rows).writes [] := decided_quiet decided pair.1
    refine pair.2.writes (SameSpec.decided decided.edits.same).1
      (fun old stored => by simp [decided_approvals decided,stored])
      quiet ?_
    simp
  admitted _ _ _ _ _ _ _ _ admitted waiting :=
    ⟨admitted.coherent waiting.idle,admitted_justified admitted waiting⟩
  moved key act task task' rows rows' filed joined moved may pair := by
    refine ⟨(@coherent_preserved _ permitted).moved key act _ _ _ _ filed joined moved may pair.1,?_⟩
    obtain ⟨ws,move,reached⟩ := moved.move
    have same := moved.edits.same
    refine pair.2.writes same.plan (fun row stored =>
      same.approvals ▸ stored) reached fun event written admits => ?_
    exact absurd (mem_targetsOf written admits) (move_admits move)

theorem run_justified (run : Run encoding Ordinary s) {key : PlanKey} {rows : PlanRows}
    (stored : s.plans.lookup key = some rows) : Justified rows := by
  have consistent := run_consistent (@justified_preserved _ fun _ _ _ => True) run ordinary_safe
    fun _ _ _ _ _ _ _ _ => trivial
  by_cases referred : ∃ taskId task, s.tasks.lookup taskId = some task ∧ planKeyOf task = some key
  · obtain ⟨taskId,task,listed,refers⟩ := referred
    obtain ⟨rows',stored',_,_,justified⟩ := consistent.joined taskId task key listed refers
    rwa [Option.some.inj (stored.symm.trans stored')]
  · exact (consistent.lone key rows stored fun taskId task listed refers =>
      referred ⟨taskId,task,listed,refers⟩).justified

-- What a claim has made sure of when it hands out step `x`, and what it does.
structure SafeClaim (encoding : StoreEncoding) (task : TaskRecord) (planContext : PlanClaimContext)
    (now : Time) (rows rows' : PlanRows) (step : PlanStep) : Prop where
  listed : step ∈ rows.plan.steps
  plan : rows.state = .approved ∨ rows.state = .running ∨ rows.state = .compensating
  mode : rows.plan.mode = .dryRun
  state : rows.stepState step.stepId = some .pending ∨ rows.stepState step.stepId = some .ready
  dependencies : ∀ dependency ∈ step.dependsOn, rows.stepState dependency = some .succeeded
  preconditions : ∀ condition ∈ step.preconditions, evaluateCondition (snapshotOf rows) condition
    (stepReadyContext task rows.stepStates (loadApprovalsTx rows (snapshotOf rows))
      (effectiveContext planContext task) now step.stepId) = .satisfied
  approval : rows.plan.requiredApproval ≠ .none ∨ step.requiredApproval ≠ .none →
    ∃ row ∈ rows.approvals, ValidApproval row.approval rows.plan now
  running : rows'.stepState step.stepId = some .running
  attempts : rows'.attemptsOf step.stepId = rows.attemptsOf step.stepId + 1
  others : ∀ other, other ≠ step.stepId → rows'.stepState other = rows.stepState other

theorem stepReady_conditions {rows : PlanRows} {task : TaskRecord} {approvals : List PlanApproval}
    {claimContext : PlanClaimContext} {now : Time} {step : PlanStep} (distinct : rows.plan.stepIds.Nodup)
    (present : step ∈ rows.plan.steps) (ready : isExecutable encoding (snapshotOf rows)
      (stepReadyContext task rows.stepStates approvals claimContext now step.stepId) = true) :
    ∀ condition ∈ step.preconditions, evaluateCondition (snapshotOf rows) condition
      (stepReadyContext task rows.stepStates approvals claimContext now step.stepId) = .satisfied := by
  obtain ⟨_,_,clean⟩ := verify_executable.mp ready
  have found : (snapshotOf rows).step? step.stepId = some step := step?_listed distinct present
  simp only [verifyPhase,stepReadyContext,PlanVerificationContext.new,withTargetStep,found,
    List.append_eq_nil_iff] at clean
  exact verifyConditions_clean.mp clean.1.2

theorem granted_safe {tx tx' : PlanTx} {task : TaskRecord} {reference : PlanTaskReference}
    {planContext : PlanClaimContext} {now : Time} {step : PlanStep} (distinct : tx.rows.plan.stepIds.Nodup)
    (granted : Granted encoding tx task reference (effectiveContext planContext task) now step)
    (ran : bindStepTx encoding tx (snapshotOf tx.rows) tx.rows.stepStates step
      (effectiveContext planContext task) now =
      .ok tx') : SafeClaim encoding task planContext now tx.rows tx'.rows step := by
  obtain ⟨listed,state,dependencies,ready⟩ := granted.step
  have reached := (bindStepTx_writes.ran ran).reached
  refine ⟨listed,isClaimable_states granted.claimable,granted.mode,state,dependencies,
    stepReady_conditions distinct listed ready,fun required => ?_,?_,?_,fun other apart => ?_⟩
  · refine (preflight_approvable granted.preflight).resolve_left fun free => ?_
    have stepFree : step.requiredApproval = .none :=
      le_antisymm (free ▸ step_requiredApproval_le listed) (PlanApprovalRequirement.none_le _)
    exact required.elim (absurd free) (absurd stepFree)
  · rw [← view_steps,reached,claimWrites_steps,if_pos rfl]
  · rw [← view_attempts,reached,claimWrites_attempts,if_pos rfl]
    rfl
  · rw [← view_steps,reached,claimWrites_steps,if_neg apart]
    rfl

theorem claim_safe (sound : Sound encoding s) {now leaseFor : Time} {planContext : PlanClaimContext}
    {claimed : TaskRecord} {x : PlanStepId}
    (ok : claimNextWithPlanContext encoding s now leaseFor planContext = .ok (some claimed,s'))
    (bound : claimed.planStepId = some x) :
    ∃ task key rows rows' step, s.tasks.lookup claimed.taskId = some task ∧ planKeyOf task = some key ∧
      s.plans.lookup key = some rows ∧ s'.plans.lookup key = some rows' ∧ step.stepId = x ∧
      SafeClaim encoding task planContext now rows rows' step := by
  obtain ⟨task,found,_,⟨_,unbound⟩ | ⟨reference,rows,step,tx',prepared⟩⟩ :=
    claim_prepared (fun taskId task found => (sound.rowed taskId task found).taskId) ok
  · rw [unbound] at bound
    cases bound
  · refine ⟨task,_,rows,tx'.rows,step,found,taskReference_key prepared.named,prepared.stored,?_,
      Option.some.inj (prepared.bound.symm.trans bound),@granted_safe _ ⟨rows,s.nextUuid⟩ _ _ _ _ _ _
        (sound.filed _ _ prepared.stored).distinct prepared.granted prepared.ran⟩
    rw [prepared.plans]
    exact AList.lookup_insert _

theorem claim_safety (run : Run encoding Ordinary s) :
    (∀ now leaseFor planContext claimed s' x,
      claimNextWithPlanContext encoding s now leaseFor planContext = .ok (some claimed,s') →
      claimed.planStepId = some x →
      ∃ task key rows rows' step, s.tasks.lookup claimed.taskId = some task ∧ planKeyOf task = some key ∧
        s.plans.lookup key = some rows ∧ s'.plans.lookup key = some rows' ∧ step.stepId = x ∧
        SafeClaim encoding task planContext now rows rows' step) ∧
    ∀ key rows, s.plans.lookup key = some rows → ∀ transition ∈ rows.transitions,
      transition.toState = .plan .approved → Approvable rows transition.createdAt := by
  refine ⟨fun now leaseFor planContext claimed s' x ok bound =>
    claim_safe (run_steady run ordinary_safe).sound ok bound,
    fun key rows stored transition recorded admits => ?_⟩
  exact run_justified run stored (eventOf transition) (List.mem_map_of_mem recorded)
    (by simp [eventOf,changeOf,admits])

-- A plan that a reviewer approved before its task was submitted.

def reviewedPlan :
    PlanSpec := {trialPlan 7 [trialStep "a" [] none,trialStep "b" ["a"] none] with approval:=.reviewer}

def trialApproval : PlanApproval :=
  ⟨50,⟨7⟩,trialDigest 7,1,⟨"tenant"⟩,⟨"reviewer"⟩,.reviewer,none,.reviewer,.approved,second 9,false⟩

def reviewedRun : List Operation :=
  [.bootstrapPrincipal trialAdmin,.createSession trialAdmin,.savePlan reviewedPlan,
    .approvePlan ⟨⟨"reviewer"⟩,⟨"tenant"⟩,.reviewer⟩ trialApproval "approval-1" (second 1),
    trialSubmit 7 true (second 1)]

theorem claim_safety_reviewed : ∃ task rows rows' step, rows.plan.requiredApproval = .reviewer ∧
    SafeClaim trialEncoding task .default (second 2) rows rows' step := by
  have outcome :
      (claimNextWithPlanContext trialEncoding (trial reviewedRun) (second 2) (second 1) .default).toOption.map
      (fun answer => answer.1.map (·.planStepId)) = some (some (some ⟨"a"⟩)) := by decide +kernel
  have required : (trial reviewedRun).planRows.all (·.plan.requiredApproval = .reviewer) = true := by
    decide +kernel
  obtain ⟨claimed,s',claim,bound⟩ := handed_out outcome
  obtain ⟨task,key,rows,rows',step,_,_,stored,_,_,safe⟩ :=
    (claim_safety (@ordinary_run _ reviewedRun rfl)).1 _ _ _ claimed s' _ claim bound
  have listed : rows ∈ (trial reviewedRun).planRows :=
    List.mem_map.mpr ⟨⟨key,rows⟩,AList.mem_lookup_iff.mp stored,rfl⟩
  exact ⟨task,rows,rows',step,by simpa using List.all_eq_true.mp required rows listed,safe⟩

end Shaka.Properties
