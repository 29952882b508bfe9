import Shaka.Properties.ClaimIsolation
import Shaka.Properties.CompensationClaims
import Shaka.Properties.CompensationMoves

namespace Shaka.Properties
open Shaka.Core Queue Plan Store CheckedSteps GuardedRuns

variable {encoding : StoreEncoding} {s : QueueStore} {taskId : TaskId} {task : TaskRecord} {key : PlanKey}
  {rows : PlanRows} {x y : PlanStepId} {step : PlanStep} {planContext : PlanClaimContext}
  {now leaseFor : Time}

-- A decision to compensate takes up only what can be compensated. The step that compensates a source waits,
-- or is unknown or failed and no source itself; each that it depends on has succeeded and is no source, or
-- compensates a source.
def Servable (rows : PlanRows) : Prop :=
  let sources := eligibleSources (snapshotOf rows) rows.stepStates
  ∀ source ∈ sources,
    (rows.stepState source.compensation = some .pending ∨ rows.stepState source.compensation = some .ready ∨
      (rows.stepState source.compensation = some .unknown ∨
        rows.stepState source.compensation = some .failed) ∧
        ∀ other ∈ sources, other.stepId ≠ source.compensation) ∧
    ∀ step ∈ rows.plan.steps, step.stepId = source.compensation → ∀ need ∈ step.dependsOn,
      (rows.stepState need = some .succeeded ∧ ∀ other ∈ sources, other.stepId ≠ need) ∨
        ∃ other ∈ sources, other.compensation = need

instance : Decidable (Servable rows) := by
  unfold Servable
  infer_instance

-- The operations of the queue, with decisions to compensate that can be carried out to the end. A restart
-- finds a plan that can become unknown.
def Serving (s : QueueStore) (op : Operation) : Prop :=
  ResumeSafe s op ∧ match op with
    | .resolvePlanUnknown request _ => request.decision = .compensate → ∀ key rows,
        Loaded s request.planId request.principal.tenantId key rows → rows.state = .unknown → Servable rows
    | _ => True

theorem movedSources_eligible (moved : y ∈ movedSources rows) :
    ∃ source ∈ eligibleSources (snapshotOf rows) rows.stepStates, source.stepId = y := by
  obtain ⟨source,among,same⟩ := List.mem_map.mp moved
  exact ⟨source,(List.mem_filter.mp among).1,same⟩

-- What a decision takes up, or an earlier one did, is eligible with the compensation that it declares.
theorem source_eligible (source : Source (view rows) (movedSources rows) y)
    (declares : Compensates rows.plan y x) :
    ∃ source ∈ eligibleSources (snapshotOf rows) rows.stepStates, source.stepId = y ∧
    source.compensation = x := by
  have state : ∃ state, rows.stepState y = some state ∧ isCompensable state = true := by
    rcases source with moved | running
    · rcases movedSources_states moved with found | found | found
      all_goals exact ⟨_,found,rfl⟩
    · exact ⟨_,running,rfl⟩
  obtain ⟨state,found,compensable⟩ := state
  refine ⟨⟨y,x,state⟩,eligibleSources_exact.mpr ⟨declares,?_,compensable⟩,rfl,rfl⟩
  rw [lookup_stepStates]
  exact found

theorem servable_serves (servable : Servable rows) :
    Undertakes rows.plan (view rows) (movedSources rows) (movedTargets rows) := by
  have unmoved : ∀ z, (∀ other ∈ eligibleSources (snapshotOf rows) rows.stepStates, other.stepId ≠ z) →
      z ∉ movedSources rows := fun z apart moved => by
    obtain ⟨source,listed,same⟩ := movedSources_eligible moved
    exact apart source listed same
  constructor
  · intro y moved
    obtain ⟨source,listed,rfl⟩ := movedSources_eligible moved
    exact ⟨source.compensation,(eligibleSources_exact.mp listed).1⟩
  · intro y moved waits
    simp only [Waits,view_steps] at waits
    rcases movedSources_states moved with found | found | found <;> simp [found] at waits
  · intro x y source declares
    obtain ⟨source,listed,_,rfl⟩ := source_eligible source declares
    obtain ⟨pending | ready | ⟨stopped,apart⟩,_⟩ := servable source listed
    · exact .inl (.inl pending)
    · exact .inl (.inr ready)
    · refine .inr (List.mem_filter.mpr ⟨?_,by simpa [unmoved _ apart] using stopped⟩)
      exact (List.mem_insertionSort _).mpr (List.mem_dedup.mpr (List.mem_map_of_mem listed))
  · rintro step planned ⟨y,source,declares⟩ need needed
    obtain ⟨source,listed,_,target⟩ := source_eligible source declares
    rcases (servable source listed).2 step planned target.symm need needed with ⟨done,apart⟩ |
      ⟨other,among,same⟩
    · exact .inl ⟨done,unmoved need apart⟩
    · exact .inr ⟨other.stepId,source_moved among,same ▸ (eligibleSources_exact.mp among).1⟩

theorem run_proceeding (run : Run encoding Serving s) : Consistent encoding
    (fun task rows => PairCoherent task rows ∧ Proceeding rows.plan (flowOf task rows)) Idle s := by
  refine run_consistent (@flow_preserved _ (fun act _ rows => ServingAct rows.plan (view rows) act) Proceeding
    (fun spec v entered => ?_) ?_) run
    (fun _ _ serving => serving.1) ?_
  · refine ⟨fun y found => ?_,fun compensating => ?_⟩
    · cases entered.pending y _ found
    · cases entered.plan.symm.trans compensating
  · exact fun act task rows ws lease distinct coherent serving move proceeding =>
      move_proceeding distinct coherent move serving proceeding
  · intro s op act task rows serving concerned decides
    have made := concerned.act
    cases op <;> simp only [ActOf] at made
    case claim => obtain ⟨⟨_,rfl⟩,_⟩ := made; trivial
    case finish => obtain ⟨rfl,_⟩ := made; trivial
    case requestCancel => obtain ⟨rfl,_⟩ := made; trivial
    case recoverExpiredLeases => obtain ⟨rfl,_⟩ := made; trivial
    case resumePlan => obtain ⟨rfl,_⟩ := made; trivial
    case resolvePlanUnknown request now =>
      obtain ⟨_,rfl⟩ := made
      obtain ⟨key,loaded⟩ := decides
      unfold resolutionAct
      cases decision : request.decision
      · trivial
      · exact fun unknown => servable_serves (serving.2 decision key rows loaded unknown)
      · trivial

-- What a plan declares as a compensation is a step of it.
theorem compensates_planned {plan : PlanSpec} (structured : plan.validateStructure = .ok ())
    (declares : Compensates plan y x) : x ∈ plan.stepIds := by
  obtain ⟨step,listed,_,declared⟩ := declares
  simp only [PlanSpec.validateStructure,bind_ok,require_ok,exists_const] at structured
  obtain ⟨_,_,_,_,_,_,_,_,references,_⟩ := structured
  have referenced := checkEach_ok.mp references step listed
  simp only [PlanSpec.validateReferences,bind_ok,require_ok,exists_const] at referenced
  obtain ⟨_,_,_,compensations⟩ := referenced
  exact (compensations x declared).2

-- The compensation of the plan can go on with this step.
structure NextStep (rows : PlanRows) (step : PlanStep) : Prop where
  listed : step ∈ rows.plan.steps
  compensates : Compensator rows.plan (view rows) step.stepId
  waiting : rows.stepState step.stepId = some .pending ∨ rows.stepState step.stepId = some .ready
  dependencies : ∀ dependency ∈ step.dependsOn, rows.stepState dependency = some .succeeded

theorem NextStep.apart (next : NextStep rows step) : rows.stepState step.stepId ≠ some .compensating :=
  fun state => by
  rcases next.waiting with waiting | waiting
  · cases waiting.symm.trans state
  · cases waiting.symm.trans state

-- Of the steps that are left, one depends on none of the others.
theorem proceeding_next (structured : rows.plan.validateStructure = .ok ()) (free : task.planStepId = none)
    (compensating : rows.state = .compensating) (proceeding : Proceeding rows.plan (flowOf task rows)) :
    ∃ step, NextStep rows step := by
  classical
  obtain ⟨⟨x,compensator⟩,waits,needs⟩ := proceeding.under compensating
  have planned : x ∈ rows.plan.stepIds := compensator.elim fun _ found =>
      compensates_planned structured found.2
  obtain ⟨step,listed,left,ready⟩ := @ready_step rows.plan (rows.plan.stepIds.filter fun id =>
    ¬ Compensator rows.plan (view rows) id) () structured ⟨x,
      planned,by simpa [planned] using show Compensator rows.plan (view rows) x from compensator⟩
  have compensates : Compensator rows.plan (view rows) step.stepId := by
    simpa [PlanSpec.stepIds,List.mem_map_of_mem listed] using left
  refine ⟨step,listed,compensates,?_,fun need needed => ?_⟩
  · exact (waits step.stepId compensates).resolve_right (by simp [flowOf,leaseOf,free])
  · have apart : ¬ Compensator rows.plan (view rows) need := by
      simpa using (List.mem_filter.mp (ready need needed)).2
    rcases needs step listed compensates need needed with done | held | another
    · exact done
    · simp [flowOf,leaseOf,free] at held
    · exact absurd another apart

-- The next step of a compensation is one that a claim can bind.
theorem compensator_target (compensating : rows.state = .compensating)
    (compensator : Compensator rows.plan (view rows) x) :
    x ∈ compensationTargets (snapshotOf rows) rows.stepStates := by
  obtain ⟨y,state,source,listed,rfl,declared⟩ := compensator
  rw [compensationTargets,if_pos (show (snapshotOf rows).state = .compensating from compensating)]
  refine List.mem_filterMap.mpr ⟨source,List.mem_filter.mpr ⟨listed,?_⟩,declared⟩
  rw [lookup_stepStates]
  exact beq_iff_eq.mpr state

theorem Selected.next (selected : Selected encoding s planContext now task rows step)
    (compensating : rows.state = .compensating) : NextStep rows step := by
  obtain ⟨listed,waiting,dependencies,_⟩ := selected.granted.step
  have candidate := mem_stepCandidates.mp (List.mem_of_find?_eq_some selected.granted.selected)
  obtain ⟨_,source,declaring,declared,state⟩ := compensationTargets_sources (candidate.2.2 compensating)
  rw [lookup_stepStates] at state
  exact ⟨listed,⟨source.stepId,state,source,declaring,rfl,declared⟩,waiting,dependencies⟩

-- Where the approvals are valid and the verifier finds the step ready.
def Ready (encoding : StoreEncoding) (task : TaskRecord) (planContext : PlanClaimContext) (now : Time)
    (rows : PlanRows) (step : PlanStep) : Prop :=
  isExecutable encoding (snapshotOf rows) (preflightContext (loadApprovalsTx rows (snapshotOf rows)) now) =
    true ∧
  isExecutable encoding (snapshotOf rows) (stepReadyContext task rows.stepStates
    (loadApprovalsTx rows (snapshotOf rows)) (effectiveContext planContext task) now step.stepId) = true

theorem selected_iff (filed : Filed encoding key rows) (joined : Joined task rows)
    (free : task.planStepId = none) (stored : s.plans.lookup key = some rows)
    (compensating : rows.state = .compensating) :
    (∃ bound, Selected encoding s planContext now task rows bound) ↔
      ∃ step, NextStep rows step ∧ Ready encoding task planContext now rows step := by
  constructor
  · rintro ⟨bound,selected⟩
    exact ⟨bound,selected.next compensating,selected.granted.preflight,selected.granted.step.2.2.2⟩
  · rintro ⟨step,⟨listed,compensates,waiting,dependencies⟩,preflight,ready⟩
    obtain rfl : key = (rows.plan.planId,rows.plan.revision) := Prod.ext filed.planId.symm filed.revision.symm
    have found :
        (selectStep encoding (snapshotOf rows) task rows.stepStates (loadApprovalsTx rows (snapshotOf rows))
        (effectiveContext planContext task) now).isSome = true := by
      refine List.find?_isSome.mpr ⟨step,mem_stepCandidates.mpr ⟨listed,?_,fun _ =>
        compensator_target compensating compensates⟩,?_⟩
      · rw [lookup_stepStates]
        exact waiting.symm
      · simp only [Bool.and_eq_true,List.all_eq_true,List.contains_iff_mem,mem_succeededSteps]
        exact ⟨dependencies,ready⟩
    obtain ⟨bound,selected⟩ := Option.isSome_iff_exists.mp found
    have claimable : isClaimable rows.state = true := by rw [compensating]; rfl
    exact ⟨bound,by simp [planKeyOf,joined.planId,joined.revision],stored,filed.loads joined,joined.taskId,
      joined.mode,free,claimable,filed.loadStepStates,preflight,selected⟩

-- In every state of a run whose decisions to compensate can be carried out, a plan that is being
-- compensated and whose task is queued has a step to go on with, and a claim takes it where it is ready.
-- The claim is recorded unless an operator has used its keys.
theorem compensation_proceeds (run : Run encoding Serving s) (listed : s.tasks.lookup taskId = some task)
    (refers : planKeyOf task = some key) (stored : s.plans.lookup key = some rows)
    (queued : task.status = .queued) (compensating : rows.state = .compensating) :
    (∃ step, NextStep rows step) ∧
    (∀ planContext now, (∃ bound, Selected encoding s planContext now task rows bound) ↔
      ∃ step, NextStep rows step ∧ Ready encoding task planContext now rows step) ∧
    ∀ planContext now bound, SoundDigest planContext.stateDigest →
    Selected encoding s planContext now task rows bound →
      ((∃ tx', preparePlannedClaimTx encoding ⟨rows,s.nextUuid⟩ task (referenceOf rows)
        (effectiveContext planContext task)
          now = .ok (some (bound,tx'))) ↔ Recordable encoding now rows bound) ∧
      (∀ leaseFor, Function.Injective encoding.rfc3339 → Run encoding (Keyed encoding) s →
        Keyed encoding s (.claim now leaseFor planContext) → Due s now task →
        Recordable encoding now rows bound) := by
  have proceeding := run_proceeding run
  have sound := (run_steady run fun _ _ serving => serving.1).sound
  obtain ⟨rows',stored',joined,coherent,pair⟩ := proceeding.joined taskId task key listed refers
  obtain rfl := Option.some.inj (stored'.symm.trans stored)
  have filed := proceeding.filed key rows' stored
  have free : task.planStepId = none := coherent.unbound (by rw [flowOf,leaseOf,queued]; rfl)
  refine ⟨proceeding_next filed.structured free compensating pair,
    fun planContext now => selected_iff filed joined free stored compensating,
    fun planContext now bound digest selected => ⟨?_,fun leaseFor clock fresh keyed due => ?_⟩⟩
  · rw [granted_binds selected.granted,← selected_binds sound digest selected]
    constructor
    · rintro ⟨tx',ok⟩
      obtain ⟨tx,ran,_⟩ := bind_ok.mp ok
      exact ⟨tx,ran⟩
    · rintro ⟨tx,ran⟩
      exact ⟨tx,bind_ok.mpr ⟨tx,ran,rfl⟩⟩
  · exact keyed_recordable clock fresh keyed due selected

-- The step "a" is lost, and an operator has it compensated by a step that needs these.

def lostRun (needs : List String) : List Operation :=
  trialOpen 7 [trialStep "a" [] (some "undo"),trialStep "undo" needs none] ++
    [trialClaim 2,.recoverExpiredLeases (second 5)]

def undoingRun (needs : List String) : List Operation :=
  lostRun needs ++ [trialResolve 7 .compensate "operator-1" 6]

theorem lostRun_serving {needs : List String} : ∀ op ∈ lostRun needs, ∀ s, Serving s op := by
  intro op listed s
  simp only [lostRun,trialOpen,List.mem_append,List.mem_cons,List.not_mem_nil,or_false] at listed
  rcases listed with (rfl | rfl | rfl | rfl) | rfl | rfl <;> exact ⟨trivial,trivial⟩

theorem undoingRun_serving : Run trialEncoding Serving (trial (undoingRun [])) := by
  refine play_reaches (admitted_append (admitted_always lostRun_serving)
    ⟨⟨trivial,fun _ key rows loaded _ => ?_⟩,trivial⟩)
  have evaluated : (latestPlan (trial (lostRun [])) ⟨7⟩ trialAdmin.tenantId).all (fun entry =>
      decide (Servable entry.2)) = true := by decide +kernel
  rw [show latestPlan (trial (lostRun [])) ⟨7⟩ trialAdmin.tenantId = some (key,rows) from loaded.latest]
    at evaluated
  exact of_decide_eq_true evaluated

theorem undoingRun_keyed : Run trialEncoding (Keyed trialEncoding) (trial (undoingRun [])) := by
  refine play_reaches (admitted_append (admitted_append (admitted_always trialOpen_keyed) ⟨?_,?_,trivial⟩)
    ⟨?_,trivial⟩)
  · exact keyed_claim (by decide +kernel)
  · exact keyed_recover (by decide +kernel)
  · exact keyed_resolution (by decide +kernel) (by decide +kernel)

theorem compensation_proceeds_undone :
    ∃ task rows bound, (trial (undoingRun [])).tasks.lookup ⟨7⟩ = some task ∧
    (trial (undoingRun [])).plans.lookup (⟨7⟩,1) = some rows ∧ rows.state = .compensating ∧
    Selected trialEncoding (trial (undoingRun [])) .default (second 7) task rows bound ∧
    ∃ tx', preparePlannedClaimTx trialEncoding ⟨rows,(trial (undoingRun [])).nextUuid⟩ task (referenceOf rows)
      (effectiveContext .default task) (second 7) = .ok (some (bound,tx')) := by
  have evaluated : ((trial (undoingRun [])).tasks.lookup ⟨7⟩).bind (fun task =>
      ((trial (undoingRun [])).plans.lookup (⟨7⟩,1)).map fun rows =>
        (isDue (second 7) task && decide (task.taskId = ⟨7⟩),planKeyOf task,rows.state,
        rows.plan.steps.all fun step => rows.stepState step.stepId == some .compensating ||
          (isExecutable trialEncoding (snapshotOf rows)
            (preflightContext (loadApprovalsTx rows (snapshotOf rows)) (second 7)) &&
          isExecutable trialEncoding (snapshotOf rows) (stepReadyContext task rows.stepStates
            (loadApprovalsTx rows (snapshotOf rows)) (effectiveContext .default task) (second 7)
              step.stepId)))) =
      some (true,some (⟨7⟩,1),.compensating,true) := by decide +kernel
  obtain ⟨task,listed,evaluated⟩ := Option.bind_eq_some_iff.mp evaluated
  obtain ⟨rows,stored,shape⟩ := Option.map_eq_some_iff.mp evaluated
  simp only [Prod.mk.injEq,List.all_eq_true,Bool.or_eq_true,Bool.and_eq_true,beq_iff_eq,decide_eq_true_eq]
    at shape
  obtain ⟨⟨due,named⟩,refers,compensating,ready⟩ := shape
  have queued : task.status = .queued := by
    simp only [isDue,Bool.and_eq_true,beq_iff_eq] at due
    exact due.1.1
  obtain ⟨⟨step,next⟩,served,recorded⟩ :=
    compensation_proceeds undoingRun_serving listed refers stored queued compensating
  obtain ⟨bound,selected⟩ := (served .default (second 7)).mpr ⟨step,next,
      (ready step next.listed).resolve_left next.apart⟩
  obtain ⟨recordable,fresh⟩ := recorded .default (second 7) bound (fun _ given => by cases given) selected
  exact ⟨task,rows,bound,listed,stored,compensating,selected,
    recordable.mpr (fresh (second 1) trial_clock undoingRun_keyed
    (keyed_claim (by decide +kernel)) ⟨named ▸ listed,due⟩)⟩

-- The step that would compensate "a" depends on it, and no claim can bind it.
theorem compensation_proceeds_held : Run trialEncoding Ordinary (trial (undoingRun ["a"])) ∧
    ∃ task rows, (trial (undoingRun ["a"])).tasks.lookup ⟨7⟩ = some task ∧ planKeyOf task = some (⟨7⟩,1) ∧
      (trial (undoingRun ["a"])).plans.lookup (⟨7⟩,1) = some rows ∧ task.status = .queued ∧
      rows.state = .compensating ∧ (¬ ∃ step, NextStep rows step) ∧
      ∀ planContext now bound, ¬ Selected trialEncoding (trial (undoingRun ["a"])) planContext now task
        rows bound := by
  have evaluated : ((trial (undoingRun ["a"])).tasks.lookup ⟨7⟩).bind (fun task =>
      ((trial (undoingRun ["a"])).plans.lookup (⟨7⟩,1)).map fun rows =>
        (task.status,planKeyOf task,rows.state,
        rows.plan.steps.all fun step => rows.stepState step.stepId == some .compensating ||
          step.dependsOn.any fun need => rows.stepState need != some .succeeded)) =
      some (.queued,some (⟨7⟩,1),.compensating,true) := by decide +kernel
  obtain ⟨task,listed,evaluated⟩ := Option.bind_eq_some_iff.mp evaluated
  obtain ⟨rows,stored,shape⟩ := Option.map_eq_some_iff.mp evaluated
  simp only [Prod.mk.injEq,List.all_eq_true,Bool.or_eq_true,List.any_eq_true,beq_iff_eq,bne_iff_ne] at shape
  obtain ⟨queued,refers,compensating,held⟩ := shape
  have stuck : ¬ ∃ step, NextStep rows step := by
    rintro ⟨step,next⟩
    rcases held step next.listed with state | ⟨need,needed,undone⟩
    · exact next.apart state
    · exact undone (next.dependencies need needed)
  exact ⟨ordinary_run rfl,task,rows,listed,refers,stored,queued,compensating,stuck,
    fun planContext now bound selected => stuck ⟨bound,selected.next compensating⟩⟩

end Shaka.Properties
