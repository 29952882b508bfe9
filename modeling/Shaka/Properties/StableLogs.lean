import Shaka.Properties.UnknownMarks

namespace Shaka.Properties
open Shaka.Core Queue Plan Store CheckedSteps

-- What a log says on its own: the moves its transitions make, one after the other.

inductive Moves (reducer : ReducerState) (transition : PlanStoreTransition) : ReducerState → Prop
  | plan : transition.entity = .plan → transition.fromState = .plan reducer.plan →
      transition.toState = .plan target →
      reducer.plan.permits target = true → Moves reducer transition {reducer with plan:=target}
  | step : transition.entity = .step → transition.entityId = some stepId →
      transition.fromState = .step origin →
      transition.toState = .step target → reducer.steps.lookup stepId = some origin →
      origin.permits target = true →
      Moves reducer transition {reducer with steps:=setStepState reducer.steps stepId target}

inductive Follows : ReducerState → List PlanStoreTransition → ReducerState → Prop
  | nil : Follows reducer [] reducer
  | cons : Moves reducer transition next → Follows next rest final →
      Follows reducer (transition :: rest) final

variable {encoding : StoreEncoding} {s : QueueStore} {key : PlanKey} {rows : PlanRows} {tenantId : TenantId}
  {planId : PlanId} {report : PlanInspectionReport} {transition : PlanStoreTransition}
  {log : List PlanStoreTransition} {reducer next final : ReducerState}

theorem applyTransitionState_moves :
    applyTransitionState reducer transition = .ok next ↔ Moves reducer transition next := by
  constructor
  · intro applied
    unfold applyTransitionState at applied
    split at applied
    · next entity left reached =>
      simp only [bind_ok,require_ok,exists_const,liftCore_ok,PlanState.validateTransition,pure_ok] at applied
      obtain ⟨rfl,permitted,rfl⟩ := applied
      exact .plan entity left reached permitted
    · next entity left reached =>
      simp only [bind_ok,require_ok,exists_const,orFail_ok,liftCore_ok,PlanStepState.validateTransition,
        pure_ok] at applied
      obtain ⟨stepId,named,_,current,rfl,permitted,rfl⟩ := applied
      exact .step entity named left reached current permitted
    · cases applied
  · intro moves
    unfold applyTransitionState
    cases moves with
    | plan entity left reached permitted =>
      simp only [entity,left,reached,bind_ok,require_ok,exists_const,liftCore_ok,
        PlanState.validateTransition,pure_ok]
      exact ⟨trivial,permitted,trivial⟩
    | step entity named left reached current permitted =>
      simp only [entity,left,reached,bind_ok,require_ok,exists_const,orFail_ok,liftCore_ok,
        PlanStepState.validateTransition,pure_ok]
      exact ⟨_,named,_,current,rfl,permitted,rfl⟩

theorem foldEach_follows : foldEach (transitionJournal encoding).apply reducer log = .ok final ↔
    Follows reducer log final := by
  induction log generalizing reducer with
  | nil =>
    constructor
    · intro same
      cases same
      exact .nil
    · rintro ⟨⟩
      rfl
  | cons transition rest ih =>
    have single : ∀ middle, (transitionJournal encoding).apply reducer transition = .ok middle ↔
        Moves reducer transition middle := fun middle => mapError_ok.trans applyTransitionState_moves
    constructor
    · intro folded
      obtain ⟨middle,first,others⟩ := bind_ok.mp folded
      exact .cons ((single middle).mp first) (ih.mp others)
    · rintro ⟨⟩
      next middle moves others => exact bind_ok.mpr ⟨middle,(single middle).mpr moves,ih.mpr others⟩

def Hashed (encoding : StoreEncoding) (transition : PlanStoreTransition) : Prop :=
  transition.eventHash = PlanStoreTransition.calculateHash encoding transition.toTransitionHashMaterial

-- A transition between two states that the state machine joins.
inductive Legal (transition : PlanStoreTransition) : Prop
  | plan {origin target : PlanState} : transition.fromState = .plan origin →
      transition.toState = .plan target → origin.permits target = true → Legal transition
  | step {origin target : PlanStepState} : transition.fromState = .step origin →
      transition.toState = .step target → origin.permits target = true → Legal transition

theorem Follows.legal (follows : Follows reducer log final) : ∀ transition ∈ log, Legal transition := by
  induction follows with
  | nil => simp
  | cons moves _ ih =>
    intro transition listed
    rcases List.mem_cons.mp listed with rfl | later
    · cases moves with
      | plan _ left reached permitted => exact .plan left reached permitted
      | step _ _ left reached _ permitted => exact .step left reached permitted
    · exact ih transition later

-- What `inspect_plan` does check of the rows stored for a plan: one chain, each entry with
-- its own hash, a path from the initial states to the stored ones, and no gap in the checkpoints.
structure SoundLog (encoding : StoreEncoding) (rows : PlanRows) : Prop where
  chained : ∀ index transition, rows.transitions[index]? = some transition → transition.sequence = index + 1 ∧
    transition.previousHash = if index = 0 then none else (rows.transitions[index - 1]?).map (·.eventHash)
  hashed : ∀ transition ∈ rows.transitions, Hashed encoding transition
  follows : Follows (initialReducer rows.plan) rows.transitions rows.reducer
  checkpoints : ∀ index checkpoint, rows.checkpoints[index]? = some checkpoint →
    checkpoint.sequence = index + 1

theorem sealed_hashed :
    (transitionJournal encoding).sealed transition = true ↔ Hashed encoding transition := by
  simp only [transitionJournal,PlanStoreTransition.verifyHash,Hashed,require]
  split <;> simp_all [Except.isOk,Except.toBool]

theorem soundLog_diagnosed : diagnose encoding (snapshotOf rows) (reducerRowsOf rows) = none ↔
    SoundLog encoding rows := by
  rw [diagnose_none,JournaledFrom,LinkedJournal.scan_iff,numbered_iff]
  constructor
  · rintro ⟨⟨chained,applied⟩,checkpoints⟩
    refine ⟨fun index transition present => ?_,fun transition listed => ?_,foldEach_follows.mp applied,
      checkpoints⟩
    · exact ⟨(chained index transition present).1,(chained index transition present).2.2⟩
    · obtain ⟨index,present⟩ := List.mem_iff_getElem?.mp listed
      exact sealed_hashed.mp (chained index transition present).2.1
  · rintro ⟨chained,hashed,follows,checkpoints⟩
    refine ⟨⟨fun index transition present => ?_,foldEach_follows.mpr follows⟩,checkpoints⟩
    have listed := List.mem_iff_getElem?.mpr ⟨index,present⟩
    exact ⟨(chained index transition present).1,sealed_hashed.mpr (hashed transition listed),
      (chained index transition present).2⟩

-- What Stable is taken to say of a transition stored for the plan and revision of the key.
structure OwnTransition (encoding : StoreEncoding) (key : PlanKey) (transition : PlanStoreTransition) :
    Prop where
  hashed : Hashed encoding transition
  planId : transition.planId = key.1
  revision : transition.revision = key.2
  legal : Legal transition

-- Whatever the database holds: Stable says so exactly when a log that passes the other
-- checks is the plan's own; whose log it is, is not checked.
theorem stable_own (loaded : Loaded s planId tenantId key rows)
    (inspected : inspectPlan encoding s tenantId planId = .ok report) :
    (report.status = .stable → ∀ transition ∈ rows.transitions, OwnTransition encoding key transition) ↔
      (SoundLog encoding rows → ∀ transition ∈ rows.transitions,
        transition.planId = key.1 ∧ transition.revision = key.2) := by
  obtain ⟨key',rows',loaded',status⟩ := inspectPlan_parts inspected
  obtain ⟨rfl,rfl⟩ := Prod.ext_iff.mp (Option.some.inj (loaded.latest.symm.trans loaded'.latest))
  have stable : report.status = .stable ↔ SoundLog encoding rows := by
    rw [status,← soundLog_diagnosed]
    cases diagnose encoding (snapshotOf rows) (reducerRowsOf rows) <;> simp
  rw [stable]
  constructor
  · intro own sound transition listed
    exact ⟨(own sound transition listed).planId,(own sound transition listed).revision⟩
  · intro own sound transition listed
    obtain ⟨planId,revision⟩ := own sound transition listed
    exact ⟨sound.hashed transition listed,planId,revision,sound.follows.legal transition listed⟩

-- The text of a transition tells the plan and the revision it is of.
def namingEncoding : StoreEncoding := {trialEncoding with
  transitionJson := fun transition =>
    s!"{transition.planId.uuid}-{transition.revision}-{transition.sequence}"}

-- Two plans of the same steps, of which the second is under way.
def pairedRun : List Operation := [.bootstrapPrincipal trialAdmin,.createSession trialAdmin,
  .savePlan (trialPlan 7 [trialStep "a" [] none]),.savePlan (trialPlan 8 [trialStep "a" [] none]),
  trialSubmit 8 true (second 1),trialClaim 2]

def pairedStore : QueueStore := GuardedRuns.play (exec namingEncoding) .empty pairedRun

theorem stable_own_running : ∃ key rows report, Loaded pairedStore ⟨8⟩ trialAdmin.tenantId key rows ∧
    inspectPlan namingEncoding pairedStore trialAdmin.tenantId ⟨8⟩ = .ok report ∧
    (report.status = .stable → ∀ transition ∈ rows.transitions,
      OwnTransition namingEncoding key transition) := by
  have seen : (inspectPlan namingEncoding pairedStore trialAdmin.tenantId ⟨8⟩).toOption.isSome = true := by
    decide +kernel
  have own : pairedStore.plans.entries.all (fun entry => entry.2.transitions.all fun transition =>
      transition.planId == entry.1.1 && transition.revision == entry.1.2) = true := by decide +kernel
  obtain ⟨report,inspected⟩ := Option.isSome_iff_exists.mp seen
  obtain ⟨key,rows,loaded,_⟩ := inspectPlan_parts (toOption_ok inspected)
  refine ⟨key,rows,report,loaded,toOption_ok inspected,(stable_own loaded (toOption_ok inspected)).mpr ?_⟩
  intro _ transition listed
  have all := List.all_eq_true.mp own _ (AList.mem_lookup_iff.mp loaded.stored)
  have same := List.all_eq_true.mp all transition listed
  simpa using same

-- The rows of one plan copied under the key of another.
def copyLog (s : QueueStore) (source target : PlanKey) : QueueStore :=
  match s.plans.lookup source,s.plans.lookup target with
  | some original,some rows => {s with plans:=s.plans.insert target {rows with
      state:=original.state
      steps:=original.steps
      transitions:=original.transitions
      checkpoints:=original.checkpoints}}
  | _,_ => s

theorem stable_copied : ∃ key rows report transition,
    Loaded (copyLog pairedStore (⟨8⟩,1) (⟨7⟩,1)) ⟨7⟩ trialAdmin.tenantId key rows ∧
    inspectPlan namingEncoding (copyLog pairedStore (⟨8⟩,1) (⟨7⟩,1)) trialAdmin.tenantId ⟨7⟩ = .ok report ∧
    report.status = .stable ∧ transition ∈ rows.transitions ∧ transition.planId ≠ key.1 := by
  have seen : (inspectPlan namingEncoding (copyLog pairedStore (⟨8⟩,1) (⟨7⟩,1)) trialAdmin.tenantId
      ⟨7⟩).toOption.map (·.status) = some .stable := by decide +kernel
  have foreign : (copyLog pairedStore (⟨8⟩,1) (⟨7⟩,1)).plans.entries.all (fun entry => entry.1.1 == ⟨8⟩ ||
      entry.2.transitions.any fun transition => transition.planId != entry.1.1) = true := by decide +kernel
  obtain ⟨report,inspected,stable⟩ := Option.map_eq_some_iff.mp seen
  obtain ⟨key,rows,loaded,_⟩ := inspectPlan_parts (toOption_ok inspected)
  have named : key.1 = ⟨7⟩ := by rw [loaded.key,← loaded.planId]
  have found := List.all_eq_true.mp foreign _ (AList.mem_lookup_iff.mp loaded.stored)
  simp only [named,Bool.or_eq_true,beq_iff_eq,List.any_eq_true,bne_iff_ne,PlanId.mk.injEq] at found
  obtain ⟨transition,listed,other⟩ := found.resolve_left (by decide)
  exact ⟨key,rows,report,transition,loaded,toOption_ok inspected,stable,listed,by rwa [named]⟩

end Shaka.Properties
