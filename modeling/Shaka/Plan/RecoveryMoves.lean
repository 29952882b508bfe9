import Shaka.Plan.ResolutionMoves
import Shaka.Queue.Inspection

namespace Shaka.Plan
open Shaka.Core Queue CheckedSteps

section Recovery
variable {encoding : StoreEncoding} {tx tx' : PlanTx} {plan : PlanSpec} {now : Time}

theorem transitionNew_material {material : TransitionHashMaterial} {transition : PlanStoreTransition}
    (made : PlanStoreTransition.new encoding material = .ok transition) :
    transition.toTransitionHashMaterial = material := by
  simp only [PlanStoreTransition.new,bind_ok,pure_ok] at made
  obtain ⟨_,_,_,_,_,_,rfl⟩ := made
  rfl

-- `resume_plan` inserts transitions that no reducer has checked and overwrites
-- the states after them. Where each is one that the reducer permits, the two
-- together are the appends that every other transaction makes.
theorem insertRecovery_appends {entity : PlanTransitionEntity} {entityId : Option PlanStepId}
    {origin target : PlanTransitionState} {key : Nat → String}
    (ok : insertRecoveryTransitionTx encoding tx plan entity entityId origin target key now = .ok tx') :
    tx'.rows = {tx.rows with transitions:=tx'.rows.transitions} ∧ ∃ text, ∀ current next : PlanRows,
      current.transitions = tx.rows.transitions → next.transitions = current.transitions →
      (∀ transition : PlanStoreTransition, transition.entity = entity → transition.entityId = entityId →
        transition.fromState = origin → transition.toState = target →
        applyTransitionTx current transition = .ok next) →
      appendTransitionTx encoding ⟨current,tx.nextUuid⟩ plan entity entityId origin target text now =
        .ok ⟨{next with transitions:=tx'.rows.transitions},tx'.nextUuid⟩ := by
  simp only [insertRecoveryTransitionTx,bind_ok,insertTransitionTx,require_ok,pure_ok,exists_const] at ok
  obtain ⟨transition,made,_,⟨_,sealed,fresh,rfl⟩,rfl⟩ := ok
  have shape : transition.entity = entity ∧ transition.entityId = entityId ∧ transition.fromState = origin ∧
      transition.toState = target := by
    rw [transitionNew_material made]
    exact ⟨rfl,rfl,rfl,rfl⟩
  have text := congrArg (·.idempotencyKey) (transitionNew_material made)
  refine ⟨rfl,transition.idempotencyKey,fun current next journal kept applied => ?_⟩
  have last : lastTransitionTx current = lastTransitionTx tx.rows := by
    rw [lastTransitionTx,journal,lastTransitionTx]
  simp only [appendTransitionTx,last,text]
  refine bind_ok.mpr ⟨transition,made,bind_ok.mpr
    ⟨next,applied transition shape.1 shape.2.1 shape.2.2.1 shape.2.2.2,bind_ok.mpr ⟨_,?_,rfl⟩⟩⟩
  simp only [insertTransitionTx,sealed,ok_bind,kept,journal,require_pos _ fresh]
  rfl

theorem setStep_transitions (rows : PlanRows) (transitions : List PlanStoreTransition) (stepId : PlanStepId)
    (state : PlanStepState) : ({rows with transitions:=transitions} : PlanRows).setStep stepId state =
      {rows.setStep stepId state with transitions:=transitions} := by
  unfold PlanRows.setStep PlanRows.updateStep
  cases rows.steps.lookup stepId <;> rfl

def markUnknown (rows : PlanRows) (active : StepStates) : PlanRows :=
  active.foldl (fun rows entry => rows.setStep entry.1 .unknown) rows

theorem markUnknown_cons (rows : PlanRows) (entry : PlanStepId × PlanStepState) (rest : StepStates) :
    markUnknown rows (entry :: rest) = markUnknown (rows.setStep entry.1 .unknown) rest := rfl

theorem markUnknown_transitions (active : StepStates) (rows : PlanRows)
    (transitions : List PlanStoreTransition) : markUnknown {rows with transitions:=transitions} active =
      {markUnknown rows active with transitions:=transitions} := by
  induction active generalizing rows with
  | nil => rfl
  | cons entry rest ih =>
    rw [markUnknown_cons,markUnknown_cons,setStep_transitions,ih]

theorem isActiveStep_permits {state : PlanStepState} (active : isActiveStep state = true) :
    state.permits .unknown = true := by
  cases state <;> first | rfl | cases active

theorem recoverSteps_appends {active : StepStates} (current : PlanRows)
    (journal : current.transitions = tx.rows.transitions) (distinct : (active.map (·.1)).Nodup)
    (found : ∀ entry ∈ active, current.stepState entry.1 = some entry.2 ∧ isActiveStep entry.2 = true)
    (ok : foldEach (insertStepRecovery encoding plan now) tx active = .ok tx') :
    tx'.rows = {tx.rows with transitions:=tx'.rows.transitions} ∧ ∃ keyOf,
      Ran encoding ⟨current,tx.nextUuid⟩
        ⟨{markUnknown current active with transitions:=tx'.rows.transitions},tx'.nextUuid⟩
        (stepWrites (active.map (·.1)) .unknown keyOf now) := by
  induction active generalizing tx current with
  | nil =>
    cases ok
    refine ⟨rfl,fun _ => "",?_⟩
    rw [← journal]
    exact .refl _ _
  | cons entry rest ih =>
    obtain ⟨middle,head,others⟩ := bind_ok.mp ok
    obtain ⟨present,active⟩ := found entry List.mem_cons_self
    rw [List.map_cons,List.nodup_cons] at distinct
    obtain ⟨same,text,appends⟩ := insertRecovery_appends head
    have appended := appends current (current.setStep entry.1 .unknown) journal (updateStep_transitions _) (by
      intro transition entity entityId origin target
      simp only [applyTransitionTx,entity,entityId,origin,target,orFail,present,ok_bind,require_pos _ trivial,
        PlanStepState.validateTransition,isActiveStep_permits active]
      rfl)
    obtain ⟨_,_,ran⟩ := appendStep_ok appended
    obtain ⟨same',keyOf,ran'⟩ := ih {current.setStep entry.1 .unknown with
      transitions:=middle.rows.transitions} rfl distinct.2 (fun other later => by
        obtain ⟨there,active⟩ := found other (List.mem_cons_of_mem _ later)
        have apart : other.1 ≠ entry.1 := fun same => distinct.1 (same ▸ List.mem_map_of_mem later)
        refine ⟨Eq.trans ?_ there,active⟩
        exact (stepState_setStep current entry.1 other.1 .unknown).trans (if_neg apart)) others
    rw [markUnknown_transitions] at ran'
    refine ⟨by rw [same',same],fun x => if x = entry.1 then text else keyOf x,?_⟩
    have keys : stepWrites (rest.map (·.1)) .unknown (fun x => if x = entry.1 then text else keyOf x) now =
        stepWrites (rest.map (·.1)) .unknown keyOf now := by
      refine List.map_congr_left fun x later => ?_
      have apart : x ≠ entry.1 := fun same => distinct.1 (same ▸ later)
      simp only [if_neg apart]
    have whole := ran.trans ran'
    rw [← keys] at whole
    simpa only [stepWrites,List.map_cons,List.singleton_append,if_true,
      markUnknown_cons] using whole

theorem mem_activeSteps {rows : PlanRows} {x : PlanStepId} : x ∈ (activeSteps rows.stepStates).map (·.1) ↔
    rows.stepState x = some .running ∨ rows.stepState x = some .cancelRequested ∨
      rows.stepState x = some .compensating := by
  simp only [activeSteps,List.mem_map,List.mem_filter,mem_stepStates,Prod.exists,exists_and_right,
    exists_eq_right]
  constructor
  · rintro ⟨state,found,active⟩
    cases state <;> simp_all [isActiveStep]
  · rintro (found | found | found) <;> exact ⟨_,found,rfl⟩

theorem recoverUnknownTx_ran (known : tx.rows.state ≠ .unknown) (may : tx.rows.state.permits .unknown = true)
    (ok : recoverUnknownTx encoding tx plan tx.rows.state (activeSteps tx.rows.stepStates) now = .ok tx') :
    ∃ key keyOf, Ran encoding tx tx' (.plan key .unknown now ::
      stepWrites ((activeSteps tx.rows.stepStates).map (·.1)) .unknown keyOf now) := by
  unfold recoverUnknownTx at ok
  rw [if_neg known] at ok
  simp only [bind_ok,require_ok,exists_const,pure_ok,true_and,appendRecoveryTransitionsTx,stepIf,ne_eq,known,
    not_false_eq_true,if_true] at ok
  obtain ⟨recovered,⟨planned,head,others⟩,rfl⟩ := ok
  obtain ⟨same,key,appends⟩ := insertRecovery_appends head
  have appended := appends tx.rows {tx.rows with state:=.unknown} rfl rfl (by
    intro transition entity entityId origin target
    simp only [applyTransitionTx,entity,origin,target,require_pos _ trivial,ok_bind,
      PlanState.validateTransition,may]
    rfl)
  obtain ⟨_,_,ran⟩ := appendPlan_ok appended
  obtain ⟨same',keyOf,ran'⟩ := recoverSteps_appends {tx.rows with
      state:=.unknown
      transitions:=planned.rows.transitions} rfl (stepStates_ids_nodup _ _) (fun entry listed => by
    obtain ⟨stored,active⟩ := List.mem_filter.mp listed
    exact ⟨mem_stepStates.mp stored,active⟩) others
  refine ⟨key,keyOf,?_⟩
  have whole := ran.trans ran'
  have marked : overwriteUnknown recovered.rows = {markUnknown {tx.rows with
      state:=.unknown
      transitions:=planned.rows.transitions} (activeSteps tx.rows.stepStates) with
      transitions:=recovered.rows.transitions} := by
    rw [← markUnknown_transitions,same',same]
    rfl
  rw [marked]
  exact ⟨whole.edits.tail .checkpoint,whole.reached⟩

end Recovery

end Shaka.Plan
