import Shaka.Plan.View
import Shaka.Queue.PlanJournal

namespace Shaka.Plan
open Shaka.Core Queue CheckedSteps

-- The view of stored rows.

def changeOf (transition : PlanStoreTransition) : Change :=
  match transition.toState,transition.entityId with
  | .plan target,_ => .plan target
  | .step target,stepId => .step (stepId.getD ⟨""⟩) target

def eventOf (transition : PlanStoreTransition) : Event :=
  ⟨transition.idempotencyKey,changeOf transition,transition.createdAt⟩

def view (rows : PlanRows) : View :=
  ⟨rows.state,rows.stepState,rows.attemptsOf,rows.transitions.map eventOf,rows.rawOverwrites⟩

@[simp] theorem view_plan (rows : PlanRows) : (view rows).plan = rows.state := rfl
@[simp] theorem view_steps (rows : PlanRows) : (view rows).steps = rows.stepState := rfl
@[simp] theorem view_attempts (rows : PlanRows) : (view rows).attempts = rows.attemptsOf := rfl
@[simp] theorem view_overwrites (rows : PlanRows) : (view rows).overwrites = rows.rawOverwrites := rfl

@[simp] theorem view_keys (rows : PlanRows) :
    (view rows).keys = rows.transitions.map (·.idempotencyKey) := by
  simp [view,View.keys,eventOf]

-- Updates of one step row.

theorem lookup_updateStep (rows : PlanRows) (stepId x : PlanStepId) (update : PlanStepRow → PlanStepRow) :
    (rows.updateStep stepId update).steps.lookup x =
      if x = stepId then (rows.steps.lookup stepId).map update else rows.steps.lookup x := by
  unfold PlanRows.updateStep
  cases present : rows.steps.lookup stepId with
  | none =>
    by_cases same : x = stepId
    · subst same; simp [present]
    · simp [same]
  | some row =>
    by_cases same : x = stepId
    · subst same; simp
    · simp [same]

theorem keys_updateStep (rows : PlanRows) (stepId : PlanStepId) (update : PlanStepRow → PlanStepRow) :
    (rows.updateStep stepId update).steps.keys.Perm rows.steps.keys := by
  unfold PlanRows.updateStep
  cases present : rows.steps.lookup stepId with
  | none => exact List.Perm.refl _
  | some row =>
    have member : stepId ∈ rows.steps.keys := by
      rw [← AList.mem_keys,← AList.lookup_isSome,present]
      rfl
    simp only [AList.keys_insert]
    exact (List.perm_cons_erase member).symm

@[simp] theorem updateStep_state (rows : PlanRows) : (rows.updateStep stepId update).state = rows.state := by
  unfold PlanRows.updateStep; split <;> rfl
@[simp] theorem updateStep_transitions (rows : PlanRows) :
    (rows.updateStep stepId update).transitions = rows.transitions := by
  unfold PlanRows.updateStep; split <;> rfl
@[simp] theorem updateStep_checkpoints (rows : PlanRows) :
    (rows.updateStep stepId update).checkpoints = rows.checkpoints := by
  unfold PlanRows.updateStep; split <;> rfl
@[simp] theorem updateStep_approvals (rows : PlanRows) :
    (rows.updateStep stepId update).approvals = rows.approvals := by
  unfold PlanRows.updateStep; split <;> rfl
@[simp] theorem updateStep_plan (rows : PlanRows) : (rows.updateStep stepId update).plan = rows.plan := by
  unfold PlanRows.updateStep; split <;> rfl
@[simp] theorem updateStep_tenantId (rows : PlanRows) :
    (rows.updateStep stepId update).tenantId = rows.tenantId := by
  unfold PlanRows.updateStep; split <;> rfl
@[simp] theorem updateStep_digest (rows : PlanRows) :
    (rows.updateStep stepId update).digest = rows.digest := by
  unfold PlanRows.updateStep; split <;> rfl
@[simp] theorem updateStep_rawOverwrites (rows : PlanRows) :
    (rows.updateStep stepId update).rawOverwrites = rows.rawOverwrites := by
  unfold PlanRows.updateStep; split <;> rfl

theorem stepState_setStep (rows : PlanRows) (stepId x : PlanStepId) (state : PlanStepState) :
    (rows.setStep stepId state).stepState x =
      if x = stepId then (rows.stepState stepId).map fun _ => state else rows.stepState x := by
  unfold PlanRows.stepState PlanRows.setStep
  rw [lookup_updateStep]
  split
  · cases rows.steps.lookup stepId <;> rfl
  · rfl

theorem attemptsOf_setStep (rows : PlanRows) (stepId x : PlanStepId) (state : PlanStepState) :
    (rows.setStep stepId state).attemptsOf x = rows.attemptsOf x := by
  unfold PlanRows.attemptsOf PlanRows.setStep
  rw [lookup_updateStep]
  split
  · next same => subst same; cases rows.steps.lookup x <;> rfl
  · rfl

def bumpAttempts (row : PlanStepRow) : PlanStepRow := {row with attempts:=row.attempts + 1}

theorem view_bump (rows : PlanRows) (stepId : PlanStepId) (present : (rows.steps.lookup stepId).isSome) :
    view (rows.updateStep stepId bumpAttempts) = (view rows).write (.attempt stepId) := by
  have steps : (rows.updateStep stepId bumpAttempts).stepState = rows.stepState := by
    funext x
    unfold PlanRows.stepState
    rw [lookup_updateStep]
    split
    · next same => subst same; cases rows.steps.lookup x <;> rfl
    · rfl
  have attempts : (rows.updateStep stepId bumpAttempts).attemptsOf =
      fun x => if x = stepId then rows.attemptsOf x + 1 else rows.attemptsOf x := by
    funext x
    unfold PlanRows.attemptsOf
    rw [lookup_updateStep]
    split
    · next same =>
      subst same
      obtain ⟨row,found⟩ := Option.isSome_iff_exists.mp present
      simp [found,bumpAttempts]
    · rfl
  simp only [view,View.write,steps,attempts,updateStep_state,updateStep_transitions,updateStep_rawOverwrites]

-- The ordered list of step states.

theorem lookup_filterMap (ids : List PlanStepId) (state : PlanStepId → Option PlanStepState)
    (x : PlanStepId) :
    (ids.filterMap fun id => (state id).map fun s => (id,s)).lookup x = if x ∈ ids then state x
    else none := by
  induction ids with
  | nil => rfl
  | cons id rest ih =>
    cases found : state id with
    | none =>
      simp only [List.filterMap_cons,found,Option.map_none,ih,List.mem_cons]
      by_cases same : x = id
      · subst same; simp [found]
      · simp [same]
    | some s =>
      simp only [List.filterMap_cons,found,Option.map_some,List.lookup_cons,ih,List.mem_cons]
      by_cases same : x = id
      · subst same; simp [found]
      · simp [same,beq_false_of_ne same]

theorem mem_sortedStepIds {rows : PlanRows} {stepId : PlanStepId} :
    stepId ∈ rows.sortedStepIds ↔ (rows.stepState stepId).isSome := by
  unfold PlanRows.sortedStepIds PlanRows.stepState
  rw [List.mem_insertionSort,Option.isSome_map,AList.lookup_isSome,AList.mem_keys]

theorem lookup_stepStates (rows : PlanRows) (stepId : PlanStepId) :
    rows.stepStates.lookup stepId = rows.stepState stepId := by
  unfold PlanRows.stepStates
  rw [lookup_filterMap]
  split
  · rfl
  · next absent =>
    rw [mem_sortedStepIds] at absent
    exact (Option.not_isSome_iff_eq_none.mp absent).symm

theorem mem_stepStates {rows : PlanRows} {entry : PlanStepId × PlanStepState} :
    entry ∈ rows.stepStates ↔ rows.stepState entry.1 = some entry.2 := by
  obtain ⟨stepId,state⟩ := entry
  simp only [PlanRows.stepStates,List.mem_filterMap,Option.map_eq_some_iff,Prod.mk.injEq]
  constructor
  · rintro ⟨id,_,found,present,rfl,rfl⟩
    exact present
  · intro present
    exact ⟨stepId,mem_sortedStepIds.mpr (by simp [present]),state,present,rfl,rfl⟩

theorem sortedStepIds_nodup (rows : PlanRows) : rows.sortedStepIds.Nodup :=
  (List.perm_insertionSort _ _).nodup_iff.mpr rows.steps.keys_nodup

theorem stepStates_keys (rows : PlanRows) : rows.stepStates.map (·.1) = rows.sortedStepIds := by
  unfold PlanRows.stepStates
  rw [List.map_filterMap]
  have whole : ∀ stepId ∈ rows.sortedStepIds,
      (((rows.stepState stepId).map fun state => (stepId,state)).map (·.1)) = some stepId := by
    intro stepId present
    obtain ⟨state,found⟩ := Option.isSome_iff_exists.mp (mem_sortedStepIds.mp present)
    simp [found]
  rw [List.filterMap_congr whole,List.filterMap_some]

theorem stepStates_congr {rows rows' : PlanRows} (keys : rows'.steps.keys.Perm rows.steps.keys)
    (states : rows'.stepState = rows.stepState) : rows'.stepStates = rows.stepStates := by
  unfold PlanRows.stepStates
  rw [show rows'.sortedStepIds = rows.sortedStepIds from sortedIds_perm keys,states]

theorem sortedStepIds_updateStep (rows : PlanRows) (stepId : PlanStepId)
    (update : PlanStepRow → PlanStepRow) :
    (rows.updateStep stepId update).sortedStepIds = rows.sortedStepIds :=
  sortedIds_perm (keys_updateStep rows stepId update)

theorem stepStates_setStep (rows : PlanRows) (stepId : PlanStepId) (state : PlanStepState) :
    (rows.setStep stepId state).stepStates = setStepState rows.stepStates stepId state := by
  unfold PlanRows.stepStates setStepState
  rw [show (rows.setStep stepId state).sortedStepIds = rows.sortedStepIds from sortedStepIds_updateStep _ _ _,
    List.map_filterMap]
  refine List.filterMap_congr fun id _ => ?_
  rw [stepState_setStep]
  by_cases same : id = stepId
  · subst same; cases rows.stepState id <;> simp
  · cases rows.stepState id <;> simp [same]

theorem stepStates_bump (rows : PlanRows) (stepId : PlanStepId) :
    (rows.updateStep stepId bumpAttempts).stepStates = rows.stepStates := by
  unfold PlanRows.stepStates
  rw [sortedStepIds_updateStep]
  refine List.filterMap_congr fun id _ => ?_
  unfold PlanRows.stepState
  rw [lookup_updateStep]
  split
  · next same => subst same; cases rows.steps.lookup id <;> rfl
  · rfl

end Shaka.Plan
