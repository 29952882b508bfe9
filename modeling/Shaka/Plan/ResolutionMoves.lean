import Shaka.Plan.FinishMoves
import Shaka.Queue.Resolution
import Mathlib.Data.List.Dedup

namespace Shaka.Plan
open Shaka.Core Queue CheckedSteps

section Resolution
variable {encoding : StoreEncoding} {tx : PlanTx} {task : TaskRecord} {key : String} {now : Time}

def resolvedLease : PlanResolutionDecision → Lease
  | .resume | .compensate => .free .queued false
  | .cancel => .free .cancelled true

-- A resolution gives the lease back in the way that the decision asks for.
def Resolved (decision : PlanResolutionDecision) (result tx' : PlanTx) (lease : Lease) : Prop :=
  result = tx' ∧ lease = resolvedLease decision

theorem stepStates_ids_nodup (rows : PlanRows) (kept : PlanStepId × PlanStepState → Bool) :
    ((rows.stepStates.filter kept).map (·.1)).Nodup :=
  (stepStates_keys rows ▸ sortedStepIds_nodup rows).sublist (List.filter_sublist.map _)

theorem mem_stepStates_ids {rows : PlanRows} {y : PlanStepId} {state : PlanStepState} :
    y ∈ (rows.stepStates.filter fun entry => entry.2 == state).map (·.1) ↔ rows.stepState y = some state := by
  simp only [List.mem_map,List.mem_filter,mem_stepStates,Prod.exists,exists_and_right,exists_eq_right,
    beq_iff_eq]

theorem resumeUnknownTx_moves (unknown : tx.rows.state = .unknown) :
    Moves encoding tx.rows.plan (.resume key) task tx (Resolved .resume)
      (resumeUnknownTx encoding tx (snapshotOf tx.rows) key now) := by
  unfold resumeUnknownTx
  refine .check loadStepStatesTx_keyless fun states read => ?_
  obtain rfl := loadStepStatesTx_ok read
  refine .of (@Move.resumed _ _ _ key _ now unknown (stepStates_ids_nodup tx.rows fun entry =>
    entry.2 == .unknown) fun y => mem_stepStates_ids) ?_
  refine Writes.bind (WritesTx.foldAll (k := fun x => s!"{key}:step:{x.text}") (fun _ _ =>
    appendStep_writes) tx) fun readied _ => ?_
  exact appendPlan_writes.weaken fun a tx' same => ⟨same,rfl⟩

-- The sources and targets that a compensation moves.
def movedSources (rows : PlanRows) : List PlanStepId :=
  ((eligibleSources (snapshotOf rows) rows.stepStates).filter fun source => source.state != .compensating).map
    (·.stepId)

def movedTargets (rows : PlanRows) : List PlanStepId :=
  (orderedSet ((eligibleSources (snapshotOf rows) rows.stepStates).map (·.compensation))).filter fun target =>
    target ∉ movedSources rows && (rows.stepState target == some .unknown || rows.stepState target ==
      some .failed)

-- The steps that declare a compensation and may have had an effect.
theorem eligibleSources_exact {plan : PlanSpec} {states : StepStates} {source : CompensationSource} :
    source ∈ eligibleSources plan states ↔ Compensates plan source.stepId source.compensation ∧
      states.lookup source.stepId = some source.state ∧ isCompensable source.state = true := by
  simp only [eligibleSources,List.mem_filterMap]
  constructor
  · rintro ⟨step,listed,made⟩
    split at made
    · next compensation state declared found =>
      split at made
      · next compensable =>
        cases made
        exact ⟨⟨step,listed,rfl,declared⟩,found,compensable⟩
      · cases made
    · cases made
  · rintro ⟨⟨step,listed,same,declared⟩,found,compensable⟩
    refine ⟨step,listed,?_⟩
    rw [same,declared,found]
    exact if_pos compensable

theorem mem_eligibleSources {plan : PlanSpec} {states : StepStates} {source : CompensationSource}
    (listed : source ∈ eligibleSources plan states) :
    states.lookup source.stepId = some source.state ∧ isCompensable source.state = true :=
  (eligibleSources_exact.mp listed).2

-- A source of a decision is moved by it, or is being compensated already.
theorem source_moved {rows : PlanRows} {source : CompensationSource}
    (listed : source ∈ eligibleSources (snapshotOf rows) rows.stepStates) :
    source.stepId ∈ movedSources rows ∨ rows.stepState source.stepId = some .compensating := by
  by_cases running : source.state = .compensating
  · obtain ⟨found,_⟩ := mem_eligibleSources listed
    rw [lookup_stepStates,running] at found
    exact .inr found
  · exact .inl (List.mem_map.mpr ⟨source,List.mem_filter.mpr ⟨listed,by simpa using running⟩,rfl⟩)

theorem eligible_source {rows : PlanRows} (found : eligibleSources (snapshotOf rows) rows.stepStates ≠ []) :
    ∃ y, y ∈ movedSources rows ∨ (view rows).steps y = some .compensating := by
  obtain ⟨source,listed⟩ := List.exists_mem_of_ne_nil _ found
  exact ⟨source.stepId,source_moved listed⟩

theorem eligibleSources_sublist (plan : PlanSpec) (states : StepStates) :
    ((eligibleSources plan states).map (·.stepId)).Sublist plan.stepIds := by
  unfold eligibleSources PlanSpec.stepIds
  induction plan.steps with
  | nil => exact .slnil
  | cons step rest ih =>
    rw [List.filterMap_cons,List.map_cons]
    split
    · exact ih.cons _
    · next source made =>
      split at made
      · split at made
        · cases made
          exact ih.cons_cons _
        · cases made
      · cases made

theorem movedSources_nodup {rows : PlanRows} (distinct : rows.plan.stepIds.Nodup) :
    (movedSources rows).Nodup :=
  (distinct.sublist (eligibleSources_sublist (snapshotOf rows) rows.stepStates)).sublist
    (List.filter_sublist.map _)

theorem orderedSet_nodup (ids : List PlanStepId) : (orderedSet ids).Nodup :=
  (List.perm_insertionSort _ _).nodup_iff.mpr (List.nodup_dedup ids)

theorem movedSources_states {rows : PlanRows} {y : PlanStepId} (moved : y ∈ movedSources rows) :
    rows.stepState y = some .succeeded ∨ rows.stepState y = some .failed ∨
    rows.stepState y = some .unknown := by
  simp only [movedSources,List.mem_map,List.mem_filter,bne_iff_ne,ne_eq] at moved
  obtain ⟨source,⟨listed,started⟩,rfl⟩ := moved
  obtain ⟨found,compensable⟩ := mem_eligibleSources listed
  rw [lookup_stepStates] at found
  rw [found]
  cases state : source.state <;> simp_all [isCompensable]

theorem compensateUnknownTx_moves (unknown : tx.rows.state = .unknown)
    (distinct : tx.rows.plan.stepIds.Nodup) :
    Moves encoding tx.rows.plan (.compensate key (movedSources tx.rows) (movedTargets tx.rows)) task tx
      (Resolved .compensate) (compensateUnknownTx encoding tx (snapshotOf tx.rows) key now) := by
  unfold compensateUnknownTx
  refine .check loadStepStatesTx_keyless fun states read => ?_
  obtain rfl := loadStepStatesTx_ok read
  refine .check (by simp) fun _ found => ?_
  refine .of (@Move.compensating _ _ _ _ key _ now unknown (movedSources_nodup distinct)
    ((orderedSet_nodup _).filter _)
    (fun y => movedSources_states) ?_ (eligible_source (require_ok.mp found))) ?_
  · intro y moved
    have chosen := (List.mem_filter.mp moved).2
    simp only [Bool.and_eq_true,Bool.or_eq_true,decide_eq_true_eq,beq_iff_eq] at chosen
    exact chosen
  refine Writes.bind ?_ fun started ran => ?_
  · refine WritesTx.foldSteps (f := CompensationSource.stepId) (p := fun source =>
      source.state != .compensating) (k := fun x => s!"{key}:source:{x.text}") (fun tx' source _ => ?_) tx
    unfold startSource
    by_cases running : source.state = .compensating
    · simp only [running,if_true,bne_self_eq_false,Bool.false_eq_true,if_false]
      exact .pure rfl
    · simp only [running,if_false,bne_iff_ne,ne_eq,not_false_eq_true,if_true]
      exact appendStep_writes
  refine .check loadStepStatesTx_keyless fun states read => ?_
  obtain rfl := loadStepStatesTx_ok read
  have steps : ∀ y, started.rows.stepState y =
      if y ∈ movedSources tx.rows then some .compensating else tx.rows.stepState y := fun y => by
    rw [← view_steps,ran.reached]
    simp
  have targets : movedTargets tx.rows = ((orderedSet ((eligibleSources (snapshotOf tx.rows)
      tx.rows.stepStates).map (·.compensation))).filter fun target =>
      started.rows.stepState target == some .unknown ||
        started.rows.stepState target == some .failed).map id := by
    rw [List.map_id]
    refine List.filter_congr fun y _ => ?_
    rw [steps]
    by_cases moved : y ∈ movedSources tx.rows <;> simp [moved]
  refine Writes.bind ?_ fun readied _ => ?_
  · rw [targets]
    refine WritesTx.foldSteps (k := fun x => s!"{key}:target:{x.text}") (fun tx' target _ => ?_) started
    unfold readyTarget
    rw [lookup_stepStates]
    cases found : started.rows.stepState target with
    | none => exact .pure rfl
    | some state =>
      by_cases again : state = .unknown ∨ state = .failed
      · have chosen : (some state == some PlanStepState.unknown || some state == some .failed) = true := by
          simpa using again
        simp only [again,if_true,id]
        rw [if_pos chosen]
        exact appendStep_writes
      · have chosen : ¬ (some state == some PlanStepState.unknown || some state == some .failed) = true := by
          simpa using again
        simp only [again,if_false]
        rw [if_neg chosen]
        exact .pure rfl
  · exact appendPlan_writes.weaken fun a tx' same => ⟨same,rfl⟩

theorem cancelUnknownTx_moves (unknown : tx.rows.state = .unknown) :
    Moves encoding tx.rows.plan (.cancelUnknown key) task tx (Resolved .cancel)
      (cancelUnknownTx encoding tx (snapshotOf tx.rows) key now) := by
  unfold cancelUnknownTx
  refine .check loadStepStatesTx_keyless fun states read => ?_
  obtain rfl := loadStepStatesTx_ok read
  refine .check (by simp) fun _ settled => ?_
  rw [require_ok] at settled
  have quiet : ∀ y state, tx.rows.stepState y = some state → ¬ Unsettled state := by
    intro y state found unsettled
    have := settled (y,state) (mem_stepStates.mpr found)
    rcases unsettled with rfl | rfl | rfl | rfl <;> cases this
  have none : (tx.rows.stepStates.filter fun entry => entry.2 == .unknown) = [] := by
    refine List.filter_eq_nil_iff.mpr fun entry present marked => ?_
    exact quiet entry.1 entry.2 (mem_stepStates.mp present) (.inr (.inr (.inr (by simpa using marked))))
  rw [none]
  exact .of (.unknownCancelled unknown quiet) (appendPlan_writes.weaken fun a tx' same => ⟨same,rfl⟩)

def resolutionAct (rows : PlanRows) (request : ResolutionRequest) : Act :=
  match request.decision with
  | .resume => .resume request.idempotencyKey
  | .compensate => .compensate request.idempotencyKey (movedSources rows) (movedTargets rows)
  | .cancel => .cancelUnknown request.idempotencyKey

-- What the three decisions have in common.
theorem resolveDecisionTx_moves {request : ResolutionRequest} (unknown : tx.rows.state = .unknown)
    (distinct : tx.rows.plan.stepIds.Nodup) :
    Moves encoding tx.rows.plan (resolutionAct tx.rows request) task tx (Resolved request.decision)
      (resolveDecisionTx encoding tx (snapshotOf tx.rows) request now) := by
  unfold resolutionAct resolveDecisionTx
  cases request.decision with
  | resume => exact resumeUnknownTx_moves unknown
  | compensate => exact compensateUnknownTx_moves unknown distinct
  | cancel => exact cancelUnknownTx_moves unknown

end Resolution

end Shaka.Plan
