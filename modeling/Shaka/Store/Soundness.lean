import Shaka.Store.Admissions

namespace Shaka.Store
open Shaka.Core Queue Plan CheckedSteps

variable {encoding : StoreEncoding} {permitted : Act → TaskRecord → PlanRows → Prop}

-- What holds between operations of a task with a plan, and of a plan without one.
def PairCoherent (task : TaskRecord) (rows : PlanRows) : Prop := Coherent (flowOf task rows)

structure Idle (rows : PlanRows) : Prop where
  pending : ∀ x state, rows.stepState x = some state → state = .pending
  early : rows.plan.state = .draft → stage rows.state ≤ 4 ∨ rows.state = .rejected

abbrev Sound (encoding : StoreEncoding) := Consistent encoding PairCoherent Idle

theorem Idle.saved {rows : PlanRows} (saved : Saved rows) : Idle rows :=
  ⟨saved.pending,fun draft => .inl (by rw [saved.state,draft]; decide)⟩

theorem Decided.state {rows rows' : PlanRows} {row : PlanApprovalRow}
    (decided : Decided encoding rows rows' row) :
    rows'.state = rows.state ∨ rows'.state = .approved ∨ rows'.state = .rejected := by
  have reached := @decisionWrites_plan (view rows) encoding.toEncoding row.approval row.createdAt
      decided.undecided
  rwa [view_plan,← decided.reached] at reached

theorem Idle.decided {rows rows' : PlanRows} {row : PlanApprovalRow}
    (decided : Decided encoding rows rows' row) (idle : Idle rows) : Idle rows' := by
  refine ⟨fun x state found => idle.pending x state ?_,fun draft => ?_⟩
  · rwa [← view_steps,decided.reached,decisionWrites_steps] at found
  · rw [(SameSpec.decided decided.edits.same).1] at draft
    rcases decided.state with same | approved | rejected
    · rw [same]
      exact idle.early draft
    · exact .inl (by rw [approved]; decide)
    · exact .inr rejected

theorem undecided_unphased {state : PlanState} {status : TaskStatus} (undecided : isUndecided state = true) :
    state ∉ phases status := by
  cases state <;> simp only [isUndecided,Bool.false_eq_true] at undecided
  all_goals cases status <;> simp [phases]

-- A decision that a plan with a task can still meet writes nothing.
theorem decided_quiet {task : TaskRecord} {rows rows' : PlanRows} {row : PlanApprovalRow}
    (decided : Decided encoding rows rows' row) (coherent : Coherent (flowOf task rows)) :
    view rows' = view rows := by
  rcases decided.undecided with undecided | ⟨approved,stepwise⟩
  · exact absurd coherent.phase (undecided_unphased undecided)
  · simpa [decisionWrites,approved,stepwise] using decided.reached

theorem Admitted.coherent {task : TaskRecord} {rows rows' : PlanRows} {verifyNow now : Time}
    (admitted : Admitted encoding task rows rows' verifyNow now) (idle : Idle rows) :
    Coherent (flowOf task rows') := by
  have plan : (view rows').plan = .approved := by
    rw [admitted.reached]
    exact admissionWrites_plan admitted.admissible
  have pending : ∀ x state, (view rows').steps x = some state → state = .pending := fun x state found => by
    rw [admitted.reached,admissionWrites_steps] at found
    exact idle.pending x state found
  have other : ∀ x state, state ≠ .pending → (view rows').steps x ≠ some state :=
    fun x state different found =>
    different (pending x state found)
  rw [flowOf,admitted.lease]
  refine ⟨rfl,rfl,rfl,by simp [Lease.free],?_,by simp [Lease.free],?_,?_,fun _ => pending⟩
  · show (view rows').plan ∈ phases .queued
    rw [plan]
    decide
  · exact fun x running => absurd running (other x _ (by simp))
  · exact fun x => ⟨other x _ (by simp),other x _ (by simp),other x _ (by simp)⟩

theorem coherent_preserved : Preserved encoding permitted PairCoherent Idle where
  saved _ _ _ saved := .saved saved
  decidedLone _ _ _ _ _ decided idle := idle.decided decided
  decidedPair _ task rows rows' _ _ _ decided coherent := by
    rw [PairCoherent,flowOf,decided_quiet decided coherent]
    exact coherent
  admitted _ _ _ _ _ _ _ _ admitted idle := admitted.coherent idle
  moved _ _ _ task' _ rows' _ _ moved _ coherent := by
    obtain ⟨ws,move,reached⟩ := moved.move
    rw [PairCoherent,flowOf,reached]
    exact move.coherent coherent

-- The plan of a task that was just admitted.
structure Entered (v : View) : Prop where
  plan : v.plan = .approved
  pending : ∀ x state, v.steps x = some state → state = .pending

theorem Admitted.entered {task : TaskRecord} {rows rows' : PlanRows} {verifyNow now : Time}
    (admitted : Admitted encoding task rows rows' verifyNow now) (idle : Idle rows) :
    Entered (view rows') := by
  rw [admitted.reached]
  exact ⟨admissionWrites_plan admitted.admissible,fun x state found => idle.pending x state (by
    rwa [admissionWrites_steps] at found)⟩

theorem Filed.distinct {key : PlanKey} {rows : PlanRows} (filed : Filed encoding key rows) :
    rows.plan.stepIds.Nodup := filed.steps.nodup_iff.mp rows.steps.keys_nodup

-- A property of flows that holds of an admitted task and survives every
-- permitted move of a coherent one holds of every planned task.
theorem flow_preserved {Extra : PlanSpec → Flow → Prop}
    (entered : ∀ spec v, Entered v → Extra spec ⟨.free .queued false,v⟩)
    (kept : ∀ act task rows ws lease, rows.plan.stepIds.Nodup → Coherent (flowOf task rows) →
      permitted act task rows →
      Move encoding.toEncoding rows.plan act (flowOf task rows) ws lease →
      Extra rows.plan (flowOf task rows) → Extra rows.plan ((flowOf task rows).after ws lease)) :
    Preserved encoding permitted (fun task rows => PairCoherent task rows ∧
      Extra rows.plan (flowOf task rows)) Idle where
  saved := (@coherent_preserved _ permitted).saved
  decidedLone := (@coherent_preserved _ permitted).decidedLone
  decidedPair key task rows rows' row filed joined decided pair := by
    refine ⟨(@coherent_preserved _ permitted).decidedPair key _ _ _ _ filed joined decided pair.1,?_⟩
    rw [flowOf,decided_quiet decided pair.1,(SameSpec.decided decided.edits.same).1]
    exact pair.2
  admitted key task rows rows' verifyNow now filed joined admitted idle := by
    refine ⟨admitted.coherent idle,?_⟩
    rw [flowOf,admitted.lease]
    exact entered _ _ (admitted.entered idle)
  moved key act task task' rows rows' filed joined moved may pair := by
    obtain ⟨ws,move,reached⟩ := moved.move
    refine ⟨(@coherent_preserved _ permitted).moved key act _ _ _ _ filed joined moved may pair.1,?_⟩
    rw [flowOf,reached,moved.edits.same.plan]
    exact kept act task rows ws _ filed.distinct pair.1 may move pair.2

theorem Sound.advance {s s' : QueueStore} (sound : Sound encoding s)
    (advance : Advance encoding permitted s s') :
    Sound encoding s' := Consistent.advance coherent_preserved sound advance

-- What the journal says of a plan is what is stored, and no state was overwritten
-- without a record.
structure Recorded (encoding : StoreEncoding) (rows : PlanRows) : Prop where
  journaled : Journaled encoding rows
  numbered : Numbered rows
  clean : rows.rawOverwrites = 0

def Replayable (encoding : StoreEncoding) (s : QueueStore) : Prop :=
  ∀ key rows, s.plans.lookup key = some rows → Recorded encoding rows

theorem Recorded.edits {rows rows' : PlanRows} {ws : List Write} (recorded : Recorded encoding rows)
    (edits : Edits encoding rows rows') (reached : view rows' = (view rows).writes ws)
    (kept : ((view rows).writes ws).overwrites = (view rows).overwrites) : Recorded encoding rows' := by
  have clean : rows'.rawOverwrites = rows.rawOverwrites := by
    rw [← view_overwrites,reached,kept,view_overwrites]
  exact ⟨edits.journaled clean recorded.journaled,edits.numbered recorded.numbered,clean.trans recorded.clean⟩

theorem Recorded.decided {rows rows' : PlanRows} {row : PlanApprovalRow} (recorded : Recorded encoding rows)
    (decided : Decided encoding rows rows' row) : Recorded encoding rows' := by
  have amended : Recorded encoding {rows with approvals:=rows.approvals ++ [row]} :=
    ⟨recorded.journaled,recorded.numbered,recorded.clean⟩
  exact amended.edits decided.edits decided.reached decisionWrites_overwrites

theorem Saved.stepStates {key : PlanKey} {rows : PlanRows} (saved : Saved rows)
    (filed : Filed encoding key rows) :
    rows.stepStates = (rows.plan.stepIds.insertionSort PlanStepId.le).map fun stepId =>
    (stepId,.pending) := by
  have ids : rows.sortedStepIds = rows.plan.stepIds.insertionSort PlanStepId.le := sortedIds_perm filed.steps
  rw [← ids,PlanRows.stepStates,← List.filterMap_eq_map']
  refine List.filterMap_congr fun stepId listed => ?_
  obtain ⟨state,found⟩ := Option.isSome_iff_exists.mp (mem_sortedStepIds.mp listed)
  rw [found,saved.pending stepId state found]
  rfl

theorem Recorded.saved {key : PlanKey} {rows : PlanRows} (saved : Saved rows)
    (filed : Filed encoding key rows) : Recorded encoding rows := by
  refine ⟨⟨LinkedJournal.start (savedReducer rows.plan),?_,?_⟩,?_,saved.overwrites⟩
  · rw [saved.transitions]
    rfl
  · simp only [LinkedJournal.start,savedReducer,PlanRows.reducer,saved.state,saved.stepStates filed]
  · rw [Numbered,saved.checkpoints]
    rfl

theorem Replayable.insert {s s' : QueueStore} {key : PlanKey} {rows' : PlanRows}
    (replayable : Replayable encoding s) (recorded : Recorded encoding rows')
    (plans : s'.plans = s.plans.insert key rows') :
    Replayable encoding s' := by
  intro other rows found
  rw [plans,lookup_insert_eq] at found
  split at found
  · cases found; exact recorded
  · exact replayable other rows found

theorem Replayable.advance {s s' : QueueStore} (replayable : Replayable encoding s)
    (advance : Advance encoding permitted s s') : Replayable encoding s' := by
  cases advance with
  | aside tasks plans => exact fun key rows found => replayable key rows (plans key ▸ found)
  | saved absent filed saved tasks plans => exact replayable.insert (.saved saved filed) plans
  | decided found decided tasks plans =>
    exact replayable.insert ((replayable _ _ found).decided decided) plans
  | direct rowed unplanned old tasks plans => rwa [Replayable,plans]
  | admitted absent found rowed refers joined admitted tasks plans =>
    exact replayable.insert ((replayable _ _ found).edits admitted.edits admitted.reached
      (admissionWrites_overwrites _ _ _)) plans
  | moved found refers stored rowed joined moved may tasks plans =>
    obtain ⟨ws,move,reached⟩ := moved.move
    exact replayable.insert ((replayable _ _ stored).edits moved.edits reached move.overwrites) plans

theorem empty_consistent {Pair : TaskRecord → PlanRows → Prop} {Lone : PlanRows → Prop} :
    Consistent encoding Pair Lone .empty := by
  refine ⟨?_,?_,?_,?_⟩ <;> intros <;> simp_all [QueueStore.empty]

end Shaka.Store
