import Shaka.Store.Inspections

namespace Shaka.Properties
open Shaka.Core Queue Plan Store CheckedSteps GuardedRuns

-- The stored rows of a plan are the replay of its transitions.
structure ReplayConsistent (encoding : StoreEncoding) (rows : PlanRows) : Prop where
  numbered : ∀ index transition, rows.transitions[index]? = some transition → transition.sequence = index + 1
  hashed : ∀ transition ∈ rows.transitions, transition.verifyHash encoding = .ok ()
  linked : ∀ index transition, rows.transitions[index]? = some transition →
    transition.previousHash = if index = 0 then none else (rows.transitions[index - 1]?).map (·.eventHash)
  replayed : foldEach applyTransitionState (initialReducer rows.plan) rows.transitions =
    .ok ⟨rows.state,rows.stepStates⟩
  checkpoints : ∀ index checkpoint, rows.checkpoints[index]? = some checkpoint →
    checkpoint.sequence = index + 1
  recorded : rows.rawOverwrites = 0

theorem recorded_consistent {encoding : StoreEncoding} {rows : PlanRows} (recorded : Recorded encoding rows)
    (draft : rows.plan.state = .draft) : ReplayConsistent encoding rows := by
  obtain ⟨⟨cursor,scanned,state⟩,numbered,clean⟩ := recorded
  have entry : ∀ index transition, rows.transitions[index]? = some transition → _ :=
    fun index transition present =>
    LinkedJournal.scan_entry scanned present
  refine ⟨fun index transition present => (entry index transition present).1,fun transition listed => ?_,
    fun index transition present => (entry index transition present).2.2,?_,numbered_iff.mp numbered,clean⟩
  · obtain ⟨index,present⟩ := List.mem_iff_getElem?.mp listed
    have sealed := (entry index transition present).2.1
    simp only [transitionJournal] at sealed
    cases verified : transition.verifyHash encoding with
    | ok u => rfl
    | error e => simp [verified,Except.isOk,Except.toBool] at sealed
  · have folded := foldEach_mapError_ok.mp (LinkedJournal.fold_states scanned)
    rw [state] at folded
    rw [← show savedReducer rows.plan = initialReducer rows.plan by rw [savedReducer,draft,initialReducer]]
    exact folded

-- Plans are drafts that `PlanSpec::new` made, and nobody calls `resume_plan`.
def DraftsOnly (encoding : StoreEncoding) (_ : QueueStore) : Operation → Prop
  | .savePlan plan => ∃ input now, PlanSpec.new encoding.toEncoding input now = .ok plan
  | op => isResume op = false

theorem new_draft {encoding : Encoding} {input : PlanSpecInput} {now : Time} {plan : PlanSpec}
    (made : PlanSpec.new encoding input now = .ok plan) : plan.state = .draft ∧ plan.revision = 1 := by
  simp only [PlanSpec.new,bind_ok,pure_ok] at made
  obtain ⟨_,_,_,_,rfl⟩ := made
  exact ⟨rfl,rfl⟩

theorem replay_consistency {encoding : StoreEncoding} {s : QueueStore}
    (run : Run encoding (DraftsOnly encoding) s) {key : PlanKey} {rows : PlanRows}
    (stored : s.plans.lookup key = some rows) :
    ReplayConsistent encoding rows ∧ ∃ report, inspectPlan encoding s rows.tenantId key.1 = .ok report ∧
      report.status = .stable := by
  have steady := run_steady run fun s op allowed => by cases op <;> trivial
  have draft := @run_saved _ _ _ (fun plan => plan.state = .draft) run
    fun s plan ⟨input,now,made⟩ => (new_draft made).1
  refine ⟨recorded_consistent (steady.replayable key rows stored) (draft key rows stored),?_⟩
  obtain ⟨key',rows',report,loaded,inspected,status⟩ := inspectPlan_stored steady.sound.filed stored
  refine ⟨report,inspected,?_⟩
  rw [status,(steady.replayable key' rows' loaded.stored).diagnosed (draft key' rows' loaded.stored)]
  rfl

-- A plan whose step is reported as failed, interrupted and compensated.
def compensatedRun : List Operation :=
  trialOpen 7 [trialStep "a" [] (some "undo"),trialStep "c" ["a"] none,trialStep "undo" ["a"] none] ++
    [trialClaim 2,trialFinish 7 7 2 none,trialClaim 3,.recoverExpiredLeases (second 5),
      trialResolve 7 .compensate "repair" 6]

theorem replay_consistency_compensated : ∃ rows, (trial compensatedRun).plans.lookup (⟨7⟩,1) = some rows ∧
    rows.state = .compensating ∧ ReplayConsistent trialEncoding rows := by
  have state : ((trial compensatedRun).plans.lookup (⟨7⟩,1)).map (·.state) = some .compensating := by
    decide +kernel
  obtain ⟨rows,stored,compensating⟩ := Option.map_eq_some_iff.mp state
  refine ⟨rows,stored,compensating,(replay_consistency (play_reaches (admitted_always ?_)) stored).1⟩
  have made := @trialPlan_new 7 [trialStep "a" [] (some "undo"),trialStep "c" ["a"] none,
    trialStep "undo" ["a"] none] (by decide +kernel)
  simp only [compensatedRun,trialOpen,List.cons_append,List.nil_append,List.forall_mem_cons,List.not_mem_nil,
    false_implies,implies_true,and_true]
  exact ⟨fun _ => rfl,fun _ => rfl,fun _ => ⟨_,_,made⟩,fun _ => rfl,fun _ => rfl,fun _ => rfl,fun _ => rfl,
    fun _ => rfl,fun _ => rfl⟩

end Shaka.Properties
