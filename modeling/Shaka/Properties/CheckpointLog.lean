import Shaka.Queue.Checkpoints
import Shaka.Store.Runs

namespace Shaka.Properties
open Shaka.Core Queue Plan Store CheckedSteps

variable {encoding : StoreEncoding} {s s' : QueueStore} {rows : PlanRows} {tenantId : TenantId}
  {planId : PlanId} {revision : Nat} {checkpoint : PlanCheckpoint}

theorem numbered_last (numbered : Numbered rows) :
    nextCheckpointSequenceTx rows = rows.checkpoints.length + 1 := by
  rw [nextCheckpointSequenceTx]
  cases tail : rows.checkpoints.getLast? with
  | none => simp [List.getLast?_eq_none_iff.mp tail]
  | some final =>
    have position : rows.checkpoints[rows.checkpoints.length - 1]? = some final := by
      rw [← List.getLast?_eq_getElem?]
      exact tail
    have nonempty : rows.checkpoints.length ≠ 0 := by
      intro empty
      rw [List.length_eq_zero_iff.mp empty] at tail
      cases tail
    have number := numbered_iff.mp numbered _ _ position
    show final.sequence + 1 = _
    omega

-- A new last element keeps the numbering exactly when it carries the next number.
theorem append_numbered (numbered : Numbered rows) :
    Numbered {rows with checkpoints:=rows.checkpoints ++ [checkpoint]} ↔
      checkpoint.sequence = nextCheckpointSequenceTx rows := by
  constructor
  · intro extended
    rw [numbered_last numbered]
    exact numbered_iff.mp extended rows.checkpoints.length checkpoint (List.getElem?_concat_length ..)
  · exact checkpoint_numbered numbered checkpoint

-- The checks of a checkpoint on its own, and the range of the column it is written to.
structure Acceptable (encoding : StoreEncoding) (s : QueueStore) (tenantId : TenantId) (planId : PlanId)
    (revision : Nat) (checkpoint : PlanCheckpoint) : Prop where
  loads : ∃ plan, loadPlan encoding s planId tenantId = .ok plan ∧ revision = plan.revision ∧
    ∀ stepId, checkpoint.stepId = some stepId → stepId ∈ plan.stepIds
  positive : checkpoint.sequence ≠ 0
  digest : ∀ digest, checkpoint.stateDigest = some digest →
    Queue.validateSha256 digest "state_digest" = .ok ()
  range : checkpoint.sequence ≤ maxI64

def withCheckpoint (s : QueueStore) (key : PlanKey) (rows : PlanRows) (checkpoint : PlanCheckpoint) :
    QueueStore :=
  {s with plans:=s.plans.insert key {rows with checkpoints:=rows.checkpoints ++ [checkpoint]}}

-- What a call is told to be: a replay, which changes nothing, or the new last checkpoint of its plan.
inductive Appended (encoding : StoreEncoding) (s s' : QueueStore) (key : PlanKey) (rows : PlanRows)
    (checkpoint : PlanCheckpoint) : Prop where
  | replayed {row : PlanCheckpoint} : row ∈ rows.checkpoints → row.sequence = checkpoint.sequence →
      sameCheckpoint encoding row checkpoint = true → s' = s → Appended encoding s s' key rows checkpoint
  | added : s' = withCheckpoint s key rows checkpoint → Appended encoding s s' key rows checkpoint

theorem appendPlanCheckpoint_parts (stored : s.plans.lookup (planId,revision) = some rows)
    (ok : appendPlanCheckpoint encoding s tenantId planId revision checkpoint = .ok ((),s')) :
    (∃ row ∈ rows.checkpoints, row.sequence = checkpoint.sequence ∧
      sameCheckpoint encoding row checkpoint = true ∧ s' = s) ∨
    (Acceptable encoding s tenantId planId revision checkpoint ∧
      (∀ row, rows.checkpoints.getLast? = some row → checkpoint.sequence = row.sequence + 1) ∧
      s' = withCheckpoint s (planId,revision) rows checkpoint) := by
  simp only [appendPlanCheckpoint,bind_ok,require_ok,exists_const,checkOption_ok,orFail_ok,stored,
    Option.some.injEq] at ok
  obtain ⟨plan,read,⟨same,positive⟩,steps,digest,_,rfl,ok⟩ := ok
  split at ok
  · simp only [bind_ok,require_ok,exists_const,pure_ok,Prod.mk.injEq,true_and] at ok
    obtain ⟨replayed,rfl⟩ := ok
    cases found : rows.checkpoints.find? (·.sequence == checkpoint.sequence) with
    | none => simp [found] at replayed
    | some row =>
      rw [found] at replayed
      exact .inl ⟨row,List.mem_of_find?_eq_some found,by simpa using List.find?_some found,replayed,rfl⟩
  · simp only [bind_ok,require_ok,exists_const,pure_ok,Prod.mk.injEq,true_and] at ok
    obtain ⟨next,range,rfl⟩ := ok
    refine .inr ⟨⟨⟨plan,read,same,steps⟩,positive,digest,range⟩,fun row last => next _ ?_,rfl⟩
    rw [last]
    rfl

-- The first checkpoint of a plan is taken under any number.
theorem appendPlanCheckpoint_first (stored : s.plans.lookup (planId,revision) = some rows)
    (empty : rows.checkpoints = [])
    (acceptable : Acceptable encoding s tenantId planId revision checkpoint) :
    appendPlanCheckpoint encoding s tenantId planId revision checkpoint =
      .ok ((),withCheckpoint s (planId,revision) rows checkpoint) := by
  obtain ⟨⟨plan,read,same,steps⟩,positive,digest,range⟩ := acceptable
  simp only [appendPlanCheckpoint,bind_ok,require_ok,exists_const,checkOption_ok,orFail_ok,stored,
    Option.some.injEq]
  refine ⟨plan,read,⟨same,positive⟩,steps,digest,rows,rfl,?_⟩
  simp only [empty,List.getLast?_nil,Option.map_none,Option.any_none,Bool.false_eq_true,if_false,bind_ok,
    require_ok,exists_const]
  refine ⟨fun sequence absent => absurd absent (by simp),range,?_⟩
  simp only [pure_ok,withCheckpoint,empty]

structure KeepsLog (encoding : StoreEncoding) (s : QueueStore) (tenantId : TenantId) (planId : PlanId)
    (revision : Nat) (checkpoint : PlanCheckpoint) (rows : PlanRows) : Prop where
  accepted : ∀ s', appendPlanCheckpoint encoding s tenantId planId revision checkpoint = .ok ((),s') →
    Appended encoding s s' (planId,revision) rows checkpoint ∧
    ∃ rows', s'.plans.lookup (planId,revision) = some rows' ∧ checkCheckpointSequence rows'.checkpoints = true
  refused : ∀ e,
    (commit (fun s => appendPlanCheckpoint encoding s tenantId planId revision checkpoint) s).1 = .error e →
    (commit (fun s => appendPlanCheckpoint encoding s tenantId planId revision checkpoint) s).2 = s

theorem checkpoint_log (stored : s.plans.lookup (planId,revision) = some rows)
    (contiguous : checkCheckpointSequence rows.checkpoints = true) :
    KeepsLog encoding s tenantId planId revision checkpoint rows ↔
      (Acceptable encoding s tenantId planId revision checkpoint → rows.checkpoints = [] →
        checkpoint.sequence = 1) := by
  have numbered : Numbered rows := contiguous
  constructor
  · intro keeps acceptable empty
    obtain ⟨_,rows',found,contiguous⟩ := keeps.accepted _ (appendPlanCheckpoint_first stored empty acceptable)
    rw [withCheckpoint,AList.lookup_insert,Option.some.injEq] at found
    subst found
    rw [(append_numbered numbered).mp contiguous,numbered_last numbered,empty]
    rfl
  · intro first
    refine ⟨fun s' ok => ?_,fun e => commit_error⟩
    rcases appendPlanCheckpoint_parts stored ok with ⟨row,listed,same,identical,rfl⟩ | ⟨acceptable,next,rfl⟩
    · exact ⟨.replayed listed same identical rfl,rows,stored,contiguous⟩
    · refine ⟨.added rfl,_,AList.lookup_insert _,(append_numbered numbered).mpr ?_⟩
      rw [nextCheckpointSequenceTx]
      cases tail : rows.checkpoints.getLast? with
      | none => exact first acceptable (List.getLast?_eq_none_iff.mp tail)
      | some final => exact next final tail

def firstCheckpoint (sequence : Nat) : PlanCheckpoint := ⟨sequence,none,.preflight,.succeeded,none,0⟩

def savedStore : QueueStore := trial [.savePlan (trialPlan 7 [trialStep "a" [] none])]

def appendFirst (sequence : Nat) : Except QueueError (Unit × QueueStore) :=
  appendPlanCheckpoint trialEncoding savedStore trialAdmin.tenantId ⟨7⟩ 1 (firstCheckpoint sequence)

-- The stored plan has no checkpoint yet.
theorem savedStore_empty : ∃ rows, savedStore.plans.lookup (⟨7⟩,1) = some rows ∧ rows.checkpoints = [] := by
  have empty : (savedStore.plans.lookup (⟨7⟩,1)).map (·.checkpoints) = some [] := by decide +kernel
  exact Option.map_eq_some_iff.mp empty

theorem checkpoint_log_first : ∃ rows, savedStore.plans.lookup (⟨7⟩,1) = some rows ∧
    KeepsLog trialEncoding savedStore trialAdmin.tenantId ⟨7⟩ 1 (firstCheckpoint 1) rows := by
  obtain ⟨rows,stored,empty⟩ := savedStore_empty
  refine ⟨rows,stored,(checkpoint_log stored ?_).mpr fun _ _ => rfl⟩
  rw [empty]
  rfl

-- The first checkpoint is number 5, and the log the next check reads is broken.
theorem checkpoint_gap : ∃ rows s' rows', savedStore.plans.lookup (⟨7⟩,1) = some rows ∧
    checkCheckpointSequence rows.checkpoints = true ∧ appendFirst 5 = .ok ((),s') ∧
    s'.plans.lookup (⟨7⟩,1) = some rows' ∧ checkCheckpointSequence rows'.checkpoints = false := by
  obtain ⟨rows,stored,empty⟩ := savedStore_empty
  have broken : (appendFirst 5).toOption.map (fun answer => (answer.2.plans.lookup (⟨7⟩,1)).map fun rows =>
      checkCheckpointSequence rows.checkpoints) = some (some false) := by decide +kernel
  obtain ⟨⟨_,s'⟩,ok,seen⟩ := Option.map_eq_some_iff.mp broken
  obtain ⟨rows',found,gap⟩ := Option.map_eq_some_iff.mp seen
  refine ⟨rows,s',rows',stored,?_,toOption_ok ok,found,gap⟩
  rw [empty]
  rfl

end Shaka.Properties
