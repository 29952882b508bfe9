import Shaka.Store.Leases
import Mathlib.Logic.Relation

namespace Shaka.Store
open Shaka.Core Queue Plan CheckedSteps

variable {encoding : StoreEncoding} {s s' : QueueStore}

abbrev Advances (encoding : StoreEncoding) (permitted : Act → TaskRecord → PlanRows → Prop) :=
  Relation.ReflTransGen (Advance encoding permitted)

-- Cancelling.

theorem requestCancel_parts {taskId : TaskId} {tenantId : TenantId} {now : Time}
    (ok : requestCancel encoding s taskId tenantId now = .ok (answer,s')) :
    ((∃ task, s.tasks.lookup taskId = some task ∧ task.status.isTerminal = true) ∧ s' = s) ∨
    ∃ task, s.tasks.lookup taskId = some task ∧ task.tenantId = tenantId ∧ task.status.isTerminal = false ∧
      ((task.planId = none ∧ s' = s.updateTask (taskUpdate task (cancelRow now))) ∨
      ∃ reference rows tx', taskReference task = .ok reference ∧
        s.plans.lookup (reference.planId,reference.revision) = some rows ∧
        cancelPlannedTaskTx encoding ⟨rows,s.nextUuid⟩ task reference now = .ok tx' ∧
        s' = (s.storePlan (reference.planId,reference.revision) tx').updateTask
          (taskUpdate task (cancelRow now))) := by
  obtain ⟨task,loaded,ok⟩ := bind_ok.mp ok
  obtain ⟨found,tenant,_⟩ := loadTask_ok.mp loaded
  split at ok
  · next terminal =>
    cases ok
    exact .inl ⟨⟨_,found,terminal⟩,rfl⟩
  next open_ =>
  refine .inr ⟨task,found,tenant,by simpa using open_,?_⟩
  obtain ⟨middle,planned,ok⟩ := bind_ok.mp ok
  obtain ⟨updated,_,ok⟩ := bind_ok.mp ok
  cases ok
  rcases stepIf_ok.mp planned with ⟨named,cancelled⟩ | ⟨direct,same⟩
  · simp only [cancelPlanOf,bind_ok,pure_ok] at cancelled
    obtain ⟨reference,named,tx,begun,tx',ran,rfl⟩ := cancelled
    obtain ⟨rows,stored,rfl⟩ := beginPlan_ok begun
    exact .inr ⟨reference,rows,tx',named,stored,ran,rfl⟩
  · subst same
    exact .inl ⟨by simpa using direct,rfl⟩

theorem cancelRow_same {task : TaskRecord} {now : Time} :
    SameTask task (cancelRow now task) ∧ (cancelRow now task).planStepId = task.planStepId := by
  unfold cancelRow
  cases status : task.status <;> exact ⟨⟨rfl,rfl,rfl,rfl,rfl,rfl,rfl,rfl⟩,rfl⟩

theorem requestCancel_advance {taskId : TaskId} {tenantId : TenantId} {now : Time} (sound : Sound encoding s)
    (ok : requestCancel encoding s taskId tenantId now = .ok (answer,s')) :
    Advance encoding (Concerned s (.requestCancel taskId tenantId now)) s s' := by
  rcases requestCancel_parts ok with ⟨_,rfl⟩ | ⟨task,found,_,open_,outcome⟩
  · exact .aside rfl fun _ => rfl
  obtain rfl := (sound.rowed _ _ found).taskId
  obtain ⟨same,step⟩ := @cancelRow_same task now
  rcases outcome with ⟨direct,rfl⟩ | ⟨reference,rows,tx',named,stored,ran,rfl⟩
  · rw [updateTask_found task found rfl]
    exact direct_advance sound found direct same step rfl rfl
  · have refers := taskReference_key named
    obtain ⟨coherent,_⟩ := pair_coherent sound found refers stored
    obtain ⟨ws,lease,tx'',move,made,rfl,settled⟩ :=
      (@cancelPlannedTaskTx_moves encoding ⟨rows,s.nextUuid⟩ _ _ _ coherent open_).done _ ran
    rw [storePlan_updateTask found ⟨rfl,rfl,settled,same⟩]
    exact moves_advance sound found refers stored (settled ▸ move) made.edits made.reached same (.inr step)
      ⟨found,⟨_,refers,stored⟩,⟨rfl,rfl⟩⟩ (sets_insert rfl) rfl

-- Recovering expired leases, one candidate after the other.

theorem recoverCandidate_parts {now : Time} {candidate : TaskRecord}
    (ok : recoverCandidate encoding now s candidate = .ok s') :
    ∃ task, s.tasks.lookup candidate.taskId = some task ∧
      ((task.planId = none ∧ s' = s.updateTask (recoverDirect task now)) ∨
      ∃ reference rows tx' update, taskReference task = .ok reference ∧
        s.plans.lookup (reference.planId,reference.revision) = some rows ∧
        recoverExpiredPlanLeaseTx encoding ⟨rows,s.nextUuid⟩ task reference now = .ok (tx',update) ∧
        s' = (s.storePlan (reference.planId,reference.revision) tx').updateTask update) := by
  simp only [recoverCandidate,bind_ok] at ok
  obtain ⟨tenantId,_,task,loaded,ok⟩ := ok
  refine ⟨task,(loadTask_ok.mp loaded).1,?_⟩
  split at ok
  · obtain ⟨reference,named,ok⟩ := bind_ok.mp ok
    obtain ⟨tx,begun,ok⟩ := bind_ok.mp ok
    obtain ⟨⟨tx',update⟩,ran,ok⟩ := bind_ok.mp ok
    cases ok
    obtain ⟨rows,stored,rfl⟩ := beginPlan_ok begun
    exact .inr ⟨reference,rows,tx',update,named,stored,ran,rfl⟩
  · next direct =>
    cases ok
    exact .inl ⟨by simpa using direct,rfl⟩

theorem recoverDirect_same {task : TaskRecord} {now : Time} :
    SameTask task ((recoverDirect task now).set task) ∧
      ((recoverDirect task now).set task).planStepId = task.planStepId := by
  unfold recoverDirect taskUpdate
  simp only
  split <;> exact ⟨⟨rfl,rfl,rfl,rfl,rfl,rfl,rfl,rfl⟩,rfl⟩

-- A candidate that the loop has not come to yet: its row and its plan are as
-- they were when the candidates were selected.
structure Untouched (first s : QueueStore) (candidate : TaskRecord) : Prop where
  listed : first.tasks.lookup candidate.taskId = some candidate
  row : s.tasks.lookup candidate.taskId = some candidate
  plan : ∀ key, planKeyOf candidate = some key → s.plans.lookup key = first.plans.lookup key

-- It stays so when another candidate, of another task and plan, is recovered.
theorem Untouched.still {first : QueueStore} {candidate other : TaskRecord}
    (untouched : Untouched first s other) (apart : other.taskId ≠ candidate.taskId)
    (rows : ∀ taskId, taskId ≠ candidate.taskId → s'.tasks.lookup taskId = s.tasks.lookup taskId)
    (plans : ∀ key, planKeyOf candidate ≠ some key → s'.plans.lookup key = s.plans.lookup key)
    (shared : ∀ key, planKeyOf other = some key → planKeyOf candidate ≠ some key) :
    Untouched first s' other :=
  ⟨untouched.listed,(rows _ apart).trans untouched.row,
    fun key refers => (plans key (shared key refers)).trans (untouched.plan key refers)⟩

-- One iteration, and what it leaves alone.
theorem recoverCandidate_advance {first : QueueStore} {now : Time} {candidate : TaskRecord}
    (sound : Sound encoding s) (untouched : Untouched first s candidate)
    (expired : isExpired now candidate = true) (ok : recoverCandidate encoding now s candidate = .ok s') :
    Advance encoding (Concerned first (.recoverExpiredLeases now)) s s' ∧
      (∀ taskId, taskId ≠ candidate.taskId → s'.tasks.lookup taskId = s.tasks.lookup taskId) ∧
      ∀ key, planKeyOf candidate ≠ some key → s'.plans.lookup key = s.plans.lookup key := by
  obtain ⟨task,found,outcome⟩ := recoverCandidate_parts ok
  obtain rfl := Option.some.inj (untouched.row.symm.trans found)
  rcases outcome with ⟨direct,rfl⟩ | ⟨reference,rows,tx',update,named,stored,ran,rfl⟩
  · obtain ⟨same,step⟩ := @recoverDirect_same candidate now
    rw [updateTask_found candidate found rfl]
    exact ⟨direct_advance sound found direct same step rfl rfl,fun taskId other =>
      AList.lookup_insert_ne other,fun _ _ => rfl⟩
  · have refers := taskReference_key named
    obtain ⟨coherent,_⟩ := pair_coherent sound found refers stored
    have leased : candidate.status.isLeased = true := by
      simp only [isExpired,Bool.and_eq_true] at expired
      exact expired.1
    obtain ⟨ws,lease,tx'',move,made,rfl,settles⟩ :=
      (@recoverExpiredPlanLeaseTx_moves encoding ⟨rows,s.nextUuid⟩ _ _ _ coherent leased).done _ ran
    rw [storePlan_updateTask found settles]
    have free : lease.planStep = none := by cases move <;> rfl
    refine ⟨moves_advance sound found refers stored (settles.lease ▸ move) made.edits made.reached
      settles.same (.inl (lease_step settles.lease free)) ⟨untouched.listed,⟨_,refers,?_⟩,⟨rfl,expired⟩⟩
      (sets_insert rfl) rfl,
      fun taskId other => AList.lookup_insert_ne other,fun key other => AList.lookup_insert_ne ?_⟩
    · rw [← untouched.plan _ refers]
      exact stored
    · rintro rfl
      exact other refers

theorem recoverEach_advances {first : QueueStore} {now : Time} {candidates : List TaskRecord}
    (sound : Sound encoding s) (distinct : (candidates.map (·.taskId)).Nodup)
    (untouched : ∀ candidate ∈ candidates, Untouched first s candidate ∧ isExpired now candidate = true)
    (ok : foldEach (recoverCandidate encoding now) s candidates = .ok s') :
    Advances encoding (Concerned first (.recoverExpiredLeases now)) s s' := by
  induction candidates generalizing s with
  | nil =>
    cases ok
    exact .refl
  | cons candidate rest ih =>
    obtain ⟨middle,head,others⟩ := bind_ok.mp ok
    obtain ⟨here,expired⟩ := untouched candidate List.mem_cons_self
    obtain ⟨advance,rows,plans⟩ := recoverCandidate_advance sound here expired head
    rw [List.map_cons,List.nodup_cons] at distinct
    refine .head advance (ih (sound.advance advance) distinct.2 ?_ others)
    intro other later
    obtain ⟨there,expired⟩ := untouched other (List.mem_cons_of_mem _ later)
    have apart : other.taskId ≠ candidate.taskId := fun same => distinct.1 (same ▸ List.mem_map_of_mem later)
    -- two tasks never share a plan
    exact ⟨there.still apart rows plans fun key refers shared =>
      apart (Consistent.sole sound there.row here.row refers shared),expired⟩

theorem taskRows_distinct (rowed : ∀ taskId task, s.tasks.lookup taskId = some task → task.taskId = taskId) :
    (s.taskRows.map (·.taskId)).Nodup := by
  have keys : s.taskRows.map (·.taskId) = s.tasks.keys := by
    rw [QueueStore.taskRows,List.map_map,AList.keys,List.keys]
    refine List.map_congr_left fun entry listed => ?_
    exact rowed entry.1 entry.2 (AList.mem_lookup_iff.mpr listed)
  rw [keys]
  exact s.tasks.keys_nodup

-- The candidates of a recovery: expired rows of different tasks.
theorem recoveryCandidates_listed {now : Time}
    (rowed : ∀ taskId task, s.tasks.lookup taskId = some task → task.taskId = taskId) :
    ((recoveryCandidates s now).map (·.taskId)).Nodup ∧ ∀ candidate ∈ recoveryCandidates s now,
      s.tasks.lookup candidate.taskId = some candidate ∧ isExpired now candidate = true := by
  constructor
  · have sorted := ((s.taskRows.filter (isExpired now)).perm_insertionSort
      fun left right => left.updatedAt ≤ right.updatedAt).map (·.taskId)
    exact (sorted.nodup_iff.mpr ((taskRows_distinct rowed).sublist (List.filter_sublist.map _))).sublist
      ((List.take_sublist _ _).map _)
  · intro candidate listed
    have chosen := List.mem_of_mem_take listed
    rw [List.mem_insertionSort] at chosen
    obtain ⟨row,expired⟩ := List.mem_filter.mp chosen
    obtain ⟨taskId,found⟩ := mem_taskRows.mp row
    obtain rfl := rowed _ _ found
    exact ⟨found,expired⟩

theorem recoverExpiredLeases_advances {now : Time} (sound : Sound encoding s)
    (ok : recoverExpiredLeases encoding s now = .ok (answer,s')) :
    Advances encoding (Concerned s (.recoverExpiredLeases now)) s s' := by
  simp only [recoverExpiredLeases,bind_ok,pure_ok,Prod.mk.injEq] at ok
  obtain ⟨_,ran,_,rfl⟩ := ok
  obtain ⟨distinct,listed⟩ := recoveryCandidates_listed fun taskId task found =>
      (sound.rowed taskId task found).taskId
  refine recoverEach_advances sound distinct (fun candidate chosen => ?_) ran
  obtain ⟨found,expired⟩ := listed candidate chosen
  exact ⟨⟨found,found,fun _ _ => rfl⟩,expired⟩

end Shaka.Store
