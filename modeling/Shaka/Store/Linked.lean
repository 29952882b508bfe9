import Shaka.Store.TaskRows

namespace Shaka.Store
open Shaka.Core Queue Plan CheckedSteps GuardedRuns

variable {encoding : StoreEncoding} {s s' : QueueStore} {row row' : TaskRecord} {now : Time}

-- What a row keeps from the submission on.
structure SameIdentity (row row' : TaskRecord) : Prop where
  taskId : row'.taskId = row.taskId
  sessionId : row'.sessionId = row.sessionId
  tenantId : row'.tenantId = row.tenantId
  idempotencyKey : row'.idempotencyKey = row.idempotencyKey
  fingerprint : row'.requestFingerprint = row.requestFingerprint
  envelope : row'.envelope = row.envelope
  priority : row'.priority = row.priority
  maxAttempts : row'.maxAttempts = row.maxAttempts
  createdAt : row'.createdAt = row.createdAt
  planId : row'.planId = row.planId
  planRevision : row'.planRevision = row.planRevision
  planDigest : row'.planDigest = row.planDigest

theorem SameIdentity.refl (row : TaskRecord) : SameIdentity row row :=
  ⟨rfl,rfl,rfl,rfl,rfl,rfl,rfl,rfl,rfl,rfl,rfl,rfl⟩

theorem SameIdentity.trans {row₁ row₂ row₃ : TaskRecord} (one : SameIdentity row₁ row₂)
    (two : SameIdentity row₂ row₃) : SameIdentity row₁ row₃ where
  taskId := two.taskId.trans one.taskId
  sessionId := two.sessionId.trans one.sessionId
  tenantId := two.tenantId.trans one.tenantId
  idempotencyKey := two.idempotencyKey.trans one.idempotencyKey
  fingerprint := two.fingerprint.trans one.fingerprint
  envelope := two.envelope.trans one.envelope
  priority := two.priority.trans one.priority
  maxAttempts := two.maxAttempts.trans one.maxAttempts
  createdAt := two.createdAt.trans one.createdAt
  planId := two.planId.trans one.planId
  planRevision := two.planRevision.trans one.planRevision
  planDigest := two.planDigest.trans one.planDigest

theorem Ended.identity (ended : Ended now row row') : SameIdentity row row' ∧ row'.attempts = row.attempts ∧
    row'.planStepId = none := by
  cases ended <;> exact ⟨⟨rfl,rfl,rfl,rfl,rfl,rfl,rfl,rfl,rfl,rfl,rfl,rfl⟩,rfl,rfl⟩

theorem cancelRow_identity (now : Time) (row : TaskRecord) : SameIdentity row (cancelRow now row) ∧
    (cancelRow now row).attempts = row.attempts ∧ (cancelRow now row).planStepId = row.planStepId := by
  unfold cancelRow
  cases row.status <;> exact ⟨⟨rfl,rfl,rfl,rfl,rfl,rfl,rfl,rfl,rfl,rfl,rfl,rfl⟩,rfl,rfl⟩

theorem recoverDirect_identity (now : Time) (row : TaskRecord) :
    SameIdentity row ((recoverDirect row now).set row) ∧
    ((recoverDirect row now).set row).attempts = row.attempts ∧
    ((recoverDirect row now).set row).planStepId = row.planStepId := by
  unfold recoverDirect taskUpdate
  simp only
  split <;> exact ⟨⟨rfl,rfl,rfl,rfl,rfl,rfl,rfl,rfl,rfl,rfl,rfl,rfl⟩,rfl,rfl⟩

theorem resolvedRow_identity (decision : PlanResolutionDecision) (now : Time) (row : TaskRecord) :
    SameIdentity row (resolvedRow decision now row) ∧ (resolvedRow decision now row).attempts = row.attempts ∧
    (resolvedRow decision now row).planStepId = none := by
  unfold resolvedRow
  cases decision <;> exact ⟨⟨rfl,rfl,rfl,rfl,rfl,rfl,rfl,rfl,rfl,rfl,rfl,rfl⟩,rfl,rfl⟩

theorem leaseRow_due {token : LeaseToken} {stepId : Option PlanStepId} {leaseUntil : Time}
    (due : isDue now row = true) : leaseRow token stepId leaseUntil now row = {row with
      status:=.running
      attempts:=row.attempts + 1
      leaseUntil:=some leaseUntil
      leaseToken:=some token
      planStepId:=stepId
      updatedAt:=now} := by
  simp only [isDue,Bool.and_eq_true,beq_iff_eq] at due
  rw [leaseRow,if_pos due.1.1]

theorem RowStep.identity {op : Operation} (step : RowStep op row row') : SameIdentity row row' := by
  cases step with
  | claimed due =>
    rw [leaseRow_due due]
    exact ⟨rfl,rfl,rfl,rfl,rfl,rfl,rfl,rfl,rfl,rfl,rfl,rfl⟩
  | finished _ _ _ ended => exact ended.identity.1
  | cancelled => exact (cancelRow_identity _ row).1
  | recovered => exact (recoverDirect_identity _ row).1
  | expired => exact ⟨rfl,rfl,rfl,rfl,rfl,rfl,rfl,rfl,rfl,rfl,rfl,rfl⟩
  | resolved => exact (resolvedRow_identity _ _ row).1

theorem SameIdentity.task (same : SameIdentity row row') (attempts : row'.attempts = row.attempts) :
    SameTask row row' :=
  ⟨same.taskId,same.tenantId,same.planId,same.planRevision,same.planDigest,same.priority,attempts,
    same.maxAttempts⟩

theorem RowStep.rowed {op : Operation} {taskId : TaskId} (step : RowStep op row row')
    (rowed : Rowed taskId row) : Rowed taskId row' := by
  have identity := step.identity
  cases step with
  | claimed due unplanned checked =>
    obtain ⟨key,_,revision,digest,_⟩ := rowed
    rw [leaseRow_due due] at checked identity ⊢
    exact ⟨key,checked,revision,digest,unplanned⟩
  | finished _ _ _ ended => exact rowed.same (identity.task ended.identity.2.1) (.inl ended.identity.2.2)
  | cancelled =>
    exact rowed.same (identity.task (cancelRow_identity _ row).2.1) (.inr (cancelRow_identity _ row).2.2)
  | recovered =>
    exact rowed.same (identity.task (recoverDirect_identity _ row).2.1)
      (.inr (recoverDirect_identity _ row).2.2)
  | expired => exact rowed.same (identity.task rfl) (.inl rfl)
  | resolved =>
    exact rowed.same (identity.task (resolvedRow_identity _ _ row).2.1)
      (.inl (resolvedRow_identity _ _ row).2.2)

-- Every operation leaves the rows linked, whether or not the plans are sound.

theorem linked_consistent : Linked encoding s ↔ Consistent encoding (fun _ _ => True) (fun _ => True) s := by
  constructor
  · intro linked
    refine ⟨linked.filed,linked.rowed,fun taskId row key found refers => ?_,fun _ _ _ _ => trivial⟩
    obtain ⟨rows,stored,joined⟩ := linked.joined taskId row key found refers
    exact ⟨rows,stored,joined,trivial⟩
  · intro consistent
    refine ⟨consistent.filed,consistent.rowed,fun taskId row key found refers => ?_⟩
    obtain ⟨rows,stored,joined,_⟩ := consistent.joined taskId row key found refers
    exact ⟨rows,stored,joined⟩

theorem Linked.advance (linked : Linked encoding s)
    (advance : Advance encoding (fun _ _ _ => True) s s') : Linked encoding s' := by
  have preserved : Preserved encoding (fun _ _ _ => True) (fun _ _ => True) (fun _ => True) := by
    constructor <;> intros <;> trivial
  exact linked_consistent.mpr (Consistent.advance preserved (linked_consistent.mp linked) advance)

theorem Linked.stepped (op : Operation) (linked : Linked encoding s) (carries : Carries (fun _ => False) s s')
    (rows : ∀ taskId, s'.tasks.lookup taskId = s.tasks.lookup taskId ∨ ∃ row row',
      s.tasks.lookup taskId = some row ∧
      s'.tasks.lookup taskId = some row' ∧ RowStep op row row') : Linked encoding s' := by
  have before : ∀ taskId row', s'.tasks.lookup taskId = some row' → ∃ row, s.tasks.lookup taskId = some row ∧
      SameIdentity row row' ∧ (Rowed taskId row → Rowed taskId row') := by
    intro taskId row' found
    rcases rows taskId with same | ⟨row,new,was,now,step⟩
    · exact ⟨row',same ▸ found,⟨rfl,rfl,rfl,rfl,rfl,rfl,rfl,rfl,rfl,rfl,rfl,rfl⟩,id⟩
    · obtain rfl := Option.some.inj (found.symm.trans now)
      exact ⟨row,was,step.identity,step.rowed⟩
  refine ⟨fun key rows stored => ?_,fun taskId row' found => ?_,fun taskId row' key found refers => ?_⟩
  · obtain ⟨old,stored',_⟩ := (carries.origin key rows stored).resolve_right id
    obtain ⟨new,again,plan,tenantId,digest,keys,compensations⟩ := carries.kept key old stored'
    obtain rfl := Option.some.inj (stored.symm.trans again)
    exact (linked.filed key old stored').same plan tenantId digest keys compensations
  · obtain ⟨row,was,_,rowed⟩ := before taskId row' found
    exact rowed (linked.rowed taskId row was)
  · obtain ⟨row,was,same,_⟩ := before taskId row' found
    have refers : planKeyOf row = some key := by
      rwa [planKeyOf,← same.planId,← same.planRevision]
    obtain ⟨rows,stored,joined⟩ := linked.joined taskId row key was refers
    obtain ⟨rows',stored',plan,_⟩ := carries.kept key rows stored
    exact ⟨rows',stored',(joined.same plan).task same.taskId same.tenantId same.planId same.planRevision
      same.planDigest⟩

theorem exec_linked (linked : Linked encoding s) (op : Operation) : Linked encoding (exec encoding s op) := by
  have carries := exec_carries encoding s op
  have changes := exec_rows linked op
  have stepped : (∀ request clock, op ≠ .submit request clock) → (∀ plan, op ≠ .savePlan plan) →
      Linked encoding (exec encoding s op) := by
    intro submits saves
    refine Linked.stepped op linked ⟨carries.kept,fun key rows stored => ?_⟩ fun taskId => ?_
    · exact .inl ((carries.origin key rows stored).resolve_right fun saving => saves _ saving)
    · have change := changes taskId
      generalize s.tasks.lookup taskId = was at change
      generalize (exec encoding s op).tasks.lookup taskId = now at change
      cases change with
      | kept => exact .inl rfl
      | entered => exact absurd rfl (submits _ _)
      | stepped step => exact .inr ⟨_,_,rfl,rfl,step⟩
  cases op with
  | savePlan plan =>
    rcases exec_cases encoding s (.savePlan plan) with same | ok
    · rw [same]
      exact linked
    · obtain ⟨answer,ok⟩ := storeOf_ok.mp ok
      exact linked.advance (savePlan_advance ok)
  | submit request clock =>
    rcases exec_cases encoding s (.submit request clock) with same | ok
    · rw [same]
      exact linked
    · obtain ⟨answer,ok⟩ := storeOf_ok.mp ok
      exact linked.advance (submit_advance ok)
  | _ => exact stepped (by simp) (by simp)

theorem run_linked {allowed : QueueStore → Operation → Prop} (run : Run encoding allowed s) :
    Linked encoding s := by
  refine run.invariant (linked_consistent.mpr empty_consistent) fun s op linked _ => exec_linked linked op

end Shaka.Store
