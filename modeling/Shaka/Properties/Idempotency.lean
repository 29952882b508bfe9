import Shaka.Properties.Quotas

namespace Shaka.Properties
open Shaka.Core Queue Plan Store CheckedSteps GuardedRuns

variable {encoding : StoreEncoding} {s s' : QueueStore} {request : SubmitRequest} {clock : SubmitClock}

-- No two tasks of a tenant were submitted under one key.
def KeysUnique (s : QueueStore) : Prop :=
  ∀ taskId other row row', s.tasks.lookup taskId = some row → s.tasks.lookup other = some row' →
    row.tenantId = row'.tenantId → row.idempotencyKey = row'.idempotencyKey → taskId = other

theorem KeysUnique.carried (unique : KeysUnique s)
    (was : ∀ taskId row', s'.tasks.lookup taskId = some row' → ∃ row, s.tasks.lookup taskId = some row ∧
      row'.tenantId = row.tenantId ∧ row'.idempotencyKey = row.idempotencyKey) : KeysUnique s' := by
  intro taskId other row row' found found' tenant key
  obtain ⟨old,before,tenantId,idempotencyKey⟩ := was taskId row found
  obtain ⟨old',before',tenantId',idempotencyKey'⟩ := was other row' found'
  exact unique taskId other old old' before before' (by rw [← tenantId,← tenantId',tenant])
    (by rw [← idempotencyKey,← idempotencyKey',key])

theorem KeysUnique.submitted {limits : TenantLimits} {admitted : QueueStore} {envelope : TaskEnvelope}
    (unique : KeysUnique s) (submitted : Submitted encoding s s' request clock limits admitted envelope) :
    KeysUnique s' := by
  obtain ⟨_,_,tasks,_⟩ := submitted.tables
  have fresh : ∀ taskId row, s.tasks.lookup taskId = some row → row.tenantId = request.principal.tenantId →
      row.idempotencyKey ≠ request.idempotencyKey := fun taskId row found =>
    submitted.unkeyed row (mem_taskRows.mpr ⟨taskId,found⟩)
  intro taskId other row row' found found' tenant key
  rw [tasks,lookup_insert_eq] at found found'
  split at found <;> split at found'
  · next same same' => rw [same,same']
  · cases found
    exact absurd key.symm (fresh other row' found' tenant.symm)
  · cases found'
    exact absurd key (fresh taskId row found tenant)
  · exact unique taskId other row row' found found' tenant key

theorem exec_unique (linked : Linked encoding s) (op : Operation) (unique : KeysUnique s) :
    KeysUnique (exec encoding s op) := by
  have others : (∀ request clock, op ≠ .submit request clock) → KeysUnique (exec encoding s op) := by
    intro submits
    refine unique.carried fun taskId row' found => ?_
    have change := exec_rows linked op taskId
    rw [found] at change
    generalize s.tasks.lookup taskId = was at change ⊢
    cases change with
    | kept => exact ⟨row',rfl,rfl,rfl⟩
    | entered => exact absurd rfl (submits _ _)
    | stepped step => exact ⟨_,rfl,step.identity.tenantId,step.identity.idempotencyKey⟩
  cases op with
  | submit request clock =>
    rcases submission_cases encoding s request clock with ⟨_,same⟩ | ⟨_,_,_,_,submitted⟩
    · rw [same]
      exact unique
    · exact unique.submitted submitted
  | _ => exact others (by simp)

theorem run_unique {allowed : QueueStore → Operation → Prop} (run : Run encoding allowed s) :
    KeysUnique s := by
  refine run.invariant_under (fun _ reached => run_linked reached) ?_ fun s op linked unique _ =>
    exec_unique linked op unique
  intro taskId other row row' found
  cases found

-- The task was submitted for this plan, or for none.
def SameReference (row : TaskRecord) (reference : Option PlanTaskReference) : Prop :=
  row.planId = reference.map (·.planId) ∧ row.planRevision = reference.map (·.revision) ∧
    row.planDigest = reference.map (·.digest)

theorem samePlanReference_iff {taskId : TaskId} {row : TaskRecord} (rowed : Rowed taskId row)
    (reference : Option PlanTaskReference) :
    samePlanReference row reference = true ↔ SameReference row reference := by
  have revision := rowed.revision
  have digest := rowed.digest
  unfold samePlanReference SameReference
  cases planId : row.planId <;> cases planRevision : row.planRevision <;> cases planDigest :
    row.planDigest <;>
    simp [planId,planRevision,planDigest] at revision digest <;> cases reference <;> simp [and_assoc]

-- The checks that a submission passes before it is compared with earlier ones.
structure Entitled (s : QueueStore) (request : SubmitRequest) : Prop where
  valid : validateSubmit request = .ok ()
  session : s.sessions.lookup request.sessionId = some ⟨request.principal.tenantId,
    request.principal.operatorId⟩
  limits : s.limits.lookup request.principal.tenantId ≠ none

-- What an entitled submission does when its key is taken.
theorem submit_taken (unique : KeysUnique s) (entitled : Entitled s request) {taskId : TaskId}
    {row : TaskRecord} (rowed : Rowed taskId row) (found : s.tasks.lookup taskId = some row)
    (tenant : row.tenantId = request.principal.tenantId)
    (key : row.idempotencyKey = request.idempotencyKey) :
    submitTaskGoverned encoding s request clock =
      (require (row.requestFingerprint = request.requestFingerprint ∧
        samePlanReference row request.planReference = true) .idempotencyConflict >>= fun _ =>
          .ok ((.existing,row),s)) := by
  obtain ⟨limits,limited⟩ := Option.ne_none_iff_exists'.mp entitled.limits
  have listed : s.taskRows.find? (fun task => task.tenantId == request.principal.tenantId &&
      task.idempotencyKey == request.idempotencyKey) = some row := by
    cases first : s.taskRows.find? (fun task => task.tenantId == request.principal.tenantId &&
      task.idempotencyKey == request.idempotencyKey) with
    | none =>
      have missed := List.find?_eq_none.mp first row (mem_taskRows.mpr ⟨taskId,found⟩)
      simp [tenant,key] at missed
    | some other =>
      have matched := List.find?_some first
      simp only [Bool.and_eq_true,beq_iff_eq] at matched
      obtain ⟨otherId,found'⟩ := mem_taskRows.mp (List.mem_of_find?_eq_some first)
      have same := unique otherId taskId other row found' found (matched.1.trans tenant.symm)
          (matched.2.trans key.symm)
      rw [same,found] at found'
      exact found'.symm
  have loaded : loadTask encoding s row.taskId request.principal.tenantId = .ok row := by
    rw [rowed.taskId]
    exact loadTask_ok.mpr ⟨found,tenant,rowed.checked⟩
  simp only [submitTaskGoverned,entitled.valid,entitled.session,limited,listed,loaded,ok_bind,orFail,
    Option.filter_some,beq_self_eq_true,if_true]
  rfl

theorem idempotent_submission {allowed : QueueStore → Operation → Prop} (run : Run encoding allowed s) :
    KeysUnique s ∧ ∀ request clock taskId row, Entitled s request → s.tasks.lookup taskId = some row →
      row.tenantId = request.principal.tenantId → row.idempotencyKey = request.idempotencyKey →
      (row.requestFingerprint = request.requestFingerprint ∧ SameReference row request.planReference →
        commit (submitTaskGoverned encoding · request clock) s = (.ok (.existing,row),s)) ∧
      (¬ (row.requestFingerprint = request.requestFingerprint ∧ SameReference row request.planReference) →
        commit (submitTaskGoverned encoding · request clock) s = (.error .idempotencyConflict,s)) := by
  have unique := run_unique run
  refine ⟨unique,fun request clock taskId row entitled found tenant key => ?_⟩
  have rowed := (run_linked run).rowed taskId row found
  have taken := @submit_taken encoding _ _ clock unique entitled _ _ rowed found tenant key
  have same := samePlanReference_iff rowed request.planReference
  constructor
  · rintro ⟨fingerprint,reference⟩
    rw [require_pos _ ⟨fingerprint,same.mpr reference⟩] at taken
    simp only [commit,taken]
    rfl
  · intro differs
    rw [require_error.mpr ⟨fun agrees => differs ⟨agrees.1,same.mp agrees.2⟩,rfl⟩] at taken
    simp only [commit,taken]
    rfl

-- The submission of a finished task is repeated, and once more for a plan.

def finishedRun : List Operation := trialDirect 7 ++ [trialClaim 2,trialFinish 7 1 2 none]

def repeatedRequest (reference : Option PlanTaskReference) : SubmitRequest :=
  ⟨0,trialAdmin,"task-7","fingerprint",⟨⟨8⟩,trialAdmin.tenantId,trialAdmin.operatorId,.default,true,
    .fromPrincipal trialAdmin⟩,0,1,reference,none⟩

theorem idempotent_submission_repeated : ∃ row, (trial finishedRun).tasks.lookup ⟨7⟩ = some row ∧
    row.status = .succeeded ∧
    commit (submitTaskGoverned trialEncoding · (repeatedRequest none) ⟨0,0,0⟩) (trial finishedRun) =
      (.ok (.existing,row),trial finishedRun) ∧
    commit (submitTaskGoverned trialEncoding · (repeatedRequest (some ⟨⟨7⟩,1,trialDigest 7⟩)) ⟨0,0,0⟩)
      (trial finishedRun) = (.error .idempotencyConflict,trial finishedRun) := by
  have columns :
      ((trial finishedRun).tasks.lookup ⟨7⟩).map (fun row => (row.status,row.tenantId,row.idempotencyKey,
      row.requestFingerprint)) = some (.succeeded,trialAdmin.tenantId,"task-7",
      "fingerprint") := by decide +kernel
  have plans :
      ((trial finishedRun).tasks.lookup ⟨7⟩).map (fun row => (row.planId,row.planRevision,row.planDigest)) =
      some (none,none,none) := by decide +kernel
  have session :
      (trial finishedRun).sessions.lookup 0 = some ⟨trialAdmin.tenantId,trialAdmin.operatorId⟩ := by
    decide +kernel
  have limits : (trial finishedRun).limits.lookup trialAdmin.tenantId ≠ none := by decide +kernel
  have valid : validateSubmit (repeatedRequest none) = .ok () := by decide +kernel
  have entitled : ∀ reference, Entitled (trial finishedRun) (repeatedRequest reference) := fun _ =>
      ⟨valid,session,limits⟩
  obtain ⟨row,found,columns⟩ := Option.map_eq_some_iff.mp columns
  simp only [found,Option.map_some,Option.some.injEq,Prod.mk.injEq] at columns plans
  obtain ⟨status,tenant,key,fingerprint⟩ := columns
  have stated := (idempotent_submission (@ordinary_run trialEncoding finishedRun rfl)).2
  refine ⟨row,found,status,(stated _ _ ⟨7⟩ row (entitled none) found tenant key).1 ⟨fingerprint,plans⟩,
    (stated _ _ ⟨7⟩ row (entitled _) found tenant key).2 ?_⟩
  rintro ⟨_,named,_⟩
  simp [repeatedRequest,plans.1] at named

end Shaka.Properties
