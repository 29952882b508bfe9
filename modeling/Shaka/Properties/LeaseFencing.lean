import Shaka.Store.Linked

namespace Shaka.Properties
open Shaka.Core Queue Plan Store CheckedSteps GuardedRuns

variable {encoding : StoreEncoding} {s s' : QueueStore} {row row' : TaskRecord} {now : Time}

-- The columns of a row agree on whether somebody holds its lease.
structure Fenced (row : TaskRecord) : Prop where
  token : row.leaseToken.isSome = row.status.isLeased
  expiry : row.leaseUntil.isSome = row.status.isLeased
  queued : row.status = .queued → row.cancelRequested = false
  closed : row.status.isTerminal = true → row.completedAt.isSome = true

theorem ended_fenced (ended : Ended now row row') : Fenced row' := by
  cases ended with
  | cancelled requested => exact ⟨rfl,rfl,fun queued => (by cases queued),fun _ => rfl⟩
  | closed unrequested status =>
    rcases status with rfl | rfl
    · exact ⟨rfl,rfl,fun queued => (by cases queued),fun _ => rfl⟩
    · exact ⟨rfl,rfl,fun queued => (by cases queued),fun _ => rfl⟩
  | requeued unrequested =>
    refine ⟨rfl,rfl,fun _ => ?_,fun closed => (by cases closed)⟩
    cases flag : row.cancelRequested with
    | true => exact absurd (.inl flag) unrequested
    | false => exact flag

theorem cancelRow_fenced (fenced : Fenced row) (open_ : row.status.isTerminal = false) :
    Fenced (cancelRow now row) := by
  obtain ⟨token,expiry,_,_⟩ := fenced
  unfold cancelRow
  cases status : row.status with
  | queued =>
    rw [status] at token expiry
    exact ⟨token,expiry,fun queued => (by cases queued),fun _ => rfl⟩
  | running | cancelRequested =>
    rw [status] at token expiry
    exact ⟨token,expiry,fun queued => (by cases queued),fun closed => (by cases closed)⟩
  | succeeded | failed | cancelled =>
    rw [status] at open_
    cases open_

theorem recoverDirect_fenced : Fenced ((recoverDirect row now).set row) := by
  unfold recoverDirect taskUpdate
  simp only
  split
  · exact ⟨rfl,rfl,fun queued => (by cases queued),fun _ => rfl⟩
  · next unrequested =>
      exact ⟨rfl,rfl,fun _ => by simpa [releaseRow] using unrequested,fun closed => (by cases closed)⟩

theorem expiredRow_fenced : Fenced (expiredRow now row) := by
  unfold expiredRow
  cases flag : row.cancelRequested with
  | _ => exact ⟨rfl,rfl,fun queued => (by simp [unbindStep,releaseRow,flag] at queued),fun _ => rfl⟩

theorem resolvedRow_fenced (decision : PlanResolutionDecision) : Fenced (resolvedRow decision now row) := by
  cases decision with
  | resume | compensate => exact ⟨rfl,rfl,fun _ => rfl,fun closed => (by cases closed)⟩
  | cancel => exact ⟨rfl,rfl,fun queued => (by cases queued),fun _ => rfl⟩

theorem rowStep_fenced {op : Operation} (step : RowStep op row row') (fenced : Fenced row) : Fenced row' := by
  cases step with
  | claimed due =>
    rw [leaseRow_due due]
    exact ⟨rfl,rfl,fun queued => (by cases queued),fun closed => (by cases closed)⟩
  | finished _ _ _ ended => exact ended_fenced ended
  | cancelled open_ => exact cancelRow_fenced fenced open_
  | recovered => exact recoverDirect_fenced
  | expired => exact expiredRow_fenced
  | resolved => exact resolvedRow_fenced _

theorem newTask_fenced (request : SubmitRequest) (envelope : TaskEnvelope) (now : Time) :
    Fenced (newTask request envelope now) :=
  ⟨rfl,rfl,fun _ => rfl,fun closed => (by cases closed)⟩

def AllFenced (s : QueueStore) : Prop := ∀ taskId row, s.tasks.lookup taskId = some row → Fenced row

theorem exec_fenced (linked : Linked encoding s) (op : Operation) (fenced : AllFenced s) :
    AllFenced (exec encoding s op) := by
  intro taskId row' found
  have before := fenced taskId
  have change := exec_rows linked op taskId
  rw [found] at change
  generalize s.tasks.lookup taskId = was at change before
  cases change with
  | kept => exact before row' rfl
  | entered => exact newTask_fenced _ _ _
  | stepped step => exact rowStep_fenced step (before _ rfl)

theorem run_fenced {allowed : QueueStore → Operation → Prop} (run : Run encoding allowed s) :
    AllFenced s := by
  refine run.invariant_under (fun _ reached => run_linked reached) ?_ fun s op linked fenced _ =>
    exec_fenced linked op fenced
  intro taskId row found
  cases found

variable {taskId : TaskId} {tenantId : TenantId} {leaseToken : LeaseToken} {report : FinishReport}
  {planContext : PlanClaimContext}

theorem finish_refused (rowed : Rowed taskId row) (found : s.tasks.lookup taskId = some row)
    (open_ : row.status.isTerminal = false)
    (lost : row.leaseToken ≠ some leaseToken ∨ ∀ leaseUntil ∈ row.leaseUntil, leaseUntil ≤ now) :
    finishTaskWithLeaseToken encoding s taskId row.tenantId leaseToken report now planContext =
      .error .leaseLost := by
  have loaded : loadTask encoding s taskId row.tenantId = .ok row := loadTask_ok.mpr ⟨found,rfl,rowed.checked⟩
  have lease : ¬ (row.leaseToken = some leaseToken ∧ ∃ leaseUntil ∈ row.leaseUntil, now < leaseUntil) := by
    rintro ⟨held,leaseUntil,listed,later⟩
    rcases lost with other | expired
    · exact other held
    · exact absurd later (not_lt.mpr (expired leaseUntil listed))
  simp only [finishTaskWithLeaseToken,loaded,ok_bind,open_,Bool.false_eq_true,if_false]
  rw [require_error.mpr ⟨lease,rfl⟩]
  rfl

-- A finish that changes anything was made under the current token of the task,
-- which is used up by it.
theorem finish_effective (linked : Linked encoding s)
    (effect : exec encoding s (.finish taskId tenantId leaseToken report now planContext) ≠ s) :
    (∃ row, s.tasks.lookup taskId = some row ∧ row.leaseToken = some leaseToken) ∧
    ∃ row', (exec encoding s (.finish taskId tenantId leaseToken report now planContext)).tasks.lookup
      taskId = some row' ∧ row'.leaseToken = none := by
  rcases exec_cases encoding s (.finish taskId tenantId leaseToken report now planContext) with same | ok
  · exact absurd same effect
  obtain ⟨answer,ok⟩ := storeOf_ok.mp ok
  rcases finish_rows linked ok with same | ⟨row,row',found,_,_,_,held,_,ended,tasks⟩
  · exact absurd same effect
  · refine ⟨⟨row,found,held⟩,row',by rw [tasks,AList.lookup_insert],?_⟩
    cases ended <;> rfl

-- No claim hands this task out.
def Unclaimed (encoding : StoreEncoding) (taskId : TaskId) (s : QueueStore) (op : Operation) : Prop :=
  ∀ now leaseFor planContext claimed s', op = .claim now leaseFor planContext →
    claimNextWithPlanContext encoding s now leaseFor planContext = .ok (some claimed,s') →
    claimed.taskId ≠ taskId

-- Nobody but the bearer of `bearer` can hold the lease of the task.
def HeldBy (bearer : Option LeaseToken) (taskId : TaskId) (s : QueueStore) : Prop :=
  ∃ row, s.tasks.lookup taskId = some row ∧ (row.leaseToken = none ∨ row.leaseToken = bearer)

theorem unclaimed_token {op : Operation} (step : RowStep op row row')
    (notClaim : ∀ now leaseFor planContext, op ≠ .claim now leaseFor planContext) :
    row'.leaseToken = none ∨ row'.leaseToken = row.leaseToken := by
  cases step with
  | claimed => exact absurd rfl (notClaim _ _ _)
  | finished _ _ _ ended => cases ended <;> exact .inl rfl
  | cancelled =>
    unfold cancelRow
    cases row.status <;> exact .inr rfl
  | recovered =>
    unfold recoverDirect taskUpdate
    simp only
    split <;> exact .inl rfl
  | expired => exact .inl rfl
  | @resolved request =>
    unfold resolvedRow
    cases request.decision <;> exact .inl rfl

theorem exec_held {bearer : Option LeaseToken} (linked : Linked encoding s) (op : Operation)
    (unclaimed : Unclaimed encoding taskId s op) (held : HeldBy bearer taskId s) :
    HeldBy bearer taskId (exec encoding s op) := by
  obtain ⟨row,found,token⟩ := held
  by_cases claims : ∃ now leaseFor planContext, op = .claim now leaseFor planContext
  · obtain ⟨now,leaseFor,planContext,rfl⟩ := claims
    refine ⟨row,?_,token⟩
    rcases exec_cases encoding s (.claim now leaseFor planContext) with same | ok
    · rw [same,found]
    obtain ⟨answer,ok⟩ := storeOf_ok.mp ok
    rcases claim_rows linked ok with ⟨_,same⟩ | ⟨other,_,_,_,_,due,_,_,tasks,rfl⟩
    · rw [same,found]
    · have apart := unclaimed _ _ _ _ _ rfl ok
      rw [leaseRow_due due] at apart
      rw [tasks,AList.lookup_insert_ne (Ne.symm apart),found]
  · have change := exec_rows linked op taskId
    rw [found] at change
    generalize after : (exec encoding s op).tasks.lookup taskId = now at change
    cases change with
    | kept => exact ⟨row,after,token⟩
    | stepped step =>
      refine ⟨_,after,?_⟩
      rcases unclaimed_token step fun now leaseFor planContext same =>
        claims ⟨now,leaseFor,planContext,same⟩ with
        none | same
      · exact .inl none
      · rwa [same]

-- What is linked and held stays so while nobody claims the task.
theorem reaches_held {bearer : Option LeaseToken} (linked : Linked encoding s) (held : HeldBy bearer taskId s)
    (path : Reaches (exec encoding) (Unclaimed encoding taskId) s s') :
    Linked encoding s' ∧ HeldBy bearer taskId s' :=
  path.invariant (motive := fun s => Linked encoding s ∧ HeldBy bearer taskId s) ⟨linked,held⟩
    fun _ op both unclaimed => ⟨exec_linked both.1 op,exec_held both.1 op unclaimed both.2⟩

theorem held_finish {bearer : Option LeaseToken} (linked : Linked encoding s) (held : HeldBy bearer taskId s)
    (effect : exec encoding s (.finish taskId tenantId leaseToken report now planContext) ≠ s) :
    bearer = some leaseToken := by
  obtain ⟨⟨row,found,token⟩,_⟩ := finish_effective linked effect
  obtain ⟨row',found',either⟩ := held
  obtain rfl := Option.some.inj (found.symm.trans found')
  rcases either with none | same
  · simp [none] at token
  · exact same.symm.trans token

theorem lease_fencing {allowed : QueueStore → Operation → Prop} (run : Run encoding allowed s) :
    (∀ taskId row, s.tasks.lookup taskId = some row → Fenced row) ∧
    (∀ taskId row leaseToken report now planContext, s.tasks.lookup taskId = some row →
      row.status.isTerminal = false →
      row.leaseToken ≠ some leaseToken ∨ (∀ leaseUntil ∈ row.leaseUntil, leaseUntil ≤ now) →
      commit (finishTaskWithLeaseToken encoding · taskId row.tenantId leaseToken report now planContext) s =
        (.error .leaseLost,s)) ∧
    ∀ now leaseFor planContext claimed s₁ s₂,
      claimNextWithPlanContext encoding s now leaseFor planContext = .ok (some claimed,s₁) →
      Reaches (exec encoding) (Unclaimed encoding claimed.taskId) s₁ s₂ →
      ∀ tenantId leaseToken report now planContext s₃,
        s₃ = exec encoding s₂ (.finish claimed.taskId tenantId leaseToken report now planContext) → s₃ ≠ s₂ →
        claimed.leaseToken = some leaseToken ∧
        ∀ s₄, Reaches (exec encoding) (Unclaimed encoding claimed.taskId) s₃ s₄ →
          ∀ tenantId leaseToken report now planContext,
            exec encoding s₄ (.finish claimed.taskId tenantId leaseToken report now planContext) = s₄ := by
  have linked := run_linked run
  refine ⟨run_fenced run,?_,?_⟩
  · intro taskId row leaseToken report now planContext found open_ lost
    have refused := @finish_refused encoding _ _ now taskId leaseToken report planContext
      (linked.rowed taskId row found) found open_ lost
    simp only [commit,refused]
  · intro now leaseFor planContext claimed s₁ s₂ ok path tenantId leaseToken report now' planContext' s₃
      reached effect
    have linked₁ : Linked encoding s₁ := by
      have next := exec_linked linked (.claim now leaseFor planContext)
      rwa [@exec_ok encoding s s₁ (.claim now leaseFor planContext) () (storeOf_ok.mpr ⟨_,ok⟩)] at next
    have held : HeldBy claimed.leaseToken claimed.taskId s₁ := by
      rcases claim_rows linked ok with ⟨none,_⟩ | ⟨row,token,stepId,scope,_,_,_,_,tasks,answer⟩
      · cases none
      · obtain rfl := Option.some.inj answer
        refine ⟨leaseRow token stepId (now + leaseFor) now row,?_,.inr rfl⟩
        rw [tasks,show (leaseRow token stepId (now + leaseFor) now row).taskId =
          row.taskId from leaseRow_taskId]
        exact AList.lookup_insert _
    obtain ⟨linked₂,held₂⟩ := reaches_held linked₁ held path
    subst reached
    refine ⟨held_finish linked₂ held₂ effect,fun s₄ path' tenantId leaseToken report now planContext => ?_⟩
    obtain ⟨row',found,free⟩ := (finish_effective linked₂ effect).2
    have spent : HeldBy none claimed.taskId _ := ⟨row',found,.inl free⟩
    obtain ⟨linked₄,held₄⟩ := reaches_held (exec_linked linked₂ _) spent path'
    by_contra changed
    cases held_finish linked₄ held₄ changed

-- A task without a plan, claimed once, cancelled while it runs and then finished.

theorem lease_fencing_cancelled :
    (∀ report planContext, commit (finishTaskWithLeaseToken trialEncoding · ⟨7⟩ trialAdmin.tenantId ⟨9⟩ report
      (second 2) planContext) (trial (trialDirect 7 ++ [trialClaim 2])) =
        (.error .leaseLost,trial (trialDirect 7 ++ [trialClaim 2]))) ∧
    ∀ tenantId leaseToken report now planContext,
      exec trialEncoding (trial (trialDirect 7 ++ [trialClaim 2,trialCancel 7 2,trialFinish 7 1 2 none]))
        (.finish ⟨7⟩ tenantId leaseToken report now planContext) =
      trial (trialDirect 7 ++ [trialClaim 2,trialCancel 7 2,trialFinish 7 1 2 none]) := by
  constructor
  · intro report planContext
    have columns : ((trial (trialDirect 7 ++ [trialClaim 2])).tasks.lookup ⟨7⟩).map
        (fun row => (row.tenantId,row.status,row.leaseToken)) = some (trialAdmin.tenantId,.running,
          some ⟨1⟩) := by
      decide +kernel
    obtain ⟨row,found,columns⟩ := Option.map_eq_some_iff.mp columns
    simp only [Prod.mk.injEq] at columns
    rw [← columns.1]
    exact (lease_fencing (@ordinary_run _ (trialDirect 7 ++ [trialClaim 2]) rfl)).2.1 ⟨7⟩ row ⟨9⟩ report
      (second 2) planContext found (by rw [columns.2.1]; rfl) (.inl (by rw [columns.2.2]; decide))
  · have handed :
        (claimNextWithPlanContext trialEncoding (trial (trialDirect 7)) (second 2) (second 1)
        .default).toOption.map
        (fun answer => answer.1.map (·.taskId)) = some (some ⟨7⟩) := by decide +kernel
    obtain ⟨claimed,s₁,claim,taskId⟩ := handed_out handed
    have after : exec trialEncoding (trial (trialDirect 7)) (trialClaim 2) = s₁ :=
      @exec_ok _ _ _ (trialClaim 2) () (storeOf_ok.mpr ⟨_,claim⟩)
    have path : Reaches (exec trialEncoding) (Unclaimed trialEncoding claimed.taskId) s₁
        (exec trialEncoding s₁ (trialCancel 7 2)) := .step .start fun _ _ _ _ _ same => by cases same
    rw [trial_append]
    simp only [play,List.foldl_cons,List.foldl_nil,after]
    intro tenantId leaseToken report now planContext
    have changed : exec trialEncoding (exec trialEncoding s₁ (trialCancel 7 2)) (trialFinish 7 1 2 none) ≠
        exec trialEncoding s₁ (trialCancel 7 2) := by
      subst after
      intro same
      have status := congrArg (fun s => (s.tasks.lookup ⟨7⟩).map (·.status)) same
      revert status
      decide +kernel
    rw [← taskId]
    refine ((lease_fencing (@ordinary_run _ (trialDirect 7) rfl)).2.2 _ _ _ claimed s₁ _ claim path
      trialAdmin.tenantId ⟨1⟩ ⟨none,none,false,0,0⟩ (second 2) .default _ ?_ changed).2 _ .start _ _ _ _ _
    rw [taskId]
    rfl

end Shaka.Properties
