import Shaka.Api.Config
import Shaka.Plan.Reports
import Shaka.Properties.LeaseFencing

namespace Shaka.Properties
open Shaka.Core Queue Plan Store Api CheckedSteps GuardedRuns

variable {encoding : StoreEncoding} {s s' : QueueStore} {row row' : TaskRecord}

-- The lease check is the only place where a lost lease is reported.

theorem markPlanUnknownTx_spares {tx : PlanTx} {plan : PlanSpec} {stepId : Option PlanStepId}
    {stateDigest : Option String} {now : Time} :
    markPlanUnknownTx encoding tx plan stepId stateDigest now ≠ .error .leaseLost := by
  refine spares_bind ?_ fun tx _ => spares_bind ?_ fun _ _ => insertCheckpointTx_spares rfl
  · unfold markPlanStateUnknownTx
    split
    · simp
    split
    · exact appendTransitionTx_spares rfl
    · simp
  · unfold markNamedStepUnknownTx
    split
    · unfold markStepStateUnknownTx
      split
      · simp
      split
      · simp
      split
      · exact appendTransitionTx_spares rfl
      · simp
    · simp

theorem completeCompensationTx_spares {tx : PlanTx} {plan : PlanSpec} {stepId : PlanStepId}
    {result : Option String} {now : Time} :
    completeCompensationTx encoding tx plan stepId result now ≠ .error .leaseLost := by
  refine spares_bind (foldEach_spares fun _ _ => appendTransitionTx_spares rfl) fun _ _ =>
    spares_bind (insertCheckpointTx_spares rfl) fun _ _ => ?_
  dsimp only
  split
  · exact spares_bind (appendTransitionTx_spares rfl) fun _ _ => by simp
  · simp

theorem finishSucceededTx_spares {tx : PlanTx} {plan : PlanSpec} {task : TaskRecord} {stepId : PlanStepId}
    {attempts : Nat} {report : FinishReport} {claimContext : PlanClaimContext} {now : Time} :
    finishSucceededTx encoding tx plan task stepId attempts report claimContext now ≠ .error .leaseLost := by
  refine spares_bind (appendTransitionTx_spares rfl) fun _ _ =>
    spares_bind (insertCheckpointTx_spares rfl) fun _ _ => ?_
  split
  · exact completeCompensationTx_spares
  dsimp only
  split
  · exact spares_bind (appendTransitionTx_spares rfl) fun _ _ => by simp
  · simp

theorem finishFailedTx_spares {tx : PlanTx} {plan : PlanSpec} {task : TaskRecord} {stepId : PlanStepId}
    {attempts maxAttempts : Nat} {safeError : String} {report : FinishReport}
    {claimContext : PlanClaimContext} {now : Time} :
    finishFailedTx encoding tx plan task stepId attempts maxAttempts safeError report claimContext now ≠
      .error .leaseLost := by
  refine spares_bind (appendTransitionTx_spares rfl) fun _ _ =>
    spares_bind (insertCheckpointTx_spares rfl) fun _ _ => ?_
  split
  · exact spares_bind markPlanUnknownTx_spares fun _ _ => by simp
  split
  · exact spares_bind (appendTransitionTx_spares rfl) fun _ _ => by simp
  · exact spares_bind (stepIf_spares (appendTransitionTx_spares rfl)) fun _ _ => by simp

theorem finishPlannedStepTx_spares {tx : PlanTx} {task : TaskRecord} {reference : PlanTaskReference}
    {report : FinishReport} {claimContext : PlanClaimContext} {now : Time} :
    finishPlannedStepTx encoding tx task reference report claimContext now ≠ .error .leaseLost := by
  refine spares_bind (loadPlanTx_spares rfl) fun _ _ => spares_bind (by simp) fun _ _ =>
      spares_bind (by simp) fun _ _ =>
    spares_bind (by simp) fun _ _ => spares_bind (by simp) fun _ _ => ?_
  split
  · exact spares_bind markPlanUnknownTx_spares fun _ _ => by simp
  · refine spares_bind ?_ fun judgement _ => ?_
    · unfold judgeStep
      split
      · simp
      · refine spares_bind (loadStepStatesTx_spares rfl) fun _ _ => ?_
        dsimp only
        split <;> simp
    · split
      · exact finishSucceededTx_spares
      · exact finishFailedTx_spares

theorem finish_accepted {taskId : TaskId} {leaseToken : LeaseToken} {report : FinishReport} {now : Time}
    {planContext : PlanClaimContext} (rowed : Rowed taskId row) (found : s.tasks.lookup taskId = some row)
    (held : row.leaseToken = some leaseToken) (unexpired : ∃ leaseUntil ∈ row.leaseUntil, now < leaseUntil) :
    finishTaskWithLeaseToken encoding s taskId row.tenantId leaseToken report now planContext ≠
      .error .leaseLost := by
  have loaded : loadTask encoding s taskId row.tenantId = .ok row := loadTask_ok.mpr ⟨found,rfl,rowed.checked⟩
  simp only [finishTaskWithLeaseToken,loaded,ok_bind]
  split
  · simp
  · rw [require_pos _ ⟨held,unexpired⟩,ok_bind]
    split
    · refine spares_bind (taskReference_spares rfl) fun _ _ => spares_bind ?_ fun _ _ =>
        spares_bind finishPlannedStepTx_spares fun _ _ => by simp
      exact spares_bind (by simp) fun _ _ => by simp
    · simp

-- What can happen while the claimed task is executed: anything at all, but no
-- recovery later than the deadline, and neither the finish that ends the
-- execution nor a decision of an operator on the plan of the task.
def Executing (deadline : Time) (claimed : TaskRecord) (_ : QueueStore) : Operation → Prop
  | .recoverExpiredLeases now => now ≤ deadline
  | .finish taskId _ leaseToken _ _ _ => taskId = claimed.taskId → claimed.leaseToken ≠ some leaseToken
  | .resolvePlanUnknown request _ => claimed.planId ≠ some request.planId
  | _ => True

-- The lease that was handed out with the task is the one its row has.
def Holding (claimed : TaskRecord) (s : QueueStore) : Prop :=
  ∃ row, s.tasks.lookup claimed.taskId = some row ∧ row.leaseToken = claimed.leaseToken ∧
    row.leaseUntil = claimed.leaseUntil ∧ row.planId = claimed.planId ∧ row.tenantId = claimed.tenantId ∧
    row.status.isLeased = true

theorem cancelRow_leased (leased : row.status.isLeased = true) (now : Time) :
    (cancelRow now row).leaseToken = row.leaseToken ∧ (cancelRow now row).leaseUntil = row.leaseUntil ∧
    (cancelRow now row).status.isLeased = true := by
  unfold cancelRow
  cases status : row.status with
  | running | cancelRequested => exact ⟨rfl,rfl,rfl⟩
  | queued | succeeded | failed | cancelled =>
    rw [status] at leased
    cases leased

theorem exec_holding {claimed : TaskRecord} {deadline : Time} (linked : Linked encoding s) (op : Operation)
    (within : ∀ leaseUntil ∈ claimed.leaseUntil, deadline < leaseUntil)
    (executing : Executing deadline claimed s op) (holding : Holding claimed s) :
    Holding claimed (exec encoding s op) := by
  obtain ⟨row,found,token,expiry,planId,tenantId,leased⟩ := holding
  have change := exec_rows linked op claimed.taskId
  rw [found] at change
  generalize after : (exec encoding s op).tasks.lookup claimed.taskId = changed at change
  cases change with
  | kept => exact ⟨row,after,token,expiry,planId,tenantId,leased⟩
  | stepped step =>
    cases step with
    | claimed due =>
      simp only [isDue,Bool.and_eq_true,beq_iff_eq] at due
      rw [due.1.1] at leased
      cases leased
    | finished _ held =>
      rw [held] at token
      exact absurd token.symm (executing (linked.rowed _ _ found).taskId)
    | @cancelled cancelledAt =>
      obtain ⟨sameToken,sameExpiry,still⟩ := cancelRow_leased leased cancelledAt
      have same := (cancelRow_identity cancelledAt row).1
      exact ⟨_,after,sameToken.trans token,sameExpiry.trans expiry,same.planId.trans planId,
        same.tenantId.trans tenantId,still⟩
    | recovered expired | expired expired =>
      simp only [isExpired,Bool.and_eq_true,decide_eq_true_eq] at expired
      obtain ⟨_,leaseUntil,listed,past⟩ := expired
      rw [expiry] at listed
      exact absurd (within leaseUntil listed) (not_lt.mpr (past.trans executing))
    | resolved planned => exact absurd (planId.symm.trans planned) executing

-- The lease covers the execution that `claimed` was handed out for at `now`, with
-- the store as it was then: whatever happens up to the deadline of its budget, the
-- finish is not refused as one that lost its lease, and no claim hands the task out.
def LeaseCovers (encoding : StoreEncoding) (now : Time) (claimed : TaskRecord) (s : QueueStore) : Prop :=
  ∀ s', Reaches (exec encoding) (Executing (now + elapsedLimit claimed.envelope.budget) claimed) s s' →
    (∀ leaseToken report finished planContext, claimed.leaseToken = some leaseToken →
      finished ≤ now + elapsedLimit claimed.envelope.budget →
      finishTaskWithLeaseToken encoding s' claimed.taskId claimed.tenantId leaseToken report finished
        planContext ≠ .error .leaseLost) ∧
    ∀ later leaseFor planContext other next,
      claimNextWithPlanContext encoding s' later leaseFor planContext = .ok (some other,next) →
      other.taskId ≠ claimed.taskId

-- What a claim hands out is held in the store that it leaves.
theorem claim_holding {now leaseFor : Time} {planContext : PlanClaimContext} {claimed : TaskRecord}
    (linked : Linked encoding s)
    (ok : claimNextWithPlanContext encoding s now leaseFor planContext = .ok (some claimed,s')) :
    Linked encoding s' ∧ Holding claimed s' ∧ claimed.leaseUntil = some (now + leaseFor) ∧
    ∃ leaseToken, claimed.leaseToken = some leaseToken := by
  refine ⟨?_,?_⟩
  · have next := exec_linked linked (.claim now leaseFor planContext)
    rwa [@exec_ok encoding s s' (.claim now leaseFor planContext) () (storeOf_ok.mpr ⟨_,ok⟩)] at next
  rcases claim_rows linked ok with ⟨none,_⟩ | ⟨row,token,stepId,scope,_,due,_,_,tasks,answer⟩
  · cases none
  obtain rfl := Option.some.inj answer
  have leased := @leaseRow_due row now token stepId (now + leaseFor) due
  refine ⟨⟨leaseRow token stepId (now + leaseFor) now row,?_,rfl,rfl,rfl,rfl,?_⟩,?_,token,?_⟩
  · rw [tasks,show (leaseRow token stepId (now + leaseFor) now row).taskId = row.taskId from leaseRow_taskId]
    exact AList.lookup_insert _
  all_goals rw [leased]
  rfl

theorem holding_covers {deadline : Time} {claimed : TaskRecord} (linked : Linked encoding s)
    (holding : Holding claimed s) (within : ∀ leaseUntil ∈ claimed.leaseUntil, deadline < leaseUntil)
    (path : Reaches (exec encoding) (Executing deadline claimed) s s') :
    Linked encoding s' ∧ Holding claimed s' :=
  path.invariant (motive := fun s => Linked encoding s ∧ Holding claimed s) ⟨linked,holding⟩
    fun _ op both executing => ⟨exec_linked both.1 op,exec_holding both.1 op within executing both.2⟩

theorem lease_covers {allowed : QueueStore → Operation → Prop} {config : ApiConfig} {now : Time}
    {planContext : PlanClaimContext} {claimed : TaskRecord} (run : Run encoding allowed s)
    (ok : claimNextWithPlanContext encoding s now config.leaseFor planContext = .ok (some claimed,s')) :
    LeaseCovers encoding now claimed s' ↔ elapsedLimit claimed.envelope.budget < config.leaseFor := by
  obtain ⟨linked,holding,expiry,leaseToken,token⟩ := claim_holding (run_linked run) ok
  constructor
  · intro covers
    by_contra short
    obtain ⟨row,found,rowToken,rowExpiry,_,tenantId,leased⟩ := holding
    -- the finish at the very end of the lease is within the deadline
    have inTime := Int.add_le_add_left (not_lt.mp short) now
    refine (covers s' .start).1 leaseToken ⟨none,none,false,0,
      0⟩ (now + config.leaseFor) planContext token inTime ?_
    rw [← tenantId]
    refine finish_refused (linked.rowed _ _ found) found ?_ (.inr ?_)
    · cases status : row.status <;> simp_all [TaskStatus.isLeased,TaskStatus.isTerminal]
    · simp [rowExpiry,expiry]
  · intro longer s₂ path
    have within :
        ∀ leaseUntil ∈ claimed.leaseUntil, now + elapsedLimit claimed.envelope.budget < leaseUntil := by
      rw [expiry]
      rintro _ ⟨⟩
      exact Int.add_lt_add_left longer now
    obtain ⟨linked₂,row,found,rowToken,rowExpiry,_,tenantId,leased⟩ :=
      holding_covers linked holding within path
    refine ⟨fun leaseToken report finished planContext named inTime =>
      ?_,fun later leaseFor planContext other next handed same => ?_⟩
    · rw [← tenantId]
      refine finish_accepted (linked₂.rowed _ _ found) found (rowToken.trans named) ⟨_,
        rowExpiry.trans expiry,?_⟩
      exact inTime.trans_lt (Int.add_lt_add_left longer now)
    · rcases claim_rows linked₂ handed with ⟨none,_⟩ | ⟨queued,_,_,_,listed,due,_,_,_,answer⟩
      · cases none
      obtain rfl := Option.some.inj answer
      have taken : queued.taskId = claimed.taskId := leaseRow_taskId.symm.trans same
      rw [taken,found] at listed
      obtain rfl := Option.some.inj listed
      simp only [isDue,Bool.and_eq_true,beq_iff_eq] at due
      rw [due.1.1] at leased
      cases leased

theorem lease_covers_default : ∃ claimed s', claimed.envelope.budget = .default ∧
    claimNextWithPlanContext trialEncoding (trial (trialDirect 7)) (second 2) ApiConfig.default.leaseFor
      .default = .ok (some claimed,s') ∧ LeaseCovers trialEncoding (second 2) claimed s' := by
  have evaluated :
      (claimNextWithPlanContext trialEncoding (trial (trialDirect 7)) (second 2) ApiConfig.default.leaseFor
      .default).toOption.map (fun answer => answer.1.map (·.envelope.budget)) =
        some (some .default) := by decide +kernel
  obtain ⟨claimed,s',claim,budget⟩ := handed_out evaluated
  refine ⟨claimed,s',budget,claim,(lease_covers (@ordinary_run _ (trialDirect 7) rfl) claim).mpr ?_⟩
  rw [budget]
  decide

-- A budget of two minutes under the default configuration: the result of a minute
-- and a half is refused, and the task is handed out again before the deadline.

def longBudget : ExecutionBudget := {ExecutionBudget.default with maxElapsedMs:=120000}

def longRun : List Operation :=
  (trialDirect 7).map (trialBudgeted longBudget) ++ [.claim (second 2) ApiConfig.default.leaseFor .default]

theorem lease_covers_outlived : ApiConfig.default.validate = .ok () ∧ longBudget.validate = .ok () ∧
    second 92 ≤ second 2 + elapsedLimit longBudget ∧
    ((trial longRun).tasks.lookup ⟨7⟩).map (fun row => (row.envelope.budget,row.leaseToken)) =
      some (longBudget,some ⟨1⟩) ∧
    (finishTaskWithLeaseToken trialEncoding (trial longRun) ⟨7⟩ trialAdmin.tenantId ⟨1⟩ ⟨none,none,false,0,
      0⟩ (second 92) .default).map (·.1) = .error .leaseLost ∧
    (claimNextWithPlanContext trialEncoding (exec trialEncoding (trial longRun)
      (.recoverExpiredLeases (second 92))) (second 92)
      ApiConfig.default.leaseFor .default).toOption.map (fun answer => answer.1.map (·.taskId)) =
        some (some ⟨7⟩) := by
  refine ⟨by decide,by decide,by decide,?_,?_,?_⟩
  · decide +kernel
  · decide +kernel
  · decide +kernel

end Shaka.Properties
