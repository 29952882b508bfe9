import Shaka.Store.Linked

namespace Shaka.Properties
open Shaka.Core Queue Plan Store CheckedSteps GuardedRuns

variable {encoding : StoreEncoding} {s s' : QueueStore} {row row' : TaskRecord} {taskId : TaskId}

-- A task without a plan on which a cancel request was recorded.
structure Stopped (row : TaskRecord) : Prop where
  direct : row.planId = none
  requested : row.cancelRequested = true
  status : row.status = .cancelRequested ∨ row.status = .cancelled

theorem rowStep_stopped {op : Operation} (step : RowStep op row row') (stopped : Stopped row) :
    Stopped row' := by
  have planId := step.identity.planId.trans stopped.direct
  cases step with
  | claimed due =>
    simp only [isDue,Bool.and_eq_true,beq_iff_eq] at due
    rcases stopped.status with status | status <;> simp [status] at due
  | finished _ _ _ ended =>
    cases ended with
    | cancelled => exact ⟨planId,rfl,.inr rfl⟩
    | closed unrequested => exact absurd (.inl stopped.requested) unrequested
    | requeued unrequested => exact absurd (.inl stopped.requested) unrequested
  | cancelled open_ =>
    refine ⟨planId,?_,?_⟩ <;> rcases stopped.status with status | status
    · simp [cancelRow,status]
    · simp [status,TaskStatus.isTerminal] at open_
    · simp [cancelRow,status]
    · simp [status,TaskStatus.isTerminal] at open_
  | recovered =>
    refine ⟨planId,?_,.inr ?_⟩ <;> simp [recoverDirect,taskUpdate,stopped.requested,releaseRow]
  | expired _ planned => exact absurd stopped.direct planned
  | resolved planned => exact absurd stopped.direct (by simp [planned])

-- The row is there and stopped.
def StoppedAt (taskId : TaskId) (s : QueueStore) : Prop := ∃ row, s.tasks.lookup taskId = some row ∧
    Stopped row

theorem exec_stopped (linked : Linked encoding s) (op : Operation) (stopped : StoppedAt taskId s) :
    StoppedAt taskId (exec encoding s op) := by
  obtain ⟨row,found,stopped⟩ := stopped
  have change := exec_rows linked op taskId
  rw [found] at change
  generalize after : (exec encoding s op).tasks.lookup taskId = now at change
  cases change with
  | kept => exact ⟨row,after,stopped⟩
  | stepped step => exact ⟨_,after,rowStep_stopped step stopped⟩

theorem cancelRow_stopped (direct : row.planId = none) (open_ : row.status.isTerminal = false) (now : Time) :
    Stopped (cancelRow now row) := by
  cases status : row.status with
  | queued | running | cancelRequested =>
    exact ⟨(cancelRow_identity now row).1.planId.trans direct,by simp [cancelRow,status],by
      simp [cancelRow,status]⟩
  | succeeded | failed | cancelled => simp [status,TaskStatus.isTerminal] at open_

-- Claims hand out queued tasks only.
theorem claim_queued {now leaseFor : Time} {planContext : PlanClaimContext} {claimed : TaskRecord}
    (linked : Linked encoding s)
    (ok : claimNextWithPlanContext encoding s now leaseFor planContext = .ok (some claimed,s')) :
    ∃ row, s.tasks.lookup claimed.taskId = some row ∧ row.status = .queued := by
  rcases claim_rows linked ok with ⟨none,_⟩ | ⟨row,_,_,_,found,due,_,_,_,answer⟩
  · cases none
  · obtain rfl := Option.some.inj answer
    simp only [isDue,Bool.and_eq_true,beq_iff_eq] at due
    exact ⟨row,(congrArg s.tasks.lookup leaseRow_taskId).trans found,due.1.1⟩

theorem cancellation_kept {allowed continued : QueueStore → Operation → Prop} (run : Run encoding allowed s)
    {tenantId : TenantId} {now : Time} {answer : TaskRecord} {s₁ s₂ : QueueStore}
    (found : s.tasks.lookup taskId = some row) (direct : row.planId = none)
    (open_ : row.status.isTerminal = false)
    (ok : requestCancel encoding s taskId tenantId now = .ok (answer,s₁))
    (path : Reaches (exec encoding) continued s₁ s₂) :
    (∃ row₂, s₂.tasks.lookup taskId = some row₂ ∧ (row₂.status = .cancelRequested ∨
      row₂.status = .cancelled)) ∧ ∀ now leaseFor planContext claimed s₃,
      claimNextWithPlanContext encoding s₂ now leaseFor planContext = .ok (some claimed,s₃) →
      claimed.taskId ≠ taskId := by
  have linked := run_linked run
  have linked₁ : Linked encoding s₁ := by
    have next := exec_linked linked (.requestCancel taskId tenantId now)
    rwa [@exec_ok encoding s s₁ (.requestCancel taskId tenantId now) () (storeOf_ok.mpr ⟨_,ok⟩)] at next
  have stopped₁ : StoppedAt taskId s₁ := by
    rcases cancel_rows linked ok with ⟨⟨row',found',terminal⟩,_⟩ | ⟨row',found',_,_,_,tasks⟩
    · obtain rfl := Option.some.inj (found.symm.trans found')
      simp [open_] at terminal
    · obtain rfl := Option.some.inj (found.symm.trans found')
      exact ⟨_,by rw [tasks,AList.lookup_insert],cancelRow_stopped direct open_ now⟩
  obtain ⟨linked₂,row₂,found₂,stopped₂⟩ := path.invariant (motive := fun s => Linked encoding s ∧
    StoppedAt taskId s)
    ⟨linked₁,stopped₁⟩ fun _ op both _ => ⟨exec_linked both.1 op,exec_stopped both.1 op both.2⟩
  refine ⟨⟨row₂,found₂,stopped₂.status⟩,fun now leaseFor planContext claimed s₃ ok same => ?_⟩
  obtain ⟨row,found,queued⟩ := claim_queued linked₂ ok
  rw [same] at found
  obtain rfl := Option.some.inj (found₂.symm.trans found)
  rcases stopped₂.status with status | status <;> simp [status] at queued

-- A running task whose worker reports success after the cancel request.
theorem cancellation_kept_running : ∃ row,
    (trial (trialDirect 7 ++ [trialClaim 2,trialCancel 7 2,trialFinish 7 1 2 none])).tasks.lookup ⟨7⟩ =
      some row ∧ (row.status = .cancelRequested ∨ row.status = .cancelled) := by
  have columns : ((trial (trialDirect 7 ++ [trialClaim 2])).tasks.lookup ⟨7⟩).map
      (fun row => (row.planId,row.status)) = some (none,.running) := by decide +kernel
  obtain ⟨row,found,columns⟩ := Option.map_eq_some_iff.mp columns
  simp only [Prod.mk.injEq] at columns
  have answered :
      (requestCancel trialEncoding (trial (trialDirect 7 ++ [trialClaim 2])) ⟨7⟩ trialAdmin.tenantId
      (second 2)).isOk = true := by decide +kernel
  cases cancel : requestCancel trialEncoding (trial (trialDirect 7 ++ [trialClaim 2])) ⟨7⟩ trialAdmin.tenantId
      (second 2) with
  | error e => simp [cancel,Except.isOk,Except.toBool] at answered
  | ok answer =>
    have after : exec trialEncoding (trial (trialDirect 7 ++ [trialClaim 2])) (trialCancel 7 2) = answer.2 :=
      @exec_ok _ _ _ (trialCancel 7 2) () (storeOf_ok.mpr ⟨_,cancel⟩)
    have path : Reaches (exec trialEncoding) Ordinary answer.2
        (trial (trialDirect 7 ++ [trialClaim 2,trialCancel 7 2,trialFinish 7 1 2 none])) := by
      rw [← after]
      exact .step .start rfl
    exact (cancellation_kept (@ordinary_run _ (trialDirect 7 ++ [trialClaim 2]) rfl) found columns.1
      (by rw [columns.2]; rfl) cancel path).1

-- Attempts. The recovery of expired leases requeues a task without looking at
-- its attempts; the bound holds where it takes up no task on its last one.

def AttemptsLeft (s : QueueStore) : Operation → Prop
  | .recoverExpiredLeases now => ∀ row ∈ recoveryCandidates s now,
      row.planId = none → row.cancelRequested = false → row.attempts < row.maxAttempts
  | _ => True

structure Bounded (row : TaskRecord) : Prop where
  attempts : row.attempts ≤ row.maxAttempts
  queued : row.status = .queued → row.attempts < row.maxAttempts

theorem recoverDirect_bounded {now : Time} (bounded : Bounded row)
    (left : row.cancelRequested = false → row.attempts < row.maxAttempts) :
    Bounded ((recoverDirect row now).set row) := by
  unfold recoverDirect taskUpdate
  simp only
  split
  · exact ⟨bounded.attempts,fun queued => (by cases queued)⟩
  · next unrequested => exact ⟨bounded.attempts,fun _ => left (by simpa using unrequested)⟩

theorem cancelRow_bounded {now : Time} (bounded : Bounded row) (direct : row.planId = none)
    (open_ : row.status.isTerminal = false) : Bounded (cancelRow now row) := by
  obtain ⟨same,attempts,_⟩ := cancelRow_identity now row
  refine ⟨by rw [attempts,same.maxAttempts]; exact bounded.attempts,fun queued => ?_⟩
  rcases (cancelRow_stopped direct open_ now).status with status | status <;> simp [status] at queued

theorem rowStep_bounded {op : Operation} (step : RowStep op row row') (direct : row.planId = none)
    (recovers : ∀ now, op ≠ .recoverExpiredLeases now) (bounded : Bounded row) : Bounded row' := by
  cases step with
  | claimed due =>
    have queued : row.status = .queued := by
      simp only [isDue,Bool.and_eq_true,beq_iff_eq] at due
      exact due.1.1
    rw [leaseRow_due due]
    exact ⟨bounded.queued queued,fun queued => (by cases queued)⟩
  | finished _ _ _ ended =>
    cases ended with
    | cancelled => exact ⟨bounded.attempts,fun queued => (by cases queued)⟩
    | closed _ status =>
      refine ⟨bounded.attempts,fun queued => ?_⟩
      rcases status with rfl | rfl <;> cases queued
    | requeued _ left => exact ⟨bounded.attempts,fun _ => left direct⟩
  | cancelled open_ => exact cancelRow_bounded bounded direct open_
  | recovered => exact absurd rfl (recovers _)
  | expired _ planned => exact absurd direct planned
  | resolved planned => exact absurd direct (by simp [planned])

def DirectBounded (s : QueueStore) : Prop :=
  ∀ taskId row, s.tasks.lookup taskId = some row → row.planId = none → Bounded row

theorem exec_bounded (linked : Linked encoding s) (op : Operation) (left : AttemptsLeft s op)
    (bounded : DirectBounded s) : DirectBounded (exec encoding s op) := by
  intro taskId row' found direct
  have before := bounded taskId
  by_cases recovers : ∃ now, op = .recoverExpiredLeases now
  · obtain ⟨now,rfl⟩ := recovers
    rcases exec_cases encoding s (.recoverExpiredLeases now) with same | ok
    · exact before row' (same ▸ found) direct
    obtain ⟨answer,ok⟩ := storeOf_ok.mp ok
    rcases recover_rows linked ok taskId with same | ⟨row,chosen,was,_,changed⟩
    · exact before row' (same ▸ found) direct
    obtain rfl := Option.some.inj (found.symm.trans changed)
    split at direct
    · next plain =>
      rw [if_pos plain]
      exact recoverDirect_bounded (before row was plain) (left row chosen plain)
    · next planned => exact absurd direct planned
  · have change := exec_rows linked op taskId
    rw [found] at change
    generalize s.tasks.lookup taskId = was at change before
    cases change with
    | kept => exact before row' rfl direct
    | entered _ checked =>
      simp only [checkTaskRow,bind_ok,require_ok] at checked
      obtain ⟨_,_,_,_,_,_,_,_,_,_,_,_,positive,_⟩ := checked
      exact ⟨Nat.zero_le _,fun _ => Nat.pos_of_ne_zero positive⟩
    | stepped step =>
      have plain := step.identity.planId.symm.trans direct
      exact rowStep_bounded step plain (fun now same => recovers ⟨now,same⟩) (before _ rfl plain)

theorem attempts_bounded (run : Run encoding AttemptsLeft s) :
    ∀ taskId row, s.tasks.lookup taskId = some row → row.planId = none → row.attempts ≤ row.maxAttempts := by
  have bounded : DirectBounded s := by
    refine run.invariant_under (fun _ reached => run_linked reached) ?_
      fun s op linked bounded left => exec_bounded linked op left bounded
    intro taskId row found
    cases found
  exact fun taskId row found direct => (bounded taskId row found direct).attempts

theorem attempts_bounded_claimed : ∃ row,
    (trial (trialDirect 7 ++ [trialClaim 2,.recoverExpiredLeases (second 2)])).tasks.lookup ⟨7⟩ = some row ∧
    row.attempts = 1 ∧ row.attempts ≤ row.maxAttempts := by
  have columns :
      ((trial (trialDirect 7 ++ [trialClaim 2,.recoverExpiredLeases (second 2)])).tasks.lookup ⟨7⟩).map
      (fun row => (row.planId,row.attempts)) = some (none,1) := by decide +kernel
  obtain ⟨row,found,columns⟩ := Option.map_eq_some_iff.mp columns
  simp only [Prod.mk.injEq] at columns
  refine ⟨row,found,columns.2,attempts_bounded (play_reaches ?_) ⟨7⟩ row found columns.1⟩
  refine ⟨trivial,trivial,trivial,trivial,?_,trivial⟩
  simp only [AttemptsLeft]
  decide +kernel

-- One attempt is allowed; its worker dies and the task is claimed again.
theorem attempts_bounded_overrun : ¬ ∀ s, Run trialEncoding Ordinary s →
    ∀ taskId row, s.tasks.lookup taskId = some row → row.planId = none → row.attempts ≤ row.maxAttempts := by
  intro bounded
  have columns :
      ((trial (trialDirect 7 ++ [trialClaim 2,.recoverExpiredLeases (second 5),trialClaim 6])).tasks.lookup
      ⟨7⟩).map (fun row => (row.planId,row.attempts,row.maxAttempts)) = some (none,2,1) := by decide +kernel
  obtain ⟨row,found,columns⟩ := Option.map_eq_some_iff.mp columns
  simp only [Prod.mk.injEq] at columns
  have overrun := bounded _ (ordinary_run rfl) ⟨7⟩ row found columns.1
  omega

end Shaka.Properties
