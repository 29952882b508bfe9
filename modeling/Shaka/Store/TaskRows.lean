import Shaka.Store.Runs

namespace Shaka.Store
open Shaka.Core Queue Plan CheckedSteps GuardedRuns

variable {encoding : StoreEncoding} {s s' : QueueStore}

-- The rows of the task table, whatever the plans are doing: each operation makes
-- of a row what one of a few updates makes of it.

-- A cancel request was recorded on the row.
def Requested (row : TaskRecord) : Prop := row.cancelRequested = true ∨ row.status = .cancelRequested

-- The end of a lease, as `finish` writes it for direct and for planned tasks.
inductive Ended (now : Time) (row : TaskRecord) : TaskRecord → Prop
  | cancelled : Requested row →
      Ended now row (unbindStep {releaseRow .cancelled now row with cancelRequested:=true,completedAt:=some now})
  | closed : ¬ Requested row → status = .succeeded ∨ status = .failed →
      Ended now row (unbindStep (closeRow status result lastError now row))
  | requeued : ¬ Requested row → (row.planId = none → row.attempts < row.maxAttempts) →
      Ended now row (unbindStep (requeueRow lastError nextAttemptAt now row))

def expiredRow (now : Time) (row : TaskRecord) : TaskRecord :=
  unbindStep {releaseRow (if row.cancelRequested then .cancelled else .failed) now row with
    completedAt:=some now,lastError:=some "lease planejada expirada; estado requer resolução"}

def resolvedRow (decision : PlanResolutionDecision) (now : Time) (row : TaskRecord) : TaskRecord :=
  match decision with
  | .resume | .compensate => unbindStep {releaseRow .queued now row with
      cancelRequested:=false,lastError:=none,completedAt:=none}
  | .cancel => unbindStep {releaseRow .cancelled now row with
      cancelRequested:=true,lastError:=some "plano unknown cancelado por operador",completedAt:=some now}

inductive RowStep : Operation → TaskRecord → TaskRecord → Prop
  | claimed : isDue now row = true → (row.planId = none → stepId = none) →
      checkTaskRow (leaseRow token stepId (now + leaseFor) now row) = .ok () →
      RowStep (.claim now leaseFor planContext) row (leaseRow token stepId (now + leaseFor) now row)
  | finished : row.status.isTerminal = false → row.leaseToken = some leaseToken →
      (∃ leaseUntil ∈ row.leaseUntil, now < leaseUntil) → Ended now row row' →
      RowStep (.finish row.taskId row.tenantId leaseToken report now planContext) row row'
  | cancelled : row.status.isTerminal = false →
      RowStep (.requestCancel row.taskId row.tenantId now) row (cancelRow now row)
  | recovered : isExpired now row = true → row.planId = none →
      RowStep (.recoverExpiredLeases now) row ((recoverDirect row now).set row)
  | expired : isExpired now row = true → row.planId ≠ none →
      RowStep (.recoverExpiredLeases now) row (expiredRow now row)
  | resolved : row.planId = some request.planId → row.tenantId = request.principal.tenantId →
      RowStep (.resolvePlanUnknown request now) row (resolvedRow request.decision now row)

inductive RowChange : Operation → Option TaskRecord → Option TaskRecord → Prop
  | kept : RowChange op found found
  | entered : envelope.budget = request.envelope.budget →
      checkTaskRow (newTask request envelope clock.now) = .ok () →
      RowChange (.submit request clock) none (some (newTask request envelope clock.now))
  | stepped : RowStep op row row' → RowChange op (some row) (some row')

-- Rows that are well formed, and planned tasks that find the plan they are for.
structure Linked (encoding : StoreEncoding) (s : QueueStore) : Prop where
  filed : ∀ key rows, s.plans.lookup key = some rows → Filed encoding key rows
  rowed : ∀ taskId row, s.tasks.lookup taskId = some row → Rowed taskId row
  joined : ∀ taskId row key, s.tasks.lookup taskId = some row → planKeyOf row = some key →
    ∃ rows, s.plans.lookup key = some rows ∧ Joined row rows

variable {row row' : TaskRecord} {now : Time}

-- A row without a step is not changed by unbinding it.
theorem Ended.free {ended : TaskRecord} (free : ended.planStepId = none) (unbound : Ended now row (unbindStep ended)) :
    Ended now row ended := by
  cases ended
  cases free
  exact unbound

theorem finishDirect_ended (report : FinishReport) (now : Time) (free : row.planStepId = none) :
    Ended now row ((finishDirect row report now).2.set row) := by
  unfold finishDirect
  split
  · next requested => exact .free free (.cancelled requested)
  next unrequested =>
  split
  · next again => exact .free free (.requeued unrequested fun _ => again.2)
  split
  · exact .free free (.closed unrequested (.inr rfl))
  · exact .free free (.closed unrequested (.inl rfl))

theorem completeCompensationTx_ended {tx : PlanTx} {plan : PlanSpec} {x : PlanStepId} {result : Option String}
    {effect : FinishEffect} (unrequested : ¬ Requested row) (planned : row.planId ≠ none)
    (ok : completeCompensationTx encoding tx plan x result now = .ok effect) :
    (effect.2.2.taskId = plan.taskId ∧ effect.2.2.tenantId = plan.tenantId) ∧
    Ended now row (effect.2.2.set row) := by
  simp only [completeCompensationTx,bind_ok] at ok
  obtain ⟨_,_,_,_,ok⟩ := ok
  split at ok
  · simp only [bind_ok,pure_ok] at ok
    obtain ⟨_,_,rfl⟩ := ok
    exact ⟨⟨rfl,rfl⟩,.closed unrequested (.inr rfl)⟩
  · cases ok
    exact ⟨⟨rfl,rfl⟩,.requeued unrequested fun direct => absurd direct planned⟩

theorem finishPlannedStepTx_ended {tx tx' : PlanTx} {reference : PlanTaskReference} {report : FinishReport}
    {claimContext : PlanClaimContext} {outcome : FinishOutcome} {update : TaskUpdate}
    (bound : Bound row tx.rows) (planned : row.planId ≠ none)
    (ok : finishPlannedStepTx encoding tx row reference report claimContext now = .ok (outcome,tx',update)) :
    update.taskId = row.taskId ∧ update.tenantId = row.tenantId ∧ Ended now row (update.set row) := by
  simp only [finishPlannedStepTx,bind_ok] at ok
  obtain ⟨plan,loaded,_,_,_,_,_,_,_,_,ok⟩ := ok
  obtain rfl := (loadPlanTx_ok.mp loaded).1
  split at ok
  · next requested =>
    simp only [finishCancelledTx,bind_ok,pure_ok,Prod.mk.injEq] at ok
    obtain ⟨_,_,_,_,rfl⟩ := ok
    exact ⟨rfl,rfl,.cancelled requested⟩
  next unrequested =>
  have direct : row.planId = none → row.attempts < row.maxAttempts := fun direct => absurd direct planned
  obtain ⟨judgement,_,ok⟩ := bind_ok.mp ok
  split at ok
  · simp only [finishSucceededTx,bind_ok] at ok
    obtain ⟨_,_,_,_,ok⟩ := ok
    split at ok
    · obtain ⟨⟨taskId,tenantId⟩,ended⟩ := completeCompensationTx_ended unrequested planned ok
      exact ⟨taskId.trans bound.taskId,tenantId.trans bound.tenantId,ended⟩
    split at ok
    · simp only [bind_ok,pure_ok,Prod.mk.injEq] at ok
      obtain ⟨_,_,_,_,rfl⟩ := ok
      exact ⟨rfl,rfl,.closed unrequested (.inl rfl)⟩
    · cases ok
      exact ⟨rfl,rfl,.requeued unrequested direct⟩
  · simp only [finishFailedTx,bind_ok] at ok
    obtain ⟨_,_,_,_,ok⟩ := ok
    split at ok
    · simp only [bind_ok,pure_ok,Prod.mk.injEq] at ok
      obtain ⟨_,_,_,_,rfl⟩ := ok
      exact ⟨rfl,rfl,.closed unrequested (.inr rfl)⟩
    split at ok
    · simp only [bind_ok,pure_ok,Prod.mk.injEq] at ok
      obtain ⟨_,_,_,_,rfl⟩ := ok
      exact ⟨rfl,rfl,.requeued unrequested direct⟩
    · simp only [bind_ok,pure_ok,Prod.mk.injEq] at ok
      obtain ⟨_,_,_,_,rfl⟩ := ok
      exact ⟨rfl,rfl,.closed unrequested (.inr rfl)⟩

theorem claim_rows {leaseFor : Time} {planContext : PlanClaimContext} {answer : Option TaskRecord}
    (linked : Linked encoding s)
    (ok : claimNextWithPlanContext encoding s now leaseFor planContext = .ok (answer,s')) :
    (answer = none ∧ s' = s) ∨ ∃ row token stepId scope, s.tasks.lookup row.taskId = some row ∧
    isDue now row = true ∧
      (row.planId = none → stepId = none) ∧ checkTaskRow (leaseRow token stepId (now + leaseFor) now row) =
        .ok () ∧ s'.tasks = s.tasks.insert row.taskId (leaseRow token stepId (now + leaseFor) now row) ∧
      answer = some {leaseRow token stepId (now + leaseFor) now row with planExecutionScope:=scope} := by
  simp only [claimNextWithPlanContext,bind_ok,require_ok,exists_const] at ok
  rcases claimFirst_parts ok.2 with ⟨none,same,_⟩ |
    ⟨skipped,row,rest,task,bound,prepared,claimed,order,_,preparation,leased,answered⟩
  · exact .inl ⟨none,same⟩
  have listed : row ∈ claimCandidates s now := by simp [order]
  obtain ⟨_,due⟩ := mem_claimCandidates listed
  have present := candidate_listed (fun taskId task found => (linked.rowed taskId task found).taskId) listed
  obtain ⟨found,_,_,outcome⟩ := prepareCandidate_parts preparation
  obtain rfl := Option.some.inj (present.symm.trans found)
  rcases outcome with ⟨direct,rfl,rfl⟩ | ⟨reference,rows,step,tx',named,stored,granted,rfl,rfl⟩
  · obtain ⟨_,made,checked,rfl,claimed⟩ := leaseTask_parts found leased
    subst made
    exact .inr ⟨row,_,_,_,present,due,fun _ => rfl,checked,rfl,answered.trans (congrArg some claimed)⟩
  · obtain ⟨_,made,checked,rfl,claimed⟩ := leaseTask_parts (s := s.storePlan _ tx') found leased
    subst made
    have planned : row.planId ≠ none := by simp [(taskReference_ok named).1]
    exact .inr ⟨row,_,_,_,present,due,fun direct => absurd direct planned,checked,rfl,
      answered.trans (congrArg some claimed)⟩

-- What a claim has found of the task that it hands out, and of its plan when it has one.
structure Prepared (encoding : StoreEncoding) (s s' : QueueStore) (planContext : PlanClaimContext)
    (now : Time) (task claimed : TaskRecord) (reference : PlanTaskReference) (rows : PlanRows)
    (step : PlanStep) (tx' : PlanTx) : Prop where
  named : taskReference task = .ok reference
  stored : s.plans.lookup (reference.planId,reference.revision) = some rows
  granted : Granted encoding ⟨rows,s.nextUuid⟩ task reference (effectiveContext planContext task) now step
  ran : bindStepTx encoding ⟨rows,s.nextUuid⟩ (snapshotOf rows) rows.stepStates step
    (effectiveContext planContext task) now = .ok tx'
  bound : claimed.planStepId = some step.stepId
  plans : s'.plans = s.plans.insert (reference.planId,reference.revision) tx'.rows

theorem claim_prepared {leaseFor : Time} {planContext : PlanClaimContext} {claimed : TaskRecord}
    (rowed : ∀ taskId task, s.tasks.lookup taskId = some task → task.taskId = taskId)
    (ok : claimNextWithPlanContext encoding s now leaseFor planContext = .ok (some claimed,s')) :
    ∃ task, s.tasks.lookup claimed.taskId = some task ∧ planKeyOf claimed = planKeyOf task ∧
      ((task.planId = none ∧ claimed.planStepId = none) ∨ ∃ reference rows step tx',
        Prepared encoding s s' planContext now task claimed reference rows step tx') := by
  simp only [claimNextWithPlanContext,bind_ok,require_ok,exists_const] at ok
  rcases claimFirst_parts ok.2 with ⟨none,_⟩ | ⟨_,candidate,_,task,handed,prepared,answer,order,_,
    preparation,leased,same⟩
  · cases none
  cases same
  have listed : candidate ∈ claimCandidates s now := by simp [order]
  obtain ⟨_,due⟩ := mem_claimCandidates listed
  have present := candidate_listed rowed listed
  obtain ⟨found,_,_,outcome⟩ := prepareCandidate_parts preparation
  obtain rfl := Option.some.inj (present.symm.trans found)
  have queued : candidate.status = .queued := by
    simp only [isDue,Bool.and_eq_true,beq_iff_eq] at due
    exact due.1.1
  refine ⟨candidate,?_⟩
  rcases outcome with ⟨direct,rfl,rfl⟩ | ⟨reference,rows,step,tx',named,stored,granted,rfl,rfl⟩
  · obtain ⟨row,made,_,_,rfl⟩ := leaseTask_parts found leased
    subst made
    refine ⟨(congrArg (AList.lookup · _) leaseRow_taskId).trans found,?_,.inl ⟨direct,?_⟩⟩ <;>
      simp [leaseRow,queued,planKeyOf]
  · obtain ⟨row,made,_,rfl,rfl⟩ := @leaseTask_parts _ (s.storePlan _ tx') _ _ _ _ _ _ found leased
    subst made
    obtain ⟨granted,ran⟩ := preparePlannedClaimTx_ok.mp granted
    refine ⟨(congrArg (AList.lookup · _) leaseRow_taskId).trans found,?_,
      .inr ⟨reference,rows,step,tx',named,stored,granted,ran,
      ?_,rfl⟩⟩ <;> simp [leaseRow,queued,planKeyOf]

theorem finish_rows {taskId : TaskId} {tenantId : TenantId} {leaseToken : LeaseToken} {report : FinishReport}
    {planContext : PlanClaimContext} {answer : FinishOutcome} (linked : Linked encoding s)
    (ok : finishTaskWithLeaseToken encoding s taskId tenantId leaseToken report now planContext =
      .ok (answer,s')) :
    s' = s ∨ ∃ row row', s.tasks.lookup taskId = some row ∧ row.taskId = taskId ∧ row.tenantId = tenantId ∧
      row.status.isTerminal = false ∧ row.leaseToken = some leaseToken ∧
      (∃ leaseUntil ∈ row.leaseUntil, now < leaseUntil) ∧ Ended now row row' ∧
      s'.tasks = s.tasks.insert taskId row' := by
  obtain ⟨row,loaded,rest⟩ := bind_ok.mp ok
  clear ok
  obtain ⟨found,tenant,_⟩ := loadTask_ok.mp loaded
  have rowed := linked.rowed _ _ found
  obtain rfl := rowed.taskId
  split at rest
  · cases rest
    exact .inl rfl
  next open_ =>
  obtain ⟨_,held,rest⟩ := bind_ok.mp rest
  rw [require_ok] at held
  have open_ : row.status.isTerminal = false := by simpa using open_
  split at rest
  · next planned =>
    obtain ⟨reference,named,rest⟩ := bind_ok.mp rest
    obtain ⟨tx,begun,rest⟩ := bind_ok.mp rest
    obtain ⟨⟨_,tx',update⟩,ran,rest⟩ := bind_ok.mp rest
    cases rest
    obtain ⟨rows,stored,rfl⟩ := beginPlan_ok begun
    obtain ⟨rows',stored',joined⟩ := linked.joined _ _ _ found (taskReference_key named)
    obtain rfl := Option.some.inj (stored.symm.trans stored')
    have unplanned : row.planId ≠ none := fun none => by simp [none] at planned
    obtain ⟨taskId,tenantId,ended⟩ := finishPlannedStepTx_ended ⟨joined.taskId,joined.tenantId⟩ unplanned ran
    refine .inr ⟨row,_,found,rfl,tenant,open_,held.1,held.2,ended,?_⟩
    rw [updateTask_found row (by rw [taskId]; exact found) tenantId.symm,taskId]
    rfl
  · next direct =>
    have same : s.updateTask (finishDirect row report now).2 = s' := congrArg Prod.snd (Except.ok.inj rest)
    obtain ⟨taskId,tenantId,_,_⟩ := @finishDirect_same row report now
    have ended := finishDirect_ended report now (rowed.direct (by simpa using direct))
    refine .inr ⟨row,_,found,rfl,tenant,open_,held.1,held.2,ended,?_⟩
    rw [← same,updateTask_found row (by rw [taskId]; exact found) tenantId.symm,taskId]

theorem cancel_rows {taskId : TaskId} {tenantId : TenantId} {answer : TaskRecord} (linked : Linked encoding s)
    (ok : requestCancel encoding s taskId tenantId now = .ok (answer,s')) :
    ((∃ row, s.tasks.lookup taskId = some row ∧ row.status.isTerminal = true) ∧ s' = s) ∨
    ∃ row, s.tasks.lookup taskId = some row ∧ row.taskId = taskId ∧ row.tenantId = tenantId ∧
      row.status.isTerminal = false ∧ s'.tasks = s.tasks.insert taskId (cancelRow now row) := by
  rcases requestCancel_parts ok with same | ⟨row,found,tenant,open_,outcome⟩
  · exact .inl same
  obtain rfl := (linked.rowed _ _ found).taskId
  refine .inr ⟨row,found,rfl,tenant,open_,?_⟩
  rcases outcome with ⟨_,rfl⟩ | ⟨reference,rows,tx',_,_,_,rfl⟩
  · rw [updateTask_found row found rfl]
    rfl
  · rw [updateTask_found row found rfl]
    rfl

-- One iteration of the recovery changes the row of its candidate and no other.
theorem recoverCandidate_rows {candidate : TaskRecord}
    (listed : s.tasks.lookup candidate.taskId = some candidate)
    (ok : recoverCandidate encoding now s candidate = .ok s') :
    s'.tasks = s.tasks.insert candidate.taskId
      (if candidate.planId = none then (recoverDirect candidate now).set candidate
        else expiredRow now candidate) := by
  obtain ⟨row,found,outcome⟩ := recoverCandidate_parts ok
  obtain rfl := Option.some.inj (listed.symm.trans found)
  rcases outcome with ⟨direct,rfl⟩ | ⟨reference,rows,tx',update,named,_,ran,rfl⟩
  · rw [if_pos direct,updateTask_found candidate found rfl]
    rfl
  · rw [if_neg (by simp [(taskReference_ok named).1])]
    simp only [recoverExpiredPlanLeaseTx,bind_ok,pure_ok,Prod.mk.injEq] at ran
    obtain ⟨_,_,_,_,_,rfl⟩ := ran
    rw [updateTask_found candidate found rfl]
    rfl

theorem recoverEach_rows {candidates : List TaskRecord} (distinct : (candidates.map (·.taskId)).Nodup)
    (listed : ∀ candidate ∈ candidates, s.tasks.lookup candidate.taskId = some candidate)
    (ok : foldEach (recoverCandidate encoding now) s candidates = .ok s') (taskId : TaskId) :
    s'.tasks.lookup taskId = s.tasks.lookup taskId ∨ ∃ candidate ∈ candidates, candidate.taskId = taskId ∧
      s'.tasks.lookup taskId = some (if candidate.planId = none then (recoverDirect candidate now).set
        candidate else expiredRow now candidate) := by
  induction candidates generalizing s with
  | nil =>
    cases ok
    exact .inl rfl
  | cons first rest ih =>
    obtain ⟨middle,head,others⟩ := bind_ok.mp ok
    rw [List.map_cons,List.nodup_cons] at distinct
    have changed := recoverCandidate_rows (listed first List.mem_cons_self) head
    have apart : ∀ candidate ∈ rest, candidate.taskId ≠ first.taskId := fun candidate later same =>
      distinct.1 (same ▸ List.mem_map_of_mem later)
    rcases ih distinct.2 (fun candidate later => by
      have kept : middle.tasks.lookup candidate.taskId = s.tasks.lookup candidate.taskId := by
        rw [changed]
        exact AList.lookup_insert_ne (apart candidate later)
      exact kept.trans (listed candidate (List.mem_cons_of_mem _ later))) others with same |
        ⟨candidate,later,key,found⟩
    · rw [same,changed,lookup_insert_eq]
      split
      · next key => exact .inr ⟨first,List.mem_cons_self,key.symm,rfl⟩
      · exact .inl rfl
    · exact .inr ⟨candidate,List.mem_cons_of_mem _ later,key,found⟩

theorem recover_rows {answer : Nat} (linked : Linked encoding s)
    (ok : recoverExpiredLeases encoding s now = .ok (answer,s')) (taskId : TaskId) :
    s'.tasks.lookup taskId = s.tasks.lookup taskId ∨ ∃ row ∈ recoveryCandidates s now,
    s.tasks.lookup taskId = some row ∧
      isExpired now row = true ∧ s'.tasks.lookup taskId = some (if row.planId = none then
        (recoverDirect row now).set row else expiredRow now row) := by
  simp only [recoverExpiredLeases,bind_ok,pure_ok,Prod.mk.injEq] at ok
  obtain ⟨_,ran,_,rfl⟩ := ok
  obtain ⟨distinct,listed⟩ := recoveryCandidates_listed fun taskId task found =>
      (linked.rowed taskId task found).taskId
  rcases recoverEach_rows distinct (fun row chosen => (listed row chosen).1) ran taskId with same |
    ⟨row,chosen,rfl,found⟩
  · exact .inl same
  · exact .inr ⟨row,chosen,(listed row chosen).1,(listed row chosen).2,found⟩

theorem resolve_rows {request : ResolutionRequest} {answer : PlanResolutionOutcome}
    (linked : Linked encoding s) (ok : resolvePlanUnknown encoding s request now = .ok (answer,s')) :
    s' = s ∨ ∃ key rows row, Loaded s request.planId request.principal.tenantId key rows ∧
    rows.state = .unknown ∧
      s.tasks.lookup row.taskId = some row ∧ planKeyOf row = some key ∧
      row.tenantId = request.principal.tenantId ∧
      row.planId = some request.planId ∧
      s'.tasks = s.tasks.insert row.taskId (resolvedRow request.decision now row) := by
  simp only [resolvePlanUnknown,bind_ok] at ok
  obtain ⟨_,_,plan,read,reference,named,tx,begun,ok⟩ := ok
  obtain ⟨key,rows,loaded,rfl⟩ := loadPlan_parts read
  obtain ⟨rows',stored,rfl⟩ := beginPlan_ok begun
  simp only [PlanTaskReference.new,bind_ok,require_ok,pure_ok,exists_const] at named
  obtain ⟨_,_,_,rfl⟩ := named
  obtain rfl : rows' = rows := Option.some.inj (stored.symm.trans (loaded.key ▸ loaded.stored))
  split at ok
  · simp only [bind_ok,require_ok,exists_const,pure_ok,Prod.mk.injEq] at ok
    exact .inl ok.2.2.symm
  · simp only [bind_ok,require_ok,exists_const,pure_ok,Prod.mk.injEq] at ok
    obtain ⟨unknown,_,_,_,_,s'',settled,_,rfl⟩ := ok
    unfold resolvedTask at settled
    cases decision : request.decision with
    | _ =>
      rw [decision] at settled
      simp only [updateTaskForResolution,bind_ok,orFail_ok,require_ok,exists_const,pure_ok] at settled
      obtain ⟨row,found,⟨tenant,planId,revision⟩,rfl⟩ := settled
      have taskId := (linked.rowed _ _ found).taskId
      refine .inr ⟨key,rows',row,loaded,unknown,taskId ▸ found,?_,tenant.trans loaded.tenantId,?_,?_⟩
      · rw [loaded.key]
        simp only [planKeyOf,planId,revision]
        rfl
      · exact planId.trans (congrArg some loaded.planId)
      · rw [updateTask_found row found tenant,taskId]
        rfl

theorem submit_rows {request : SubmitRequest} {clock : SubmitClock} {answer : SubmitOutcome × TaskRecord}
    (ok : submitTaskGoverned encoding s request clock = .ok (answer,s')) :
    s' = s ∨ ∃ envelope, envelope.taskId = request.envelope.taskId ∧
    envelope.budget = request.envelope.budget ∧
      s.tasks.lookup envelope.taskId = none ∧ checkTaskRow (newTask request envelope clock.now) = .ok () ∧
      s'.tasks = s.tasks.insert envelope.taskId (newTask request envelope clock.now) := by
  rcases submit_parts ok with ⟨_,same⟩ | ⟨limits,admitted,envelope,_,submitted⟩
  · exact .inl same
  obtain ⟨_,_,_,_,⟨_,admission⟩,_,taskId,budget,absent,checked,rfl⟩ := submitted
  have kept : admitted.tasks = s.tasks :=
    (admitReference_tasks admission).trans (countSubmission_tables s request.principal limits clock.now).2
  exact .inr ⟨envelope,taskId,budget,by rw [← kept]; exact AList.lookup_eq_none.mpr absent,
    checked,by rw [← kept]⟩

theorem resume_tasks (encoding : StoreEncoding) (s : QueueStore) (tenantId : TenantId) (planId : PlanId)
    (now : Time) : (resumePlan encoding s tenantId planId now).2.tasks = s.tasks := by
  rcases resumePlan_parts encoding s tenantId planId now with same | ⟨key,rows,loaded,resumption⟩
  · rw [same]
  generalize (resumePlan encoding s tenantId planId now).2 = s' at resumption ⊢
  cases resumption <;> rfl

-- The rows after an operation, each with what became of it.
theorem exec_rows (linked : Linked encoding s) (op : Operation) (taskId : TaskId) :
    RowChange op (s.tasks.lookup taskId) ((exec encoding s op).tasks.lookup taskId) := by
  rcases exec_cases encoding s op with same | ok
  · rw [same]
    exact .kept
  generalize exec encoding s op = s' at ok
  have kept : s'.tasks = s.tasks → RowChange op (s.tasks.lookup taskId) (s'.tasks.lookup taskId) :=
    fun tasks => by
    rw [tasks]
    exact .kept
  have inserted : ∀ row row', s.tasks.lookup row.taskId = some row →
      s'.tasks = s.tasks.insert row.taskId row' →
      RowStep op row row' → RowChange op (s.tasks.lookup taskId) (s'.tasks.lookup taskId) := by
    intro row row' found tasks step
    rw [tasks,lookup_insert_eq]
    split
    · next same =>
      rw [same,found]
      exact .stepped step
    · exact .kept
  cases op with
  | bootstrapPrincipal principal =>
    simp only [transaction,bootstrapPrincipal,bind_ok] at ok
    obtain ⟨_,_,_,_,ok⟩ := ok
    split at ok <;> cases ok <;> exact .kept
  | setLimits tenantId limits =>
    simp only [transaction,storeOf_ok,setLimits,bind_ok,pure_ok,Prod.mk.injEq] at ok
    obtain ⟨_,_,_,_,_,_,rfl⟩ := ok
    exact .kept
  | createSession principal =>
    cases ok
    exact .kept
  | savePlan plan =>
    obtain ⟨answer,ok⟩ := storeOf_ok.mp ok
    rcases savePlan_parts ok with rfl | ⟨_,_,_,_,_,rfl⟩ <;> exact .kept
  | submit request clock =>
    obtain ⟨answer,ok⟩ := storeOf_ok.mp ok
    rcases submit_rows ok with rfl | ⟨envelope,_,budget,absent,checked,tasks⟩
    · exact .kept
    · rw [tasks,lookup_insert_eq]
      split
      · next same =>
        rw [same,absent]
        exact .entered budget checked
      · exact .kept
  | approvePlan principal approval key now =>
    obtain ⟨answer,ok⟩ := storeOf_ok.mp ok
    rcases approvePlan_parts ok with rfl | ⟨_,_,_,_,_,rfl⟩ <;> exact .kept
  | claim now leaseFor planContext =>
    obtain ⟨answer,ok⟩ := storeOf_ok.mp ok
    rcases claim_rows linked ok with ⟨_,rfl⟩ | ⟨row,token,stepId,scope,found,due,unplanned,checked,tasks,_⟩
    · exact .kept
    · exact inserted row _ found tasks (.claimed due unplanned checked)
  | finish taskId' tenantId leaseToken report now planContext =>
    obtain ⟨answer,ok⟩ := storeOf_ok.mp ok
    rcases finish_rows linked ok with rfl | ⟨row,row',found,rfl,rfl,open_,held,unexpired,ended,tasks⟩
    · exact .kept
    · exact inserted row row' found tasks (.finished open_ held unexpired ended)
  | requestCancel taskId' tenantId now =>
    obtain ⟨answer,ok⟩ := storeOf_ok.mp ok
    rcases cancel_rows linked ok with ⟨_,rfl⟩ | ⟨row,found,rfl,rfl,open_,tasks⟩
    · exact .kept
    · exact inserted row _ found tasks (.cancelled open_)
  | recoverExpiredLeases now =>
    obtain ⟨answer,ok⟩ := storeOf_ok.mp ok
    rcases recover_rows linked ok taskId with same | ⟨row,_,found,expired,changed⟩
    · rw [same]
      exact .kept
    · rw [found,changed]
      split
      · next direct => exact .stepped (.recovered expired direct)
      · next planned => exact .stepped (.expired expired planned)
  | resolvePlanUnknown request now =>
    obtain ⟨answer,ok⟩ := storeOf_ok.mp ok
    rcases resolve_rows linked ok with rfl | ⟨key,rows,row,_,_,found,_,tenantId,planId,tasks⟩
    · exact .kept
    · exact inserted row _ found tasks (.resolved planId tenantId)
  | resumePlan tenantId planId now =>
    cases ok
    exact kept (resume_tasks encoding s tenantId planId now)

end Shaka.Store
