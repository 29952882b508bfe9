import Shaka.Store.Consistency

namespace Shaka.Store
open Shaka.Core Queue Plan CheckedSteps

variable {encoding : StoreEncoding} {permitted : Act → TaskRecord → PlanRows → Prop} {s s' : QueueStore}

-- Saving a plan.

theorem insertSteps_ok {steps : List PlanStep} {before after : AList fun _ : PlanStepId => PlanStepRow}
    (ok : insertSteps steps before = .ok after) :
    after.keys.Perm (steps.map (·.stepId) ++ before.keys) ∧
      ∀ x row, after.lookup x = some row → before.lookup x = some row ∨
        ∃ step ∈ steps, step.stepId = x ∧ row = newStepRow step := by
  induction steps generalizing before with
  | nil => cases ok; exact ⟨.refl _,fun x row found => .inl found⟩
  | cons step rest ih =>
    simp only [insertSteps,bind_ok,require_ok,exists_const] at ok
    obtain ⟨absent,ok⟩ := ok
    obtain ⟨keys,rows⟩ := ih ok
    rw [AList.keys_insert,List.erase_of_not_mem (by rwa [AList.mem_keys] at absent)] at keys
    refine ⟨keys.trans List.perm_middle,fun x row found => ?_⟩
    rcases rows x row found with earlier | ⟨other,listed,same⟩
    · rw [lookup_insert_eq] at earlier
      split at earlier
      · next here =>
        cases earlier
        exact .inr ⟨step,List.mem_cons_self,here.symm,rfl⟩
      · exact .inl earlier
    · exact .inr ⟨other,List.mem_cons_of_mem _ listed,same⟩

def freshRows (plan : PlanSpec) (steps : AList fun _ : PlanStepId => PlanStepRow) : PlanRows :=
  ⟨plan.tenantId,plan.digest,plan,plan.state,steps,[],[],[],0⟩

theorem savePlan_parts {plan answer : PlanSpec} (ok : savePlan encoding s plan = .ok (answer,s')) :
    s' = s ∨ ∃ steps, plan.validateStructure = .ok () ∧ plan.verifyDigest encoding.toEncoding = .ok () ∧
      s.plans.lookup (plan.planId,plan.revision) = none ∧ insertSteps plan.steps ∅ = .ok steps ∧
      s' = {s with plans:=s.plans.insert (plan.planId,plan.revision) (freshRows plan steps)} := by
  simp only [savePlan,bind_ok,liftCore_ok] at ok
  obtain ⟨_,structured,_,sealed,ok⟩ := ok
  split at ok
  · simp only [bind_ok,require_ok,pure_ok,exists_const,Prod.mk.injEq] at ok
    exact .inl ok.2.2.2.symm
  · next absent =>
    simp only [bind_ok,pure_ok,Prod.mk.injEq] at ok
    obtain ⟨steps,inserted,_,rfl⟩ := ok
    exact .inr ⟨steps,structured,sealed,absent,inserted,rfl⟩

theorem freshRows_saved {plan : PlanSpec} {steps : AList fun _ : PlanStepId => PlanStepRow}
    (inserted : insertSteps plan.steps ∅ = .ok steps) :
    Saved (freshRows plan steps) := by
  have rows : ∀ x row, steps.lookup x = some row → ∃ step ∈ plan.steps, step.stepId = x ∧
      row = newStepRow step :=
    fun x row found => ((insertSteps_ok inserted).2 x row found).resolve_left (by simp)
  refine ⟨rfl,?_,?_,rfl,rfl,rfl,rfl⟩
  · intro x state found
    simp only [PlanRows.stepState,freshRows,Option.map_eq_some_iff] at found
    obtain ⟨row,stored,rfl⟩ := found
    obtain ⟨step,_,_,rfl⟩ := rows x row stored
    rfl
  · intro x
    simp only [PlanRows.attemptsOf,freshRows]
    cases stored : steps.lookup x with
    | none => rfl
    | some row =>
      obtain ⟨step,_,_,rfl⟩ := rows x row stored
      rfl

theorem savePlan_advance {plan answer : PlanSpec} (ok : savePlan encoding s plan = .ok (answer,s')) :
    Advance encoding permitted s s' := by
  rcases savePlan_parts ok with rfl | ⟨steps,structured,sealed,absent,inserted,rfl⟩
  · exact .aside rfl fun _ => rfl
  · refine .saved absent ⟨rfl,rfl,rfl,rfl,structured,sealed,?_,fun x row found =>
      ?_⟩ (freshRows_saved inserted) rfl rfl
    · have keys := (insertSteps_ok inserted).1
      rwa [AList.keys_empty,List.append_nil] at keys
    · obtain ⟨step,listed,named,rfl⟩ := ((insertSteps_ok inserted).2 x row found).resolve_left (by simp)
      exact ⟨step,listed,named,rfl⟩

-- Submitting a task.

theorem loadTask_ok {taskId : TaskId} {tenantId : TenantId} {task : TaskRecord} :
    loadTask encoding s taskId tenantId = .ok task ↔
      s.tasks.lookup taskId = some task ∧ task.tenantId = tenantId ∧ checkTaskRow task = .ok () := by
  simp only [loadTask,bind_ok,orFail_ok,pure_ok,Option.filter_eq_some_iff,beq_iff_eq]
  constructor
  · rintro ⟨row,⟨found,tenant⟩,_,checked,rfl⟩
    exact ⟨found,tenant,checked⟩
  · rintro ⟨found,tenant,checked⟩
    exact ⟨task,⟨found,tenant⟩,(),checked,rfl⟩

theorem beginPlan_ok {reference : PlanTaskReference} {tx : PlanTx}
    (ok : s.beginPlan encoding reference = .ok tx) :
    ∃ rows, s.plans.lookup (reference.planId,reference.revision) = some rows ∧ tx = ⟨rows,s.nextUuid⟩ := by
  simp only [QueueStore.beginPlan,bind_ok,orFail_ok,pure_ok] at ok
  obtain ⟨rows,found,rfl⟩ := ok
  exact ⟨rows,found,rfl⟩

-- The store with the submission counted in its rate windows.
def countSubmission (s : QueueStore) (principal : Principal) (limits : TenantLimits) (now : Time) :
    QueueStore :=
  (submitScopes principal).foldl (countRequest (fixedWindowStart now limits.windowSeconds)) s

theorem countSubmission_tables (s : QueueStore) (principal : Principal) (limits : TenantLimits) (now : Time) :
    (countSubmission s principal limits now).plans = s.plans ∧
    (countSubmission s principal limits now).tasks = s.tasks :=
  ⟨rfl,rfl⟩

-- A submission that inserted its task, with the checks that it passed before.
structure Submitted (encoding : StoreEncoding) (s s' : QueueStore) (request : SubmitRequest)
    (clock : SubmitClock) (limits : TenantLimits) (admitted : QueueStore) (envelope : TaskEnvelope) :
    Prop where
  valid : validateSubmit request = .ok ()
  limited : s.limits.lookup request.principal.tenantId = some limits
  unkeyed : ∀ task ∈ s.taskRows, task.tenantId = request.principal.tenantId →
    task.idempotencyKey ≠ request.idempotencyKey
  windows : ∀ scope ∈ submitScopes request.principal,
    windowCount s scope (fixedWindowStart clock.now limits.windowSeconds) < limits.requestsPerWindow
  admission : ∃ approvalId, admitReference encoding (countSubmission s request.principal limits clock.now)
    request.principal {request.envelope with executionContext:=ExecutionContext.fromPrincipal request.principal}
    request.planReference clock = .ok (approvalId,admitted)
  quotas : checkTaskQuotas admitted limits request.principal.tenantId clock.now
    request.envelope.budget.maxCostMicrounits = .ok ()
  taskId : envelope.taskId = request.envelope.taskId
  budget : envelope.budget = request.envelope.budget
  absent : envelope.taskId ∉ admitted.tasks
  checked : checkTaskRow (newTask request envelope clock.now) = .ok ()
  inserted : s' = {admitted with tasks:=admitted.tasks.insert envelope.taskId (newTask request envelope clock.now)}

theorem submit_parts {request : SubmitRequest} {clock : SubmitClock} {answer : SubmitOutcome × TaskRecord}
    (ok : submitTaskGoverned encoding s request clock = .ok (answer,s')) :
    (answer.1 = .existing ∧ s' = s) ∨ ∃ limits admitted envelope, answer = (.created,newTask request envelope clock.now) ∧
      Submitted encoding s s' request clock limits admitted envelope := by
  simp only [submitTaskGoverned,bind_ok,require_ok,exists_const,orFail_ok] at ok
  obtain ⟨_,valid,_,_,_,limits,limited,ok⟩ := ok
  split at ok
  · simp only [bind_ok,require_ok,pure_ok,exists_const,Prod.mk.injEq] at ok
    obtain ⟨_,_,_,rfl,rfl⟩ := ok
    exact .inl ⟨rfl,rfl⟩
  · next unkeyed =>
    simp only [bind_ok,require_ok,pure_ok,exists_const,Prod.mk.injEq] at ok
    obtain ⟨_,windows,⟨approvalId,admitted⟩,admission,_,quotas,absent,record,loaded,rfl,rfl⟩ := ok
    obtain ⟨found,_,checked⟩ := loadTask_ok.mp loaded
    rw [AList.lookup_insert,Option.some.injEq] at found
    refine .inr ⟨limits,admitted,{request.envelope with executionContext:=
      (ExecutionContext.fromPrincipal request.principal).withProvenance request.requestId approvalId},
      congrArg _ found.symm,valid,limited,?_,?_,⟨approvalId,admission⟩,quotas,rfl,rfl,absent,
        found ▸ checked,rfl⟩
    · intro task listed tenant key
      exact List.find?_eq_none.mp unkeyed task listed (by simp [tenant,key])
    · intro scope listed
      exact require_ok.mp (checkEach_ok.mp windows scope listed)

theorem admitReference_tasks {principal : Principal} {envelope : TaskEnvelope}
    {reference : Option PlanTaskReference} {clock : SubmitClock} {approvalId : Option Uuid}
    (ok : admitReference encoding s principal envelope reference clock = .ok (approvalId,s')) :
    s'.tasks = s.tasks := by
  unfold admitReference at ok
  split at ok
  · cases ok
    rfl
  · obtain ⟨tx,_,ok⟩ := bind_ok.mp ok
    obtain ⟨_,_,ok⟩ := bind_ok.mp ok
    cases ok
    rfl

theorem newTask_rowed {request : SubmitRequest} {envelope : TaskEnvelope} {now : Time}
    (checked : checkTaskRow (newTask request envelope now) = .ok ()) :
    Rowed envelope.taskId (newTask request envelope now) :=
  ⟨rfl,checked,by simp [newTask],by simp [newTask],fun _ => rfl⟩

theorem submit_advance {request : SubmitRequest} {clock : SubmitClock}
    (ok : submitTaskGoverned encoding s request clock = .ok (answer,s')) :
    Advance encoding permitted s s' := by
  rcases submit_parts ok with ⟨_,rfl⟩ | ⟨limits,admitted,envelope,_,submitted⟩
  · exact .aside rfl fun _ => rfl
  obtain ⟨_,_,_,_,⟨approvalId,admission⟩,_,taskId,_,absent,checked,rfl⟩ := submitted
  obtain ⟨plans,tasks⟩ := countSubmission_tables s request.principal limits clock.now
  unfold admitReference at admission
  split at admission
  · next unplanned =>
    cases admission
    refine .direct (newTask_rowed checked) (by simp [newTask,unplanned]) ?_ (by rw [← tasks]) plans
    intro old present
    rw [← tasks,AList.lookup_eq_none.mpr absent] at present
    cases present
  · next reference named =>
    obtain ⟨tx,begun,admission⟩ := bind_ok.mp admission
    obtain ⟨⟨_,tx'⟩,recorded,stored⟩ := bind_ok.mp admission
    cases stored
    obtain ⟨rows,found,rfl⟩ := beginPlan_ok begun
    obtain ⟨tx'',ran,rfl,verified⟩ := recordPlanAdmissionTx_writes.done _ recorded
    obtain ⟨_,_,digest,planId,revision,tenant,planDigest,_⟩ := loadPlanTx_ok.mp verified.loaded
    have unlisted : s.tasks.lookup envelope.taskId = none := by
      rw [← tasks]
      exact AList.lookup_eq_none.mpr absent
    refine .admitted unlisted (plans ▸ found) (newTask_rowed checked) ?_ ?_
      ⟨rfl,verified.admissible,verified.preflight,ran.edits,ran.reached⟩ ?_ ?_
    · simp [planKeyOf,newTask,named]
    · exact ⟨verified.taskId.trans taskId.symm,tenant,by simpa [newTask,named] using planId.symm,
        by simpa [newTask,named] using revision.symm,by simpa [newTask,named] using planDigest.symm,verified.mode⟩
    · simp [QueueStore.storePlan,tasks]
    · simp [QueueStore.storePlan,plans]

-- Deciding on a plan.

theorem validateApprovalShape_valid {plan : PlanSpec} {principal : Principal} {approval : PlanApproval}
    {now : Time} {u : Unit} (shaped : validateApprovalShape plan principal approval now = .ok u)
    (approved : approval.decision = .approved) (whole : approval.stepId = none) :
    ValidApproval approval plan now := by
  simp only [validateApprovalShape,bind_ok,require_ok,exists_const,approved,if_true,liftCore_ok,whole]
    at shaped
  obtain ⟨_,_,_,_,valid⟩ := shaped
  exact validateFor_global.mp valid

-- What a call that is not a replay does, on the revision the approval names.
structure Deciding (encoding : StoreEncoding) (s s' : QueueStore) (principal : Principal)
    (approval : PlanApproval) (key : String) (now : Time) (outcome : PlanApprovalOutcome) (rows : PlanRows)
    (tx tx' : PlanTx) :
    Prop where
  stored : s.plans.lookup (approval.planId,approval.revision) = some rows
  own : rows.tenantId = principal.tenantId
  shaped : validateApprovalShape (snapshotOf rows) principal approval now = .ok ()
  decided : decideApprovalTx encoding ⟨{rows with approvals:=rows.approvals ++ [⟨approval,now,key⟩]},
    s.nextUuid⟩ (snapshotOf rows) approval now = .ok (outcome,tx)
  noted : insertCheckpointTx tx approval.stepId .approval (if outcome = .approved then .succeeded
    else .failed) none now = .ok tx'
  kept : s' = s.storePlan (approval.planId,approval.revision) tx'

theorem approvePlan_decides {principal : Principal} {approval : PlanApproval} {key : String} {now : Time}
    (ok : approvePlan encoding s principal approval key now = .ok (outcome,s')) :
    s' = s ∨ ∃ rows tx tx', Deciding encoding s s' principal approval key now outcome rows tx tx' := by
  simp only [approvePlan,bind_ok,require_ok,exists_const] at ok
  obtain ⟨_,_,_,reference,named,tx,begun,plan,loaded,_,shaped,ok⟩ := ok
  split at ok
  · simp only [bind_ok,require_ok,pure_ok,exists_const,Prod.mk.injEq] at ok
    exact .inl ok.2.2.symm
  · simp only [bind_ok,require_ok,pure_ok,exists_const,Prod.mk.injEq] at ok
    obtain ⟨_,⟨_,tx'⟩,decided,tx'',noted,rfl,rfl⟩ := ok
    obtain ⟨rows,found,rfl⟩ := beginPlan_ok begun
    obtain ⟨rfl,own,_⟩ := loadPlanTx_ok.mp loaded
    obtain rfl : reference = ⟨approval.planId,approval.revision,approval.planDigest⟩ := by
      simp only [PlanTaskReference.new,bind_ok,require_ok,pure_ok,exists_const] at named
      obtain ⟨_,_,_,rfl⟩ := named
      rfl
    exact .inr ⟨rows,tx',tx'',found,own,shaped,decided,noted,rfl⟩

theorem Deciding.row {principal : Principal} {approval : PlanApproval} {key : String} {now : Time}
    {outcome : PlanApprovalOutcome} {rows : PlanRows} {tx tx' : PlanTx}
    (deciding : Deciding encoding s s' principal approval key now outcome rows tx tx') :
    Decided encoding rows tx'.rows ⟨approval,now,key⟩ := by
  obtain ⟨decidedTx,ran,rfl,undecided⟩ := decideApprovalTx_writes.done _ deciding.decided
  have whole := ran.trans (insertCheckpoint_writes.ran deciding.noted)
  rw [List.append_nil] at whole
  exact ⟨undecided,validateApprovalShape_valid deciding.shaped,whole.edits,whole.reached⟩

theorem approvePlan_parts {principal : Principal} {approval : PlanApproval} {key : String} {now : Time}
    (ok : approvePlan encoding s principal approval key now = .ok (outcome,s')) :
    s' = s ∨ ∃ rows tx', s.plans.lookup (approval.planId,approval.revision) = some rows ∧
      rows.tenantId = principal.tenantId ∧ Decided encoding rows tx'.rows ⟨approval,now,key⟩ ∧
      s' = s.storePlan (approval.planId,approval.revision) tx' := by
  rcases approvePlan_decides ok with same | ⟨rows,tx,tx',deciding⟩
  · exact .inl same
  exact .inr ⟨rows,tx',deciding.stored,deciding.own,deciding.row,deciding.kept⟩

theorem decided_approves {rows rows' : PlanRows} {row : PlanApprovalRow}
    (decided : Decided encoding rows rows' row) (approved : row.approval.decision = .approved)
    (whole : row.approval.stepId = none) :
    rows'.state = .approved := by
  have undecided := decided.undecided.resolve_right fun both => by
    rw [whole] at both
    cases both.2
  have admissible : isAdmissible (view rows).plan = true := by
    rw [view_plan]
    cases state : rows.state <;> simp_all [isUndecided,isAdmissible]
  have reached := congrArg View.plan decided.reached
  simp only [decisionWrites,approved,whole,Option.isSome_none,Bool.false_eq_true,if_false,view_plan]
    at reached
  rw [reached]
  exact admissionWrites_plan admissible

theorem decided_approvals {rows rows' : PlanRows} {row : PlanApprovalRow}
    (decided : Decided encoding rows rows' row) :
    rows'.approvals = rows.approvals ++ [row] := decided.edits.same.approvals

theorem approvePlan_advance {principal : Principal} {approval : PlanApproval} {key : String} {now : Time}
    (ok : approvePlan encoding s principal approval key now = .ok (outcome,s')) :
    Advance encoding permitted s s' := by
  rcases approvePlan_parts ok with rfl | ⟨rows,tx',found,_,decided,rfl⟩
  · exact .aside rfl fun _ => rfl
  · exact .decided found decided rfl rfl

end Shaka.Store
