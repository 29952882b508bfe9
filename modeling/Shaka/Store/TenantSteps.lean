import Shaka.Store.TenantViews

namespace Shaka.Store
open Shaka.Core Queue Plan CheckedSteps PairedSteps

variable {encoding : StoreEncoding} {tenantId : TenantId} {ours : OperatorId → Prop} {s t : QueueStore}

-- An operation on behalf of the tenant answers the same in both stores and leaves
-- them alike.

theorem bootstrapPrincipal_twin {principal : Principal} (twin : Twin tenantId ours s t)
    (own : principal.tenantId = tenantId) :
    Paired (Ends (Twin tenantId ours)) (bootstrapPrincipal s principal) (bootstrapPrincipal t principal) := by
  subst own
  unfold bootstrapPrincipal
  refine .same fun _ _ => .same fun _ _ => ?_
  rw [twin.limits]
  split
  · exact .ok ⟨rfl,twin⟩
  · exact .ok ⟨rfl,twin.insertLimits _⟩

theorem setLimits_twin (twin : Twin tenantId ours s t) (limits : TenantLimits) :
    Paired (Ends (Twin tenantId ours)) (setLimits s tenantId limits) (setLimits t tenantId limits) :=
  .same fun _ _ => .orFail twin.limits fun _ _ => .ok ⟨rfl,twin.insertLimits limits⟩

theorem createSession_twin {principal : Principal} (twin : Twin tenantId ours s t) :
    Paired (Ends (Twin tenantId ours)) (createSession s principal) (createSession t principal) := by
  refine .ok ⟨twin.nextUuid,⟨?_,twin.limits,twin.windows,twin.tasks,twin.plans⟩,?_⟩
  · rw [← twin.nextUuid]
    exact twin.sessions.insert _ _
  · rw [twin.nextUuid]

theorem savePlan_twin {plan : PlanSpec} (twin : Twin tenantId ours s t)
    (apart : ∀ store ∈ [s,t], ∀ rows, store.plans.lookup (plan.planId,plan.revision) = some rows →
      rows.tenantId = tenantId) :
    Paired (Ends (Twin tenantId ours)) (savePlan encoding s plan) (savePlan encoding t plan) := by
  unfold savePlan
  refine .same fun _ _ => .same fun _ _ => ?_
  rw [twin.plans.lookup (fun rows found => by simpa using apart s (by simp) rows found)
    (fun rows found => by simpa using apart t (by simp) rows found)]
  cases t.plans.lookup (plan.planId,plan.revision) with
  | some rows => exact .same fun _ _ => .same fun _ _ => .ok ⟨rfl,twin⟩
  | none =>
    refine .same fun steps _ => .ok ⟨rfl,⟨twin.sessions,twin.limits,twin.windows,twin.tasks,?_⟩,twin.nextUuid⟩
    exact twin.plans.insert _ _

theorem loadPlanTx_foreign {rows : PlanRows} {reference : PlanTaskReference}
    (other : rows.tenantId ≠ tenantId) :
    loadPlanTx encoding rows tenantId reference =
      .error (.notFound s!"plan {encoding.uuidText reference.planId.uuid}") := by
  rw [loadPlanTx,require_error.mpr ⟨other,rfl⟩]
  rfl

theorem finish_twin {taskId : TaskId} {leaseToken : LeaseToken} {report : FinishReport} {now : Time}
    {planContext : PlanClaimContext} (linked : Linked encoding s) (twin : Twin tenantId ours s t) :
    Paired (Ends (Twin tenantId ours)) (finishTaskWithLeaseToken encoding s taskId tenantId leaseToken
      report now planContext)
      (finishTaskWithLeaseToken encoding t taskId tenantId leaseToken report now planContext) := by
  unfold finishTaskWithLeaseToken
  rw [← twin.loadTask]
  refine .same fun task loaded => ?_
  obtain ⟨found,tenant,_⟩ := loadTask_ok.mp loaded
  split
  · exact .ok ⟨rfl,twin⟩
  refine .same fun _ _ => ?_
  split
  · next planned =>
    refine .same fun reference named => twin.beginPlan (fun tx other => ?_) fun rows stored own => ?_
    · simp only [finishPlannedStepTx,tenant,loadPlanTx_foreign other,error_bind,and_self]
    · obtain ⟨rows',stored',joined⟩ := linked.joined _ _ _ found (taskReference_key named)
      obtain rfl := Option.some.inj (stored.symm.trans stored')
      have unplanned : task.planId ≠ none := fun none => by simp [none] at planned
      refine .same fun effect ran => ?_
      obtain ⟨outcome,tx,update⟩ := effect
      obtain ⟨_,same,_⟩ := finishPlannedStepTx_ended ⟨joined.taskId,joined.tenantId⟩ unplanned ran
      exact .ok ⟨rfl,(twin.storePlan _ tx).updateTask update (same.trans tenant)⟩
  · obtain ⟨_,same,_,_⟩ := @finishDirect_same task report now
    exact .ok ⟨rfl,twin.updateTask (finishDirect task report now).2 (same.trans tenant)⟩

theorem requestCancel_twin {taskId : TaskId} {now : Time} (twin : Twin tenantId ours s t) :
    Paired (Ends (Twin tenantId ours)) (requestCancel encoding s taskId tenantId now)
      (requestCancel encoding t taskId tenantId now) := by
  unfold requestCancel
  rw [← twin.loadTask]
  refine .same fun task loaded => ?_
  obtain ⟨_,tenant,_⟩ := loadTask_ok.mp loaded
  split
  · exact .ok ⟨rfl,twin⟩
  refine .bind (Q:=Twin tenantId ours) ?_ fun s t _ _ twin => ?_
  · unfold stepIf
    split
    · refine .same fun reference _ => twin.beginPlan (fun tx other => ?_) fun rows _ _ => .same fun tx _ =>
        .ok (twin.storePlan _ tx)
      simp only [cancelPlannedTaskTx,tenant,loadPlanTx_foreign other,error_bind,and_self]
    · exact .ok twin
  · have updated := twin.updateTask (taskUpdate task (cancelRow now)) tenant
    dsimp only
    rw [← updated.loadTask]
    exact .same fun _ _ => .ok ⟨rfl,updated⟩

theorem Twin.loadPlan (twin : Twin tenantId ours s t) (planId : PlanId) :
    Queue.loadPlan encoding s planId tenantId = Queue.loadPlan encoding t planId tenantId := by
  unfold Queue.loadPlan
  rw [twin.latestPlan]

theorem updateTaskForResolution_own (s : QueueStore) (plan : PlanSpec) (status : TaskStatus) (flag : Bool)
    (lastError : Option String) (now : Time) : updateTaskForResolution s plan status flag lastError now = (do
      let row ← orFail ((s.tasks.lookup plan.taskId).filter fun row => row.tenantId == plan.tenantId)
        (.notFound "task planejada não encontrada")
      require (row.planId = some plan.planId ∧ row.planRevision = some plan.revision)
        (.notFound "task planejada não encontrada")
      pure (s.updateTask (planTaskUpdate plan fun row => unbindStep {releaseRow status now row with
        cancelRequested:=flag
        lastError:=lastError
        completedAt:=if flag then some now else none}))) := by
  unfold updateTaskForResolution
  cases s.tasks.lookup plan.taskId with
  | none => rfl
  | some row =>
    rw [Option.filter_some]
    by_cases tenant : row.tenantId = plan.tenantId <;> simp [tenant,orFail,require]

theorem resolvedTask_twin {plan : PlanSpec} {decision : PlanResolutionDecision} {now : Time}
    (twin : Twin tenantId ours s t) (own : plan.tenantId = tenantId) :
    Paired (Twin tenantId ours) (resolvedTask s plan decision now) (resolvedTask t plan decision now) := by
  have updated : ∀ status flag lastError, Paired (Twin tenantId ours)
      (updateTaskForResolution s plan status flag lastError now)
      (updateTaskForResolution t plan status flag lastError now) := by
    intro status flag lastError
    rw [updateTaskForResolution_own,updateTaskForResolution_own]
    refine .orFail (by rw [own]; exact twin.tasks plan.taskId) fun row _ => .same fun _ _ =>
      .ok (twin.updateTask _ own)
  cases decision <;> exact updated _ _ _

theorem resolve_twin {request : ResolutionRequest} {now : Time} (twin : Twin tenantId ours s t)
    (own : request.principal.tenantId = tenantId) :
    Paired (Ends (Twin tenantId ours)) (resolvePlanUnknown encoding s request now)
      (resolvePlanUnknown encoding t request now) := by
  subst own
  unfold resolvePlanUnknown
  rw [← twin.loadPlan]
  refine .same fun _ _ => .same fun plan read => .same fun reference named => ?_
  obtain ⟨key,rows,loaded,rfl⟩ := loadPlan_parts read
  simp only [PlanTaskReference.new,bind_ok,require_ok,pure_ok,exists_const] at named
  obtain ⟨_,_,_,rfl⟩ := named
  have stored := loaded.stored
  rw [loaded.key] at stored
  have stored' := twin.plans.found stored (by simpa using loaded.own)
  have begun : ∀ store : QueueStore, store.plans.lookup (rows.plan.planId,rows.plan.revision) = some rows →
      store.beginPlan encoding ⟨(snapshotOf rows).planId,(snapshotOf rows).revision,
        (snapshotOf rows).digest⟩ = .ok ⟨rows,store.nextUuid⟩ := by
    intro store found
    simp only [QueueStore.beginPlan,snapshotOf,found,orFail]
    rfl
  rw [begun s stored,begun t stored',← twin.nextUuid]
  simp only [ok_bind]
  cases rows.transitions.find? fun transition => transition.idempotencyKey == request.idempotencyKey with
  | some existing => exact .same fun _ _ => .ok ⟨rfl,twin⟩
  | none =>
    refine .same fun _ _ => .same fun tx _ => .same fun tx _ =>
      .bind (resolvedTask_twin (twin.storePlan _ tx) loaded.tenantId)
      fun _ _ _ _ twin => .ok ⟨rfl,twin⟩

theorem loadReducerRows_stored {key : PlanKey} {rows : PlanRows} (stored : s.plans.lookup key = some rows)
    (stored' : t.plans.lookup key = some rows) (tenantId : TenantId) :
    loadReducerRows (.same s) key tenantId = loadReducerRows (.same t) key tenantId := by
  simp only [loadReducerRows,readPlanState,readStepStates,readTransitions,readCheckpoints,Snapshots.same,
    stored,stored']

theorem resumePlan_twin {planId : PlanId} {now : Time} (twin : Twin tenantId ours s t) :
    Twin tenantId ours (resumePlan encoding s tenantId planId now).2
      (resumePlan encoding t tenantId planId now).2 := by
  unfold resumePlan resumeSnapshots
  cases read : Queue.loadPlan encoding s planId tenantId with
  | error e =>
    have refused : ∀ store : QueueStore, Queue.loadPlan encoding store planId tenantId = .error e →
        readForResume encoding (.same store) tenantId planId = .error e := fun store failed => by
      rw [readForResume,show (Snapshots.same store).plan = store from rfl,failed]
      rfl
    rw [refused s read,refused t (twin.loadPlan planId ▸ read)]
    exact twin
  | ok plan =>
    obtain ⟨key,rows,loaded,rfl⟩ := loadPlan_parts read
    have stored' := twin.plans.found loaded.stored (by simpa using loaded.own)
    have reads :
        readForResume encoding (.same s) tenantId planId = readForResume encoding (.same t) tenantId
        planId := by
      unfold readForResume
      rw [show (Snapshots.same s).plan = s from rfl,show (Snapshots.same t).plan = t from rfl,
        ← twin.loadPlan,read,ok_bind,ok_bind,loaded.revision,loadReducerRows_stored loaded.stored stored']
    rw [← reads]
    cases reading : readForResume encoding (.same s) tenantId planId with
    | error e => exact twin
    | ok answer =>
      obtain ⟨plan,reader⟩ := answer
      have planned : plan = snapshotOf rows := by
        simp only [readForResume,bind_ok,pure_ok,Prod.mk.injEq] at reading
        obtain ⟨plan',again,_,_,rfl,_⟩ := reading
        exact Except.ok.inj (again.symm.trans read)
      subst planned
      have found : s.plans.lookup (planId,(snapshotOf rows).revision) = some rows :=
        loaded.revision ▸ loaded.stored
      have found' : t.plans.lookup (planId,(snapshotOf rows).revision) = some rows :=
        loaded.revision ▸ stored'
      simp only [found,found',← twin.nextUuid]
      cases resumeVerdict encoding (snapshotOf rows) reader with
      | quarantine fault => exact twin.storePlan _ _
      | recover active =>
        simp only
        cases recoverUnknownTx encoding ⟨rows,s.nextUuid⟩ (snapshotOf rows) reader.planState active now with
        | error e => exact twin
        | ok tx => exact twin.storePlan _ _
      | stable => exact twin

theorem mem_planRows {rows : PlanRows} : rows ∈ s.planRows ↔ ∃ key, s.plans.lookup key = some rows :=
  Tables.mem_values

-- The identifiers of approvals are taken, if at all, by rows that both stores have.
theorem Twin.approvalFree (twin : Twin tenantId ours s t) {approvalId : Uuid}
    (apart : ∀ store ∈ [s,t], ∀ rows ∈ store.planRows,
      approvalId ∈ rows.approvals.map (·.approval.approvalId) →
      rows.tenantId = tenantId) :
    (∀ rows ∈ s.planRows, approvalId ∉ rows.approvals.map (·.approval.approvalId)) ↔
      ∀ rows ∈ t.planRows, approvalId ∉ rows.approvals.map (·.approval.approvalId) := by
  constructor
  · intro free rows listed taken
    obtain ⟨key,found⟩ := mem_planRows.mp listed
    have own := apart t (by simp) rows listed taken
    exact free rows (mem_planRows.mpr ⟨key,twin.plans.symm.found found (by simpa using own)⟩) taken
  · intro free rows listed taken
    obtain ⟨key,found⟩ := mem_planRows.mp listed
    have own := apart s (by simp) rows listed taken
    exact free rows (mem_planRows.mpr ⟨key,twin.plans.found found (by simpa using own)⟩) taken

theorem approvePlan_twin {principal : Principal} {approval : PlanApproval} {key : String} {now : Time}
    (twin : Twin tenantId ours s t) (own : principal.tenantId = tenantId)
    (apart : ∀ store ∈ [s,t], ∀ rows ∈ store.planRows,
      approval.approvalId ∈ rows.approvals.map (·.approval.approvalId) → rows.tenantId = tenantId) :
    Paired (Ends (Twin tenantId ours)) (approvePlan encoding s principal approval key now)
      (approvePlan encoding t principal approval key now) := by
  subst own
  refine .same fun _ _ => .same fun _ _ => .same fun reference _ =>
    twin.beginPlan (fun tx other => ?_) fun rows _ _ => ?_
  · simp only [loadPlanTx_foreign other,error_bind,and_self]
  refine .same fun plan _ => .same fun _ _ => ?_
  cases rows.approvals.find? fun row => row.idempotencyKey == key with
  | some existing => exact .same fun _ _ => .ok ⟨rfl,twin⟩
  | none =>
    refine .require (twin.approvalFree apart) fun _ => .same fun decided _ => ?_
    obtain ⟨outcome,tx⟩ := decided
    exact .same fun tx _ => .ok ⟨rfl,twin.storePlan _ tx⟩

-- Submitting.

theorem Twin.countRequest {principal : Principal} {scope : String} (twin : Twin tenantId ours s t)
    (own : principal.tenantId = tenantId) (our : ours principal.operatorId)
    (listed : scope ∈ submitScopes principal) (start : Time) :
    Twin tenantId ours (Queue.countRequest start s scope) (Queue.countRequest start t scope) := by
  refine ⟨⟨twin.sessions,twin.limits,fun other tenant our' scope' listed' start' => ?_,twin.tasks,
    twin.plans⟩,twin.nextUuid⟩
  have same := twin.windows other tenant our' scope' listed' start'
  simp only [windowCount,Queue.countRequest,lookup_insert_eq] at same ⊢
  split
  · rw [show (s.rateWindows.lookup (scope,start)).getD 0 = (t.rateWindows.lookup (scope,start)).getD 0 from
      twin.windows principal own our scope listed start]
  · exact same

theorem Twin.quotas {limits : TenantLimits} {now : Time} {cost : Nat} (twin : Twin tenantId ours s t) :
    checkTaskQuotas s limits tenantId now cost = checkTaskQuotas t limits tenantId now cost := by
  have rows : ∀ p :
      TaskRecord → Bool, (s.taskRows.filter fun task => task.tenantId == tenantId && p task).Perm
      (t.taskRows.filter fun task => task.tenantId == tenantId && p task) := by
    intro p
    have order : ∀ l : List TaskRecord, (l.filter fun task => task.tenantId == tenantId && p task) =
        (l.filter fun task => task.tenantId == tenantId).filter p := fun l => by
      rw [List.filter_filter]
      simp only [Bool.and_comm]
    rw [order,order]
    exact twin.tasks.values.filter p
  have today :
      (tenantTasksSince s tenantId (dayStart now)).Perm (tenantTasksSince t tenantId (dayStart now)) :=
    rows fun task => dayStart now ≤ task.createdAt
  have spent : (tenantTasksSince s tenantId (dayStart now)).foldl
      (fun total task => saturatingAddU64 total task.envelope.budget.maxCostMicrounits) 0 =
      (tenantTasksSince t tenantId (dayStart now)).foldl
        (fun total task => saturatingAddU64 total task.envelope.budget.maxCostMicrounits) 0 := by
    refine today.foldl_eq' (fun one _ two _ total => ?_) 0
    unfold saturatingAddU64
    omega
  simp only [checkTaskQuotas,(rows fun task => task.status.isActive).length_eq,today.length_eq,spent]

theorem admitReference_twin {principal : Principal} {envelope : TaskEnvelope}
    {reference : Option PlanTaskReference} {clock : SubmitClock} (twin : Twin tenantId ours s t)
    (own : principal.tenantId = tenantId) :
    Paired (Ends (Twin tenantId ours)) (admitReference encoding s principal envelope reference clock)
      (admitReference encoding t principal envelope reference clock) := by
  subst own
  cases reference with
  | none => exact .ok ⟨rfl,twin⟩
  | some reference =>
    refine twin.beginPlan (fun tx other => ?_) fun rows _ _ => .same fun admitted _ => ?_
    · simp only [recordPlanAdmissionTx,verifyPlanAdmissionTx,loadPlanTx_foreign other,error_bind,and_self]
    · obtain ⟨approvalId,tx⟩ := admitted
      exact .ok ⟨rfl,twin.storePlan _ tx⟩

end Shaka.Store
