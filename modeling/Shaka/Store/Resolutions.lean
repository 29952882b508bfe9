import Shaka.Store.Interruptions

namespace Shaka.Store
open Shaka.Core Queue Plan CheckedSteps

variable {encoding : StoreEncoding} {s s' : QueueStore}

-- The latest revision of a plan, as `load_plan` finds it.

theorem latestPlan_found {planId : PlanId} {tenantId : TenantId} {key : PlanKey} {rows : PlanRows}
    (latest : latestPlan s planId tenantId = some (key,rows)) :
    s.plans.lookup key = some rows ∧ key.1 = planId ∧ rows.tenantId = tenantId := by
  have chosen := List.mem_of_head? latest
  simp only [List.mem_map,List.mem_insertionSort,List.mem_filter,Bool.and_eq_true,beq_iff_eq,Prod.mk.injEq]
    at chosen
  obtain ⟨⟨key',rows'⟩,⟨listed,same,tenant⟩,rfl,rfl⟩ := chosen
  exact ⟨AList.mem_lookup_iff.mpr listed,same,tenant⟩

structure Loaded (s : QueueStore) (planId : PlanId) (tenantId : TenantId) (key : PlanKey)
    (rows : PlanRows) : Prop where
  latest : latestPlan s planId tenantId = some (key,rows)
  stored : s.plans.lookup key = some rows
  key : key = (rows.plan.planId,rows.plan.revision)
  planId : rows.plan.planId = planId
  tenantId : rows.plan.tenantId = tenantId

theorem loadPlan_parts {planId : PlanId} {tenantId : TenantId} {plan : PlanSpec}
    (ok : loadPlan encoding s planId tenantId = .ok plan) :
    ∃ key rows, Loaded s planId tenantId key rows ∧ plan = snapshotOf rows := by
  simp only [loadPlan,bind_ok,orFail_ok,require_ok,exists_const,pure_ok] at ok
  obtain ⟨⟨key,rows⟩,latest,⟨same,tenant,revision,_⟩,_,_,_,_,rfl⟩ := ok
  obtain ⟨stored,first,_⟩ := latestPlan_found latest
  refine ⟨key,rows,⟨latest,stored,?_,same,tenant⟩,rfl⟩
  rw [same,revision,← first]

-- Resolving.

structure Resolution (encoding : StoreEncoding) (s s' : QueueStore) (request : ResolutionRequest)
    (now : Time) (key : PlanKey) (rows : PlanRows) (task : TaskRecord) (tx' noted : PlanTx)
    (update : TaskUpdate) :
    Prop where
  loaded : Loaded s request.planId request.principal.tenantId key rows
  unknown : rows.state = .unknown
  decided : resolveDecisionTx encoding ⟨rows,s.nextUuid⟩ (snapshotOf rows) request now = .ok tx'
  checkpoint : insertCheckpointTx tx' none .resolution
    (if request.decision = .cancel then .failed else .succeeded) request.evidenceDigest now = .ok noted
  listed : s.tasks.lookup rows.plan.taskId = some task
  refers : planKeyOf task = some key
  taskId : update.taskId = rows.plan.taskId
  tenantId : update.tenantId = task.tenantId
  lease : leaseOf (update.set task) = resolvedLease request.decision
  same : SameTask task (update.set task)
  stored : s' = (s.storePlan key noted).updateTask update

theorem updateTaskForResolution_parts {plan : PlanSpec} {status : TaskStatus} {flag : Bool}
    {lastError : Option String} {now : Time}
    (ok : updateTaskForResolution s plan status flag lastError now = .ok s') :
    ∃ task update, s.tasks.lookup plan.taskId = some task ∧ planKeyOf task = some (plan.planId,
      plan.revision) ∧
      update.taskId = plan.taskId ∧ update.tenantId = task.tenantId ∧
      leaseOf (update.set task) = .free status flag ∧
      SameTask task (update.set task) ∧ s' = s.updateTask update := by
  simp only [updateTaskForResolution,bind_ok,orFail_ok,require_ok,exists_const,pure_ok] at ok
  obtain ⟨task,found,⟨tenant,planId,revision⟩,rfl⟩ := ok
  exact ⟨task,_,found,by simp [planKeyOf,planId,revision],rfl,tenant.symm,rfl,
    ⟨rfl,rfl,rfl,rfl,rfl,rfl,rfl,rfl⟩,rfl⟩

-- A replay is told by the key alone; else the decision is taken, on a plan left `Unknown`.
theorem resolvePlanUnknown_answers {request : ResolutionRequest} {now : Time}
    (ok : resolvePlanUnknown encoding s request now = .ok (answer,s')) :
    (answer = .existing ∧ s' = s ∧ ∃ key rows transition,
      Loaded s request.planId request.principal.tenantId key rows ∧
      rows.transitions.find? (·.idempotencyKey == request.idempotencyKey) = some transition ∧
      transition.toState = .plan request.decision.target) ∨
    (answer = request.decision.outcome ∧ ∃ key rows task tx' noted update,
      Resolution encoding s s' request now key rows task tx' noted update) := by
  simp only [resolvePlanUnknown,bind_ok] at ok
  obtain ⟨_,_,plan,read,reference,named,tx,begun,ok⟩ := ok
  obtain ⟨key,rows,loaded,rfl⟩ := loadPlan_parts read
  obtain ⟨rows',stored,rfl⟩ := beginPlan_ok begun
  simp only [PlanTaskReference.new,bind_ok,require_ok,pure_ok,exists_const] at named
  obtain ⟨_,_,_,rfl⟩ := named
  have same : rows' = rows := by
    have again := loaded.stored
    rw [loaded.key] at again
    exact Option.some.inj (stored.symm.trans again)
  subst same
  split at ok
  · next transition found =>
    simp only [bind_ok,require_ok,exists_const,pure_ok,Prod.mk.injEq] at ok
    obtain ⟨target,rfl,rfl⟩ := ok
    exact .inl ⟨rfl,rfl,key,rows',transition,loaded,found,target⟩
  · simp only [bind_ok,require_ok,exists_const,pure_ok,Prod.mk.injEq] at ok
    obtain ⟨unknown,tx',decided,noted,checkpoint,s'',settled,rfl,rfl⟩ := ok
    have shown : ∃ task update, s.tasks.lookup rows'.plan.taskId = some task ∧
        planKeyOf task = some (rows'.plan.planId,rows'.plan.revision) ∧ update.taskId = rows'.plan.taskId ∧
        update.tenantId = task.tenantId ∧ leaseOf (update.set task) = resolvedLease request.decision ∧
        SameTask task (update.set task) ∧
        s'' = (s.storePlan (rows'.plan.planId,rows'.plan.revision) noted).updateTask update := by
      unfold resolvedTask at settled
      cases decision : request.decision <;> rw [decision] at settled <;>
        exact updateTaskForResolution_parts settled
    obtain ⟨task,update,listed,refers,taskId,tenantId,lease,same,stored'⟩ := shown
    rw [← loaded.key] at refers stored'
    exact .inr ⟨rfl,key,rows',task,tx',noted,update,loaded,unknown,decided,checkpoint,listed,refers,
      taskId,tenantId,lease,same,stored'⟩

theorem resolvePlanUnknown_parts {request : ResolutionRequest} {now : Time}
    (ok : resolvePlanUnknown encoding s request now = .ok (answer,s')) :
    s' = s ∨ ∃ key rows task tx' noted update,
    Resolution encoding s s' request now key rows task tx' noted update := by
  rcases resolvePlanUnknown_answers ok with ⟨_,same,_⟩ | ⟨_,resolved⟩
  · exact .inl same
  · exact .inr resolved

-- The move is on the latest revision of the plan.
theorem resolvePlanUnknown_advance {request : ResolutionRequest} {now : Time} (sound : Sound encoding s)
    (ok : resolvePlanUnknown encoding s request now = .ok (answer,s')) :
    Advance encoding (fun act task rows => Concerned s (.resolvePlanUnknown request now) act task rows ∧
      ∃ key, Loaded s request.planId request.principal.tenantId key rows) s s' := by
  rcases resolvePlanUnknown_parts ok with rfl | ⟨key,rows,task,tx',noted,update,resolution⟩
  · exact .aside rfl fun _ => rfl
  obtain ⟨loaded,unknown,decided,checkpoint,listed,refers,taskId,tenantId,lease,same,rfl⟩ := resolution
  have named := (sound.rowed _ _ listed).taskId
  rw [← named] at listed taskId
  obtain ⟨ws,lease',tx'',move,made,rfl,rfl⟩ := (@resolveDecisionTx_moves encoding ⟨rows,s.nextUuid⟩ task _ _
    unknown (sound.filed _ _ loaded.stored).distinct).done _ decided
  have made := made.trans (insertCheckpoint_writes.ran checkpoint)
  rw [List.append_nil] at made
  rw [storePlan_updateTask listed ⟨taskId,tenantId,lease,same⟩]
  have free : (resolvedLease request.decision).planStep = none := by cases request.decision <;> rfl
  exact moves_advance sound listed refers loaded.stored (lease ▸ move) made.edits made.reached same
    (.inl (lease_step lease free)) ⟨⟨listed,⟨_,refers,loaded.stored⟩,loaded.planId,rfl⟩,
      ⟨_,loaded⟩⟩ (sets_insert rfl) rfl

end Shaka.Store
