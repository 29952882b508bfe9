import Shaka.Store.Soundness

namespace Shaka.Store
open Shaka.Core Queue Plan CheckedSteps

variable {encoding : StoreEncoding} {s s' : QueueStore}

-- The moves that an operation can make.
def ActOf (op : Operation) (act : Act) (task : TaskRecord) (rows : PlanRows) : Prop :=
  match op with
  | .claim now _ _ => (∃ x, act = .claim x) ∧ isDue now task = true
  | .finish taskId _ _ _ now _ => act = .finish now ∧ task.taskId = taskId
  | .requestCancel taskId _ _ => act = .cancel ∧ task.taskId = taskId
  | .recoverExpiredLeases now => act = .recover now ∧ isExpired now task = true
  | .resolvePlanUnknown request _ => rows.plan.planId = request.planId ∧ act = resolutionAct rows request
  | .resumePlan _ planId _ => act = .restart ∧ rows.plan.planId = planId
  | _ => False

structure Concerned (s : QueueStore) (op : Operation) (act : Act) (task : TaskRecord) (rows : PlanRows) :
    Prop where
  listed : s.tasks.lookup task.taskId = some task
  stored : ∃ key, planKeyOf task = some key ∧ s.plans.lookup key = some rows
  act : ActOf op act task rows

theorem taskReference_ok {task : TaskRecord} {reference : PlanTaskReference}
    (ok : taskReference task = .ok reference) : task.planId = some reference.planId ∧
      task.planRevision = some reference.revision ∧ task.planDigest = some reference.digest := by
  unfold taskReference at ok
  split at ok
  · next planId revision digest =>
    simp only [PlanTaskReference.new,bind_ok,require_ok,pure_ok,exists_const] at ok
    obtain ⟨_,_,_,rfl⟩ := ok
    exact ⟨planId,revision,digest⟩
  · cases ok

theorem taskReference_key {task : TaskRecord} {reference : PlanTaskReference}
    (ok : taskReference task = .ok reference) :
    planKeyOf task = some (reference.planId,reference.revision) := by
  obtain ⟨planId,revision,_⟩ := taskReference_ok ok
  simp [planKeyOf,planId,revision]

theorem mem_taskRows {task : TaskRecord} :
    task ∈ s.taskRows ↔ ∃ taskId, s.tasks.lookup taskId = some task := by
  simp only [QueueStore.taskRows,List.mem_map,Sigma.exists,exists_eq_right,AList.mem_lookup_iff,
    ← Option.mem_def]

theorem updateTask_found {update : TaskUpdate} (task : TaskRecord)
    (found : s.tasks.lookup update.taskId = some task) (tenant : task.tenantId = update.tenantId) :
    s.updateTask update = {s with tasks:=s.tasks.insert update.taskId (update.set task)} := by
  simp [QueueStore.updateTask,found,tenant]

-- Claiming.

-- A loop that skips candidates until one can be prepared, and then leases it.
theorem claimFirst_parts {planContext : PlanClaimContext} {leaseUntil now : Time}
    {candidates : List TaskRecord}
    (ok : claimFirst encoding s planContext leaseUntil now candidates = .ok (answer,s')) :
    (answer = none ∧ s' = s ∧ ∀ candidate ∈ candidates,
      prepareCandidate encoding s candidate planContext now = .ok none) ∨
    ∃ skipped candidate rest task bound prepared claimed, candidates = skipped ++ candidate :: rest ∧
      (∀ other ∈ skipped, prepareCandidate encoding s other planContext now = .ok none) ∧
      prepareCandidate encoding s candidate planContext now = .ok (some (task,bound,prepared)) ∧
      leaseTask encoding prepared task bound leaseUntil now = .ok (claimed,s') ∧ answer = some claimed := by
  induction candidates with
  | nil =>
    cases ok
    exact .inl ⟨rfl,rfl,by simp⟩
  | cons candidate rest ih =>
    obtain ⟨preparation,prepared,ok⟩ := bind_ok.mp ok
    split at ok
    · rcases ih ok with ⟨none,same,skips⟩ | ⟨skipped,other,later,task,bound,store,claimed,split_,skips,
        found,leased,some_⟩
      · exact .inl ⟨none,same,by simpa [prepared] using skips⟩
      · exact .inr ⟨candidate :: skipped,other,later,task,bound,store,claimed,by simp [split_],
          by simpa [prepared] using skips,found,leased,some_⟩
    · next task bound store =>
      obtain ⟨⟨claimed,next⟩,leased,same⟩ := bind_ok.mp ok
      cases same
      exact .inr ⟨[],candidate,rest,task,bound,store,claimed,rfl,by simp,prepared,leased,rfl⟩

def effectiveContext (planContext : PlanClaimContext) (task : TaskRecord) : PlanClaimContext :=
  {planContext with grantedCapabilities:=task.envelope.executionContext.capabilities}

-- A candidate that was prepared is direct, or a step of its plan was bound.
theorem prepareCandidate_parts {candidate task : TaskRecord} {planContext : PlanClaimContext} {now : Time}
    {bound : Option (PlanId × PlanStep)} {prepared : QueueStore}
    (ok : prepareCandidate encoding s candidate planContext now = .ok (some (task,bound,prepared))) :
    s.tasks.lookup candidate.taskId = some task ∧ checkTaskRow task = .ok () ∧
      task.tenantId = candidate.tenantId ∧
      ((task.planId = none ∧ bound = none ∧ prepared = s) ∨
      ∃ reference rows step tx', taskReference task = .ok reference ∧
        s.plans.lookup (reference.planId,reference.revision) = some rows ∧
        preparePlannedClaimTx encoding ⟨rows,s.nextUuid⟩ task reference (effectiveContext planContext task)
          now = .ok (some (step,tx')) ∧ bound = some (reference.planId,step) ∧
        prepared = s.storePlan (reference.planId,reference.revision) tx') := by
  simp only [prepareCandidate,bind_ok,liftCore_ok] at ok
  obtain ⟨tenantId,tenant,task',loaded,ok⟩ := ok
  obtain ⟨found,same,checked⟩ := loadTask_ok.mp loaded
  have tenant : tenantId = candidate.tenantId := by
    unfold TenantId.new at tenant
    split at tenant
    · cases tenant
    · cases tenant; rfl
  split at ok
  · next planned =>
    obtain ⟨reference,named,ok⟩ := bind_ok.mp ok
    obtain ⟨tx,begun,ok⟩ := bind_ok.mp ok
    obtain ⟨preparation,ran,ok⟩ := bind_ok.mp ok
    split at ok
    · next step tx' =>
      cases ok
      obtain ⟨rows,stored,rfl⟩ := beginPlan_ok begun
      exact ⟨found,checked,same.trans tenant,.inr ⟨reference,rows,step,tx',named,stored,ran,rfl,rfl⟩⟩
    · cases ok
  · next direct =>
    cases ok
    exact ⟨found,checked,same.trans tenant,.inl ⟨by simpa using direct,rfl,rfl⟩⟩

theorem leaseTask_parts {task claimed : TaskRecord} {bound : Option (PlanId × PlanStep)}
    {leaseUntil now : Time} (found : s.tasks.lookup task.taskId = some task)
    (ok : leaseTask encoding s task bound leaseUntil now = .ok (claimed,s')) :
    ∃ row, row = leaseRow ⟨s.nextUuid⟩ (bound.map fun scope => scope.2.stepId) leaseUntil now task ∧
      checkTaskRow row = .ok () ∧ s' = {s with nextUuid:=s.nextUuid + 1,tasks:=s.tasks.insert task.taskId row} ∧
      claimed = {row with planExecutionScope:=bound.map fun (planId,step) =>
        ⟨planId,step.stepId,step.action⟩} := by
  simp only [leaseTask,bind_ok,pure_ok,Prod.mk.injEq] at ok
  obtain ⟨row,loaded,rfl,rfl⟩ := ok
  rw [updateTask_found task found rfl] at loaded ⊢
  obtain ⟨stored,_,checked⟩ := loadTask_ok.mp loaded
  rw [AList.lookup_insert,Option.some.injEq] at stored
  subst stored
  exact ⟨_,rfl,checked,rfl,rfl⟩

theorem mem_claimCandidates {now : Time} {candidate : TaskRecord}
    (listed : candidate ∈ claimCandidates s now) : candidate ∈ s.taskRows ∧ isDue now candidate = true := by
  have chosen := List.mem_of_mem_take listed
  rw [List.mem_insertionSort] at chosen
  exact List.mem_filter.mp chosen

-- A candidate is the row that is read again before it is prepared.
theorem candidate_listed {now : Time} {candidate : TaskRecord}
    (rowed : ∀ taskId task, s.tasks.lookup taskId = some task → task.taskId = taskId)
    (listed : candidate ∈ claimCandidates s now) : s.tasks.lookup candidate.taskId = some candidate := by
  obtain ⟨taskId,found⟩ := mem_taskRows.mp (mem_claimCandidates listed).1
  rwa [rowed taskId candidate found]

theorem leaseRow_taskId {task : TaskRecord} {token : LeaseToken} {stepId : Option PlanStepId}
    {leaseUntil now : Time} : (leaseRow token stepId leaseUntil now task).taskId = task.taskId := by
  unfold leaseRow
  split <;> rfl

theorem leaseRow_rowed {task : TaskRecord} {token : LeaseToken} {stepId : Option PlanStepId}
    {leaseUntil now : Time} (rowed : Rowed task.taskId task) (queued : task.status = .queued)
    (unplanned : task.planId = none → stepId = none)
    (checked : checkTaskRow (leaseRow token stepId leaseUntil now task) = .ok ()) :
    Rowed task.taskId (leaseRow token stepId leaseUntil now task) := by
  obtain ⟨_,_,revision,digest,_⟩ := rowed
  refine ⟨?_,checked,?_,?_,?_⟩ <;> simp only [leaseRow,queued,if_true] <;> assumption

-- The leased row is accepted when its attempt can be counted.

theorem leaseRow_counted {task : TaskRecord} {token : LeaseToken} {stepId : Option PlanStepId}
    {leaseUntil now : Time} (queued : task.status = .queued)
    (checked : checkTaskRow (leaseRow token stepId leaseUntil now task) = .ok ()) :
    task.attempts < maxU32 := by
  rw [leaseRow,if_pos queued] at checked
  simp only [checkTaskRow,bind_ok,require_ok,checkOption_ok,exists_const] at checked
  obtain ⟨_,_,_,_,counted,_⟩ := checked
  exact counted

theorem leaseRow_checked {task : TaskRecord} {token : LeaseToken} {stepId : Option PlanStepId}
    {leaseUntil now : Time} (checked : checkTaskRow task = .ok ()) (queued : task.status = .queued)
    (few : task.attempts < maxU32)
    (bound : ∀ x ∈ stepId, validatePlanKey x.text "step_id" = .ok () ∧ task.planId.isSome = true) :
    checkTaskRow (leaseRow token stepId leaseUntil now task) = .ok () := by
  rw [leaseRow,if_pos queued]
  simp only [checkTaskRow,bind_ok,require_ok,checkOption_ok,exists_const] at checked ⊢
  obtain ⟨revision,_,⟨whole,digest,_⟩,priority,_,rest⟩ := checked
  refine ⟨revision,fun x named => liftCore_ok.mpr (bound x named).1,⟨whole,digest,fun named => ?_⟩,
    priority,few,rest⟩
  obtain ⟨x,same⟩ := Option.isSome_iff_exists.mp named
  exact (bound x same).2

theorem leaseTask_done {task : TaskRecord} {bound : Option (PlanId × PlanStep)} {leaseUntil now : Time}
    (found : s.tasks.lookup task.taskId = some task)
    (checked : checkTaskRow (leaseRow ⟨s.nextUuid⟩ (bound.map fun scope =>
      scope.2.stepId) leaseUntil now task) = .ok ()) : leaseTask encoding s task bound leaseUntil now =
      .ok ({leaseRow ⟨s.nextUuid⟩ (bound.map fun scope => scope.2.stepId) leaseUntil now task with
          planExecutionScope:=bound.map fun (planId,step) => ⟨planId,step.stepId,step.action⟩},
        {s with
          nextUuid:=s.nextUuid + 1
          tasks:=s.tasks.insert task.taskId (leaseRow ⟨s.nextUuid⟩ (bound.map fun scope =>
            scope.2.stepId) leaseUntil now task)}) := by
  have updated := @updateTask_found {s with nextUuid:=s.nextUuid + 1} ⟨task.taskId,task.tenantId,
    leaseRow ⟨s.nextUuid⟩ (bound.map fun scope => scope.2.stepId) leaseUntil now⟩ task found rfl
  refine bind_ok.mpr ⟨leaseRow ⟨s.nextUuid⟩ (bound.map fun scope => scope.2.stepId) leaseUntil now task,?_,?_⟩
  · rw [updated]
    refine loadTask_ok.mpr ⟨AList.lookup_insert _,?_,checked⟩
    unfold leaseRow
    split <;> rfl
  · rw [updated]
    rfl

theorem leaseOf_leaseRow {task : TaskRecord} {token : LeaseToken} {stepId : Option PlanStepId}
    {leaseUntil now : Time} (due : isDue now task = true) :
    leaseOf (leaseRow token stepId leaseUntil now task) = ⟨.running,false,stepId,some token,some leaseUntil⟩ := by
  simp only [isDue,Bool.and_eq_true,beq_iff_eq,Bool.not_eq_true'] at due
  simp [leaseRow,leaseOf,due.1.1,due.1.2]

theorem claim_advance {now leaseFor : Time} {planContext : PlanClaimContext} (sound : Sound encoding s)
    (ok : claimNextWithPlanContext encoding s now leaseFor planContext = .ok (answer,s')) :
    Advance encoding (Concerned s (.claim now leaseFor planContext)) s s' := by
  simp only [claimNextWithPlanContext,bind_ok,require_ok,exists_const] at ok
  rcases claimFirst_parts ok.2 with ⟨_,rfl,_⟩ |
    ⟨skipped,candidate,rest,task,bound,prepared,claimed,order,_,preparation,leased,_⟩
  · exact .aside rfl fun _ => rfl
  have listed : candidate ∈ claimCandidates s now := by simp [order]
  obtain ⟨_,due⟩ := mem_claimCandidates listed
  have present := candidate_listed (fun taskId task found => (sound.rowed taskId task found).taskId) listed
  obtain ⟨found,_,_,outcome⟩ := prepareCandidate_parts preparation
  obtain rfl := Option.some.inj (present.symm.trans found)
  have queued : candidate.status = .queued := by
    simp only [isDue,Bool.and_eq_true,beq_iff_eq] at due
    exact due.1.1
  have rowed := sound.rowed _ _ present
  rcases outcome with ⟨direct,rfl,rfl⟩ | ⟨reference,rows,step,tx',named,stored,granted,rfl,rfl⟩
  · obtain ⟨row,made,checked,rfl,_⟩ := leaseTask_parts found leased
    subst made
    refine .direct (leaseRow_rowed rowed queued (fun _ => rfl) checked) ?_ ?_ rfl rfl
    · simp [leaseRow,queued,direct]
    · intro old present'
      obtain rfl := Option.some.inj (present.symm.trans present')
      exact direct
  · obtain ⟨row,made,checked,rfl,_⟩ := leaseTask_parts (s := s.storePlan _ tx') found leased
    subst made
    have refers := taskReference_key named
    obtain ⟨rows',stored',joined,coherent⟩ := sound.joined _ _ _ present refers
    obtain rfl := Option.some.inj (stored.symm.trans stored')
    obtain ⟨granted,ran⟩ := preparePlannedClaimTx_ok.mp granted
    have ran := bindStepTx_writes.ran ran
    have lease := @leaseOf_leaseRow _ ⟨(s.storePlan (reference.planId,reference.revision) tx').nextUuid⟩
      (some step.stepId) (now + leaseFor) _ due
    have move := @Move.claimed encoding.toEncoding _ _ _ now
      ⟨(s.storePlan (reference.planId,reference.revision) tx').nextUuid⟩ (now + leaseFor)
        (granted.claimable_step due)
    have planned : candidate.planId ≠ none := by simp [joined.planId]
    refine .moved present refers stored (leaseRow_rowed rowed queued (fun direct => absurd direct planned) checked)
      (joined.task ?_ ?_ ?_ ?_ ?_) ⟨⟨_,by rw [Option.map_some,lease]; exact move,ran.reached⟩,ran.edits,?_,?_⟩
      ⟨present,⟨_,refers,stored⟩,⟨step.stepId,rfl⟩,due⟩ (sets_insert rfl) rfl
    all_goals simp only [leaseRow,queued,if_true]

-- Ending a lease.

theorem checkTaskRow_same {task task' : TaskRecord} (same : SameTask task task')
    (step : task'.planStepId = none ∨ task'.planStepId = task.planStepId)
    (checked : checkTaskRow task = .ok ()) : checkTaskRow task' = .ok () := by
  obtain ⟨_,_,planId,planRevision,planDigest,priority,attempts,maxAttempts⟩ := same
  simp only [checkTaskRow,bind_ok,require_ok,checkOption_ok,exists_const,planId,planRevision,
    planDigest,priority,attempts,maxAttempts] at checked ⊢
  rcases step with step | step <;> rw [step]
  · exact ⟨checked.1,by simp,⟨checked.2.2.1.1,checked.2.2.1.2.1,by simp⟩,checked.2.2.2⟩
  · exact checked

theorem Rowed.same {taskId : TaskId} {task task' : TaskRecord} (rowed : Rowed taskId task)
    (same : SameTask task task') (step : task'.planStepId = none ∨ task'.planStepId = task.planStepId) :
    Rowed taskId task' := by
  obtain ⟨key,checked,revision,digest,direct⟩ := rowed
  refine ⟨same.taskId.trans key,checkTaskRow_same same step checked,?_,?_,fun unplanned => ?_⟩
  · rw [same.planRevision,same.planId,revision]
  · rw [same.planDigest,same.planId,digest]
  · rcases step with step | step
    · exact step
    · exact step.trans (direct (same.planId ▸ unplanned))

theorem Joined.sameTask {task task' : TaskRecord} {rows : PlanRows} (joined : Joined task rows)
    (same : SameTask task task') : Joined task' rows :=
  joined.task same.taskId same.tenantId same.planId same.planRevision same.planDigest

-- The store after a transaction on a plan and an update of its task.
theorem storePlan_updateTask {key : PlanKey} {tx' : PlanTx} {update : TaskUpdate} {task : TaskRecord}
    {lease : Lease} (found : s.tasks.lookup task.taskId = some task) (settles : Settles update task lease) :
    (s.storePlan key tx').updateTask update =
      {s with
        plans:=s.plans.insert key tx'.rows
        nextUuid:=tx'.nextUuid
        tasks:=s.tasks.insert task.taskId (update.set task)} := by
  rw [updateTask_found task (by rw [settles.taskId]; exact found) settles.tenantId.symm,settles.taskId]
  rfl

theorem finish_parts {taskId : TaskId} {tenantId : TenantId} {leaseToken : LeaseToken} {report : FinishReport}
    {now : Time} {planContext : PlanClaimContext}
    (ok : finishTaskWithLeaseToken encoding s taskId tenantId leaseToken report now planContext =
      .ok (answer,s')) :
    s' = s ∨ ∃ task, s.tasks.lookup taskId = some task ∧ task.tenantId = tenantId ∧
    checkTaskRow task = .ok () ∧ task.status.isTerminal = false ∧ task.leaseToken = some leaseToken ∧
      ((task.planId = none ∧ s' = s.updateTask (finishDirect task report now).2) ∨
      ∃ reference rows outcome tx' update, taskReference task = .ok reference ∧
        s.plans.lookup (reference.planId,reference.revision) = some rows ∧
        finishPlannedStepTx encoding ⟨rows,s.nextUuid⟩ task reference report planContext now =
          .ok (outcome,tx',update) ∧
        s' = (s.storePlan (reference.planId,reference.revision) tx').updateTask update) := by
  obtain ⟨task,loaded,ok⟩ := bind_ok.mp ok
  obtain ⟨found,tenant,checked⟩ := loadTask_ok.mp loaded
  split at ok
  · cases ok
    exact .inl rfl
  next open_ =>
  obtain ⟨_,held,ok⟩ := bind_ok.mp ok
  rw [require_ok] at held
  refine .inr ⟨task,found,tenant,checked,by simpa using open_,held.1,?_⟩
  split at ok
  · obtain ⟨reference,named,ok⟩ := bind_ok.mp ok
    obtain ⟨tx,begun,ok⟩ := bind_ok.mp ok
    obtain ⟨⟨answer,tx',update⟩,ran,ok⟩ := bind_ok.mp ok
    cases ok
    obtain ⟨rows,stored,rfl⟩ := beginPlan_ok begun
    exact .inr ⟨reference,rows,_,tx',update,named,stored,ran,rfl⟩
  · next direct =>
    cases ok
    exact .inl ⟨by simpa using direct,rfl⟩

theorem finishDirect_same {task : TaskRecord} {report : FinishReport} {now : Time} :
    (finishDirect task report now).2.taskId = task.taskId ∧ (finishDirect task report now).2.tenantId =
      task.tenantId ∧ SameTask task ((finishDirect task report now).2.set task) ∧
      ((finishDirect task report now).2.set task).planStepId = task.planStepId := by
  unfold finishDirect
  split
  · exact ⟨rfl,rfl,⟨rfl,rfl,rfl,rfl,rfl,rfl,rfl,rfl⟩,rfl⟩
  split
  · exact ⟨rfl,rfl,⟨rfl,rfl,rfl,rfl,rfl,rfl,rfl,rfl⟩,rfl⟩
  split <;> exact ⟨rfl,rfl,⟨rfl,rfl,rfl,rfl,rfl,rfl,rfl,rfl⟩,rfl⟩

-- An update of a task without a plan that leaves its identity alone.
theorem direct_advance {permitted : Act → TaskRecord → PlanRows → Prop} (sound : Sound encoding s)
    {taskId : TaskId} {task task' : TaskRecord} (found : s.tasks.lookup taskId = some task)
    (direct : task.planId = none) (same : SameTask task task') (step : task'.planStepId = task.planStepId)
    (tasks : s'.tasks = s.tasks.insert taskId task') (plans : s'.plans = s.plans) :
    Advance encoding permitted s s' := by
  refine .direct ((sound.rowed _ _ found).same same (.inr step)) (same.planId.trans direct) ?_ tasks plans
  intro old present
  obtain rfl := Option.some.inj (found.symm.trans present)
  exact direct

-- A move of a task and its plan, made by a transaction on the plan.
theorem moves_advance {permitted : Act → TaskRecord → PlanRows → Prop} (sound : Sound encoding s) {act : Act}
    {task task' : TaskRecord} {key : PlanKey} {rows rows' : PlanRows} {ws : List Write}
    (found : s.tasks.lookup task.taskId = some task) (refers : planKeyOf task = some key)
    (stored : s.plans.lookup key = some rows)
    (move : Move encoding.toEncoding rows.plan act (flowOf task rows) ws (leaseOf task'))
    (edits : Edits encoding rows rows') (reached : view rows' = (view rows).writes ws)
    (same : SameTask task task') (step : task'.planStepId = none ∨ task'.planStepId = task.planStepId)
    (may : permitted act task rows) (tasks : Sets s.tasks s'.tasks task.taskId task')
    (plans : s'.plans = s.plans.insert key rows') : Advance encoding permitted s s' := by
  obtain ⟨rows'',stored',joined,_⟩ := sound.joined _ _ _ found refers
  obtain rfl := Option.some.inj (stored.symm.trans stored')
  exact .moved found refers stored ((sound.rowed _ _ found).same same step) (joined.sameTask same)
    ⟨⟨ws,move,reached⟩,edits,same.planId,same.planRevision⟩ may tasks plans

theorem pair_coherent (sound : Sound encoding s) {task : TaskRecord} {key : PlanKey} {rows : PlanRows}
    (found : s.tasks.lookup task.taskId = some task) (refers : planKeyOf task = some key)
    (stored : s.plans.lookup key = some rows) : Coherent (flowOf task rows) ∧ Joined task rows := by
  obtain ⟨rows',stored',joined,coherent⟩ := sound.joined _ _ _ found refers
  obtain rfl := Option.some.inj (stored.symm.trans stored')
  exact ⟨coherent,joined⟩

theorem lease_step {task : TaskRecord} {lease : Lease} (same : leaseOf task = lease)
    (free : lease.planStep = none) : task.planStepId = none := by
  subst same
  exact free

theorem finish_advance {taskId : TaskId} {tenantId : TenantId} {leaseToken : LeaseToken}
    {report : FinishReport} {now : Time} {planContext : PlanClaimContext} (sound : Sound encoding s)
    (ok : finishTaskWithLeaseToken encoding s taskId tenantId leaseToken report now planContext =
      .ok (answer,s')) :
    Advance encoding (Concerned s (.finish taskId tenantId leaseToken report now planContext)) s s' := by
  rcases finish_parts ok with rfl | ⟨task,found,_,_,_,_,outcome⟩
  · exact .aside rfl fun _ => rfl
  obtain rfl := (sound.rowed _ _ found).taskId
  rcases outcome with ⟨direct,rfl⟩ | ⟨reference,rows,outcome,tx',update,named,stored,ran,rfl⟩
  · obtain ⟨key,tenant,same,step⟩ := @finishDirect_same task report now
    rw [updateTask_found task (key ▸ found) tenant.symm,key]
    exact direct_advance sound found direct same step rfl rfl
  · have refers := taskReference_key named
    obtain ⟨coherent,joined⟩ := pair_coherent sound found refers stored
    obtain ⟨ws,lease,tx'',move,made,rfl,settles⟩ :=
      (@finishPlannedStepTx_moves encoding ⟨rows,s.nextUuid⟩ _ _ _ _ _ coherent ⟨joined.taskId,
        joined.tenantId⟩ (sound.filed _ _ stored).columned).done _ ran
    rw [storePlan_updateTask found settles]
    have free : lease.planStep = none := by cases move <;> rfl
    exact moves_advance sound found refers stored (settles.lease ▸ move) made.edits made.reached settles.same
      (.inl (lease_step settles.lease free)) ⟨found,⟨_,refers,stored⟩,⟨rfl,rfl⟩⟩ (sets_insert rfl) rfl

end Shaka.Store
