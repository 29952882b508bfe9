import Shaka.Store.Unstarted

namespace Shaka.Store
open Shaka.Core Queue Plan CheckedSteps Precedence

variable {encoding : StoreEncoding} {s s' : QueueStore} {task : TaskRecord} {rows rows' : PlanRows}
  {done : List PlanStepId} {since now : Time}

def referenceOf (rows : PlanRows) : PlanTaskReference :=
  ⟨rows.plan.planId,rows.plan.revision,rows.plan.digest⟩

-- Between its turns: the task waits in the queue, the only one to do so, and its
-- plan has come as far as the steps that are done.
structure Resting (encoding : StoreEncoding) (s : QueueStore) (task : TaskRecord) (rows : PlanRows)
    (done : List PlanStepId) (since : Time) : Prop where
  linked : Linked encoding s
  tenant : TenantId.new task.tenantId.text = .ok task.tenantId
  listed : s.tasks.lookup task.taskId = some task
  queued : task.status = .queued
  uncancelled : task.cancelRequested = false
  due : task.nextAttemptAt ≤ since
  alone : ∀ taskId other, s.tasks.lookup taskId = some other → other.status = .queued → taskId = task.taskId
  named : taskReference task = .ok (referenceOf rows)
  stored : s.plans.lookup (rows.plan.planId,rows.plan.revision) = some rows
  unbound : task.planStepId = none
  attempts : task.attempts = done.length
  underway : Underway encoding done rows
  distinct : done.Nodup
  planned : ∀ x ∈ done, x ∈ rows.plan.stepIds
  ordered : Respects (needsOf rows.plan.steps) done

theorem Linked.committed {op : Operation} (linked : Linked encoding s)
    (ok : transaction encoding op s = .ok ((),s')) : Linked encoding s' := by
  rw [← exec_ok ok]
  exact exec_linked linked op

-- What the checks on a task and its plan find when the two belong together.
theorem Filed.loads {key : PlanKey} (filed : Filed encoding key rows) (joined : Joined task rows) :
    loadPlanTx encoding rows task.tenantId (referenceOf rows) = .ok (snapshotOf rows) :=
  loadPlanTx_ok.mpr ⟨rfl,filed.tenantId.trans joined.tenantId,filed.digest,rfl,rfl,joined.tenantId,rfl,
    filed.structured,filed.sealed⟩

theorem Linked.loads (linked : Linked encoding s) {taskId : TaskId}
    (listed : s.tasks.lookup taskId = some task) (named : taskReference task = .ok (referenceOf rows))
    (stored : s.plans.lookup (rows.plan.planId,rows.plan.revision) = some rows) :
    loadPlanTx encoding rows task.tenantId (referenceOf rows) = .ok (snapshotOf rows) ∧
      rows.plan.taskId = task.taskId ∧ rows.plan.mode = .dryRun := by
  obtain ⟨rows',stored',joined⟩ := linked.joined _ _ _ listed (taskReference_key named)
  obtain rfl := Option.some.inj (stored.symm.trans stored')
  exact ⟨(linked.filed _ _ stored).loads joined,joined.taskId,joined.mode⟩

theorem filter_single {α : Type} {p : α → Bool} {items : List α} {item : α} (distinct : items.Nodup)
    (present : item ∈ items) (only : ∀ other ∈ items, p other = true ↔ other = item) :
    items.filter p = [item] := by
  refine List.perm_singleton.mp
    ((List.perm_ext_iff_of_nodup (distinct.filter _) (List.nodup_singleton item)).mpr ?_)
  intro other
  rw [List.mem_filter,List.mem_singleton]
  exact ⟨fun found => (only other found.1).mp found.2,fun same =>
    same ▸ ⟨present,(only item present).mpr rfl⟩⟩

section Resting
variable (resting : Resting encoding s task rows done since)
include resting

theorem Resting.isDue (later : since ≤ now) : isDue now task = true := by
  simp only [Queue.isDue,resting.queued,resting.uncancelled]
  simpa using resting.due.trans later

theorem Resting.candidates (later : since ≤ now) : claimCandidates s now = [task] := by
  have rowed := fun taskId task found => (resting.linked.rowed taskId task found).taskId
  have only : s.taskRows.filter (Queue.isDue now) = [task] := by
    refine filter_single (List.Nodup.of_map _ (taskRows_distinct rowed)) (mem_taskRows.mpr ⟨_,
      resting.listed⟩) ?_
    intro other listed
    obtain ⟨taskId,found⟩ := mem_taskRows.mp listed
    refine ⟨fun due => ?_,fun same => same ▸ resting.isDue later⟩
    simp only [Queue.isDue,Bool.and_eq_true,beq_iff_eq] at due
    have same := resting.alone taskId other found due.1.1
    exact Option.some.inj (found.symm.trans (same ▸ resting.listed))
  rw [claimCandidates,only]
  rfl

theorem Resting.left (few : done.length < rows.plan.stepIds.length) : ∃ x ∈ rows.plan.stepIds, x ∉ done := by
  by_contra all
  have finished : rows.plan.stepIds ⊆ done := fun x planned => by
    by_contra undone
    exact all ⟨x,planned,undone⟩
  have distinct : rows.plan.stepIds.Nodup :=
    (validateStructure_steps resting.underway.wellFormed.structured).2.1
  exact absurd (List.subperm_of_subset distinct finished).length_le (by omega)

-- At most as many steps have been done as the plan has.
theorem Resting.few : task.attempts ≤ 128 := by
  have structured := resting.underway.wellFormed.structured
  simp only [PlanSpec.validateStructure,bind_ok,require_ok,exists_const] at structured
  obtain ⟨_,⟨_,bounded⟩,_⟩ := structured
  have count := (List.subperm_of_subset resting.distinct resting.planned).length_le
  rw [PlanSpec.stepIds,List.length_map] at count
  rw [resting.attempts]
  exact count.trans bounded

end Resting

-- The row that a claim leaves.
def heldRow (task : TaskRecord) (x : PlanStepId) (token : LeaseToken) (leaseUntil now : Time) : TaskRecord :=
  {task with
    status:=.running
    attempts:=task.attempts + 1
    leaseUntil:=some leaseUntil
    leaseToken:=some token
    planStepId:=some x
    updatedAt:=now}

theorem leaseRow_queued {x : PlanStepId} {token : LeaseToken} {leaseUntil : Time}
    (queued : task.status = .queued) :
    leaseRow token (some x) leaseUntil now task = heldRow task x token leaseUntil now := if_pos queued

-- Within a turn: the task is leased for a step that its plan runs.
structure Holding (encoding : StoreEncoding) (s : QueueStore) (task : TaskRecord) (rows rows' : PlanRows)
    (done : List PlanStepId) (step : PlanStep) (token : LeaseToken) (leaseUntil claimAt : Time) : Prop where
  linked : Linked encoding s
  tenant : TenantId.new task.tenantId.text = .ok task.tenantId
  listed : s.tasks.lookup task.taskId = some (heldRow task step.stepId token leaseUntil claimAt)
  uncancelled : task.cancelRequested = false
  alone : ∀ taskId other, s.tasks.lookup taskId = some other → other.status = .queued → taskId = task.taskId
  named : taskReference task = .ok (referenceOf rows)
  stored : s.plans.lookup (rows.plan.planId,rows.plan.revision) = some rows'
  attempts : task.attempts = done.length
  claimed : Claimed encoding done step.stepId claimAt rows rows'
  member : step ∈ rows.plan.steps
  distinct : (done ++ [step.stepId]).Nodup
  planned : ∀ x ∈ done ++ [step.stepId], x ∈ rows.plan.stepIds
  ordered : Respects (needsOf rows.plan.steps) (done ++ [step.stepId])

-- A claim that finds one candidate, and can prepare it.
theorem claimNext_single {leaseFor : Time} {planContext : PlanClaimContext} {candidate claimed : TaskRecord}
    {bound : Option (PlanId × PlanStep)} {prepared : QueueStore} (leased : 0 < leaseFor)
    (candidates : claimCandidates s now = [candidate])
    (preparation : prepareCandidate encoding s candidate planContext now = .ok (some (task,bound,prepared)))
    (leasing : leaseTask encoding prepared task bound (now + leaseFor) now = .ok (claimed,s')) :
    claimNextWithPlanContext encoding s now leaseFor planContext = .ok (some claimed,s') := by
  unfold claimNextWithPlanContext
  rw [require_pos _ leased,ok_bind,candidates,claimFirst,preparation,ok_bind]
  simp only [leasing,ok_bind]
  rfl

theorem Resting.claims {leaseFor : Time} {planContext : PlanClaimContext}
    (resting : Resting encoding s task rows done since) (approved : ApprovedAt rows now)
    (unconditional : ∀ step ∈ rows.plan.steps, step.preconditions = [])
    (few : done.length < rows.plan.stepIds.length) (later : since ≤ now) (leased : 0 < leaseFor)
    (digest : SoundDigest planContext.stateDigest) :
    ∃ step rows' token s', claimNextWithPlanContext encoding s now leaseFor planContext =
        .ok (some {heldRow task step.stepId token (now + leaseFor) now with
          planExecutionScope:=some ⟨rows.plan.planId,step.stepId,step.action⟩},s') ∧
      Holding encoding s' task rows rows' done step token (now + leaseFor) now := by
  obtain ⟨loaded,taskId,mode⟩ := resting.linked.loads resting.listed resting.named resting.stored
  obtain ⟨step,tx',granted,present,needs,claimed⟩ := @Underway.claims encoding ⟨rows,s.nextUuid⟩ task done
    (referenceOf rows) (effectiveContext planContext task) now resting.underway approved unconditional
    (resting.left few) loaded taskId mode resting.unbound digest
  have planned : task.planId.isSome = true := by
    rw [(taskReference_ok resting.named).1]
    rfl
  have rowed := resting.linked.rowed _ _ resting.listed
  have prepared :
      prepareCandidate encoding s task planContext now = .ok (some (task,some (rows.plan.planId,step),
      s.storePlan (rows.plan.planId,rows.plan.revision) tx')) := by
    refine bind_ok.mpr ⟨_,liftCore_ok.mpr resting.tenant,bind_ok.mpr ⟨task,
      loadTask_ok.mpr ⟨resting.listed,rfl,rowed.checked⟩,?_⟩⟩
    rw [if_pos planned]
    refine bind_ok.mpr ⟨_,resting.named,bind_ok.mpr ⟨⟨rows,s.nextUuid⟩,?_,bind_ok.mpr ⟨_,granted,rfl⟩⟩⟩
    exact bind_ok.mpr ⟨rows,orFail_ok.mpr resting.stored,rfl⟩
  have checked := @leaseRow_checked task ⟨tx'.nextUuid⟩ (some step.stepId) (now + leaseFor) now rowed.checked
    resting.queued (Nat.lt_of_le_of_lt resting.few (by decide))
    fun _ bound => Option.some.inj bound ▸ ⟨resting.underway.wellFormed.key claimed.present,planned⟩
  have leasing := @leaseTask_done encoding (s.storePlan (rows.plan.planId,rows.plan.revision) tx') task
    (some (rows.plan.planId,step)) (now + leaseFor) now resting.listed checked
  simp only [Option.map_some,leaseRow_queued resting.queued] at leasing
  have ran := claimNext_single leased (resting.candidates later) prepared leasing
  refine ⟨step,tx'.rows,_,_,ran,?_,resting.tenant,AList.lookup_insert _,resting.uncancelled,?_,resting.named,
    AList.lookup_insert _,resting.attempts,claimed,present,?_,?_,?_⟩
  · exact @Linked.committed _ _ _ (.claim now leaseFor planContext) resting.linked (storeOf_ok.mpr ⟨_,ran⟩)
  · intro other row found queued
    rw [lookup_insert_eq] at found
    split at found
    · assumption
    · exact resting.alone other row found queued
  · rw [← List.concat_eq_append]
    exact resting.distinct.concat claimed.left
  · intro x listed
    rcases List.mem_append.mp listed with finished | new
    · exact resting.planned x finished
    · obtain rfl := List.mem_singleton.mp new
      exact claimed.present
  · refine resting.ordered.next fun need needed => needs need ?_
    have same :=
      @needsOf_listed rows.plan step (validateStructure_steps resting.underway.wellFormed.structured).2.1
        present
    rwa [same] at needed

section Holding
variable {step : PlanStep} {token : LeaseToken} {leaseUntil claimAt : Time} {report : FinishReport}
  {planContext : PlanClaimContext}
  (holding : Holding encoding s task rows rows' done step token leaseUntil claimAt)
include holding

-- The end of the lease comes to what the plan makes of the success.
theorem Holding.ends {outcome : FinishOutcome} {tx' : PlanTx} {set : TaskRecord → TaskRecord}
    (unconditional : step.postconditions = []) (success : report.error = none) (unexpired : now < leaseUntil)
    (settled : finishSucceededTx encoding ⟨rows',s.nextUuid⟩ (snapshotOf rows')
      (heldRow task step.stepId token leaseUntil claimAt) step.stepId 1 report planContext now =
        .ok (outcome,tx',taskUpdate (heldRow task step.stepId token leaseUntil claimAt) set)) :
    finishTaskWithLeaseToken encoding s task.taskId task.tenantId token report now planContext =
      .ok (outcome,{s with
      plans:=s.plans.insert (rows.plan.planId,rows.plan.revision) tx'.rows
      nextUuid:=tx'.nextUuid
      tasks:=s.tasks.insert task.taskId (set (heldRow task step.stepId token leaseUntil claimAt))}) := by
  have same := holding.claimed.same.plan
  have named :
      taskReference (heldRow task step.stepId token leaseUntil claimAt) = .ok (referenceOf rows') := by
    rw [referenceOf,same]
    exact holding.named
  have stored : s.plans.lookup (rows'.plan.planId,rows'.plan.revision) = some rows' := by
    rw [same]
    exact holding.stored
  obtain ⟨loaded,_,_⟩ := holding.linked.loads holding.listed named stored
  have finished :=
    @Claimed.finishes encoding rows rows' (heldRow task step.stepId token leaseUntil claimAt) done
    step.stepId (referenceOf rows') planContext now claimAt holding.claimed ⟨rows',s.nextUuid⟩ step report rfl
    holding.member rfl unconditional loaded rfl (by simp [heldRow,holding.uncancelled]) success
  have planned : (heldRow task step.stepId token leaseUntil claimAt).planId.isSome = true := by
    rw [(taskReference_ok named).1]
    rfl
  have updated := @updateTask_found (s.storePlan (rows'.plan.planId,rows'.plan.revision) tx')
    (taskUpdate (heldRow task step.stepId token leaseUntil claimAt) set)
    (heldRow task step.stepId token leaseUntil claimAt) holding.listed rfl
  refine bind_ok.mpr ⟨_,loadTask_ok.mpr ⟨holding.listed,rfl,
    (holding.linked.rowed _ _ holding.listed).checked⟩,?_⟩
  rw [if_neg (by simp [heldRow,TaskStatus.isTerminal])]
  refine bind_ok.mpr ⟨(),require_pos _ ⟨rfl,leaseUntil,rfl,unexpired⟩,?_⟩
  rw [if_pos planned]
  refine bind_ok.mpr ⟨_,named,bind_ok.mpr ⟨⟨rows',s.nextUuid⟩,bind_ok.mpr ⟨rows',orFail_ok.mpr stored,rfl⟩,
    ?_⟩⟩
  refine bind_ok.mpr ⟨_,finished.trans settled,?_⟩
  rw [same] at updated
  simp only [referenceOf,same,updated]
  rfl

-- While steps are left, the task goes back to the queue.
theorem Holding.rests (unconditional : step.postconditions = []) (success : report.error = none)
    (unexpired : now < leaseUntil) (digest : SoundDigest planContext.stateDigest)
    (more : done.length + 1 < rows.plan.stepIds.length) :
    ∃ outcome s' task' rows'', finishTaskWithLeaseToken encoding s task.taskId task.tenantId token report now
        planContext = .ok (outcome,s') ∧ Resting encoding s' task' rows'' (done ++ [step.stepId]) now ∧
      task'.taskId = task.taskId ∧ rows''.plan = rows.plan ∧ rows''.approvals = rows.approvals := by
  obtain ⟨x,planned,undone⟩ : ∃ x ∈ rows.plan.stepIds, x ∉ done ++ [step.stepId] := by
    by_contra all
    have finished : rows.plan.stepIds ⊆ done ++ [step.stepId] := fun x planned => by
      by_contra undone
      exact all ⟨x,planned,undone⟩
    have distinct : rows.plan.stepIds.Nodup :=
      (validateStructure_steps holding.claimed.underway.wellFormed.structured).2.1
    have count := (List.subperm_of_subset distinct finished).length_le
    rw [List.length_append,List.length_singleton] at count
    omega
  have apart : x ∉ done ∧ x ≠ step.stepId := by simpa using undone
  have left : rows'.stepState x = some .pending := by
    rw [holding.claimed.steps,if_neg apart.2,holding.claimed.underway.steps x planned,if_neg apart.1]
  obtain ⟨tx',ran,settled⟩ := @finishSucceeded_more encoding ⟨rows',s.nextUuid⟩ step.stepId now
    (heldRow task step.stepId token leaseUntil claimAt) report planContext holding.claimed.finishable
      digest x _ left apart.2 (by simp)
  have ended := holding.ends unconditional success unexpired settled
  have same := ran.edits.same
  have plan : tx'.rows.plan = rows.plan := same.plan.trans holding.claimed.same.plan
  refine ⟨_,_,unbindStep (requeueRow none now now (heldRow task step.stepId token leaseUntil claimAt)),
    tx'.rows,ended,?_,rfl,plan,same.approvals.trans holding.claimed.same.approvals⟩
  refine ⟨?_,holding.tenant,AList.lookup_insert _,rfl,holding.uncancelled,le_refl _,?_,?_,?_,rfl,?_,
    holding.claimed.next same ran.reached,holding.distinct,?_,?_⟩
  · exact @Linked.committed _ _ _ (.finish task.taskId task.tenantId token report now planContext)
      holding.linked (storeOf_ok.mpr ⟨_,ended⟩)
  · intro other row found queued
    rw [lookup_insert_eq] at found
    split at found
    · assumption
    · exact holding.alone other row found queued
  · rw [referenceOf,plan]
    exact holding.named
  · rw [plan]
    exact AList.lookup_insert _
  · show task.attempts + 1 = _
    rw [holding.attempts,List.length_append,List.length_singleton]
  · rw [plan]
    exact holding.planned
  · rw [plan]
    exact holding.ordered

-- The last step to be done ends the task and its plan.
theorem Holding.completes (unconditional : step.postconditions = []) (success : report.error = none)
    (unexpired : now < leaseUntil) (digest : SoundDigest planContext.stateDigest)
    (last : done.length + 1 = rows.plan.stepIds.length) :
    ∃ outcome s' task' rows'', finishTaskWithLeaseToken encoding s task.taskId task.tenantId token report now
        planContext = .ok (outcome,s') ∧ s'.tasks.lookup task.taskId = some task' ∧
        task'.status = .succeeded ∧
      s'.plans.lookup (rows.plan.planId,rows.plan.revision) = some rows'' ∧ rows''.state = .succeeded ∧
      ∀ x ∈ rows.plan.stepIds, rows''.stepState x = some .succeeded ∧ rows''.attemptsOf x = 1 := by
  have whole : ∀ x ∈ rows.plan.stepIds, x ∈ done ++ [step.stepId] := by
    have count : rows.plan.stepIds.length ≤ (done ++ [step.stepId]).length := by
      rw [List.length_append,List.length_singleton,last]
    have all := (List.subperm_of_subset holding.distinct holding.planned).perm_of_length_le count
    exact fun x planned => all.mem_iff.mpr planned
  have others : ∀ y state, rows'.stepState y = some state → y = step.stepId ∨ state = .succeeded := by
    intro y state found
    have planned := stepState_listed holding.claimed.keys found
    rw [holding.claimed.same.plan] at planned
    rcases List.mem_append.mp (whole y planned) with finished | here
    · by_cases here : y = step.stepId
      · exact .inl here
      · rw [holding.claimed.steps,if_neg here,holding.claimed.underway.steps y planned,if_pos finished]
          at found
        exact .inr (Option.some.inj found).symm
    · exact .inl (List.mem_singleton.mp here)
  obtain ⟨tx',ran,settled⟩ := @finishSucceeded_last encoding ⟨rows',s.nextUuid⟩ step.stepId now
    (heldRow task step.stepId token leaseUntil claimAt) report planContext holding.claimed.finishable
      digest others
  have ended := holding.ends unconditional success unexpired settled
  refine ⟨_,_,_,tx'.rows,ended,AList.lookup_insert _,rfl,AList.lookup_insert _,?_,fun x planned => ?_⟩
  · rw [← view_plan,ran.reached]
    rfl
  have states : tx'.rows.stepState x = if x = step.stepId then some .succeeded else rows'.stepState x := by
    rw [← view_steps,ran.reached]
    rfl
  have attempts : tx'.rows.attemptsOf x = rows'.attemptsOf x := by
    rw [← view_attempts,ran.reached]
    rfl
  rw [states,attempts,holding.claimed.attempts,holding.claimed.steps]
  by_cases here : x = step.stepId
  · simp [here]
  · have finished : x ∈ done := by simpa [here] using whole x planned
    rw [holding.claimed.underway.steps x planned,holding.claimed.underway.attempts x planned]
    simp [here,finished]

end Holding

end Shaka.Store
