import Shaka.Store.Resumption
import Shaka.Plan.Frames
import Shaka.Library.GuardedRuns

namespace Shaka.Store
open Shaka.Core Queue Plan CheckedSteps GuardedRuns

variable {encoding : StoreEncoding} {s s' : QueueStore}

-- What any operation, whatever the database holds, leaves of the stored plans:
-- each keeps what it was saved with, and a new one was just saved.
structure Carries (saved : PlanSpec → Prop) (s s' : QueueStore) : Prop where
  kept : ∀ key rows, s.plans.lookup key = some rows → ∃ rows', s'.plans.lookup key = some rows' ∧
    rows'.plan = rows.plan ∧ rows'.tenantId = rows.tenantId ∧ rows'.digest = rows.digest ∧
      rows'.steps.keys.Perm rows.steps.keys ∧
      ∀ x, (rows'.steps.lookup x).map (·.compensationStepId) = (rows.steps.lookup x).map
        (·.compensationStepId)
  origin : ∀ key rows', s'.plans.lookup key = some rows' →
    (∃ rows, s.plans.lookup key = some rows ∧ rows'.plan = rows.plan) ∨ saved rows'.plan

def journalOf (s : QueueStore) (key : PlanKey) : List PlanStoreTransition :=
  match s.plans.lookup key with
  | some rows => rows.transitions
  | none => []

-- The same of their journals as well, and of the decisions on them.
structure Transacts (saved : PlanSpec → Prop) (may : PlanKey → PlanState → String → Prop)
    (s s' : QueueStore) : Prop extends Carries saved s s' where
  extended : ∀ key, ∃ added, Extends (may key) (journalOf s key) (journalOf s' key) added
  settled : ∀ key rows rows', s.plans.lookup key = some rows → s'.plans.lookup key = some rows' →
    DecidedOnce rows rows'

section Rules
variable {saved : PlanSpec → Prop} {may : PlanKey → PlanState → String → Prop}

theorem Carries.unchanged (plans : s'.plans = s.plans) : Carries saved s s' := by
  refine ⟨fun key rows found => ⟨rows,by rwa [plans],rfl,rfl,rfl,.refl _,fun _ => rfl⟩,
    fun key rows found => ?_⟩
  rw [plans] at found
  exact .inl ⟨rows,found,rfl⟩

theorem Carries.replaced {key : PlanKey} {rows rows' : PlanRows} (stored : s.plans.lookup key = some rows)
    (plan : rows'.plan = rows.plan) (tenantId : rows'.tenantId = rows.tenantId)
    (digest : rows'.digest = rows.digest) (keys : rows'.steps.keys.Perm rows.steps.keys)
    (compensations : ∀ x, (rows'.steps.lookup x).map (·.compensationStepId) =
      (rows.steps.lookup x).map (·.compensationStepId))
    (plans : s'.plans = s.plans.insert key rows') : Carries saved s s' := by
  refine ⟨fun other old found => ?_,fun other new found => ?_⟩
  · rw [plans,lookup_insert_eq]
    split
    · next same =>
      obtain rfl := Option.some.inj (stored.symm.trans (same ▸ found))
      exact ⟨rows',rfl,plan,tenantId,digest,keys,compensations⟩
    · exact ⟨old,found,rfl,rfl,rfl,.refl _,fun _ => rfl⟩
  · rw [plans,lookup_insert_eq] at found
    split at found
    · next same =>
      cases found
      exact .inl ⟨rows,same ▸ stored,plan⟩
    · exact .inl ⟨new,found,rfl⟩

theorem Carries.same {key : PlanKey} {rows rows' : PlanRows} (stored : s.plans.lookup key = some rows)
    (same : SameSpec rows rows') (plans : s'.plans = s.plans.insert key rows') : Carries saved s s' :=
  .replaced stored same.plan same.tenantId same.digest same.keys same.compensations plans

theorem Carries.added {key : PlanKey} {rows' : PlanRows} (absent : s.plans.lookup key = none)
    (new : saved rows'.plan) (plans : s'.plans = s.plans.insert key rows') : Carries saved s s' := by
  refine ⟨fun other old found => ⟨old,?_,rfl,rfl,rfl,.refl _,fun _ => rfl⟩,fun other rows found => ?_⟩
  · rw [plans,lookup_insert_eq,if_neg (fun same => by rw [same,absent] at found; cases found)]
    exact found
  · rw [plans,lookup_insert_eq] at found
    split at found
    · cases found; exact .inr new
    · exact .inl ⟨rows,found,rfl⟩

theorem Carries.trans {middle : QueueStore} (one : Carries saved s middle) (two : Carries saved middle s') :
    Carries saved s s' := by
  refine ⟨fun key rows found => ?_,fun key rows found => ?_⟩
  · obtain ⟨rows',found',plan,tenantId,digest,keys,compensations⟩ := one.kept key rows found
    obtain ⟨rows'',found'',plan',tenantId',digest',keys',compensations'⟩ := two.kept key rows' found'
    exact ⟨rows'',found'',plan'.trans plan,tenantId'.trans tenantId,digest'.trans digest,keys'.trans keys,
      fun x => (compensations' x).trans (compensations x)⟩
  · rcases two.origin key rows found with ⟨rows',found',plan⟩ | new
    · rcases one.origin key rows' found' with ⟨rows'',found'',plan'⟩ | new
      · exact .inl ⟨rows'',found'',plan.trans plan'⟩
      · exact .inr (plan ▸ new)
    · exact .inr new

theorem Transacts.unchanged (plans : s'.plans = s.plans) : Transacts saved may s s' := by
  refine ⟨.unchanged plans,fun key => ⟨[],.none (by rw [journalOf,journalOf,plans])⟩,
    fun key rows rows' was now => ?_⟩
  rw [plans,was] at now
  cases now
  exact .refl rows

theorem extended_replaced {key : PlanKey} {rows rows' : PlanRows} {added : List PlanStoreTransition}
    (stored : s.plans.lookup key = some rows)
    (extend : Extends (may key) rows.transitions rows'.transitions added)
    (plans : s'.plans = s.plans.insert key rows') (other : PlanKey) :
    ∃ added, Extends (may other) (journalOf s other) (journalOf s' other) added := by
  by_cases own : other = key
  · subst own
    refine ⟨added,?_⟩
    simpa only [journalOf,plans,stored,AList.lookup_insert] using extend
  · refine ⟨[],.none ?_⟩
    simp only [journalOf,plans,AList.lookup_insert_ne own]

theorem settled_replaced {key : PlanKey} {rows rows' : PlanRows} (stored : s.plans.lookup key = some rows)
    (once : DecidedOnce rows rows') (plans : s'.plans = s.plans.insert key rows') (other : PlanKey)
    (old new : PlanRows) (was : s.plans.lookup other = some old) (now : s'.plans.lookup other = some new) :
    DecidedOnce old new := by
  rw [plans,lookup_insert_eq] at now
  split at now
  · next same =>
    cases now
    cases Option.some.inj (stored.symm.trans (same ▸ was))
    exact once
  · rw [was] at now
    cases now
    exact .refl old

theorem Transacts.reworked {key : PlanKey} {rows rows' : PlanRows} (stored : s.plans.lookup key = some rows)
    (reworks : Reworks encoding (may key) rows rows') (plans : s'.plans = s.plans.insert key rows') :
    Transacts saved may s s' := by
  obtain ⟨added,extend⟩ := reworks.extends
  exact ⟨.same stored reworks.same plans,extended_replaced stored extend plans,
    settled_replaced stored reworks.decidedOnce plans⟩

theorem Transacts.added {key : PlanKey} {rows' : PlanRows} (absent : s.plans.lookup key = none)
    (new : saved rows'.plan) (blank : rows'.transitions = []) (plans : s'.plans = s.plans.insert key rows') :
    Transacts saved may s s' := by
  refine ⟨.added absent new plans,fun other => ⟨[],.none ?_⟩,fun other old last was now => ?_⟩
  · by_cases own : other = key
    · subst own
      simp only [journalOf,plans,absent,AList.lookup_insert,blank]
    · simp only [journalOf,plans,AList.lookup_insert_ne own]
  · rw [plans,lookup_insert_eq,if_neg (fun same => by rw [same,absent] at was; cases was),was] at now
    cases now
    exact .refl old

theorem Transacts.trans {middle : QueueStore} (one : Transacts saved may s middle)
    (two : Transacts saved may middle s') : Transacts saved may s s' := by
  refine ⟨one.toCarries.trans two.toCarries,fun key => ?_,fun key rows rows' was now => ?_⟩
  · obtain ⟨added,early⟩ := one.extended key
    obtain ⟨added',late⟩ := two.extended key
    exact ⟨added ++ added',early.trans late⟩
  · obtain ⟨between,kept,_⟩ := one.kept key rows was
    exact (one.settled key rows between was kept).trans (two.settled key between rows' kept now)

end Rules

@[simp] theorem updateTask_plans (s : QueueStore) (update : TaskUpdate) :
    (s.updateTask update).plans = s.plans := by
  unfold QueueStore.updateTask
  split
  · split <;> rfl
  · rfl

theorem admitReference_transacts {saved : PlanSpec → Prop} {may : PlanKey → PlanState → String → Prop}
    {principal : Principal} {envelope : TaskEnvelope} {reference : Option PlanTaskReference}
    {clock : SubmitClock} {approvalId : Option Uuid}
    (ok : admitReference encoding s principal envelope reference clock = .ok (approvalId,s')) :
    Transacts saved may s s' := by
  unfold admitReference at ok
  split at ok
  · cases ok
    exact .unchanged rfl
  · obtain ⟨tx,begun,ok⟩ := bind_ok.mp ok
    obtain ⟨⟨_,tx'⟩,recorded,ok⟩ := bind_ok.mp ok
    cases ok
    obtain ⟨rows,stored,rfl⟩ := beginPlan_ok begun
    exact .reworked stored (recordPlanAdmissionTx_reworks recorded) rfl

theorem claim_transacts {saved : PlanSpec → Prop} {may : PlanKey → PlanState → String → Prop}
    {now leaseFor : Time} {planContext : PlanClaimContext}
    (ok : claimNextWithPlanContext encoding s now leaseFor planContext = .ok (answer,s')) :
    Transacts saved may s s' := by
  simp only [claimNextWithPlanContext,bind_ok,require_ok,exists_const] at ok
  rcases claimFirst_parts ok.2 with ⟨_,rfl,_⟩ | ⟨_,candidate,_,task,bound,prepared,claimed,_,_,
    preparation,leased,_⟩
  · exact .unchanged rfl
  have plans : s'.plans = prepared.plans := by
    simp only [leaseTask,bind_ok,pure_ok,Prod.mk.injEq] at leased
    obtain ⟨_,_,_,rfl⟩ := leased
    exact updateTask_plans _ _
  obtain ⟨_,_,_,⟨_,_,rfl⟩ | ⟨reference,rows,step,tx',_,stored,granted,_,rfl⟩⟩ :=
    prepareCandidate_parts preparation
  · exact .unchanged plans
  · exact .reworked stored (bindStepTx_reworks (preparePlannedClaimTx_ok.mp granted).2) plans

theorem finish_transacts {saved : PlanSpec → Prop} {may : PlanKey → PlanState → String → Prop}
    {taskId : TaskId} {tenantId : TenantId} {leaseToken : LeaseToken}
    {report : FinishReport} {now : Time} {planContext : PlanClaimContext}
    (ok : finishTaskWithLeaseToken encoding s taskId tenantId leaseToken report now planContext =
      .ok (answer,s')) : Transacts saved may s s' := by
  rcases finish_parts ok with rfl | ⟨task,_,_,_,_,_,⟨_,rfl⟩ | ⟨reference,rows,outcome,tx',update,_,
    stored,ran,rfl⟩⟩
  · exact .unchanged rfl
  · exact .unchanged (updateTask_plans _ _)
  · exact .reworked stored (finishPlannedStepTx_reworks ran) (updateTask_plans _ _)

theorem requestCancel_transacts {saved : PlanSpec → Prop} {may : PlanKey → PlanState → String → Prop}
    {taskId : TaskId} {tenantId : TenantId} {now : Time}
    (ok : requestCancel encoding s taskId tenantId now = .ok (answer,s')) : Transacts saved may s s' := by
  rcases requestCancel_parts ok with ⟨_,rfl⟩ | ⟨task,_,_,_,⟨_,rfl⟩ | ⟨reference,rows,tx',_,stored,ran,rfl⟩⟩
  · exact .unchanged rfl
  · exact .unchanged (updateTask_plans _ _)
  · exact .reworked stored (cancelPlannedTaskTx_reworks ran) (updateTask_plans _ _)

theorem recoverCandidate_transacts {saved : PlanSpec → Prop} {may : PlanKey → PlanState → String → Prop}
    {now : Time} {candidate : TaskRecord} (ok : recoverCandidate encoding now s candidate = .ok s') :
    Transacts saved may s s' := by
  obtain ⟨task,_,⟨_,rfl⟩ | ⟨reference,rows,tx',update,_,stored,ran,rfl⟩⟩ := recoverCandidate_parts ok
  · exact .unchanged (updateTask_plans _ _)
  · exact .reworked stored (recoverExpiredPlanLeaseTx_reworks ran) (updateTask_plans _ _)

theorem recoverExpiredLeases_transacts {saved : PlanSpec → Prop} {may : PlanKey → PlanState → String → Prop}
    {now : Time} (ok : recoverExpiredLeases encoding s now = .ok (answer,s')) : Transacts saved may s s' := by
  simp only [recoverExpiredLeases,bind_ok,pure_ok,Prod.mk.injEq] at ok
  obtain ⟨_,ran,_,rfl⟩ := ok
  exact foldEach_preserves (motive := Transacts saved may s)
    (fun _ _ _ _ carried ran => carried.trans (recoverCandidate_transacts ran)) (.unchanged rfl) ran

theorem Resolution.reworks {may : PlanState → String → Prop} {request : ResolutionRequest} {now : Time}
    {key : PlanKey} {rows : PlanRows} {task : TaskRecord} {tx' noted : PlanTx} {update : TaskUpdate}
    (resolution : Resolution encoding s s' request now key rows task tx' noted update)
    (permitted : may request.decision.target request.idempotencyKey) : Reworks encoding may rows noted.rows :=
  (resolveDecisionTx_reworks permitted resolution.decided).trans
    (insertCheckpoint_reworks resolution.checkpoint)

theorem Resolution.plans {request : ResolutionRequest} {now : Time} {key : PlanKey} {rows : PlanRows}
    {task : TaskRecord} {tx' noted : PlanTx} {update : TaskUpdate}
    (resolution : Resolution encoding s s' request now key rows task tx' noted update) :
    s'.plans = s.plans.insert key noted.rows := by
  rw [resolution.stored,updateTask_plans]
  rfl

-- The resolution that leads a plan out of `Unknown`, under the key it is asked with.
inductive Leaves (encoding : StoreEncoding) (s : QueueStore) : Operation → PlanKey → PlanState → String → Prop
  | resolved : Loaded s request.planId request.principal.tenantId key rows →
      resolvePlanUnknown encoding s request now = .ok (request.decision.outcome,after) →
      Leaves encoding s (.resolvePlanUnknown request now) key request.decision.target request.idempotencyKey

theorem resolvePlanUnknown_transacts {saved : PlanSpec → Prop} {request : ResolutionRequest} {now : Time}
    (ok : resolvePlanUnknown encoding s request now = .ok (answer,s')) :
    Transacts saved (Leaves encoding s (.resolvePlanUnknown request now)) s s' := by
  rcases resolvePlanUnknown_answers ok with ⟨_,rfl,_⟩ | ⟨rfl,key,rows,task,tx',noted,update,resolution⟩
  · exact .unchanged rfl
  · exact .reworked resolution.loaded.stored (resolution.reworks (.resolved resolution.loaded ok))
      resolution.plans

theorem resumePlan_transacts (encoding : StoreEncoding) (saved : PlanSpec → Prop)
    (may : PlanKey → PlanState → String → Prop) (s : QueueStore) (tenantId : TenantId) (planId : PlanId)
    (now : Time) : Transacts saved may s (resumePlan encoding s tenantId planId now).2 := by
  rcases resumePlan_parts encoding s tenantId planId now with same | ⟨key,rows,loaded,resumption⟩
  · rw [same]
    exact .unchanged rfl
  generalize (resumePlan encoding s tenantId planId now).2 = s' at resumption ⊢
  cases resumption with
  | quarantined => exact .reworked loaded.stored (@forceUnknownTx_reworks encoding _ ⟨rows,s.nextUuid⟩ _) rfl
  | recovered _ _ ok => exact .reworked loaded.stored (recoverUnknownTx_reworks ok) rfl

-- An approval that lets the plan through finds it undecided.
theorem Deciding.decidedOnce {principal : Principal} {approval : PlanApproval} {key : String} {now : Time}
    {outcome : PlanApprovalOutcome} {rows : PlanRows} {tx tx' : PlanTx} {may : PlanState → String → Prop}
    (deciding : Deciding encoding s s' principal approval key now outcome rows tx tx')
    (reworks : Reworks encoding may {rows with approvals:=rows.approvals ++ [⟨approval,now,key⟩]} tx'.rows) :
    DecidedOnce rows tx'.rows := by
  refine ⟨fun decided => reworks.decidedOnce.state decided,fun decided row stored releases => ?_⟩
  rw [reworks.same.approvals,List.mem_append,List.mem_singleton] at stored
  refine stored.resolve_right ?_
  rintro rfl
  obtain ⟨_,_,_,undecided | stepwise⟩ := decideApprovalTx_writes.done _ deciding.decided
  · exact absurd (decided.symm.trans undecided) (by decide)
  · obtain ⟨_,whole⟩ := releases
    rw [whole] at stepwise
    cases stepwise.2

theorem approvePlan_transacts {saved : PlanSpec → Prop} {may : PlanKey → PlanState → String → Prop}
    {principal : Principal} {approval : PlanApproval} {key : String} {now : Time}
    (ok : approvePlan encoding s principal approval key now = .ok (answer,s')) :
    Transacts saved may s s' := by
  rcases approvePlan_decides ok with rfl | ⟨rows,tx,tx',deciding⟩
  · exact .unchanged rfl
  have reworks : Reworks encoding (may (approval.planId,approval.revision))
      {rows with approvals:=rows.approvals ++ [⟨approval,now,key⟩]} tx'.rows :=
    (decideApprovalTx_reworks deciding.decided).trans (insertCheckpoint_reworks deciding.noted)
  obtain ⟨plan,tenantId,digest,keys,compensations⟩ := SameSpec.decided reworks.same
  obtain ⟨added,extend⟩ := reworks.extends
  have plans : s'.plans = s.plans.insert (approval.planId,approval.revision) tx'.rows := by
    rw [deciding.kept]; rfl
  exact ⟨.replaced deciding.stored plan tenantId digest keys compensations plans,
    extended_replaced deciding.stored extend plans,
    settled_replaced deciding.stored (deciding.decidedOnce reworks) plans⟩

theorem exec_transacts (encoding : StoreEncoding) (s : QueueStore) (op : Operation) :
    Transacts (fun plan => op = .savePlan plan) (Leaves encoding s op) s (exec encoding s op) := by
  rcases exec_cases encoding s op with same | ok
  · rw [same]
    exact .unchanged rfl
  generalize exec encoding s op = s' at ok
  cases op with
  | bootstrapPrincipal principal =>
    simp only [transaction,bootstrapPrincipal,bind_ok] at ok
    obtain ⟨_,_,_,_,ok⟩ := ok
    split at ok <;> cases ok <;> exact .unchanged rfl
  | setLimits tenantId limits =>
    simp only [transaction,storeOf_ok,setLimits,bind_ok,pure_ok,Prod.mk.injEq] at ok
    obtain ⟨_,_,_,_,_,_,rfl⟩ := ok
    exact .unchanged rfl
  | createSession principal =>
    cases ok
    exact .unchanged rfl
  | savePlan plan =>
    obtain ⟨answer,ok⟩ := storeOf_ok.mp ok
    rcases savePlan_parts ok with rfl | ⟨steps,_,_,absent,_,rfl⟩
    · exact .unchanged rfl
    · exact .added absent rfl rfl rfl
  | submit request clock =>
    obtain ⟨answer,ok⟩ := storeOf_ok.mp ok
    rcases submit_parts ok with ⟨_,rfl⟩ | ⟨limits,admitted,envelope,_,submitted⟩
    · exact .unchanged rfl
    · obtain ⟨_,_,_,_,⟨approvalId,admission⟩,_,_,_,_,_,rfl⟩ := submitted
      exact (Transacts.unchanged (countSubmission_tables s request.principal limits clock.now).1).trans
        ((admitReference_transacts admission).trans (.unchanged rfl))
  | approvePlan principal approval key now =>
    obtain ⟨answer,ok⟩ := storeOf_ok.mp ok
    exact approvePlan_transacts ok
  | claim now leaseFor planContext =>
    obtain ⟨answer,ok⟩ := storeOf_ok.mp ok
    exact claim_transacts ok
  | finish taskId tenantId leaseToken report now planContext =>
    obtain ⟨answer,ok⟩ := storeOf_ok.mp ok
    exact finish_transacts ok
  | requestCancel taskId tenantId now =>
    obtain ⟨answer,ok⟩ := storeOf_ok.mp ok
    exact requestCancel_transacts ok
  | recoverExpiredLeases now =>
    obtain ⟨answer,ok⟩ := storeOf_ok.mp ok
    exact recoverExpiredLeases_transacts ok
  | resolvePlanUnknown request now =>
    obtain ⟨answer,ok⟩ := storeOf_ok.mp ok
    exact resolvePlanUnknown_transacts ok
  | resumePlan tenantId planId now =>
    cases ok
    exact resumePlan_transacts encoding _ _ s tenantId planId now

theorem exec_carries (encoding : StoreEncoding) (s : QueueStore) (op : Operation) :
    Carries (fun plan => op = .savePlan plan) s (exec encoding s op) :=
    (exec_transacts encoding s op).toCarries

end Shaka.Store
