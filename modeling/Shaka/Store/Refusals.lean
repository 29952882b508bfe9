import Shaka.Store.SpentKeys

namespace Shaka.Store
open Shaka.Core Queue Plan CheckedSteps GuardedRuns

variable {encoding : StoreEncoding} {s s' : QueueStore} {task : TaskRecord} {rows : PlanRows} {key : PlanKey}

-- What never reports a taken key.

theorem loadTask_keyless {taskId : TaskId} {tenantId : TenantId} :
    Keyless (loadTask encoding s taskId tenantId) := by
  unfold loadTask checkTaskRow
  refine .bind (by simp) fun row => .bind ?_ fun _ => keyless_pure
  refine .bind (by simp) fun _ => .bind (keyless_checkOption fun _ => keyless_liftCore) fun _ =>
      .bind (by simp) fun _ =>
    .bind (by simp) fun _ => .bind (by simp) fun _ => .bind (by simp) fun _ => by simp

theorem reference_keyless {planId : PlanId} {revision : Nat} {digest : String} :
    Keyless (PlanTaskReference.new planId revision digest) := by
  unfold PlanTaskReference.new Queue.validateSha256
  exact .bind (by simp) fun _ => .bind (by simp) fun _ => keyless_pure

theorem taskReference_keyless : Keyless (taskReference task) := by
  unfold taskReference
  split
  · exact reference_keyless
  · simp

theorem beginPlan_keyless {reference : PlanTaskReference} : Keyless (s.beginPlan encoding reference) :=
  .bind (by simp) fun _ => keyless_pure

-- A task and its plan, as the runs leave them.
structure Kept (encoding : StoreEncoding) (key : PlanKey) (task : TaskRecord) (rows : PlanRows) : Prop where
  filed : Filed encoding key rows
  joined : Joined task rows
  coherent : Coherent (flowOf task rows)
  spent : Spent encoding.toEncoding (view rows)

theorem pair_kept (consistent : Consistent encoding (PairSpent encoding) (Untold encoding) s)
    {taskId : TaskId} (found : s.tasks.lookup taskId = some task) (refers : planKeyOf task = some key)
    (stored : s.plans.lookup key = some rows) : Kept encoding key task rows := by
  obtain ⟨rows',stored',joined,coherent,spent⟩ := consistent.joined taskId task key found refers
  obtain rfl := Option.some.inj (stored.symm.trans stored')
  exact ⟨consistent.filed key rows stored,joined,coherent,spent⟩

section Clock
variable (clock : Function.Injective encoding.rfc3339)
include clock

theorem Kept.keyless {α : Type} {act : Act} {uuid : Nat} {post : α → PlanTx → Lease → Prop}
    {run : Except QueueError α} (kept : Kept encoding key task rows)
    (unspent : Unspent encoding.toEncoding (view rows) act) (automatic : act.key? = none)
    (moves : Moves encoding rows.plan act task ⟨rows,uuid⟩ post run) :
    Keyless run := by
  intro refused
  obtain ⟨ws,lease,move,stale⟩ := moves.refused refused
  exact stale (move.fresh clock (fun x state found => kept.filed.plain found) unspent kept.spent automatic)

-- Claiming.

theorem preparePlannedClaimTx_keyless {uuid : Nat} {reference : PlanTaskReference}
    {claimContext : PlanClaimContext} {now : Time} (kept : Kept encoding key task rows)
    (due : isDue now task = true) (few : ∀ x, rows.attemptsOf x < maxU32) :
    Keyless (preparePlannedClaimTx encoding ⟨rows,uuid⟩ task reference claimContext now) := by
  unfold preparePlannedClaimTx
  refine loadPlanTx_keyless.after fun plan loaded => .after (by simp) fun _ owned =>
    .after (by simp) fun _ unbound => ?_
  obtain rfl := (loadPlanTx_ok.mp loaded).1
  split
  · exact keyless_pure
  next claimable =>
  refine loadStepStatesTx_keyless.after fun states read => ?_
  obtain rfl := loadStepStatesTx_ok read
  simp only
  split
  · exact keyless_pure
  next preflight =>
  split
  · exact keyless_pure
  next step selected =>
  rw [require_ok] at owned unbound
  have granted : Granted encoding ⟨rows,uuid⟩ task reference claimContext now step :=
    ⟨loaded,owned.1,owned.2,unbound,by simpa using claimable,read,by simpa using preflight,selected⟩
  refine .bind ?_ fun _ => keyless_pure
  have move := @Move.claimed encoding.toEncoding _ _ _ now ⟨0⟩ now (granted.claimable_step due)
  intro refused
  refine bindStepTx_writes.refused refused ?_
  exact move.fresh clock (fun x state found => kept.filed.plain found) (few step.stepId) kept.spent rfl

theorem claim_keyless {now leaseFor : Time} {planContext : PlanClaimContext}
    (consistent : Consistent encoding (PairSpent encoding) (Untold encoding) s)
    (keyed : Keyed encoding s (.claim now leaseFor planContext)) :
    Keyless (claimNextWithPlanContext encoding s now leaseFor planContext) := by
  refine .bind (by simp) fun _ => ?_
  have listed : ∀ candidate ∈ claimCandidates s now, s.tasks.lookup candidate.taskId = some candidate ∧
      isDue now candidate = true := fun candidate among =>
    ⟨candidate_listed (fun taskId task found => (consistent.rowed taskId task found).taskId) among,
      (mem_claimCandidates among).2⟩
  generalize claimCandidates s now = candidates at listed
  induction candidates with
  | nil => exact keyless_pure
  | cons candidate rest ih =>
    obtain ⟨here,due⟩ := listed candidate List.mem_cons_self
    refine .after ?_ fun preparation _ => ?_
    · -- preparing the first candidate
      refine .bind keyless_liftCore fun _ => loadTask_keyless.after fun task loaded => ?_
      obtain rfl := Option.some.inj (here.symm.trans (loadTask_ok.mp loaded).1)
      split
      · refine taskReference_keyless.after fun reference named => beginPlan_keyless.after fun tx begun => ?_
        obtain ⟨rows,stored,rfl⟩ := beginPlan_ok begun
        have refers := taskReference_key named
        have kept := pair_kept consistent here refers stored
        refine .bind (preparePlannedClaimTx_keyless clock kept due fun x => ?_) fun _ => ?_
        · exact (keyed.2 (.claim x) candidate rows ⟨here,⟨_,refers,stored⟩,⟨x,rfl⟩,due⟩ trivial).1
        · split <;> exact keyless_pure
      · exact keyless_pure
    · split
      · exact ih fun other later => listed other (List.mem_cons_of_mem _ later)
      · refine .bind (.bind loadTask_keyless fun _ => keyless_pure) fun _ => keyless_pure

-- Ending a lease.

theorem finish_keyless {taskId : TaskId} {tenantId : TenantId} {leaseToken : LeaseToken}
    {report : FinishReport} {now : Time} {planContext : PlanClaimContext}
    (consistent : Consistent encoding (PairSpent encoding) (Untold encoding) s)
    (keyed : Keyed encoding s (.finish taskId tenantId leaseToken report now planContext)) :
    Keyless (finishTaskWithLeaseToken encoding s taskId tenantId leaseToken report now planContext) := by
  refine loadTask_keyless.after fun task loaded => ?_
  obtain ⟨found,_,_⟩ := loadTask_ok.mp loaded
  obtain rfl := (consistent.rowed _ _ found).taskId
  split
  · exact keyless_pure
  refine .bind (by simp) fun _ => ?_
  split
  · refine taskReference_keyless.after fun reference named => beginPlan_keyless.after fun tx begun => ?_
    obtain ⟨rows,stored,rfl⟩ := beginPlan_ok begun
    have refers := taskReference_key named
    have kept := pair_kept consistent found refers stored
    have moves := @finishPlannedStepTx_moves encoding ⟨rows,s.nextUuid⟩ task report planContext now reference
      kept.coherent ⟨kept.joined.taskId,kept.joined.tenantId⟩ kept.filed.columned
    have unspent := (keyed.2 (.finish now) task rows ⟨found,⟨_,refers,stored⟩,rfl,rfl⟩ trivial).1
    exact .bind (kept.keyless clock unspent rfl moves) fun _ => keyless_pure
  · exact keyless_pure

theorem requestCancel_keyless {taskId : TaskId} {tenantId : TenantId} {now : Time}
    (consistent : Consistent encoding (PairSpent encoding) (Untold encoding) s)
    (keyed : Keyed encoding s (.requestCancel taskId tenantId now)) :
    Keyless (requestCancel encoding s taskId tenantId now) := by
  refine loadTask_keyless.after fun task loaded => ?_
  obtain ⟨found,_,_⟩ := loadTask_ok.mp loaded
  obtain rfl := (consistent.rowed _ _ found).taskId
  split
  · exact keyless_pure
  next open_ =>
  refine .bind ?_ fun _ => .bind loadTask_keyless fun _ => keyless_pure
  unfold stepIf
  split
  · refine taskReference_keyless.after fun reference named => beginPlan_keyless.after fun tx begun => ?_
    obtain ⟨rows,stored,rfl⟩ := beginPlan_ok begun
    have refers := taskReference_key named
    have kept := pair_kept consistent found refers stored
    have moves := @cancelPlannedTaskTx_moves encoding ⟨rows,s.nextUuid⟩ task reference now kept.coherent
      (by simpa using open_)
    have unspent := (keyed.2 .cancel task rows ⟨found,⟨_,refers,stored⟩,rfl,rfl⟩ trivial).1
    exact .bind (kept.keyless clock unspent rfl moves) fun _ => keyless_pure
  · exact keyless_ok

-- Recovering expired leases: each candidate is as it was when it was selected.
theorem recoverEach_keyless {first : QueueStore} {now : Time} {candidates : List TaskRecord}
    (consistent : Consistent encoding (PairSpent encoding) (Untold encoding) s)
    (keyed : Keyed encoding first (.recoverExpiredLeases now)) (distinct : (candidates.map (·.taskId)).Nodup)
    (untouched : ∀ candidate ∈ candidates, Untouched first s candidate ∧ isExpired now candidate = true) :
    Keyless (foldEach (recoverCandidate encoding now) s candidates) := by
  induction candidates generalizing s with
  | nil => exact keyless_ok
  | cons candidate rest ih =>
    obtain ⟨here,expired⟩ := untouched candidate List.mem_cons_self
    rw [List.map_cons,List.nodup_cons] at distinct
    have sound : Sound encoding s := consistent.weaken (fun _ _ pair => pair.1) fun _ untold => untold.idle
    refine .after ?_ fun middle ran => ?_
    · refine .bind keyless_liftCore fun _ => loadTask_keyless.after fun task loaded => ?_
      obtain rfl := Option.some.inj (here.row.symm.trans (loadTask_ok.mp loaded).1)
      split
      · refine taskReference_keyless.after fun reference named => beginPlan_keyless.after fun tx begun => ?_
        obtain ⟨rows,stored,rfl⟩ := beginPlan_ok begun
        have refers := taskReference_key named
        have kept := pair_kept consistent here.row refers stored
        have leased : candidate.status.isLeased = true := by
          simp only [isExpired,Bool.and_eq_true] at expired
          exact expired.1
        have moves := @recoverExpiredPlanLeaseTx_moves encoding ⟨rows,
            s.nextUuid⟩ candidate reference now kept.coherent leased
        have unspent := (keyed.2 (.recover now) candidate rows
          ⟨here.listed,⟨_,refers,(here.plan _ refers) ▸ stored⟩,rfl,expired⟩ trivial).1
        exact .bind (kept.keyless clock unspent rfl moves) fun _ => keyless_pure
      · exact keyless_pure
    · obtain ⟨advance,others,plans⟩ := recoverCandidate_advance sound here expired ran
      have later : Consistent encoding (PairSpent encoding) (Untold encoding) middle :=
        Consistent.advance (spent_preserved clock) consistent (advance.weaken fun act task rows concerned =>
          (keyed.2 act task rows concerned trivial).1)
      refine ih later distinct.2 fun other among => ?_
      obtain ⟨there,expired'⟩ := untouched other (List.mem_cons_of_mem _ among)
      have apart : other.taskId ≠ candidate.taskId := fun same =>
          distinct.1 (same ▸ List.mem_map_of_mem among)
      exact ⟨there.still apart others plans fun key refers shared =>
        apart (Consistent.sole consistent there.row here.row refers shared),expired'⟩

theorem recoverExpiredLeases_keyless {now : Time}
    (consistent : Consistent encoding (PairSpent encoding) (Untold encoding) s)
    (keyed : Keyed encoding s (.recoverExpiredLeases now)) :
    Keyless (recoverExpiredLeases encoding s now) := by
  obtain ⟨distinct,listed⟩ := recoveryCandidates_listed fun taskId task found =>
      (consistent.rowed taskId task found).taskId
  refine .bind (recoverEach_keyless clock consistent keyed distinct fun candidate chosen => ?_) fun _ =>
    keyless_pure
  obtain ⟨found,expired⟩ := listed candidate chosen
  exact ⟨⟨found,found,fun _ _ => rfl⟩,expired⟩

end Clock

-- Resolving: the decision's own key is new, or the request is answered from the journal.

theorem resolutionAct_key {request : ResolutionRequest} :
    (resolutionAct rows request).key? = some request.idempotencyKey := by
  unfold resolutionAct
  cases request.decision <;> rfl

theorem movedTargets_states {x : PlanStepId} (moved : x ∈ movedTargets rows) :
    rows.stepState x = some .unknown ∨ rows.stepState x = some .failed := by
  have chosen := (List.mem_filter.mp moved).2
  simp only [Bool.and_eq_true,Bool.or_eq_true,beq_iff_eq] at chosen
  exact chosen.2

-- A plan that nobody has worked on has no step that a decision would move.
theorem idle_derives {request : ResolutionRequest} (idle : Idle rows) {derived : String} :
    ¬ Derived (view rows) (resolutionAct rows request) derived := by
  have settled : ∀ x state, rows.stepState x = some state → state ≠ .pending → False :=
    fun x state found other => other (idle.pending x state found)
  unfold resolutionAct
  intro derives
  cases decision : request.decision <;> rw [decision] at derives
  · obtain ⟨x,unknown,_⟩ := derives
    exact settled x _ unknown (by simp)
  · rcases derives with ⟨x,source,_⟩ | ⟨x,target,_⟩
    · rcases movedSources_states source with state | state | state <;> exact settled x _ state (by simp)
    · rcases movedTargets_states target with state | state <;> exact settled x _ state (by simp)
  · exact derives

theorem resolveDecisionTx_keyless {request : ResolutionRequest} {now : Time} {uuid : Nat} (task : TaskRecord)
    (unknown : rows.state = .unknown) (distinct : rows.plan.stepIds.Nodup)
    (unused : request.idempotencyKey ∉ (view rows).keys)
    (apart : ∀ derived, Derived (view rows) (resolutionAct rows request) derived →
      derived ∉ (view rows).keys) :
    Keyless (resolveDecisionTx encoding ⟨rows,uuid⟩ (snapshotOf rows) request now) := by
  intro refused
  obtain ⟨ws,lease,move,stale⟩ :=
    (@resolveDecisionTx_moves encoding ⟨rows,uuid⟩ task now request unknown distinct).refused refused
  exact stale (move.decision_fresh resolutionAct_key unused apart)

theorem resolvedTask_keyless {plan : PlanSpec} {decision : PlanResolutionDecision} {now : Time} :
    Keyless (resolvedTask s plan decision now) := by
  unfold resolvedTask
  cases decision <;> exact .bind (by simp) fun _ => .bind (by simp) fun _ => keyless_pure

theorem loadPlan_keyless {planId : PlanId} {tenantId : TenantId} :
    Keyless (loadPlan encoding s planId tenantId) := by
  unfold loadPlan
  refine .bind (by simp) fun _ => .bind (by simp) fun _ => .bind (by simp) fun _ =>
    .bind (by simp) fun _ => keyless_pure

theorem resolvePlanUnknown_keyless {request : ResolutionRequest} {now : Time}
    (consistent : Consistent encoding (PairSpent encoding) (Untold encoding) s)
    (keyed : Keyed encoding s (.resolvePlanUnknown request now)) :
    Keyless (resolvePlanUnknown encoding s request now) := by
  have validated : Keyless (validateResolution request) := by
    unfold validateResolution Queue.validateKey Queue.validateSha256
    exact .bind (by simp) fun _ => .bind (by simp) fun _ =>
      .bind (keyless_checkOption fun _ => by simp) fun _ => by simp
  refine validated.after fun _ _ => loadPlan_keyless.after fun plan read =>
      reference_keyless.after fun reference named =>
    beginPlan_keyless.after fun tx begun => ?_
  obtain ⟨key,rows,loaded,rfl⟩ := loadPlan_parts read
  obtain ⟨rows',stored,rfl⟩ := beginPlan_ok begun
  simp only [PlanTaskReference.new,bind_ok,require_ok,pure_ok,exists_const] at named
  obtain ⟨_,_,_,rfl⟩ := named
  obtain rfl : rows' = rows := Option.some.inj (stored.symm.trans (loaded.key ▸ loaded.stored))
  split
  · exact .bind (by simp) fun _ => keyless_pure
  next unlisted =>
  refine .after (by simp) fun _ unknown => ?_
  rw [require_ok] at unknown
  refine .bind ?_ fun _ => .bind insertCheckpointTx_keyless fun _ => .bind resolvedTask_keyless fun _ =>
    keyless_pure
  have unused : request.idempotencyKey ∉ (view rows').keys := by
    intro used
    rw [view_keys] at used
    obtain ⟨transition,listed,same⟩ := List.mem_map.mp used
    exact List.find?_eq_none.mp unlisted transition listed (by simp [same])
  have distinct := (consistent.filed key rows' loaded.stored).distinct
  by_cases referred : ∃ taskId task, s.tasks.lookup taskId = some task ∧ planKeyOf task = some key
  · obtain ⟨taskId,task,found,refers⟩ := referred
    obtain rfl := (consistent.rowed _ _ found).taskId
    refine resolveDecisionTx_keyless task unknown distinct unused ?_
    exact (keyed.2 _ task rows' ⟨found,⟨key,refers,loaded.stored⟩,loaded.planId,rfl⟩ ⟨key,loaded⟩).2
  · have untold := consistent.lone key rows' loaded.stored fun taskId task found refers =>
        referred ⟨taskId,task,found,refers⟩
    -- no task is looked at, any row serves
    have envelope : TaskEnvelope := ⟨rows'.plan.taskId,rows'.plan.tenantId,rows'.plan.operatorId,
      .default,true,.fromPrincipal request.principal⟩
    exact resolveDecisionTx_keyless (newTask ⟨0,request.principal,"","",envelope,0,1,none,
      none⟩ envelope now) unknown
      distinct unused fun derived derives => absurd derives (idle_derives untold.idle)

-- Admitting and deciding on plans.

theorem admissionWrites_fresh {tell : PlanState → String} {now : Time} {v : View} (unrecorded : v.keys = [])
    (apart : tell .proposed ≠ tell .validated ∧ tell .validated ≠ tell .approved ∧
      tell .proposed ≠ tell .approved) : Fresh v (admissionWrites tell now v.plan) := by
  obtain ⟨one,two,three⟩ := apart
  refine ⟨?_,by simp [unrecorded]⟩
  cases v.plan <;> simp [admissionWrites,keysOf,one,two,three]

theorem unrecorded_undecided (consistent : Consistent encoding (PairSpent encoding) (Untold encoding) s)
    (stored : s.plans.lookup key = some rows) (undecided : isUndecided rows.state = true) :
    (view rows).keys = [] := by
  refine (consistent.lone key rows stored fun taskId task found refers => ?_).unrecorded undecided
  have kept := pair_kept consistent found refers stored
  exact undecided_unphased undecided kept.coherent.phase

theorem recordPlanAdmissionTx_keyless {uuid : Nat} {principal : Principal} {envelope : TaskEnvelope}
    {reference : PlanTaskReference} {verifyNow now : Time}
    (consistent : Consistent encoding (PairSpent encoding) (Untold encoding) s)
    (stored : s.plans.lookup key = some rows) :
    Keyless (recordPlanAdmissionTx encoding ⟨rows,uuid⟩ principal envelope reference verifyNow now) := by
  intro refused
  refine recordPlanAdmissionTx_writes.refused refused ?_
  by_cases undecided : isUndecided rows.state = true
  · exact admissionWrites_fresh (unrecorded_undecided consistent stored undecided) (by simp [admissionKey])
  · have none : admissionWrites admissionKey now rows.state = [] := by
      cases state : rows.state <;> simp_all [isUndecided,admissionWrites]
    show Fresh (view rows) (admissionWrites admissionKey now rows.state)
    rw [none]
    exact ⟨List.nodup_nil,by simp [keysOf]⟩

theorem approvalKey_apart (id : String) : approvalKey id .proposed ≠ approvalKey id .validated ∧
    approvalKey id .validated ≠ approvalKey id .approved ∧
    approvalKey id .proposed ≠ approvalKey id .approved := by
  have proposed : approvalKey id .proposed = "approval:" ++ "proposed:" ++ id :=
    congrArg (· ++ id) (show "approval:proposed:" = "approval:" ++ "proposed:" by decide +kernel)
  have validated : approvalKey id .validated = "approval:" ++ "validated:" ++ id :=
    congrArg (· ++ id) (show "approval:validated:" = "approval:" ++ "validated:" by decide +kernel)
  have approved : approvalKey id .approved = "approval:" ++ "approved:" ++ id :=
    congrArg (· ++ id) (show "approval:approved:" = "approval:" ++ "approved:" by decide +kernel)
  rw [proposed,validated,approved]
  have tags := fun (tag tag' : String) apart long long' =>
      @derived_tags "approval:" tag tag' ⟨id⟩ ⟨id⟩ apart long long'
  exact ⟨tags _ _ (by decide +kernel) (by decide +kernel) (by decide +kernel),
    tags _ _ (by decide +kernel) (by decide +kernel) (by decide +kernel),
    tags _ _ (by decide +kernel) (by decide +kernel) (by decide +kernel)⟩

theorem decideApprovalTx_keyless {uuid : Nat} {approval : PlanApproval} {now : Time}
    (unrecorded : isUndecided rows.state = true → (view rows).keys = []) :
    Keyless (decideApprovalTx encoding ⟨rows,uuid⟩ (snapshotOf rows) approval now) := by
  by_cases undecided : isUndecided rows.state = true
  · intro refused
    refine decideApprovalTx_writes.refused refused ?_
    have none := unrecorded undecided
    unfold decisionWrites
    split
    · split
      · exact ⟨List.nodup_nil,by simp [keysOf]⟩
      · exact admissionWrites_fresh none (approvalKey_apart _)
    · exact ⟨List.nodup_singleton _,by simp [none]⟩
  · -- a plan that is decided on is not decided on again
    unfold decideApprovalTx
    split
    · split
      · exact keyless_pure
      · cases state : rows.state <;> simp_all [isUndecided,appendWhen,require]
    · refine .after (keyless_require.mpr (.inr (by simp))) fun _ open_ => absurd ?_ undecided
      rw [require_ok,snapshotOf_state] at open_
      rcases open_ with state | state | state | state <;> rw [state] <;> rfl

theorem submit_keyless {request : SubmitRequest} {clock : SubmitClock}
    (consistent : Consistent encoding (PairSpent encoding) (Untold encoding) s) :
    Keyless (submitTaskGoverned encoding s request clock) := by
  have validated : Keyless (validateSubmit request) := by
    unfold validateSubmit Queue.validateKey
    exact .bind (by simp) fun _ => .bind (by simp) fun _ =>
        .bind (keyless_checkOption fun _ => by simp) fun _ =>
      .bind (by simp) fun _ => .bind (by simp) fun _ => by simp
  refine .bind validated fun _ => .bind (by simp) fun _ => .bind (by simp) fun _ =>
    .bind (by simp) fun limits => ?_
  split
  · exact .bind loadTask_keyless fun _ => .bind (by simp) fun _ => keyless_pure
  have counted :
      Keyless (checkEach (checkRateWindow s limits (fixedWindowStart clock.now limits.windowSeconds)
      clock.now) (submitScopes request.principal)) := keyless_checkEach fun _ => by simp [checkRateWindow]
  have quotas :
      ∀ admitted cost, Keyless (checkTaskQuotas admitted limits request.principal.tenantId clock.now cost) :=
    fun _ _ => .bind (by simp) fun _ => .bind (by simp) fun _ => by simp
  refine .bind counted fun _ => .bind ?_ fun _ => .bind (quotas _ _) fun _ => .bind (by simp) fun _ =>
    .bind loadTask_keyless fun _ => keyless_pure
  unfold admitReference
  split
  · exact keyless_pure
  · refine beginPlan_keyless.after fun tx begun => ?_
    obtain ⟨rows,stored,rfl⟩ := beginPlan_ok begun
    exact .bind (recordPlanAdmissionTx_keyless consistent stored) fun _ => keyless_pure

theorem approvePlan_keyless {principal : Principal} {approval : PlanApproval} {approvalKey : String}
    {now : Time} (consistent : Consistent encoding (PairSpent encoding) (Untold encoding) s) :
    Keyless (approvePlan encoding s principal approval approvalKey now) := by
  have labelled : Keyless (validateKey approvalKey "approval_idempotency_key" 256) := by
    unfold Queue.validateKey
    simp
  have shaped : ∀ plan, Keyless (validateApprovalShape plan principal approval now) := fun plan => by
    unfold validateApprovalShape approvalScope
    refine .bind (by simp) fun _ => .bind ?_ fun _ => .bind (by simp) fun _ => ?_
    · split
      · exact .bind (by simp) fun _ => keyless_pure
      · exact keyless_ok
    · split <;> simp
  refine .bind (by simp) fun _ => .bind labelled fun _ => .bind reference_keyless fun reference =>
    beginPlan_keyless.after fun tx begun => loadPlanTx_keyless.after fun plan loaded =>
      .bind (shaped plan) fun _ => ?_
  obtain ⟨rows,stored,rfl⟩ := beginPlan_ok begun
  obtain rfl := (loadPlanTx_ok.mp loaded).1
  split
  · exact .bind (by simp) fun _ => keyless_pure
  · refine .bind (by simp) fun _ => .bind ?_ fun _ => .bind insertCheckpointTx_keyless fun _ => keyless_pure
    exact @decideApprovalTx_keyless encoding {rows with approvals:=rows.approvals ++
      [⟨approval,now,approvalKey⟩]}
      s.nextUuid approval now (@unrecorded_undecided encoding s rows _ consistent stored)

theorem savePlan_keyless {plan : PlanSpec} : Keyless (savePlan encoding s plan) := by
  have inserts : ∀ steps before, Keyless (insertSteps steps before) := fun steps => by
    induction steps with
    | nil => exact fun _ => keyless_ok
    | cons step rest ih => exact fun before => .bind (by simp) fun _ => ih _
  refine .bind keyless_liftCore fun _ => .bind keyless_liftCore fun _ => ?_
  split
  · exact .bind (by simp) fun _ => .bind (by simp) fun _ => keyless_pure
  · exact .bind (inserts _ _) fun _ => keyless_pure

theorem bootstrapPrincipal_keyless {principal : Principal} : Keyless (bootstrapPrincipal s principal) := by
  unfold bootstrapPrincipal Queue.validateKey
  refine .bind (by simp) fun _ => .bind (by simp) fun _ => ?_
  split <;> exact keyless_pure

theorem setLimits_keyless {tenantId : TenantId} {limits : TenantLimits} :
    Keyless (setLimits s tenantId limits) := by
  unfold setLimits validateLimits
  refine .bind ?_ fun _ => .bind (by simp) fun _ => keyless_pure
  exact .bind (by simp) fun _ => .bind (by simp) fun _ => .bind (by simp) fun _ =>
    .bind (by simp) fun _ => by simp

end Shaka.Store
