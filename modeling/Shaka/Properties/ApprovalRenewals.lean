import Shaka.Properties.ClaimSafety
import Shaka.Store.Undecided
import Shaka.Plan.Readiness

namespace Shaka.Properties
open Shaka.Core Queue Plan Store CheckedSteps GuardedRuns

variable {encoding : StoreEncoding} {s s' : QueueStore} {key : PlanKey} {rows rows' : PlanRows} {now : Time}

-- The preflight as a claim runs it on a stored plan.
def preflightAt (encoding : StoreEncoding) (rows : PlanRows) (now : Time) : Bool :=
  isExecutable encoding (snapshotOf rows) (preflightContext (loadApprovalsTx rows (snapshotOf rows)) now)

theorem preflightAt_exact (structured : rows.plan.validateStructure = .ok ()) :
    preflightAt encoding rows now = true ↔
    PlanVerifier.default.verifyPlan encoding.toEncoding (snapshotOf rows) = [] ∧ ApprovedAt rows now := by
  constructor
  · intro passes
    obtain ⟨_,clean,approval⟩ := verify_executable.mp passes
    refine ⟨clean,?_⟩
    rcases verifyPreflightApproval_clean.mp approval with needless | ⟨approval,listed,valid⟩
    · exact .inl needless
    · obtain ⟨row,stored,rfl⟩ := mem_loadApprovals listed
      exact .inr ⟨row,stored,valid.state⟩
  · rintro ⟨clean,approved⟩
    exact Sealed.preflight ⟨structured,clean⟩ approved

-- The preflight fails, and on the same rows it passed before: only time has gone by.
structure Lapsed (encoding : StoreEncoding) (rows : PlanRows) (now : Time) : Prop where
  ongoing : rows.state.isTerminal = false
  failing : preflightAt encoding rows now = false
  passing : ∃ before ≤ now, preflightAt encoding rows before = true

-- A new approval of the whole plan, with an operator who may give it. A UUID is
-- written with 36 characters.
structure Renewal (encoding : StoreEncoding) (s : QueueStore) (rows : PlanRows) (principal : Principal)
    (approval : PlanApproval) (idempotencyKey : String) (now : Time) : Prop where
  allowed : principal.allows .approvePlan = true
  approver : principal.operatorId = approval.approver
  role : principal.role = approval.approverRole
  tenantId : principal.tenantId = rows.plan.tenantId
  valid : ValidApproval approval rows.plan now
  keyed : validateKey idempotencyKey "approval_idempotency_key" 256 = .ok ()
  unused : ∀ row ∈ rows.approvals, row.idempotencyKey ≠ idempotencyKey
  fresh : ∀ rows ∈ s.planRows, approval.approvalId ∉ rows.approvals.map (·.approval.approvalId)
  short : (encoding.uuidText approval.approvalId).utf8ByteSize ≤ 36

section Answers
variable {principal : Principal} {approval : PlanApproval} {idempotencyKey : String}

-- The rows with a renewal on them, before it decides on the plan.
def withApproval (rows : PlanRows) (approval : PlanApproval) (idempotencyKey : String) (now : Time) :
    PlanRows :=
  {rows with approvals:=rows.approvals ++ [⟨approval,now,idempotencyKey⟩]}

theorem Renewal.own (renewal : Renewal encoding s rows principal approval idempotencyKey now)
    (filed : Filed encoding key rows) : key = (approval.planId,approval.revision) := by
  rw [renewal.valid.samePlan,renewal.valid.sameRevision]
  exact Prod.ext filed.planId.symm filed.revision.symm

theorem Renewal.shaped (renewal : Renewal encoding s rows principal approval idempotencyKey now) :
    validateApprovalShape (snapshotOf rows) principal approval now = .ok () := by
  have valid := ValidApproval.restated rows.state renewal.valid
  simp only [validateApprovalShape,bind_ok,require_ok,exists_const,approvalScope,valid.isGlobal,
    valid.decided,if_true]
  refine ⟨⟨valid.samePlan,valid.sameRevision,valid.sameDigest,valid.sameTenant,?_,renewal.approver.symm,
    renewal.role.symm,valid.unrevoked,valid.unexpired⟩,_,rfl,⟨valid.level,valid.role⟩,?_⟩
  · exact valid.sameTenant.trans renewal.tenantId.symm
  · exact liftCore_ok.mpr (validateFor_global.mpr valid)

-- Every check passes up to the decision.
theorem Renewal.answers (renewal : Renewal encoding s rows principal approval idempotencyKey now)
    (filed : Filed encoding key rows) (stored : s.plans.lookup key = some rows)
    (hex : Queue.validateSha256 (rows.plan.calculateDigest encoding.toEncoding) "plan_digest" = .ok ()) :
    approvePlan encoding s principal approval idempotencyKey now = (do
      let (outcome,tx) ← decideApprovalTx encoding ⟨withApproval rows approval idempotencyKey now,s.nextUuid⟩
        (snapshotOf rows) approval now
      let tx ← insertCheckpointTx tx none .approval (if outcome = .approved then .succeeded
        else .failed) none now
      pure (outcome,s.storePlan key tx)) := by
  have valid := renewal.valid
  have own : key = (rows.plan.planId,rows.plan.revision) := Prod.ext filed.planId.symm filed.revision.symm
  have loaded :
      loadPlanTx encoding rows principal.tenantId ⟨rows.plan.planId,rows.plan.revision,rows.plan.digest⟩ =
      .ok (snapshotOf rows) := by
    refine loadPlanTx_ok.mpr ⟨rfl,filed.tenantId.trans renewal.tenantId.symm,filed.digest,rfl,rfl,
      renewal.tenantId.symm,rfl,filed.structured,filed.sealed⟩
  have begun : s.beginPlan encoding ⟨rows.plan.planId,rows.plan.revision,rows.plan.digest⟩ = .ok ⟨rows,
      s.nextUuid⟩ := by
    rw [QueueStore.beginPlan,← own,stored]
    rfl
  have unknown : rows.approvals.find? (fun row => row.idempotencyKey == idempotencyKey) = none := by
    simpa using renewal.unused
  rw [own]
  simp only [approvePlan,
    require_pos _ (And.intro renewal.allowed (And.intro renewal.approver renewal.role)),ok_bind,
    renewal.keyed,valid.samePlan,valid.sameRevision,valid.sameDigest,filed.reference hex,begun,loaded,
    renewal.shaped,unknown,require_pos _ renewal.fresh,valid.isGlobal]
  rfl

theorem Renewal.refused (renewal : Renewal encoding s rows principal approval idempotencyKey now)
    (filed : Filed encoding key rows) (stored : s.plans.lookup key = some rows)
    (hex : Queue.validateSha256 (rows.plan.calculateDigest encoding.toEncoding) "plan_digest" = .ok ())
    (decided : isUndecided rows.state = false) :
    approvePlan encoding s principal approval idempotencyKey now =
      .error (.invalidInput "plano não está aguardando aprovação") := by
  have refusal := @decideApprovalTx_decided encoding ⟨withApproval rows approval idempotencyKey now,
    s.nextUuid⟩ now approval decided renewal.valid.decided renewal.valid.isGlobal
  rw [renewal.answers filed stored hex,show decideApprovalTx encoding _ (snapshotOf rows) approval now =
    _ from refusal]
  rfl

theorem Renewal.accepted (renewal : Renewal encoding s rows principal approval idempotencyKey now)
    (filed : Filed encoding key rows) (stored : s.plans.lookup key = some rows)
    (hex : Queue.validateSha256 (rows.plan.calculateDigest encoding.toEncoding) "plan_digest" = .ok ())
    (undecided : isUndecided rows.state = true) (unrecorded : rows.transitions = []) :
    ∃ s' tx tx', approvePlan encoding s principal approval idempotencyKey now = .ok (.approved,s') ∧
      Deciding encoding s s' principal approval idempotencyKey now .approved rows tx tx' := by
  have structured := filed.structured
  simp only [PlanSpec.validateStructure,bind_ok,require_ok,exists_const] at structured
  obtain ⟨tx,decided⟩ := @decideApprovalTx_done encoding ⟨withApproval rows approval idempotencyKey now,
    s.nextUuid⟩ now
    approval undecided (by simp [withApproval,unrecorded]) renewal.valid.decided renewal.valid.isGlobal
      structured.1 renewal.short
  obtain ⟨tx',noted⟩ := @insertCheckpoint_done tx now none .approval .succeeded none (by simp [SoundDigest])
  have own := renewal.own filed
  rw [← renewal.valid.isGlobal] at noted
  refine ⟨s.storePlan key tx',tx,tx',?_,own ▸ stored,filed.tenantId.trans renewal.tenantId.symm,
    renewal.shaped,decided,noted,by rw [own]⟩
  rw [renewal.answers filed stored hex]
  rw [renewal.valid.isGlobal] at noted
  exact bind_ok.mpr ⟨_,decided,bind_ok.mpr ⟨_,noted,rfl⟩⟩

end Answers

-- A lapsed plan, then and in any later state.

theorem ApprovedAt.released {now : Time} (approved : ApprovedAt rows now)
    (needed : rows.plan.requiredApproval ≠ .none) :
    ∃ row ∈ rows.approvals, Releases row ∧ ValidApproval row.approval rows.plan now := by
  obtain ⟨row,stored,valid⟩ := approved.resolve_left needed
  exact ⟨row,stored,⟨valid.decided,valid.isGlobal⟩,valid⟩

theorem ValidApproval.earlier {approval : PlanApproval} {plan : PlanSpec} {now later : Time}
    (order : now ≤ later) (valid : ValidApproval approval plan later) : ValidApproval approval plan now :=
  {valid with unexpired:=lt_of_le_of_lt order valid.unexpired}

theorem Lapsed.needed (lapsed : Lapsed encoding rows now)
    (structured : rows.plan.validateStructure = .ok ()) :
    rows.plan.requiredApproval ≠ .none ∧ ¬ ApprovedAt rows now ∧ ∃ before, ApprovedAt rows before := by
  obtain ⟨_,failing,before,_,passing⟩ := lapsed
  obtain ⟨clean,approved⟩ := (preflightAt_exact structured).mp passing
  have refused : ¬ ApprovedAt rows now := fun approved => by
    rw [(preflightAt_exact structured).mpr ⟨clean,approved⟩] at failing
    cases failing
  exact ⟨fun needless => refused (.inl needless),refused,before,approved⟩

theorem Lapsed.decided (lapsed : Lapsed encoding rows now) (filed : Filed encoding key rows)
    (awaits : AwaitsDecisions s) (stored : s.plans.lookup key = some rows) :
    isUndecided rows.state = false := by
  obtain ⟨needed,_,before,approved⟩ := lapsed.needed filed.structured
  obtain ⟨row,listed,releases,_⟩ := ApprovedAt.released approved needed
  rw [← Bool.not_eq_true]
  exact fun undecided => (awaits key rows stored undecided).unreleased row listed releases

-- What a plan keeps in every later state.
theorem reaches_kept {allowed : QueueStore → Operation → Prop} (later : Reaches (exec encoding) allowed s s')
    (stored : s.plans.lookup key = some rows) :
    ∃ rows', s'.plans.lookup key = some rows' ∧ rows'.plan = rows.plan ∧ DecidedOnce rows rows' := by
  refine later.invariant (motive := fun s' => ∃ rows', s'.plans.lookup key = some rows' ∧
    rows'.plan = rows.plan ∧ DecidedOnce rows rows') ⟨rows,stored,rfl,.refl rows⟩ fun s op kept _ => ?_
  obtain ⟨rows',stored',plan,once⟩ := kept
  have transacts := exec_transacts encoding s op
  obtain ⟨rows'',stored'',plan',_⟩ := transacts.kept key rows' stored'
  exact ⟨rows'',stored'',plan'.trans plan,once.trans (transacts.settled key rows' rows'' stored' stored'')⟩

theorem Lapsed.failing_later (lapsed : Lapsed encoding rows now)
    (structured : rows.plan.validateStructure = .ok ()) (decided : isUndecided rows.state = false)
    (plan : rows'.plan = rows.plan) (once : DecidedOnce rows rows') {later : Time} (order : now ≤ later) :
    preflightAt encoding rows' later = false := by
  obtain ⟨needed,refused,_⟩ := lapsed.needed structured
  rw [← Bool.not_eq_true]
  intro passes
  obtain ⟨_,approved⟩ := (preflightAt_exact (plan ▸ structured)).mp passes
  obtain ⟨row,stored,releases,valid⟩ := ApprovedAt.released approved (plan ▸ needed)
  exact refused (.inr ⟨row,once.approvals decided row stored releases,
    ValidApproval.earlier order (plan ▸ valid)⟩)

-- No renewal of the plan is accepted any more, and no claim hands out its task.
structure Stranded (encoding : StoreEncoding) (s : QueueStore) (key : PlanKey) (rows : PlanRows)
    (since : Time) : Prop where
  decided : isUndecided rows.state = false
  failing : ∀ now, since ≤ now → preflightAt encoding rows now = false
  refused : ∀ principal approval idempotencyKey now,
    Renewal encoding s rows principal approval idempotencyKey now →
    approvePlan encoding s principal approval idempotencyKey now =
      .error (.invalidInput "plano não está aguardando aprovação")
  unclaimed : ∀ now leaseFor planContext claimed s', since ≤ now →
    claimNextWithPlanContext encoding s now leaseFor planContext = .ok (some claimed,s') →
    planKeyOf claimed ≠ some key

theorem unclaimed_failing (linked : Linked encoding s) (stored : s.plans.lookup key = some rows)
    {leaseFor : Time} {planContext : PlanClaimContext} {claimed : TaskRecord}
    (failing : preflightAt encoding rows now = false)
    (ok : claimNextWithPlanContext encoding s now leaseFor planContext = .ok (some claimed,s')) :
    planKeyOf claimed ≠ some key := by
  intro refers
  obtain ⟨task,_,same,⟨direct,_⟩ | ⟨reference,found,step,_,prepared⟩⟩ :=
    claim_prepared (fun taskId task found => (linked.rowed taskId task found).taskId) ok
  · rw [same,planKeyOf,direct] at refers
    cases refers
  · rw [same,taskReference_key prepared.named,Option.some.injEq] at refers
    obtain rfl := Option.some.inj (stored.symm.trans (refers ▸ prepared.stored))
    exact absurd (failing.symm.trans prepared.granted.preflight) (by decide)

-- A plan that awaits its decision is approved, and its preflight passes as long as the approval
-- lasts, when there is nothing else against it. One whose approval has expired is past that.
theorem approval_renewal {allowed : QueueStore → Operation → Prop} (run : Run encoding allowed s)
    (stored : s.plans.lookup key = some rows)
    (hex : Queue.validateSha256 (rows.plan.calculateDigest encoding.toEncoding) "plan_digest" = .ok ()) :
    (isUndecided rows.state = true → ∀ principal approval idempotencyKey now,
      Renewal encoding s rows principal approval idempotencyKey now → ∃ s' rows',
        approvePlan encoding s principal approval idempotencyKey now = .ok (.approved,s') ∧
        s'.plans.lookup key = some rows' ∧
        (PlanVerifier.default.verifyPlan encoding.toEncoding (snapshotOf rows) = [] →
          ∀ later < approval.expiresAt, preflightAt encoding rows' later = true)) ∧
    ∀ now, Lapsed encoding rows now → ∀ s', Reaches (exec encoding) allowed s s' →
      ∃ rows', s'.plans.lookup key = some rows' ∧ Stranded encoding s' key rows' now := by
  have filed := (run_linked run).filed key rows stored
  refine ⟨fun undecided principal approval idempotencyKey now renewal => ?_,fun now lapsed s' later => ?_⟩
  · obtain ⟨s',tx,tx',ok,deciding⟩ := renewal.accepted filed stored hex undecided
      (run_awaits run key rows stored undecided).unrecorded
    refine ⟨s',tx'.rows,ok,?_,fun clean later order => ?_⟩
    · rw [deciding.kept,renewal.own filed]
      exact AList.lookup_insert _
    · have decided := deciding.row
      have plan := (SameSpec.decided decided.edits.same).1
      have approved := decided_approves decided renewal.valid.decided renewal.valid.isGlobal
      have sealed_ : Sealed encoding rows := ⟨filed.structured,clean⟩
      have listed : ⟨approval,now,idempotencyKey⟩ ∈ tx'.rows.approvals := by
        rw [decided_approvals decided]
        exact List.mem_append_right _ (List.mem_singleton_self _)
      have valid : ValidApproval approval rows.plan later := {renewal.valid with unexpired:=order}
      exact (sealed_.restated plan (by rw [approved]; rfl)).preflight (.inr ⟨_,listed,plan ▸ valid⟩)
  · have decided := lapsed.decided filed (run_awaits run) stored
    obtain ⟨rows',stored',plan,once⟩ := reaches_kept later stored
    have linked := run_linked (run.trans later)
    have failing : ∀ at_, now ≤ at_ → preflightAt encoding rows' at_ = false :=
      fun at_ order => lapsed.failing_later filed.structured decided plan once order
    refine ⟨rows',stored',once.state decided,failing,fun principal approval idempotencyKey at_ renewal => ?_,
      fun at_ leaseFor planContext claimed after order ok =>
      unclaimed_failing linked stored' (failing at_ order) ok⟩
    exact renewal.refused (linked.filed key rows' stored') stored' (plan ▸ hex) (once.state decided)

-- A plan to be reviewed, before and after the approval of the reviewer has expired.

def trialReviewer : Principal := ⟨⟨"reviewer"⟩,⟨"tenant"⟩,.reviewer⟩

def trialRenewal : PlanApproval := {trialApproval with approvalId:=51,expiresAt:=second 20}

def savedRun : List Operation := [.bootstrapPrincipal trialAdmin,.createSession trialAdmin,
    .savePlan reviewedPlan]

-- The reviewed plan is the one stored, and nobody has used the identifiers of the renewal.
def awaitsRenewal (s : QueueStore) (rows : PlanRows) : Bool :=
  rows.plan == reviewedPlan && rows.approvals.all (·.idempotencyKey != "approval-2") &&
    s.planRows.all fun rows => !(rows.approvals.map (·.approval.approvalId)).contains 51

theorem awaitsRenewal_fits {now : Time} (awaits : awaitsRenewal s rows = true) (lasts : now < second 20) :
    rows.plan = reviewedPlan ∧ Renewal trialEncoding s rows trialReviewer trialRenewal "approval-2" now := by
  simp only [awaitsRenewal,Bool.and_eq_true,beq_iff_eq,List.all_eq_true,bne_iff_ne,Bool.not_eq_true',
    List.contains_eq_mem,decide_eq_false_iff_not] at awaits
  obtain ⟨⟨plan,unused⟩,fresh⟩ := awaits
  have valid : trialRenewal.validateFor reviewedPlan none (second 1) = .ok () := by decide +kernel
  refine ⟨plan,by decide,rfl,rfl,by rw [plan]; rfl,?_,by decide +kernel,unused,fresh,by decide +kernel⟩
  rw [plan]
  exact {validateFor_global.mp valid with unexpired:=lasts}

def hexDigest (plan : PlanSpec) : Bool :=
  decide (Queue.validateSha256 (plan.calculateDigest trialEncoding.toEncoding) "plan_digest" = .ok ())

theorem approval_renewal_saved : ∃ s' rows',
    approvePlan trialEncoding (trial savedRun) trialReviewer trialRenewal "approval-2" (second 1) =
      .ok (.approved,s') ∧
    s'.plans.lookup (⟨7⟩,1) = some rows' ∧ preflightAt trialEncoding rows' (second 10) = true := by
  have evaluated : ((trial savedRun).plans.lookup (⟨7⟩,1)).any (fun rows => isUndecided rows.state &&
      awaitsRenewal (trial savedRun) rows && hexDigest rows.plan &&
      decide (PlanVerifier.default.verifyPlan trialEncoding.toEncoding (snapshotOf rows) = [])) =
        true := by decide +kernel
  obtain ⟨rows,stored,facts⟩ := (Option.any_eq_true _ _).mp evaluated
  simp only [Bool.and_eq_true,hexDigest,decide_eq_true_eq] at facts
  obtain ⟨⟨⟨undecided,awaits⟩,hex⟩,clean⟩ := facts
  have renewal := (awaitsRenewal_fits awaits (show second 1 < second 20 by decide)).2
  obtain ⟨s',rows',ok,stored',passes⟩ :=
    (approval_renewal (@ordinary_run _ savedRun rfl) stored hex).1 undecided _ _ _ _ renewal
  exact ⟨s',rows',ok,stored',passes clean _ (by decide)⟩

-- The task of the plan is in the queue when the first approval ends.
theorem approval_unrenewed : ∃ s key rows, Run trialEncoding Ordinary s ∧ s.plans.lookup key = some rows ∧
    (∃ task ∈ s.taskRows, planKeyOf task = some key ∧ task.status = .queued) ∧
    Lapsed trialEncoding rows (second 10) ∧
    Renewal trialEncoding s rows trialReviewer trialRenewal "approval-2" (second 10) ∧
    approvePlan trialEncoding s trialReviewer trialRenewal "approval-2" (second 10) =
      .error (.invalidInput "plano não está aguardando aprovação") := by
  have evaluated :
      ((trial reviewedRun).plans.lookup (⟨7⟩,1)).any (fun rows => awaitsRenewal (trial reviewedRun) rows &&
      !rows.state.isTerminal && preflightAt trialEncoding rows (second 2) &&
        !preflightAt trialEncoding rows (second 10)) =
        true := by decide +kernel
  have queued : (trial reviewedRun).taskRows.any (fun task => decide (planKeyOf task = some (⟨7⟩,1)) &&
      task.status == .queued) = true := by decide +kernel
  have refused :
      (match approvePlan trialEncoding (trial reviewedRun) trialReviewer trialRenewal "approval-2"
      (second 10) with
      | .error error => some error
      | .ok _ => none) = some (.invalidInput "plano não está aguardando aprovação") := by decide +kernel
  obtain ⟨rows,stored,facts⟩ := (Option.any_eq_true _ _).mp evaluated
  simp only [Bool.and_eq_true,Bool.not_eq_true'] at facts
  obtain ⟨⟨⟨awaits,ongoing⟩,passing⟩,failing⟩ := facts
  obtain ⟨task,listed,here⟩ := List.any_eq_true.mp queued
  simp only [Bool.and_eq_true,decide_eq_true_eq,beq_iff_eq] at here
  refine ⟨trial reviewedRun,_,rows,@ordinary_run _ reviewedRun rfl,stored,⟨task,listed,here⟩,
    ⟨ongoing,failing,second 2,by decide,passing⟩,(awaitsRenewal_fits awaits (by decide)).2,?_⟩
  split at refused
  · next answered =>
    rw [answered,Option.some.inj refused]
  · cases refused

end Shaka.Properties
