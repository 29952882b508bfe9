import Mathlib.Data.List.Induction
import Shaka.Properties.UnknownMarks
import Shaka.Store.Linked

namespace Shaka.Properties
open Shaka.Core Queue Plan Store CheckedSteps GuardedRuns

variable {encoding : StoreEncoding} {s s' : QueueStore} {key : PlanKey} {rows : PlanRows}
  {request : ResolutionRequest} {decision : PlanResolutionDecision} {now : Time}

-- A resolution leaves the transition out of `Unknown` that its key stands for.

theorem appendPlan_records {tx tx' : PlanTx} {plan : PlanSpec} {origin target : PlanState}
    {idempotencyKey : String}
    (ok : appendPlanTransitionTx encoding tx plan origin target idempotencyKey now = .ok tx') :
    ∃ transition ∈ tx'.rows.transitions, transition.idempotencyKey = idempotencyKey ∧
      transition.fromState = .plan origin ∧ transition.toState = .plan target := by
  obtain ⟨transition,_,_,left,reached,named,_,appending⟩ := appendTransitionTx_ok ok
  obtain ⟨rows,_,same⟩ := appending.written
  refine ⟨transition,?_,named,left,reached⟩
  rw [same]
  exact List.mem_append_right _ (List.mem_singleton.mpr rfl)

theorem resolveDecision_records {tx tx' : PlanTx} {plan : PlanSpec}
    (ok : resolveDecisionTx encoding tx plan request now = .ok tx') :
    ∃ transition ∈ tx'.rows.transitions, transition.idempotencyKey = request.idempotencyKey ∧
      transition.fromState = .plan .unknown ∧ transition.toState = .plan request.decision.target := by
  unfold resolveDecisionTx at ok
  split at ok
  · next decision =>
    simp only [resumeUnknownTx,bind_ok] at ok
    obtain ⟨_,_,_,_,resumed⟩ := ok
    rw [decision]
    exact appendPlan_records resumed
  · next decision =>
    simp only [compensateUnknownTx,bind_ok] at ok
    obtain ⟨_,_,_,_,_,_,_,_,_,_,started⟩ := ok
    rw [decision]
    exact appendPlan_records started
  · next decision =>
    simp only [cancelUnknownTx,bind_ok] at ok
    obtain ⟨_,_,_,_,_,_,cancelled⟩ := ok
    rw [decision]
    exact appendPlan_records cancelled

theorem target_injective {other : PlanResolutionDecision} (same : decision.target = other.target) :
    decision = other := by
  cases decision <;> cases other <;> first | rfl | cases same

theorem outcome_new (decision : PlanResolutionDecision) : decision.outcome ≠ .existing := by
  cases decision <;> simp [PlanResolutionDecision.outcome]

-- What callers can do to the store: besides the operations, a plan can be marked Unknown at any time.
inductive Change where
  | operation (op : Operation)
  | mark (tenantId : TenantId) (planId : PlanId) (stepId : Option PlanStepId) (stateDigest : Option String)
      (now : Time)

def applyChange (encoding : StoreEncoding) (s : QueueStore) : Change → QueueStore
  | .operation op => exec encoding s op
  | .mark tenantId planId stepId stateDigest now =>
    (commit (fun s => markPlanUnknown encoding s tenantId planId stepId stateDigest now) s).2

def after (encoding : StoreEncoding) (history : List Change) : QueueStore :=
  play (applyChange encoding) .empty history

@[simp] theorem after_append (history : List Change) (change : Change) :
    after encoding (history ++ [change]) = applyChange encoding (after encoding history) change := by
  simp [after,play]

-- The call takes effect on this revision of the plan: it answers with what it did.
structure TakesEffect (encoding : StoreEncoding) (s : QueueStore) (key : PlanKey)
    (request : ResolutionRequest) (now : Time) : Prop where
  found : ∃ rows, Loaded s request.planId request.principal.tenantId key rows
  answered : ∃ s', resolvePlanUnknown encoding s request now = .ok (request.decision.outcome,s')

-- Some earlier call on the plan with this key and this decision took effect.
def ResolvedUnder (encoding : StoreEncoding) (history : List Change) (key : PlanKey) (idempotencyKey : String)
    (decision : PlanResolutionDecision) : Prop :=
  ∃ first request now rest, history = first ++ .operation (.resolvePlanUnknown request now) :: rest ∧
    TakesEffect encoding (after encoding first) key request now ∧ request.idempotencyKey = idempotencyKey ∧
    request.decision = decision

theorem resolvedUnder_append {history : List Change} {change : Change} {idempotencyKey : String} :
    ResolvedUnder encoding (history ++ [change]) key idempotencyKey decision ↔
      ResolvedUnder encoding history key idempotencyKey decision ∨ ∃ request now,
        change = .operation (.resolvePlanUnknown request now) ∧
        TakesEffect encoding (after encoding history) key request now ∧
        request.idempotencyKey = idempotencyKey ∧ request.decision = decision := by
  constructor
  · rintro ⟨first,request,now,rest,split,effect⟩
    rcases List.eq_nil_or_concat rest with rfl | ⟨rest,last,rfl⟩
    · obtain ⟨rfl,same⟩ := List.append_inj' split rfl
      exact .inr ⟨request,now,List.head_eq_of_cons_eq same,effect⟩
    · rw [List.concat_eq_append,← List.cons_append,← List.append_assoc] at split
      obtain ⟨rfl,_⟩ := List.append_inj' split rfl
      exact .inl ⟨first,request,now,rest,rfl,effect⟩
  · rintro (⟨first,request,now,rest,rfl,effect⟩ | ⟨request,now,rfl,effect⟩)
    · exact ⟨first,request,now,rest ++ [change],by simp,effect⟩
    · exact ⟨history,request,now,[],rfl,effect⟩

-- What a change may lead out of `Unknown`.
def LeavesBy (encoding : StoreEncoding) (s : QueueStore) (change : Change) (key : PlanKey)
    (target : PlanState) (idempotencyKey : String) : Prop :=
  ∃ request now, change = .operation (.resolvePlanUnknown request now) ∧
    TakesEffect encoding s key request now ∧
    request.idempotencyKey = idempotencyKey ∧ request.decision.target = target

theorem mark_parts (encoding : StoreEncoding) (s : QueueStore) (tenantId : TenantId) (planId : PlanId)
    (stepId : Option PlanStepId) (stateDigest : Option String) (now : Time) :
    applyChange encoding s (.mark tenantId planId stepId stateDigest now) = s ∨ ∃ key rows tx,
      Loaded s planId tenantId key rows ∧
      markPlanUnknownTx encoding ⟨rows,s.nextUuid⟩ (snapshotOf rows) stepId stateDigest now = .ok tx ∧
      (applyChange encoding s (.mark tenantId planId stepId stateDigest now)).plans =
        s.plans.insert key tx.rows ∧
      (applyChange encoding s (.mark tenantId planId stepId stateDigest now)).tasks = s.tasks := by
  simp only [applyChange,commit]
  cases marked : markPlanUnknown encoding s tenantId planId stepId stateDigest now with
  | error e => exact .inl rfl
  | ok answer =>
    obtain ⟨key,rows,tx,loaded,ran,stored⟩ := markPlanUnknown_parts marked
    refine .inr ⟨key,rows,tx,loaded,ran,?_,?_⟩ <;> rw [stored] <;> rfl

theorem applyChange_linked (linked : Linked encoding s) (change : Change) :
    Linked encoding (applyChange encoding s change) := by
  cases change with
  | operation op => exact exec_linked linked op
  | mark tenantId planId stepId stateDigest now =>
    rcases mark_parts encoding s tenantId planId stepId stateDigest now with same | ⟨key,rows,tx,loaded,
      ran,plans,tasks⟩
    · rw [same]
      exact linked
    · have reworks : Reworks encoding (fun _ _ => False) rows tx.rows := markPlanUnknownTx_reworks ran
      exact linked.stepped (.recoverExpiredLeases now) (.same loaded.stored reworks.same plans)
        fun taskId => .inl (by rw [tasks])

theorem after_linked (encoding : StoreEncoding) (history : List Change) :
    Linked encoding (after encoding history) := by
  induction history using List.reverseRecOn with
  | nil => exact linked_consistent.mpr empty_consistent
  | append_singleton history change ih =>
    rw [after_append]
    exact applyChange_linked ih change

theorem applyChange_extends (encoding : StoreEncoding) (s : QueueStore) (change : Change) (key : PlanKey) :
    ∃ added, Extends (LeavesBy encoding s change key) (journalOf s key)
      (journalOf (applyChange encoding s change) key) added := by
  cases change with
  | operation op =>
    obtain ⟨added,extend⟩ := (exec_transacts encoding s op).extended key
    refine ⟨added,extend.joined,extend.keys,fun transition listed unknown => ?_⟩
    obtain ⟨target,reached,leaves⟩ := extend.left transition listed unknown
    refine ⟨target,reached,?_⟩
    generalize transition.idempotencyKey = named at leaves
    cases leaves with
    | resolved loaded answered => exact ⟨_,_,rfl,⟨⟨_,loaded⟩,_,answered⟩,rfl,rfl⟩
  | mark tenantId planId stepId stateDigest now =>
    rcases mark_parts encoding s tenantId planId stepId stateDigest now with same | ⟨marked,rows,tx,loaded,
      ran,plans,_⟩
    · rw [same]
      exact ⟨[],.none rfl⟩
    · exact (@Transacts.reworked encoding _ _ (fun _ => True) (LeavesBy encoding s _) _ _ _ loaded.stored
        (markPlanUnknownTx_reworks ran) plans).extended key

-- The transitions out of `Unknown` in a journal are those of the calls that took effect.
structure Acknowledged (encoding : StoreEncoding) (history : List Change) (key : PlanKey) : Prop where
  distinct : ((journalOf (after encoding history) key).map (·.idempotencyKey)).Nodup
  sound : ∀ transition ∈ journalOf (after encoding history) key, transition.fromState = .plan .unknown →
    ∃ decision, transition.toState = .plan decision.target ∧
      ResolvedUnder encoding history key transition.idempotencyKey decision
  complete : ∀ idempotencyKey decision, ResolvedUnder encoding history key idempotencyKey decision →
    ∃ transition ∈ journalOf (after encoding history) key, transition.idempotencyKey = idempotencyKey ∧
      transition.fromState = .plan .unknown ∧ transition.toState = .plan decision.target

theorem takesEffect_records (effect : TakesEffect encoding s key request now) :
    ∃ transition ∈ journalOf (exec encoding s (.resolvePlanUnknown request now)) key,
      transition.idempotencyKey = request.idempotencyKey ∧ transition.fromState = .plan .unknown ∧
      transition.toState = .plan request.decision.target := by
  obtain ⟨⟨rows,loaded⟩,s',answered⟩ := effect
  rcases resolvePlanUnknown_answers answered with ⟨existing,_⟩ | ⟨_,key',rows',task,tx',noted,update,
    resolution⟩
  · exact absurd existing (outcome_new _)
  obtain ⟨rfl,rfl⟩ := Prod.ext_iff.mp (Option.some.inj (loaded.latest.symm.trans resolution.loaded.latest))
  obtain ⟨transition,listed,named,left,reached⟩ := resolveDecision_records resolution.decided
  have ran : exec encoding s (.resolvePlanUnknown request now) = s' :=
    @exec_ok _ _ _ _ () (storeOf_ok.mpr ⟨_,answered⟩)
  refine ⟨transition,?_,named,left,reached⟩
  rw [ran,journalOf,resolution.plans,AList.lookup_insert,insertCheckpointTx_ok resolution.checkpoint]
  exact listed

theorem acknowledged (encoding : StoreEncoding) (history : List Change) (key : PlanKey) :
    Acknowledged encoding history key := by
  induction history using List.reverseRecOn with
  | nil =>
    refine ⟨List.nodup_nil,fun transition listed => (by cases listed),?_⟩
    rintro idempotencyKey decision ⟨first,request,now,rest,split,_⟩
    simp at split
  | append_singleton history change ih =>
    obtain ⟨added,extend⟩ := applyChange_extends encoding (after encoding history) change key
    refine ⟨?_,fun transition listed left => ?_,fun idempotencyKey decision resolved => ?_⟩
    · rw [after_append]
      exact extend.keys ih.distinct
    · rw [after_append,extend.joined,List.mem_append] at listed
      rcases listed with before | new
      · obtain ⟨decision,reached,resolved⟩ := ih.sound transition before left
        exact ⟨decision,reached,resolvedUnder_append.mpr (.inl resolved)⟩
      · obtain ⟨target,reached,request,now,called,effect,named,same⟩ := extend.left transition new left
        exact ⟨request.decision,by rw [reached,same],
          resolvedUnder_append.mpr (.inr ⟨request,now,called,effect,named,rfl⟩)⟩
    · rw [after_append]
      rcases resolvedUnder_append.mp resolved with before | ⟨request,now,rfl,effect,rfl,rfl⟩
      · obtain ⟨transition,listed,parts⟩ := ih.complete idempotencyKey decision before
        exact ⟨transition,by rw [extend.joined]; exact List.mem_append_left _ listed,parts⟩
      · exact takesEffect_records effect

theorem find?_key {journal : List PlanStoreTransition} {transition : PlanStoreTransition}
    (distinct : (journal.map (·.idempotencyKey)).Nodup) (listed : transition ∈ journal) :
    journal.find? (·.idempotencyKey == transition.idempotencyKey) = some transition := by
  cases found : journal.find? (·.idempotencyKey == transition.idempotencyKey) with
  | none => simpa using List.find?_eq_none.mp found transition listed
  | some first =>
    have same : first.idempotencyKey = transition.idempotencyKey := by simpa using List.find?_some found
    rw [List.inj_on_of_nodup_map distinct (List.mem_of_find?_eq_some found) listed same]

-- What a valid call on a plan answers when its key is in the journal already.
theorem resolve_known (linked : Linked encoding s) (valid : validateResolution request = .ok ())
    (loaded : Loaded s request.planId request.principal.tenantId key rows)
    (hex : Queue.validateSha256 (rows.plan.calculateDigest encoding.toEncoding) "plan_digest" = .ok ())
    {transition : PlanStoreTransition}
    (distinct : (rows.transitions.map (·.idempotencyKey)).Nodup) (listed : transition ∈ rows.transitions)
    (named : transition.idempotencyKey = request.idempotencyKey) :
    resolvePlanUnknown encoding s request now =
      if transition.toState = .plan request.decision.target then .ok (.existing,s)
      else .error .idempotencyConflict := by
  have filed := linked.filed key rows loaded.stored
  have read : loadPlan encoding s request.planId request.principal.tenantId = .ok (snapshotOf rows) := by
    obtain ⟨key',rows',loaded',read⟩ := loadPlan_stored linked.filed loaded.stored
    rw [← filed.planId,loaded.planId,filed.tenantId,loaded.tenantId] at loaded' read
    obtain ⟨rfl,rfl⟩ := Prod.ext_iff.mp (Option.some.inj (loaded.latest.symm.trans loaded'.latest))
    exact read
  have begun : s.beginPlan encoding ⟨rows.plan.planId,rows.plan.revision,rows.plan.digest⟩ = .ok ⟨rows,
      s.nextUuid⟩ := by
    rw [QueueStore.beginPlan,← loaded.key,loaded.stored]
    rfl
  have found :
      rows.transitions.find? (fun transition => transition.idempotencyKey == request.idempotencyKey) =
      some transition := by
    rw [← named]
    exact find?_key distinct listed
  have named' :
      PlanTaskReference.new (snapshotOf rows).planId (snapshotOf rows).revision (snapshotOf rows).digest =
      .ok ⟨rows.plan.planId,rows.plan.revision,rows.plan.digest⟩ := filed.reference hex
  simp only [resolvePlanUnknown,valid,ok_bind,read,named',begun,found]
  split
  · next same =>
    rw [require_pos _ same]
    rfl
  · next other =>
    rw [require_error.mpr ⟨other,rfl⟩]
    rfl

-- A call on a plan never acknowledges falsely, and a repeated one is told so without effect.
structure Faithful (encoding : StoreEncoding) (history : List Change) (key : PlanKey)
    (request : ResolutionRequest) (now : Time) : Prop where
  acknowledged : ∀ s', resolvePlanUnknown encoding (after encoding history) request now = .ok (.existing,s') →
    ResolvedUnder encoding history key request.idempotencyKey request.decision
  repeated : ∀ decision, ResolvedUnder encoding history key request.idempotencyKey decision →
    resolvePlanUnknown encoding (after encoding history) request now =
      (if decision = request.decision then .ok (.existing,after encoding history)
        else .error .idempotencyConflict) ∧
    after encoding (history ++ [.operation (.resolvePlanUnknown request now)]) = after encoding history

-- After any history: exactly when a transition under the key, to the state the decision
-- leads to, was written for a plan left `Unknown`. `load_plan` reads the latest
-- revision of a plan, so a repeated call is on the plan as long as there is no newer one.
theorem resolution_replays (history : List Change) (valid : validateResolution request = .ok ())
    (loaded : Loaded (after encoding history) request.planId request.principal.tenantId key rows)
    (hex : Queue.validateSha256 (rows.plan.calculateDigest encoding.toEncoding) "plan_digest" = .ok ()) :
    Faithful encoding history key request now ↔ ∀ transition ∈ rows.transitions,
      transition.idempotencyKey = request.idempotencyKey →
      transition.toState = .plan request.decision.target →
      transition.fromState = .plan .unknown := by
  have linked := after_linked encoding history
  have journal : journalOf (after encoding history) key = rows.transitions := by rw [journalOf,loaded.stored]
  obtain ⟨distinct,sound,complete⟩ := acknowledged encoding history key
  rw [journal] at distinct sound complete
  constructor
  · intro faithful transition listed named reached
    have answered := @resolve_known _ _ _ _ _ now linked valid loaded hex _ distinct listed named
    rw [if_pos reached] at answered
    obtain ⟨other,listed',named',left,_⟩ := complete _ _ (faithful.acknowledged _ answered)
    obtain rfl := List.inj_on_of_nodup_map distinct listed' listed (named'.trans named.symm)
    exact left
  · intro unknown
    refine ⟨fun s' answered => ?_,fun decision resolved => ?_⟩
    · rcases resolvePlanUnknown_answers answered with ⟨_,_,key',rows',transition,loaded',found,
        reached⟩ | ⟨existing,_⟩
      · obtain ⟨rfl,rfl⟩ := Prod.ext_iff.mp (Option.some.inj (loaded.latest.symm.trans loaded'.latest))
        have listed := List.mem_of_find?_eq_some found
        have named : transition.idempotencyKey = request.idempotencyKey := by
          simpa using List.find?_some found
        obtain ⟨decision,reached',resolved⟩ :=
          sound transition listed (unknown transition listed named reached)
        rw [← named,target_injective (PlanTransitionState.plan.inj (reached.symm.trans reached'))]
        exact resolved
      · exact absurd existing.symm (outcome_new _)
    · obtain ⟨transition,listed,named,_,reached⟩ := complete _ _ resolved
      have answered := @resolve_known _ _ _ _ _ now linked valid loaded hex _ distinct listed named
      rw [reached] at answered
      simp only [after_append,applyChange,exec,commit,transaction,answered]
      by_cases same : decision = request.decision
      · rw [if_pos same,if_pos (by rw [same])]
        exact ⟨rfl,rfl⟩
      · rw [if_neg same,if_neg fun both => same (target_injective (PlanTransitionState.plan.inj both))]
        exact ⟨rfl,rfl⟩

def resumeRequest (idempotencyKey : String) : ResolutionRequest :=
  ⟨trialAdmin,⟨7⟩,.resume,idempotencyKey,some (trialDigest 0)⟩

def claimedHistory : List Change := (trialOpen 7 [trialStep "a" [] none] ++ [trialClaim 2]).map .operation

-- The lease ends, the plan is resumed, and the call is made once more.
def resumedHistory : List Change := claimedHistory ++ [.operation (.recoverExpiredLeases (second 9)),
  .operation (.resolvePlanUnknown (resumeRequest "resume-1") (second 9))]

-- Its plan has a good digest, and leaves `Unknown` where the key of the call is recorded.
def resumedFits (rows : PlanRows) : Bool :=
  decide (Queue.validateSha256 (rows.plan.calculateDigest trialEncoding.toEncoding) "plan_digest" = .ok ()) &&
    rows.transitions.all fun transition =>
      transition.idempotencyKey != "resume-1" || transition.fromState == .plan .unknown

theorem resolution_replays_resumed :
    ∃ key, Faithful trialEncoding resumedHistory key (resumeRequest "resume-1") (second 9) := by
  have valid : validateResolution (resumeRequest "resume-1") = .ok () := by decide +kernel
  have fits : (after trialEncoding resumedHistory).plans.entries.all (fun entry => resumedFits entry.2) =
      true := by
    decide +kernel
  have answered :
      (resolvePlanUnknown trialEncoding (after trialEncoding resumedHistory) (resumeRequest "resume-1")
      (second 9)).toOption.map (·.1) = some .existing := by decide +kernel
  obtain ⟨⟨_,s'⟩,ok,rfl⟩ := Option.map_eq_some_iff.mp answered
  rcases resolvePlanUnknown_answers (toOption_ok ok) with ⟨_,_,key,rows,_,loaded,_⟩ | ⟨existing,_⟩
  · have fit := List.all_eq_true.mp fits _ (AList.mem_lookup_iff.mp loaded.stored)
    simp only [resumedFits,Bool.and_eq_true,decide_eq_true_eq,List.all_eq_true] at fit
    refine ⟨key,(resolution_replays resumedHistory valid loaded fit.1).mpr fun transition listed named _ =>
      ?_⟩
    have named : transition.idempotencyKey = "resume-1" := named
    simpa [named] using fit.2 transition listed
  · exact absurd existing.symm (outcome_new _)

-- A running plan, and the key under which its first claim was recorded: no operator ever resolved it.
theorem resolution_acknowledged : ∃ s' key rows,
    Loaded (after trialEncoding claimedHistory) ⟨7⟩ trialAdmin.tenantId key rows ∧
    resolvePlanUnknown trialEncoding (after trialEncoding claimedHistory) (resumeRequest "claim:plan:a")
      (second 3) = .ok (.existing,s') ∧
    ¬ ResolvedUnder trialEncoding claimedHistory key "claim:plan:a" .resume := by
  have answered :
      (resolvePlanUnknown trialEncoding (after trialEncoding claimedHistory) (resumeRequest "claim:plan:a")
      (second 3)).toOption.map (·.1) = some .existing := by decide +kernel
  obtain ⟨⟨_,s'⟩,ok,rfl⟩ := Option.map_eq_some_iff.mp answered
  rcases resolvePlanUnknown_answers (toOption_ok ok) with ⟨_,_,key,rows,_,loaded,_⟩ | ⟨existing,_⟩
  · refine ⟨s',key,rows,loaded,toOption_ok ok,?_⟩
    rintro ⟨first,request,now,rest,split,_⟩
    have listed : Change.operation (.resolvePlanUnknown request now) ∈ claimedHistory := by simp [split]
    simp [claimedHistory,trialOpen,trialSubmit,trialClaim] at listed
  · exact absurd existing.symm (outcome_new _)

end Shaka.Properties
