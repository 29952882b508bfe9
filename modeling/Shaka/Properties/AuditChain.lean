import Shaka.Memory.AuditRuns

namespace Shaka.Properties
open Shaka.Core Memory HashChain

variable {encoding : AuditEncoding}

theorem honest_appends_verify (encoding : AuditEncoding) (events : List AuditEvent) (tenantId : TenantId)
    (faithful : ∀ event ∈ (appendAll encoding .empty events).1,
      encoding.fromJson (encoding.toJson event) = some event) :
    (appendAll encoding .empty events).2.verifyAuditChain encoding tenantId =
      .ok ⟨true,((appendAll encoding .empty events).1.filter (·.tenantId == tenantId)).length,none⟩ ∧
    ∀ event chained s', event.tenantId ≠ tenantId →
      appendAuditEvent encoding (appendAll encoding .empty events).2 event = .ok (chained,s') →
      s'.verifyAuditChain encoding tenantId = (appendAll encoding .empty events).2.verifyAuditChain
        encoding tenantId := by
  constructor
  · obtain ⟨verified,counted⟩ := @appendAll_chained encoding .empty events tenantId rfl faithful
    rw [verified,counted]
    simp [MemoryStore.auditRows,MemoryStore.empty]
  · intro event chained s' other ok
    unfold MemoryStore.verifyAuditChain
    rw [appended_rows tenantId ok,if_neg other,List.append_nil]

-- An event of another tenant in between, and one that is refused.
theorem honest_appends_verify_mixed :
    (appendAll (trialAudit auditedEvents) .empty [auditedFirst 7,auditedStranger,
    auditedSecond "ana|b" "run",auditedStranger]).2.verifyAuditChain (trialAudit auditedEvents)
      ⟨"tenant"⟩ = .ok ⟨true,2,none⟩ := by
  have verified := (honest_appends_verify (trialAudit auditedEvents) [auditedFirst 7,auditedStranger,
    auditedSecond "ana|b" "run",auditedStranger] ⟨"tenant"⟩ (by decide +kernel)).1
  rw [verified]
  decide +kernel

-- Corresponding events that differ in nothing that the digest leaves out or joins:
-- the task, and where the delimiters stand among the free texts.
structure SameRecord (a b : AuditEvent) : Prop where
  taskId : a.taskId = b.taskId
  actor : a.actor.toList.count '|' = b.actor.toList.count '|'
  action : a.action.toList.count '|' = b.action.toList.count '|'
  outcome : a.outcome.toList.count '|' = b.outcome.toList.count '|'

-- No two events of the lists have different hashed texts under one digest.
def CollisionFree (encoding : AuditEncoding) (entries others : List AuditEvent) : Prop :=
  ∀ a ∈ entries, ∀ b ∈ others, a.calculateHash encoding = b.calculateHash encoding →
    a.canonical encoding = b.canonical encoding

-- Two stores whose audit of a tenant is accepted, with as many events and one last digest.
structure SameAudit (encoding : AuditEncoding) (tenantId : TenantId) (s s' : MemoryStore) : Prop where
  accepted : ∃ report, s.verifyAuditChain encoding tenantId = .ok report ∧ report.valid = true
  accepted' : ∃ report, s'.verifyAuditChain encoding tenantId = .ok report ∧ report.valid = true
  length : (s.auditEventsOf encoding tenantId).length = (s'.auditEventsOf encoding tenantId).length
  last : (s.auditEventsOf encoding tenantId).getLast?.map (·.eventHash) =
    (s'.auditEventsOf encoding tenantId).getLast?.map (·.eventHash)

theorem linked_plain {tenantId : TenantId} {events : List AuditEvent} (printed : Printed encoding)
    (linked : Linked (auditChain encoding tenantId) none events) {event : AuditEvent}
    (present : event ∈ events) : ∀ text ∈ event.previousHash, '|' ∉ text.toList := by
  intro text link bar
  rcases linked.source present with first | ⟨other,listed,after⟩
  · rw [show event.previousHash = none from first] at link
    cases link
  · rw [show event.previousHash = some other.eventHash from after] at link
    obtain rfl := Option.some.inj link
    have sealed : other.eventHash = other.calculateHash encoding := by
      simpa [AuditEvent.hasValidHash] using (linked.intact other listed).2
    rw [sealed] at bar
    exact absurd (List.all_eq_true.mp (printed.hashHex _) '|' bar) (by decide)

-- Equal digests of two accepted chains come from equal links, and from equal events when these are alike.
theorem linked_binding {tenantId : TenantId} {entries others : List AuditEvent} (printed : Printed encoding)
    (linked : Linked (auditChain encoding tenantId) none entries)
    (linked' : Linked (auditChain encoding tenantId) none others)
    (collisionFree : CollisionFree encoding entries others) :
    ∀ a ∈ entries, ∀ b ∈ others, a.eventHash = b.eventHash →
      (SameRecord a b → a = b) ∧ a.previousHash = b.previousHash := by
  intro a listed b listed' digests
  obtain ⟨tenant,intact⟩ := linked.intact a listed
  obtain ⟨tenant',intact'⟩ := linked'.intact b listed'
  have sealed : a.eventHash = a.calculateHash encoding := by simpa [AuditEvent.hasValidHash] using intact
  have sealed' : b.eventHash = b.calculateHash encoding := by simpa [AuditEvent.hasValidHash] using intact'
  have texts := collisionFree a listed b listed' (sealed.symm.trans (digests.trans sealed'))
  obtain ⟨eventId,occurredAt,links,free⟩ :=
    canonical_unique printed (linked_plain printed linked listed) (linked_plain printed linked' listed') texts
  refine ⟨fun alike => ?_,links⟩
  obtain ⟨actor,action,outcome,metadata⟩ := free alike.actor alike.action alike.outcome
  exact AuditEvent.ext eventId alike.taskId (tenant.trans tenant'.symm) actor action outcome occurredAt
    metadata links digests

theorem audit_tamper_evident (encoding : AuditEncoding) (tenantId : TenantId) (s s' : MemoryStore)
    (printed : Printed encoding) (same : SameAudit encoding tenantId s s')
    (collisionFree : CollisionFree encoding (s.auditEventsOf encoding tenantId)
      (s'.auditEventsOf encoding tenantId)) :
    s.auditEventsOf encoding tenantId = s'.auditEventsOf encoding tenantId ↔
      List.Forall₂ SameRecord (s.auditEventsOf encoding tenantId) (s'.auditEventsOf encoding tenantId) := by
  obtain ⟨report,ok,valid⟩ := same.accepted
  obtain ⟨report',ok',valid'⟩ := same.accepted'
  have linked := verified_chain ok valid
  have linked' := verified_chain ok' valid'
  have last : lastDigest (auditChain encoding tenantId) none (s.auditEventsOf encoding tenantId) =
      lastDigest (auditChain encoding tenantId) none (s'.auditEventsOf encoding tenantId) :=
    congrArg (Option.or · none) same.last
  -- backwards along the chain, equal digests make alike events equal
  have tied := committed linked linked' (linked_binding printed linked linked' collisionFree) same.length last
  constructor
  · intro equal
    rw [equal]
    exact List.forall₂_same.mpr fun _ _ => ⟨rfl,rfl,rfl,rfl⟩
  · intro alike
    rw [← List.forall₂_eq_eq_eq]
    exact List.Forall₂.mp (fun _ _ tie pair => tie pair) tied alike

theorem audited_same : SameAudit (trialAudit auditedEvents) ⟨"tenant"⟩ (auditedStore ["first","second"])
    (auditedStore ["retargeted","shifted"]) where
  accepted := ⟨⟨true,2,none⟩,by decide +kernel,rfl⟩
  accepted' := ⟨⟨true,2,none⟩,by decide +kernel,rfl⟩
  length := by decide +kernel
  last := by decide +kernel

theorem audited_texts : CollisionFree (trialAudit auditedEvents)
    ((auditedStore ["first","second"]).auditEventsOf (trialAudit auditedEvents) ⟨"tenant"⟩)
    ((auditedStore ["retargeted","shifted"]).auditEventsOf (trialAudit auditedEvents) ⟨"tenant"⟩) := by
  unfold CollisionFree
  decide +kernel

theorem audit_tamper_evident_altered : ¬ ∀ (encoding : AuditEncoding) (tenantId : TenantId)
    (s s' : MemoryStore),Printed encoding → SameAudit encoding tenantId s s' →
    CollisionFree encoding (s.auditEventsOf encoding tenantId) (s'.auditEventsOf encoding tenantId) →
    s.auditEventsOf encoding tenantId = s'.auditEventsOf encoding tenantId := by
  intro evident
  have same := evident _ _ _ _ (trialAudit_printed auditedEvents) audited_same audited_texts
  revert same
  decide +kernel

-- The two audits are not alike, as they are not equal.
theorem audit_tamper_evident_trial :
    ¬ List.Forall₂ SameRecord ((auditedStore ["first","second"]).auditEventsOf (trialAudit auditedEvents)
      ⟨"tenant"⟩)
      ((auditedStore ["retargeted","shifted"]).auditEventsOf (trialAudit auditedEvents) ⟨"tenant"⟩) := by
  rw [← audit_tamper_evident _ _ _ _ (trialAudit_printed auditedEvents) audited_same audited_texts]
  decide +kernel

end Shaka.Properties
