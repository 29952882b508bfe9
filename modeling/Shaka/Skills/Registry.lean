import Shaka.Skills.Approval
import Shaka.Library.KeptState

namespace Shaka.Skills
open Shaka.Core CheckedSteps KeptState

structure ApprovalRecord where
  operatorId : OperatorId
  approvedAt : Time
  artifactSha256 : String
  manifestAuthoritySha256 : Option String
  artifactPath : Option String
  reason : String
  attestation : Option ApprovalAttestation
  deriving DecidableEq, Repr

structure SkillRecord where
  manifest : SkillManifest
  approval : Option ApprovalRecord
  createdAt : Time
  updatedAt : Time

structure SkillRegistry where
  skills : AList fun _ : String => SkillRecord

structure AttestedApproval where
  operatorId : OperatorId
  artifactSha256 : String
  artifactPath : String
  reason : String
  manifestAuthoritySha256 : String
  attestation : ApprovalAttestation
  deriving DecidableEq, Repr

-- The two readings of the clock that an approval makes.
structure ApprovalMoment where
  approvedAt : Time
  updatedAt : Time

def ensureCandidate (record : SkillRecord) : Except SkillError Unit :=
  require (record.manifest.status = .candidate) (.invalidTransition record.manifest.status .active)

namespace SkillRegistry

def empty : SkillRegistry := ⟨∅⟩

def get (registry : SkillRegistry) (name : String) : Option SkillRecord := registry.skills.lookup name

def insert (registry : SkillRegistry) (name : String) (record : SkillRecord) : SkillRegistry :=
  ⟨registry.skills.insert name record⟩

theorem get_insert (registry : SkillRegistry) (name : String) (record : SkillRecord) :
    (registry.insert name record).get name = some record := AList.lookup_insert registry.skills

theorem get_insert_ne (registry : SkillRegistry) {name other : String} (record : SkillRecord)
    (differs : other ≠ name) :
    (registry.insert name record).get other = registry.get other := AList.lookup_insert_ne differs

-- `self.skills.get_mut(name).ok_or_else(..)?`
def getMut (name : String) : Program SkillRegistry SkillError SkillRecord := do
  let found ← observe fun registry => registry.get name
  given (orFail found (.notFound name))

def registerCandidate (manifest : SkillManifest) (now : Time) : Program SkillRegistry SkillError Unit := do
  let found ← observe fun registry => registry.get manifest.name
  given (require (found.isNone = true) (.alreadyExists manifest.name))
  given (require (manifest.status = .candidate) (.invalidTransition manifest.status .candidate))
  given (require (¬ (.network ∈ manifest.permissions ∧ .externalMessaging ∈ manifest.permissions))
    (.excessivePermission .externalMessaging))
  update fun registry => registry.insert manifest.name ⟨manifest,none,now,now⟩
  pure ()

def activated (record : SkillRecord) (approval : ApprovalRecord) (updatedAt : Time) : SkillRecord :=
  {record with
    manifest:={record.manifest with status:=.active,artifactSha256:=some approval.artifactSha256},
    approval:=some approval,updatedAt:=updatedAt}

-- The assignments that end every approval.
def activate (name : String) (record : SkillRecord) (approval : ApprovalRecord) (updatedAt : Time) :
    Program SkillRegistry SkillError SkillRecord := do
  update fun registry => registry.insert name (activated record approval updatedAt)
  pure (activated record approval updatedAt)

def approve (name : String) (operatorId : OperatorId) (artifactSha256 reason : String)
    (moment : ApprovalMoment) : Program SkillRegistry SkillError SkillRecord := do
  let record ← getMut name
  given (ensureCandidate record)
  let artifactSha256 ← given (validateHash artifactSha256)
  let reason ← given (validateReason reason)
  activate name record ⟨operatorId,moment.approvedAt,artifactSha256,none,none,reason,none⟩ moment.updatedAt

def approveWithArtifact (name : String) (operatorId : OperatorId)
    (artifactSha256 artifactPath reason : String) (moment : ApprovalMoment) :
    Program SkillRegistry SkillError SkillRecord := do
  let record ← getMut name
  given (ensureCandidate record)
  let artifactSha256 ← given (validateHash artifactSha256)
  let reason ← given (validateReason reason)
  activate name record ⟨operatorId,moment.approvedAt,artifactSha256,none,some artifactPath,reason,
    none⟩ moment.updatedAt

def approveWithAttestation (name : String) (approval : AttestedApproval) (moment : ApprovalMoment) :
    Program SkillRegistry SkillError SkillRecord := do
  let record ← getMut name
  given (ensureCandidate record)
  let artifactSha256 ← given (validateHash approval.artifactSha256)
  activate name record ⟨approval.operatorId,moment.approvedAt,artifactSha256,
    some approval.manifestAuthoritySha256,
    some approval.artifactPath,approval.reason,some approval.attestation⟩ moment.updatedAt

def revoked (record : SkillRecord) (now : Time) : SkillRecord :=
  {record with manifest:={record.manifest with status:=.revoked},updatedAt:=now}

def revoke (name : String) (now : Time) : Program SkillRegistry SkillError SkillRecord := do
  let record ← getMut name
  given (require (record.manifest.status = .active) (.invalidTransition record.manifest.status .revoked))
  update fun registry => registry.insert name (revoked record now)
  pure (revoked record now)

end SkillRegistry

inductive SkillCall where
  | registerCandidate (manifest : SkillManifest) (now : Time)
  | approve (name : String) (operatorId : OperatorId) (artifactSha256 reason : String)
      (moment : ApprovalMoment)
  | approveWithArtifact (name : String) (operatorId : OperatorId) (artifactSha256 artifactPath reason :
      String) (moment : ApprovalMoment)
  | approveWithAttestation (name : String) (approval : AttestedApproval) (moment : ApprovalMoment)
  | revoke (name : String) (now : Time)

-- What the call answers besides its error: the record that it changed, where it returns one.
def SkillCall.run : SkillCall → SkillRegistry → Except SkillError (Option SkillRecord) × SkillRegistry
  | .registerCandidate manifest now =>
    (do SkillRegistry.registerCandidate manifest now; pure none : Program _ _ _)
  | .approve name operatorId artifactSha256 reason moment =>
    (do let record ← SkillRegistry.approve name operatorId artifactSha256 reason moment; pure (some record)
      : Program _ _ _)
  | .approveWithArtifact name operatorId artifactSha256 artifactPath reason moment =>
    (do let record ← SkillRegistry.approveWithArtifact name operatorId artifactSha256 artifactPath reason moment
        pure (some record) : Program _ _ _)
  | .approveWithAttestation name approval moment =>
    (do let record ← SkillRegistry.approveWithAttestation name approval moment; pure (some record) :
      Program _ _ _)
  | .revoke name now => (do let record ← SkillRegistry.revoke name now; pure (some record) : Program _ _ _)

theorem getMut_run {α : Type} {f : SkillRecord → Program SkillRegistry SkillError α} {name : String}
    {registry : SkillRegistry} :
    (SkillRegistry.getMut name >>= f) registry = (given (orFail (registry.get name) (.notFound name)) >>=
      f) registry := rfl

theorem ensureCandidate_ok {record : SkillRecord} {u : Unit} :
    ensureCandidate record = .ok u ↔ record.manifest.status = .candidate := by
  rw [ensureCandidate,require_ok]

theorem getMut_clean {α : Type} {f : SkillRecord → Program SkillRegistry SkillError α} {name : String}
    (rest : ∀ record, Clean (f record)) : Clean (SkillRegistry.getMut name >>= f) := by
  intro registry error failed
  rw [getMut_run] at failed ⊢
  exact clean_given rest registry error failed

-- A call that fails has changed nothing.
theorem run_failed (call : SkillCall) : Clean call.run := by
  cases call with
  | registerCandidate manifest now =>
    exact clean_pure _ (clean_observe fun _ => clean_given fun _ => clean_given fun _ => clean_given fun _ => clean_last)
  | approve | approveWithArtifact =>
    exact clean_pure _ (getMut_clean fun _ => clean_given fun _ => clean_given fun _ =>
      clean_given fun _ => clean_last)
  | approveWithAttestation =>
    exact clean_pure _ (getMut_clean fun _ => clean_given fun _ => clean_given fun _ => clean_last)
  | revoke => exact clean_pure _ (getMut_clean fun _ => clean_given fun _ => clean_last)

-- All that a call can do to a registry.
inductive Changes (registry : SkillRegistry) : SkillRegistry → Prop where
  | none : Changes registry registry
  | registered (now : Time) : registry.get manifest.name = none → manifest.status = .candidate →
      ¬ (Capability.network ∈ manifest.permissions ∧ Capability.externalMessaging ∈ manifest.permissions) →
      Changes registry (registry.insert manifest.name ⟨manifest,.none,now,now⟩)
  | activated (approval : ApprovalRecord) (updatedAt : Time) : registry.get name = some record →
      record.manifest.status = .candidate →
      Changes registry (registry.insert name (SkillRegistry.activated record approval updatedAt))
  | revoked (now : Time) : registry.get name = some record → record.manifest.status = .active →
      Changes registry (registry.insert name (SkillRegistry.revoked record now))

theorem run_changes (call : SkillCall) (registry : SkillRegistry) :
    Changes registry (call.run registry).2 := by
  have found : ∀ {α : Type} {f : SkillRecord → Program SkillRegistry SkillError α} {name : String},
      (∀ record, registry.get name = some record → Changes registry (f record registry).2) →
      Changes registry ((SkillRegistry.getMut name >>= f) registry).2 := fun rest =>
    holds_given .none fun record found => rest record (orFail_ok.mp found)
  cases call with
  | registerCandidate manifest now =>
    refine holds_pure _ (holds_given .none fun _ absent => holds_given .none fun _ candidate =>
      holds_given .none fun _ modest => ?_)
    exact .registered now (Option.isNone_iff_eq_none.mp (require_ok.mp absent)) (require_ok.mp candidate)
      (require_ok.mp modest)
  | approve name | approveWithArtifact name =>
    refine holds_pure _ (found fun record present => holds_given .none fun _ candidate =>
      holds_given .none fun _ _ => holds_given .none fun _ _ => ?_)
    exact .activated _ _ present (ensureCandidate_ok.mp candidate)
  | approveWithAttestation name =>
    refine holds_pure _ (found fun record present => holds_given .none fun _ candidate =>
      holds_given .none fun _ _ => ?_)
    exact .activated _ _ present (ensureCandidate_ok.mp candidate)
  | revoke name =>
    refine holds_pure _ (found fun record present => holds_given .none fun _ active => ?_)
    exact .revoked _ present (require_ok.mp active)

end Shaka.Skills
