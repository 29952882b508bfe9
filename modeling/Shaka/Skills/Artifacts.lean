import Shaka.Skills.Registry
import Shaka.Skills.Canonical

namespace Shaka.Skills
open Shaka.Core CheckedSteps JsonValue

structure ActiveSkillArtifact where
  name : String
  version : String
  description : String
  permissions : List Capability
  inputSchema : Value
  outputSchema : Value
  artifactPath : String
  artifactSha256 : String
  manifestAuthoritySha256 : String
  attestation : ApprovalAttestation
  approvalOperatorId : OperatorId
  approvalReason : String

-- What reading a path gives: the bytes of the file, or the text of the error.
abbrev Files := String → Except String (List UInt8)

def sha256File (host : SkillHost) (files : Files) (path : String) : Except SkillError String := do
  let content ← (files path).mapError .io
  pure (host.sha256Hex content)

def bindingOf (manifest : SkillManifest) (approval : ApprovalRecord) (authoritySha256 : String) :
    ApprovalBinding :=
  ⟨manifest.name,manifest.version,approval.operatorId,approval.artifactSha256,approval.reason,authoritySha256⟩

-- The body of the loop over the active records.
def verifyRecord (host : SkillHost) (files : Files) (trustStore : TrustStore) (record : SkillRecord) :
    Except SkillError ActiveSkillArtifact := do
  let approval ← orFail record.approval .unsignedApproval
  let attestation ← orFail approval.attestation .unsignedApproval
  let artifactPath ← orFail approval.artifactPath .missingArtifactPath
  let actualSha256 ← sha256File host files artifactPath
  require (actualSha256 = approval.artifactSha256 ∧ some actualSha256 = record.manifest.artifactSha256)
    .artifactHashMismatch
  let approvedManifestAuthoritySha256 ← orFail approval.manifestAuthoritySha256 .unsupportedApprovalProtocol
  let currentManifestAuthoritySha256 ← record.manifest.authoritySha256 host
  require (currentManifestAuthoritySha256 = approvedManifestAuthoritySha256) .manifestAuthorityMismatch
  trustStore.verifyAttestation host (bindingOf record.manifest approval approvedManifestAuthoritySha256)
    attestation
  pure ⟨record.manifest.name,record.manifest.version,record.manifest.description,record.manifest.permissions,
    record.manifest.inputSchema,record.manifest.outputSchema,artifactPath,approval.artifactSha256,
    approvedManifestAuthoritySha256,attestation,approval.operatorId,approval.reason⟩

def SkillRegistry.activeSkills (registry : SkillRegistry) : List SkillRecord :=
  (registry.skills.entries.map (·.2)).filter fun record => record.manifest.status == .active

def byName (left right : ActiveSkillArtifact) : Prop := left.name ≤ right.name

instance : DecidableRel byName := fun left right => inferInstanceAs (Decidable (left.name ≤ right.name))

def SkillRegistry.activeVerifiedArtifacts (registry : SkillRegistry) (host : SkillHost) (files : Files)
    (trustStore : TrustStore) : Except SkillError (List ActiveSkillArtifact) := do
  let artifacts ← registry.activeSkills.mapM (verifyRecord host files trustStore)
  pure (artifacts.insertionSort byName)

-- What stands behind an artifact that is handed to the runtime.
structure Verified (host : SkillHost) (files : Files) (trustStore : TrustStore) (record : SkillRecord)
    (approval : ApprovalRecord) (attestation : ApprovalAttestation) (authoritySha256 : String) : Prop where
  decided : record.approval = some approval
  signed : approval.attestation = some attestation
  content : ∃ path bytes, approval.artifactPath = some path ∧ files path = .ok bytes ∧
    host.sha256Hex bytes = approval.artifactSha256
  declared : record.manifest.artifactSha256 = some approval.artifactSha256
  approved : approval.manifestAuthoritySha256 = some authoritySha256
  current : record.manifest.authoritySha256 host = .ok authoritySha256
  attested : trustStore.verifyAttestation host (bindingOf record.manifest approval authoritySha256)
    attestation = .ok ()

-- The artifact shows what the record says.
structure Shows (record : SkillRecord) (approval : ApprovalRecord) (attestation : ApprovalAttestation)
    (artifact : ActiveSkillArtifact) : Prop where
  name : artifact.name = record.manifest.name
  version : artifact.version = record.manifest.version
  description : artifact.description = record.manifest.description
  permissions : artifact.permissions = record.manifest.permissions
  inputSchema : artifact.inputSchema = record.manifest.inputSchema
  outputSchema : artifact.outputSchema = record.manifest.outputSchema
  artifactPath : some artifact.artifactPath = approval.artifactPath
  artifactSha256 : artifact.artifactSha256 = approval.artifactSha256
  manifestAuthoritySha256 : some artifact.manifestAuthoritySha256 = approval.manifestAuthoritySha256
  attestation : artifact.attestation = attestation
  operatorId : artifact.approvalOperatorId = approval.operatorId
  reason : artifact.approvalReason = approval.reason

variable {host : SkillHost} {files : Files} {trustStore : TrustStore} {record : SkillRecord}
  {artifact : ActiveSkillArtifact}

theorem verifyRecord_ok (ran : verifyRecord host files trustStore record = .ok artifact) :
    ∃ approval attestation authoritySha256,
      Verified host files trustStore record approval attestation authoritySha256 ∧
      Shows record approval attestation artifact := by
  simp only [verifyRecord,sha256File,bind_ok,orFail_ok,mapError_ok,require_ok,pure_ok,exists_const] at ran
  obtain ⟨approval,approved,attestation,signed,path,placed,actual,⟨bytes,read,rfl⟩,⟨same,declared⟩,digest,
    stated,current,computed,rfl,_,attested,rfl⟩ := ran
  refine ⟨approval,attestation,current,⟨approved,signed,⟨path,bytes,placed,read,same⟩,?_,stated,computed,
    attested⟩,?_⟩
  · rw [← declared,same]
  · exact ⟨rfl,rfl,rfl,rfl,rfl,rfl,placed.symm,rfl,stated.symm,rfl,rfl,rfl⟩

theorem mapM_forall₂ {α β ε : Type} {step : α → Except ε β} {items : List α} {results : List β}
    (ran : items.mapM step = .ok results) :
    List.Forall₂ (fun item result => step item = .ok result) items results := by
  induction items generalizing results with
  | nil =>
    rw [List.mapM_nil,pure_ok] at ran
    exact ran ▸ .nil
  | cons first rest ih =>
    simp only [List.mapM_cons,bind_ok,pure_ok] at ran
    obtain ⟨result,one,others,later,rfl⟩ := ran
    exact .cons one (ih later)

-- Each active record has its own place among what is returned, with the artifact it was verified for.
theorem activeVerifiedArtifacts_ok {registry : SkillRegistry} {artifacts : List ActiveSkillArtifact}
    (ran : registry.activeVerifiedArtifacts host files trustStore = .ok artifacts) :
    ∃ unsorted, List.Forall₂ (fun record artifact => verifyRecord host files trustStore record = .ok artifact)
      registry.activeSkills unsorted ∧ artifacts.Perm unsorted := by
  simp only [SkillRegistry.activeVerifiedArtifacts,bind_ok,pure_ok] at ran
  obtain ⟨unsorted,verified,rfl⟩ := ran
  exact ⟨unsorted,mapM_forall₂ verified,List.perm_insertionSort byName unsorted⟩

end Shaka.Skills
