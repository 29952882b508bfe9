import Shaka.Skills.Artifacts
import Shaka.Properties.ManifestAuthority

namespace Shaka.Properties
open Shaka.Core Skills CheckedSteps JsonValue

variable {host : SkillHost} {registry registry' : SkillRegistry} {files files' : Files}
  {trustStore trustStore' : TrustStore} {artifacts artifacts' : List ActiveSkillArtifact}
  {a b : SkillRecord} {attestation : ApprovalAttestation}

-- The active records stand one to one behind the artifacts, each of them verified.
structure AllVerified (host : SkillHost) (files : Files) (trustStore : TrustStore)
    (records : List SkillRecord) (artifacts : List ActiveSkillArtifact) : Prop where
  paired : ∃ unsorted, artifacts.Perm unsorted ∧ List.Forall₂ (fun record artifact =>
    ∃ approval attestation authoritySha256,
    Verified host files trustStore record approval attestation authoritySha256 ∧
    Shows record approval attestation artifact) records unsorted

-- Two records are the same in all that was approved.
structure SameApproval (a b : SkillRecord) : Prop where
  name : a.manifest.name = b.manifest.name
  version : a.manifest.version = b.manifest.version
  operatorId : a.approval.map (·.operatorId) = b.approval.map (·.operatorId)
  artifactSha256 : a.manifest.artifactSha256 = b.manifest.artifactSha256 ∧
    a.approval.map (·.artifactSha256) = b.approval.map (·.artifactSha256)
  reason : a.approval.map (·.reason) = b.approval.map (·.reason)
  authority : SameAuthority a.manifest b.manifest

theorem verified_active (ran : registry.activeVerifiedArtifacts host files trustStore = .ok artifacts)
    (active : a ∈ registry.activeSkills) :
    ∃ approval attestation authoritySha256,
    Verified host files trustStore a approval attestation authoritySha256 := by
  obtain ⟨unsorted,verified,_⟩ := activeVerifiedArtifacts_ok ran
  obtain ⟨place,bound,rfl⟩ := List.mem_iff_getElem.mp active
  have ran := verified.get bound (verified.length_eq ▸ bound)
  obtain ⟨approval,attestation,authoritySha256,verified,_⟩ := verifyRecord_ok ran
  exact ⟨approval,attestation,authoritySha256,verified⟩

theorem verified_sameApproval (single : OnePayload host) (faithful : FaithfulDigest host)
    {approval approval' : ApprovalRecord} {authoritySha256 authoritySha256' : String}
    (one : Verified host files trustStore a approval attestation authoritySha256)
    (two : Verified host files' trustStore' b approval' attestation authoritySha256') : SameApproval a b := by
  have bindings := attested_once single one.attested two.attested
  obtain ⟨name,version,operator,artifact,reason,authority⟩ := ApprovalBinding.mk.inj bindings
  refine ⟨name,version,?_,⟨?_,?_⟩,?_,(authoritySha256_iff faithful one.current two.current).mp authority⟩
  · rw [one.decided,two.decided,Option.map_some,Option.map_some,operator]
  · rw [one.declared,two.declared,artifact]
  · rw [one.decided,two.decided,Option.map_some,Option.map_some,artifact]
  · rw [one.decided,two.decided,Option.map_some,Option.map_some,reason]

-- However registry, trust store and files were tampered with: what is handed out was verified, and the
-- records that one attestation was accepted for agree in all that it approves.
theorem verified_artifacts (single : OnePayload host) (faithful : FaithfulDigest host) :
    (∀ registry files trustStore artifacts,
      SkillRegistry.activeVerifiedArtifacts registry host files trustStore = .ok artifacts →
      AllVerified host files trustStore registry.activeSkills artifacts) ∧
    ∀ registry files trustStore artifacts registry' files' trustStore' artifacts',
      SkillRegistry.activeVerifiedArtifacts registry host files trustStore = .ok artifacts →
      SkillRegistry.activeVerifiedArtifacts registry' host files' trustStore' = .ok artifacts' →
      ∀ a ∈ registry.activeSkills, ∀ b ∈ registry'.activeSkills,
        a.approval.bind (·.attestation) = b.approval.bind (·.attestation) → SameApproval a b := by
  constructor
  · intro registry files trustStore artifacts ran
    obtain ⟨unsorted,verified,perm⟩ := activeVerifiedArtifacts_ok ran
    exact ⟨unsorted,perm,verified.imp fun _ _ => verifyRecord_ok⟩
  · intro registry files trustStore artifacts registry' files' trustStore' artifacts' ran ran' a active b
      active' same
    obtain ⟨approval,attestation,digest,one⟩ := verified_active ran active
    obtain ⟨approval',attestation',digest',two⟩ := verified_active ran' active'
    rw [one.decided,two.decided,Option.bind_some,Option.bind_some,one.signed,two.signed] at same
    obtain rfl := Option.some.inj same
    exact verified_sameApproval single faithful one two

-- A registry with one active skill whose approval is signed.

def unhexDigit (c : Char) : Option Nat :=
  if c.isDigit then some (c.toNat - 48) else if 'a' ≤ c ∧ c ≤ 'f' then some (c.toNat - 87) else none

def unhex : List Char → Option (List UInt8)
  | [] => some []
  | [_] => none
  | high :: low :: rest => do
    let one ← unhexDigit high
    let two ← unhexDigit low
    let bytes ← unhex rest
    some ((16 * one + two).toUInt8 :: bytes)

def fetchKeyHex : String := "ea4a6c63e29c520abef5507b132ec5f9954776aebebe7b92421eea691446d22c"

def fetchSignatureHex : String :=
  "ee4e33023ec4c865673ee6e9a530e75a8853012084b4f7e49eadbd3b3b34f5a7cd9ca8cdd12adc29f25b644e885484945a36205c56fad0699900992208eb4a0a"

def scriptBytes : List UInt8 := bytesOf "print(1)\n"

def scriptDigest : String := "cc42155088fca5730758db72b2a5bca33112a941dfaa2d43098ec422ce4ea213"

def fetchBinding : ApprovalBinding := ⟨"fetch","0.1.0",⟨"operator"⟩,scriptDigest,"revisado",fetchDigest⟩

-- It knows the digests of one script and one authority, and one signature.
noncomputable def signedHost : SkillHost where
  sha256Hex := sha256Of [(fetchPreimage,fetchDigest),(scriptBytes,scriptDigest)]
  toVec := fetchHost.toVec
  hexDecode := fun text => unhex text.toList
  isVerifyingKey := fun bytes => some bytes == unhex fetchKeyHex.toList
  verify := fun _ payload signature =>
    payload == approvalPayloadV2 fetchBinding && some signature == unhex fetchSignatureHex.toList

def fetchAttestation : ApprovalAttestation := ⟨approvalProtocolV2,"chave-1",fetchKeyHex,fetchSignatureHex⟩

def fetchRecord : SkillRecord where
  manifest := {fetchManifest [.network,.filesystemRead] sortedSchema with status:=.active,artifactSha256:=some scriptDigest}
  approval := some ⟨⟨"operator"⟩,0,scriptDigest,some fetchDigest,some "fetch.py","revisado",
    some fetchAttestation⟩
  createdAt := 0
  updatedAt := 0

def fetchRegistry : SkillRegistry := SkillRegistry.empty.insert "fetch" fetchRecord

def fetchTrust : TrustStore := ⟨(∅ : AList fun _ : String => TrustedKey).insert "chave-1" ⟨fetchKeyHex,none⟩⟩

def fetchFiles : Files := fun path => if path = "fetch.py" then .ok scriptBytes
    else .error "No such file or directory"

theorem signedHost_single : OnePayload signedHost := by
  intro verifyingKey signature payload other one two
  simp only [signedHost,Bool.and_eq_true,beq_iff_eq] at one two
  exact one.1.trans two.1.symm

theorem signedHost_faithful : FaithfulDigest signedHost := by
  refine ⟨fetchHost_faithful.serializer,?_⟩
  exact @sha256Of_injective [(fetchPreimage,fetchDigest),
    (scriptBytes,scriptDigest)] (by simp [fetchDigest,scriptDigest])
    (by simp [fetchDigest,scriptDigest])

theorem signedHost_script : signedHost.sha256Hex scriptBytes = scriptDigest := by
  have differs : (scriptBytes == fetchPreimage) = false := by decide +kernel
  simp [signedHost,sha256Of,List.lookup_cons,differs]

theorem fetchRecord_authority : fetchRecord.manifest.authoritySha256 signedHost = .ok fetchDigest := by
  have hashed : signedHost.sha256Hex fetchPreimage = fetchDigest := by
    simp [signedHost,sha256Of]
  have serialized : signedHost.toVec fetchAuthority = .ok fetchBytes := if_pos rfl
  have authority : (⟨dedup (([Capability.network,.filesystemRead].map capabilityLabel).insertionSort (· ≤ ·)),
      canonicalizeJson sortedSchema.json,canonicalizeJson (.object [])⟩ : ManifestAuthorityPayload) =
        fetchAuthority := rfl
  simp only [SkillManifest.authoritySha256,manifestAuthoritySha256,fetchRecord,fetchManifest]
  rw [authority,serialized]
  exact congrArg Except.ok hashed

theorem fetchRecord_attested :
    fetchTrust.verifyAttestation signedHost fetchBinding fetchAttestation = .ok () := by
  have key : (unhex fetchKeyHex.toList).map (·.length) = some 32 := by decide +kernel
  have signature : (unhex fetchSignatureHex.toList).map (·.length) = some 64 := by decide +kernel
  obtain ⟨verifyingKey,decoded,length⟩ := Option.map_eq_some_iff.mp key
  obtain ⟨signed,decoded',length'⟩ := Option.map_eq_some_iff.mp signature
  refine verifyAttestation_ok.mpr ⟨verifyingKey,signed,rfl,⟨_,rfl,rfl,rfl⟩,?_,⟨?_,length'⟩,?_⟩
  · simp [verifyingKeyFromHex,signedHost,fetchAttestation,decoded,length,orFail,require]
  · simp only [signedHost,fetchAttestation,decoded']
  · simp [signedHost,decoded']

def fetchArtifact : ActiveSkillArtifact :=
  ⟨"fetch","0.1.0","busca",[.network,.filesystemRead],sortedSchema,fetchRecord.manifest.outputSchema,
    "fetch.py",scriptDigest,fetchDigest,fetchAttestation,⟨"operator"⟩,"revisado"⟩

theorem fetchRecord_verified : verifyRecord signedHost fetchFiles fetchTrust fetchRecord = .ok fetchArtifact := by
  have read : sha256File signedHost fetchFiles "fetch.py" = .ok scriptDigest := by
    simp only [sha256File,fetchFiles,if_true]
    exact congrArg Except.ok signedHost_script
  simp only [verifyRecord,bind_ok,orFail_ok,require_ok,pure_ok,exists_const]
  exact ⟨_,rfl,_,rfl,_,rfl,_,read,⟨rfl,rfl⟩,_,rfl,_,fetchRecord_authority,rfl,(),fetchRecord_attested,rfl⟩

theorem fetchRegistry_verified :
    fetchRegistry.activeVerifiedArtifacts signedHost fetchFiles fetchTrust = .ok [fetchArtifact] := by
  have active : fetchRegistry.activeSkills = [fetchRecord] := rfl
  simp only [SkillRegistry.activeVerifiedArtifacts,active,List.mapM_cons,List.mapM_nil,fetchRecord_verified]
  rfl

theorem verified_artifacts_fetch :
    AllVerified signedHost fetchFiles fetchTrust fetchRegistry.activeSkills [fetchArtifact] ∧
    SameApproval fetchRecord fetchRecord := by
  have active : fetchRecord ∈ fetchRegistry.activeSkills := by
    have only : fetchRegistry.activeSkills = [fetchRecord] := rfl
    simp [only]
  have both := verified_artifacts signedHost_single signedHost_faithful
  exact ⟨both.1 _ _ _ _ fetchRegistry_verified,
    both.2 _ _ _ _ _ _ _ _ fetchRegistry_verified fetchRegistry_verified _ active _ active rfl⟩

end Shaka.Properties
