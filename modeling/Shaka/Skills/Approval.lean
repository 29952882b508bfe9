import Shaka.Skills.Manifest
import Shaka.Library.PrefixCode
import Mathlib.Data.List.AList

namespace Shaka.Skills
open Shaka.Core CheckedSteps PrefixCode

def approvalProtocolV1 : String := "shaka-skill-approval-v1"
def approvalProtocolV2 : String := "shaka-skill-approval-v2"

structure ApprovalAttestation where
  protocol : String
  keyId : String
  publicKeyHex : String
  signatureHex : String
  deriving DecidableEq, Repr

structure ApprovalBinding where
  name : String
  version : String
  operatorId : OperatorId
  artifactSha256 : String
  reason : String
  manifestAuthoritySha256 : String
  deriving DecidableEq, Repr

def fieldPayload (field : String × String) : List UInt8 :=
  bytesOf field.1 ++ 61 :: (bytesOf (toString field.2.utf8ByteSize) ++ 58 :: (bytesOf field.2 ++ [0]))

-- The bytes 0, 61 and 58 are the terminator, `=` and `:`.
def approvalPayload (protocol : String) (fields : List (String × String)) : List UInt8 :=
  bytesOf protocol ++ 0 :: fields.flatMap fieldPayload

def approvalPayloadV1 (name version : String) (operatorId : OperatorId) (artifactSha256 reason : String) :
    List UInt8 :=
  approvalPayload approvalProtocolV1 [("name",name),("version",version),("operator_id",operatorId.text),
    ("artifact_sha256",artifactSha256),("reason",reason)]

def approvalPayloadV2 (binding : ApprovalBinding) : List UInt8 :=
  approvalPayload approvalProtocolV2 [("name",binding.name),("version",binding.version),
    ("operator_id",binding.operatorId.text),("artifact_sha256",binding.artifactSha256),
    ("reason",binding.reason),("manifest_authority_sha256",binding.manifestAuthoritySha256)]

theorem bytesOf_flatMap (text : String) : bytesOf text = text.toList.flatMap String.utf8EncodeChar := by
  have spelled : text.toByteArray = text.toList.utf8Encode := by
    rw [← String.toByteArray_ofList,String.ofList_toList]
  rw [bytesOf,spelled,List.utf8Encode]
  simp

theorem digits_colon_free (n : Nat) : 58 ∉ bytesOf (toString n) := by
  rw [bytesOf_flatMap]
  intro colon
  obtain ⟨c,listed,byte⟩ := List.mem_flatMap.mp colon
  have digit : c.isDigit = true :=
    @Nat.isDigit_of_mem_toDigits 10 n c (by decide) (by decide) (by simpa using listed)
  have range := Char.isDigit_iff_toNat.mp digit
  have code : c.val.toNat = c.toNat := rfl
  have short : c.utf8Size = 1 := by
    rw [Char.utf8Size_eq_one_iff,UInt32.le_iff_toNat_le]
    change c.val.toNat ≤ 127
    have zero : '0'.toNat = 48 := rfl
    have nine : '9'.toNat = 57 := rfl
    omega
  rw [String.utf8EncodeChar_eq_singleton short,List.mem_singleton] at byte
  have same : 58 = c.val.toNat % 256 := congrArg UInt8.toNat byte
  have zero : '0'.toNat = 48 := rfl
  have nine : '9'.toNat = 57 := rfl
  omega

-- A field ends where the length before its value says.
theorem fieldPayload_unique {label value value' : String} {rest other : List UInt8}
    (same : fieldPayload (label,value) ++ rest = fieldPayload (label,value') ++ other) :
    value = value' ∧ rest = other := by
  simp only [fieldPayload,List.append_assoc,List.cons_append,List.nil_append] at same
  have counted := (List.cons.inj (List.append_cancel_left same)).2
  obtain ⟨lengths,values⟩ := field_unique (digits_colon_free _) (digits_colon_free _) counted
  have digits : Nat.toDigits 10 value.utf8ByteSize = Nat.toDigits 10 value'.utf8ByteSize := by
    simpa using congrArg String.toList (bytesOf_injective lengths)
  have length : value.utf8ByteSize = value'.utf8ByteSize := by
    rw [← @Nat.ofDigitChars_ten_toDigits value.utf8ByteSize,digits,Nat.ofDigitChars_ten_toDigits]
  obtain ⟨bytes,tails⟩ := List.append_inj values (by rw [bytesOf_length,bytesOf_length,length])
  exact ⟨bytesOf_injective bytes,(List.cons.inj tails).2⟩

theorem approvalPayloadV2_injective {a b : ApprovalBinding}
    (same : approvalPayloadV2 a = approvalPayloadV2 b) : a = b := by
  simp only [approvalPayloadV2,approvalPayload,List.flatMap_cons,List.flatMap_nil] at same
  obtain ⟨name,same⟩ := fieldPayload_unique (List.cons.inj (List.append_cancel_left same)).2
  obtain ⟨version,same⟩ := fieldPayload_unique same
  obtain ⟨operator,same⟩ := fieldPayload_unique same
  obtain ⟨artifact,same⟩ := fieldPayload_unique same
  obtain ⟨reason,same⟩ := fieldPayload_unique same
  obtain ⟨authority,_⟩ := fieldPayload_unique same
  obtain ⟨_,_,⟨_⟩,_,_,_⟩ := a
  obtain ⟨_,_,⟨_⟩,_,_,_⟩ := b
  simp_all

-- The two protocols have names of one length that differ in their last byte.
theorem approvalPayloadV1_apart (name version : String) (operatorId : OperatorId)
    (artifactSha256 reason : String) (b : ApprovalBinding) :
    approvalPayloadV1 name version operatorId artifactSha256 reason ≠ approvalPayloadV2 b := by
  intro same
  have length : (bytesOf approvalProtocolV1).length = (bytesOf approvalProtocolV2).length := by decide +kernel
  have protocols := (List.append_inj same length).1
  exact absurd (bytesOf_injective protocols) (by decide)

structure TrustedKey where
  publicKeyHex : String
  revokedAt : Option Time
  deriving DecidableEq, Repr

structure TrustStore where
  keys : AList fun _ : String => TrustedKey

def verifyingKeyFromHex (host : SkillHost) (value : String) : Except SkillError (List UInt8) := do
  let bytes ← orFail (host.hexDecode value) (.invalidKey "chave pública hex inválida")
  require (bytes.length = 32) (.invalidKey "chave pública Ed25519 deve conter 32 bytes")
  require (host.isVerifyingKey bytes = true) (.invalidKey "chave pública Ed25519 inválida")
  pure bytes

def TrustStore.verifyAttestation (store : TrustStore) (host : SkillHost) (binding : ApprovalBinding)
    (attestation : ApprovalAttestation) : Except SkillError Unit := do
  require (attestation.protocol = approvalProtocolV2) .unsupportedApprovalProtocol
  let trusted ← orFail (store.keys.lookup attestation.keyId) (.untrustedKey attestation.keyId)
  require (trusted.revokedAt = none) (.revokedKey attestation.keyId)
  require (trusted.publicKeyHex = attestation.publicKeyHex) (.untrustedKey attestation.keyId)
  let verifyingKey ← verifyingKeyFromHex host attestation.publicKeyHex
  let signatureBytes ← orFail (host.hexDecode attestation.signatureHex) .invalidSignature
  require (signatureBytes.length = 64) .invalidSignature
  let payload := approvalPayloadV2 binding
  require (host.verify verifyingKey payload signatureBytes = true) .invalidSignature

-- All that an accepted attestation says: its key is trusted and not revoked, and under that key its
-- signature is one of the binding.
structure Attested (host : SkillHost) (store : TrustStore) (binding : ApprovalBinding)
    (attestation : ApprovalAttestation) (verifyingKey signature : List UInt8) : Prop where
  protocol : attestation.protocol = approvalProtocolV2
  trusted : ∃ trusted, store.keys.lookup attestation.keyId = some trusted ∧ trusted.revokedAt = none ∧
    trusted.publicKeyHex = attestation.publicKeyHex
  key : verifyingKeyFromHex host attestation.publicKeyHex = .ok verifyingKey
  decoded : host.hexDecode attestation.signatureHex = some signature ∧ signature.length = 64
  verified : host.verify verifyingKey (approvalPayloadV2 binding) signature = true

theorem verifyAttestation_ok {store : TrustStore} {host : SkillHost} {binding : ApprovalBinding}
    {attestation : ApprovalAttestation} {u : Unit} :
    store.verifyAttestation host binding attestation = .ok u ↔
      ∃ verifyingKey signature, Attested host store binding attestation verifyingKey signature := by
  simp only [TrustStore.verifyAttestation,bind_ok,require_ok,orFail_ok,exists_const]
  constructor
  · rintro ⟨protocol,trusted,found,live,same,verifyingKey,key,signature,decoded,length,verified⟩
    exact ⟨verifyingKey,signature,protocol,⟨trusted,found,live,same⟩,key,⟨decoded,length⟩,verified⟩
  · rintro ⟨verifyingKey,signature,protocol,⟨trusted,found,live,same⟩,key,⟨decoded,length⟩,verified⟩
    exact ⟨protocol,trusted,found,live,same,verifyingKey,key,signature,decoded,length,verified⟩

-- A signature verifies one payload under a key.
def OnePayload (host : SkillHost) : Prop := ∀ verifyingKey signature payload other,
  host.verify verifyingKey payload signature = true → host.verify verifyingKey other signature = true →
  payload = other

theorem attested_once {host : SkillHost} {store store' : TrustStore} {a b : ApprovalBinding}
    {attestation : ApprovalAttestation} {u u' : Unit} (single : OnePayload host)
    (one : store.verifyAttestation host a attestation = .ok u)
    (two : store'.verifyAttestation host b attestation = .ok u') : a = b := by
  obtain ⟨verifyingKey,signature,attested⟩ := verifyAttestation_ok.mp one
  obtain ⟨verifyingKey',signature',attested'⟩ := verifyAttestation_ok.mp two
  obtain rfl := Except.ok.inj (attested.key.symm.trans attested'.key)
  obtain rfl := Option.some.inj (attested.decoded.1.symm.trans attested'.decoded.1)
  exact approvalPayloadV2_injective (single _ _ _ _ attested.verified attested'.verified)

end Shaka.Skills
