import Shaka.Core.Vocabulary
import Shaka.Library.CheckedSteps
import Shaka.Library.JsonValue

namespace Shaka.Skills
open Shaka.Core CheckedSteps JsonValue

inductive SkillStatus where
  | specified
  | generated
  | tested
  | candidate
  | active
  | deprecated
  | revoked
  deriving DecidableEq, Repr

structure SkillManifest where
  name : String
  version : String
  description : String
  permissions : List Capability
  inputSchema : Value
  outputSchema : Value
  status : SkillStatus
  artifactSha256 : Option String

inductive SkillError where
  | alreadyExists (name : String)
  | notFound (name : String)
  | invalidTransition (observed requested : SkillStatus)
  | invalidApproval (detail : String)
  | unsignedApproval
  | invalidSignature
  | unsupportedApprovalProtocol
  | manifestAuthorityMismatch
  | invalidKey (detail : String)
  | untrustedKey (keyId : String)
  | revokedKey (keyId : String)
  | artifactHashMismatch
  | missingArtifactPath
  | excessivePermission (capability : Capability)
  | io (detail : String)
  | serialization (detail : String)
  deriving DecidableEq, Repr

-- `str::as_bytes`
def bytesOf (text : String) : List UInt8 := text.toByteArray.data.toList

theorem bytesOf_length (text : String) : (bytesOf text).length = text.utf8ByteSize := by
  rw [bytesOf,Array.length_toList]
  exact String.size_toByteArray

theorem bytesOf_injective : Function.Injective bytesOf := by
  intro a b same
  have arrays : a.toByteArray.data = b.toByteArray.data := Array.toList_inj.mp same
  exact String.toByteArray_inj.mp (ByteArray.ext arrays)

structure ManifestAuthorityPayload where
  permissions : List String
  inputSchema : Json
  outputSchema : Json

-- What the crate takes from others: `hex::encode(Sha256::digest(..))`, the `serde_json` bytes of the
-- authority, `hex::decode`, which public keys `ed25519_dalek` accepts and what it verifies under them.
structure SkillHost where
  sha256Hex : List UInt8 → String
  toVec : ManifestAuthorityPayload → Except String (List UInt8)
  hexDecode : String → Option (List UInt8)
  isVerifyingKey : List UInt8 → Bool
  verify : List UInt8 → List UInt8 → List UInt8 → Bool

def capabilityLabel : Capability → String
  | .network => "network"
  | .filesystemRead => "filesystem_read"
  | .filesystemWrite => "filesystem_write"
  | .codeExecution => "code_execution"
  | .externalMessaging => "external_messaging"
  | .memoryWrite => "memory_write"

theorem capabilityLabel_injective : Function.Injective capabilityLabel := by
  intro a b same
  cases a <;> cases b <;> first | rfl | exact absurd same (by decide)

-- `Vec::dedup`, which drops what repeats its predecessor.
def dedup : List String → List String
  | first :: second :: rest =>
    if first = second then dedup (second :: rest) else first :: dedup (second :: rest)
  | short => short

def byKey (a b : String × Json) : Prop := a.1 ≤ b.1

instance : DecidableRel byKey := fun a b => inferInstanceAs (Decidable (a.1 ≤ b.1))

-- The form of a value does not depend on where its key stands, so the fields may be sorted last.
mutual
def canonicalizeJson : Json → Json
  | .object object =>
    let fields := (canonicalizeFields object).insertionSort byKey
    .object (fields.foldl (fun canonical field => insertEntry field.1 field.2 canonical) [])
  | .array items => .array (canonicalizeItems items)
  | .null => .null
  | .bool value => .bool value
  | .number text => .number text
  | .string text => .string text

def canonicalizeItems : List Json → List Json
  | [] => []
  | item :: rest => canonicalizeJson item :: canonicalizeItems rest

def canonicalizeFields : List (String × Json) → List (String × Json)
  | [] => []
  | (key,value) :: rest => (key,canonicalizeJson value) :: canonicalizeFields rest
end

def manifestAuthoritySha256 (host : SkillHost) (permissions : List Capability)
    (inputSchema outputSchema : Json) : Except SkillError String := do
  let canonicalPermissions := dedup ((permissions.map capabilityLabel).insertionSort (· ≤ ·))
  let authority : ManifestAuthorityPayload :=
    ⟨canonicalPermissions,canonicalizeJson inputSchema,canonicalizeJson outputSchema⟩
  let encoded ← (host.toVec authority).mapError .serialization
  pure (host.sha256Hex (bytesOf "shaka-skill-manifest-authority-v1" ++ 0 :: encoded))

def SkillManifest.authoritySha256 (manifest : SkillManifest) (host : SkillHost) : Except SkillError String :=
  manifestAuthoritySha256 host manifest.permissions manifest.inputSchema.json manifest.outputSchema.json

def validateHash (value : String) : Except SkillError String :=
  if value.utf8ByteSize ≠ 64 ∨ ¬ value.toList.all isAsciiHexDigit then
    .error (.invalidApproval "artifact_sha256 deve conter 64 caracteres hexadecimais")
  else .ok (String.ofList (value.toList.map Char.toLower))

def validateReason (value : String) : Except SkillError String :=
  if blank value then .error (.invalidApproval "a aprovação precisa registrar uma justificativa")
  else if value.utf8ByteSize > 4096 then .error
    (.invalidApproval "a justificativa não pode exceder 4096 bytes")
  else .ok value

end Shaka.Skills
