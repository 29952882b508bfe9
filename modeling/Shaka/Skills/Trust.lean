import Shaka.Skills.Artifacts

namespace Shaka.Skills
open Shaka.Core CheckedSteps KeptState

-- The refusals of the trust store that are not those of a registry.
inductive TrustError where
  | skill (error : SkillError)
  | keyAlreadyExists (keyId : String)
  | keyNotFound (keyId : String)
  deriving DecidableEq, Repr

-- What signing takes from other crates besides: `hex::encode`, and of the seed of a key its public key
-- and its signatures.
structure SigningHost extends SkillHost where
  hexEncode : List UInt8 → String
  publicKey : List UInt8 → List UInt8
  sign : List UInt8 → List UInt8 → List UInt8

-- What paths give at one moment.
structure Disk where
  files : Files
  canonicalize : String → Except String String

def validateKeyId (value : String) : Except SkillError String := do
  require (blank value = false ∧ value.utf8ByteSize ≤ 128 ∧ value.toList.any isWhiteSpace = false)
    (.invalidKey "key_id deve ser não vazio, ter até 128 caracteres e não conter espaços")
  pure value

def normalizePublicKey (host : SigningHost) (value : String) : Except SkillError String := do
  let key ← verifyingKeyFromHex host.toSkillHost value
  pure (host.hexEncode key)

namespace TrustStore

def empty : TrustStore := ⟨∅⟩

def get (store : TrustStore) (keyId : String) : Option TrustedKey := store.keys.lookup keyId

def insert (store : TrustStore) (keyId : String) (key : TrustedKey) : TrustStore :=
  ⟨store.keys.insert keyId key⟩

-- Who added a key, when and under which description is not kept here.
def addKey (host : SigningHost) (keyId publicKeyHex description : String) :
    Program TrustStore TrustError TrustedKey := do
  let keyId ← given ((validateKeyId keyId).mapError .skill)
  let publicKeyHex ← given ((normalizePublicKey host publicKeyHex).mapError .skill)
  given (require (blank description = false) (.skill (.invalidKey "description não pode ser vazia")))
  let taken ← observe fun store => store.get keyId
  given (require (taken.isNone = true) (.keyAlreadyExists keyId))
  update fun store => store.insert keyId ⟨publicKeyHex,none⟩
  pure ⟨publicKeyHex,none⟩

def revokeKey (keyId : String) (now : Time) : Program TrustStore TrustError TrustedKey := do
  let found ← observe fun store => store.get keyId
  let record ← given (orFail found (.keyNotFound keyId))
  update fun store => store.insert keyId {record with revokedAt:=some now}
  pure {record with revokedAt:=some now}

end TrustStore

def signApprovalV2 (host : SigningHost) (binding : ApprovalBinding) (keyId : String)
    (signingKey : List UInt8) :
    ApprovalAttestation :=
  ⟨approvalProtocolV2,keyId,host.hexEncode (host.publicKey signingKey),
    host.hexEncode (host.sign signingKey (approvalPayloadV2 binding))⟩

-- An approval of the file at a path as it is now, signed.
def SkillRegistry.approveSignedArtifact (host : SigningHost) (disk : Disk) (name : String)
    (operatorId : OperatorId) (artifactPath keyId : String) (signingKey : List UInt8) (reason : String)
    (moment : ApprovalMoment) :
    Program SkillRegistry SkillError SkillRecord := do
  let canonicalPath ← given ((disk.canonicalize artifactPath).mapError .io)
  let artifactSha256 ← given (sha256File host.toSkillHost disk.files canonicalPath)
  let record ← getMut name
  let keyId ← given (validateKeyId keyId)
  let reason ← given (validateReason reason)
  let authority ← given (record.manifest.authoritySha256 host.toSkillHost)
  let binding : ApprovalBinding := ⟨name,record.manifest.version,operatorId,artifactSha256,reason,authority⟩
  approveWithAttestation name ⟨operatorId,artifactSha256,canonicalPath,reason,authority,
    signApprovalV2 host binding keyId signingKey⟩ moment

end Shaka.Skills
