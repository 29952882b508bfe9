import Shaka.Properties.SkillExecutions

namespace Shaka.Properties
open Shaka.Core Skills Shaka.Runtime CheckedSteps KeptState GuardedRuns JsonValue

variable {host : SigningHost} {schemas : Runtime.Host} {engine : WasmEngine}

-- What the crates that sign, hash and encode promise.
structure HonestSigner (host : SigningHost) : Prop where
  decoded : ∀ bytes, host.hexDecode (host.hexEncode bytes) = some bytes
  keyLength : ∀ signingKey, (host.publicKey signingKey).length = 32
  keyAccepted : ∀ signingKey, host.isVerifyingKey (host.publicKey signingKey) = true
  signatureLength : ∀ signingKey payload, (host.sign signingKey payload).length = 64
  verified : ∀ signingKey payload,
    host.verify (host.publicKey signingKey) payload (host.sign signingKey payload) = true
  digestLength : ∀ bytes, (host.sha256Hex bytes).utf8ByteSize = 64
  digestDigits : ∀ bytes, ∀ c ∈ (host.sha256Hex bytes).toList, isAsciiHexDigit c = true ∧ c.toLower = c

theorem HonestSigner.validated (honest : HonestSigner host) (bytes : List UInt8) :
    validateHash (host.sha256Hex bytes) = .ok (host.sha256Hex bytes) := by
  have digits : (host.sha256Hex bytes).toList.all isAsciiHexDigit = true :=
    List.all_eq_true.mpr fun c listed => (honest.digestDigits bytes c listed).1
  have lower : (host.sha256Hex bytes).toList.map Char.toLower = (host.sha256Hex bytes).toList := by
    conv_rhs => rw [← List.map_id (host.sha256Hex bytes).toList]
    exact List.map_congr_left fun c listed => (honest.digestDigits bytes c listed).2
  simp only [validateHash,honest.digestLength,digits,lower,String.ofList_toList]
  rfl

end Shaka.Properties
