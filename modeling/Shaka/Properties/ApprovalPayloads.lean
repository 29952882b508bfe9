import Shaka.Skills.Approval

namespace Shaka.Properties
open Shaka.Core Skills CheckedSteps

-- No host whose signatures verify one payload each accepts the signature of a legacy approval.
theorem attested_not_legacy {host : SkillHost} {store : TrustStore} {binding : ApprovalBinding}
    {attestation : ApprovalAttestation} {verifyingKey signature : List UInt8} (single : OnePayload host)
    (key : verifyingKeyFromHex host attestation.publicKeyHex = .ok verifyingKey)
    (decoded : host.hexDecode attestation.signatureHex = some signature) {name version : String}
    {operatorId : OperatorId} {artifactSha256 reason : String}
    (legacy : host.verify verifyingKey (approvalPayloadV1 name version operatorId artifactSha256 reason)
      signature = true) : store.verifyAttestation host binding attestation ≠ .ok () := by
  intro accepted
  obtain ⟨verifyingKey',signature',attested⟩ := verifyAttestation_ok.mp accepted
  obtain rfl := Except.ok.inj (key.symm.trans attested.key)
  obtain rfl := Option.some.inj (decoded.symm.trans attested.decoded.1)
  exact approvalPayloadV1_apart _ _ _ _ _ binding (single _ _ _ _ legacy attested.verified)

-- Payloads tell bindings and versions apart, whatever stands in the fields; so an attestation is accepted
-- for one binding, and one whose signature is of a legacy approval for none.
theorem approvalPayload_unambiguous :
    (∀ a b : ApprovalBinding, approvalPayloadV2 a = approvalPayloadV2 b ↔ a = b) ∧
    (∀ (name version : String) (operatorId : OperatorId) (artifactSha256 reason : String)
      (b : ApprovalBinding),
      approvalPayloadV1 name version operatorId artifactSha256 reason ≠ approvalPayloadV2 b) ∧
    ∀ host : SkillHost, OnePayload host → ∀ (store store' : TrustStore) (attestation : ApprovalAttestation)
    (a b : ApprovalBinding),store.verifyAttestation host a attestation = .ok () →
      (store'.verifyAttestation host b attestation = .ok () → a = b) ∧
      ∀ verifyingKey signature, verifyingKeyFromHex host attestation.publicKeyHex = .ok verifyingKey →
        host.hexDecode attestation.signatureHex = some signature →
        ∀ (name version : String) (operatorId : OperatorId) (artifactSha256 reason : String),
          host.verify verifyingKey (approvalPayloadV1 name version operatorId artifactSha256 reason)
            signature = false := by
  refine ⟨fun a b => ⟨approvalPayloadV2_injective,fun same => by rw [same]⟩,approvalPayloadV1_apart,?_⟩
  intro host single store store' attestation a b accepted
  refine ⟨fun accepted' => attested_once single accepted accepted',?_⟩
  intro verifyingKey signature key decoded name version operatorId artifactSha256 reason
  by_contra verifies
  exact attested_not_legacy single key decoded (by simpa using verifies) accepted

end Shaka.Properties
