import Shaka.Queue.QueueStore

namespace Shaka.Queue
open Shaka.Core CheckedSteps

def maxI64 : Nat := 9223372036854775807

-- What is compared with the row that has the sequence already; the time is stored as its text.
def sameCheckpoint (encoding : StoreEncoding) (row checkpoint : PlanCheckpoint) : Bool :=
  row.phase == checkpoint.phase && row.status == checkpoint.status && row.stepId == checkpoint.stepId &&
    row.stateDigest == checkpoint.stateDigest && encoding.rfc3339 row.createdAt ==
      encoding.rfc3339 checkpoint.createdAt

-- `load_plan` has found the row, so the lookup that follows it does not fail. The
-- plan and the revision of the checkpoint are arguments of their own.
def appendPlanCheckpoint (encoding : StoreEncoding) (s : QueueStore) (tenantId : TenantId) (planId : PlanId)
    (revision : Nat) (checkpoint : PlanCheckpoint) : Except QueueError (Unit × QueueStore) := do
  let plan ← loadPlan encoding s planId tenantId
  require (revision = plan.revision ∧ checkpoint.sequence ≠ 0)
    (.invalidInput "checkpoint não corresponde à revisão do plano")
  checkOption (fun stepId => require (stepId ∈ plan.stepIds) (.notFound s!"step {stepId.text}"))
    checkpoint.stepId
  checkOption (validateSha256 · "state_digest") checkpoint.stateDigest
  let rows ← orFail (s.plans.lookup (planId,revision)) (.notFound s!"plan {encoding.uuidText planId.uuid}")
  let previous := rows.checkpoints.getLast?.map (·.sequence)
  if previous.any (checkpoint.sequence ≤ ·) then do
    require ((rows.checkpoints.find? (·.sequence == checkpoint.sequence)).any
      (sameCheckpoint encoding · checkpoint) = true) .idempotencyConflict
    pure ((),s)
  else do
    require (∀ sequence ∈ previous, checkpoint.sequence = sequence + 1)
      (.invalidInput "sequência de checkpoint não é contígua")
    require (checkpoint.sequence ≤ maxI64) (.sqlite .integerOutOfRange)
    let rows := {rows with checkpoints:=rows.checkpoints ++ [checkpoint]}
    pure ((),{s with plans:=s.plans.insert (planId,revision) rows})

end Shaka.Queue
