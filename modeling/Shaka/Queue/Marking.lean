import Shaka.Queue.QueueStore

namespace Shaka.Queue
open Shaka.Core CheckedSteps

def markPlanUnknown (encoding : StoreEncoding) (s : QueueStore) (tenantId : TenantId) (planId : PlanId)
    (stepId : Option PlanStepId) (stateDigest : Option String) (now : Time) :
    Except QueueError (Unit × QueueStore) := do
  checkOption (validateSha256 · "state_digest") stateDigest
  let plan ← loadPlan encoding s planId tenantId
  let rows ← orFail ((s.plans.lookup (planId,plan.revision)).filter fun rows => rows.tenantId == tenantId)
    (.sqlite .queryReturnedNoRows)
  let tx ← markPlanUnknownTx encoding ⟨rows,s.nextUuid⟩ plan stepId stateDigest now
  pure ((),s.storePlan (planId,plan.revision) tx)

end Shaka.Queue
