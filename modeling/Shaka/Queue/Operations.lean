import Shaka.Queue.Admission
import Shaka.Queue.Inspection

namespace Shaka.Queue
open Shaka.Core CheckedSteps

-- The calls that the processes sharing one database can make.
inductive Operation where
  | bootstrapPrincipal (principal : Principal)
  | setLimits (tenantId : TenantId) (limits : TenantLimits)
  | createSession (principal : Principal)
  | savePlan (plan : PlanSpec)
  | submit (request : SubmitRequest) (clock : SubmitClock)
  | approvePlan (principal : Principal) (approval : PlanApproval) (idempotencyKey : String) (now : Time)
  | claim (now leaseFor : Time) (planContext : PlanClaimContext)
  | finish (taskId : TaskId) (tenantId : TenantId) (leaseToken : LeaseToken) (report : FinishReport)
      (now : Time) (planContext : PlanClaimContext)
  | requestCancel (taskId : TaskId) (tenantId : TenantId) (now : Time)
  | recoverExpiredLeases (now : Time)
  | resolvePlanUnknown (request : ResolutionRequest) (now : Time)
  | resumePlan (tenantId : TenantId) (planId : PlanId) (now : Time)

-- The store after a transaction, without its answer.
def storeOf {α : Type} (result : Except QueueError (α × QueueStore)) :
    Except QueueError (Unit × QueueStore) :=
  result.map fun answer => ((),answer.2)

@[simp] theorem storeOf_ok {α : Type} {result : Except QueueError (α × QueueStore)} {u : Unit}
    {s : QueueStore} : storeOf result = .ok (u,s) ↔ ∃ a, result = .ok (a,s) := by
  cases result <;> simp [storeOf,Except.map,Prod.ext_iff]

@[simp] theorem storeOf_error {α : Type} {result : Except QueueError (α × QueueStore)} {e : QueueError} :
    storeOf result = .error e ↔ result = .error e := by
  cases result <;> simp [storeOf,Except.map]

-- The transaction of an operation; `resume_plan` commits although its report may
-- then fail, so it is not one of these.
def transaction (encoding : StoreEncoding) : Operation → QueueStore → Except QueueError (Unit × QueueStore)
  | .bootstrapPrincipal principal,s => bootstrapPrincipal s principal
  | .setLimits tenantId limits,s => storeOf (setLimits s tenantId limits)
  | .createSession principal,s => storeOf (createSession s principal)
  | .savePlan plan,s => storeOf (savePlan encoding s plan)
  | .submit request clock,s => storeOf (submitTaskGoverned encoding s request clock)
  | .approvePlan principal approval key now,s => storeOf (approvePlan encoding s principal approval key now)
  | .claim now leaseFor planContext,s =>
    storeOf (claimNextWithPlanContext encoding s now leaseFor planContext)
  | .finish taskId tenantId leaseToken report now planContext,s =>
    storeOf (finishTaskWithLeaseToken encoding s taskId tenantId leaseToken report now planContext)
  | .requestCancel taskId tenantId now,s => storeOf (requestCancel encoding s taskId tenantId now)
  | .recoverExpiredLeases now,s => storeOf (recoverExpiredLeases encoding s now)
  | .resolvePlanUnknown request now,s => storeOf (resolvePlanUnknown encoding s request now)
  | .resumePlan tenantId planId now,s => .ok ((),(resumePlan encoding s tenantId planId now).2)

def exec (encoding : StoreEncoding) (s : QueueStore) (operation : Operation) : QueueStore :=
  (commit (transaction encoding operation) s).2

-- An operation either fails and changes nothing, or its transaction succeeds.
theorem exec_cases (encoding : StoreEncoding) (s : QueueStore) (operation : Operation) :
    exec encoding s operation = s ∨ transaction encoding operation s = .ok ((),
      exec encoding s operation) := by
  unfold exec commit
  cases transaction encoding operation s with
  | error e => exact .inl rfl
  | ok pair => exact .inr rfl

theorem exec_ok {encoding : StoreEncoding} {s s' : QueueStore} {operation : Operation} {u : Unit}
    (ok : transaction encoding operation s = .ok (u,s')) : exec encoding s operation = s' := by
  rw [exec,commit,ok]

end Shaka.Queue
