import Shaka.Queue.QueueStore

namespace Shaka.Queue
open Shaka.Core CheckedSteps

def isAdmissible : PlanState → Bool
  | .draft | .proposed | .validated | .awaitingApproval | .approved => true
  | _ => false

-- `if state == origin { append(..)?; state = target; }`
def appendWhen (encoding : StoreEncoding) (plan : PlanSpec) (origin target : PlanState)
    (idempotencyKey : String) (now : Time) (tx : PlanTx) (state : PlanState) :
    Except QueueError (PlanTx × PlanState) :=
  if state = origin then do
    let tx ← appendPlanTransitionTx encoding tx plan origin target idempotencyKey now
    pure (tx,target)
  else pure (tx,state)

-- `now` is the clock read by the constructor of the verification context.
def verifyPlanAdmissionTx (encoding : StoreEncoding) (rows : PlanRows) (principal : Principal)
    (envelope : TaskEnvelope) (reference : PlanTaskReference) (now : Time) : Except QueueError PlanSpec := do
  let plan ← loadPlanTx encoding rows principal.tenantId reference
  require (plan.taskId = envelope.taskId ∧ plan.operatorId = principal.operatorId) .forbidden
  require (plan.mode = .dryRun)
    (.invalidInput "execução live planejada ainda não possui executor tipado")
  require (isAdmissible plan.state = true)
    (.invalidInput "plano não está em estado admitível")
  let context := {PlanVerificationContext.new .preflight now with approvals:=loadApprovalsTx rows plan}
  require ((PlanVerifier.default.verify encoding.toEncoding plan context).isExecutable = true)
    (.invalidInput "plano não passou pela verificação preflight")
  pure plan

-- The clock is read once for the verification and once more for the record.
def recordPlanAdmissionTx (encoding : StoreEncoding) (tx : PlanTx) (principal : Principal)
    (envelope : TaskEnvelope) (reference : PlanTaskReference) (verifyNow now : Time) :
    Except QueueError (Option Uuid × PlanTx) := do
  let plan ← verifyPlanAdmissionTx encoding tx.rows principal envelope reference verifyNow
  let admissionApprovalId :=
    if plan.requiredApproval = .none then none
    else ((loadApprovalsTx tx.rows plan).find? fun approval =>
      approval.stepId.isNone && (approval.validateFor plan none now).isOk).map (·.approvalId)
  let (tx,state) ← appendWhen encoding plan .draft .proposed "admission:proposed" now tx plan.state
  let (tx,state) ← appendWhen encoding plan .proposed .validated "admission:validated" now tx state
  let tx ← stepIf (state = .validated ∨ state = .awaitingApproval)
    (appendPlanTransitionTx encoding tx plan state .approved "admission:approved" now) tx
  let tx ← insertCheckpointTx tx none .preflight .succeeded (some plan.digest) now
  pure (admissionApprovalId,tx)

structure SubmitRequest where
  sessionId : Uuid
  principal : Principal
  idempotencyKey : String
  requestFingerprint : String
  envelope : TaskEnvelope
  priority : Int
  maxAttempts : Nat
  planReference : Option PlanTaskReference
  requestId : Option String

-- The three clock readings of one submission, in the order in which they are made.
structure SubmitClock where
  now : Time
  verifyNow : Time
  admitNow : Time

inductive SubmitOutcome where
  | created
  | existing
  deriving DecidableEq, Repr

def nanosPerSecond : Int := 1000000000

-- The first second that `DateTime<Utc>` can hold, that of the year -262143.
def minTimestamp : Int := -8334601228800

-- A start before the first second is the time itself.
def fixedWindowStart (now : Time) (windowSeconds : Nat) : Time :=
  let seconds := now.fdiv nanosPerSecond
  let start := seconds - seconds.emod (max windowSeconds 1)
  if start < minTimestamp then now else start * nanosPerSecond

def dayStart (now : Time) : Time := now - now.emod (86400 * nanosPerSecond)

def saturatingAddU64 (a b : Nat) : Nat := min (a + b) 18446744073709551615

def samePlanReference (task : TaskRecord) (reference : Option PlanTaskReference) : Bool :=
  match task.planId,task.planRevision,task.planDigest,reference with
  | none,none,none,none => true
  | some planId,some revision,some digest,some reference =>
    planId == reference.planId && revision == reference.revision && digest == reference.digest
  | _,_,_,_ => false

def submitScopes (principal : Principal) : List String :=
  [s!"tenant:{principal.tenantId.text}:submit",s!"operator:{principal.operatorId.text}:submit"]

def windowCount (s : QueueStore) (scope : String) (start : Time) : Nat :=
  (s.rateWindows.lookup (scope,start)).getD 0

def checkRateWindow (s : QueueStore) (limits : TenantLimits) (start now : Time) (scope : String) :
    Except QueueError Unit :=
  require (windowCount s scope start < limits.requestsPerWindow)
    (.rateLimited (max ((start + limits.windowSeconds * nanosPerSecond - now).tdiv nanosPerSecond) 1).toNat)

def countRequest (start : Time) (s : QueueStore) (scope : String) : QueueStore :=
  {s with rateWindows:=s.rateWindows.insert (scope,start) (windowCount s scope start + 1)}

def TaskStatus.isActive : TaskStatus → Bool
  | .queued | .running | .cancelRequested => true
  | _ => false

def tenantTasksSince (s : QueueStore) (tenantId : TenantId) (since : Time) : List TaskRecord :=
  s.taskRows.filter fun task => task.tenantId == tenantId && since ≤ task.createdAt

def checkTaskQuotas (s : QueueStore) (limits : TenantLimits) (tenantId : TenantId) (now : Time)
    (cost : Nat) : Except QueueError Unit := do
  require ((s.taskRows.filter fun task => task.tenantId == tenantId && task.status.isActive).length <
    limits.maxActiveTasks) (.quotaExceeded "max_active_tasks")
  let today := tenantTasksSince s tenantId (dayStart now)
  require (today.length < limits.maxDailyTasks) (.quotaExceeded "max_daily_tasks")
  let dailyCost := today.foldl
    (fun total task => saturatingAddU64 total task.envelope.budget.maxCostMicrounits) 0
  require (saturatingAddU64 dailyCost cost ≤ limits.maxDailyCostMicrounits)
    (.quotaExceeded "max_daily_cost_microunits")

def newTask (request : SubmitRequest) (envelope : TaskEnvelope) (now : Time) : TaskRecord where
  taskId := envelope.taskId
  sessionId := request.sessionId
  tenantId := request.principal.tenantId
  idempotencyKey := request.idempotencyKey
  requestFingerprint := request.requestFingerprint
  envelope := envelope
  status := .queued
  priority := request.priority
  attempts := 0
  maxAttempts := request.maxAttempts
  nextAttemptAt := now
  cancelRequested := false
  leaseUntil := none
  leaseToken := none
  planExecutionScope := none
  result := none
  lastError := none
  createdAt := now
  updatedAt := now
  completedAt := none
  planId := request.planReference.map (·.planId)
  planRevision := request.planReference.map (·.revision)
  planDigest := request.planReference.map (·.digest)
  planStepId := none

def validateSubmit (request : SubmitRequest) : Except QueueError Unit := do
  validateKey request.idempotencyKey "idempotency_key" 256
  validateKey request.requestFingerprint "request_fingerprint" 128
  checkOption (validateKey · "request_id" 128) request.requestId
  require (request.maxAttempts ≠ 0 ∧ request.maxAttempts ≤ 10)
    (.invalidInput "max_attempts deve estar entre 1 e 10")
  liftCore request.envelope.budget.validate
  require (request.envelope.tenantId = request.principal.tenantId ∧
    request.envelope.operatorId = request.principal.operatorId) .forbidden

-- The admission of the referenced plan, when there is one.
def admitReference (encoding : StoreEncoding) (s : QueueStore) (principal : Principal)
    (envelope : TaskEnvelope) (reference : Option PlanTaskReference) (clock : SubmitClock) :
    Except QueueError (Option Uuid × QueueStore) :=
  match reference with
  | none => pure (none,s)
  | some reference => do
    let tx ← s.beginPlan encoding reference
    let (approvalId,tx) ← recordPlanAdmissionTx encoding tx principal envelope reference
      clock.verifyNow clock.admitNow
    pure (approvalId,s.storePlan (reference.planId,reference.revision) tx)

-- `submit_task_governed_with_plan_and_provenance`
def submitTaskGoverned (encoding : StoreEncoding) (s : QueueStore) (request : SubmitRequest)
    (clock : SubmitClock) : Except QueueError ((SubmitOutcome × TaskRecord) × QueueStore) := do
  validateSubmit request
  let principal := request.principal
  let session ← orFail ((s.sessions.lookup request.sessionId).filter fun row =>
    row.tenantId == principal.tenantId) (.notFound s!"session {encoding.uuidText request.sessionId}")
  require (session.operatorId = principal.operatorId) .forbidden
  let governed := {request.envelope with executionContext:=ExecutionContext.fromPrincipal principal}
  let limits ← orFail (s.limits.lookup principal.tenantId) (.notFound s!"tenant {principal.tenantId.text}")
  match s.taskRows.find? fun task => task.tenantId == principal.tenantId &&
      task.idempotencyKey == request.idempotencyKey with
  | some row =>
    let existing ← loadTask encoding s row.taskId principal.tenantId
    require (existing.requestFingerprint = request.requestFingerprint ∧
      samePlanReference existing request.planReference = true) .idempotencyConflict
    pure ((.existing,existing),s)
  | none =>
    let start := fixedWindowStart clock.now limits.windowSeconds
    checkEach (checkRateWindow s limits start clock.now) (submitScopes principal)
    let s := (submitScopes principal).foldl (countRequest start) s
    let (approvalId,s) ← admitReference encoding s principal governed request.planReference clock
    let envelope := {governed with
      executionContext:=governed.executionContext.withProvenance request.requestId approvalId}
    checkTaskQuotas s limits principal.tenantId clock.now envelope.budget.maxCostMicrounits
    require (envelope.taskId ∉ s.tasks) (.sqlite .uniqueTask)
    let s := {s with tasks:=s.tasks.insert envelope.taskId (newTask request envelope clock.now)}
    let record ← loadTask encoding s envelope.taskId principal.tenantId
    pure ((.created,record),s)

inductive PlanApprovalOutcome where
  | approved
  | rejected
  | existing
  deriving DecidableEq, Repr

def sameApprovalIntent (left right : PlanApproval) : Bool :=
  left.approvalId == right.approvalId && left.planId == right.planId &&
  left.planDigest == right.planDigest && left.revision == right.revision &&
  left.tenantId == right.tenantId && left.approver == right.approver &&
  left.approverRole == right.approverRole && left.stepId == right.stepId &&
  left.required == right.required && left.decision == right.decision && left.revoked == right.revoked

def approvalScope (plan : PlanSpec) (stepId : Option PlanStepId) :
    Except QueueError PlanApprovalRequirement :=
  match stepId with
  | some stepId => do
    let step ← orFail (plan.step? stepId) (.notFound s!"step {stepId.text}")
    pure step.requiredApproval
  | none => .ok plan.requiredApproval

def validateApprovalShape (plan : PlanSpec) (principal : Principal) (approval : PlanApproval) (now : Time) :
    Except QueueError Unit := do
  require (approval.planId = plan.planId ∧ approval.revision = plan.revision ∧
    approval.planDigest = plan.digest ∧ approval.tenantId = plan.tenantId ∧
    approval.tenantId = principal.tenantId ∧ approval.approver = principal.operatorId ∧
    approval.approverRole = principal.role ∧ approval.revoked = false ∧ now < approval.expiresAt) .forbidden
  let requiredForScope ← approvalScope plan approval.stepId
  require (requiredForScope ≤ approval.required ∧
    approval.required.allowsRole approval.approverRole = true) .forbidden
  if approval.decision = .approved then liftCore (approval.validateFor plan approval.stepId now)
  else pure ()

-- The plan transitions of a decision, after the approval row is stored.
def decideApprovalTx (encoding : StoreEncoding) (tx : PlanTx) (plan : PlanSpec) (approval : PlanApproval)
    (now : Time) : Except QueueError (PlanApprovalOutcome × PlanTx) :=
  let id := encoding.uuidText approval.approvalId
  match approval.decision with
  | .approved =>
    if approval.stepId.isSome then pure (.approved,tx)
    else do
      let (tx,state) ← appendWhen encoding plan .draft .proposed s!"approval:proposed:{id}" now tx plan.state
      let (tx,state) ← appendWhen encoding plan .proposed .validated s!"approval:validated:{id}" now tx state
      require (state = .validated ∨ state = .awaitingApproval)
        (.invalidInput "plano não está aguardando aprovação")
      let tx ← appendPlanTransitionTx encoding tx plan state .approved s!"approval:approved:{id}" now
      pure (.approved,tx)
  | .rejected => do
    require (plan.state = .draft ∨ plan.state = .proposed ∨ plan.state = .validated ∨
      plan.state = .awaitingApproval) (.invalidInput "plano não pode mais ser rejeitado")
    let tx ← appendPlanTransitionTx encoding tx plan plan.state .rejected s!"approval:rejected:{id}" now
    pure (.rejected,tx)

def approvePlan (encoding : StoreEncoding) (s : QueueStore) (principal : Principal) (approval : PlanApproval)
    (idempotencyKey : String) (now : Time) : Except QueueError (PlanApprovalOutcome × QueueStore) := do
  require (principal.allows .approvePlan = true ∧ principal.operatorId = approval.approver ∧
    principal.role = approval.approverRole) .forbidden
  validateKey idempotencyKey "approval_idempotency_key" 256
  let reference ← PlanTaskReference.new approval.planId approval.revision approval.planDigest
  let tx ← s.beginPlan encoding reference
  let plan ← loadPlanTx encoding tx.rows principal.tenantId reference
  validateApprovalShape plan principal approval now
  match tx.rows.approvals.find? fun row => row.idempotencyKey == idempotencyKey with
  | some existing =>
    require (sameApprovalIntent existing.approval approval = true) .idempotencyConflict
    pure (.existing,s)
  | none =>
    -- `approval_id` is a key of the whole table
    require (∀ rows ∈ s.planRows, approval.approvalId ∉ rows.approvals.map (·.approval.approvalId))
      (.sqlite .uniqueApproval)
    let rows := {tx.rows with approvals:=tx.rows.approvals ++ [⟨approval,now,idempotencyKey⟩]}
    let (outcome,tx) ← decideApprovalTx encoding {tx with rows:=rows} plan approval now
    let tx ← insertCheckpointTx tx approval.stepId .approval
      (if outcome = .approved then .succeeded else .failed) none now
    pure (outcome,s.storePlan (reference.planId,reference.revision) tx)

end Shaka.Queue
