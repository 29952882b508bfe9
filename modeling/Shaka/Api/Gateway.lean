import Shaka.Queue.Identities
import Shaka.Runtime.Tools

namespace Shaka.Api
open Shaka.Core Queue Shaka.Runtime CheckedSteps KeptState

-- The errors of a handler.
inductive HttpError where
  | unauthorized
  | forbidden
  | notFound
  | badRequest (detail : String)
  | conflict (detail : String)
  | rateLimited (retryAfterSeconds : Nat)
  | quotaExceeded (name : String)
  | internal
  deriving DecidableEq, Repr

-- `to_string()` of an error of the queue, without the words of the database itself.
def queueText : QueueError → String
  | .sqlite _ => "erro SQLite"
  | .core error => s!"erro de núcleo: {coreText error}"
  | .invalidInput detail => s!"entrada inválida: {detail}"
  | .notFound detail => s!"registro não encontrado: {detail}"
  | .idempotencyConflict => "chave de idempotência já usada com outro payload"
  | .unauthorized => "não autorizado"
  | .forbidden => "operação proibida"
  | .quotaExceeded limit => s!"quota excedida: {limit}"
  | .rateLimited seconds => s!"rate limit excedido; tente novamente em {seconds}s"
  | .leaseLost => "lease da tarefa perdida; finalização rejeitada"

def HttpError.ofQueue : QueueError → HttpError
  | .notFound _ => .notFound
  | .unauthorized => .unauthorized
  | .forbidden => .forbidden
  | .rateLimited retryAfterSeconds => .rateLimited retryAfterSeconds
  | .quotaExceeded name => .quotaExceeded name
  | .idempotencyConflict => .conflict "Idempotency-Key já foi usada com outro payload"
  | .invalidInput detail => .badRequest (queueText (.invalidInput detail))
  | .core error => .badRequest (queueText (.core error))
  | .leaseLost => .conflict "lease da tarefa perdida"
  | .sqlite _ => .internal

def HttpError.ofIdentity : IdentityError → HttpError
  | .queue error => .ofQueue error
  | .uniqueTenant | .uniqueOperator | .uniqueToken => .internal

-- The header fields that the handlers read; a value that is not text counts as absent.
structure RequestHeaders where
  authorization : Option String
  idempotencyKey : Option String

-- What the process is started with, as far as the handlers read it.
structure Server where
  principal : Principal
  apiKey : Option String
  loopback : Bool
  liveEnabled : Bool
  liveConfirmation : Bool

-- What a submission is made of, in the JSON text that its fingerprint is taken of.
structure FingerprintMaterial where
  objective : String
  priority : Int
  maxAttempts : Nat
  dryRun : Bool
  budget : Option ExecutionBudget
  taskId : Option TaskId
  planId : Option PlanId
  planRevision : Option Nat
  planDigest : Option String
  deriving DecidableEq, Repr

structure ApiEncoding extends StoreEncoding where
  fingerprintJson : FingerprintMaterial → String

-- A line of the audit trail, without its metadata.
structure AuditLine where
  tenantId : TenantId
  operatorId : OperatorId
  taskId : Option TaskId
  action : String
  outcome : String
  deriving DecidableEq, Repr

-- The state that the handlers share. `signals` are the tasks whose cancellation tokens were cancelled.
structure Gateway where
  database : Database
  audits : List AuditLine
  signals : List TaskId

def Gateway.setQueue (g : Gateway) (queue : QueueStore) : Gateway :=
  {g with database:={g.database with queue:=queue}}

-- The clock readings of one request, the identifier that it draws, and whether the trail takes
-- its record; a request makes one at most.
structure RequestMoment where
  now : Time
  clock : SubmitClock
  drawn : Uuid
  recorded : Bool

abbrev Handler (α : Type) := Program Gateway HttpError α

def consult (read : QueueStore → Except QueueError α) : Handler α := do
  let g ← observe id
  given ((read g.database.queue).mapError .ofQueue)

-- A transaction of the queue, which commits when it answers.
def enact (transaction : QueueStore → Except QueueError (α × QueueStore)) : Handler α := fun g =>
  match transaction g.database.queue with
  | .ok (answer,queue) => (.ok answer,g.setQueue queue)
  | .error error => (.error (.ofQueue error),g)

def refuse (p : Prop) [Decidable p] (e : HttpError) : Handler Unit := given (require (¬ p) e)

-- What `record` adds to the trail; when it fails the handler only warns and goes on.
def recordLine (moment : RequestMoment) (line : AuditLine) : List AuditLine :=
  if moment.recorded then [line] else []

def auditIdentity (moment : RequestMoment) (tenantId : TenantId) (operatorId : OperatorId)
    (taskId : Option TaskId) (action outcome : String) : Handler Unit :=
  update fun g => {g with audits:=g.audits ++ recordLine moment ⟨tenantId,operatorId,taskId,action,outcome⟩}

def auditPrincipal (moment : RequestMoment) (principal : Principal) (taskId : Option TaskId)
    (action outcome : String) : Handler Unit :=
  auditIdentity moment principal.tenantId principal.operatorId taskId action outcome

def cancelRunning (taskId : TaskId) : Handler Unit := update fun g => {g with signals:=g.signals ++ [taskId]}

-- `strip_prefix("Bearer ")`
def stripBearer (value : String) : Option String :=
  if "Bearer ".toList.isPrefixOf value.toList then some (String.ofList (value.toList.drop 7)) else none

def authenticateGateway (encoding : Encoding) (token : String) (now : Time) :
    Handler AuthenticatedPrincipal := fun g =>
  let (answer,database) := authenticateBearer encoding token now g.database
  (answer.mapError .ofIdentity,{g with database:=database})

section Handlers
variable (encoding : ApiEncoding) (server : Server)

def authorize (headers : RequestHeaders) (now : Time) : Handler AuthenticatedPrincipal :=
  match headers.authorization.bind stripBearer with
  | some token =>
    if server.apiKey = some token then pure ⟨server.principal,"static-api-key","static",.staticApiKey⟩
    else authenticateGateway encoding.toEncoding token now
  | none =>
    if server.loopback = true ∧ server.apiKey = none then
      pure ⟨server.principal,"local-loopback","local",.staticApiKey⟩
    else fail .unauthorized

def idempotencyKey (headers : RequestHeaders) : Handler String :=
  given (orFail (headers.idempotencyKey.filter fun value => !blank value)
    (.badRequest "header Idempotency-Key é obrigatório"))

structure TaskResponse where
  taskId : TaskId
  sessionId : Uuid
  status : TaskStatus
  priority : Int
  attempts : Nat
  maxAttempts : Nat
  nextAttemptAt : Time
  cancelRequested : Bool
  leaseUntil : Option Time
  result : Option String
  lastError : Option String
  createdAt : Time
  updatedAt : Time
  completedAt : Option Time
  planId : Option PlanId
  planRevision : Option Nat
  planDigest : Option String
  planStepId : Option PlanStepId
  deriving DecidableEq, Repr

def TaskResponse.ofRecord (task : TaskRecord) : TaskResponse :=
  ⟨task.taskId,task.sessionId,task.status,task.priority,task.attempts,task.maxAttempts,task.nextAttemptAt,
    task.cancelRequested,task.leaseUntil,task.result,task.lastError,task.createdAt,task.updatedAt,
    task.completedAt,task.planId,task.planRevision,task.planDigest,task.planStepId⟩

structure PlanDetail where
  inspection : PlanInspectionReport
  task : Option TaskResponse
  deriving DecidableEq, Repr

def planDetail (inspection : PlanInspectionReport) (s : QueueStore) : Except QueueError PlanDetail :=
  match loadTask encoding.toStoreEncoding s inspection.plan.taskId inspection.plan.tenantId with
  | .ok task => .ok ⟨inspection,some (.ofRecord task)⟩
  | .error (.notFound _) => .ok ⟨inspection,none⟩
  | .error error => .error error

-- `touch_session`; the time that it writes is not kept here.
def touchSession (sessionId : Uuid) (tenantId : TenantId) (s : QueueStore) : Except QueueError SessionRow :=
  orFail ((s.sessions.lookup sessionId).filter fun row => row.tenantId == tenantId)
    (.notFound s!"session {encoding.uuidText sessionId}")

-- Every handler begins with `authorize`; what follows it is here, for the principal that it answers.

-- `metadataSize` is the length of the metadata as JSON.
def createSessionHandler (who : Principal) (metadataSize : Nat) (moment : RequestMoment) :
    Handler (Uuid × SessionRow) := do
  refuse (4096 < metadataSize) (.badRequest "metadata excede o limite")
  let sessionId ← enact fun s => createSession s who
  auditPrincipal moment who none "api.session.create" "success"
  pure (sessionId,⟨who.tenantId,who.operatorId⟩)

def getSessionHandler (who : Principal) (sessionId : Uuid) : Handler SessionRow :=
  consult (touchSession encoding sessionId who.tenantId)

structure SubmitBody where
  sessionId : Uuid
  objective : String
  priority : Int
  maxAttempts : Option Nat
  dryRun : Option Bool
  budget : Option ExecutionBudget
  taskId : Option TaskId
  planId : Option PlanId
  planRevision : Option Nat
  planDigest : Option String
  deriving DecidableEq, Repr

def SubmitBody.material (body : SubmitBody) : FingerprintMaterial :=
  ⟨body.objective,body.priority,body.maxAttempts.getD 3,body.dryRun.getD true,body.budget,body.taskId,
    body.planId,body.planRevision,body.planDigest⟩

def fingerprint (body : SubmitBody) (idempotencyKey : String) : String :=
  encoding.sha256Hex (idempotencyKey ++ String.singleton (Char.ofNat 0) ++
    encoding.fingerprintJson body.material)

-- The plan that a submission names, whole or not at all.
def planReference (body : SubmitBody) : Except HttpError (Option PlanTaskReference) :=
  if body.planId.isSome || body.planRevision.isSome || body.planDigest.isSome || body.taskId.isSome then do
    let planId ← orFail body.planId (.badRequest "plan_id é obrigatório no modo planejado")
    let revision ← orFail body.planRevision (.badRequest "plan_revision é obrigatório no modo planejado")
    let digest ← orFail body.planDigest (.badRequest "plan_digest é obrigatório no modo planejado")
    require (body.taskId.isSome = true) (.badRequest "task_id é obrigatório no modo planejado")
    require (body.dryRun.getD true = true) (.badRequest "tasks planejadas exigem dry-run na v0.8.2")
    let reference ← (PlanTaskReference.new planId revision digest).mapError fun error =>
      .badRequest (queueText error)
    pure (some reference)
  else pure none

-- The checks of a submission before the queue sees it.
def checkSubmission (principal : Principal) (body : SubmitBody) :
    Except HttpError (Option PlanTaskReference) := do
  require (blank body.objective = false ∧ body.objective.utf8ByteSize ≤ 32000)
    (.badRequest "objective vazio ou maior que 32000 caracteres")
  require (-1073741824 ≤ body.priority ∧ body.priority ≤ 1073741823) (.badRequest "priority fora do limite")
  require (body.dryRun.getD true = true ∨ (server.liveEnabled = true ∧ server.liveConfirmation = true ∧
      principal.allows .runExternal = true))
    (.badRequest "execução live exige configuração explícita e principal administrador")
  planReference body

def submitEnvelope (principal : Principal) (body : SubmitBody) (drawn : Uuid) : TaskEnvelope where
  taskId := body.taskId.getD ⟨drawn⟩
  tenantId := principal.tenantId
  operatorId := principal.operatorId
  budget := body.budget.getD .default
  dryRun := body.dryRun.getD true
  executionContext := .fromPrincipal principal

def submission (principal : Principal) (key requestId : String) (body : SubmitBody)
    (reference : Option PlanTaskReference) (drawn : Uuid) : SubmitRequest where
  sessionId := body.sessionId
  principal := principal
  idempotencyKey := key
  requestFingerprint := fingerprint encoding body key
  envelope := submitEnvelope principal body drawn
  priority := body.priority
  maxAttempts := body.maxAttempts.getD 3
  planReference := reference
  requestId := some requestId

-- The status of the answer is 202 when the task is new and 200 when it is there already.
def submitTaskHandler (who : Principal) (headers : RequestHeaders) (requestId : String) (body : SubmitBody)
    (moment : RequestMoment) : Handler (SubmitOutcome × TaskResponse) := do
  let key ← given (orFail headers.idempotencyKey (.badRequest "header Idempotency-Key é obrigatório"))
  let _ ← consult (touchSession encoding body.sessionId who.tenantId)
  let reference ← given (checkSubmission server who body)
  let (outcome,task) ← enact fun s => submitTaskGoverned encoding.toStoreEncoding s
    (submission encoding who key requestId body reference moment.drawn) moment.clock
  if outcome = .created then auditPrincipal moment who (some task.taskId) "api.task.submit" "success"
    else pure ()
  pure (outcome,.ofRecord task)

def getTaskHandler (who : Principal) (taskId : TaskId) : Handler TaskResponse := do
  let task ← consult fun s => loadTask encoding.toStoreEncoding s taskId who.tenantId
  pure (.ofRecord task)

-- 202 while a worker still holds the task, 200 otherwise.
def cancelTaskHandler (who : Principal) (taskId : TaskId) (moment : RequestMoment) :
    Handler TaskResponse := do
  let task ← enact fun s => requestCancel encoding.toStoreEncoding s taskId who.tenantId moment.now
  cancelRunning taskId
  auditPrincipal moment who (some taskId) "api.task.cancel" "success"
  pure (.ofRecord task)

def createPlanHandler (who : Principal) (input : PlanSpecInput) (moment : RequestMoment) :
    Handler PlanSpec := do
  refuse (input.tenantId ≠ who.tenantId ∨ input.operatorId ≠ who.operatorId) .forbidden
  refuse (input.mode ≠ .dryRun) (.badRequest "planos live permanecem bloqueados na v0.8.2")
  let plan ← given ((PlanSpec.new encoding.toEncoding input moment.now).mapError fun error =>
    .badRequest (coreText error))
  let persisted ← enact fun s => savePlan encoding.toStoreEncoding s plan
  auditPrincipal moment who none "plan.create" "success"
  pure persisted

def getPlanHandler (who : Principal) (planId : PlanId) (moment : RequestMoment) : Handler PlanDetail := do
  let inspection ← consult fun s => inspectPlan encoding.toStoreEncoding s who.tenantId planId
  auditPrincipal moment who none "plan.show" "success"
  consult (planDetail encoding inspection)

-- `validate_plan` of the store.
def validatePlan (tenantId : TenantId) (planId : PlanId) (now : Time) (s : QueueStore) :
    Except QueueError PlanVerificationReport := do
  let plan ← loadPlan encoding.toStoreEncoding s planId tenantId
  let rows ← orFail (s.plans.lookup (planId,plan.revision))
    (.notFound s!"plan {encoding.uuidText planId.uuid}")
  let context := {PlanVerificationContext.new .preflight now with approvals:=loadApprovalsTx rows plan}
  pure (PlanVerifier.default.verify encoding.toEncoding plan context)

def validatePlanHandler (who : Principal) (planId : PlanId) (moment : RequestMoment) :
    Handler PlanVerificationReport := do
  let report ← consult (validatePlan encoding who.tenantId planId moment.now)
  auditPrincipal moment who none "plan.validate" (if report.isExecutable then "success" else "blocked")
  pure report

structure ApprovalBody where
  planId : PlanId
  stepId : Option PlanStepId
  decision : PlanApprovalDecision
  expiresInSeconds : Option Int

-- The number that the first sixteen bytes of a digest stand for.
def digestUuid (hex : String) : Uuid :=
  (hex.toList.take 32).foldl (fun value digit => value * 16 + (if digit.isDigit then digit.toNat - 48
    else digit.toNat - 87)) 0

def approvalIdForIdempotency (planId : PlanId) (revision : Nat) (idempotencyKey : String) : Uuid :=
  digestUuid (encoding.sha256Hex
    s!"shaka:plan:approval:{encoding.uuidText planId.uuid}:{revision}:{idempotencyKey}")

def requiredFor (plan : PlanSpec) (stepId : Option PlanStepId) : Except HttpError PlanApprovalRequirement :=
  match stepId with
  | some wanted => do
    let step ← orFail (plan.step? wanted) .notFound
    pure step.requiredApproval
  | none => .ok plan.requiredApproval

def approvalOf (principal : Principal) (plan : PlanSpec) (key : String) (body : ApprovalBody)
    (required : PlanApprovalRequirement) (expiresAt : Time) : PlanApproval where
  approvalId := approvalIdForIdempotency encoding body.planId plan.revision key
  planId := body.planId
  planDigest := plan.digest
  revision := plan.revision
  tenantId := principal.tenantId
  approver := principal.operatorId
  approverRole := principal.role
  stepId := body.stepId
  required := required
  decision := body.decision
  expiresAt := expiresAt
  revoked := false

def approvePlanHandler (who : Principal) (headers : RequestHeaders) (body : ApprovalBody)
    (moment : RequestMoment) : Handler (PlanApprovalOutcome × PlanDetail) := do
  let key ← idempotencyKey headers
  let plan ← consult fun s => loadPlan encoding.toStoreEncoding s body.planId who.tenantId
  let expiresIn := body.expiresInSeconds.getD 3600
  refuse (¬ (1 ≤ expiresIn ∧ expiresIn ≤ 604800))
    (.badRequest "expires_in_seconds deve estar entre 1 e 604800")
  let required ← given (requiredFor plan body.stepId)
  let approval := approvalOf encoding who plan key body required (moment.now + expiresIn * nanosPerSecond)
  let outcome ← enact fun s => approvePlan encoding.toStoreEncoding s who approval key moment.now
  let inspection ← consult fun s => inspectPlan encoding.toStoreEncoding s who.tenantId body.planId
  auditPrincipal moment who none "plan.approve" "success"
  let detail ← consult (planDetail encoding inspection)
  pure (outcome,detail)

def resumePlanHandler (who : Principal) (headers : RequestHeaders) (planId : PlanId) (evidenceDigest : String)
    (moment : RequestMoment) : Handler (PlanResolutionOutcome × PlanDetail) := do
  let key ← idempotencyKey headers
  let outcome ← enact fun s => resolvePlanUnknown encoding.toStoreEncoding s
    ⟨who,planId,.resume,key,some evidenceDigest⟩ moment.now
  let inspection ← consult fun s => inspectPlan encoding.toStoreEncoding s who.tenantId planId
  auditPrincipal moment who none "plan.resume" "success"
  let detail ← consult (planDetail encoding inspection)
  pure (outcome,detail)

-- A plan that is unknown is resolved; otherwise its task is cancelled.
def cancelPlanned (who : Principal) (key : String) (plan : PlanSpec) (planId : PlanId) (now : Time) :
    Handler TaskRecord :=
  if plan.state = .unknown then do
    let _ ← enact fun s => resolvePlanUnknown encoding.toStoreEncoding s ⟨who,planId,.cancel,key,none⟩ now
    consult fun s => loadTask encoding.toStoreEncoding s plan.taskId who.tenantId
  else enact fun s => requestCancel encoding.toStoreEncoding s plan.taskId who.tenantId now

def cancelPlanHandler (who : Principal) (headers : RequestHeaders) (planId : PlanId)
    (moment : RequestMoment) : Handler (TaskResponse × PlanDetail) := do
  let key ← idempotencyKey headers
  let plan ← consult fun s => loadPlan encoding.toStoreEncoding s planId who.tenantId
  let task ← cancelPlanned encoding who key plan planId moment.now
  let inspection ← consult fun s => inspectPlan encoding.toStoreEncoding s who.tenantId planId
  cancelRunning task.taskId
  auditPrincipal moment who (some task.taskId) "plan.cancel" "success"
  let detail ← consult (planDetail encoding inspection)
  pure (.ofRecord task,detail)

-- `list_plan_checkpoints`
def listPlanCheckpoints (tenantId : TenantId) (planId : PlanId) (s : QueueStore) :
    Except QueueError (List PlanCheckpoint) := do
  let plan ← loadPlan encoding.toStoreEncoding s planId tenantId
  let rows ← loadReducerRows (.same s) (planId,plan.revision) tenantId
  require (checkCheckpointSequence rows.checkpoints = true)
    (.invalidInput "sequência de checkpoints inválida")
  pure rows.checkpoints

structure CheckpointResponse where
  sequence : Nat
  stepId : Option PlanStepId
  phase : PlanCheckpointPhase
  status : PlanCheckpointStatus
  createdAt : Time
  deriving DecidableEq, Repr

def planCheckpointsHandler (who : Principal) (planId : PlanId) (moment : RequestMoment) :
    Handler (List CheckpointResponse) := do
  let checkpoints ← consult (listPlanCheckpoints encoding who.tenantId planId)
  auditPrincipal moment who none "plan.checkpoints" "success"
  pure (checkpoints.map fun row => ⟨row.sequence,row.stepId,row.phase,row.status,row.createdAt⟩)

end Handlers

-- The routes.
inductive Route where
  | createSession (metadataSize : Nat)
  | getSession (sessionId : Uuid)
  | submitTask (body : SubmitBody)
  | getTask (taskId : TaskId)
  | cancelTask (taskId : TaskId)
  | createPlan (input : PlanSpecInput)
  | getPlan (planId : PlanId)
  | validatePlan (planId : PlanId)
  | approvePlan (body : ApprovalBody)
  | resumePlan (planId : PlanId) (evidenceDigest : String)
  | cancelPlan (planId : PlanId)
  | planCheckpoints (planId : PlanId)

inductive Answer where
  | session (sessionId : Uuid) (row : SessionRow)
  | submitted (outcome : SubmitOutcome) (task : TaskResponse)
  | task (task : TaskResponse)
  | plan (plan : PlanSpec)
  | detail (detail : PlanDetail)
  | report (report : PlanVerificationReport)
  | approved (outcome : PlanApprovalOutcome) (detail : PlanDetail)
  | resolved (outcome : PlanResolutionOutcome) (detail : PlanDetail)
  | cancelled (task : TaskResponse) (detail : PlanDetail)
  | checkpoints (checkpoints : List CheckpointResponse)

structure HttpRequest where
  headers : RequestHeaders
  requestId : String
  route : Route

def respond (encoding : ApiEncoding) (server : Server) (who : Principal) (request : HttpRequest)
    (moment : RequestMoment) : Handler Answer :=
  match request.route with
  | .createSession metadataSize => do
    let (sessionId,row) ← createSessionHandler who metadataSize moment
    pure (.session sessionId row)
  | .getSession sessionId => do
    let row ← getSessionHandler encoding who sessionId
    pure (.session sessionId row)
  | .submitTask body => do
    let (outcome,task) ← submitTaskHandler encoding server who request.headers request.requestId body moment
    pure (.submitted outcome task)
  | .getTask taskId => do
    let task ← getTaskHandler encoding who taskId
    pure (.task task)
  | .cancelTask taskId => do
    let task ← cancelTaskHandler encoding who taskId moment
    pure (.task task)
  | .createPlan input => do
    let plan ← createPlanHandler encoding who input moment
    pure (.plan plan)
  | .getPlan planId => do
    let detail ← getPlanHandler encoding who planId moment
    pure (.detail detail)
  | .validatePlan planId => do
    let report ← validatePlanHandler encoding who planId moment
    pure (.report report)
  | .approvePlan body => do
    let (outcome,detail) ← approvePlanHandler encoding who request.headers body moment
    pure (.approved outcome detail)
  | .resumePlan planId evidenceDigest => do
    let (outcome,detail) ← resumePlanHandler encoding who request.headers planId evidenceDigest moment
    pure (.resolved outcome detail)
  | .cancelPlan planId => do
    let (task,detail) ← cancelPlanHandler encoding who request.headers planId moment
    pure (.cancelled task detail)
  | .planCheckpoints planId => do
    let checkpoints ← planCheckpointsHandler encoding who planId moment
    pure (.checkpoints checkpoints)

def handle (encoding : ApiEncoding) (server : Server) (request : HttpRequest) (moment : RequestMoment) :
    Handler Answer := do
  let auth ← authorize encoding server request.headers moment.now
  respond encoding server auth.principal request moment

end Shaka.Api
