import Shaka.Queue.PlanJournal

namespace Shaka.Queue
open Shaka.Core CheckedSteps

structure SessionRow where
  tenantId : TenantId
  operatorId : OperatorId
  deriving DecidableEq, Repr

structure TenantLimits where
  maxActiveTasks : Nat
  maxDailyTasks : Nat
  maxDailyCostMicrounits : Nat
  requestsPerWindow : Nat
  windowSeconds : Nat
  deriving DecidableEq, Repr

def defaultLimits : TenantLimits := ⟨32,1000,10000000,120,60⟩

def validateLimits (limits : TenantLimits) : Except QueueError Unit := do
  require (limits.maxActiveTasks ≠ 0 ∧ limits.maxActiveTasks ≤ 100000)
    (.invalidInput "max_active_tasks deve estar entre 1 e 100000")
  require (limits.maxDailyTasks ≠ 0 ∧ limits.maxDailyTasks ≤ 1000000)
    (.invalidInput "max_daily_tasks deve estar entre 1 e 1000000")
  require (limits.maxDailyCostMicrounits ≠ 0)
    (.invalidInput "max_daily_cost_microunits deve ser positivo")
  require (limits.requestsPerWindow ≠ 0 ∧ limits.requestsPerWindow ≤ 1000000)
    (.invalidInput "requests_per_window deve estar entre 1 e 1000000")
  require (limits.windowSeconds ≠ 0 ∧ limits.windowSeconds ≤ 86400)
    (.invalidInput "window_seconds deve estar entre 1 e 86400")

abbrev PlanKey := PlanId × Nat

-- The tables of the database. Fresh identifiers are drawn from `nextUuid`.
structure QueueStore where
  sessions : AList fun _ : Uuid => SessionRow
  limits : AList fun _ : TenantId => TenantLimits
  rateWindows : AList fun _ : String × Time => Nat
  tasks : AList fun _ : TaskId => TaskRecord
  plans : AList fun _ : PlanKey => PlanRows
  nextUuid : Uuid

def QueueStore.empty : QueueStore := ⟨∅,∅,∅,∅,∅,0⟩

def QueueStore.taskRows (s : QueueStore) : List TaskRecord := s.tasks.entries.map (·.2)

def QueueStore.planRows (s : QueueStore) : List PlanRows := s.plans.entries.map (·.2)

-- `UPDATE api_tasks SET .. WHERE task_id = ? AND tenant_id = ?`
structure TaskUpdate where
  taskId : TaskId
  tenantId : TenantId
  set : TaskRecord → TaskRecord

def QueueStore.updateTask (s : QueueStore) (update : TaskUpdate) : QueueStore :=
  match s.tasks.lookup update.taskId with
  | some row =>
    if row.tenantId = update.tenantId then {s with tasks:=s.tasks.insert update.taskId (update.set row)}
      else s
  | none => s

def QueueStore.beginPlan (s : QueueStore) (encoding : StoreEncoding) (reference : PlanTaskReference) :
    Except QueueError PlanTx := do
  let rows ← orFail (s.plans.lookup (reference.planId,reference.revision))
    (.notFound s!"plan {encoding.uuidText reference.planId.uuid}")
  pure ⟨rows,s.nextUuid⟩

def QueueStore.storePlan (s : QueueStore) (key : PlanKey) (tx : PlanTx) : QueueStore :=
  {s with plans:=s.plans.insert key tx.rows,nextUuid:=tx.nextUuid}

-- The conversions and retry invariants that `load_task` checks on a row.
def checkTaskRow (row : TaskRecord) : Except QueueError Unit := do
  require (∀ revision ∈ row.planRevision, revision ≤ maxU32)
    (.invalidInput "plan_revision inválida: out of range integral type conversion attempted")
  checkOption (fun stepId => liftCore (validatePlanKey stepId.text "step_id")) row.planStepId
  require (row.planId.isSome = row.planRevision.isSome ∧ row.planId.isSome = row.planDigest.isSome ∧
      (row.planStepId.isSome = true → row.planId.isSome = true))
    (.invalidInput "referência de plano parcialmente persistida")
  require (-2147483648 ≤ row.priority ∧ row.priority ≤ 2147483647)
    (.invalidInput "priority persistida inválida: out of range integral type conversion attempted")
  require (row.attempts ≤ maxU32)
    (.invalidInput "attempts persistido inválido: out of range integral type conversion attempted")
  require (row.maxAttempts ≤ maxU32)
    (.invalidInput "max_attempts persistido inválido: out of range integral type conversion attempted")
  require (row.maxAttempts ≠ 0 ∧ row.maxAttempts ≤ 10)
    (.invalidInput "invariantes de retry persistidas inválidas")

def loadTask (encoding : StoreEncoding) (s : QueueStore) (taskId : TaskId) (tenantId : TenantId) :
    Except QueueError TaskRecord := do
  let row ← orFail ((s.tasks.lookup taskId).filter fun row => row.tenantId == tenantId)
    (.notFound s!"task {encoding.uuidText taskId.uuid}")
  checkTaskRow row
  pure row

def bootstrapPrincipal (s : QueueStore) (principal : Principal) : Except QueueError (Unit × QueueStore) := do
  validateKey principal.tenantId.text "tenant_id" 128
  validateKey principal.operatorId.text "operator_id" 128
  match s.limits.lookup principal.tenantId with
  | some _ => pure ((),s)
  | none => pure ((),{s with limits:=s.limits.insert principal.tenantId defaultLimits})

def setLimits (s : QueueStore) (tenantId : TenantId) (limits : TenantLimits) :
    Except QueueError (TenantLimits × QueueStore) := do
  validateLimits limits
  let _ ← orFail (s.limits.lookup tenantId) (.notFound s!"tenant {tenantId.text}")
  pure (limits,{s with limits:=s.limits.insert tenantId limits})

def createSession (s : QueueStore) (principal : Principal) : Except QueueError (Uuid × QueueStore) :=
  .ok (s.nextUuid,{s with
    sessions:=s.sessions.insert s.nextUuid ⟨principal.tenantId,principal.operatorId⟩
    nextUuid:=s.nextUuid + 1})

def newStepRow (step : PlanStep) : PlanStepRow := ⟨.pending,0,step.maxAttempts,step.compensationStepId⟩

-- The inserts into `plan_steps`, whose key is the step within the plan.
def insertSteps : List PlanStep → (AList fun _ : PlanStepId => PlanStepRow) →
    Except QueueError (AList fun _ : PlanStepId => PlanStepRow)
  | [],steps => .ok steps
  | step :: rest,steps => do
    require (step.stepId ∉ steps) (.sqlite .uniqueStep)
    insertSteps rest (steps.insert step.stepId (newStepRow step))

def savePlan (encoding : StoreEncoding) (s : QueueStore) (plan : PlanSpec) :
    Except QueueError (PlanSpec × QueueStore) := do
  liftCore plan.validateStructure
  liftCore (plan.verifyDigest encoding.toEncoding)
  match s.plans.lookup (plan.planId,plan.revision) with
  | some rows =>
    -- a row of another tenant is not seen by the query and fails the insert
    require (rows.tenantId = plan.tenantId) (.sqlite .uniquePlan)
    require (rows.digest = plan.digest) (.invalidInput "revisão de plano existente é append-only")
    pure ({plan with state:=rows.state},s)
  | none =>
    let steps ← insertSteps plan.steps ∅
    let rows : PlanRows := ⟨plan.tenantId,plan.digest,plan,plan.state,steps,[],[],[],0⟩
    pure (plan,{s with plans:=s.plans.insert (plan.planId,plan.revision) rows})

-- `ORDER BY revision DESC LIMIT 1`
def latestPlan (s : QueueStore) (planId : PlanId) (tenantId : TenantId) : Option (PlanKey × PlanRows) :=
  (((s.plans.entries.filter fun entry => entry.1.1 == planId && entry.2.tenantId == tenantId).insertionSort
    fun left right => right.1.2 ≤ left.1.2).map fun entry => (entry.1,entry.2)).head?

def loadPlan (encoding : StoreEncoding) (s : QueueStore) (planId : PlanId) (tenantId : TenantId) :
    Except QueueError PlanSpec := do
  let (key,rows) ← orFail (latestPlan s planId tenantId) (.notFound s!"plan {encoding.uuidText planId.uuid}")
  require (rows.plan.planId = planId ∧ rows.plan.tenantId = tenantId ∧ rows.plan.revision = key.2 ∧
      rows.plan.digest = rows.digest)
    (.invalidInput "snapshot do plano não corresponde às colunas persistidas")
  let plan := {rows.plan with state:=rows.state}
  liftCore plan.validateStructure
  liftCore (plan.verifyDigest encoding.toEncoding)
  pure plan

end Shaka.Queue
