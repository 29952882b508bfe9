import Shaka.Queue.QueueStore

namespace Shaka.Queue
open Shaka.Core CheckedSteps

def isClaimable : PlanState → Bool
  | .approved | .running | .compensating => true
  | _ => false

def succeededSteps (states : StepStates) : List PlanStepId :=
  (states.filter fun entry => entry.2 == .succeeded).map (·.1)

-- The steps that compensate one now in `Compensating`.
def compensationTargets (plan : PlanSpec) (states : StepStates) : List PlanStepId :=
  if plan.state = .compensating then
    (plan.steps.filter fun step => states.lookup step.stepId == some .compensating).filterMap
      (·.compensationStepId)
  else []

def stepCandidates (plan : PlanSpec) (states : StepStates) : List PlanStep :=
  (plan.steps.filter fun step =>
    (states.lookup step.stepId == some .ready || states.lookup step.stepId == some .pending) &&
    (plan.state != .compensating || (compensationTargets plan states).contains step.stepId)).insertionSort
      fun left right => PlanStepId.le left.stepId right.stepId

def stepReadyContext (task : TaskRecord) (states : StepStates) (approvals : List PlanApproval)
    (claimContext : PlanClaimContext) (now : Time) (stepId : PlanStepId) : PlanVerificationContext :=
  {PlanVerificationContext.new .stepReady now with
    targetStep:=some stepId
    taskState:=some .running
    succeededSteps:=succeededSteps states
    grantedCapabilities:=claimContext.grantedCapabilities
    circuitClosed:=claimContext.circuitClosed
    remainingBudget:=claimContext.remainingBudget.getD task.envelope.budget
    stateDigest:=claimContext.stateDigest
    approvals:=approvals}

def preflightContext (approvals : List PlanApproval) (now : Time) : PlanVerificationContext :=
  {PlanVerificationContext.new .preflight now with approvals:=approvals}

def isExecutable (encoding : StoreEncoding) (plan : PlanSpec) (context : PlanVerificationContext) : Bool :=
  (PlanVerifier.default.verify encoding.toEncoding plan context).isExecutable

-- The step that a claim would bind: the first candidate whose dependencies are
-- complete and that the verifier finds ready.
def selectStep (encoding : StoreEncoding) (plan : PlanSpec) (task : TaskRecord) (states : StepStates)
    (approvals : List PlanApproval) (claimContext : PlanClaimContext) (now : Time) : Option PlanStep :=
  (stepCandidates plan states).find? fun step =>
    (step.dependsOn.all fun dependency => (succeededSteps states).contains dependency) &&
    isExecutable encoding plan (stepReadyContext task states approvals claimContext now step.stepId)

-- The transitions that bind the selected step.
def bindStepTx (encoding : StoreEncoding) (tx : PlanTx) (plan : PlanSpec) (states : StepStates)
    (selected : PlanStep) (claimContext : PlanClaimContext) (now : Time) : Except QueueError PlanTx := do
  let tx ← stepIf (plan.state = .approved)
    (appendPlanTransitionTx encoding tx plan .approved .running s!"claim:plan:{selected.stepId.text}" now) tx
  let currentStepState ← orFail (states.lookup selected.stepId) (.notFound s!"step {selected.stepId.text}")
  let row ← orFail (tx.rows.steps.lookup selected.stepId) (.sqlite .queryReturnedNoRows)
  require (row.attempts ≤ maxU32) (.sqlite .integerOutOfRange)
  let claimAttempt := min (row.attempts + 1) maxU32
  let tx ← stepIf (currentStepState = .pending)
    (appendStepTransitionTx encoding tx plan selected.stepId .pending .ready
      s!"claim:ready:{selected.stepId.text}:{claimAttempt}" now) tx
  let tx ← appendStepTransitionTx encoding tx plan selected.stepId .ready .running
    s!"claim:running:{selected.stepId.text}:{claimAttempt}" now
  let rows := tx.rows.updateStep selected.stepId fun row => {row with attempts:=row.attempts + 1}
  insertCheckpointTx {tx with rows:=rows} (some selected.stepId) .beforeStep .pending
    claimContext.stateDigest now

-- `None` is answered before anything is written.
def preparePlannedClaimTx (encoding : StoreEncoding) (tx : PlanTx) (task : TaskRecord)
    (reference : PlanTaskReference) (claimContext : PlanClaimContext) (now : Time) :
    Except QueueError (Option (PlanStep × PlanTx)) := do
  let plan ← loadPlanTx encoding tx.rows task.tenantId reference
  require (plan.taskId = task.taskId ∧ plan.mode = .dryRun) .forbidden
  require (task.planStepId = none) (.invalidInput "task planejada já possui etapa locada")
  if isClaimable plan.state = false then pure none
  else do
    let states ← loadStepStatesTx tx.rows
    let approvals := loadApprovalsTx tx.rows plan
    if isExecutable encoding plan (preflightContext approvals now) = false then pure none
    else match selectStep encoding plan task states approvals claimContext now with
      | none => pure none
      | some selected => do
        let tx ← bindStepTx encoding tx plan states selected claimContext now
        pure (some (selected,tx))

def isDue (now : Time) (task : TaskRecord) : Bool :=
  task.status == .queued && !task.cancelRequested && task.nextAttemptAt ≤ now

-- `ORDER BY priority DESC, created_at ASC`
def claimOrder (left right : TaskRecord) : Prop :=
  right.priority < left.priority ∨ (left.priority = right.priority ∧ left.createdAt ≤ right.createdAt)

instance : DecidableRel claimOrder := fun left right =>
  inferInstanceAs (Decidable (right.priority < left.priority ∨
    (left.priority = right.priority ∧ left.createdAt ≤ right.createdAt)))

def claimLimit : Nat := 64

def claimCandidates (s : QueueStore) (now : Time) : List TaskRecord :=
  ((s.taskRows.filter (isDue now)).insertionSort claimOrder).take claimLimit

-- What the loop of the claim makes of one candidate: the step bound for it (none
-- for a direct task) and the store after the plan was advanced, or a skip.
def prepareCandidate (encoding : StoreEncoding) (s : QueueStore) (candidate : TaskRecord)
    (planContext : PlanClaimContext) (now : Time) :
    Except QueueError (Option (TaskRecord × Option (PlanId × PlanStep) × QueueStore)) := do
  let tenantId ← liftCore (TenantId.new candidate.tenantId.text)
  let task ← loadTask encoding s candidate.taskId tenantId
  if task.planId.isSome then do
    let reference ← taskReference task
    let effective := {planContext with grantedCapabilities:=task.envelope.executionContext.capabilities}
    let tx ← s.beginPlan encoding reference
    match ← preparePlannedClaimTx encoding tx task reference effective now with
    | some (step,tx) =>
      pure (some (task,some (reference.planId,step),s.storePlan (reference.planId,reference.revision) tx))
    | none => pure none
  else pure (some (task,none,s))

-- `UPDATE api_tasks .. WHERE .. AND status = 'queued'`
def leaseRow (token : LeaseToken) (stepId : Option PlanStepId) (leaseUntil now : Time) (row : TaskRecord) :
    TaskRecord :=
  if row.status = .queued then {row with
    status:=.running
    attempts:=row.attempts + 1
    leaseUntil:=some leaseUntil
    leaseToken:=some token
    planStepId:=stepId
    updatedAt:=now}
  else row

def leaseTask (encoding : StoreEncoding) (s : QueueStore) (task : TaskRecord)
    (bound : Option (PlanId × PlanStep)) (leaseUntil now : Time) :
    Except QueueError (TaskRecord × QueueStore) := do
  let stepId := bound.map fun scope => scope.2.stepId
  let s := {s with nextUuid:=s.nextUuid + 1}.updateTask
    ⟨task.taskId,task.tenantId,leaseRow ⟨s.nextUuid⟩ stepId leaseUntil now⟩
  let claimed ← loadTask encoding s task.taskId task.tenantId
  pure ({claimed with planExecutionScope:=bound.map fun (planId,step) => ⟨planId,step.stepId,step.action⟩},s)

def claimFirst (encoding : StoreEncoding) (s : QueueStore) (planContext : PlanClaimContext)
    (leaseUntil now : Time) : List TaskRecord → Except QueueError (Option TaskRecord × QueueStore)
  | [] => pure (none,s)
  | candidate :: rest => do
    match ← prepareCandidate encoding s candidate planContext now with
    | none => claimFirst encoding s planContext leaseUntil now rest
    | some (task,bound,prepared) => do
      let (claimed,next) ← leaseTask encoding prepared task bound leaseUntil now
      pure (some claimed,next)

def claimNextWithPlanContext (encoding : StoreEncoding) (s : QueueStore) (now leaseFor : Time)
    (planContext : PlanClaimContext) : Except QueueError (Option TaskRecord × QueueStore) := do
  require (0 < leaseFor) (.invalidInput "lease_for deve ser maior que zero")
  claimFirst encoding s planContext (now + leaseFor) now (claimCandidates s now)

def claimNext (encoding : StoreEncoding) (s : QueueStore) (now leaseFor : Time) :
    Except QueueError (Option TaskRecord × QueueStore) :=
  claimNextWithPlanContext encoding s now leaseFor PlanClaimContext.default

end Shaka.Queue
