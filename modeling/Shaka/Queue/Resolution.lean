import Shaka.Queue.Cancellation

namespace Shaka.Queue
open Shaka.Core CheckedSteps

inductive PlanResolutionDecision where
  | resume
  | compensate
  | cancel
  deriving DecidableEq, Repr

inductive PlanResolutionOutcome where
  | resumed
  | compensating
  | cancelled
  | existing
  deriving DecidableEq, Repr

-- The plan state that the decision leads to.
def PlanResolutionDecision.target : PlanResolutionDecision → PlanState
  | .resume => .running
  | .compensate => .compensating
  | .cancel => .cancelled

structure ResolutionRequest where
  principal : Principal
  planId : PlanId
  decision : PlanResolutionDecision
  idempotencyKey : String
  evidenceDigest : Option String

def validateResolution (request : ResolutionRequest) : Except QueueError Unit := do
  require (request.principal.allows .resolvePlanUnknown = true) .forbidden
  validateKey request.idempotencyKey "resolution_idempotency_key" 256
  checkOption (validateSha256 · "resolution evidence digest") request.evidenceDigest
  require (request.decision = .resume → request.evidenceDigest ≠ none)
    (.invalidInput "retomada de unknown exige digest de evidência")

def resumeStep (encoding : StoreEncoding) (plan : PlanSpec) (idempotencyKey : String) (now : Time)
    (tx : PlanTx) (entry : PlanStepId × PlanStepState) : Except QueueError PlanTx :=
  appendStepTransitionTx encoding tx plan entry.1 entry.2 .ready s!"{idempotencyKey}:step:{entry.1.text}" now

def resumeUnknownTx (encoding : StoreEncoding) (tx : PlanTx) (plan : PlanSpec) (idempotencyKey : String)
    (now : Time) : Except QueueError PlanTx := do
  let states ← loadStepStatesTx tx.rows
  let tx ← foldEach (resumeStep encoding plan idempotencyKey now) tx
    (states.filter fun entry => entry.2 == .unknown)
  appendPlanTransitionTx encoding tx plan .unknown .running idempotencyKey now

def isCompensable : PlanStepState → Bool
  | .succeeded | .failed | .unknown | .compensating => true
  | _ => false

structure CompensationSource where
  stepId : PlanStepId
  compensation : PlanStepId
  state : PlanStepState
  deriving DecidableEq, Repr

def eligibleSources (plan : PlanSpec) (states : StepStates) : List CompensationSource :=
  plan.steps.filterMap fun step =>
    match step.compensationStepId,states.lookup step.stepId with
    | some compensation,some state =>
      if isCompensable state then some ⟨step.stepId,compensation,state⟩ else none
    | _,_ => none

def startSource (encoding : StoreEncoding) (plan : PlanSpec) (idempotencyKey : String) (now : Time)
    (tx : PlanTx) (source : CompensationSource) : Except QueueError PlanTx :=
  if source.state = .compensating then .ok tx
  else appendStepTransitionTx encoding tx plan source.stepId source.state .compensating
    s!"{idempotencyKey}:source:{source.stepId.text}" now

-- A target left unknown or failed by an earlier compensation can run again.
def readyTarget (encoding : StoreEncoding) (plan : PlanSpec) (idempotencyKey : String) (now : Time)
    (states : StepStates) (tx : PlanTx) (target : PlanStepId) : Except QueueError PlanTx :=
  match states.lookup target with
  | some state =>
    if state = .unknown ∨ state = .failed then
      appendStepTransitionTx encoding tx plan target state .ready s!"{idempotencyKey}:target:{target.text}"
        now
    else .ok tx
  | none => .ok tx

-- A set of identifiers in ascending order, as a `BTreeSet` iterates.
def orderedSet (ids : List PlanStepId) : List PlanStepId := ids.dedup.insertionSort PlanStepId.le

def compensateUnknownTx (encoding : StoreEncoding) (tx : PlanTx) (plan : PlanSpec) (idempotencyKey : String)
    (now : Time) : Except QueueError PlanTx := do
  let states ← loadStepStatesTx tx.rows
  let sources := eligibleSources plan states
  require (sources ≠ []) (.invalidInput "plano não possui compensação declarada elegível")
  let tx ← foldEach (startSource encoding plan idempotencyKey now) tx sources
  let states ← loadStepStatesTx tx.rows
  let tx ← foldEach (readyTarget encoding plan idempotencyKey now states) tx
    (orderedSet (sources.map (·.compensation)))
  appendPlanTransitionTx encoding tx plan .unknown .compensating idempotencyKey now

def isUnsettled : PlanStepState → Bool
  | .running | .cancelRequested | .compensating | .unknown => true
  | _ => false

-- The loop of the source over unknown steps follows a check that there are none.
def cancelUnknownTx (encoding : StoreEncoding) (tx : PlanTx) (plan : PlanSpec) (idempotencyKey : String)
    (now : Time) : Except QueueError PlanTx := do
  let states ← loadStepStatesTx tx.rows
  require (∀ entry ∈ states, isUnsettled entry.2 = false)
    (.invalidInput "cancelamento bloqueado enquanto houver fronteira ativa ou unknown")
  let tx ← foldEach (fun tx entry => appendStepTransitionTx encoding tx plan entry.1 entry.2 .cancelled
    s!"{idempotencyKey}:step:{entry.1.text}" now) tx (states.filter fun entry => entry.2 == .unknown)
  appendPlanTransitionTx encoding tx plan .unknown .cancelled idempotencyKey now

-- `update_task_for_resolution`; the update must meet exactly one row.
def updateTaskForResolution (s : QueueStore) (plan : PlanSpec) (status : TaskStatus) (cancelRequested : Bool)
    (lastError : Option String) (now : Time) : Except QueueError QueueStore := do
  let row ← orFail (s.tasks.lookup plan.taskId) (.notFound "task planejada não encontrada")
  require (row.tenantId = plan.tenantId ∧ row.planId = some plan.planId ∧
    row.planRevision = some plan.revision) (.notFound "task planejada não encontrada")
  pure (s.updateTask (planTaskUpdate plan fun row => unbindStep {releaseRow status now row with
    cancelRequested:=cancelRequested
    lastError:=lastError
    completedAt:=if cancelRequested then some now else none}))

def PlanResolutionDecision.outcome : PlanResolutionDecision → PlanResolutionOutcome
  | .resume => .resumed
  | .compensate => .compensating
  | .cancel => .cancelled

def resolveDecisionTx (encoding : StoreEncoding) (tx : PlanTx) (plan : PlanSpec) (request : ResolutionRequest)
    (now : Time) : Except QueueError PlanTx :=
  match request.decision with
  | .resume => resumeUnknownTx encoding tx plan request.idempotencyKey now
  | .compensate => compensateUnknownTx encoding tx plan request.idempotencyKey now
  | .cancel => cancelUnknownTx encoding tx plan request.idempotencyKey now

def resolvedTask (s : QueueStore) (plan : PlanSpec) (decision : PlanResolutionDecision) (now : Time) :
    Except QueueError QueueStore :=
  match decision with
  | .resume | .compensate => updateTaskForResolution s plan .queued false none now
  | .cancel =>
    updateTaskForResolution s plan .cancelled true (some "plano unknown cancelado por operador") now

-- The clock is read anew for every row written; the readings are only stored,
-- so one instant stands for them.
def resolvePlanUnknown (encoding : StoreEncoding) (s : QueueStore) (request : ResolutionRequest)
    (now : Time) : Except QueueError (PlanResolutionOutcome × QueueStore) := do
  validateResolution request
  let plan ← loadPlan encoding s request.planId request.principal.tenantId
  let reference ← PlanTaskReference.new plan.planId plan.revision plan.digest
  let tx ← s.beginPlan encoding reference
  match tx.rows.transitions.find? fun transition => transition.idempotencyKey == request.idempotencyKey with
  | some existing =>
    require (existing.toState = .plan request.decision.target) .idempotencyConflict
    pure (.existing,s)
  | none =>
    require (tx.rows.state = .unknown) (.invalidInput "resolução exige plano em unknown")
    let tx ← resolveDecisionTx encoding tx plan request now
    -- the update of the task precedes the checkpoint; they touch different tables
    let tx ← insertCheckpointTx tx none .resolution
      (if request.decision = .cancel then .failed else .succeeded) request.evidenceDigest now
    let s ← resolvedTask (s.storePlan (reference.planId,reference.revision) tx) plan request.decision now
    pure (request.decision.outcome,s)

end Shaka.Queue
