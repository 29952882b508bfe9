import Shaka.Queue.Records
import Shaka.Library.LinkedJournal

namespace Shaka.Queue
open Shaka.Core CheckedSteps

-- Reads of one plan inside a transaction.

def loadPlanTx (encoding : StoreEncoding) (rows : PlanRows) (tenantId : TenantId)
    (reference : PlanTaskReference) : Except QueueError PlanSpec := do
  require (rows.tenantId = tenantId) (.notFound s!"plan {encoding.uuidText reference.planId.uuid}")
  require (rows.digest = reference.digest)
    (.invalidInput "digest da task não corresponde ao plano persistido")
  let plan := {rows.plan with state:=rows.state}
  require (plan.planId = reference.planId ∧ plan.revision = reference.revision ∧
      plan.tenantId = tenantId ∧ plan.digest = reference.digest)
    (.invalidInput "referência da task não corresponde ao snapshot do plano")
  liftCore plan.validateStructure
  liftCore (plan.verifyDigest encoding.toEncoding)
  pure plan

def loadApprovalsTx (rows : PlanRows) (plan : PlanSpec) : List PlanApproval :=
  ((rows.approvals.filter fun row =>
      row.approval.tenantId == plan.tenantId && !row.approval.revoked).insertionSort fun left right =>
    left.createdAt ≤ right.createdAt).map (·.approval)

def loadStepStatesTx (rows : PlanRows) : Except QueueError StepStates := do
  checkEach (fun stepId => liftCore (validatePlanKey stepId.text "step_id")) rows.sortedStepIds
  pure rows.stepStates

def lastTransitionTx (rows : PlanRows) : Option (Nat × String) :=
  rows.transitions.getLast?.map fun transition => (transition.sequence,transition.eventHash)

def nextCheckpointSequenceTx (rows : PlanRows) : Nat :=
  match rows.checkpoints.getLast? with
  | some checkpoint => checkpoint.sequence + 1
  | none => 1

-- Writes: the reducer, the journal and the checkpoints.

def applyTransitionTx (rows : PlanRows) (transition : PlanStoreTransition) : Except QueueError PlanRows :=
  match transition.entity,transition.fromState,transition.toState with
  | .plan,.plan origin,.plan target => do
    require (rows.state = origin) (.invalidInput "estado atual do plano não corresponde à transição")
    liftCore (origin.validateTransition target)
    pure {rows with state:=target}
  | .step,.step origin,.step target => do
    let stepId ← orFail transition.entityId (.invalidInput "transição de etapa sem step_id")
    let current ← orFail (rows.stepState stepId) (.sqlite .queryReturnedNoRows)
    require (current = origin) (.invalidInput "estado atual da etapa não corresponde à transição")
    liftCore (origin.validateTransition target)
    pure (rows.setStep stepId target)
  | _,_,_ => .error (.invalidInput "entidade e estados da transição não correspondem")

-- The new sequence exceeds every stored one, so only the key can be taken.
def insertTransitionTx (encoding : StoreEncoding) (rows : PlanRows) (transition : PlanStoreTransition) :
    Except QueueError PlanRows := do
  transition.verifyHash encoding
  require (transition.idempotencyKey ∉ rows.transitions.map (·.idempotencyKey)) (.sqlite .uniqueTransitionKey)
  pure {rows with transitions:=rows.transitions ++ [transition]}

def appendTransitionTx (encoding : StoreEncoding) (tx : PlanTx) (plan : PlanSpec)
    (entity : PlanTransitionEntity) (entityId : Option PlanStepId) (origin target : PlanTransitionState)
    (idempotencyKey : String) (now : Time) : Except QueueError PlanTx := do
  let last := lastTransitionTx tx.rows
  let transition ← PlanStoreTransition.new encoding {
    transitionId:=tx.nextUuid
    planId:=plan.planId
    revision:=plan.revision
    sequence:=match last with | some row => row.1 + 1 | none => 1
    entity:=entity
    entityId:=entityId
    fromState:=origin
    toState:=target
    idempotencyKey:=idempotencyKey
    previousHash:=last.map (·.2)
    createdAt:=now}
  let rows ← applyTransitionTx tx.rows transition
  let rows ← insertTransitionTx encoding rows transition
  pure ⟨rows,tx.nextUuid + 1⟩

def appendPlanTransitionTx (encoding : StoreEncoding) (tx : PlanTx) (plan : PlanSpec)
    (origin target : PlanState) (idempotencyKey : String) (now : Time) : Except QueueError PlanTx :=
  appendTransitionTx encoding tx plan .plan none (.plan origin) (.plan target) idempotencyKey now

def appendStepTransitionTx (encoding : StoreEncoding) (tx : PlanTx) (plan : PlanSpec) (stepId : PlanStepId)
    (origin target : PlanStepState) (idempotencyKey : String) (now : Time) : Except QueueError PlanTx :=
  appendTransitionTx encoding tx plan .step (some stepId) (.step origin) (.step target) idempotencyKey now

def insertCheckpointTx (tx : PlanTx) (stepId : Option PlanStepId) (phase : PlanCheckpointPhase)
    (status : PlanCheckpointStatus) (stateDigest : Option String) (createdAt : Time) :
    Except QueueError PlanTx := do
  checkOption (validateSha256 · "state_digest") stateDigest
  let checkpoint : PlanCheckpoint :=
    ⟨nextCheckpointSequenceTx tx.rows,stepId,phase,status,stateDigest,createdAt⟩
  pure {tx with rows:={tx.rows with checkpoints:=tx.rows.checkpoints ++ [checkpoint]}}

-- The plan half of `mark_plan_unknown_tx`; its last branch is the raw `UPDATE`.
def markPlanStateUnknownTx (encoding : StoreEncoding) (tx : PlanTx) (plan : PlanSpec) (now : Time) :
    Except QueueError PlanTx :=
  if tx.rows.state = .unknown then .ok tx
  else if tx.rows.state.permits .unknown then
    appendPlanTransitionTx encoding tx plan tx.rows.state .unknown
      s!"recovery:plan:unknown:{encoding.rfc3339 now}" now
  else .ok {tx with rows:={tx.rows with state:=.unknown,rawOverwrites:=tx.rows.rawOverwrites + 1}}

def markStepStateUnknownTx (encoding : StoreEncoding) (tx : PlanTx) (plan : PlanSpec)
    (stepId : PlanStepId) (now : Time) : Except QueueError PlanTx :=
  match tx.rows.stepState stepId with
  | none => .ok tx
  | some current =>
    if current = .unknown then .ok tx
    else if current.permits .unknown then
      appendStepTransitionTx encoding tx plan stepId current .unknown
        s!"recovery:step:{stepId.text}:unknown:{encoding.rfc3339 now}" now
    else .ok {tx with rows:={tx.rows.setStep stepId .unknown with
      rawOverwrites:=tx.rows.rawOverwrites + 1}}

def markNamedStepUnknownTx (encoding : StoreEncoding) (tx : PlanTx) (plan : PlanSpec)
    (stepId : Option PlanStepId) (now : Time) : Except QueueError PlanTx :=
  match stepId with
  | some stepId => markStepStateUnknownTx encoding tx plan stepId now
  | none => .ok tx

def markPlanUnknownTx (encoding : StoreEncoding) (tx : PlanTx) (plan : PlanSpec)
    (stepId : Option PlanStepId) (stateDigest : Option String) (now : Time) : Except QueueError PlanTx := do
  let tx ← markPlanStateUnknownTx encoding tx plan now
  let tx ← markNamedStepUnknownTx encoding tx plan stepId now
  insertCheckpointTx tx stepId .recovery .unknown stateDigest now

-- The reducer replayed over stored transitions.

structure ReducerState where
  plan : PlanState
  steps : StepStates
  deriving DecidableEq, Repr

def setStepState (states : StepStates) (stepId : PlanStepId) (state : PlanStepState) : StepStates :=
  states.map fun entry => if entry.1 = stepId then (entry.1,state) else entry

def applyTransitionState (reducer : ReducerState) (transition : PlanStoreTransition) :
    Except QueueError ReducerState :=
  match transition.entity,transition.fromState,transition.toState with
  | .plan,.plan origin,.plan target => do
    require (reducer.plan = origin) (.invalidInput "transição incompatível com o reducer")
    liftCore (origin.validateTransition target)
    pure {reducer with plan:=target}
  | .step,.step origin,.step target => do
    let stepId ← orFail transition.entityId (.invalidInput "transição de etapa sem step_id")
    let current ← orFail (reducer.steps.lookup stepId) (.notFound s!"step {stepId.text}")
    require (current = origin) (.invalidInput "cadeia de etapas diverge no estado de origem")
    liftCore (origin.validateTransition target)
    pure {reducer with steps:=setStepState reducer.steps stepId target}
  | _,_,_ => .error (.invalidInput "transição incompatível com o reducer")

def PlanRows.reducer (rows : PlanRows) : ReducerState := ⟨rows.state,rows.stepStates⟩

-- `PlanState::Draft` and all steps `Pending`, the state every replay starts from.
def initialReducer (plan : PlanSpec) : ReducerState :=
  ⟨.draft,(plan.stepIds.insertionSort PlanStepId.le).map fun stepId => (stepId,.pending)⟩

def checkCheckpointSequence (checkpoints : List PlanCheckpoint) : Bool :=
  checkpoints.zipIdx.all fun (checkpoint,index) => checkpoint.sequence == index + 1

-- Why a stored plan is not what its journal says.
inductive Inconsistency where
  | chain
  | reducer (error : QueueError)
  | snapshot
  | checkpoints
  deriving DecidableEq, Repr

-- Numbering, hash chain and reducer of the transitions of a plan.
def transitionJournal (encoding : StoreEncoding) :
    LinkedJournal.Discipline ReducerState PlanStoreTransition String Inconsistency where
  number := fun transition => transition.sequence
  previous := fun transition => transition.previousHash
  digest := fun transition => transition.eventHash
  sealed := fun transition => (transition.verifyHash encoding).isOk
  apply := fun reducer transition => (applyTransitionState reducer transition).mapError .reducer

def replayTransitions (encoding : StoreEncoding) (plan : PlanSpec) (transitions : List PlanStoreTransition) :
    Except Inconsistency (LinkedJournal.Cursor ReducerState String) :=
  LinkedJournal.scan (transitionJournal encoding) .chain (initialReducer plan) transitions

end Shaka.Queue
