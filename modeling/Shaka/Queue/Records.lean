import Shaka.Core.PlanVerifier
import Mathlib.Data.List.AList

namespace Shaka.Queue
open Shaka.Core CheckedSteps

-- The refusals of the database that the store can meet.
inductive SqliteError where
  | queryReturnedNoRows
  | uniqueTransitionKey
  | uniquePlan
  | uniqueStep
  | uniqueApproval
  | uniqueTask
  | integerOutOfRange
  deriving DecidableEq, Repr

inductive QueueError where
  | sqlite (error : SqliteError)
  | core (error : CoreError)
  | invalidInput (detail : String)
  | notFound (detail : String)
  | idempotencyConflict
  | unauthorized
  | forbidden
  | quotaExceeded (limit : String)
  | rateLimited (retryAfterSeconds : Nat)
  | leaseLost
  deriving DecidableEq, Repr

-- The `?` that turns an error of the core into one of the queue.
def liftCore {α : Type} (result : Except CoreError α) : Except QueueError α := result.mapError .core

@[simp] theorem liftCore_ok {α : Type} {result : Except CoreError α} {a : α} :
    liftCore result = .ok a ↔ result = .ok a :=
  mapError_ok

@[simp] theorem liftCore_error {α : Type} {result : Except CoreError α} {error : QueueError} :
    liftCore result = .error error ↔ ∃ e, result = .error e ∧ .core e = error := mapError_error

def validateKey (value field : String) (maxLen : Nat) : Except QueueError Unit :=
  require (blank value = false ∧ value.utf8ByteSize ≤ maxLen)
    (.invalidInput s!"{field} vazio ou maior que {maxLen} caracteres")

def validateSha256 (value field : String) : Except QueueError Unit :=
  require (isSha256Text value = true) (.invalidInput s!"{field} deve ser SHA-256 hexadecimal")

def maxU32 : Nat := 4294967295

inductive TaskStatus where
  | queued
  | running
  | succeeded
  | failed
  | cancelRequested
  | cancelled
  deriving DecidableEq, Repr

def TaskStatus.isTerminal : TaskStatus → Bool
  | .succeeded | .failed | .cancelled => true
  | _ => false

-- A worker holds the lease of a task exactly in these two states.
def TaskStatus.isLeased : TaskStatus → Bool
  | .running | .cancelRequested => true
  | _ => false

structure LeaseToken where
  uuid : Uuid
  deriving DecidableEq, Repr

-- One row of `api_tasks`; the result is kept as its JSON text.
structure TaskRecord where
  taskId : TaskId
  sessionId : Uuid
  tenantId : TenantId
  idempotencyKey : String
  requestFingerprint : String
  envelope : TaskEnvelope
  status : TaskStatus
  priority : Int
  attempts : Nat
  maxAttempts : Nat
  nextAttemptAt : Time
  cancelRequested : Bool
  leaseUntil : Option Time
  leaseToken : Option LeaseToken
  planExecutionScope : Option PlanExecutionScope
  result : Option String
  lastError : Option String
  createdAt : Time
  updatedAt : Time
  completedAt : Option Time
  planId : Option PlanId
  planRevision : Option Nat
  planDigest : Option String
  planStepId : Option PlanStepId
  deriving DecidableEq, Repr

structure PlanTaskReference where
  planId : PlanId
  revision : Nat
  digest : String
  deriving DecidableEq, Repr

def PlanTaskReference.new (planId : PlanId) (revision : Nat) (digest : String) :
    Except QueueError PlanTaskReference := do
  require (revision ≠ 0) (.invalidInput "revisão do plano deve ser maior que zero")
  validateSha256 digest "plan_digest"
  pure ⟨planId,revision,digest⟩

def taskReference (task : TaskRecord) : Except QueueError PlanTaskReference :=
  match task.planId,task.planRevision,task.planDigest with
  | some planId,some revision,some digest => PlanTaskReference.new planId revision digest
  | _,_,_ => .error (.invalidInput "task planejada sem referência completa")

structure PlanClaimContext where
  circuitClosed : Bool
  grantedCapabilities : List Capability
  remainingBudget : Option ExecutionBudget
  stateDigest : Option String
  deriving DecidableEq, Repr

def PlanClaimContext.default : PlanClaimContext := ⟨false,[],none,none⟩

inductive PlanCheckpointPhase where
  | preflight
  | approval
  | resolution
  | beforeStep
  | afterStep
  | compensation
  | recovery
  deriving DecidableEq, Repr

inductive PlanCheckpointStatus where
  | pending
  | succeeded
  | failed
  | unknown
  deriving DecidableEq, Repr

inductive PlanTransitionEntity where
  | plan
  | step
  deriving DecidableEq, Repr

inductive PlanTransitionState where
  | plan (state : PlanState)
  | step (state : PlanStepState)
  deriving DecidableEq, Repr

structure TransitionHashMaterial where
  transitionId : Uuid
  planId : PlanId
  revision : Nat
  sequence : Nat
  entity : PlanTransitionEntity
  entityId : Option PlanStepId
  fromState : PlanTransitionState
  toState : PlanTransitionState
  idempotencyKey : String
  previousHash : Option String
  createdAt : Time
  deriving DecidableEq, Repr

structure PlanStoreTransition extends TransitionHashMaterial where
  eventHash : String
  deriving DecidableEq, Repr

structure StoreEncoding extends Encoding where
  transitionJson : TransitionHashMaterial → String

def PlanStoreTransition.calculateHash (encoding : StoreEncoding) (material : TransitionHashMaterial) :
    String :=
  encoding.sha256Hex (encoding.transitionJson material)

def PlanStoreTransition.verifyHash (encoding : StoreEncoding) (transition : PlanStoreTransition) :
    Except QueueError Unit :=
  require (transition.eventHash = calculateHash encoding transition.toTransitionHashMaterial)
    (.invalidInput "hash de transição não corresponde ao conteúdo")

def validateTransitionShape (entity : PlanTransitionEntity) (entityId : Option PlanStepId)
    (fromState toState : PlanTransitionState) : Except QueueError Unit :=
  match entity,entityId,fromState,toState with
  | .plan,none,.plan _,.plan _ => .ok ()
  | .step,some _,.step _,.step _ => .ok ()
  | _,_,_,_ => .error (.invalidInput "entidade, identificador e estados incompatíveis")

def PlanStoreTransition.new (encoding : StoreEncoding) (material : TransitionHashMaterial) :
    Except QueueError PlanStoreTransition := do
  validateKey material.idempotencyKey "idempotency_key" 256
  require (material.sequence ≠ 0 ∧ material.revision ≠ 0)
    (.invalidInput "sequence e revision devem ser maiores que zero")
  validateTransitionShape material.entity material.entityId material.fromState material.toState
  pure ⟨material,calculateHash encoding material⟩

structure PlanCheckpoint where
  sequence : Nat
  stepId : Option PlanStepId
  phase : PlanCheckpointPhase
  status : PlanCheckpointStatus
  stateDigest : Option String
  createdAt : Time
  deriving DecidableEq, Repr

-- One row of `plan_steps`; the JSON columns are written and never read.
structure PlanStepRow where
  state : PlanStepState
  attempts : Nat
  maxAttempts : Nat
  compensationStepId : Option PlanStepId
  deriving DecidableEq, Repr

structure PlanApprovalRow where
  approval : PlanApproval
  createdAt : Time
  idempotencyKey : String
  deriving DecidableEq, Repr

-- All rows that one `(plan_id, revision)` owns. `plan` is `plan_json`, with the
-- state the plan had when it was saved; `state` is the column. Transitions and
-- checkpoints are kept in the order of their sequence. `rawOverwrites` is a
-- history variable: it counts the raw `UPDATE .. SET state = 'unknown'` that no
-- transition records, and nothing reads it.
structure PlanRows where
  tenantId : TenantId
  digest : String
  plan : PlanSpec
  state : PlanState
  steps : AList fun _ : PlanStepId => PlanStepRow
  transitions : List PlanStoreTransition
  checkpoints : List PlanCheckpoint
  approvals : List PlanApprovalRow
  rawOverwrites : Nat

abbrev StepStates := List (PlanStepId × PlanStepState)

def PlanRows.stepState (rows : PlanRows) (stepId : PlanStepId) : Option PlanStepState :=
  (rows.steps.lookup stepId).map (·.state)

def PlanRows.attemptsOf (rows : PlanRows) (stepId : PlanStepId) : Nat :=
  ((rows.steps.lookup stepId).map (·.attempts)).getD 0

-- `UPDATE plan_steps .. WHERE step_id = ?`
def PlanRows.updateStep (rows : PlanRows) (stepId : PlanStepId) (update : PlanStepRow → PlanStepRow) :
    PlanRows :=
  match rows.steps.lookup stepId with
  | none => rows
  | some row => {rows with steps:=rows.steps.insert stepId (update row)}

def PlanRows.setStep (rows : PlanRows) (stepId : PlanStepId) (state : PlanStepState) : PlanRows :=
  rows.updateStep stepId fun row => {row with state:=state}

def PlanRows.sortedStepIds (rows : PlanRows) : List PlanStepId :=
  rows.steps.keys.insertionSort PlanStepId.le

-- `SELECT step_id, state FROM plan_steps .. ORDER BY step_id ASC`
def PlanRows.stepStates (rows : PlanRows) : StepStates :=
  rows.sortedStepIds.filterMap fun stepId => (rows.stepState stepId).map fun state => (stepId,state)

-- A transaction on the rows of one plan: the rows and the supply of identifiers.
structure PlanTx where
  rows : PlanRows
  nextUuid : Uuid

end Shaka.Queue
