import Shaka.Queue.Resolution

namespace Shaka.Queue
open Shaka.Core CheckedSteps

-- The database as the separate autocommit reads of one inspection see it: the
-- plan row, then state, transitions, checkpoints and steps of the reducer.
structure Snapshots where
  plan : QueueStore
  state : QueueStore
  transitions : QueueStore
  checkpoints : QueueStore
  steps : QueueStore

def Snapshots.same (s : QueueStore) : Snapshots := ⟨s,s,s,s,s⟩

structure PlanReducerRows where
  transitions : List PlanStoreTransition
  checkpoints : List PlanCheckpoint
  planState : PlanState
  stepStates : StepStates
  deriving DecidableEq, Repr

def readPlanState (s : QueueStore) (key : PlanKey) (tenantId : TenantId) : Except QueueError PlanState := do
  let rows ← orFail ((s.plans.lookup key).filter fun rows => rows.tenantId == tenantId)
    (.sqlite .queryReturnedNoRows)
  pure rows.state

def readTransitions (s : QueueStore) (key : PlanKey) : List PlanStoreTransition :=
  ((s.plans.lookup key).map (·.transitions)).getD []

def readCheckpoints (s : QueueStore) (key : PlanKey) : List PlanCheckpoint :=
  ((s.plans.lookup key).map (·.checkpoints)).getD []

def readStepStates (s : QueueStore) (key : PlanKey) : Except QueueError StepStates :=
  match s.plans.lookup key with
  | some rows => loadStepStatesTx rows
  | none => pure []

def loadReducerRows (view : Snapshots) (key : PlanKey) (tenantId : TenantId) :
    Except QueueError PlanReducerRows := do
  let planState ← readPlanState view.state key tenantId
  let stepStates ← readStepStates view.steps key
  pure ⟨readTransitions view.transitions key,readCheckpoints view.checkpoints key,planState,stepStates⟩

-- The loop of `inspect_plan` and of `resume_plan`.
def diagnose (encoding : StoreEncoding) (plan : PlanSpec) (rows : PlanReducerRows) : Option Inconsistency :=
  match replayTransitions encoding plan rows.transitions with
  | .error fault => some fault
  | .ok cursor =>
    if cursor.state ≠ ⟨rows.planState,rows.stepStates⟩ then some .snapshot
    else if checkCheckpointSequence rows.checkpoints then none
    else some .checkpoints

inductive PlanInspectionIssue where
  | transitionChainInvalid
  | reducerDiverged
  | checkpointSequenceInvalid
  deriving DecidableEq, Repr

def Inconsistency.issue : Inconsistency → PlanInspectionIssue
  | .chain => .transitionChainInvalid
  | .reducer _ | .snapshot => .reducerDiverged
  | .checkpoints => .checkpointSequenceInvalid

inductive PlanInspectionStatus where
  | stable
  | inconsistent
  deriving DecidableEq, Repr

structure PlanInspectionReport where
  plan : PlanSpec
  stepStates : StepStates
  status : PlanInspectionStatus
  issue : Option PlanInspectionIssue
  checkpointsChecked : Nat
  transitionsChecked : Nat
  deriving DecidableEq, Repr

def inspectSnapshots (encoding : StoreEncoding) (view : Snapshots) (tenantId : TenantId) (planId : PlanId) :
    Except QueueError PlanInspectionReport := do
  let plan ← loadPlan encoding view.plan planId tenantId
  let rows ← loadReducerRows view (planId,plan.revision) tenantId
  let fault := diagnose encoding plan rows
  pure ⟨{plan with state:=rows.planState},rows.stepStates,
    if fault.isNone then .stable else .inconsistent,fault.map Inconsistency.issue,
    rows.checkpoints.length,rows.transitions.length⟩

def inspectPlan (encoding : StoreEncoding) (s : QueueStore) (tenantId : TenantId) (planId : PlanId) :
    Except QueueError PlanInspectionReport :=
  inspectSnapshots encoding (.same s) tenantId planId

def safeError : QueueError → String
  | .invalidInput detail | .notFound detail => String.ofList (detail.toList.take 160)
  | _ => "falha na reconstrução do reducer"

def Inconsistency.reason : Inconsistency → String
  | .chain => "cadeia de transições inválida"
  | .reducer error => safeError error
  | .snapshot => "snapshot do reducer diverge da cadeia"
  | .checkpoints => "sequência de checkpoints inválida"

inductive PlanResumeStatus where
  | stable
  | recoveredUnknown
  | inconsistent
  deriving DecidableEq, Repr

structure PlanResumeReport where
  plan : PlanSpec
  stepStates : StepStates
  status : PlanResumeStatus
  checkpointsChecked : Nat
  transitionsChecked : Nat
  inconsistency : Option String
  deriving DecidableEq, Repr

def isActivePlan : PlanState → Bool
  | .running | .cancelRequested | .compensating => true
  | _ => false

def isActiveStep : PlanStepState → Bool
  | .running | .cancelRequested | .compensating => true
  | _ => false

def activeSteps (states : StepStates) : StepStates := states.filter fun entry => isActiveStep entry.2

-- The raw `UPDATE .. SET state = 'unknown'` of the plan and of its active steps.
def overwriteUnknown (rows : PlanRows) : PlanRows :=
  (activeSteps rows.stepStates).foldl (fun rows entry =>
    rows.setStep entry.1 .unknown) {rows with state:=.unknown}

-- A recovery transition is inserted with the states it is given: the reducer
-- does not check it.
def insertRecoveryTransitionTx (encoding : StoreEncoding) (tx : PlanTx) (plan : PlanSpec)
    (entity : PlanTransitionEntity) (entityId : Option PlanStepId) (origin target : PlanTransitionState)
    (idempotencyKey : Nat → String) (now : Time) : Except QueueError PlanTx := do
  let last := lastTransitionTx tx.rows
  let sequence := match last with | some row => row.1 + 1 | none => 1
  let transition ← PlanStoreTransition.new encoding {
    transitionId:=tx.nextUuid
    planId:=plan.planId
    revision:=plan.revision
    sequence:=sequence
    entity:=entity
    entityId:=entityId
    fromState:=origin
    toState:=target
    idempotencyKey:=idempotencyKey sequence
    previousHash:=last.map (·.2)
    createdAt:=now}
  let rows ← insertTransitionTx encoding tx.rows transition
  pure ⟨rows,tx.nextUuid + 1⟩

def insertStepRecovery (encoding : StoreEncoding) (plan : PlanSpec) (now : Time) (tx : PlanTx)
    (entry : PlanStepId × PlanStepState) : Except QueueError PlanTx :=
  insertRecoveryTransitionTx encoding tx plan .step (some entry.1) (.step entry.2) (.step .unknown)
    (fun sequence => s!"recovery:step:{entry.1.text}:{sequence}") now

def appendRecoveryTransitionsTx (encoding : StoreEncoding) (tx : PlanTx) (plan : PlanSpec)
    (planState : PlanState) (active : StepStates) (now : Time) : Except QueueError PlanTx := do
  let tx ← stepIf (planState ≠ .unknown)
    (insertRecoveryTransitionTx encoding tx plan .plan none (.plan planState) (.plan .unknown)
      (fun sequence => s!"recovery:plan:{sequence}") now) tx
  foldEach (insertStepRecovery encoding plan now) tx active

def appendCheckpoint (rows : PlanRows) (digest : String) (now : Time) : PlanRows :=
  {rows with checkpoints:=rows.checkpoints ++
    [⟨nextCheckpointSequenceTx rows,none,.recovery,.unknown,some digest,now⟩]}

def recoverUnknownTx (encoding : StoreEncoding) (tx : PlanTx) (plan : PlanSpec) (planState : PlanState)
    (active : StepStates) (now : Time) : Except QueueError PlanTx :=
  if tx.rows.state = .unknown then .ok tx
  else do
    require (tx.rows.state = planState) (.invalidInput "plano mudou durante o recovery")
    require (activeSteps tx.rows.stepStates = active)
      (.invalidInput "etapas ativas mudaram durante o recovery")
    let tx ← appendRecoveryTransitionsTx encoding tx plan planState active now
    pure {tx with rows:=appendCheckpoint (overwriteUnknown tx.rows) plan.digest now}

def forceUnknownTx (tx : PlanTx) (now : Time) : PlanTx :=
  let rows := {overwriteUnknown tx.rows with rawOverwrites:=tx.rows.rawOverwrites + 1}
  if rows.checkpoints.any fun checkpoint =>
    checkpoint.phase == .recovery && checkpoint.status == .unknown then
    {tx with rows:=rows}
  else {tx with rows:=appendCheckpoint rows rows.digest now}

-- The plan as a report shows it after the recovery was committed: the plan is
-- loaded anew, its steps are read at the revision that was recovered.
def recoveredReport (encoding : StoreEncoding) (s : QueueStore) (tenantId : TenantId) (key : PlanKey)
    (status : PlanResumeStatus) (rows : PlanReducerRows) (inconsistency : Option String) :
    Except QueueError PlanResumeReport := do
  let plan ← loadPlan encoding s key.1 tenantId
  let current ← loadReducerRows (.same s) key tenantId
  pure ⟨plan,current.stepStates,status,rows.checkpoints.length + 1,rows.transitions.length,inconsistency⟩

-- What the reads of `resume_plan` make it do.
inductive ResumeVerdict where
  | quarantine (reason : Inconsistency)
  | recover (active : StepStates)
  | stable
  deriving DecidableEq, Repr

def resumeVerdict (encoding : StoreEncoding) (plan : PlanSpec) (rows : PlanReducerRows) : ResumeVerdict :=
  match diagnose encoding plan rows with
  | some fault => .quarantine fault
  | none =>
    if isActivePlan rows.planState = true ∨ activeSteps rows.stepStates ≠ [] then
      .recover (activeSteps rows.stepStates)
    else .stable

def readForResume (encoding : StoreEncoding) (view : Snapshots) (tenantId : TenantId) (planId : PlanId) :
    Except QueueError (PlanSpec × PlanReducerRows) := do
  let plan ← loadPlan encoding view.plan planId tenantId
  let rows ← loadReducerRows view (planId,plan.revision) tenantId
  pure (plan,rows)

-- `resume_plan`, reading through `view` and then writing in one transaction on
-- `s`. The report is read after that transaction is committed.
def resumeSnapshots (encoding : StoreEncoding) (view : Snapshots) (s : QueueStore) (tenantId : TenantId)
    (planId : PlanId) (now : Time) : Except QueueError PlanResumeReport × QueueStore :=
  match readForResume encoding view tenantId planId with
  | .error error => (.error error,s)
  | .ok (plan,rows) =>
    let key : PlanKey := (planId,plan.revision)
    match resumeVerdict encoding plan rows with
    | .quarantine fault =>
      match s.plans.lookup key with
      | none => (recoveredReport encoding s tenantId key .inconsistent rows (some fault.reason),s)
      | some stored =>
        let s := s.storePlan key (forceUnknownTx ⟨stored,s.nextUuid⟩ now)
        (recoveredReport encoding s tenantId key .inconsistent rows (some fault.reason),s)
    | .recover active =>
      match s.plans.lookup key with
      | none => (.error (.sqlite .queryReturnedNoRows),s)
      | some stored => match recoverUnknownTx encoding ⟨stored,s.nextUuid⟩ plan rows.planState active now with
        | .error error => (.error error,s)
        | .ok tx =>
          let s := s.storePlan key tx
          (recoveredReport encoding s tenantId key .recoveredUnknown rows none,s)
    | .stable => (.ok ⟨{plan with state:=rows.planState},rows.stepStates,.stable,rows.checkpoints.length,
        rows.transitions.length,none⟩,s)

def resumePlan (encoding : StoreEncoding) (s : QueueStore) (tenantId : TenantId) (planId : PlanId)
    (now : Time) : Except QueueError PlanResumeReport × QueueStore :=
  resumeSnapshots encoding (.same s) s tenantId planId now

end Shaka.Queue
