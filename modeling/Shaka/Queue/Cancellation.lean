import Shaka.Queue.Finish

namespace Shaka.Queue
open Shaka.Core CheckedSteps

def isUnstarted : PlanStepState → Bool
  | .pending | .ready | .awaitingApproval => true
  | _ => false

def cancelStep (encoding : StoreEncoding) (plan : PlanSpec) (now : Time) (tx : PlanTx)
    (entry : PlanStepId × PlanStepState) : Except QueueError PlanTx :=
  appendStepTransitionTx encoding tx plan entry.1 entry.2 .cancelled s!"cancel:step:{entry.1.text}" now

def cancelPlannedTaskTx (encoding : StoreEncoding) (tx : PlanTx) (task : TaskRecord)
    (reference : PlanTaskReference) (now : Time) : Except QueueError PlanTx := do
  let plan ← loadPlanTx encoding tx.rows task.tenantId reference
  require (plan.state ≠ .unknown ∧ plan.state ≠ .compensating)
    (.invalidInput "cancelamento planejado exige resolução da fronteira atual")
  if task.status = .queued then do
    let tx ← stepIf (plan.state = .approved ∨ plan.state = .running)
      (appendPlanTransitionTx encoding tx plan plan.state .cancelRequested "cancel:plan:requested" now) tx
    let states ← loadStepStatesTx tx.rows
    let tx ← foldEach (cancelStep encoding plan now) tx (states.filter fun entry => isUnstarted entry.2)
    stepIf (tx.rows.state = .cancelRequested)
      (appendPlanTransitionTx encoding tx plan .cancelRequested .cancelled "cancel:plan:completed" now) tx
  else
    stepIf (task.status = .running ∧ plan.state = .running)
      (appendPlanTransitionTx encoding tx plan .running .cancelRequested "cancel:plan:requested" now) tx

-- The status and completion columns that a cancel request writes.
def cancelRow (now : Time) (row : TaskRecord) : TaskRecord :=
  let row := {row with cancelRequested:=true,updatedAt:=now}
  match row.status with
  | .queued => {row with status:=.cancelled,completedAt:=some now}
  | .running | .cancelRequested => {row with status:=.cancelRequested,completedAt:=none}
  | .succeeded | .failed | .cancelled => row

def cancelPlanOf (encoding : StoreEncoding) (s : QueueStore) (task : TaskRecord) (now : Time) :
    Except QueueError QueueStore := do
  let reference ← taskReference task
  let tx ← s.beginPlan encoding reference
  let tx ← cancelPlannedTaskTx encoding tx task reference now
  pure (s.storePlan (reference.planId,reference.revision) tx)

def requestCancel (encoding : StoreEncoding) (s : QueueStore) (taskId : TaskId) (tenantId : TenantId)
    (now : Time) : Except QueueError (TaskRecord × QueueStore) := do
  let task ← loadTask encoding s taskId tenantId
  if task.status.isTerminal then pure (task,s)
  else do
    let s ← stepIf (task.planId.isSome = true) (cancelPlanOf encoding s task now) s
    let s := s.updateTask (taskUpdate task (cancelRow now))
    let updated ← loadTask encoding s taskId tenantId
    pure (updated,s)

def recoverExpiredPlanLeaseTx (encoding : StoreEncoding) (tx : PlanTx) (task : TaskRecord)
    (reference : PlanTaskReference) (now : Time) : Except QueueError (PlanTx × TaskUpdate) := do
  let plan ← loadPlanTx encoding tx.rows task.tenantId reference
  let tx ← markPlanUnknownTx encoding tx plan task.planStepId none now
  let status := if task.cancelRequested then TaskStatus.cancelled else TaskStatus.failed
  pure (tx,taskUpdate task fun row => unbindStep {releaseRow status now row with
    completedAt:=some now,lastError:=some "lease planejada expirada; estado requer resolução"})

-- The lease of a task without a plan expires.
def recoverDirect (task : TaskRecord) (now : Time) : TaskUpdate :=
  taskUpdate task fun row =>
    if row.cancelRequested then {releaseRow .cancelled now row with completedAt:=some now}
    else releaseRow .queued now row

def recoverCandidate (encoding : StoreEncoding) (now : Time) (s : QueueStore) (candidate : TaskRecord) :
    Except QueueError QueueStore := do
  let tenantId ← liftCore (TenantId.new candidate.tenantId.text)
  let task ← loadTask encoding s candidate.taskId tenantId
  if task.planId.isSome then do
    let reference ← taskReference task
    let tx ← s.beginPlan encoding reference
    let (tx,update) ← recoverExpiredPlanLeaseTx encoding tx task reference now
    pure ((s.storePlan (reference.planId,reference.revision) tx).updateTask update)
  else pure (s.updateTask (recoverDirect task now))

def isExpired (now : Time) (task : TaskRecord) : Bool :=
  task.status.isLeased && decide (∃ leaseUntil ∈ task.leaseUntil, leaseUntil ≤ now)

-- `ORDER BY updated_at ASC LIMIT 128`
def recoveryCandidates (s : QueueStore) (now : Time) : List TaskRecord :=
  ((s.taskRows.filter (isExpired now)).insertionSort fun left right =>
    left.updatedAt ≤ right.updatedAt).take 128

def recoverExpiredLeases (encoding : StoreEncoding) (s : QueueStore) (now : Time) :
    Except QueueError (Nat × QueueStore) := do
  let candidates := recoveryCandidates s now
  let s ← foldEach (recoverCandidate encoding now) s candidates
  pure (candidates.length,s)

end Shaka.Queue
