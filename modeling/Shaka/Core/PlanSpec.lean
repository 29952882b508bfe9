import Shaka.Core.Vocabulary
import Shaka.Library.CheckedSteps
import Mathlib.Data.List.Nodup

namespace Shaka.Core
open CheckedSteps

inductive PlanMode where
  | dryRun
  | live
  deriving DecidableEq, Repr

inductive PlanRisk where
  | readOnly
  | mutation
  | externalEffect
  | irreversible
  deriving DecidableEq, Repr

def PlanRisk.rank : PlanRisk → Nat
  | .readOnly => 0
  | .mutation => 1
  | .externalEffect => 2
  | .irreversible => 3

instance : LinearOrder PlanRisk :=
  LinearOrder.lift' PlanRisk.rank (by intro a b same; cases a <;> cases b <;> first | rfl | cases same)

inductive PlanApprovalRequirement where
  | none
  | reviewer
  | administrator
  deriving DecidableEq, Repr

def PlanApprovalRequirement.rank : PlanApprovalRequirement → Nat
  | .none => 0
  | .reviewer => 1
  | .administrator => 2

instance : LinearOrder PlanApprovalRequirement :=
  LinearOrder.lift' PlanApprovalRequirement.rank
    (by intro a b same; cases a <;> cases b <;> first | rfl | cases same)

theorem PlanApprovalRequirement.none_le (required : PlanApprovalRequirement) :
    PlanApprovalRequirement.none ≤ required := Nat.zero_le _

def PlanRisk.minimumApproval : PlanRisk → PlanApprovalRequirement
  | .readOnly => .none
  | .mutation => .reviewer
  | .externalEffect | .irreversible => .administrator

def PlanApprovalRequirement.allowsRole (required : PlanApprovalRequirement) (role : Role) : Bool :=
  match required with
  | .none => true
  | .reviewer => role == .reviewer || role == .administrator
  | .administrator => role == .administrator

inductive PlanState where
  | draft
  | proposed
  | validated
  | awaitingApproval
  | approved
  | running
  | paused
  | succeeded
  | failed
  | cancelRequested
  | cancelled
  | compensating
  | compensated
  | unknown
  | rejected
  deriving DecidableEq, Repr

-- The text that `{:?}` prints in the rejection message of a transition.
def PlanState.debug : PlanState → String
  | .draft => "Draft"
  | .proposed => "Proposed"
  | .validated => "Validated"
  | .awaitingApproval => "AwaitingApproval"
  | .approved => "Approved"
  | .running => "Running"
  | .paused => "Paused"
  | .succeeded => "Succeeded"
  | .failed => "Failed"
  | .cancelRequested => "CancelRequested"
  | .cancelled => "Cancelled"
  | .compensating => "Compensating"
  | .compensated => "Compensated"
  | .unknown => "Unknown"
  | .rejected => "Rejected"

def PlanState.isTerminal : PlanState → Bool
  | .succeeded | .failed | .cancelled | .compensated | .rejected => true
  | _ => false

def PlanState.permits : PlanState → PlanState → Bool
  | .draft,next => next == .proposed || next == .rejected
  | .proposed,next => next == .validated || next == .rejected
  | .validated,next => next == .awaitingApproval || next == .approved || next == .rejected
  | .awaitingApproval,next => next == .approved || next == .rejected
  | .approved,next => next == .running || next == .rejected || next == .cancelRequested
  | .running,next => next == .paused || next == .succeeded || next == .failed ||
      next == .cancelRequested || next == .compensating || next == .unknown
  | .paused,next => next == .running || next == .cancelRequested || next == .failed
  | .cancelRequested,next => next == .cancelled || next == .unknown || next == .compensating
  | .compensating,next => next == .compensated || next == .failed || next == .unknown
  | .unknown,next => next == .running || next == .failed || next == .compensating || next == .cancelled
  | .succeeded,_ | .failed,_ | .cancelled,_ | .compensated,_ | .rejected,_ => false

def PlanState.validateTransition (state next : PlanState) : Except CoreError Unit :=
  require (state.permits next = true)
    (.planInvalid s!"transição de plano inválida: {state.debug} -> {next.debug}")

inductive PlanStepState where
  | pending
  | ready
  | running
  | succeeded
  | failed
  | blocked
  | awaitingApproval
  | cancelRequested
  | cancelled
  | compensating
  | compensated
  | unknown
  deriving DecidableEq, Repr

def PlanStepState.debug : PlanStepState → String
  | .pending => "Pending"
  | .ready => "Ready"
  | .running => "Running"
  | .succeeded => "Succeeded"
  | .failed => "Failed"
  | .blocked => "Blocked"
  | .awaitingApproval => "AwaitingApproval"
  | .cancelRequested => "CancelRequested"
  | .cancelled => "Cancelled"
  | .compensating => "Compensating"
  | .compensated => "Compensated"
  | .unknown => "Unknown"

def PlanStepState.permits : PlanStepState → PlanStepState → Bool
  | .pending,next => next == .ready || next == .blocked || next == .cancelled
  | .ready,next => next == .running || next == .awaitingApproval || next == .blocked || next == .cancelled
  | .awaitingApproval,next => next == .ready || next == .blocked || next == .cancelled
  | .running,next => next == .succeeded || next == .failed || next == .cancelRequested ||
      next == .unknown || next == .compensating
  | .failed,next => next == .ready || next == .compensating || next == .unknown
  | .cancelRequested,next => next == .cancelled || next == .unknown
  | .compensating,next => next == .compensated || next == .failed || next == .unknown
  | .unknown,next => next == .ready || next == .failed || next == .compensating || next == .cancelled
  | .succeeded,next => next == .compensating
  | .blocked,_ | .cancelled,_ | .compensated,_ => false

def PlanStepState.validateTransition (state next : PlanStepState) : Except CoreError Unit :=
  require (state.permits next = true)
    (.planInvalid s!"transição de etapa inválida: {state.debug} -> {next.debug}")

-- A terminal state is exactly one that the reducer never leaves.
theorem isTerminal_exact (state : PlanState) :
    state.isTerminal = true ↔ ∀ next, state.permits next = false := by
  constructor
  · intro terminal next
    cases state <;> first | rfl | cases terminal
  · intro stuck
    cases state with
    | draft => exact absurd (stuck .proposed) (by decide)
    | proposed => exact absurd (stuck .validated) (by decide)
    | validated => exact absurd (stuck .approved) (by decide)
    | awaitingApproval => exact absurd (stuck .approved) (by decide)
    | approved => exact absurd (stuck .running) (by decide)
    | running => exact absurd (stuck .unknown) (by decide)
    | paused => exact absurd (stuck .running) (by decide)
    | cancelRequested => exact absurd (stuck .unknown) (by decide)
    | compensating => exact absurd (stuck .unknown) (by decide)
    | unknown => exact absurd (stuck .running) (by decide)
    | succeeded | failed | cancelled | compensated | rejected => rfl

inductive PlanTaskState where
  | queued
  | running
  | succeeded
  | failed
  | cancelled
  deriving DecidableEq, Repr

inductive PlanCondition where
  | taskStateIs (state : PlanTaskState)
  | stepSucceeded (stepId : PlanStepId)
  | approvalExists (stepId : Option PlanStepId)
  | capabilityGranted (capability : Capability)
  | circuitClosed
  | budgetRemainingAtLeast (budget : ExecutionBudget)
  | artifactDigestMatches (artifact sha256 : String)
  | idempotencyKeyUnused (keyRef : String)
  | stateDigestMatches (sha256 : String)
  deriving DecidableEq, Repr

def PlanCondition.validate : PlanCondition → Except CoreError Unit
  | .artifactDigestMatches artifact sha256 => do
    validatePlanKey artifact "artifact"
    validateSha256 sha256 "artifact sha256"
  | .idempotencyKeyUnused keyRef => validatePlanKey keyRef "key_ref"
  | .stateDigestMatches sha256 => validateSha256 sha256 "state sha256"
  | .stepSucceeded stepId | .approvalExists (some stepId) => validatePlanKey stepId.text "step_id"
  | .taskStateIs _ | .approvalExists none | .capabilityGranted _ | .circuitClosed
  | .budgetRemainingAtLeast _ => .ok ()

inductive PlanAction where
  | readOnly (operation : String)
  | mutation (operation : String)
  | executeTool (toolName : String)
  | externalEffect (operation : String)
  deriving DecidableEq, Repr

def PlanAction.validate : PlanAction → Except CoreError Unit
  | .readOnly operation | .mutation operation | .externalEffect operation =>
    validatePlanKey operation "operation"
  | .executeTool toolName => validatePlanKey toolName "tool_name"

def PlanAction.minimumRisk : PlanAction → PlanRisk
  | .readOnly _ => .readOnly
  | .mutation _ | .executeTool _ => .mutation
  | .externalEffect _ => .externalEffect

structure PlanExecutionScope where
  planId : PlanId
  stepId : PlanStepId
  action : PlanAction
  deriving DecidableEq, Repr

structure PlanStep where
  stepId : PlanStepId
  dependsOn : List PlanStepId
  action : PlanAction
  preconditions : List PlanCondition
  postconditions : List PlanCondition
  risk : PlanRisk
  approval : PlanApprovalRequirement
  maxAttempts : Nat
  compensationStepId : Option PlanStepId
  deriving DecidableEq, Repr

-- `step.approval.max(step.risk.minimum_approval())`
def PlanStep.requiredApproval (step : PlanStep) : PlanApprovalRequirement :=
  max step.approval step.risk.minimumApproval

def PlanStep.validate (step : PlanStep) : Except CoreError Unit := do
  validatePlanKey step.stepId.text "step_id"
  step.action.validate
  require (step.maxAttempts ≠ 0 ∧ step.maxAttempts ≤ 10)
    (.planInvalid s!"max_attempts inválido na etapa {step.stepId.text}")
  require (step.risk ≠ .irreversible) (.planInvalid "ações irreversíveis estão bloqueadas por default")
  require (step.action.minimumRisk ≤ step.risk)
    (.planInvalid s!"risco declarado menor que o risco da ação na etapa {step.stepId.text}")
  require (step.risk.minimumApproval ≤ step.approval)
    (.planInvalid s!"aprovação insuficiente na etapa {step.stepId.text}")
  checkEach PlanCondition.validate (step.preconditions ++ step.postconditions)
  checkOption (fun compensation => validatePlanKey compensation.text "compensation_step_id")
    step.compensationStepId

structure PlanSpec where
  planId : PlanId
  taskId : TaskId
  tenantId : TenantId
  operatorId : OperatorId
  revision : Nat
  mode : PlanMode
  risk : PlanRisk
  approval : PlanApprovalRequirement
  budget : ExecutionBudget
  steps : List PlanStep
  digest : String
  state : PlanState
  createdAt : Time
  deriving DecidableEq, Repr

def PlanSpec.stepIds (plan : PlanSpec) : List PlanStepId := plan.steps.map (·.stepId)

def PlanSpec.step? (plan : PlanSpec) (stepId : PlanStepId) : Option PlanStep :=
  plan.steps.find? fun step => step.stepId == stepId

-- `iter().all(..)` with the mutable sets of the search threaded through it.
def allWith (visitOne : PlanStepId → σ → Bool × σ) : List PlanStepId → σ → Bool × σ
  | [],sets => (true,sets)
  | id :: rest,sets =>
    match visitOne id sets with
    | (true,next) => allWith visitOne rest next
    | (false,next) => (false,next)

structure VisitSets where
  visiting : List PlanStepId
  visited : List PlanStepId

-- The path under visit holds distinct steps of the plan, so a depth of one more
-- than the number of steps is never exceeded.
def visit (steps : List PlanStep) : Nat → PlanStepId → VisitSets → Bool × VisitSets
  | 0,_,sets => (false,sets)
  | depth + 1,id,sets =>
    if id ∈ sets.visited then (true,sets)
    else if id ∈ sets.visiting then (false,sets)
    else match steps.find? fun step => step.stepId == id with
      | none => (false,sets)
      | some step =>
        let (acyclic,next) := allWith (visit steps depth) step.dependsOn
          {sets with visiting:=id :: sets.visiting}
        (acyclic,⟨next.visiting.erase id,if acyclic then id :: next.visited else next.visited⟩)

def ensureAcyclic (steps : List PlanStep) : Except CoreError Unit :=
  let ids := (steps.map (·.stepId)).insertionSort PlanStepId.le
  require ((allWith (visit steps (steps.length + 2)) ids ⟨[],[]⟩).1 = true)
    (.planInvalid "grafo de etapas contém ciclo")

def PlanSpec.validateReferences (plan : PlanSpec) (step : PlanStep) : Except CoreError Unit := do
  step.validate
  require (∀ dependency ∈ step.dependsOn, dependency ≠ step.stepId ∧ dependency ∈ plan.stepIds)
    (.planInvalid s!"dependência inválida na etapa {step.stepId.text}")
  require (∀ compensation ∈ step.compensationStepId,
      compensation ≠ step.stepId ∧ compensation ∈ plan.stepIds)
    (.planInvalid s!"compensação inválida na etapa {step.stepId.text}")

def PlanSpec.validateStructure (plan : PlanSpec) : Except CoreError Unit := do
  require (plan.revision ≠ 0) (.planInvalid "revision deve ser maior que zero")
  require (plan.steps ≠ [] ∧ plan.steps.length ≤ 128)
    (.planInvalid "plano deve conter entre 1 e 128 etapas")
  require (plan.budget.maxSteps ≠ 0 ∧ plan.budget.maxElapsedMs ≠ 0)
    (.planInvalid "orçamento do plano não permite execução")
  require (plan.risk ≠ .irreversible) (.planInvalid "planos irreversíveis estão bloqueados por default")
  require ((plan.steps.map (·.risk)).foldr max .readOnly ≤ plan.risk)
    (.planInvalid "risco do plano é menor que o risco de uma etapa")
  require (plan.risk.minimumApproval ≤ plan.approval)
    (.planInvalid "aprovação do plano é insuficiente para seu risco")
  require plan.stepIds.Nodup (.planInvalid "step_id duplicado")
  checkEach plan.validateReferences plan.steps
  ensureAcyclic plan.steps

-- What the program takes from the crates that are not part of the repository:
-- `hex::encode(Sha256::digest(..))`, the `serde_json` text of a plan, the
-- `to_rfc3339` text of an instant and the text of a random identifier.
structure Encoding where
  sha256Hex : String → String
  planJson : PlanSpec → String
  rfc3339 : Time → String
  uuidText : Uuid → String

def PlanSpec.calculateDigest (plan : PlanSpec) (encoding : Encoding) : String :=
  encoding.sha256Hex (encoding.planJson {plan with
    digest:="",state:=.draft,createdAt:=0,
    steps:=plan.steps.insertionSort fun left right => PlanStepId.le left.stepId right.stepId})

def PlanSpec.verifyDigest (plan : PlanSpec) (encoding : Encoding) : Except CoreError Unit :=
  require (plan.digest = plan.calculateDigest encoding)
    (.planInvalid "digest do plano não corresponde ao conteúdo")

structure PlanSpecInput where
  planId : PlanId
  taskId : TaskId
  tenantId : TenantId
  operatorId : OperatorId
  mode : PlanMode
  risk : PlanRisk
  approval : PlanApprovalRequirement
  budget : ExecutionBudget
  steps : List PlanStep
  deriving DecidableEq, Repr

def PlanSpec.new (encoding : Encoding) (input : PlanSpecInput) (now : Time) :
    Except CoreError PlanSpec := do
  let plan : PlanSpec := ⟨input.planId,input.taskId,input.tenantId,input.operatorId,1,input.mode,
    input.risk,input.approval,input.budget,input.steps,"",.draft,now⟩
  plan.budget.validate
  plan.validateStructure
  pure {plan with digest:=plan.calculateDigest encoding}

def PlanSpec.requiredApproval (plan : PlanSpec) : PlanApprovalRequirement :=
  max (max ((plan.steps.map PlanStep.requiredApproval).foldr max .none) plan.approval)
    plan.risk.minimumApproval

inductive PlanApprovalDecision where
  | approved
  | rejected
  deriving DecidableEq, Repr

structure PlanApproval where
  approvalId : Uuid
  planId : PlanId
  planDigest : String
  revision : Nat
  tenantId : TenantId
  approver : OperatorId
  approverRole : Role
  stepId : Option PlanStepId
  required : PlanApprovalRequirement
  decision : PlanApprovalDecision
  expiresAt : Time
  revoked : Bool
  deriving DecidableEq, Repr

def PlanSpec.requiredForScope (plan : PlanSpec) (stepId : Option PlanStepId) :
    Except CoreError PlanApprovalRequirement :=
  match stepId with
  | some wanted => match plan.step? wanted with
    | some step => .ok step.requiredApproval
    | none => .error (.planApprovalInvalid "etapa de aprovação inexistente")
  | none => .ok plan.requiredApproval

def PlanApproval.validateFor (approval : PlanApproval) (plan : PlanSpec) (stepId : Option PlanStepId)
    (now : Time) : Except CoreError Unit := do
  require (approval.decision = .approved) (.planApprovalInvalid "decisão não aprovada")
  require (approval.revoked = false ∧ now < approval.expiresAt)
    (.planApprovalInvalid "aprovação expirada ou revogada")
  require (approval.approver ≠ plan.operatorId)
    (.planApprovalInvalid "o proponente não pode aprovar o próprio plano")
  require (approval.planId = plan.planId ∧ approval.planDigest = plan.digest ∧
      approval.revision = plan.revision ∧ approval.tenantId = plan.tenantId ∧ approval.stepId = stepId)
    (.planApprovalInvalid "aprovação não corresponde ao plano, revisão, tenant ou etapa")
  let requiredForScope ← plan.requiredForScope stepId
  require (approval.required.allowsRole approval.approverRole = true ∧ requiredForScope ≤ approval.required)
    (.planApprovalInvalid "papel ou nível de aprovação insuficiente")

-- Everything a global approval accepted at `now` says about the plan it is for.
structure ValidApproval (approval : PlanApproval) (plan : PlanSpec) (now : Time) : Prop where
  decided : approval.decision = .approved
  unrevoked : approval.revoked = false
  unexpired : now < approval.expiresAt
  separated : approval.approver ≠ plan.operatorId
  samePlan : approval.planId = plan.planId
  sameDigest : approval.planDigest = plan.digest
  sameRevision : approval.revision = plan.revision
  sameTenant : approval.tenantId = plan.tenantId
  isGlobal : approval.stepId = none
  role : approval.required.allowsRole approval.approverRole = true
  level : plan.requiredApproval ≤ approval.required

theorem validateFor_global {approval : PlanApproval} {plan : PlanSpec} {now : Time} {u : Unit} :
    approval.validateFor plan none now = .ok u ↔ ValidApproval approval plan now := by
  simp only [PlanApproval.validateFor,PlanSpec.requiredForScope,bind_ok,require_ok,Except.ok.injEq]
  constructor
  · rintro ⟨_,decided,_,⟨unrevoked,unexpired⟩,_,separated,_,⟨samePlan,sameDigest,sameRevision,sameTenant,
      isGlobal⟩,_,rfl,role,level⟩
    exact ⟨decided,unrevoked,unexpired,separated,samePlan,sameDigest,sameRevision,sameTenant,isGlobal,
      role,level⟩
  · intro valid
    exact ⟨(),valid.decided,(),⟨valid.unrevoked,valid.unexpired⟩,(),valid.separated,(),
      ⟨valid.samePlan,valid.sameDigest,valid.sameRevision,valid.sameTenant,valid.isGlobal⟩,_,rfl,
      valid.role,valid.level⟩

theorem le_foldr_max {level : PlanApprovalRequirement} {levels : List PlanApprovalRequirement}
    (present : level ∈ levels) : level ≤ levels.foldr max .none := by
  induction levels with
  | nil => cases present
  | cons first rest ih =>
    rcases List.mem_cons.mp present with rfl | later
    · exact le_max_left _ _
    · exact le_trans (ih later) (le_max_right _ _)

-- What a step requires, its plan requires.
theorem step_requiredApproval_le {plan : PlanSpec} {step : PlanStep} (present : step ∈ plan.steps) :
    step.requiredApproval ≤ plan.requiredApproval :=
  calc step.requiredApproval
    _ ≤ (plan.steps.map PlanStep.requiredApproval).foldr max .none := le_foldr_max (List.mem_map_of_mem present)
    _ ≤ _ := le_max_left _ plan.approval
    _ ≤ _ := le_max_left _ plan.risk.minimumApproval

theorem same_step {plan : PlanSpec} (distinct : plan.stepIds.Nodup) {a b : PlanStep} (one : a ∈ plan.steps)
    (two : b ∈ plan.steps) (same : a.stepId = b.stepId) : a = b :=
  List.inj_on_of_nodup_map distinct one two same

theorem step?_listed {plan : PlanSpec} (distinct : plan.stepIds.Nodup) {step : PlanStep}
    (present : step ∈ plan.steps) : plan.step? step.stepId = some step := by
  unfold PlanSpec.step?
  cases found : plan.steps.find? fun other => other.stepId == step.stepId with
  | none => exact absurd (List.find?_eq_none.mp found step present) (by simp)
  | some other =>
    have same := List.find?_some found
    rw [same_step distinct (List.mem_of_find?_eq_some found) present (by simpa using same)]

theorem validateStructure_steps {plan : PlanSpec} {u : Unit} (structured : plan.validateStructure = .ok u) :
    plan.revision ≠ 0 ∧ plan.stepIds.Nodup ∧ ∀ step ∈ plan.steps, step.validate = .ok () ∧
      ∀ dependency ∈ step.dependsOn, dependency ∈ plan.stepIds := by
  simp only [PlanSpec.validateStructure,bind_ok,require_ok,exists_const] at structured
  obtain ⟨revision,_,_,_,_,_,distinct,_,references,_⟩ := structured
  refine ⟨revision,distinct,fun step listed => ?_⟩
  have checked := checkEach_ok.mp references step listed
  simp only [PlanSpec.validateReferences,bind_ok,require_ok,exists_const] at checked
  obtain ⟨_,valid,dependencies,_⟩ := checked
  exact ⟨valid,fun dependency needed => (dependencies dependency needed).2⟩

-- An approval is for a plan whatever state the plan is in.
theorem ValidApproval.state {approval : PlanApproval} {plan : PlanSpec} {now : Time} {state : PlanState}
    (valid : ValidApproval approval {plan with state:=state} now) : ValidApproval approval plan now :=
  ⟨valid.decided,valid.unrevoked,valid.unexpired,valid.separated,valid.samePlan,valid.sameDigest,
    valid.sameRevision,valid.sameTenant,valid.isGlobal,valid.role,valid.level⟩

end Shaka.Core
