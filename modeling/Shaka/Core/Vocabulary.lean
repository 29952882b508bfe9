import Mathlib.Data.List.Sort
import Mathlib.Data.String.Basic

namespace Shaka.Core

-- Instants are UTC nanoseconds since the epoch; the order of stored timestamps
-- is the order of instants.
abbrev Time := Int

-- A random 128-bit identifier; only equality of identifiers is ever observed.
abbrev Uuid := Nat

structure TaskId where
  uuid : Uuid
  deriving DecidableEq, Repr

structure PlanId where
  uuid : Uuid
  deriving DecidableEq, Repr

structure TenantId where
  text : String
  deriving DecidableEq, Repr

structure OperatorId where
  text : String
  deriving DecidableEq, Repr

structure PlanStepId where
  text : String
  deriving DecidableEq, Repr

-- Derived `Ord` of the identifier: the order of its text.
def PlanStepId.le (a b : PlanStepId) : Prop := a.text ≤ b.text

instance : DecidableRel PlanStepId.le := fun a b => inferInstanceAs (Decidable (a.text ≤ b.text))

instance : Std.Total PlanStepId.le := ⟨fun a b => le_total a.text b.text⟩

instance : IsTrans PlanStepId PlanStepId.le := ⟨fun _ _ _ ab bc => le_trans (α := String) ab bc⟩

instance : Std.Antisymm PlanStepId.le := ⟨fun a b ab ba => by
  cases a; cases b
  exact congrArg _ (le_antisymm (α := String) ab ba)⟩

-- Two orderings of the same steps by identifier are the same list.
theorem sortedIds_perm {ids others : List PlanStepId} (same : ids.Perm others) :
    ids.insertionSort PlanStepId.le = others.insertionSort PlanStepId.le :=
  List.Perm.eq_of_pairwise' (List.pairwise_insertionSort _ ids) (List.pairwise_insertionSort _ others)
    ((List.perm_insertionSort _ _).trans (same.trans (List.perm_insertionSort _ _).symm))

inductive Role where
  | operator
  | reviewer
  | administrator
  deriving DecidableEq, Repr

inductive Action where
  | runReadOnly
  | runExternal
  | createSkill
  | approveSkill
  | revokeSkill
  | backup
  | restore
  | verifyAudit
  | purgeMemory
  | manageIam
  | approvePlan
  | resumePlan
  | resolvePlanUnknown
  deriving DecidableEq, Repr

inductive Capability where
  | network
  | filesystemRead
  | filesystemWrite
  | codeExecution
  | externalMessaging
  | memoryWrite
  deriving DecidableEq, Repr

inductive CoreError where
  | invalidIdentifier (field : String)
  | invalidInput (detail : String)
  | schemaViolation (tool message : String)
  | capabilityDenied (capability : Capability)
  | approvalRequired
  | budgetExceeded (detail : String)
  | unauthorized (action : Action)
  | planInvalid (detail : String)
  | planApprovalInvalid (detail : String)
  deriving DecidableEq, Repr

structure Principal where
  operatorId : OperatorId
  tenantId : TenantId
  role : Role
  deriving DecidableEq, Repr

def Principal.allows (principal : Principal) (action : Action) : Bool :=
  match principal.role with
  | .administrator => true
  | .reviewer => match action with
    | .runReadOnly | .approveSkill | .verifyAudit | .backup | .approvePlan => true
    | _ => false
  | .operator => match action with
    | .runReadOnly | .createSkill => true
    | _ => false

def capabilitiesForRole : Role → List Capability
  | .operator | .reviewer => []
  | .administrator => [.network,.filesystemRead,.filesystemWrite,.codeExecution,
      .externalMessaging,.memoryWrite]

structure RequestProvenance where
  requestId : Option String
  admissionApprovalId : Option Uuid
  deriving DecidableEq, Repr

structure ExecutionContext where
  role : Role
  capabilities : List Capability
  provenance : RequestProvenance
  deriving DecidableEq, Repr

def ExecutionContext.fromPrincipal (principal : Principal) : ExecutionContext :=
  ⟨principal.role,capabilitiesForRole principal.role,⟨none,none⟩⟩

def ExecutionContext.withProvenance (context : ExecutionContext) (requestId : Option String)
    (admissionApprovalId : Option Uuid) : ExecutionContext :=
  {context with provenance:=⟨requestId,admissionApprovalId⟩}

def maxExecutionSteps : Nat := 256
def maxToolCalls : Nat := 512
def maxExecutionElapsedMs : Nat := 300000
def maxExecutionCostMicrounits : Nat := 10000000

structure ExecutionBudget where
  maxSteps : Nat
  maxToolCalls : Nat
  maxElapsedMs : Nat
  maxCostMicrounits : Nat
  deriving DecidableEq, Repr

def ExecutionBudget.default : ExecutionBudget := ⟨32,16,30000,1000000⟩

def ExecutionBudget.validate (budget : ExecutionBudget) : Except CoreError Unit :=
  if budget.maxSteps = 0 ∨ budget.maxSteps > maxExecutionSteps then
    .error (.invalidInput "budget.max_steps deve estar entre 1 e 256")
  else if budget.maxToolCalls > Core.maxToolCalls then
    .error (.invalidInput "budget.max_tool_calls não pode exceder 512")
  else if budget.maxElapsedMs = 0 ∨ budget.maxElapsedMs > maxExecutionElapsedMs then
    .error (.invalidInput "budget.max_elapsed_ms deve estar entre 1 e 300000")
  else if budget.maxCostMicrounits > maxExecutionCostMicrounits then
    .error (.invalidInput "budget.max_cost_microunits não pode exceder 10000000")
  else .ok ()

theorem validateBudget_ok {budget : ExecutionBudget} {u : Unit} : budget.validate = .ok u ↔
    (0 < budget.maxSteps ∧ budget.maxSteps ≤ maxExecutionSteps) ∧ budget.maxToolCalls ≤ Core.maxToolCalls ∧
    (0 < budget.maxElapsedMs ∧ budget.maxElapsedMs ≤ maxExecutionElapsedMs) ∧
    budget.maxCostMicrounits ≤ maxExecutionCostMicrounits := by
  unfold ExecutionBudget.validate
  split
  · simp; omega
  split
  · simp; omega
  split
  · simp; omega
  split
  · simp; omega
  · simp; omega

structure TaskEnvelope where
  taskId : TaskId
  tenantId : TenantId
  operatorId : OperatorId
  budget : ExecutionBudget
  dryRun : Bool
  executionContext : ExecutionContext
  deriving DecidableEq, Repr

-- Unicode White_Space, the class that `str::trim` removes.
def isWhiteSpace (c : Char) : Bool :=
  (9 ≤ c.toNat && c.toNat ≤ 13) || c.toNat == 32 || c.toNat == 0x85 || c.toNat == 0xA0 ||
  c.toNat == 0x1680 || (0x2000 ≤ c.toNat && c.toNat ≤ 0x200A) || c.toNat == 0x2028 ||
  c.toNat == 0x2029 || c.toNat == 0x202F || c.toNat == 0x205F || c.toNat == 0x3000

-- `value.trim().is_empty()`
def blank (text : String) : Bool := text.toList.all isWhiteSpace

def isAsciiHexDigit (c : Char) : Bool :=
  c.isDigit || ('a' ≤ c && c ≤ 'f') || ('A' ≤ c && c ≤ 'F')

-- The shape test shared by the two `validate_sha256` of the core and the queue.
def isSha256Text (text : String) : Bool :=
  text.utf8ByteSize == 64 && text.toList.all isAsciiHexDigit

def isPlanKeyChar (c : Char) : Bool :=
  c.isAlphanum || c == '.' || c == '_' || c == '-'

def validatePlanKey (value field : String) : Except CoreError Unit :=
  if value.isEmpty || value.utf8ByteSize > 128 || !value.toList.all isPlanKeyChar then
    .error (.invalidIdentifier field)
  else .ok ()

def TenantId.new (value : String) : Except CoreError TenantId :=
  if blank value || value.utf8ByteSize > 128 then .error (.invalidIdentifier "tenant_id")
  else .ok ⟨value⟩

def OperatorId.new (value : String) : Except CoreError OperatorId :=
  if blank value || value.utf8ByteSize > 128 then .error (.invalidIdentifier "operator_id")
  else .ok ⟨value⟩

def validateSha256 (value field : String) : Except CoreError Unit :=
  if isSha256Text value then .ok () else .error (.invalidIdentifier field)

def PlanStepId.new (value : String) : Except CoreError PlanStepId := do
  validatePlanKey value "step_id"
  pure ⟨value⟩

end Shaka.Core
