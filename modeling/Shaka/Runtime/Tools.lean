import Shaka.Memory.Audit
import Shaka.Core.PlanVerifier
import Shaka.Library.JsonValue
import Mathlib.Data.List.Sort

namespace Shaka.Runtime
open Shaka.Core Memory CheckedSteps JsonValue

inductive SideEffect where
  | readOnly
  | externalEffect
  | mutation
  deriving DecidableEq, Repr

structure ToolDefinition where
  name : String
  description : String
  inputSchema : Json
  requiredCapabilities : List Capability
  sideEffect : SideEffect

structure ToolCall where
  taskId : TaskId
  toolName : String
  input : Json
  requestedAt : Time

structure ToolResult where
  toolName : String
  output : Json
  success : Bool
  errorCode : Option String

inductive OrchestratorError where
  | core (error : CoreError)
  | memory (error : MemoryError)
  | http (detail : String)
  | invalidModelResponse (detail : String)
  | toolNotFound (toolName : String)
  | planActionDenied (toolName : String)
  | toolExecution (detail : String)
  | deadlineExceeded
  | cancelled
  deriving DecidableEq, Repr

-- What the runtime takes from other crates: the digest and the texts of an audit event,
-- the validator that a JSON schema compiles to, the text of a JSON value, the regular
-- expression behind `redact_sensitive`, and the texts of the memory store's errors.
structure Host where
  audit : AuditEncoding
  validatorFor : Json → Except String (Json → Except String Unit)
  jsonText : Json → String
  redactSensitive : String → String
  memoryText : MemoryError → String

def debugCapability : Capability → String
  | .network => "Network"
  | .filesystemRead => "FilesystemRead"
  | .filesystemWrite => "FilesystemWrite"
  | .codeExecution => "CodeExecution"
  | .externalMessaging => "ExternalMessaging"
  | .memoryWrite => "MemoryWrite"

def debugAction : Action → String
  | .runReadOnly => "RunReadOnly"
  | .runExternal => "RunExternal"
  | .createSkill => "CreateSkill"
  | .approveSkill => "ApproveSkill"
  | .revokeSkill => "RevokeSkill"
  | .backup => "Backup"
  | .restore => "Restore"
  | .verifyAudit => "VerifyAudit"
  | .purgeMemory => "PurgeMemory"
  | .manageIam => "ManageIam"
  | .approvePlan => "ApprovePlan"
  | .resumePlan => "ResumePlan"
  | .resolvePlanUnknown => "ResolvePlanUnknown"

def coreText : CoreError → String
  | .invalidIdentifier field => s!"identificador inválido: {field}"
  | .invalidInput detail => s!"entrada inválida: {detail}"
  | .schemaViolation tool message => s!"violação de schema na ferramenta {tool}: {message}"
  | .capabilityDenied capability => s!"capacidade não autorizada: {debugCapability capability}"
  | .approvalRequired => "operação requer aprovação explícita do operador"
  | .budgetExceeded detail => s!"orçamento excedido: {detail}"
  | .unauthorized action => s!"principal não autorizado para a ação: {debugAction action}"
  | .planInvalid detail => s!"plano inválido: {detail}"
  | .planApprovalInvalid detail => s!"aprovação de plano inválida: {detail}"

-- `Display` of the error.
def OrchestratorError.text (host : Host) : OrchestratorError → String
  | .core error => s!"erro de núcleo: {coreText error}"
  | .memory error => s!"erro de memória: {host.memoryText error}"
  | .http detail => s!"erro HTTP do modelo: {detail}"
  | .invalidModelResponse detail => s!"resposta do modelo inválida: {detail}"
  | .toolNotFound toolName => s!"ferramenta não encontrada: {toolName}"
  | .planActionDenied toolName => s!"ferramenta fora do escopo da etapa: {toolName}"
  | .toolExecution detail => s!"execução da ferramenta falhou: {detail}"
  | .deadlineExceeded => "limite de tempo da tarefa excedido"
  | .cancelled => "execução cancelada pelo operador"

def allowsCapabilities (granted required : List Capability) : Bool :=
  required.all fun capability => granted.contains capability

def ToolDefinition.validateInput (definition : ToolDefinition) (host : Host) (input : Json) :
    Except CoreError Unit := do
  let validator ← (host.validatorFor definition.inputSchema).mapError fun error =>
    .schemaViolation definition.name s!"schema inválido: {error}"
  (validator input).mapError fun error => .schemaViolation definition.name error

end Shaka.Runtime

namespace Shaka.Core

-- Textual actions name no tool, so they grant none.
def PlanExecutionScope.allowsTool (scope : PlanExecutionScope) (definition : Runtime.ToolDefinition) : Bool :=
  match scope.action with
  | .executeTool toolName => toolName == definition.name
  | .readOnly _ | .mutation _ | .externalEffect _ => false

end Shaka.Core

namespace Shaka.Runtime
open Shaka.Core Memory CheckedSteps JsonValue

theorem allowsTool_iff {scope : PlanExecutionScope} {definition : ToolDefinition} :
    scope.allowsTool definition = true ↔ scope.action = .executeTool definition.name := by
  unfold PlanExecutionScope.allowsTool
  cases scope.action <;> simp

theorem allowsCapabilities_iff {granted required : List Capability} :
    allowsCapabilities granted required = true ↔ ∀ capability ∈ required, capability ∈ granted := by
  simp [allowsCapabilities]

-- The tools of the host, each under the name that its definition gives.
structure ToolRegistry where
  tools : List ToolDefinition
  distinct : (tools.map (·.name)).Nodup
  capabilities : List Capability

def ToolRegistry.withCapabilities (capabilities : List Capability) : ToolRegistry := ⟨[],by simp,capabilities⟩

def ToolRegistry.get (registry : ToolRegistry) (toolName : String) : Option ToolDefinition :=
  registry.tools.find? (·.name == toolName)

-- A tool of the same name is replaced.
def ToolRegistry.insert (registry : ToolRegistry) (definition : ToolDefinition) : ToolRegistry where
  tools := definition :: registry.tools.filter (·.name != definition.name)
  distinct := by
    refine List.nodup_cons.mpr ⟨?_,registry.distinct.sublist (List.filter_sublist.map _)⟩
    simp
  capabilities := registry.capabilities

-- The check that registration and execution share.
def checkCapabilities (granted required : List Capability) : Except OrchestratorError Unit :=
  if allowsCapabilities granted required then .ok ()
  else match required.find? fun capability => !granted.contains capability with
    | some capability => .error (.core (.capabilityDenied capability))
    | none => .ok ()

theorem checkCapabilities_ok {granted required : List Capability} {u : Unit} :
    checkCapabilities granted required = .ok u ↔ ∀ capability ∈ required, capability ∈ granted := by
  unfold checkCapabilities
  by_cases allowed : allowsCapabilities granted required = true
  · rw [if_pos allowed]
    exact ⟨fun _ => allowsCapabilities_iff.mp allowed,fun _ => rfl⟩
  rw [if_neg allowed]
  cases found : required.find? fun capability => !granted.contains capability with
  | none =>
    have present := List.find?_eq_none.mp found
    exact absurd (allowsCapabilities_iff.mpr (by simpa using present)) allowed
  | some capability =>
    exact ⟨fun ok => (nomatch ok),fun all => absurd (allowsCapabilities_iff.mpr all) allowed⟩

def ToolRegistry.register (registry : ToolRegistry) (definition : ToolDefinition) :
    Except OrchestratorError ToolRegistry := do
  checkCapabilities registry.capabilities definition.requiredCapabilities
  pure (registry.insert definition)

theorem get_parts {registry : ToolRegistry} {toolName : String} {definition : ToolDefinition}
    (found : registry.get toolName = some definition) :
    definition ∈ registry.tools ∧ definition.name = toolName :=
  ⟨List.mem_of_find?_eq_some found,by simpa using List.find?_some found⟩

def ToolRegistry.definitionsForScoped (registry : ToolRegistry) (effective : List Capability)
    (scope : Option PlanExecutionScope) : List ToolDefinition :=
  (registry.tools.filter fun definition => allowsCapabilities effective definition.requiredCapabilities &&
    scope.all (·.allowsTool definition)).insertionSort fun left right : ToolDefinition =>
    left.name ≤ right.name

end Shaka.Runtime
