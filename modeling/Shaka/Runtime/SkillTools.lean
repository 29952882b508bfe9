import Shaka.Library.KeptState
import Shaka.Runtime.Tools
import Shaka.Skills.Trust

namespace Shaka.Runtime
open Shaka.Core Skills CheckedSteps KeptState JsonValue

-- The sandbox.

def maxSandboxMemoryBytes : Nat := 64 * 1024 * 1024

structure SandboxPolicy where
  maxFuel : Nat
  maxElapsedMs : Nat
  maxMemoryBytes : Nat
  allowNetwork : Bool
  allowFilesystem : Bool
  deriving DecidableEq, Repr

def SandboxPolicy.default : SandboxPolicy := ⟨100000,1000,16 * 1024 * 1024,false,false⟩

structure SandboxResult where
  exitCode : Int
  fuelConsumed : Nat
  deriving DecidableEq, Repr

inductive SandboxError where
  | invalidPolicy (detail : String)
  | capabilityDenied (capability : Capability)
  | invalidModule (detail : String)
  | hostImportsDenied
  | missingEntryPoint (detail : String)
  | execution (detail : String)
  deriving DecidableEq, Repr

def SandboxError.text : SandboxError → String
  | .invalidPolicy detail => s!"configuração inválida do sandbox: {detail}"
  | .capabilityDenied capability => s!"capacidade negada pelo sandbox: {debugCapability capability}"
  | .invalidModule detail => s!"módulo WASM inválido: {detail}"
  | .hostImportsDenied => "o módulo solicita imports do host, proibidos no MVP"
  | .missingEntryPoint detail => s!"o módulo não exporta run() -> i32: {detail}"
  | .execution detail => s!"execução WASM falhou: {detail}"

def SandboxPolicy.validate (policy : SandboxPolicy) (required : List Capability) :
    Except SandboxError Unit := do
  require (¬ (.network ∈ required ∧ policy.allowNetwork = false)) (.capabilityDenied .network)
  require (¬ (.filesystemRead ∈ required ∧ policy.allowFilesystem = false))
    (.capabilityDenied .filesystemRead)
  require (¬ (.filesystemWrite ∈ required ∧ policy.allowFilesystem = false))
    (.capabilityDenied .filesystemWrite)
  require (policy.maxMemoryBytes ≠ 0 ∧ policy.maxMemoryBytes ≤ maxSandboxMemoryBytes)
    (.invalidPolicy s!"max_memory_bytes deve estar entre 1 e {maxSandboxMemoryBytes}")

-- How a call of the guest ends: past its time or not, with its result and the fuel that is left.
structure GuestEnd where
  timedOut : Bool
  result : Except String Int
  fuelRemaining : Nat

-- What the sandbox takes from `wasmtime`.
structure WasmEngine where
  compile : List UInt8 → Except String Unit
  hasImports : List UInt8 → Bool
  instantiate : SandboxPolicy → List UInt8 → Except String Unit
  entryPoint : List UInt8 → Except String Unit
  call : SandboxPolicy → List UInt8 → GuestEnd

-- A guest that was given the processor: its code, what it asked for and under which policy.
structure Guest where
  wasm : List UInt8
  required : List Capability
  policy : SandboxPolicy
  deriving DecidableEq

-- `execute`; a guest may run from its instantiation on.
def WasmEngine.execute (engine : WasmEngine) (wasm : List UInt8) (required : List Capability)
    (policy : SandboxPolicy) : Program (List Guest) SandboxError SandboxResult := do
  given (policy.validate required)
  given (require (policy.maxFuel ≠ 0 ∧ policy.maxElapsedMs ≠ 0)
    (.invalidPolicy "max_fuel e max_elapsed_ms precisam ser maiores que zero"))
  given ((engine.compile wasm).mapError .invalidModule)
  given (require (engine.hasImports wasm = false) .hostImportsDenied)
  update fun guests => guests ++ [⟨wasm,required,policy⟩]
  given ((engine.instantiate policy wasm).mapError .execution)
  given ((engine.entryPoint wasm).mapError .missingEntryPoint)
  let ended := engine.call policy wasm
  given (require (ended.timedOut = false) (.execution "limite de tempo excedido"))
  let exitCode ← given (ended.result.mapError .execution)
  pure ⟨exitCode,policy.maxFuel - ended.fuelRemaining⟩

-- The tools that skills are.

def debugSkillStatus : SkillStatus → String
  | .specified => "Specified"
  | .generated => "Generated"
  | .tested => "Tested"
  | .candidate => "Candidate"
  | .active => "Active"
  | .deprecated => "Deprecated"
  | .revoked => "Revoked"

def skillText : SkillError → String
  | .alreadyExists name => s!"skill já existe: {name}"
  | .notFound name => s!"skill não encontrada: {name}"
  | .invalidTransition observed requested =>
    s!"transição não permitida: {debugSkillStatus observed} -> {debugSkillStatus requested}"
  | .invalidApproval detail => s!"aprovação inválida: {detail}"
  | .unsignedApproval => "aprovação assinada é obrigatória para execução da skill"
  | .invalidSignature => "assinatura da aprovação é inválida"
  | .unsupportedApprovalProtocol => "protocolo de aprovação legado ou não suportado"
  | .manifestAuthorityMismatch => "autoridade declarativa da skill não corresponde à aprovação"
  | .invalidKey detail => s!"chave de assinatura inválida: {detail}"
  | .untrustedKey keyId => s!"chave não confiável: {keyId}"
  | .revokedKey keyId => s!"chave revogada: {keyId}"
  | .artifactHashMismatch => "hash do artefato não corresponde à aprovação"
  | .missingArtifactPath => "artefato aprovado não possui caminho verificável"
  | .excessivePermission capability => s!"permissão excessiva para skill: {debugCapability capability}"
  | .io detail => s!"erro de arquivo: {detail}"
  | .serialization detail => s!"erro de serialização: {detail}"

def ofSkill (error : SkillError) : OrchestratorError := .toolExecution (skillText error)

-- What the files of the governance say when they are read: the registry, the trust store and the artifacts.
structure Governance where
  registry : SkillRegistry
  trustStore : TrustStore
  files : Files

-- `==` of two schemas; the order of the keys of an object does not count.
def sameSchema (left right : Value) : Prop := SameValue left.json right.json

instance (left right : Value) : Decidable (sameSchema left right) :=
  decidable_of_iff (canonicalizeJson left.json = canonicalizeJson right.json)
    ⟨same_of_canonicalized left.distinct right.distinct,fun same =>
      canonicalized_of_same same left.distinct right.distinct⟩

-- `==` of two artifacts.
def sameArtifact (left right : ActiveSkillArtifact) : Bool :=
  left.name == right.name && left.version == right.version && left.description == right.description &&
  left.permissions == right.permissions && decide (sameSchema left.inputSchema right.inputSchema) &&
  decide (sameSchema left.outputSchema right.outputSchema) && left.artifactPath == right.artifactPath &&
  left.artifactSha256 == right.artifactSha256 && left.manifestAuthoritySha256 ==
    right.manifestAuthoritySha256 &&
  left.attestation == right.attestation && left.approvalOperatorId == right.approvalOperatorId &&
  left.approvalReason == right.approvalReason

-- `verify_current`
def verifyCurrent (host : SkillHost) (now : Governance) (expected : ActiveSkillArtifact) :
    Except OrchestratorError Unit := do
  let artifacts ← (now.registry.activeVerifiedArtifacts host now.files now.trustStore).mapError ofSkill
  let current ← orFail (artifacts.find? (·.name == expected.name))
    (.toolExecution "skill revogada ou não ativa no registry persistido")
  require (sameArtifact current expected = true)
    (.toolExecution "aprovação persistida da skill mudou após o carregamento")

structure WasmSkillTool where
  artifact : ActiveSkillArtifact
  wasm : List UInt8
  policy : SandboxPolicy
  revalidated : Bool

-- The artifact is read twice, for its digest and for its code; `reread` are the files at the second reading.
def WasmSkillTool.fromApprovedArtifact (host : SkillHost) (artifact : ActiveSkillArtifact)
    (trustStore : TrustStore) (files reread : Files) : Except OrchestratorError WasmSkillTool := do
  let actualSha256 ← (sha256File host files artifact.artifactPath).mapError ofSkill
  require (actualSha256 = artifact.artifactSha256)
    (.toolExecution s!"hash do artefato da skill {artifact.name} não corresponde à aprovação")
  let currentAuthority ← (manifestAuthoritySha256 host artifact.permissions artifact.inputSchema.json
    artifact.outputSchema.json).mapError ofSkill
  require (currentAuthority = artifact.manifestAuthoritySha256)
    (.toolExecution "autoridade declarativa da skill não corresponde à aprovação")
  (trustStore.verifyAttestation host ⟨artifact.name,artifact.version,artifact.approvalOperatorId,
    artifact.artifactSha256,
    artifact.approvalReason,artifact.manifestAuthoritySha256⟩ artifact.attestation).mapError ofSkill
  let wasm ← (reread artifact.artifactPath).mapError .toolExecution
  pure ⟨artifact,wasm,.default,false⟩

def WasmSkillTool.fromApprovedArtifactWithRevalidation (host : SkillHost) (artifact : ActiveSkillArtifact)
    (trustStore : TrustStore) (files reread : Files) : Except OrchestratorError WasmSkillTool := do
  let tool ← fromApprovedArtifact host artifact trustStore files reread
  pure {tool with revalidated:=true}

def WasmSkillTool.definition (tool : WasmSkillTool) : ToolDefinition where
  name := s!"skill.{tool.artifact.name}"
  description := tool.artifact.description
  inputSchema := tool.artifact.inputSchema.json
  requiredCapabilities := tool.artifact.permissions
  sideEffect := if tool.artifact.permissions.any fun capability =>
    capability == .externalMessaging || capability == .filesystemWrite then .externalEffect else .mutation

def WasmSkillTool.output (tool : WasmSkillTool) (result : SandboxResult) : Json :=
  .object [("exit_code",.number (toString result.exitCode)),
    ("fuel_consumed",.number (toString result.fuelConsumed)),
    ("input_validated",.bool true),("skill",.string tool.artifact.name),
    ("version",.string tool.artifact.version)]

def WasmSkillTool.execute (host : SkillHost) (schemas : Host) (engine : WasmEngine) (now : Governance)
    (tool : WasmSkillTool) : Program (List Guest) OrchestratorError Json := do
  given (if tool.revalidated then verifyCurrent host now tool.artifact else pure ())
  let result ← reword (fun error : SandboxError => .toolExecution error.text)
    (engine.execute tool.wasm tool.artifact.permissions tool.policy)
  let output := tool.output result
  let validator ← given ((schemas.validatorFor tool.artifact.outputSchema.json).mapError .toolExecution)
  given ((validator output).mapError fun error =>
    .toolExecution s!"saída da skill {tool.artifact.name} viola o schema: {error}")
  pure output

-- `build_tool_registry`: what an agent is started with.
structure AgentTools where
  registry : ToolRegistry
  tools : List WasmSkillTool

def loadTool (host : SkillHost) (trustStore : TrustStore) (files reread : Files) (agent : AgentTools)
    (artifact : ActiveSkillArtifact) : Except OrchestratorError AgentTools := do
  let tool ← WasmSkillTool.fromApprovedArtifactWithRevalidation host artifact trustStore files reread
  let registry ← agent.registry.register tool.definition
  pure ⟨registry,agent.tools ++ [tool]⟩

def agentCapabilities (role : Role) : List Capability :=
  [.memoryWrite] ++ if role = .administrator then [.codeExecution] else []

def buildToolRegistry (host : SkillHost) (role : Role) (now : Governance) (files reread : Files) :
    Except OrchestratorError AgentTools := do
  let artifacts ← (now.registry.activeVerifiedArtifacts host now.files now.trustStore).mapError ofSkill
  artifacts.foldlM (loadTool host now.trustStore files reread) ⟨.withCapabilities (agentCapabilities role),[]⟩

end Shaka.Runtime
