import Shaka.Library.JsonText
import Shaka.Properties.SkillLifecycle
import Shaka.Properties.VerifiedArtifacts
import Shaka.Runtime.SkillTools

namespace Shaka.Properties
open Shaka.Core Skills Shaka.Runtime CheckedSteps KeptState GuardedRuns JsonValue

variable {host : SigningHost} {schemas : Runtime.Host} {engine : WasmEngine}

-- What the commands of an operator and the agents share, the paths of the machine with it, the agents that
-- were started with their tools, and the guests that they ran.
structure Workshop where
  governance : Governance
  canonicalize : String → Except String String
  agents : List (Role × AgentTools)
  guests : List Guest

def Workshop.empty : Workshop :=
  ⟨⟨.empty,.empty,fun _ => .error "No such file or directory"⟩,fun _ => .error "No such file or directory",
    [],[]⟩

def Workshop.disk (w : Workshop) : Disk := ⟨w.governance.files,w.canonicalize⟩

-- The commands, one after the other; what happens to other files and, by any hand, to those of the
-- governance; the start of an agent, during which the artifacts may be written to twice; and the calls of
-- the tools of an agent.
inductive WorkshopEvent where
  | skill (call : SkillCall)
  | approveSigned (name : String) (operatorId : OperatorId) (artifactPath keyId : String)
      (signingKey : List UInt8) (reason : String) (moment : ApprovalMoment)
  | addKey (keyId publicKeyHex description : String)
  | revokeKey (keyId : String) (now : Time)
  | write (disk : Disk)
  | tamper (registry : SkillRegistry) (trustStore : TrustStore)
  | start (role : Role) (rehash reread : Files)
  | call (agent tool : Nat)

def Workshop.setRegistry (w : Workshop) (registry : SkillRegistry) : Workshop :=
  {w with governance:={w.governance with registry:=registry}}

def Workshop.setTrust (w : Workshop) (trustStore : TrustStore) : Workshop :=
  {w with governance:={w.governance with trustStore:=trustStore}}

def Workshop.setFiles (w : Workshop) (files : Files) : Workshop :=
  {w with governance:={w.governance with files:=files}}

def Workshop.tool (w : Workshop) (agent tool : Nat) : Option WasmSkillTool := do
  let held ← w.agents[agent]?
  held.2.tools[tool]?

def Workshop.next (host : SigningHost) (schemas : Runtime.Host) (engine : WasmEngine) (w : Workshop) :
    WorkshopEvent → Workshop
  | .skill call => w.setRegistry (call.run w.governance.registry).2
  | .approveSigned name operatorId artifactPath keyId signingKey reason moment =>
    w.setRegistry (SkillRegistry.approveSignedArtifact host w.disk name operatorId artifactPath keyId
      signingKey reason moment w.governance.registry).2
  | .addKey keyId publicKeyHex description =>
    w.setTrust (TrustStore.addKey host keyId publicKeyHex description w.governance.trustStore).2
  | .revokeKey keyId now => w.setTrust (TrustStore.revokeKey keyId now w.governance.trustStore).2
  | .write disk => {w.setFiles disk.files with canonicalize:=disk.canonicalize}
  | .tamper registry trustStore => (w.setRegistry registry).setTrust trustStore
  | .start role rehash reread =>
    match buildToolRegistry host.toSkillHost role w.governance rehash reread with
    | .ok agent => {w.setFiles reread with agents:=w.agents ++ [(role,agent)]}
    | .error _ => w.setFiles reread
  | .call agent tool =>
    match w.tool agent tool with
    | some held => {w with guests:=(held.execute host.toSkillHost schemas engine w.governance w.guests).2}
    | none => w

end Shaka.Properties
