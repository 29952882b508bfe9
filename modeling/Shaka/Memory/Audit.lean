import Shaka.Core.Vocabulary
import Shaka.Library.CheckedSteps
import Shaka.Library.HashChain
import Shaka.Library.PrefixCode

namespace Shaka.Memory
open Shaka.Core CheckedSteps

-- A `BTreeMap<String, String>`: its entries in the order of their keys.
structure Metadata where
  entries : List (String × String)
  sorted : (entries.map Prod.fst).Pairwise (· < ·)
  deriving DecidableEq

def Metadata.empty : Metadata := ⟨[],by simp⟩

def Metadata.insert (metadata : Metadata) (key value : String) : Metadata where
  entries := metadata.entries.filter (·.1 < key) ++ (key,value) :: metadata.entries.filter (key < ·.1)
  sorted := by
    have ordered := List.pairwise_map.mp metadata.sorted
    refine List.pairwise_map.mpr (List.pairwise_append.mpr ⟨ordered.filter _,
      List.pairwise_cons.mpr ⟨?_,ordered.filter _⟩,?_⟩)
    · intro later after
      simpa using (List.mem_filter.mp after).2
    · intro earlier before later after
      have below : earlier.1 < key := by simpa using (List.mem_filter.mp before).2
      rcases List.mem_cons.mp after with rfl | after
      · exact below
      · exact lt_trans below (by simpa using (List.mem_filter.mp after).2)

@[ext] structure AuditEvent where
  eventId : Uuid
  taskId : Option TaskId
  tenantId : TenantId
  actor : String
  action : String
  outcome : String
  occurredAt : Time
  metadata : Metadata
  previousHash : Option String
  eventHash : String
  deriving DecidableEq

-- What the store takes from other crates: the digest, the texts of identifiers and
-- instants (`Display` and RFC 3339), the Unicode table of the characters that `Debug`
-- writes by number, and the JSON text of an event.
structure AuditEncoding where
  sha256Hex : String → String
  uuidText : Uuid → String
  instantText : Time → String
  rfc3339 : Time → String
  numbered : Char → Bool
  toJson : AuditEvent → String
  fromJson : String → Option AuditEvent

def numberedChar (c : Char) : List Char := '\\' :: 'u' :: '\x7b' :: (Nat.toDigits 16 c.toNat ++ ['\x7d'])

-- `char::escape_debug` as the `Debug` of a string uses it, which leaves single quotes alone.
def escapeDebug (encoding : AuditEncoding) (c : Char) : List Char :=
  if c = '\x00' then ['\\','0']
  else if c = '\t' then ['\\','t']
  else if c = '\r' then ['\\','r']
  else if c = '\n' then ['\\','n']
  else if c = '\\' then ['\\','\\']
  else if c = '\"' then ['\\','\"']
  else if encoding.numbered c then numberedChar c
  else [c]

def debugString (encoding : AuditEncoding) (text : String) : List Char :=
  '\"' :: (text.toList.flatMap (escapeDebug encoding) ++ ['\"'])

def debugOption (encoding : AuditEncoding) : Option String → List Char
  | none => ['N','o','n','e']
  | some text => ['S','o','m','e','('] ++ (debugString encoding text ++ [')'])

def debugEntry (encoding : AuditEncoding) (entry : String × String) : List Char :=
  debugString encoding entry.1 ++ ':' :: ' ' :: debugString encoding entry.2

def debugMetadata (encoding : AuditEncoding) (metadata : Metadata) : List Char :=
  match metadata.entries with
  | [] => ['\x7b','\x7d']
  | first :: rest => '\x7b' :: (debugEntry encoding first ++
      rest.flatMap (fun entry => ',' :: ' ' :: debugEntry encoding entry) ++ ['\x7d'])

-- `format!("{}|{}|{}|{}|{}|{:?}|{:?}", ..)`
def AuditEvent.canonical (event : AuditEvent) (encoding : AuditEncoding) : List Char :=
  (encoding.uuidText event.eventId).toList ++ '|' :: ((encoding.instantText event.occurredAt).toList ++ '|' ::
    (event.actor.toList ++ '|' :: (event.action.toList ++ '|' :: (event.outcome.toList ++ '|' ::
      (debugMetadata encoding event.metadata ++ '|' :: debugOption encoding event.previousHash)))))

def AuditEvent.calculateHash (event : AuditEvent) (encoding : AuditEncoding) : String :=
  encoding.sha256Hex (String.ofList (event.canonical encoding))

def AuditEvent.withPreviousHash (event : AuditEvent) (encoding : AuditEncoding)
    (previousHash : Option String) :
    AuditEvent :=
  let event := {event with previousHash:=previousHash}
  {event with eventHash:=event.calculateHash encoding}

-- `AuditEvent::new`, with the identifier and the instant that it draws.
def AuditEvent.new (encoding : AuditEncoding) (eventId : Uuid) (now : Time) (taskId : Option TaskId)
    (tenantId : TenantId) (actor action outcome : String) (metadata : Metadata)
    (previousHash : Option String) : AuditEvent :=
  let event : AuditEvent := ⟨eventId,taskId,tenantId,actor,action,outcome,now,metadata,previousHash,""⟩
  {event with eventHash:=event.calculateHash encoding}

def AuditEvent.hasValidHash (event : AuditEvent) (encoding : AuditEncoding) : Bool :=
  event.eventHash == event.calculateHash encoding

inductive MemoryError where
  | sqlite (detail : String)
  | serialization
  deriving DecidableEq, Repr

-- A row of `audit_events`, whose rows stand in the order of their row numbers.
structure AuditRow where
  eventId : String
  tenantId : TenantId
  taskId : Option String
  eventJson : String
  eventHash : String
  occurredAt : String
  deriving DecidableEq, Repr

structure MemoryStore where
  auditEvents : List AuditRow
  deriving DecidableEq, Repr

def MemoryStore.empty : MemoryStore := ⟨[]⟩

def MemoryStore.auditRows (s : MemoryStore) (tenantId : TenantId) : List AuditRow :=
  s.auditEvents.filter (·.tenantId == tenantId)

structure AuditVerification where
  valid : Bool
  checkedEvents : Nat
  failureAt : Option String
  deriving DecidableEq, Repr

def auditRow (encoding : AuditEncoding) (event : AuditEvent) : AuditRow where
  eventId := encoding.uuidText event.eventId
  tenantId := event.tenantId
  taskId := event.taskId.map fun taskId => encoding.uuidText taskId.uuid
  eventJson := encoding.toJson event
  eventHash := event.eventHash
  occurredAt := encoding.rfc3339 event.occurredAt

-- The primary key refuses a second event under one identifier.
def appendAuditEvent (encoding : AuditEncoding) (s : MemoryStore) (event : AuditEvent) :
    Except MemoryError (AuditEvent × MemoryStore) := do
  let previousHash := (s.auditRows event.tenantId).getLast?.map (·.eventHash)
  let chained := event.withPreviousHash encoding previousHash
  let row := auditRow encoding chained
  require (∀ other ∈ s.auditEvents, other.eventId ≠ row.eventId)
    (.sqlite "UNIQUE constraint failed: audit_events.event_id")
  pure (chained,⟨s.auditEvents ++ [row]⟩)

def verifyRows (encoding : AuditEncoding) (tenantId : TenantId) (previousHash : Option String)
    (checked : Nat) : List AuditRow → Except MemoryError AuditVerification
  | [] => .ok ⟨true,checked,none⟩
  | row :: rest => do
    let event ← orFail (encoding.fromJson row.eventJson) .serialization
    if event.tenantId ≠ tenantId ∨ event.previousHash ≠ previousHash ∨ event.eventHash ≠ row.eventHash ∨
        event.hasValidHash encoding = false then
      pure ⟨false,checked,some (encoding.uuidText event.eventId)⟩
    else verifyRows encoding tenantId (some event.eventHash) (checked + 1) rest

def MemoryStore.verifyAuditChain (s : MemoryStore) (encoding : AuditEncoding) (tenantId : TenantId) :
    Except MemoryError AuditVerification :=
  verifyRows encoding tenantId none 0 (s.auditRows tenantId)

-- The events that the rows of a tenant hold, as far as they can be read.
def MemoryStore.auditEventsOf (s : MemoryStore) (encoding : AuditEncoding) (tenantId : TenantId) :
    List AuditEvent :=
  (s.auditRows tenantId).filterMap fun row => encoding.fromJson row.eventJson

end Shaka.Memory
