import Mathlib.Data.List.AList
import Shaka.Memory.Audit
import Shaka.Queue.TextQueries

namespace Shaka.Memory
open Shaka.Core CheckedSteps Queue

structure EpisodicRecord where
  id : Uuid
  tenantId : TenantId
  taskId : Option TaskId
  kind : String
  content : String
  outcome : String
  costMicrounits : Nat
  elapsedMs : Nat
  createdAt : Time
  deriving DecidableEq, Repr

structure SemanticRecord where
  id : Uuid
  tenantId : TenantId
  title : String
  content : String
  sourceEpisodeId : Option Uuid
  version : Nat
  createdAt : Time
  deriving DecidableEq, Repr

structure WorkingMemoryItem where
  key : String
  value : String
  expiresAt : Time
  deriving DecidableEq, Repr

-- The refusals of the store that those of its audit chain do not have.
inductive RecordError where
  | memory (error : MemoryError)
  | notFound (detail : String)
  | invalidRetention (detail : String)
  | invalidRecord (detail : String)
  | payloadTooLarge (field : String) (maxBytes : Nat)
  deriving DecidableEq, Repr

-- What the records take from other crates: the texts of identifiers and what is read from them, and what is
-- read from the text of a time.
structure RecordTexts where
  uuidText : Uuid → String
  parseUuid : String → Option Uuid
  parseRfc3339 : String → Option Time

def maxEpisodeContentBytes : Nat := 64 * 1024

-- The rows as their columns hold them; those of `episodic_memory` and `semantic_memory` stand in the order
-- of their row numbers.
structure EpisodeRow where
  id : String
  tenantId : TenantId
  taskId : Option String
  kind : String
  content : String
  outcome : String
  costMicrounits : Int
  elapsedMs : Int
  createdAt : String
  deriving DecidableEq, Repr

structure SemanticRow where
  id : String
  tenantId : TenantId
  title : String
  content : String
  sourceEpisodeId : Option String
  version : Nat
  createdAt : String
  deriving DecidableEq, Repr

structure WorkingRow where
  value : String
  expiresAt : String
  deriving DecidableEq, Repr

-- `working_memory` by its primary key, the tenant, the text of the task and the key of the item.
structure RecordTables where
  episodes : List EpisodeRow
  semantic : List SemanticRow
  working : AList fun _ : TenantId × String × String => WorkingRow

def RecordTables.empty : RecordTables := ⟨[],[],∅⟩

-- A `u64` that a column of the database is to hold.
def toSqlInteger (value : Nat) : Except RecordError Int := do
  require (value < 2 ^ 63) (.memory (.sqlite "out of range integral type conversion attempted"))
  pure value

def fromSqlInteger (column : Nat) (value : Int) : Except RecordError Nat := do
  require (0 ≤ value) (.memory (.sqlite s!"Integer {value} out of range at index {column}"))
  pure value.toNat

variable (texts : RecordTexts)

def RecordTables.appendEpisode (record : EpisodicRecord) (s : RecordTables) :
    Except RecordError (Unit × RecordTables) := do
  require (record.content.utf8ByteSize ≤ maxEpisodeContentBytes)
    (.payloadTooLarge "episodic_memory.content" maxEpisodeContentBytes)
  let costMicrounits ← toSqlInteger record.costMicrounits
  let elapsedMs ← toSqlInteger record.elapsedMs
  require (∀ row ∈ s.episodes, row.id ≠ texts.uuidText record.id)
    (.memory (.sqlite "UNIQUE constraint failed: episodic_memory.id"))
  let row : EpisodeRow := ⟨texts.uuidText record.id,record.tenantId,record.taskId.map fun id =>
    texts.uuidText id.uuid,
    record.kind,record.content,record.outcome,costMicrounits,elapsedMs,timestamp record.createdAt⟩
  pure ((),{s with episodes:=s.episodes ++ [row]})

-- `ORDER BY created_at DESC` over the texts of the column.
def newerByText (left right : EpisodeRow) : Prop := textOrder left.createdAt right.createdAt ≠ .lt

instance : DecidableRel newerByText := fun left right =>
  inferInstanceAs (Decidable (textOrder left.createdAt right.createdAt ≠ .lt))

def readTask : Option String → Except RecordError (Option TaskId)
  | none => pure none
  | some text => do
    let uuid ← orFail (texts.parseUuid text) (.invalidRecord "episodic task_id inválido")
    pure (some ⟨uuid⟩)

def readEpisode (tenantId : TenantId) (row : EpisodeRow) : Except RecordError EpisodicRecord := do
  let id ← orFail (texts.parseUuid row.id) (.invalidRecord "episodic id inválido")
  let taskId ← readTask texts row.taskId
  let createdAt ← orFail (texts.parseRfc3339 row.createdAt) (.invalidRecord "episodic created_at inválido")
  let costMicrounits ← fromSqlInteger 5 row.costMicrounits
  let elapsedMs ← fromSqlInteger 6 row.elapsedMs
  pure ⟨id,tenantId,taskId,row.kind,row.content,row.outcome,costMicrounits,elapsedMs,createdAt⟩

def RecordTables.recentRows (tenantId : TenantId) (limit : Nat) (s : RecordTables) : List EpisodeRow :=
  ((s.episodes.filter (·.tenantId == tenantId)).insertionSort newerByText).take limit

def RecordTables.recentEpisodes (tenantId : TenantId) (limit : Nat) (s : RecordTables) :
    Except RecordError (List EpisodicRecord) :=
  (s.recentRows tenantId limit).mapM (readEpisode texts tenantId)

def RecordTables.putWorking (tenantId : TenantId) (taskId : TaskId) (item : WorkingMemoryItem)
    (s : RecordTables) : RecordTables :=
  {s with working:=s.working.insert (tenantId,texts.uuidText taskId.uuid,item.key) ⟨item.value,
    timestamp item.expiresAt⟩}

def RecordTables.getWorking (now : Time) (tenantId : TenantId) (taskId : TaskId) (key : String)
    (s : RecordTables) : Except RecordError (Option WorkingMemoryItem) :=
  match (s.working.lookup (tenantId,texts.uuidText taskId.uuid,key)).filter fun row =>
    textOrder row.expiresAt (timestamp now) == .gt with
  | none => pure none
  | some row => do
    let expiresAt ← orFail (texts.parseRfc3339 row.expiresAt)
      (.invalidRecord "working_memory expires_at inválido")
    pure (some ⟨key,row.value,expiresAt⟩)

-- With the identifier that is drawn and the time that is read for the record.
def RecordTables.consolidateEpisode (drawn : Uuid) (now : Time) (tenantId : TenantId) (episodeId : Uuid)
    (title content : String) (s : RecordTables) : Except RecordError (SemanticRecord × RecordTables) := do
  require (∃ row ∈ s.episodes, row.id = texts.uuidText episodeId ∧ row.tenantId = tenantId)
    (.notFound s!"episódio {texts.uuidText episodeId}")
  let record : SemanticRecord := ⟨drawn,tenantId,title,content,some episodeId,1,now⟩
  require (∀ row ∈ s.semantic, row.id ≠ texts.uuidText drawn)
    (.memory (.sqlite "UNIQUE constraint failed: semantic_memory.id"))
  let row : SemanticRow := ⟨texts.uuidText record.id,record.tenantId,record.title,record.content,
    record.sourceEpisodeId.map texts.uuidText,record.version,timestamp record.createdAt⟩
  pure (record,{s with semantic:=s.semantic ++ [row]})

def RecordTables.purgeOlderThan (now : Time) (tenantId : TenantId) (retention : Int) (s : RecordTables) :
    Except RecordError (Nat × RecordTables) := do
  require (0 ≤ retention) (.invalidRetention "o período deve ser zero ou positivo")
  let old : EpisodeRow → Bool := fun row =>
    row.tenantId == tenantId && textOrder row.createdAt (timestamp (now - retention)) == .lt
  pure (s.episodes.countP old,{s with episodes:=s.episodes.filter fun row => !old row})

inductive MemoryCall where
  | appendEpisode (record : EpisodicRecord)
  | recentEpisodes (tenantId : TenantId) (limit : Nat)
  | putWorking (tenantId : TenantId) (taskId : TaskId) (item : WorkingMemoryItem)
  | getWorking (now : Time) (tenantId : TenantId) (taskId : TaskId) (key : String)
  | consolidateEpisode (drawn : Uuid) (now : Time) (tenantId : TenantId) (episodeId : Uuid)
      (title content : String)
  | purgeOlderThan (now : Time) (tenantId : TenantId) (retention : Int)

inductive MemoryAnswer where
  | done
  | episodes (records : List EpisodicRecord)
  | item (item : Option WorkingMemoryItem)
  | consolidated (record : SemanticRecord)
  | deleted (count : Nat)
  deriving DecidableEq, Repr

def MemoryCall.run : MemoryCall → RecordTables → Except RecordError (MemoryAnswer × RecordTables)
  | .appendEpisode record,s => do
    let (_,s) ← s.appendEpisode texts record
    pure (.done,s)
  | .recentEpisodes tenantId limit,s => do
    let records ← s.recentEpisodes texts tenantId limit
    pure (.episodes records,s)
  | .putWorking tenantId taskId item,s => pure (.done,s.putWorking texts tenantId taskId item)
  | .getWorking now tenantId taskId key,s => do
    let item ← s.getWorking texts now tenantId taskId key
    pure (.item item,s)
  | .consolidateEpisode drawn now tenantId episodeId title content,s => do
    let (record,s) ← s.consolidateEpisode texts drawn now tenantId episodeId title content
    pure (.consolidated record,s)
  | .purgeOlderThan now tenantId retention,s => do
    let (count,s) ← s.purgeOlderThan now tenantId retention
    pure (.deleted count,s)

end Shaka.Memory
