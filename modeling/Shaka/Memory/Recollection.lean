import Shaka.Library.PairedSteps
import Shaka.Memory.Records

namespace Shaka.Memory
open Shaka.Core Queue CheckedSteps PairedSteps

-- What the memory is for, without texts: the episodes that were kept, what was learned of them, and one
-- item for each tenant, task and key.
structure Recollection where
  episodes : List EpisodicRecord
  knowledge : List SemanticRecord
  working : TenantId → TaskId → String → Option WorkingMemoryItem

def Recollection.empty : Recollection := ⟨[],[],fun _ _ _ => none⟩

def newer (left right : EpisodicRecord) : Prop := right.createdAt ≤ left.createdAt

instance : DecidableRel newer := fun left right =>
    inferInstanceAs (Decidable (right.createdAt ≤ left.createdAt))

def Recollection.recent (memory : Recollection) (tenantId : TenantId) (limit : Nat) : List EpisodicRecord :=
  ((memory.episodes.filter (·.tenantId == tenantId)).insertionSort newer).take limit

def outdated (tenantId : TenantId) (cutoff : Time) (record : EpisodicRecord) : Bool :=
  record.tenantId == tenantId && decide (record.createdAt < cutoff)

def recollect (uuidText : Uuid → String) :
    MemoryCall → Recollection → Except RecordError (MemoryAnswer × Recollection)
  | .appendEpisode record,memory => do
    require (record.content.utf8ByteSize ≤ maxEpisodeContentBytes)
      (.payloadTooLarge "episodic_memory.content" maxEpisodeContentBytes)
    require (record.costMicrounits < 2 ^ 63)
      (.memory (.sqlite "out of range integral type conversion attempted"))
    require (record.elapsedMs < 2 ^ 63) (.memory (.sqlite "out of range integral type conversion attempted"))
    require (∀ other ∈ memory.episodes, other.id ≠ record.id)
      (.memory (.sqlite "UNIQUE constraint failed: episodic_memory.id"))
    pure (.done,{memory with episodes:=memory.episodes ++ [record]})
  | .recentEpisodes tenantId limit,memory => pure (.episodes (memory.recent tenantId limit),memory)
  | .putWorking tenantId taskId item,memory =>
    pure (.done,{memory with working:=fun tenant task key =>
      if tenant = tenantId ∧ task = taskId ∧ key = item.key then some item else memory.working tenant task key})
  | .getWorking now tenantId taskId key,memory =>
    pure (.item ((memory.working tenantId taskId key).filter fun item => decide (now < item.expiresAt)),
      memory)
  | .consolidateEpisode drawn now tenantId episodeId title content,memory => do
    require (∃ record ∈ memory.episodes, record.id = episodeId ∧ record.tenantId = tenantId)
      (.notFound s!"episódio {uuidText episodeId}")
    require (∀ other ∈ memory.knowledge, other.id ≠ drawn)
      (.memory (.sqlite "UNIQUE constraint failed: semantic_memory.id"))
    let record : SemanticRecord := ⟨drawn,tenantId,title,content,some episodeId,1,now⟩
    pure (.consolidated record,{memory with knowledge:=memory.knowledge ++ [record]})
  | .purgeOlderThan now tenantId retention,memory => do
    require (0 ≤ retention) (.invalidRetention "o período deve ser zero ou positivo")
    pure (.deleted (memory.episodes.countP (outdated tenantId (now - retention))),
      {memory with episodes:=memory.episodes.filter fun record => !outdated tenantId (now - retention) record})

-- What the crates promise of their texts: identifiers of 128 bits and times with years of four digits are
-- read back.
structure Readable (texts : RecordTexts) : Prop where
  uuid : ∀ uuid < 2 ^ 128, texts.parseUuid (texts.uuidText uuid) = some uuid
  time : ∀ time, Dated time → texts.parseRfc3339 (timestamp time) = some time

-- The identifiers of a call are of 128 bits, and the times that it writes or compares have years of four
-- digits.
def Legible : MemoryCall → Prop
  | .appendEpisode record =>
    record.id < 2 ^ 128 ∧ (∀ task ∈ record.taskId, task.uuid < 2 ^ 128) ∧ Dated record.createdAt
  | .recentEpisodes .. => True
  | .putWorking _ taskId item => taskId.uuid < 2 ^ 128 ∧ Dated item.expiresAt
  | .getWorking now _ taskId _ => taskId.uuid < 2 ^ 128 ∧ Dated now
  | .consolidateEpisode drawn now _ episodeId .. => drawn < 2 ^ 128 ∧ episodeId < 2 ^ 128 ∧ Dated now
  | .purgeOlderThan now _ retention => Dated (now - retention)

instance : DecidablePred Legible
  | .appendEpisode record =>
    inferInstanceAs (Decidable (record.id < 2 ^ 128 ∧ (∀ task ∈ record.taskId, task.uuid < 2 ^ 128) ∧
      Dated record.createdAt))
  | .recentEpisodes .. => inferInstanceAs (Decidable True)
  | .putWorking _ taskId item => inferInstanceAs (Decidable (taskId.uuid < 2 ^ 128 ∧ Dated item.expiresAt))
  | .getWorking now _ taskId _ => inferInstanceAs (Decidable (taskId.uuid < 2 ^ 128 ∧ Dated now))
  | .consolidateEpisode drawn now _ episodeId .. =>
    inferInstanceAs (Decidable (drawn < 2 ^ 128 ∧ episodeId < 2 ^ 128 ∧ Dated now))
  | .purgeOlderThan now _ retention => inferInstanceAs (Decidable (Dated (now - retention)))

variable {texts : RecordTexts}

def episodeRow (texts : RecordTexts) (record : EpisodicRecord) : EpisodeRow :=
  ⟨texts.uuidText record.id,record.tenantId,record.taskId.map fun id => texts.uuidText id.uuid,record.kind,
    record.content,record.outcome,record.costMicrounits,record.elapsedMs,timestamp record.createdAt⟩

structure KeptEpisode (record : EpisodicRecord) : Prop where
  id : record.id < 2 ^ 128
  task : ∀ task ∈ record.taskId, task.uuid < 2 ^ 128
  createdAt : Dated record.createdAt

-- The tables hold the recollection.
structure Holds (texts : RecordTexts) (s : RecordTables) (memory : Recollection) : Prop where
  episodes : s.episodes = memory.episodes.map (episodeRow texts)
  kept : ∀ record ∈ memory.episodes, KeptEpisode record
  semantic : s.semantic.map (·.id) = memory.knowledge.map fun record => texts.uuidText record.id
  known : ∀ record ∈ memory.knowledge, record.id < 2 ^ 128
  working : ∀ tenantId taskId key, taskId.uuid < 2 ^ 128 →
    s.working.lookup (tenantId,texts.uuidText taskId.uuid,key) =
      (memory.working tenantId taskId key).map fun item => ⟨item.value,timestamp item.expiresAt⟩
  dated : ∀ tenantId taskId key, ∀ item ∈ memory.working tenantId taskId key, item.key = key ∧
    Dated item.expiresAt

theorem Readable.uuid_injective (readable : Readable texts) {left right : Uuid} (small : left < 2 ^ 128)
    (small' : right < 2 ^ 128) (same : texts.uuidText left = texts.uuidText right) : left = right := by
  have read := readable.uuid left small
  rw [same,readable.uuid right small'] at read
  exact (Option.some.inj read).symm

theorem fromSqlInteger_natCast (column value : Nat) : fromSqlInteger column value = .ok value := by
  simp only [fromSqlInteger,bind_ok,require_ok,pure_ok,exists_const]
  exact ⟨Int.natCast_nonneg value,Int.toNat_natCast value⟩

theorem readEpisode_row (readable : Readable texts) {record : EpisodicRecord} (kept : KeptEpisode record) :
    readEpisode texts record.tenantId (episodeRow texts record) = .ok record := by
  obtain ⟨id,tenantId,taskId,kind,content,outcome,cost,elapsed,createdAt⟩ := record
  have task : readTask texts (taskId.map fun id => texts.uuidText id.uuid) = .ok taskId := by
    cases taskId with
    | none => rfl
    | some task =>
      simp only [Option.map_some,readTask,bind_ok,orFail_ok,pure_ok]
      exact ⟨_,readable.uuid task.uuid (kept.task task rfl),rfl⟩
  simp only [readEpisode,episodeRow,bind_ok,orFail_ok,fromSqlInteger_natCast,pure_ok]
  exact ⟨id,readable.uuid id kept.id,taskId,task,createdAt,readable.time createdAt kept.createdAt,cost,rfl,
    elapsed,rfl,rfl⟩

theorem newerByText_row {left right : EpisodicRecord} (kept : KeptEpisode left) (kept' : KeptEpisode right) :
    newerByText (episodeRow texts left) (episodeRow texts right) ↔ newer left right := by
  unfold newerByText newer
  rw [show textOrder (episodeRow texts left).createdAt (episodeRow texts right).createdAt = _ from
    timestamp_compare kept.createdAt kept'.createdAt,ne_eq,compare_lt_iff_lt,Int.not_lt]

-- The newest rows of a tenant are those of its newest episodes, and each is read as the episode that it was
-- written for.
theorem recentEpisodes_recalled (readable : Readable texts) {s : RecordTables} {memory : Recollection}
    (holds : Holds texts s memory) (tenantId : TenantId) (limit : Nat) :
    s.recentEpisodes texts tenantId limit = .ok (memory.recent tenantId limit) := by
  have chosen : s.episodes.filter (·.tenantId == tenantId) =
      (memory.episodes.filter (·.tenantId == tenantId)).map (episodeRow texts) := by
    rw [holds.episodes,List.filter_map]
    rfl
  have sorted := List.map_insertionSort newer newerByText (episodeRow texts)
    (memory.episodes.filter (·.tenantId == tenantId))
    fun left listed right listed' => (newerByText_row (holds.kept left (List.mem_of_mem_filter listed))
      (holds.kept right (List.mem_of_mem_filter listed'))).symm
  rw [RecordTables.recentEpisodes,RecordTables.recentRows,chosen,← sorted,← List.map_take]
  apply mapM_reads
  intro record listed
  have member := (List.mem_insertionSort newer).mp (List.mem_of_mem_take listed)
  obtain ⟨stored,owned⟩ := List.mem_filter.mp member
  obtain rfl := beq_iff_eq.mp owned
  exact readEpisode_row readable (holds.kept record stored)

theorem outdated_row {record : EpisodicRecord} (kept : KeptEpisode record) {tenantId : TenantId}
    {cutoff : Time} (dated : Dated cutoff) : ((episodeRow texts record).tenantId == tenantId &&
      textOrder (episodeRow texts record).createdAt (timestamp cutoff) == .lt) =
        outdated tenantId cutoff record := by
  unfold outdated
  rw [show textOrder (episodeRow texts record).createdAt (timestamp cutoff) =
    _ from timestamp_compare kept.createdAt dated]
  congr 1
  rw [Bool.eq_iff_iff,beq_iff_eq,decide_eq_true_iff,compare_lt_iff_lt]

-- One call, from tables that hold the recollection.

theorem append_holds (readable : Readable texts) {s : RecordTables} {memory : Recollection}
    {record : EpisodicRecord} (holds : Holds texts s memory) (legible : Legible (.appendEpisode record)) :
    Paired (Ends (Holds texts)) ((MemoryCall.appendEpisode record).run texts s)
      (recollect texts.uuidText (.appendEpisode record) memory) := by
  obtain ⟨small,tasks,dated⟩ := legible
  simp only [MemoryCall.run,RecordTables.appendEpisode,toSqlInteger,recollect,bind_assoc,pure_bind]
  apply Paired.require Iff.rfl
  intro _
  apply Paired.require Iff.rfl
  intro _
  apply Paired.require Iff.rfl
  intro _
  apply Paired.require
  · rw [holds.episodes,List.forall_mem_map]
    exact forall₂_congr fun other listed =>
      not_congr ⟨readable.uuid_injective (holds.kept other listed).id small,congrArg texts.uuidText⟩
  · intro _
    refine .ok ⟨rfl,{holds with episodes:=?_,kept:=?_}⟩
    · simp only [holds.episodes,List.map_append,List.map_cons,List.map_nil]
      rfl
    · intro other listed
      rcases List.mem_append.mp listed with old | new
      · exact holds.kept other old
      · obtain rfl := List.mem_singleton.mp new
        exact ⟨small,tasks,dated⟩

theorem put_holds (readable : Readable texts) {s : RecordTables} {memory : Recollection}
    {tenantId : TenantId} {taskId : TaskId} {item : WorkingMemoryItem} (holds : Holds texts s memory)
    (legible : Legible (.putWorking tenantId taskId item)) :
    Paired (Ends (Holds texts)) ((MemoryCall.putWorking tenantId taskId item).run texts s)
      (recollect texts.uuidText (.putWorking tenantId taskId item) memory) := by
  obtain ⟨small,dated⟩ := legible
  refine .ok ⟨rfl,{holds with working:=?_,dated:=?_}⟩
  · intro tenant task key small'
    dsimp only
    have same : (tenant,texts.uuidText task.uuid,key) = (tenantId,texts.uuidText taskId.uuid,item.key) ↔
        tenant = tenantId ∧ task = taskId ∧ key = item.key := by
      rw [Prod.mk.injEq,Prod.mk.injEq]
      refine and_congr_right fun _ => and_congr_left fun _ => ⟨fun texts' => ?_,fun tasks => tasks ▸ rfl⟩
      have uuid := readable.uuid_injective small' small texts'
      cases task
      cases taskId
      exact congrArg TaskId.mk uuid
    by_cases here : tenant = tenantId ∧ task = taskId ∧ key = item.key
    · rw [same.mpr here,RecordTables.putWorking,AList.lookup_insert,if_pos here]
      rfl
    · rw [RecordTables.putWorking,AList.lookup_insert_ne (fun equal => here (same.mp equal)),if_neg here]
      exact holds.working tenant task key small'
  · intro tenant task key other held
    simp only at held
    split at held
    · next here =>
      obtain rfl := Option.some.inj held
      exact ⟨here.2.2.symm,dated⟩
    · exact holds.dated tenant task key other held

theorem getWorking_recalled (readable : Readable texts) {s : RecordTables} {memory : Recollection}
    {now : Time} {tenantId : TenantId} {taskId : TaskId} {key : String} (holds : Holds texts s memory)
    (small : taskId.uuid < 2 ^ 128) (current : Dated now) : s.getWorking texts now tenantId taskId key =
      .ok ((memory.working tenantId taskId key).filter fun item => decide (now < item.expiresAt)) := by
  rw [RecordTables.getWorking,holds.working tenantId taskId key small]
  cases held : memory.working tenantId taskId key with
  | none => rfl
  | some item =>
    obtain ⟨named,dated⟩ := holds.dated tenantId taskId key item held
    have live : (textOrder (timestamp item.expiresAt) (timestamp now) == .gt) =
        decide (now < item.expiresAt) := by
      rw [timestamp_compare dated current,Bool.eq_iff_iff,beq_iff_eq,decide_eq_true_iff,compare_gt_iff_gt]
    simp only [Option.map_some,Option.filter_some,live]
    by_cases after : now < item.expiresAt
    · simp only [decide_eq_true after,if_true,bind_ok,orFail_ok,pure_ok]
      exact ⟨item.expiresAt,readable.time item.expiresAt dated,named ▸ rfl⟩
    · simp only [decide_eq_false after,Bool.false_eq_true,if_false]
      rfl

theorem consolidate_holds (readable : Readable texts) {s : RecordTables} {memory : Recollection}
    {drawn : Uuid} {now : Time} {tenantId : TenantId} {episodeId : Uuid} {title content : String}
    (holds : Holds texts s memory)
    (legible : Legible (.consolidateEpisode drawn now tenantId episodeId title content)) :
    Paired (Ends (Holds texts)) ((MemoryCall.consolidateEpisode drawn now tenantId episodeId title
      content).run texts s)
      (recollect texts.uuidText (.consolidateEpisode drawn now tenantId episodeId title content) memory) := by
  obtain ⟨small,source,_⟩ := legible
  simp only [MemoryCall.run,RecordTables.consolidateEpisode,recollect,bind_assoc,pure_bind]
  apply Paired.require
  · rw [holds.episodes]
    simp only [List.mem_map,exists_exists_and_eq_and]
    exact exists_congr fun record => and_congr_right fun listed =>
      and_congr_left fun _ => ⟨readable.uuid_injective (holds.kept record listed).id source,
        congrArg texts.uuidText⟩
  · intro _
    apply Paired.require
    · have texts' : (∀ row ∈ s.semantic, row.id ≠ texts.uuidText drawn) ↔
          ∀ text ∈ s.semantic.map (·.id), text ≠ texts.uuidText drawn := by simp only [List.forall_mem_map]
      rw [texts',holds.semantic,List.forall_mem_map]
      exact forall₂_congr fun other listed =>
        not_congr ⟨readable.uuid_injective (holds.known other listed) small,congrArg texts.uuidText⟩
    · intro _
      refine .ok ⟨rfl,{holds with semantic:=?_,known:=?_}⟩
      · simp only [List.map_append,holds.semantic,List.map_cons,List.map_nil]
      · intro other listed
        rcases List.mem_append.mp listed with old | new
        · exact holds.known other old
        · obtain rfl := List.mem_singleton.mp new
          exact small

theorem purge_holds {s : RecordTables} {memory : Recollection} {now : Time} {tenantId : TenantId}
    {retention : Int} (holds : Holds texts s memory)
    (legible : Legible (.purgeOlderThan now tenantId retention)) :
    Paired (Ends (Holds texts)) ((MemoryCall.purgeOlderThan now tenantId retention).run texts s)
      (recollect texts.uuidText (.purgeOlderThan now tenantId retention) memory) := by
  simp only [MemoryCall.run,RecordTables.purgeOlderThan,recollect,bind_assoc,pure_bind]
  apply Paired.require Iff.rfl
  intro _
  have old : ∀ record ∈ memory.episodes, ((episodeRow texts record).tenantId == tenantId &&
      textOrder (episodeRow texts record).createdAt (timestamp (now - retention)) == .lt) =
        outdated tenantId (now - retention) record := fun record listed => outdated_row (holds.kept record listed) legible
  refine .ok ⟨?_,{holds with episodes:=?_,kept:=?_}⟩
  · rw [holds.episodes,List.countP_map]
    exact congrArg MemoryAnswer.deleted (List.countP_congr fun record listed => by rw [Function.comp_apply,old record listed])
  · rw [holds.episodes,List.filter_map]
    exact congrArg (List.map (episodeRow texts)) (List.filter_congr fun record listed => by
      rw [Function.comp_apply,old record listed])
  · exact fun record listed => holds.kept record (List.mem_of_mem_filter listed)

theorem call_holds (readable : Readable texts) {s : RecordTables} {memory : Recollection} {call : MemoryCall}
    (holds : Holds texts s memory) (legible : Legible call) :
    Paired (Ends (Holds texts)) (call.run texts s) (recollect texts.uuidText call memory) := by
  cases call with
  | appendEpisode => exact append_holds readable holds legible
  | recentEpisodes tenantId limit =>
    simp only [MemoryCall.run,recentEpisodes_recalled readable holds]
    exact .ok ⟨rfl,holds⟩
  | putWorking => exact put_holds readable holds legible
  | getWorking =>
    simp only [MemoryCall.run,getWorking_recalled readable holds legible.1 legible.2]
    exact .ok ⟨rfl,holds⟩
  | consolidateEpisode => exact consolidate_holds readable holds legible
  | purgeOlderThan => exact purge_holds holds legible

theorem empty_holds (texts : RecordTexts) : Holds texts .empty .empty where
  episodes := rfl
  kept := fun _ listed => absurd listed List.not_mem_nil
  semantic := rfl
  known := fun _ listed => absurd listed List.not_mem_nil
  working := fun _ _ _ _ => rfl
  dated := fun _ _ _ item held => absurd held (Option.not_mem_none item)

theorem runs_hold (readable : Readable texts) {calls : List MemoryCall}
    (legible : ∀ call ∈ calls, Legible call) :
    answers (MemoryCall.run texts) .empty calls = answers (recollect texts.uuidText) .empty calls ∧
    Holds texts (stateAfter (MemoryCall.run texts) .empty calls)
      (stateAfter (recollect texts.uuidText) .empty calls) := by
  apply calls_paired
  · intro call made s memory holds
    exact call_holds readable holds (legible call made)
  · exact empty_holds texts

end Shaka.Memory
