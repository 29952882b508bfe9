import Shaka.Library.JsonText
import Shaka.Library.PrefixCode
import Shaka.Memory.Recollection

namespace Shaka.Properties
open Shaka.Core Memory Queue CheckedSteps PairedSteps PrefixCode

variable {texts : RecordTexts}

-- The store keeps texts and compares them, and answers every call like the recollection.
theorem memory_recall (readable : Readable texts) {calls : List MemoryCall}
    (legible : ∀ call ∈ calls, Legible call) :
    answers (MemoryCall.run texts) .empty calls = answers (recollect texts.uuidText) .empty calls :=
  (runs_hold readable legible).1

-- What is recalled of a run.

def Purges (record : EpisodicRecord) : MemoryCall → Prop
  | .purgeOlderThan now tenantId retention =>
    0 ≤ retention ∧ outdated tenantId (now - retention) record = true
  | _ => False

variable {σ : Type} {run : MemoryCall → σ → Except RecordError (MemoryAnswer × σ)} {first : σ}

-- An episode was accepted and has not been purged since.
def Recollected (run : MemoryCall → σ → Except RecordError (MemoryAnswer × σ)) (first : σ)
    (calls : List MemoryCall) (record : EpisodicRecord) : Prop :=
  ∃ before later, calls = before ++ .appendEpisode record :: later ∧
    (commit (run (.appendEpisode record)) (stateAfter run first before)).1 = .ok .done ∧ ∀ call ∈ later,
    ¬ Purges record call

theorem recollected_append {calls : List MemoryCall} {call : MemoryCall} {record : EpisodicRecord} :
    Recollected run first (calls ++ [call]) record ↔ (Recollected run first calls record ∧
      ¬ Purges record call) ∨
      (call = .appendEpisode record ∧ (commit (run call) (stateAfter run first calls)).1 = .ok .done) := by
  constructor
  · rintro ⟨before,later,split,accepted,spared⟩
    rcases List.eq_nil_or_concat later with rfl | ⟨sooner,last,rfl⟩
    · obtain ⟨rfl,same⟩ := List.append_inj' split rfl
      obtain rfl := (List.cons.inj same).1
      exact .inr ⟨rfl,accepted⟩
    · rw [List.concat_eq_append,← List.cons_append,← List.append_assoc] at split
      obtain ⟨rfl,same⟩ := List.append_inj' split rfl
      obtain rfl := (List.cons.inj same).1
      rw [List.concat_eq_append] at spared
      exact .inl ⟨⟨before,sooner,rfl,accepted,fun other made => spared other (List.mem_append_left _ made)⟩,
        spared call (List.mem_append_right _ List.mem_cons_self)⟩
  · rintro (⟨⟨before,later,rfl,accepted,spared⟩,kept⟩ | ⟨rfl,accepted⟩)
    · refine ⟨before,later ++ [call],by simp,accepted,fun other made => ?_⟩
      rcases List.mem_append.mp made with old | new
      · exact spared other old
      · obtain rfl := List.mem_singleton.mp new
        exact kept
    · exact ⟨calls,[],rfl,accepted,fun other made => absurd made List.not_mem_nil⟩

variable {uuidText : Uuid → String}

theorem recall_append (record : EpisodicRecord) (memory : Recollection) :
    ((commit (recollect uuidText (.appendEpisode record)) memory).1 = .ok .done ∧
      (∀ other ∈ memory.episodes, other.id ≠ record.id) ∧
      (commit (recollect uuidText (.appendEpisode record)) memory).2.episodes = memory.episodes ++ [record]) ∨
    ((commit (recollect uuidText (.appendEpisode record)) memory).1 ≠ .ok .done ∧
      (commit (recollect uuidText (.appendEpisode record)) memory).2.episodes = memory.episodes) := by
  unfold commit
  cases ran : recollect uuidText (.appendEpisode record) memory with
  | error e => exact .inr ⟨(nomatch ·),rfl⟩
  | ok ends =>
    simp only [recollect,bind_ok,require_ok,pure_ok,exists_const] at ran
    obtain ⟨_,_,_,fresh,rfl⟩ := ran
    exact .inl ⟨rfl,fresh,rfl⟩

theorem recall_quiet (call : MemoryCall) (memory : Recollection) (spares : ∀ record, ¬ Purges record call)
    (other : ∀ record, call ≠ .appendEpisode record) :
    (commit (recollect uuidText call) memory).2.episodes = memory.episodes := by
  apply @commit_preserves _ _ _ _ _ (fun after : Recollection => after.episodes = memory.episodes)
  · intro answer next ran
    cases call with
    | appendEpisode record => exact absurd rfl (other record)
    | purgeOlderThan now tenantId retention =>
      simp only [recollect,bind_ok,require_ok,pure_ok,exists_const,Prod.mk.injEq] at ran
      obtain ⟨kept,_,rfl⟩ := ran
      refine List.filter_eq_self.mpr fun record _ => ?_
      rw [Bool.not_eq_true',Bool.eq_false_iff]
      exact fun old => spares record ⟨kept,old⟩
    | recentEpisodes | putWorking | getWorking =>
      simp only [recollect,pure_ok,Prod.mk.injEq] at ran
      obtain ⟨_,rfl⟩ := ran
      rfl
    | consolidateEpisode =>
      simp only [recollect,bind_ok,require_ok,pure_ok,exists_const,Prod.mk.injEq] at ran
      obtain ⟨_,_,_,rfl⟩ := ran
      rfl
  · rfl

theorem recall_purge (now : Time) (tenantId : TenantId) (retention : Int) (memory : Recollection)
    (record : EpisodicRecord) :
    record ∈ (commit (recollect uuidText (.purgeOlderThan now tenantId retention)) memory).2.episodes ↔
      record ∈ memory.episodes ∧ ¬ Purges record (.purgeOlderThan now tenantId retention) := by
  by_cases proper : 0 ≤ retention
  · have ran : recollect uuidText (.purgeOlderThan now tenantId retention) memory =
        .ok (.deleted (memory.episodes.countP (outdated tenantId (now - retention))),
          {memory with episodes:=memory.episodes.filter fun record => !outdated tenantId (now - retention) record}) := by
      rw [recollect,require_pos _ proper]
      rfl
    rw [commit,ran]
    simp only [List.mem_filter,Bool.not_eq_true',Purges,proper,true_and,Bool.not_eq_true]
  · rw [recall_quiet (.purgeOlderThan now tenantId retention) memory (fun _ purges =>
      proper purges.1) (fun _ same => by cases same)]
    simp only [Purges,proper,false_and,not_false_eq_true,and_true]

theorem recall_episodes (call : MemoryCall) (memory : Recollection) (record : EpisodicRecord) :
    record ∈ (commit (recollect uuidText call) memory).2.episodes ↔
    (record ∈ memory.episodes ∧ ¬ Purges record call) ∨
      (call = .appendEpisode record ∧ (commit (recollect uuidText call) memory).1 = .ok .done) := by
  cases call with
  | appendEpisode new =>
    rcases @recall_append uuidText new memory with ⟨accepted,_,episodes⟩ | ⟨refused,episodes⟩
    · rw [episodes,accepted,List.mem_append,List.mem_singleton]
      simp only [Purges,not_false_eq_true,and_true,MemoryCall.appendEpisode.injEq,@eq_comm _ record new]
    · rw [episodes]
      simp only [Purges,not_false_eq_true,and_true,refused,and_false,or_false]
  | purgeOlderThan now tenantId retention =>
    rw [recall_purge]
    simp only [reduceCtorEq,false_and,or_false]
  | recentEpisodes | putWorking | getWorking | consolidateEpisode =>
    rw [recall_quiet]
    · simp only [Purges,not_false_eq_true,and_true,reduceCtorEq,false_and,or_false]
    · exact fun _ => not_false
    · exact fun _ same => by cases same

theorem episodes_recollected (calls : List MemoryCall) (record : EpisodicRecord) :
    record ∈ (stateAfter (recollect uuidText) .empty calls).episodes ↔
    Recollected (recollect uuidText) .empty calls record := by
  induction calls using List.reverseRecOn with
  | nil =>
    refine iff_of_false List.not_mem_nil ?_
    rintro ⟨before,later,split,_⟩
    exact List.append_ne_nil_of_right_ne_nil before (List.cons_ne_nil _ later) split.symm
  | append_singleton calls call ih => rw [stateAfter_append,recall_episodes,ih,recollected_append]

-- No identifier is kept twice.
theorem episodes_distinct (calls : List MemoryCall) :
    ((stateAfter (recollect uuidText) .empty calls).episodes.map (·.id)).Nodup := by
  induction calls using List.reverseRecOn with
  | nil => exact List.nodup_nil
  | append_singleton calls call ih =>
    rw [stateAfter_append]
    cases call with
    | appendEpisode new =>
      rcases @recall_append uuidText new (stateAfter (recollect uuidText) .empty calls) with ⟨_,fresh,
        episodes⟩ | ⟨_,episodes⟩
      · rw [episodes,List.map_append,List.map_cons,List.map_nil,List.nodup_append]
        refine ⟨ih,List.nodup_singleton _,?_⟩
        intro id listed other same
        obtain ⟨record,kept,rfl⟩ := List.mem_map.mp listed
        rw [List.mem_singleton] at same
        exact same ▸ fresh record kept
      · rw [episodes]
        exact ih
    | purgeOlderThan now tenantId retention =>
      apply @commit_preserves _ _ _ _ _ (fun memory : Recollection => (memory.episodes.map (·.id)).Nodup)
      · intro answer next ran
        simp only [recollect,bind_ok,require_ok,pure_ok,exists_const,Prod.mk.injEq] at ran
        obtain ⟨_,_,rfl⟩ := ran
        exact (List.filter_sublist.map _).nodup ih
      · exact ih
    | recentEpisodes | putWorking | getWorking | consolidateEpisode =>
      rw [recall_quiet]
      · exact ih
      · exact fun _ => not_false
      · exact fun _ same => by cases same

-- The item that a call puts under a tenant, a task and a key.
def putInto (tenantId : TenantId) (taskId : TaskId) (key : String) : MemoryCall → Option WorkingMemoryItem
  | .putWorking tenant task item =>
    if tenantId = tenant ∧ taskId = task ∧ key = item.key then some item else none
  | _ => none

theorem recall_working (call : MemoryCall) (memory : Recollection) (tenantId : TenantId) (taskId : TaskId)
    (key : String) : (commit (recollect uuidText call) memory).2.working tenantId taskId key =
      (putInto tenantId taskId key call).or (memory.working tenantId taskId key) := by
  have kept : (∀ tenant task item, call ≠ .putWorking tenant task item) →
      (commit (recollect uuidText call) memory).2.working = memory.working := by
    intro other
    apply @commit_preserves _ _ _ _ _ (fun after : Recollection => after.working = memory.working)
    · intro answer next ran
      cases call with
      | putWorking tenant task item => exact absurd rfl (other tenant task item)
      | appendEpisode =>
        simp only [recollect,bind_ok,require_ok,pure_ok,exists_const,Prod.mk.injEq] at ran
        obtain ⟨_,_,_,_,_,rfl⟩ := ran
        rfl
      | recentEpisodes | getWorking =>
        simp only [recollect,pure_ok,Prod.mk.injEq] at ran
        obtain ⟨_,rfl⟩ := ran
        rfl
      | consolidateEpisode =>
        simp only [recollect,bind_ok,require_ok,pure_ok,exists_const,Prod.mk.injEq] at ran
        obtain ⟨_,_,_,rfl⟩ := ran
        rfl
      | purgeOlderThan =>
        simp only [recollect,bind_ok,require_ok,pure_ok,exists_const,Prod.mk.injEq] at ran
        obtain ⟨_,_,rfl⟩ := ran
        rfl
    · rfl
  cases call with
  | putWorking tenant task item =>
    change (if tenantId = tenant ∧ taskId = task ∧ key = item.key then some item else _) =
      (if tenantId = tenant ∧ taskId = task ∧ key = item.key then some item else none).or _
    split <;> rfl
  | appendEpisode | recentEpisodes | getWorking | consolidateEpisode | purgeOlderThan =>
    rw [kept]
    · rfl
    · exact fun _ _ _ same => by cases same

theorem working_last (calls : List MemoryCall) (tenantId : TenantId) (taskId : TaskId) (key : String) :
    (stateAfter (recollect uuidText) .empty calls).working tenantId taskId key = calls.reverse.findSome?
      (putInto tenantId taskId key) := by
  induction calls using List.reverseRecOn with
  | nil => rfl
  | append_singleton calls call ih =>
    rw [stateAfter_append,recall_working,ih,List.reverse_append,List.reverse_singleton,
      List.singleton_append,List.findSome?_cons]
    cases putInto tenantId taskId key call <;> rfl

-- The newest of what is remembered of a tenant, no more than the limit.
structure Newest (remembered : EpisodicRecord → Prop) (limit : Nat) (records : List EpisodicRecord) :
    Prop where
  few : records.length ≤ limit
  ordered : records.Pairwise newer
  distinct : (records.map (·.id)).Nodup
  kept : ∀ record ∈ records, remembered record
  complete : ∀ record, remembered record → record ∉ records → records.length = limit ∧ ∀ other ∈ records,
    newer other record

instance : Std.Total newer := ⟨fun left right => le_total right.createdAt left.createdAt⟩

instance : IsTrans EpisodicRecord newer := ⟨fun _ _ _ one two => le_trans (α := Int) two one⟩

theorem recent_newest {memory : Recollection} (distinct : (memory.episodes.map (·.id)).Nodup)
    (tenantId : TenantId) (limit : Nat) :
    Newest (fun record => record ∈ memory.episodes ∧ record.tenantId = tenantId) limit
      (memory.recent tenantId limit) := by
  have sorted := List.pairwise_insertionSort newer (memory.episodes.filter (·.tenantId == tenantId))
  have listed : ∀ record, record ∈ (memory.episodes.filter (·.tenantId == tenantId)).insertionSort newer ↔
      record ∈ memory.episodes ∧ record.tenantId = tenantId := by
    intro record
    rw [List.mem_insertionSort,List.mem_filter,beq_iff_eq]
  have unique : (((memory.episodes.filter (·.tenantId == tenantId)).insertionSort newer).map (·.id)).Nodup :=
    (((List.perm_insertionSort newer _).map _).nodup_iff).mpr ((List.filter_sublist.map _).nodup distinct)
  unfold Recollection.recent
  generalize (memory.episodes.filter (·.tenantId == tenantId)).insertionSort newer = records at *
  refine ⟨List.length_take_le _ _,sorted.sublist (List.take_sublist _ _),
    ((List.take_sublist _ _).map _).nodup unique,?_,?_⟩
  · exact fun record member => (listed record).mp (List.mem_of_mem_take member)
  · intro record remembered absent
    have member := (listed record).mpr remembered
    rw [← List.take_append_drop limit records,List.mem_append] at member
    have dropped := member.resolve_left absent
    rw [← List.take_append_drop limit records,List.pairwise_append] at sorted
    refine ⟨?_,fun other taken => sorted.2.2 other taken record dropped⟩
    have longer := List.length_pos_of_mem dropped
    rw [List.length_drop] at longer
    rw [List.length_take]
    omega

-- However the calls of the tenants were mixed: a tenant is given back the newest of its own episodes that
-- were accepted and not purged since, and under a task and a key the item that was put there last, until it
-- expires.
theorem memory_history (readable : Readable texts) {calls : List MemoryCall}
    (legible : ∀ call ∈ calls, Legible call) : (∀ tenantId limit, ∃ records,
      (stateAfter (MemoryCall.run texts) .empty calls).recentEpisodes texts tenantId limit = .ok records ∧
      Newest (fun record => Recollected (MemoryCall.run texts) .empty calls record ∧
        record.tenantId = tenantId) limit records) ∧
    ∀ now tenantId taskId key, taskId.uuid < 2 ^ 128 → Dated now →
      (stateAfter (MemoryCall.run texts) .empty calls).getWorking texts now tenantId taskId key =
        .ok ((calls.reverse.findSome? (putInto tenantId taskId key)).filter fun item =>
          decide (now < item.expiresAt)) := by
  obtain ⟨_,holds⟩ := runs_hold readable legible
  have remembered : ∀ record, record ∈ (stateAfter (recollect texts.uuidText) .empty calls).episodes ↔
      Recollected (MemoryCall.run texts) .empty calls record := by
    intro record
    rw [episodes_recollected]
    refine exists_congr fun before => exists_congr fun later => and_congr_right fun split =>
      and_congr_left fun _ => ?_
    have prefix' : ∀ call ∈ before, Legible call := fun call made =>
        legible call (split ▸ List.mem_append_left _ made)
    have this : Legible (.appendEpisode record) :=
      legible _ (split ▸ List.mem_append_right _ List.mem_cons_self)
    rw [(call_holds readable (runs_hold readable prefix').2 this).answered]
  constructor
  · intro tenantId limit
    refine ⟨_,recentEpisodes_recalled readable holds tenantId limit,?_⟩
    have newest := recent_newest (@episodes_distinct texts.uuidText calls) tenantId limit
    simp only [remembered] at newest
    exact newest
  · intro now tenantId taskId key small current
    rw [getWorking_recalled readable holds small current,working_last]

-- Texts that are read back.

def hyphenated (uuid : Uuid) : String :=
  let digits := OrderedText.digits JsonValue.hexDigit 16 32 uuid
  String.ofList (digits.take 8 ++ '-' :: ((digits.drop 8).take 4 ++ '-' :: ((digits.drop 12).take 4 ++ '-' ::
    ((digits.drop 16).take 4 ++ '-' :: digits.drop 20))))

theorem hyphenated_apart (left right : Uuid) (small : left < 2 ^ 128) (small' : right < 2 ^ 128)
    (same : hyphenated left = hyphenated right) : left = right := by
  have plain :
      ∀ uuid, (hyphenated uuid).toList.filter (· ≠ '-') = OrderedText.digits JsonValue.hexDigit 16 32
      uuid := by
    intro uuid
    have digit : ∀ value < 16, JsonValue.hexDigit value ≠ '-' := by decide
    have others : ∀ c ∈ OrderedText.digits JsonValue.hexDigit 16 32 uuid, c ≠ '-' := by
      intro c written
      obtain ⟨value,small,rfl⟩ := OrderedText.mem_digits written (by decide)
      exact digit value small
    simp only [hyphenated,String.toList_ofList]
    generalize OrderedText.digits JsonValue.hexDigit 16 32 uuid = digits at others
    have whole :
        digits.take 8 ++ ((digits.drop 8).take 4 ++ ((digits.drop 12).take 4 ++ ((digits.drop 16).take 4 ++
        digits.drop 20))) = digits := by
      have parts :
          ∀ start more, (digits.drop start).take more ++ digits.drop (start + more) = digits.drop start := by
        intro start more
        rw [← List.drop_drop,List.take_append_drop]
      rw [parts 16 4,parts 12 4,parts 8 4,List.take_append_drop]
    have kept := List.filter_eq_self.mpr fun c written => decide_eq_true (others c written)
    conv_rhs => rw [← kept,← whole]
    simp only [List.filter_append,List.filter_cons,ne_eq,not_true_eq_false,decide_false,Bool.false_eq_true,
      if_false]
  have rising :
      ∀ i < 16, ∀ j < 16, byteOrder (JsonValue.hexDigit i) (JsonValue.hexDigit j) = compare i j := by decide
  have digits := plain left
  rw [same,plain right] at digits
  have ordered := OrderedText.digits_compare rising (show left < 16 ^ 32 by omega) (show right <
      16 ^ 32 by omega)
  rw [digits,OrderedText.compare_self] at ordered
  exact compare_eq_iff_eq.mp ordered.symm

noncomputable def readableTexts : RecordTexts :=
  ⟨hyphenated,readBack (· < 2 ^ 128) hyphenated,readBack Dated timestamp⟩

theorem readableTexts_readable : Readable readableTexts where
  uuid := fun _ small => readBack_written hyphenated_apart small
  time := fun _ dated => readBack_written timestamp_apart dated

-- Two tenants; an episode that is purged, and an item that expires.
def trialEpisode (id : Uuid) (tenant : String) (createdAt : Time) : EpisodicRecord :=
  ⟨id,⟨tenant⟩,some ⟨7⟩,"agent_run","feito","success",5,40,createdAt⟩

def memoryTrial : List MemoryCall :=
  [.appendEpisode (trialEpisode 1 "um" 1000000000),.appendEpisode (trialEpisode 2 "um" 2500000000),
    .appendEpisode (trialEpisode 3 "outro" 2000000000),.appendEpisode (trialEpisode 1 "outro" 2000000000),
    .putWorking ⟨"um"⟩ ⟨7⟩ ⟨"plano","rascunho",4000000000⟩,.getWorking 3000000000 ⟨"um"⟩ ⟨7⟩ "plano",
    .getWorking 3000000000 ⟨"outro"⟩ ⟨7⟩ "plano",.purgeOlderThan 3000000000 ⟨"um"⟩ 1000000000,
    .recentEpisodes ⟨"um"⟩ 10,.recentEpisodes ⟨"outro"⟩ 10]

theorem memoryTrial_legible : ∀ call ∈ memoryTrial, Legible call := by
  decide

theorem memory_recall_trial : answers (MemoryCall.run readableTexts) .empty memoryTrial =
    [.ok .done,.ok .done,.ok .done,
      .error (.memory (.sqlite "UNIQUE constraint failed: episodic_memory.id")),
      .ok .done,.ok (.item (some ⟨"plano","rascunho",4000000000⟩)),.ok (.item none),.ok (.deleted 1),
      .ok (.episodes [trialEpisode 2 "um" 2500000000]),.ok (.episodes [trialEpisode 3 "outro" 2000000000])] :=
  (memory_recall readableTexts_readable memoryTrial_legible).trans (by decide +kernel)

theorem memory_history_trial : (∃ records,
    (stateAfter (MemoryCall.run readableTexts) .empty memoryTrial).recentEpisodes readableTexts ⟨"um"⟩ 10 =
      .ok records ∧
    Newest (fun record => Recollected (MemoryCall.run readableTexts) .empty memoryTrial record ∧
      record.tenantId = ⟨"um"⟩) 10 records) ∧
    (stateAfter (MemoryCall.run readableTexts) .empty memoryTrial).getWorking readableTexts 3000000000
      ⟨"um"⟩ ⟨7⟩ "plano" = .ok (some ⟨"plano","rascunho",4000000000⟩) := by
  obtain ⟨episodes,items⟩ := memory_history readableTexts_readable memoryTrial_legible
  refine ⟨episodes ⟨"um"⟩ 10,(items 3000000000 ⟨"um"⟩ ⟨7⟩ "plano" (by decide) (by decide)).trans ?_⟩
  exact congrArg Except.ok (by decide +kernel)

end Shaka.Properties
