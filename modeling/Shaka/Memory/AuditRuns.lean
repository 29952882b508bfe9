import Shaka.Memory.AuditText

namespace Shaka.Memory
open Shaka.Core CheckedSteps HashChain

variable {encoding : AuditEncoding}

-- What is checked of the events of a tenant, and of the row that an event is read from.

def auditChain (encoding : AuditEncoding) (tenantId : TenantId) : Discipline AuditEvent String :=
  ⟨(·.previousHash),(·.eventHash),fun event => event.tenantId = tenantId ∧ event.hasValidHash encoding = true⟩

structure Records (encoding : AuditEncoding) (row : AuditRow) (event : AuditEvent) : Prop where
  json : encoding.fromJson row.eventJson = some event
  hash : event.eventHash = row.eventHash

theorem verifyRows_cons {tenantId : TenantId} {previousHash : Option String} {checked : Nat} {row : AuditRow}
    {rest : List AuditRow} {report : AuditVerification} (valid : report.valid = true) :
    verifyRows encoding tenantId previousHash checked (row :: rest) = .ok report ↔
      ∃ event, Records encoding row event ∧ (event.tenantId = tenantId ∧ event.previousHash = previousHash ∧
        event.hasValidHash encoding = true) ∧
        verifyRows encoding tenantId (some event.eventHash) (checked + 1) rest = .ok report := by
  simp only [verifyRows,bind_ok,orFail_ok]
  refine exists_congr fun event => ?_
  constructor
  · rintro ⟨json,answer⟩
    split at answer
    · rw [pure_ok] at answer
      rw [← answer] at valid
      cases valid
    · next sound =>
      simp only [not_or,not_not,Bool.not_eq_false] at sound
      exact ⟨⟨json,sound.2.2.1⟩,⟨sound.1,sound.2.1,sound.2.2.2⟩,answer⟩
  · rintro ⟨⟨json,hash⟩,⟨tenant,link,intact⟩,answer⟩
    refine ⟨json,?_⟩
    rw [if_neg (by simp [tenant,link,hash,intact])]
    exact answer

-- The verification accepts rows exactly when they hold the events of a chain.
theorem verifyRows_valid {tenantId : TenantId} {previousHash : Option String} {checked : Nat}
    {rows : List AuditRow} {report : AuditVerification} (valid : report.valid = true) :
    verifyRows encoding tenantId previousHash checked rows = .ok report ↔
      report = ⟨true,checked + rows.length,none⟩ ∧ ∃ events, List.Forall₂ (Records encoding) rows events ∧
        Linked (auditChain encoding tenantId) previousHash events := by
  induction rows generalizing previousHash checked with
  | nil =>
    simp only [verifyRows,Except.ok.injEq,List.length_nil,Nat.add_zero,List.forall₂_nil_left_iff,
      exists_eq_left,Linked,and_true]
    exact eq_comm
  | cons row rest ih =>
    simp only [verifyRows_cons valid,ih,List.length_cons]
    constructor
    · rintro ⟨event,records,⟨tenant,link,intact⟩,answer,events,held,linked⟩
      exact ⟨by rw [answer,Nat.add_right_comm,Nat.add_assoc],event :: events,.cons records held,
        link,⟨tenant,intact⟩,linked⟩
    · rintro ⟨answer,_,held,linked⟩
      cases held with
      | cons records held =>
        exact ⟨_,records,⟨linked.2.1.1,linked.1,
          linked.2.1.2⟩,by rw [answer,Nat.add_right_comm,Nat.add_assoc],_,held,
          linked.2.2⟩

theorem verified_chain {s : MemoryStore} {tenantId : TenantId} {report : AuditVerification}
    (ok : s.verifyAuditChain encoding tenantId = .ok report) (valid : report.valid = true) :
    Linked (auditChain encoding tenantId) none (s.auditEventsOf encoding tenantId) := by
  obtain ⟨_,events,held,linked⟩ := (verifyRows_valid valid).mp ok
  suffices read : s.auditEventsOf encoding tenantId = events by rw [read]; exact linked
  unfold MemoryStore.auditEventsOf
  generalize s.auditRows tenantId = rows at held
  clear ok linked
  induction held with
  | nil => rfl
  | cons records _ ih => rw [List.filterMap_cons,records.json,ih]

-- The events of a tenant that an append of another tenant leaves as they were.
theorem appended_rows {s s' : MemoryStore} {event chained : AuditEvent} (tenantId : TenantId)
    (ok : appendAuditEvent encoding s event = .ok (chained,s')) :
    s'.auditRows tenantId = s.auditRows tenantId ++ if event.tenantId =
      tenantId then [auditRow encoding chained] else [] := by
  simp only [appendAuditEvent,bind_ok,require_ok,exists_const,pure_ok,Prod.mk.injEq] at ok
  obtain ⟨_,rfl,rfl⟩ := ok
  rw [MemoryStore.auditRows,List.filter_append]
  congr 1
  by_cases mine : event.tenantId = tenantId <;> simp [auditRow,AuditEvent.withPreviousHash,mine]

-- One append after another; one that is refused leaves the store as it was.
def appendAll (encoding : AuditEncoding) : MemoryStore → List AuditEvent → List AuditEvent × MemoryStore
  | s,[] => ([],s)
  | s,event :: rest =>
    match appendAuditEvent encoding s event with
    | .ok (chained,next) => (chained :: (appendAll encoding next rest).1,(appendAll encoding next rest).2)
    | .error _ => appendAll encoding s rest

-- Every row of the tenant is part of one chain that the verification accepts.
def Chained (encoding : AuditEncoding) (tenantId : TenantId) (s : MemoryStore) : Prop :=
  s.verifyAuditChain encoding tenantId = .ok ⟨true,(s.auditRows tenantId).length,none⟩

theorem records_last {rows : List AuditRow} {events : List AuditEvent}
    (held : List.Forall₂ (Records encoding) rows events) :
    rows.getLast?.map (·.eventHash) = events.getLast?.map (·.eventHash) := by
  induction held with
  | nil => rfl
  | cons records held ih =>
    cases held with
    | nil => simp [records.hash]
    | cons next later => simpa only [List.getLast?_cons_cons] using ih

theorem withPreviousHash_intact (event : AuditEvent) (link : Option String) :
    (event.withPreviousHash encoding link).hasValidHash encoding = true :=
  beq_self_eq_true (event.withPreviousHash encoding link).eventHash

theorem append_chained {s s' : MemoryStore} {event chained : AuditEvent} {tenantId : TenantId}
    (start : Chained encoding tenantId s) (ok : appendAuditEvent encoding s event = .ok (chained,s'))
    (faithful : encoding.fromJson (encoding.toJson chained) = some chained) :
    Chained encoding tenantId s' := by
  have rows := appended_rows tenantId ok
  by_cases mine : event.tenantId = tenantId
  · rw [if_pos mine] at rows
    obtain ⟨_,events,held,linked⟩ := (verifyRows_valid rfl).mp start
    simp only [appendAuditEvent,bind_ok,require_ok,exists_const,pure_ok,Prod.mk.injEq] at ok
    obtain ⟨_,rfl,_⟩ := ok
    unfold Chained MemoryStore.verifyAuditChain
    rw [rows]
    refine (verifyRows_valid rfl).mpr ⟨by simp,events ++ [_],
      List.rel_append held (.cons ⟨faithful,rfl⟩ .nil),?_⟩
    refine linked_snoc.mpr ⟨linked,?_,mine,withPreviousHash_intact _ _⟩
    -- the link that is stored is the digest of the last row
    show (s.auditRows event.tenantId).getLast?.map (·.eventHash) = (events.getLast?.map (·.eventHash)).or none
    rw [mine,records_last held,Option.or_none]
  · rw [if_neg mine,List.append_nil] at rows
    unfold Chained MemoryStore.verifyAuditChain
    rw [rows]
    exact start

theorem appendAll_cons {s s' : MemoryStore} {event chained : AuditEvent} {rest : List AuditEvent}
    (ok : appendAuditEvent encoding s event = .ok (chained,s')) :
    appendAll encoding s (event :: rest) = (chained :: (appendAll encoding s' rest).1,
      (appendAll encoding s' rest).2) := by
  rw [appendAll,ok]

theorem appendAll_chained {s : MemoryStore} {events : List AuditEvent} {tenantId : TenantId}
    (start : Chained encoding tenantId s)
    (faithful : ∀ event ∈ (appendAll encoding s events).1, encoding.fromJson (encoding.toJson event) =
      some event) : Chained encoding tenantId (appendAll encoding s events).2 ∧
    ((appendAll encoding s events).2.auditRows tenantId).length =
      (s.auditRows tenantId).length + ((appendAll encoding s events).1.filter (·.tenantId ==
        tenantId)).length := by
  induction events generalizing s with
  | nil => exact ⟨start,by simp [appendAll]⟩
  | cons event rest ih =>
    cases appended : appendAuditEvent encoding s event with
    | error e =>
      rw [appendAll,appended] at faithful ⊢
      exact ih start faithful
    | ok answer =>
      obtain ⟨chained,next⟩ := answer
      rw [appendAll_cons appended] at faithful ⊢
      obtain ⟨verified,counted⟩ := ih (append_chained start appended (faithful chained List.mem_cons_self))
        fun other later => faithful other (List.mem_cons_of_mem _ later)
      refine ⟨verified,counted.trans ?_⟩
      have tenant : chained.tenantId = event.tenantId := by
        simp only [appendAuditEvent,bind_ok,require_ok,exists_const,pure_ok,Prod.mk.injEq] at appended
        obtain ⟨_,rfl,_⟩ := appended
        rfl
      rw [appended_rows tenantId appended,List.length_append,List.filter_cons,tenant]
      by_cases mine : event.tenantId = tenantId
      · simp [mine]
        omega
      · simp [mine]

-- A digest to try the audit with: as sixty-four digits, the length of the text.
def trialHash (text : String) : String :=
  let digits := Nat.toDigits 16 text.utf8ByteSize
  String.ofList (List.replicate (64 - digits.length) '0' ++ digits)

def trialAudit (events : List (String × AuditEvent)) : AuditEncoding where
  sha256Hex := trialHash
  uuidText := fun uuid => String.ofList (Nat.toDigits 16 uuid)
  instantText := fun
    | .ofNat n => String.ofList (Nat.toDigits 16 n)
    | .negSucc n => String.ofList ('-' :: Nat.toDigits 16 n)
  rfc3339 := fun
    | .ofNat n => String.ofList (Nat.toDigits 16 n)
    | .negSucc n => String.ofList ('-' :: Nat.toDigits 16 n)
  numbered := fun _ => false
  toJson := fun event => ((events.find? fun entry => entry.2 == event).map (·.1)).getD ""
  fromJson := fun text => events.lookup text

theorem hexDigits_hex {n : Nat} : (Nat.toDigits 16 n).all isAsciiHexDigit = true := by
  refine List.all_eq_true.mpr fun c listed => ?_
  obtain ⟨digit,small,rfl⟩ := mem_toDigits listed
  have digits : ∀ digit < 16, isAsciiHexDigit (Nat.digitChar digit) = true := by decide
  exact digits digit small

theorem hexDigits_plain {n : Nat} : '|' ∉ Nat.toDigits 16 n := fun bar =>
  absurd (List.all_eq_true.mp hexDigits_hex '|' bar) (by decide)

theorem trialAudit_printed (events : List (String × AuditEvent)) : Printed (trialAudit events) where
  uuid := fun a b same => hexDigits_injective (String.ofList_inj.mp same)
  instant := by
    have unsigned : ∀ n, '-' ∉ Nat.toDigits 16 n := fun n dash =>
      absurd (List.all_eq_true.mp hexDigits_hex '-' dash) (by decide)
    intro a b same
    cases a with
    | ofNat n => cases b with
      | ofNat m => exact congrArg Int.ofNat (hexDigits_injective (String.ofList_inj.mp same))
      | negSucc m => exact absurd (String.ofList_inj.mp same ▸ List.mem_cons_self) (unsigned n)
    | negSucc n => cases b with
      | ofNat m => exact absurd (String.ofList_inj.mp same ▸ List.mem_cons_self) (unsigned m)
      | negSucc m =>
        exact congrArg Int.negSucc (hexDigits_injective (List.cons.inj (String.ofList_inj.mp same)).2)
  uuidPlain := fun uuid => by simpa [trialAudit] using hexDigits_plain
  instantPlain := by
    intro time
    cases time with
    | ofNat n => simpa [trialAudit] using hexDigits_plain
    | negSucc n => simpa [trialAudit] using hexDigits_plain
  hashHex := fun text => by
    have zero : isAsciiHexDigit '0' = true := by decide
    simp [trialAudit,trialHash,zero,hexDigits_hex]

-- Two events, and the same two with another task and with a delimiter moved from
-- one free text to its neighbour.

def auditedEvent (number task : Nat) (tenant actor action : String) (link : Option String) : AuditEvent :=
  AuditEvent.withPreviousHash ⟨number,some ⟨task⟩,⟨tenant⟩,actor,action,"ok",0,.empty,none,
    ""⟩ (trialAudit []) link

def auditedFirst (task : Nat) : AuditEvent := auditedEvent 1 task "tenant" "ana" "run" none

def auditedSecond (actor action : String) : AuditEvent :=
  auditedEvent 2 7 "tenant" actor action (some (auditedFirst 7).eventHash)

def auditedStranger : AuditEvent := auditedEvent 3 9 "other" "ana" "run" none

def auditedEvents : List (String × AuditEvent) :=
  [("first",auditedFirst 7),("second",auditedSecond "ana|b" "run"),
    ("retargeted",auditedFirst 8),("shifted",auditedSecond "ana" "b|run"),("stranger",auditedStranger)]

def auditedStore (names : List String) : MemoryStore :=
  ⟨names.filterMap fun name => (auditedEvents.lookup name).map (auditRow (trialAudit auditedEvents))⟩

end Shaka.Memory
