import Shaka.Library.CheckedSteps

namespace LinkedJournal
open CheckedSteps

-- An append-only journal whose entries are numbered, carry the digest of their
-- predecessor and transform a state.
structure Discipline (σ ε γ err : Type) where
  number : ε → Nat
  previous : ε → Option γ
  digest : ε → γ
  sealed : ε → Bool
  apply : σ → ε → Except err σ

structure Cursor (σ γ : Type) where
  state : σ
  expected : Nat
  last : Option γ
  deriving DecidableEq, Repr

variable {σ ε γ err : Type} [DecidableEq γ]

def start (initial : σ) : Cursor σ γ := ⟨initial,1,none⟩

def linked (discipline : Discipline σ ε γ err) (cursor : Cursor σ γ) (entry : ε) : Bool :=
  discipline.number entry == cursor.expected && discipline.previous entry == cursor.last &&
    discipline.sealed entry

-- One entry of the scan: a broken link is reported before the entry is applied.
def advance (discipline : Discipline σ ε γ err) (broken : err) (cursor : Cursor σ γ) (entry : ε) :
    Except err (Cursor σ γ) := do
  require (linked discipline cursor entry = true) broken
  let state ← discipline.apply cursor.state entry
  pure ⟨state,cursor.expected + 1,some (discipline.digest entry)⟩

def scan (discipline : Discipline σ ε γ err) (broken : err) (initial : σ) (entries : List ε) :
    Except err (Cursor σ γ) :=
  foldEach (advance discipline broken) (start initial) entries

theorem advance_ok {discipline : Discipline σ ε γ err} {broken : err} {cursor next : Cursor σ γ} {entry : ε} :
    advance discipline broken cursor entry = .ok next ↔
      linked discipline cursor entry = true ∧ ∃ state, discipline.apply cursor.state entry = .ok state ∧
        ⟨state,cursor.expected + 1,some (discipline.digest entry)⟩ = next := by
  simp only [advance,bind_ok,require_ok,pure_ok,exists_const]

-- A journal that scans keeps scanning when an entry is appended that continues
-- the numbering, links to the last digest and applies to the state reached.
theorem scan_snoc {discipline : Discipline σ ε γ err} {broken : err} {initial : σ} {entries : List ε}
    {cursor next : Cursor σ γ} {entry : ε} (scanned : scan discipline broken initial entries = .ok cursor)
    (appended : advance discipline broken cursor entry = .ok next) :
    scan discipline broken initial (entries ++ [entry]) = .ok next := by
  refine foldEach_append_ok scanned ?_
  rw [foldEach_cons,appended]
  rfl

-- The states of a scan are those of the plain fold.
theorem fold_states {discipline : Discipline σ ε γ err} {broken : err} {entries : List ε}
    {cursor next : Cursor σ γ} (scanned : foldEach (advance discipline broken) cursor entries = .ok next) :
    foldEach discipline.apply cursor.state entries = .ok next.state := by
  induction entries generalizing cursor with
  | nil => cases scanned; rfl
  | cons entry rest ih =>
    obtain ⟨middle,first,others⟩ := bind_ok.mp scanned
    obtain ⟨_,state,applied,rfl⟩ := advance_ok.mp first
    exact bind_ok.mpr ⟨state,applied,ih others⟩

theorem fold_expected {discipline : Discipline σ ε γ err} {broken : err} {entries : List ε}
    {cursor next : Cursor σ γ} (scanned : foldEach (advance discipline broken) cursor entries = .ok next) :
    next.expected = cursor.expected + entries.length := by
  induction entries generalizing cursor with
  | nil => cases scanned; rfl
  | cons entry rest ih =>
    obtain ⟨middle,first,others⟩ := bind_ok.mp scanned
    obtain ⟨_,state,_,rfl⟩ := advance_ok.mp first
    rw [ih others,List.length_cons]
    simp only
    omega

theorem scan_expected {discipline : Discipline σ ε γ err} {broken : err} {initial : σ} {entries : List ε}
    {cursor : Cursor σ γ} (scanned : scan discipline broken initial entries = .ok cursor) :
    cursor.expected = entries.length + 1 := by
  rw [fold_expected scanned]
  simp only [start]
  omega

theorem fold_last {discipline : Discipline σ ε γ err} {broken : err} {entries : List ε}
    {cursor next : Cursor σ γ} (scanned : foldEach (advance discipline broken) cursor entries = .ok next) :
    next.last = (entries.getLast?.map discipline.digest).or cursor.last := by
  induction entries generalizing cursor with
  | nil => cases scanned; rfl
  | cons entry rest ih =>
    obtain ⟨middle,first,others⟩ := bind_ok.mp scanned
    obtain ⟨_,state,_,rfl⟩ := advance_ok.mp first
    rw [ih others]
    cases rest with
    | nil => rfl
    | cons second later =>
      rw [List.getLast?_cons_cons]
      cases tail : (second :: later).getLast? with
      | none => simp at tail
      | some final => rfl

theorem scan_last {discipline : Discipline σ ε γ err} {broken : err} {initial : σ} {entries : List ε}
    {cursor : Cursor σ γ} (scanned : scan discipline broken initial entries = .ok cursor) :
    cursor.last = entries.getLast?.map discipline.digest := by
  rw [fold_last scanned]
  simp [start]

-- Every entry of a scanned journal carries its position and the digest before it.
theorem fold_entry {discipline : Discipline σ ε γ err} {broken : err} {entries : List ε}
    {cursor next : Cursor σ γ} (scanned : foldEach (advance discipline broken) cursor entries = .ok next)
    {index : Nat} {entry : ε} (present : entries[index]? = some entry) :
    discipline.number entry = cursor.expected + index ∧ discipline.sealed entry = true ∧
      (discipline.previous entry = if index = 0 then cursor.last
        else (entries[index - 1]?).map discipline.digest) := by
  induction entries generalizing cursor index with
  | nil => simp at present
  | cons first rest ih =>
    obtain ⟨middle,head,others⟩ := bind_ok.mp scanned
    obtain ⟨link,state,_,rfl⟩ := advance_ok.mp head
    simp only [linked,Bool.and_eq_true,beq_iff_eq] at link
    cases index with
    | zero =>
      simp only [List.getElem?_cons_zero,Option.some.injEq] at present
      subst present
      exact ⟨link.1.1,link.2,by simpa using link.1.2⟩
    | succ index =>
      obtain ⟨number,sealed,previous⟩ := ih others (by simpa using present)
      refine ⟨by simp only at number; omega,sealed,?_⟩
      rw [previous]
      cases index with
      | zero => simp
      | succ index => simp

theorem scan_entry {discipline : Discipline σ ε γ err} {broken : err} {initial : σ} {entries : List ε}
    {cursor : Cursor σ γ} (scanned : scan discipline broken initial entries = .ok cursor)
    {index : Nat} {entry : ε} (present : entries[index]? = some entry) :
    discipline.number entry = index + 1 ∧ discipline.sealed entry = true ∧
      (discipline.previous entry = if index = 0 then none
        else (entries[index - 1]?).map discipline.digest) := by
  obtain ⟨number,sealed,previous⟩ := fold_entry scanned present
  exact ⟨by simp only [start] at number; omega,sealed,previous⟩

-- Conversely, entries that are so placed scan as far as they apply.
theorem fold_placed {discipline : Discipline σ ε γ err} {broken : err} {entries : List ε}
    {cursor : Cursor σ γ} {final : σ} (placed : ∀ index entry, entries[index]? = some entry →
      discipline.number entry = cursor.expected + index ∧ discipline.sealed entry = true ∧
        (discipline.previous entry = if index = 0 then cursor.last
          else (entries[index - 1]?).map discipline.digest))
    (applied : foldEach discipline.apply cursor.state entries = .ok final) :
    ∃ next, foldEach (advance discipline broken) cursor entries = .ok next ∧ next.state = final := by
  induction entries generalizing cursor with
  | nil => exact ⟨cursor,rfl,Except.ok.inj applied⟩
  | cons first rest ih =>
    obtain ⟨middle,head,others⟩ := bind_ok.mp applied
    obtain ⟨number,sealed,previous⟩ := placed 0 first rfl
    have link : linked discipline cursor first = true := by
      simp only [linked,number,previous,sealed,Nat.add_zero,if_true,beq_self_eq_true,Bool.and_self]
    obtain ⟨next,scanned,state⟩ := @ih ⟨middle,cursor.expected + 1,some (discipline.digest first)⟩ (by
      intro index entry present
      obtain ⟨number,sealed,previous⟩ := placed (index + 1) entry (by simpa using present)
      refine ⟨by simp only; omega,sealed,?_⟩
      rw [previous]
      cases index with
      | zero => simp
      | succ index => simp) others
    exact ⟨next,bind_ok.mpr ⟨_,advance_ok.mpr ⟨link,middle,head,rfl⟩,scanned⟩,state⟩

-- The entries are numbered from 1, each carries the digest before it and its own seal.
def Chained (discipline : Discipline σ ε γ err) (entries : List ε) : Prop :=
  ∀ index entry, entries[index]? = some entry → discipline.number entry = index + 1 ∧
    discipline.sealed entry = true ∧
    (discipline.previous entry = if index = 0 then none else (entries[index - 1]?).map discipline.digest)

theorem scan_iff {discipline : Discipline σ ε γ err} {broken : err} {initial final : σ} {entries : List ε} :
    (∃ cursor : Cursor σ γ, scan discipline broken initial entries = .ok cursor ∧ cursor.state = final) ↔
      Chained discipline entries ∧ foldEach discipline.apply initial entries = .ok final := by
  constructor
  · rintro ⟨cursor,scanned,rfl⟩
    exact ⟨fun index entry present => scan_entry scanned present,fold_states scanned⟩
  · rintro ⟨chained,applied⟩
    refine fold_placed (fun index entry present => ?_) applied
    obtain ⟨number,sealed,previous⟩ := chained index entry present
    exact ⟨by simp only [start]; omega,sealed,previous⟩

end LinkedJournal
