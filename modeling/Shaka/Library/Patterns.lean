import Mathlib.Data.List.Basic
import Mathlib.Data.List.TakeWhile
import Mathlib.Data.List.Induction
import Mathlib.Data.List.Forall2

namespace Patterns

-- A pattern over characters. Where it leaves a choice, the first that leads to a match is taken:
-- the left side of an alternative, and one more character before none.
inductive Pattern where
  | empty
  | one (accepts : Char → Bool)
  | many (accepts : Char → Bool)
  | opt (inner : Pattern)
  | seq (first second : Pattern)
  | alt (first second : Pattern)
  | boundary (isWord : Char → Bool)

-- The character that stands last in a text, after `prev`.
def lastOf (prev : Option Char) (text : List Char) : Option Char := text.getLast?.or prev

-- The character before a place in a text that has `prev` before it.
def behind (prev : Option Char) (text : List Char) : Nat → Option Char
  | 0 => prev
  | place + 1 => text[place]?

def downTo : Nat → List Nat
  | 0 => [0]
  | count + 1 => (count + 1) :: downTo count

namespace Pattern

-- How much of the text the pattern can match, best choice first.
def ends : Pattern → Option Char → List Char → List Nat
  | empty,_,_ => [0]
  | one _,_,[] => []
  | one accepts,_,c :: _ => if accepts c then [1] else []
  | many accepts,_,text => downTo (text.takeWhile accepts).length
  | opt inner,prev,text => inner.ends prev text ++ [0]
  | seq first second,prev,text => (first.ends prev text).flatMap fun read =>
    (second.ends (behind prev text read) (text.drop read)).map (read + ·)
  | alt first second,prev,text => first.ends prev text ++ second.ends prev text
  | boundary isWord,prev,text => if prev.any isWord = text.head?.any isWord then [] else [0]

def find (p : Pattern) (prev : Option Char) (text : List Char) : Option Nat := (p.ends prev text).head?

def atLeastOne (accepts : Char → Bool) : Pattern := seq (one accepts) (many accepts)

def sequence (first : Pattern) : List Pattern → Pattern
  | [] => first
  | next :: rest => seq first (sequence next rest)

def choice (first : Pattern) : List Pattern → Pattern
  | [] => first
  | next :: rest => alt first (choice next rest)

-- A word, by how a character reads as one of its letters.
def word (reads : Char → Char → Bool) (letters : List Char) : Pattern :=
  letters.foldr (fun letter rest => seq (one (reads letter)) rest) empty

end Pattern

theorem lastOf_append (prev : Option Char) (first second : List Char) :
    lastOf prev (first ++ second) = lastOf (lastOf prev first) second := by
  cases second using List.reverseRecOn with
  | nil => simp [lastOf]
  | append_singleton before c => simp [lastOf,←List.append_assoc]

theorem lastOf_cons (prev : Option Char) (c : Char) (rest : List Char) :
    lastOf prev (c :: rest) = lastOf (some c) rest :=
  lastOf_append prev [c] rest

theorem behind_append (prev : Option Char) (read rest : List Char) :
    behind prev (read ++ rest) read.length = lastOf prev read := by
  cases read using List.reverseRecOn with
  | nil => rfl
  | append_singleton before c => simp [behind,lastOf]

theorem mem_downTo {count place : Nat} : place ∈ downTo count ↔ place ≤ count := by
  induction count with
  | zero => simp [downTo]
  | succ count ih =>
    rw [downTo,List.mem_cons,ih]
    omega

theorem downTo_head (count : Nat) : (downTo count).head? = some count := by
  cases count with
  | zero => rfl
  | succ count => rfl

namespace Pattern

-- What a pattern reads, whatever it tries first: `text` between `prev` and `rest`.
def Reads : Pattern → Option Char → List Char → List Char → Prop
  | empty,_,text,_ => text = []
  | one accepts,_,text,_ => ∃ c, text = [c] ∧ accepts c = true
  | many accepts,_,text,_ => ∀ c ∈ text, accepts c = true
  | opt inner,prev,text,rest => inner.Reads prev text rest ∨ text = []
  | seq first second,prev,text,rest => ∃ before after, text = before ++ after ∧
    first.Reads prev before (after ++ rest) ∧ second.Reads (lastOf prev before) after rest
  | alt first second,prev,text,rest => first.Reads prev text rest ∨ second.Reads prev text rest
  | boundary isWord,prev,text,rest => text = [] ∧ prev.any isWord ≠ rest.head?.any isWord

-- What a pattern can match is what it reads.
theorem mem_ends {p : Pattern} {prev : Option Char} {text : List Char} {place : Nat} :
    place ∈ p.ends prev text ↔ ∃ read rest, text = read ++ rest ∧ read.length = place ∧
    p.Reads prev read rest := by
  induction p generalizing prev text place with
  | empty =>
    simp only [ends,Reads,List.mem_singleton]
    constructor
    · rintro rfl
      exact ⟨[],text,rfl,rfl,rfl⟩
    · rintro ⟨_,rest,_,rfl,rfl⟩
      rfl
  | one accepts =>
    cases text with
    | nil =>
      simp only [ends,Reads,List.not_mem_nil,false_iff]
      rintro ⟨_,rest,same,_,c,rfl,_⟩
      cases same
    | cons c text =>
      simp only [ends,Reads]
      constructor
      · intro listed
        split at listed
        · rename_i accepted
          rw [List.mem_singleton.mp listed]
          exact ⟨[c],text,rfl,rfl,c,rfl,accepted⟩
        · cases listed
      · rintro ⟨_,rest,same,rfl,c',rfl,accepted⟩
        cases same
        rw [if_pos accepted]
        exact List.mem_singleton.mpr rfl
  | many accepts =>
    simp only [ends,Reads,mem_downTo]
    constructor
    · intro within
      refine ⟨text.take place,text.drop place,(List.take_append_drop place text).symm,?_,?_⟩
      · have whole : (text.takeWhile accepts).length ≤ text.length :=
          (List.takeWhile_prefix accepts).length_le
        rw [List.length_take]
        omega
      · intro c listed
        have early : text.take place = (text.takeWhile accepts).take place := by
          obtain ⟨rest,split⟩ := List.takeWhile_prefix (l := text) accepts
          conv_lhs => rw [←split]
          exact List.take_append_of_le_length within
        rw [early] at listed
        exact List.mem_takeWhile_imp (List.mem_of_mem_take listed)
    · rintro ⟨read,rest,rfl,rfl,all⟩
      rw [List.takeWhile_append_of_pos all,List.length_append]
      exact Nat.le_add_right _ _
  | opt inner ih =>
    simp only [ends,Reads,List.mem_append,List.mem_singleton,ih]
    constructor
    · rintro (⟨read,rest,split,long,reads⟩ | rfl)
      · exact ⟨read,rest,split,long,.inl reads⟩
      · exact ⟨[],text,rfl,rfl,.inr rfl⟩
    · rintro ⟨read,rest,split,long,reads | rfl⟩
      · exact .inl ⟨read,rest,split,long,reads⟩
      · exact .inr long.symm
  | seq first second one two =>
    simp only [ends,Reads,List.mem_flatMap,List.mem_map,one,two]
    constructor
    · rintro ⟨_,⟨before,middle,rfl,rfl,reads⟩,_,⟨after,rest,split,rfl,later⟩,rfl⟩
      rw [List.drop_left] at split
      subst split
      rw [behind_append] at later
      exact ⟨before ++ after,rest,(List.append_assoc _ _ _).symm,List.length_append,before,after,rfl,
        reads,later⟩
    · rintro ⟨_,rest,rfl,rfl,before,after,rfl,reads,later⟩
      refine ⟨before.length,⟨before,after ++ rest,List.append_assoc _ _ _,rfl,reads⟩,after.length,
        ⟨after,rest,?_,rfl,?_⟩,List.length_append.symm⟩
      · rw [List.append_assoc,List.drop_left]
      · rw [List.append_assoc,behind_append]
        exact later
  | alt first second one two =>
    simp only [ends,Reads,List.mem_append,one,two]
    constructor
    · rintro (⟨read,rest,split,long,reads⟩ | ⟨read,rest,split,long,reads⟩)
      · exact ⟨read,rest,split,long,.inl reads⟩
      · exact ⟨read,rest,split,long,.inr reads⟩
    · rintro ⟨read,rest,split,long,reads | reads⟩
      · exact .inl ⟨read,rest,split,long,reads⟩
      · exact .inr ⟨read,rest,split,long,reads⟩
  | boundary isWord =>
    simp only [ends,Reads]
    constructor
    · intro listed
      split at listed
      · cases listed
      · rename_i apart
        rw [List.mem_singleton.mp listed]
        exact ⟨[],text,rfl,rfl,rfl,apart⟩
    · rintro ⟨_,rest,rfl,rfl,rfl,apart⟩
      rw [List.nil_append,if_neg apart]
      exact List.mem_singleton.mpr rfl

theorem reads_whole {p : Pattern} {prev : Option Char} {text : List Char}
    (whole : text.length ∈ p.ends prev text) : p.Reads prev text [] := by
  obtain ⟨read,rest,rfl,size,reads⟩ := mem_ends.mp whole
  have none : rest = [] := by
    rw [List.length_append] at size
    exact List.eq_nil_of_length_eq_zero (by omega)
  rw [none,List.append_nil]
  exact none ▸ reads

theorem find_some {p : Pattern} {prev : Option Char} {text : List Char} {place : Nat}
    (found : p.find prev text = some place) :
    ∃ read rest, text = read ++ rest ∧ read.length = place ∧ p.Reads prev read rest :=
  mem_ends.mp (List.mem_of_head? found)

theorem find_none {p : Pattern} {prev : Option Char} {text : List Char} :
    p.find prev text = none ↔ ∀ read rest, text = read ++ rest → ¬ p.Reads prev read rest := by
  rw [find,List.head?_eq_none_iff,List.eq_nil_iff_forall_not_mem]
  constructor
  · intro nothing read rest split reads
    exact nothing read.length (mem_ends.mpr ⟨read,rest,split,rfl,reads⟩)
  · intro never place listed
    obtain ⟨read,rest,split,_,reads⟩ := mem_ends.mp listed
    exact never read rest split reads

theorem find_alt (first second : Pattern) (prev : Option Char) (text : List Char) :
    (alt first second).find prev text = (first.find prev text).or (second.find prev text) := List.head?_append

-- The second part is taken at its best for what the first has read.
theorem find_seq {first second : Pattern} {prev : Option Char} {text : List Char} {place : Nat}
    (found : (seq first second).find prev text = some place) : ∃ before rest more, text = before ++ rest ∧
      first.Reads prev before rest ∧ second.find (lastOf prev before) rest = some more ∧ place = before.length + more := by
  rw [find,ends,List.head?_flatMap] at found
  obtain ⟨read,listed,best⟩ := List.exists_of_findSome?_eq_some found
  obtain ⟨before,rest,rfl,rfl,reads⟩ := mem_ends.mp listed
  rw [List.drop_left,behind_append,List.head?_map] at best
  obtain ⟨more,second,same⟩ := Option.map_eq_some_iff.mp best
  exact ⟨before,rest,more,rfl,reads,second,same.symm⟩

theorem find_many (accepts : Char → Bool) (prev : Option Char) (text : List Char) :
    (many accepts).find prev text = some (text.takeWhile accepts).length := downTo_head _

theorem flatMap_filter {α β : Type} {within : α → Bool} {items : List α} {f : α → List β}
    (outside : ∀ item ∈ items, within item = false → f item = []) :
    items.flatMap f = (items.filter within).flatMap f := by
  induction items with
  | nil => rfl
  | cons item rest ih =>
    have later := ih fun other listed => outside other (List.mem_cons_of_mem _ listed)
    cases inside : within item with
    | true => rw [List.filter_cons_of_pos inside,List.flatMap_cons,List.flatMap_cons,later]
    | false =>
      rw [List.filter_cons_of_neg (by simp [inside]),List.flatMap_cons,
        outside item List.mem_cons_self inside,later]
      rfl

theorem downTo_within (count limit : Nat) : (downTo count).filter (· ≤ limit) = downTo (min count limit) := by
  induction count with
  | zero => simp [downTo]
  | succ count ih =>
    rw [downTo,List.filter_cons]
    split
    · rename_i within
      have small : count + 1 ≤ limit := by simpa using within
      rw [ih,Nat.min_eq_left (Nat.le_of_succ_le small),Nat.min_eq_left small,downTo]
    · rename_i beyond
      have large : limit < count + 1 := by simpa using beyond
      rw [ih,Nat.min_eq_right (Nat.le_of_lt_succ large),Nat.min_eq_right (Nat.le_of_lt large)]

-- Two texts that begin alike offer a pattern the same matches there, in the same order.
theorem ends_within (p : Pattern) (prev : Option Char) (shared : List Char) (c : Char)
    (rest rest' : List Char) : (p.ends prev (shared ++ c :: rest)).filter (· ≤ shared.length) =
      (p.ends prev (shared ++ c :: rest')).filter (· ≤ shared.length) := by
  induction p generalizing prev shared with
  | empty => rfl
  | one accepts =>
    cases shared with
    | nil => simp only [List.nil_append,ends]
    | cons d shared => rfl
  | many accepts =>
    have run : ∀ rest : List Char, min ((shared ++ c :: rest).takeWhile accepts).length shared.length =
        (shared.takeWhile accepts).length := by
      intro rest
      have short := (List.takeWhile_prefix (l := shared) accepts).length_le
      rw [List.takeWhile_append]
      split
      · rename_i all
        rw [List.length_append]
        omega
      · omega
    simp only [ends]
    rw [downTo_within,downTo_within,run,run]
  | opt inner ih =>
    simp only [ends,List.filter_append]
    rw [ih]
  | seq first second one two =>
    have beyond : ∀ text, ∀ read ∈ first.ends prev text, decide (read ≤ shared.length) = false →
        ((second.ends (behind prev text read) (text.drop read)).map (read + ·)).filter
          (· ≤ shared.length) = [] := by
      intro text read _ far
      rw [List.filter_eq_nil_iff]
      intro place listed
      obtain ⟨more,_,rfl⟩ := List.mem_map.mp listed
      have past : shared.length < read := by simpa using far
      simp
      omega
    simp only [ends,List.filter_flatMap]
    rw [flatMap_filter (beyond _),flatMap_filter (beyond _),one]
    apply List.flatMap_congr
    intro read listed
    have near : read ≤ shared.length := by simpa using (List.mem_filter.mp listed).2
    have place : ∀ rest, behind prev (shared ++ c :: rest) read = behind prev shared read := by
      intro rest
      cases read with
      | zero => rfl
      | succ read => exact List.getElem?_append_left near
    have shift : ∀ items : List Nat, (items.map (read + ·)).filter (· ≤ shared.length) =
        (items.filter (· ≤ (shared.drop read).length)).map (read + ·) := by
      intro items
      rw [List.filter_map]
      congr 2
      funext more
      simp
      omega
    rw [place,place,List.drop_append_of_le_length near,List.drop_append_of_le_length near,shift,shift,two]
  | alt first second one two =>
    simp only [ends,List.filter_append]
    rw [one,two]
  | boundary isWord =>
    cases shared with
    | nil => rfl
    | cons d shared => rfl

theorem head_within {items : List Nat} {place limit : Nat} (first : items.head? = some place)
    (near : place ≤ limit) : (items.filter (· ≤ limit)).head? = some place := by
  cases items with
  | nil => cases first
  | cons item rest =>
    cases first
    rw [List.filter_cons_of_pos (by simpa using near)]
    rfl

-- So they have the same match, unless one of the matches reaches beyond what they share.
theorem find_within {p : Pattern} {prev : Option Char} {shared rest rest' : List Char} {c : Char}
    {place : Nat} (found : p.find prev (shared ++ c :: rest) = some place) (near : place ≤ shared.length)
    (other : ∀ place', p.find prev (shared ++ c :: rest') = some place' → place' ≤ shared.length) :
    p.find prev (shared ++ c :: rest') = some place := by
  have one := head_within found near
  rw [ends_within p prev shared c rest rest'] at one
  cases found' : p.find prev (shared ++ c :: rest') with
  | none =>
    rw [List.head?_eq_none_iff.mp found'] at one
    cases one
  | some place' => exact (head_within found' (other place' found')).symm.trans one

-- Patterns that look at nothing but what they read.
def free : Pattern → Bool
  | empty | one _ | many _ => true
  | opt inner => inner.free
  | seq first second | alt first second => first.free && second.free
  | boundary _ => false

theorem reads_free {p : Pattern} (alone : p.free = true) {prev prev' : Option Char}
    {text rest rest' : List Char} : p.Reads prev text rest ↔ p.Reads prev' text rest' := by
  induction p generalizing prev prev' text rest rest' with
  | empty | one accepts | many accepts => rfl
  | opt inner ih =>
    rw [Reads,Reads,ih alone]
  | seq first second one two =>
    obtain ⟨head,tail⟩ := Bool.and_eq_true_iff.mp alone
    constructor
    · rintro ⟨before,after,rfl,reads,later⟩
      exact ⟨before,after,rfl,(one head).mp reads,(two tail).mp later⟩
    · rintro ⟨before,after,rfl,reads,later⟩
      exact ⟨before,after,rfl,(one head).mpr reads,(two tail).mpr later⟩
  | alt first second one two =>
    obtain ⟨head,tail⟩ := Bool.and_eq_true_iff.mp alone
    rw [Reads,Reads,one head,two tail]
  | boundary isWord => cases alone

theorem ends_free {p : Pattern} (alone : p.free = true) (prev prev' : Option Char) (text : List Char) :
    p.ends prev text = p.ends prev' text := by
  induction p generalizing prev prev' text with
  | empty | many accepts => rfl
  | one accepts => cases text <;> rfl
  | opt inner ih =>
    rw [ends,ends,ih alone]
  | seq first second one two =>
    obtain ⟨head,tail⟩ := Bool.and_eq_true_iff.mp alone
    rw [ends,ends,one head prev prev']
    exact List.flatMap_congr fun read _ => by rw [two tail]
  | alt first second one two =>
    obtain ⟨head,tail⟩ := Bool.and_eq_true_iff.mp alone
    rw [ends,ends,one head prev prev',two tail prev prev']
  | boundary isWord => cases alone

-- Patterns no class of which has one of the characters.
def avoids (stops : List Char) : Pattern → Bool
  | one accepts | many accepts => stops.all fun c => !accepts c
  | opt inner => inner.avoids stops
  | seq first second | alt first second => first.avoids stops && second.avoids stops
  | empty | boundary _ => true

theorem avoided {stops : List Char} {accepts : Char → Bool} (never : (stops.all fun c => !accepts c) = true)
    {c : Char} (accepted : accepts c = true) : c ∉ stops := by
  intro listed
  have refused := List.all_eq_true.mp never c listed
  rw [accepted] at refused
  cases refused

theorem reads_avoids {stops : List Char} {p : Pattern} (clear : p.avoids stops = true) {prev : Option Char}
    {text rest : List Char} (reads : p.Reads prev text rest) : ∀ c ∈ text, c ∉ stops := by
  induction p generalizing prev text rest with
  | empty =>
    obtain rfl : text = [] := reads
    exact fun c listed => absurd listed List.not_mem_nil
  | one accepts =>
    obtain ⟨c,rfl,accepted⟩ := reads
    intro d listed
    rw [List.mem_singleton.mp listed]
    exact avoided clear accepted
  | many accepts => exact fun c listed => avoided clear (reads c listed)
  | opt inner ih =>
    rcases reads with inside | rfl
    · exact ih clear inside
    · exact fun c listed => absurd listed List.not_mem_nil
  | seq first second one two =>
    obtain ⟨before,after,rfl,reads,later⟩ := reads
    obtain ⟨head,tail⟩ := Bool.and_eq_true_iff.mp clear
    exact List.forall_mem_append.mpr ⟨one head reads,two tail later⟩
  | alt first second one two =>
    obtain ⟨head,tail⟩ := Bool.and_eq_true_iff.mp clear
    rcases reads with left | right
    · exact one head left
    · exact two tail right
  | boundary isWord =>
    obtain ⟨rfl,_⟩ := reads
    exact fun c listed => absurd listed List.not_mem_nil

-- Patterns that read no empty text.
def consumes : Pattern → Bool
  | one _ => true
  | empty | many _ | opt _ | boundary _ => false
  | seq first second => first.consumes || second.consumes
  | alt first second => first.consumes && second.consumes

theorem reads_consumes {p : Pattern} (some : p.consumes = true) {prev : Option Char} {text rest : List Char}
    (reads : p.Reads prev text rest) : text ≠ [] := by
  induction p generalizing prev text rest with
  | empty | many accepts | opt inner | boundary isWord => cases some
  | one accepts =>
    obtain ⟨c,rfl,_⟩ := reads
    exact List.cons_ne_nil c []
  | seq first second one two =>
    obtain ⟨before,after,rfl,reads,later⟩ := reads
    intro none
    obtain ⟨rfl,rfl⟩ := List.append_eq_nil_iff.mp none
    rcases Bool.or_eq_true_iff.mp some with head | tail
    · exact one head reads rfl
    · exact two tail later rfl
  | alt first second one two =>
    obtain ⟨head,tail⟩ := Bool.and_eq_true_iff.mp some
    rcases reads with left | right
    · exact one head left
    · exact two tail right

theorem word_reads {reads : Char → Char → Bool} {letters : List Char} {prev : Option Char}
    {text rest : List Char} :
    (word reads letters).Reads prev text rest ↔ List.Forall₂ (fun letter c =>
      reads letter c = true) letters text := by
  induction letters generalizing prev text with
  | nil =>
    rw [List.forall₂_nil_left_iff]
    rfl
  | cons letter letters ih =>
    change (∃ before after, _ ∧ (∃ c, _) ∧ (word reads letters).Reads _ _ _) ↔ _
    rw [List.forall₂_cons_left_iff]
    constructor
    · rintro ⟨_,after,rfl,⟨c,rfl,first⟩,later⟩
      exact ⟨c,after,first,ih.mp later,rfl⟩
    · rintro ⟨c,after,first,later,rfl⟩
      exact ⟨[c],after,rfl,⟨c,rfl,first⟩,ih.mpr later⟩

theorem atLeastOne_reads {accepts : Char → Bool} {prev : Option Char} {text rest : List Char} :
    (atLeastOne accepts).Reads prev text rest ↔ text ≠ [] ∧ ∀ c ∈ text, accepts c = true := by
  constructor
  · rintro ⟨_,after,rfl,⟨c,rfl,first⟩,later⟩
    refine ⟨by simp,?_⟩
    exact List.forall_mem_append.mpr ⟨fun d listed => List.mem_singleton.mp listed ▸ first,later⟩
  · rintro ⟨some,all⟩
    obtain ⟨c,after,rfl⟩ := List.exists_cons_of_ne_nil some
    exact ⟨[c],after,rfl,⟨c,rfl,all c List.mem_cons_self⟩,fun d listed =>
      all d (List.mem_cons_of_mem _ listed)⟩

theorem atLeastOne_find {accepts : Char → Bool} {prev : Option Char} {text : List Char} {place : Nat}
    (found : (atLeastOne accepts).find prev text = some place) : place = (text.takeWhile accepts).length := by
  obtain ⟨_,rest,more,rfl,⟨c,rfl,first⟩,later,rfl⟩ := find_seq found
  rw [find_many] at later
  cases later
  rw [List.singleton_append,List.takeWhile_cons_of_pos first,List.length_singleton,List.length_cons,
    Nat.add_comm]

end Pattern
end Patterns
