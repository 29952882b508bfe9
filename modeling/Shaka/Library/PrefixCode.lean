import Mathlib.Data.List.Basic

namespace PrefixCode

variable {κ α : Type} {stem : κ → List α}

-- No stem is a prefix of the stem of another kind.
def Apart (stem : κ → List α) : Prop := ∀ a b, stem a <+: stem b → a = b

-- A word determines the kind whose stem it begins with, and so what follows it.
theorem Apart.unique (apart : Apart stem) {a b : κ} {rest other : List α}
    (same : stem a ++ rest = stem b ++ other) : a = b ∧ rest = other := by
  have first : stem a <+: stem b ++ other := same ▸ List.prefix_append _ _
  have kind : a = b := by
    rcases List.prefix_or_prefix_of_prefix first (List.prefix_append _ _) with ab | ba
    · exact apart a b ab
    · exact (apart b a ba).symm
  subst kind
  exact ⟨rfl,List.append_cancel_left same⟩

-- A field that does not contain the delimiter ends at the first one.
theorem field_unique {sep : α} {a b rest other : List α} (clean : sep ∉ a) (clean' : sep ∉ b)
    (same : a ++ sep :: rest = b ++ sep :: other) : a = b ∧ rest = other := by
  induction a generalizing b with
  | nil => cases b with
    | nil => exact ⟨rfl,(List.cons.inj same).2⟩
    | cons y ys => exact absurd ((List.cons.inj same).1 ▸ List.mem_cons_self) clean'
  | cons x xs ih => cases b with
    | nil => exact absurd ((List.cons.inj same).1 ▸ List.mem_cons_self) clean
    | cons y ys =>
      obtain ⟨head,tail⟩ := List.cons.inj same
      obtain ⟨fields,rests⟩ := ih (fun later => clean (List.mem_cons_of_mem _ later))
        (fun later => clean' (List.mem_cons_of_mem _ later)) tail
      exact ⟨by rw [head,fields],rests⟩

-- Fields that contain the delimiter equally often end at the same one.
theorem counted_unique [DecidableEq α] {sep : α} {a b rest other : List α}
    (counted : a.count sep = b.count sep) (same : a ++ sep :: rest = b ++ sep :: other) :
    a = b ∧ rest = other := by
  induction a generalizing b with
  | nil => cases b with
    | nil => exact ⟨rfl,(List.cons.inj same).2⟩
    | cons y ys =>
      obtain rfl := (List.cons.inj same).1
      simp at counted
  | cons x xs ih => cases b with
    | nil =>
      obtain rfl := (List.cons.inj same).1
      simp at counted
    | cons y ys =>
      obtain ⟨rfl,tail⟩ := List.cons.inj same
      obtain ⟨fields,rests⟩ := ih (by simpa [List.count_cons] using counted) tail
      exact ⟨by rw [fields],rests⟩

-- The last field begins at the last delimiter.
theorem last_field_unique {sep : α} {a b front other : List α} (clean : sep ∉ a) (clean' : sep ∉ b)
    (same : front ++ sep :: a = other ++ sep :: b) : front = other ∧ a = b := by
  have reversed : a.reverse ++ sep :: front.reverse = b.reverse ++ sep :: other.reverse := by
    simpa using congrArg List.reverse same
  obtain ⟨fields,fronts⟩ := field_unique (by simpa using clean) (by simpa using clean') reversed
  exact ⟨List.reverse_injective fronts,List.reverse_injective fields⟩

-- A sequence of stems ends at a symbol that no stem begins with.
theorem Apart.words (apart : Apart stem) {stop : α}
    (begun : ∀ kind, ∃ first rest, stem kind = first :: rest ∧ first ≠ stop) {a b : List κ}
    {rest other : List α} (same : a.flatMap stem ++ stop :: rest = b.flatMap stem ++ stop :: other) :
    a = b ∧ rest = other := by
  induction a generalizing b with
  | nil => cases b with
    | nil => exact ⟨rfl,(List.cons.inj same).2⟩
    | cons y ys =>
      obtain ⟨first,later,begins,goes⟩ := begun y
      rw [List.flatMap_cons,begins] at same
      exact absurd (List.cons.inj same).1.symm goes
  | cons x xs ih => cases b with
    | nil =>
      obtain ⟨first,later,begins,goes⟩ := begun x
      rw [List.flatMap_cons,begins] at same
      exact absurd (List.cons.inj same).1 goes
    | cons y ys =>
      rw [List.flatMap_cons,List.flatMap_cons,List.append_assoc,List.append_assoc] at same
      obtain ⟨rfl,tail⟩ := apart.unique same
      obtain ⟨words,rests⟩ := ih tail
      exact ⟨by rw [words],rests⟩

-- What a text was written for, if it was written for something.
noncomputable def readBack {α : Type} (proper : α → Prop) (write : α → String) (text : String) : Option α :=
  open Classical in if written : ∃ a, proper a ∧ write a = text then some written.choose else none

theorem readBack_written {α : Type} {proper : α → Prop} {write : α → String}
    (apart : ∀ a b, proper a → proper b → write a = write b → a = b) {a : α} (written : proper a) :
    readBack proper write (write a) = some a := by
  have found : ∃ b, proper b ∧ write b = write a := ⟨a,written,rfl⟩
  rw [readBack,dif_pos found]
  exact congrArg some (apart _ _ found.choose_spec.1 written found.choose_spec.2)

theorem readBack_none {α : Type} {proper : α → Prop} {write : α → String} {text : String}
    (foreign : ∀ a, proper a → write a ≠ text) : readBack proper write text = none :=
  dif_neg fun ⟨a,written,same⟩ => foreign a written same

end PrefixCode
