import Mathlib.Data.List.Nodup

namespace Precedence

variable {α : Type} {needs : α → List α}

-- A list in which everything an item needs comes after it, as a depth-first search
-- that finishes each item after its needs leaves it.
def Settled (needs : α → List α) : List α → Prop
  | [] => True
  | item :: rest => (∀ need ∈ needs item, need ∈ rest) ∧ Settled needs rest

-- Something is left to do: then something is left whose needs are all done.
theorem Settled.ready [DecidableEq α] {items done : List α} (settled : Settled needs items)
    (left : ∃ item ∈ items, item ∉ done) :
    ∃ item ∈ items, item ∉ done ∧ ∀ need ∈ needs item, need ∈ done := by
  induction items with
  | nil =>
    obtain ⟨_,absurdity,_⟩ := left
    cases absurdity
  | cons first rest ih =>
    by_cases later : ∃ item ∈ rest, item ∉ done
    · obtain ⟨item,listed,ready⟩ := ih settled.2 later
      exact ⟨item,List.mem_cons_of_mem _ listed,ready⟩
    · -- all but the first are done, and what it needs is among them
      have finished : ∀ item ∈ rest, item ∈ done := fun item listed => by
        by_contra undone
        exact later ⟨item,listed,undone⟩
      obtain ⟨item,listed,undone⟩ := left
      rcases List.mem_cons.mp listed with rfl | among
      · exact ⟨item,List.mem_cons_self,undone,fun need needed => finished need (settled.1 need needed)⟩
      · exact absurd (finished item among) undone

-- An order of work in which every item comes after what it needs.
def Respects (needs : α → List α) (order : List α) : Prop :=
  ∀ earlier item later, order = earlier ++ item :: later → ∀ need ∈ needs item, need ∈ earlier

theorem respects_nil : Respects needs [] := by
  intro earlier item later same
  simp at same

theorem Respects.next {order : List α} {item : α} (respects : Respects needs order)
    (ready : ∀ need ∈ needs item, need ∈ order) : Respects needs (order ++ [item]) := by
  intro earlier other later same
  rcases List.eq_nil_or_concat later with rfl | ⟨init,last,rfl⟩
  · obtain ⟨rfl,last⟩ := List.append_inj' same rfl
    obtain rfl : item = other := by simpa using last
    exact ready
  · refine respects earlier other init ?_
    rw [List.concat_eq_append,← List.cons_append,← List.append_assoc] at same
    exact (List.append_inj' same rfl).1

-- In an order of work what an item needs stands at a lower place.
theorem Respects.falls [DecidableEq α] {order : List α} {item need : α} (respects : Respects needs order)
    (listed : item ∈ order) (needed : need ∈ needs item) : order.idxOf need < order.idxOf item := by
  obtain ⟨earlier,later,rfl,first⟩ := List.eq_append_cons_of_mem listed
  have before : need ∈ earlier := respects earlier item later rfl need needed
  rw [List.idxOf_append_of_mem before,List.idxOf_append_of_notMem first]
  have place := List.idxOf_lt_length_of_mem before
  omega

theorem Settled.respects {items : List α} (settled : Settled needs items) : Respects needs items.reverse := by
  induction items with
  | nil => exact respects_nil
  | cons first rest ih =>
    rw [List.reverse_cons]
    exact (ih settled.2).next fun need needed => List.mem_reverse.mpr (settled.1 need needed)

end Precedence
