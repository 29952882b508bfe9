import Shaka.Library.Precedence

namespace DepthFirst
open Precedence

variable {α : Type} [DecidableEq α] {needs : α → Option (List α)}

-- The items on the path under search, and those that are finished.
structure Marks (α : Type) where
  visiting : List α
  visited : List α

-- A search through the listed items, call by call, with whether all of them were finished. An item
-- is unknown when nothing says what it needs.
inductive Searches (needs : α → Option (List α)) : List α → Marks α → Bool → Marks α → Prop where
  | done : Searches needs [] marks true marks
  | visited : item ∈ marks.visited → Searches needs rest marks found after →
      Searches needs (item :: rest) marks found after
  | cyclic : item ∉ marks.visited → item ∈ marks.visiting → Searches needs (item :: rest) marks false marks
  | unknown : item ∉ marks.visited → item ∉ marks.visiting → needs item = none →
      Searches needs (item :: rest) marks false marks
  | failed {item : α} {rest wanted : List α} {marks inner : Marks α} : item ∉ marks.visited →
      item ∉ marks.visiting → needs item = some wanted →
      Searches needs wanted ⟨item :: marks.visiting,marks.visited⟩ false inner →
      Searches needs (item :: rest) marks false ⟨inner.visiting.erase item,inner.visited⟩
  | finished {item : α} {rest wanted : List α} {marks inner after : Marks α} {found : Bool} :
      item ∉ marks.visited → item ∉ marks.visiting → needs item = some wanted →
      Searches needs wanted ⟨item :: marks.visiting,marks.visited⟩ true inner →
      Searches needs rest ⟨inner.visiting.erase item,item :: inner.visited⟩ found after →
      Searches needs (item :: rest) marks found after

variable {items rest : List α} {item : α} {marks middle after : Marks α} {found : Bool}

-- The search of a list is that of its first item, and of the others while all were finished.
theorem Searches.cons (first : Searches needs [item] marks true middle)
    (others : Searches needs rest middle found after) :
    Searches needs (item :: rest) marks found after := by
  cases first with
  | visited known last =>
    cases last
    exact .visited known others
  | finished new fresh wants inner last =>
    cases last
    exact .finished new fresh wants inner others

theorem Searches.stops (first : Searches needs [item] marks false after) :
    Searches needs (item :: rest) marks false after := by
  cases first with
  | visited _ last => cases last
  | cyclic new under => exact .cyclic new under
  | unknown new fresh missing => exact .unknown new fresh missing
  | failed new fresh wants inner => exact .failed new fresh wants inner
  | finished _ _ _ _ last => cases last

-- A search leaves the path as it found it.
theorem Searches.path (searched : Searches needs items marks found after) :
    after.visiting = marks.visiting := by
  induction searched with
  | done | cyclic | unknown => rfl
  | visited _ _ ih => exact ih
  | failed _ _ _ _ ih => rw [ih,List.erase_cons_head]
  | finished _ _ _ _ _ inner outer => rw [outer,inner,List.erase_cons_head]

def wantsOf (needs : α → Option (List α)) (item : α) : List α := (needs item).getD []

-- What is finished was finished once, after all that it needs, and is not on the path.
structure Finished (needs : α → Option (List α)) (marks : Marks α) : Prop where
  settled : Settled (wantsOf needs) marks.visited
  known : ∀ item ∈ marks.visited, ∃ wanted, needs item = some wanted
  distinct : marks.visited.Nodup
  apart : ∀ item ∈ marks.visiting, item ∉ marks.visited

theorem Searches.finishes (searched : Searches needs items marks found after)
    (before : Finished needs marks) :
    Finished needs after ∧ (∀ item ∈ marks.visited, item ∈ after.visited) ∧
    (found = true → ∀ item ∈ items, item ∈ after.visited) := by
  induction searched with
  | done => exact ⟨before,fun _ known => known,fun _ item listed => by cases listed⟩
  | cyclic | unknown => exact ⟨before,fun _ known => known,fun impossible => by cases impossible⟩
  | visited known _ ih =>
    obtain ⟨finished,kept,all⟩ := ih before
    refine ⟨finished,kept,fun success item listed => ?_⟩
    rcases List.mem_cons.mp listed with rfl | later
    · exact kept _ known
    · exact all success item later
  | @failed item rest wanted marks inner new fresh wants searched ih =>
    have entered : Finished needs ⟨item :: marks.visiting,marks.visited⟩ := by
      refine ⟨before.settled,before.known,before.distinct,fun other under => ?_⟩
      rcases List.mem_cons.mp under with rfl | above
      · exact new
      · exact before.apart other above
    obtain ⟨finished,kept,_⟩ := ih entered
    exact ⟨⟨finished.settled,finished.known,finished.distinct,fun other under =>
      finished.apart other (List.mem_of_mem_erase under)⟩,kept,fun impossible => by cases impossible⟩
  | @finished item rest wanted marks inner after found new fresh wants searched _ ih outer =>
    have entered : Finished needs ⟨item :: marks.visiting,marks.visited⟩ := by
      refine ⟨before.settled,before.known,before.distinct,fun other under => ?_⟩
      rcases List.mem_cons.mp under with rfl | above
      · exact new
      · exact before.apart other above
    obtain ⟨finished,kept,all⟩ := ih entered
    have path := searched.path
    -- what the item needs is finished by now, and the item itself is not
    have unfinished : item ∉ inner.visited := finished.apart item (path ▸ List.mem_cons_self)
    have left : Finished needs ⟨inner.visiting.erase item,item :: inner.visited⟩ := by
      refine ⟨⟨?_,finished.settled⟩,?_,List.nodup_cons.mpr ⟨unfinished,finished.distinct⟩,?_⟩
      · rw [wantsOf,wants]
        exact all rfl
      · intro other visited
        rcases List.mem_cons.mp visited with rfl | earlier
        · exact ⟨wanted,wants⟩
        · exact finished.known other earlier
      · intro other under visited
        rw [path,List.erase_cons_head] at under
        rcases List.mem_cons.mp visited with rfl | earlier
        · exact fresh under
        · exact finished.apart other (path ▸ List.mem_cons_of_mem _ under) earlier
    obtain ⟨final,kept',all'⟩ := outer left
    refine ⟨final,fun other visited => kept' other (List.mem_cons_of_mem _ (kept other visited)),
      fun success other listed => ?_⟩
    rcases List.mem_cons.mp listed with rfl | later
    · exact kept' _ List.mem_cons_self
    · exact all' success other later

-- Where every need falls below what needs it, an item of the path is never met again.
theorem Searches.succeeds {rank : α → Nat} (falls : ∀ item wanted, needs item = some wanted →
      ∀ need ∈ wanted, (∃ wanted, needs need = some wanted) ∧ rank need < rank item)
    (searched : Searches needs items marks found after)
    (below : ∀ item ∈ items, (∃ wanted, needs item = some wanted) ∧ ∀ above ∈ marks.visiting,
      rank item < rank above) : found = true := by
  have entered : ∀ {item : α} {rest wanted : List α} {marks : Marks α}, needs item = some wanted →
      (∀ other ∈ item :: rest, (∃ wanted, needs other = some wanted) ∧ ∀ above ∈ marks.visiting,
        rank other < rank above) →
      ∀ need ∈ wanted, (∃ wanted, needs need = some wanted) ∧ ∀ above ∈ item :: marks.visiting,
      rank need < rank above := by
    intro item rest wanted marks wants below need needed
    obtain ⟨known,less⟩ := falls item wanted wants need needed
    refine ⟨known,fun above under => ?_⟩
    rcases List.mem_cons.mp under with rfl | earlier
    · exact less
    · exact Nat.lt_trans less ((below item List.mem_cons_self).2 above earlier)
  induction searched with
  | done => rfl
  | visited _ _ ih => exact ih fun other listed => below other (List.mem_cons_of_mem _ listed)
  | cyclic _ under => exact absurd ((below _ List.mem_cons_self).2 _ under) (Nat.lt_irrefl _)
  | unknown _ _ missing =>
    obtain ⟨wanted,wants⟩ := (below _ List.mem_cons_self).1
    rw [missing] at wants
    cases wants
  | failed _ _ wants _ ih => exact ih (entered wants below)
  | finished _ _ _ searched _ _ outer =>
    refine outer fun other listed => ?_
    rw [searched.path,List.erase_cons_head]
    exact below other (List.mem_cons_of_mem _ listed)

-- The search of all items, each of which needs some of them, finishes them all exactly when they can
-- be put in an order of work.
theorem Searches.exact (searched : Searches needs items ⟨[],[]⟩ found after) (distinct : items.Nodup)
    (only : ∀ item wanted, needs item = some wanted → item ∈ items)
    (closed : ∀ item ∈ items, ∃ wanted, needs item = some wanted ∧ ∀ need ∈ wanted, need ∈ items) :
    found = true ↔ ∃ order : List α, order.Perm items ∧ Respects (wantsOf needs) order := by
  constructor
  · intro success
    obtain ⟨finished,_,all⟩ := searched.finishes ⟨trivial,by simp,List.nodup_nil,by simp⟩
    refine ⟨after.visited.reverse,?_,finished.settled.respects⟩
    refine (List.perm_ext_iff_of_nodup (List.nodup_reverse.mpr finished.distinct) distinct).mpr fun item => ?_
    rw [List.mem_reverse]
    constructor
    · intro visited
      obtain ⟨wanted,wants⟩ := finished.known item visited
      exact only item wanted wants
    · exact all success item
  · rintro ⟨order,same,respects⟩
    refine @Searches.succeeds _ _ _ _ _ _ _ order.idxOf ?_ searched ?_
    · intro item wanted wants need needed
      have listed := only item wanted wants
      obtain ⟨_,same',inside⟩ := closed item listed
      obtain rfl := Option.some.inj (wants.symm.trans same')
      obtain ⟨wanted',wants',_⟩ := closed need (inside need needed)
      refine ⟨⟨wanted',wants'⟩,respects.falls (same.mem_iff.mpr listed) ?_⟩
      rw [wantsOf,wants]
      exact needed
    · intro item listed
      obtain ⟨wanted,wants,_⟩ := closed item listed
      exact ⟨⟨wanted,wants⟩,by simp⟩

end DepthFirst
