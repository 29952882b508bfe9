import Mathlib.Data.List.Sort
import Mathlib.Data.List.Perm.Basic
import Mathlib.Data.String.Basic

namespace JsonValue

-- A JSON value; a number is its text, an object its entries by key.
inductive Json where
  | null
  | bool (value : Bool)
  | number (text : String)
  | string (text : String)
  | array (items : List Json)
  | object (entries : List (String × Json))
  deriving Repr

-- The induction over the values inside a value.
@[elab_as_elim]
theorem Json.ind {motive : Json → Prop} (null : motive .null) (bool : ∀ value, motive (.bool value))
    (number : ∀ text, motive (.number text)) (string : ∀ text, motive (.string text))
    (array : ∀ items, (∀ item ∈ items, motive item) → motive (.array items))
    (object : ∀ entries, (∀ entry ∈ entries, motive entry.2) → motive (.object entries)) :
    ∀ value, motive value
  | .null => null
  | .bool value => bool value
  | .number text => number text
  | .string text => string text
  | .array items => array items fun item _ => Json.ind null bool number string array object item
  | .object entries => object entries fun entry listed => by
    have smaller := List.sizeOf_lt_of_mem listed
    obtain ⟨key,value⟩ := entry
    exact Json.ind null bool number string array object value
termination_by value => sizeOf value
decreasing_by
  · have smaller := List.sizeOf_lt_of_mem ‹item ∈ items›
    simp only [Json.array.sizeOf_spec]
    omega
  · simp only [Json.object.sizeOf_spec,Prod.mk.sizeOf_spec] at smaller ⊢
    omega

-- No object holds a key twice.
inductive Distinct : Json → Prop where
  | null : Distinct .null
  | bool : Distinct (.bool value)
  | number : Distinct (.number text)
  | string : Distinct (.string text)
  | array : (∀ item ∈ items, Distinct item) → Distinct (.array items)
  | object : (entries.map (·.1)).Nodup → (∀ entry ∈ entries, Distinct entry.2) → Distinct (.object entries)

structure Value where
  json : Json
  distinct : Distinct json

-- The two values differ in the order of object keys only, at any depth: the entries of an object, put
-- into another order, have the keys and the values of the other's entries.
inductive SameValue : Json → Json → Prop where
  | null : SameValue .null .null
  | bool : SameValue (.bool value) (.bool value)
  | number : SameValue (.number text) (.number text)
  | string : SameValue (.string text) (.string text)
  | array : items.length = others.length → (∀ pair ∈ items.zip others, SameValue pair.1 pair.2) →
      SameValue (.array items) (.array others)
  | object {entries reordered others : List (String × Json)} : entries.Perm reordered →
      reordered.map (·.1) = others.map (·.1) → (∀ pair ∈ reordered.zip others, SameValue pair.1.2 pair.2.2) →
      SameValue (.object entries) (.object others)

variable {key : String} {value : Json} {entries : List (String × Json)}

-- `Map::insert` of a map in the order of its keys.
def insertEntry (key : String) (value : Json) : List (String × Json) → List (String × Json)
  | [] => [(key,value)]
  | (other,old) :: rest =>
    if key < other then (key,value) :: (other,old) :: rest
    else if key = other then (key,value) :: rest
    else (other,old) :: insertEntry key value rest

theorem insertEntry_last (greater : ∀ entry ∈ entries, entry.1 < key) :
    insertEntry key value entries = entries ++ [(key,value)] := by
  induction entries with
  | nil => rfl
  | cons first rest ih =>
    obtain ⟨other,old⟩ := first
    have less : other < key := greater (other,old) List.mem_cons_self
    rw [insertEntry,if_neg (lt_asymm less),if_neg (ne_of_gt less),ih fun entry listed =>
      greater entry (List.mem_cons_of_mem _ listed)]
    rfl

theorem insertEntry_length (key : String) (value : Json) (entries : List (String × Json)) :
    (insertEntry key value entries).length ≤ entries.length + 1 := by
  induction entries with
  | nil => exact Nat.le_refl _
  | cons first rest ih =>
    obtain ⟨other,old⟩ := first
    rw [insertEntry]
    split
    · exact Nat.le_refl _
    split
    · exact Nat.le_succ _
    · exact Nat.succ_le_succ ih

theorem mem_insertEntry {entry : String × Json} (listed : entry ∈ insertEntry key value entries) :
    entry = (key,value) ∨ entry ∈ entries := by
  induction entries with
  | nil => exact .inl (List.mem_singleton.mp listed)
  | cons first rest ih =>
    obtain ⟨other,old⟩ := first
    rw [insertEntry] at listed
    split at listed
    · exact List.mem_cons.mp listed
    split at listed
    · rcases List.mem_cons.mp listed with new | later
      · exact .inl new
      · exact .inr (List.mem_cons_of_mem _ later)
    · rcases List.mem_cons.mp listed with rfl | later
      · exact .inr List.mem_cons_self
      · rcases ih later with new | among
        · exact .inl new
        · exact .inr (List.mem_cons_of_mem _ among)

abbrev Rising (entries : List (String × Json)) : Prop := entries.Pairwise fun a b => a.1 < b.1

-- Entries that are inserted by rising keys stand in that order.
theorem insertEach_rising {before : List (String × Json)} (rising : Rising (before ++ entries)) :
    entries.foldl (fun map entry => insertEntry entry.1 entry.2 map) before = before ++ entries := by
  induction entries generalizing before with
  | nil => simp
  | cons first rest ih =>
    have greater : ∀ entry ∈ before, entry.1 < first.1 := fun entry listed =>
      (List.pairwise_append.mp rising).2.2 entry listed first List.mem_cons_self
    have next : Rising ((before ++ [first]) ++ rest) := by simpa using rising
    rw [List.foldl_cons,insertEntry_last greater,ih next]
    simp

-- Whether two values are written the same.
mutual
def Json.beq : Json → Json → Bool
  | .null,.null => true
  | .bool a,.bool b => a == b
  | .number a,.number b => a == b
  | .string a,.string b => a == b
  | .array a,.array b => Json.beqItems a b
  | .object a,.object b => Json.beqEntries a b
  | _,_ => false

def Json.beqItems : List Json → List Json → Bool
  | [],[] => true
  | a :: as,b :: bs => Json.beq a b && Json.beqItems as bs
  | _,_ => false

def Json.beqEntries : List (String × Json) → List (String × Json) → Bool
  | [],[] => true
  | (k,a) :: as,(l,b) :: bs => k == l && Json.beq a b && Json.beqEntries as bs
  | _,_ => false
end

mutual
theorem Json.beq_iff : ∀ a b : Json, Json.beq a b = true ↔ a = b
  | a,b => by
    cases a <;> cases b <;> simp [Json.beq,Json.beqItems_iff,Json.beqEntries_iff]

theorem Json.beqItems_iff : ∀ a b : List Json, Json.beqItems a b = true ↔ a = b
  | [],[] => by simp [Json.beqItems]
  | [],_ :: _ => by simp [Json.beqItems]
  | _ :: _,[] => by simp [Json.beqItems]
  | a :: as,b :: bs => by simp [Json.beqItems,Json.beq_iff a b,Json.beqItems_iff as bs]

theorem Json.beqEntries_iff : ∀ a b : List (String × Json), Json.beqEntries a b = true ↔ a = b
  | [],[] => by simp [Json.beqEntries]
  | [],_ :: _ => by simp [Json.beqEntries]
  | _ :: _,[] => by simp [Json.beqEntries]
  | (k,a) :: as,(l,b) :: bs => by simp [Json.beqEntries,Json.beq_iff a b,Json.beqEntries_iff as bs,and_assoc]
end

instance : DecidableEq Json := fun a b => decidable_of_iff _ (Json.beq_iff a b)

end JsonValue
