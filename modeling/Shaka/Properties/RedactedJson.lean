import Shaka.Observability.Redactor

namespace Shaka.Properties
open Shaka.Core Observability JsonValue

-- The keys whose values are not shown.
def Concealed (key : String) : Prop := sensitiveKey key = true ∨ contentKey key = true

-- The two values agree everywhere but inside what stands under hidden keys.
inductive AgreeOutside : Json → Json → Prop where
  | null : AgreeOutside .null .null
  | bool {value : Bool} : AgreeOutside (.bool value) (.bool value)
  | number {text : String} : AgreeOutside (.number text) (.number text)
  | string {text : String} : AgreeOutside (.string text) (.string text)
  | array {items others : List Json} : items.length = others.length →
      (∀ pair ∈ items.zip others, AgreeOutside pair.1 pair.2) → AgreeOutside (.array items) (.array others)
  | object {entries others : List (String × Json)} : entries.map (·.1) = others.map (·.1) →
      (∀ pair ∈ entries.zip others, ¬ Concealed pair.1.1 → AgreeOutside pair.1.2 pair.2.2) →
      AgreeOutside (.object entries) (.object others)

variable {redactor : Redactor} {isWord : Char → Bool}

theorem redactItems_agree {items others : List Json} {left depth : Nat}
    (lengths : items.length = others.length) (same : ∀ pair ∈ items.zip others,
      redactor.redactJsonAtDepth isWord pair.1 depth = redactor.redactJsonAtDepth isWord pair.2 depth) :
    redactor.redactItems isWord items left depth = redactor.redactItems isWord others left depth := by
  induction items generalizing others left with
  | nil =>
    obtain rfl := List.eq_nil_of_length_eq_zero lengths.symm
    rfl
  | cons item rest ih =>
    cases others with
    | nil => cases lengths
    | cons other others =>
      cases left with
      | zero => rw [Redactor.redactItems,Redactor.redactItems]
      | succ left =>
        rw [Redactor.redactItems,Redactor.redactItems,same (item,other) List.mem_cons_self,
          ih (Nat.succ.inj lengths) fun pair listed => same pair (List.mem_cons_of_mem _ listed)]

theorem redactEntries_agree {entries others : List (String × Json)} {index depth : Nat}
    {redacted : List (String × Json)} (keys : entries.map (·.1) = others.map (·.1))
    (same : ∀ pair ∈ entries.zip others, ¬ Concealed pair.1.1 →
      redactor.redactJsonAtDepth isWord pair.1.2 depth = redactor.redactJsonAtDepth isWord pair.2.2 depth) :
    redactor.redactEntries isWord entries index redacted depth = redactor.redactEntries isWord others index
      redacted depth := by
  induction entries generalizing others index redacted with
  | nil =>
    obtain rfl := List.map_eq_nil_iff.mp keys.symm
    rfl
  | cons entry rest ih =>
    cases others with
    | nil => cases keys
    | cons other others =>
      obtain ⟨key,item⟩ := entry
      obtain ⟨key',item'⟩ := other
      obtain ⟨first,later⟩ := List.cons.inj keys
      obtain rfl : key = key' := first
      have next := fun index redacted => @ih others index redacted later
        fun pair listed => same pair (List.mem_cons_of_mem _ listed)
      rw [Redactor.redactEntries,Redactor.redactEntries]
      split
      · rfl
      split
      · exact next _ _
      rename_i plain
      split
      · exact next _ _
      rename_i shown
      have visible : ¬ Concealed key := by simp [Concealed,plain,shown]
      rw [same ((key,item),(key,item')) List.mem_cons_self visible]
      exact next _ _

theorem redactJsonAtDepth_agree {value other : Json} (agree : AgreeOutside value other) (depth : Nat) :
    redactor.redactJsonAtDepth isWord value depth = redactor.redactJsonAtDepth isWord other depth := by
  induction agree generalizing depth with
  | null | bool | number | string => rfl
  | array lengths _ ih =>
    rw [Redactor.redactJsonAtDepth,Redactor.redactJsonAtDepth,lengths,
      redactItems_agree lengths fun pair listed => ih pair listed (depth + 1)]
  | object keys _ ih =>
    rw [Redactor.redactJsonAtDepth,Redactor.redactJsonAtDepth,
      redactEntries_agree keys fun pair listed visible => ih pair listed visible (depth + 1)]

mutual
def nesting : Json → Nat
  | .array items => nestingItems items + 1
  | .object entries => nestingEntries entries + 1
  | .null | .bool _ | .number _ | .string _ => 0

def nestingItems : List Json → Nat
  | [] => 0
  | item :: rest => max (nesting item) (nestingItems rest)

def nestingEntries : List (String × Json) → Nat
  | [] => 0
  | (_,item) :: rest => max (nesting item) (nestingEntries rest)
end

-- A value and all that it is made of.
inductive Inside : Json → Json → Prop where
  | whole {value : Json} : Inside value value
  | item {items : List Json} {item value : Json} : item ∈ items → Inside value item →
      Inside value (.array items)
  | entry {entries : List (String × Json)} {key : String} {item value : Json} :
      (key,item) ∈ entries → Inside value item → Inside value (.object entries)

def markers : List String := ["[REDACTED_DEPTH_LIMIT]","[TRUNCATED_ITEMS]","[REDACTED]","[REDACTED_CONTENT]"]

-- What the limits allow of one value.
def Sized (redactor : Redactor) : Json → Prop
  | .array items => items.length ≤ redactor.jsonItems + 1
  | .object entries => entries.length ≤ redactor.jsonItems + 1
  | .string text => text.length ≤ redactor.text ∨ text ∈ markers
  | .null | .bool _ | .number _ => True

-- What they allow of a value that stands at a depth, with all that is in it.
structure Limited (redactor : Redactor) (room : Nat) (value : Json) : Prop where
  depth : nesting value ≤ room
  inside : ∀ part, Inside part value → Sized redactor part

theorem limited_marker {text : String} (fixed : text ∈ markers) (room : Nat) :
    Limited redactor room (.string text) := by
  refine ⟨Nat.zero_le _,fun part inside => ?_⟩
  cases inside with
  | whole => exact .inr fixed

theorem limited_array {items : List Json} {room : Nat} (count : items.length ≤ redactor.jsonItems + 1)
    (each : ∀ item ∈ items, Limited redactor room item) : Limited redactor (room + 1) (.array items) := by
  constructor
  · rw [nesting]
    apply Nat.succ_le_succ
    induction items with
    | nil => exact Nat.zero_le _
    | cons item rest ih =>
      rw [nestingItems]
      have later := ih (Nat.le_of_succ_le count) fun other listed =>
          each other (List.mem_cons_of_mem _ listed)
      exact Nat.max_le.mpr ⟨(each item List.mem_cons_self).depth,later⟩
  · intro part inside
    cases inside with
    | whole => exact count
    | item listed inner => exact (each _ listed).inside part inner

theorem limited_object {entries : List (String × Json)} {room : Nat}
    (count : entries.length ≤ redactor.jsonItems + 1)
    (each : ∀ entry ∈ entries, Limited redactor room entry.2) :
    Limited redactor (room + 1) (.object entries) := by
  constructor
  · rw [nesting]
    apply Nat.succ_le_succ
    induction entries with
    | nil => exact Nat.zero_le _
    | cons entry rest ih =>
      obtain ⟨key,item⟩ := entry
      rw [nestingEntries]
      have later := ih (Nat.le_of_succ_le count) fun other listed =>
          each other (List.mem_cons_of_mem _ listed)
      exact Nat.max_le.mpr ⟨(each (key,item) List.mem_cons_self).depth,later⟩
  · intro part inside
    cases inside with
    | whole => exact count
    | entry listed inner => exact (each _ listed).inside part inner

theorem truncateText_length (value : String) (maxChars : Nat) :
    (truncateText value maxChars).length ≤ maxChars := by
  unfold truncateText
  split
  · rename_i short
    exact short
  split
  · rw [String.length_ofList,List.length_take]
    exact Nat.min_le_left _ _
  · rename_i long room
    rw [String.length_ofList,List.length_append,List.length_take]
    have kept := Nat.min_le_left (maxChars - truncationSuffix.length) value.toList.length
    omega

theorem mem_redactItems {items : List Json} {left depth : Nat} {shown : Json}
    (listed : shown ∈ redactor.redactItems isWord items left depth) :
    ∃ item ∈ items, shown = redactor.redactJsonAtDepth isWord item depth := by
  induction items generalizing left with
  | nil => cases listed
  | cons item rest ih =>
    cases left with
    | zero => cases listed
    | succ left =>
      rw [Redactor.redactItems] at listed
      rcases List.mem_cons.mp listed with rfl | later
      · exact ⟨item,List.mem_cons_self,rfl⟩
      · obtain ⟨other,among,same⟩ := ih later
        exact ⟨other,List.mem_cons_of_mem _ among,same⟩

theorem redactItems_length (items : List Json) (left depth : Nat) :
    (redactor.redactItems isWord items left depth).length ≤ left := by
  induction items generalizing left with
  | nil => exact Nat.zero_le _
  | cons item rest ih =>
    cases left with
    | zero => exact Nat.zero_le _
    | succ left =>
      rw [Redactor.redactItems]
      exact Nat.succ_le_succ (ih left)

-- The loop adds one entry at a time, and the marker once.
theorem redactEntries_parts {motive : Json → Prop} {entries : List (String × Json)} {index depth : Nat}
    {redacted : List (String × Json)} (before : ∀ entry ∈ redacted, motive entry.2)
    (marker : ∀ text ∈ markers, motive (.string text))
    (each : ∀ entry ∈ entries, motive (redactor.redactJsonAtDepth isWord entry.2 depth)) :
    ∀ entry ∈ redactor.redactEntries isWord entries index redacted depth, motive entry.2 := by
  have insert : ∀ (key : String) (item : Json) (map : List (String × Json)),
      (∀ entry ∈ map, motive entry.2) → motive item →
      ∀ entry ∈ insertEntry key item map, motive entry.2 := by
    intro key item map kept new entry listed
    rcases mem_insertEntry listed with rfl | old
    · exact new
    · exact kept entry old
  induction entries generalizing index redacted with
  | nil => exact before
  | cons entry rest ih =>
    obtain ⟨key,item⟩ := entry
    have later := fun other listed => each other (List.mem_cons_of_mem _ listed)
    rw [Redactor.redactEntries]
    split
    · exact insert _ _ _ before (marker _ (by simp [markers]))
    split
    · exact ih (insert _ _ _ before (marker _ (by simp [markers]))) later
    split
    · exact ih (insert _ _ _ before (marker _ (by simp [markers]))) later
    · exact ih (insert _ _ _ before (each (key,item) List.mem_cons_self)) later

theorem redactEntries_length {entries : List (String × Json)} {index depth : Nat}
    {redacted : List (String × Json)} (counted : redacted.length ≤ index)
    (within : index ≤ redactor.jsonItems) :
    (redactor.redactEntries isWord entries index redacted depth).length ≤ redactor.jsonItems + 1 := by
  induction entries generalizing index redacted with
  | nil => exact Nat.le_succ_of_le (Nat.le_trans counted within)
  | cons entry rest ih =>
    obtain ⟨key,item⟩ := entry
    have more := fun key item =>
        Nat.le_trans (insertEntry_length key item redacted) (Nat.succ_le_succ counted)
    rw [Redactor.redactEntries]
    split
    · exact Nat.le_trans (more _ _) (Nat.succ_le_succ within)
    rename_i room
    have next : index + 1 ≤ redactor.jsonItems := by omega
    split
    · exact ih (more _ _) next
    split
    · exact ih (more _ _) next
    · exact ih (more _ _) next

-- The induction is on the value: what stands one level deeper has one level less.
theorem redactJsonAtDepth_limited (value : Json) (depth : Nat) :
    Limited redactor (redactor.jsonDepth - depth) (redactor.redactJsonAtDepth isWord value depth) := by
  have marker : ∀ room, Limited redactor room depthLimit := limited_marker (by simp [markers])
  have scalar : ∀ {shown : Json}, nesting shown = 0 → (∀ part, Inside part shown → Sized redactor part) →
      ∀ room, Limited redactor room shown := fun flat inside room => ⟨flat ▸ Nat.zero_le _,inside⟩
  induction value using Json.ind generalizing depth with
  | null =>
    rw [Redactor.redactJsonAtDepth]
    split
    · exact marker _
    · exact scalar rfl (fun part inside => by cases inside; trivial) _
  | bool value =>
    rw [Redactor.redactJsonAtDepth]
    split
    · exact marker _
    · exact scalar rfl (fun part inside => by cases inside; trivial) _
  | number text =>
    rw [Redactor.redactJsonAtDepth]
    split
    · exact marker _
    · exact scalar rfl (fun part inside => by cases inside; trivial) _
  | string text =>
    rw [Redactor.redactJsonAtDepth]
    split
    · exact marker _
    · exact scalar rfl (fun part inside => by cases inside; exact .inl (truncateText_length _ _)) _
  | array items ih =>
    rw [Redactor.redactJsonAtDepth]
    split
    · exact marker _
    rename_i shallow
    rw [show redactor.jsonDepth - depth = redactor.jsonDepth - (depth + 1) + 1 by omega]
    apply limited_array
    · have taken := @redactItems_length redactor isWord items redactor.jsonItems (depth + 1)
      rw [List.length_append]
      split
      · exact Nat.succ_le_succ taken
      · exact Nat.le_succ_of_le taken
    · intro item listed
      rcases List.mem_append.mp listed with shown | last
      · obtain ⟨original,among,rfl⟩ := mem_redactItems shown
        exact ih original among (depth + 1)
      · split at last
        · rw [List.mem_singleton.mp last]
          exact limited_marker (by simp [markers]) _
        · cases last
  | object entries ih =>
    rw [Redactor.redactJsonAtDepth]
    split
    · exact marker _
    rename_i shallow
    rw [show redactor.jsonDepth - depth = redactor.jsonDepth - (depth + 1) + 1 by omega]
    apply limited_object
    · exact redactEntries_length (Nat.le_refl _) (Nat.zero_le _)
    · apply redactEntries_parts
      · exact fun entry listed => absurd listed List.not_mem_nil
      · exact fun text fixed => limited_marker fixed _
      · exact fun entry listed => ih entry listed (depth + 1)

-- What is hidden has no say in what is shown, and what is shown is within the limits.
theorem redactJson_noninterfering (redactor : Redactor) (isWord : Char → Bool) :
    (∀ value other, AgreeOutside value other →
      redactor.redactJson isWord value = redactor.redactJson isWord other) ∧
    ∀ value, nesting (redactor.redactJson isWord value) ≤ redactor.jsonDepth ∧
      ∀ part, Inside part (redactor.redactJson isWord value) → Sized redactor part := by
  refine ⟨fun value other agree => redactJsonAtDepth_agree agree 0,fun value => ?_⟩
  have limited := @redactJsonAtDepth_limited redactor isWord value 0
  exact ⟨limited.depth,limited.inside⟩

theorem redactJson_noninterfering_password :
    Redactor.redactJson ⟨64,4,2,by decide,by decide,by decide⟩ isAsciiWord
      (.object [("password",.string "first")]) =
      Redactor.redactJson ⟨64,4,2,by decide,by decide,by decide⟩ isAsciiWord
        (.object [("password",.array [.null])]) := by
  refine (redactJson_noninterfering ⟨64,4,2,_,_,_⟩ isAsciiWord).1 _ _
    (.object rfl fun pair listed visible => ?_)
  rw [List.mem_singleton.mp listed] at visible
  exact absurd (.inl (by decide)) visible

end Shaka.Properties
