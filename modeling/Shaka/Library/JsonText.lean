import Shaka.Library.JsonValue

namespace JsonValue

def hexDigit (value : Nat) : Char := if value < 10 then Char.ofNat (48 + value) else Char.ofNat (87 + value)

-- A character inside the quotes of a JSON string.
def escapeChar (c : Char) : List Char :=
  if c = '"' then ['\\','"']
  else if c = '\\' then ['\\','\\']
  else if c.toNat = 8 then ['\\','b']
  else if c.toNat = 9 then ['\\','t']
  else if c.toNat = 10 then ['\\','n']
  else if c.toNat = 12 then ['\\','f']
  else if c.toNat = 13 then ['\\','r']
  else if c.toNat < 32 then ['\\','u','0','0',hexDigit (c.toNat / 16),hexDigit (c.toNat % 16)]
  else [c]

def escaped (text : String) : List Char := text.toList.flatMap escapeChar

def quotedText (text : String) : List Char := '"' :: (escaped text ++ ['"'])

def joined : List (List Char) → List Char
  | [] => []
  | first :: rest => first ++ rest.flatMap (',' :: ·)

-- The compact text of a value.
mutual
def jsonChars : Json → List Char
  | .null => "null".toList
  | .bool true => "true".toList
  | .bool false => "false".toList
  | .number text => text.toList
  | .string text => quotedText text
  | .array items => '[' :: (joined (itemTexts items) ++ [']'])
  | .object entries => Char.ofNat 0x7B :: (joined (entryTexts entries) ++ [Char.ofNat 0x7D])

def itemTexts : List Json → List (List Char)
  | [] => []
  | item :: rest => jsonChars item :: itemTexts rest

def entryTexts : List (String × Json) → List (List Char)
  | [] => []
  | (key,value) :: rest => (quotedText key ++ ':' :: jsonChars value) :: entryTexts rest
end

def jsonText (value : Json) : String := String.ofList (jsonChars value)

-- A value with one string left open, which stands under a key, at any depth.
inductive OpenValue where
  | here (before : List (String × Json)) (key : String) (after : List (String × Json))
  | item (before : List Json) (inner : OpenValue) (after : List Json)
  | entry (before : List (String × Json)) (key : String) (inner : OpenValue) (after : List (String × Json))

namespace OpenValue

def fill : OpenValue → String → Json
  | here before key after,text => .object (before ++ (key,.string text) :: after)
  | item before inner after,text => .array (before ++ inner.fill text :: after)
  | entry before key inner after,text => .object (before ++ (key,inner.fill text) :: after)

-- The key of the open string.
def key : OpenValue → String
  | here _ key _ => key
  | item _ inner _ | entry _ _ inner _ => inner.key

-- The text before the key of the open string, and the text after the string.
def lead : OpenValue → List Char
  | here before _ _ => Char.ofNat 0x7B :: (entryTexts before).flatMap (· ++ [','])
  | item before inner _ => '[' :: ((itemTexts before).flatMap (· ++ [',']) ++ inner.lead)
  | entry before key inner _ =>
    Char.ofNat 0x7B :: ((entryTexts before).flatMap (· ++ [',']) ++ (quotedText key ++ ':' :: inner.lead))

def back : OpenValue → List Char
  | here _ _ after => (entryTexts after).flatMap (',' :: ·) ++ [Char.ofNat 0x7D]
  | item _ inner after => inner.back ++ ((itemTexts after).flatMap (',' :: ·) ++ [']'])
  | entry _ _ inner after => inner.back ++ ((entryTexts after).flatMap (',' :: ·) ++ [Char.ofNat 0x7D])

end OpenValue

theorem joined_around (before : List (List Char)) (text : List Char) (after : List (List Char)) :
    joined (before ++ text :: after) = before.flatMap (· ++ [',']) ++ (text ++ after.flatMap (',' :: ·)) := by
  cases before with
  | nil => rfl
  | cons first before =>
    rw [List.cons_append,joined]
    induction before generalizing first with
    | nil => simp
    | cons second before ih =>
      rw [List.cons_append,List.flatMap_cons,List.flatMap_cons,List.cons_append,ih second]
      simp

theorem itemTexts_append (before after : List Json) :
    itemTexts (before ++ after) = itemTexts before ++ itemTexts after := by
  induction before with
  | nil => rfl
  | cons item before ih => rw [List.cons_append,itemTexts,ih,itemTexts,List.cons_append]

theorem entryTexts_append (before after : List (String × Json)) :
    entryTexts (before ++ after) = entryTexts before ++ entryTexts after := by
  induction before with
  | nil => rfl
  | cons entry before ih =>
    obtain ⟨key,value⟩ := entry
    rw [List.cons_append,entryTexts,ih,entryTexts,List.cons_append]

theorem fill_chars (place : OpenValue) (text : String) :
    jsonChars (place.fill text) = place.lead ++ (quotedText place.key ++ ':' ::
      (quotedText text ++ place.back)) := by
  induction place with
  | here before key after =>
    rw [OpenValue.fill,jsonChars,entryTexts_append,entryTexts,joined_around,jsonChars]
    simp [OpenValue.lead,OpenValue.key,OpenValue.back]
  | item before inner after ih =>
    rw [OpenValue.fill,jsonChars,itemTexts_append,itemTexts,joined_around,ih]
    simp [OpenValue.lead,OpenValue.key,OpenValue.back]
  | entry before key inner after ih =>
    rw [OpenValue.fill,jsonChars,entryTexts_append,entryTexts,joined_around,ih]
    simp [OpenValue.lead,OpenValue.key,OpenValue.back]

-- After a string comes the next entry, or the object's end.
theorem back_head (place : OpenValue) :
    ∃ c rest, place.back = c :: rest ∧ (c = ',' ∨ c = Char.ofNat 0x7D) := by
  induction place with
  | here before key after =>
    cases after with
    | nil => exact ⟨_,[],rfl,.inr rfl⟩
    | cons entry after => exact ⟨',',_,rfl,.inl rfl⟩
  | item before inner after ih | entry before key inner after ih =>
    obtain ⟨c,rest,split,head⟩ := ih
    exact ⟨c,_,by rw [OpenValue.back,split,List.cons_append],head⟩

-- A string's key comes first in its object, or after another entry.
theorem lead_last (place : OpenValue) :
    ∃ front c, place.lead = front ++ [c] ∧ (c = ',' ∨ c = Char.ofNat 0x7B) := by
  induction place with
  | here before key after =>
    cases parts : (entryTexts before).reverse with
    | nil =>
      obtain rfl : before = [] := by
        cases before with
        | nil => rfl
        | cons entry before =>
          obtain ⟨key,value⟩ := entry
          simp [entryTexts] at parts
      exact ⟨[],_,rfl,.inr rfl⟩
    | cons last early =>
      refine ⟨Char.ofNat 0x7B :: ((early.reverse).flatMap (· ++ [',']) ++ last),',',?_,.inl rfl⟩
      rw [OpenValue.lead,List.reverse_eq_cons_iff.mp parts]
      simp
  | item before inner after ih =>
    obtain ⟨front,c,split,last⟩ := ih
    exact ⟨_,c,by rw [OpenValue.lead,split,← List.append_assoc,← List.cons_append],last⟩
  | entry before key inner after ih =>
    obtain ⟨front,c,split,last⟩ := ih
    refine ⟨Char.ofNat 0x7B :: ((entryTexts before).flatMap (· ++ [',']) ++
      (quotedText key ++ ':' :: front)),c,?_,last⟩
    rw [OpenValue.lead,split]
    simp

theorem escapeChar_quote {c : Char} (quote : '"' ∈ escapeChar c) : c = '"' := by
  by_contra other
  unfold escapeChar at quote
  rw [if_neg other] at quote
  split at quote
  · simp at quote
  split at quote
  · simp at quote
  split at quote
  · simp at quote
  split at quote
  · simp at quote
  split at quote
  · simp at quote
  split at quote
  · simp at quote
  split at quote
  · rename_i control
    have digits : ∀ value < 32, hexDigit (value / 16) ≠ '"' ∧ hexDigit (value % 16) ≠ '"' := by decide
    obtain ⟨high,low⟩ := digits c.toNat control
    simp only [List.mem_cons,List.not_mem_nil,or_false] at quote
    rcases quote with same | same | same | same | same | same
    · exact absurd same (by decide)
    · exact absurd same (by decide)
    · exact absurd same (by decide)
    · exact absurd same (by decide)
    · exact high same.symm
    · exact low same.symm
  · exact other (List.mem_singleton.mp quote).symm

theorem escaped_quotes {text : String} (none : '"' ∉ text.toList) : ∀ c ∈ escaped text, c ≠ '"' := by
  rintro c listed rfl
  obtain ⟨d,inside,quote⟩ := List.mem_flatMap.mp listed
  exact none (escapeChar_quote quote ▸ inside)

end JsonValue
