import Shaka.Memory.Audit

namespace Shaka.Memory
open Shaka.Core PrefixCode

variable {encoding : AuditEncoding}

theorem mem_toDigits {c : Char} {n : Nat} (present : c ∈ Nat.toDigits 16 n) :
    ∃ digit < 16, c = Nat.digitChar digit := by
  induction n using Nat.strongRecOn with
  | ind n ih =>
    rw [Nat.toDigits_eq_if (by decide)] at present
    split at present
    · next small => exact ⟨n,small,List.mem_singleton.mp present⟩
    · next large =>
      rcases List.mem_append.mp present with front | last
      · exact ih (n / 16) (by omega) front
      · exact ⟨n % 16,Nat.mod_lt _ (by decide),List.mem_singleton.mp last⟩

theorem digitChar_injective : ∀ a < 16, ∀ b < 16, Nat.digitChar a = Nat.digitChar b → a = b := by decide

theorem hexDigits_injective {m n : Nat} (same : Nat.toDigits 16 m = Nat.toDigits 16 n) : m = n := by
  induction m using Nat.strongRecOn generalizing n with
  | ind m ih =>
    have present : ∀ k, Nat.toDigits 16 k ≠ [] := fun _ => Nat.toDigits_ne_nil
    rw [Nat.toDigits_eq_if (n := m) (by decide),Nat.toDigits_eq_if (n := n) (by decide)] at same
    split at same <;> split at same
    · next small small' => exact digitChar_injective m small n small' (by simpa using same)
    · exact absurd same.symm (by simp [List.append_eq_singleton_iff,present])
    · exact absurd same (by simp [List.append_eq_singleton_iff,present])
    · obtain ⟨front,last⟩ := List.append_inj' same rfl
      have digit := digitChar_injective _ (Nat.mod_lt m (by decide)) _ (Nat.mod_lt n (by decide))
          (by simpa using last)
      have rest := ih (m / 16) (by omega) front
      omega

-- The characters that are written as a backslash and a letter.
def lettered : List (Char × Char) := [('\x00','0'),('\t','t'),('\r','r'),('\n','n'),('\\','\\'),('\"','\"')]

inductive Escaped (c : Char) : List Char → Prop
  | letter {letter : Char} : (c,letter) ∈ lettered → Escaped c ['\\',letter]
  | number : Escaped c (numberedChar c)
  | plain : c ≠ '\\' → c ≠ '\"' → Escaped c [c]

theorem escapeDebug_escaped (encoding : AuditEncoding) (c : Char) : Escaped c (escapeDebug encoding c) := by
  unfold escapeDebug
  split
  · next same => subst same; exact .letter (by decide)
  split
  · next same => subst same; exact .letter (by decide)
  split
  · next same => subst same; exact .letter (by decide)
  split
  · next same => subst same; exact .letter (by decide)
  split
  · next same => subst same; exact .letter (by decide)
  split
  · next same => subst same; exact .letter (by decide)
  next backslash quote =>
  split
  · exact .number
  · exact .plain backslash quote

theorem escaped_apart : Apart (escapeDebug encoding) := by
  intro a b within
  have one := escapeDebug_escaped encoding a
  have two := escapeDebug_escaped encoding b
  generalize escapeDebug encoding a = first at one within
  generalize escapeDebug encoding b = second at two within
  have letters : ∀ pair ∈ lettered, ∀ pair' ∈ lettered, pair.2 = pair'.2 → pair.1 = pair'.1 := by decide
  have unnumbered : ∀ pair ∈ lettered, pair.2 ≠ 'u' := by decide
  cases one with
  | letter listed =>
    cases two with
    | letter listed' => exact letters _ listed _ listed' (by simpa using within)
    | number => exact absurd (by simpa [numberedChar] using within) (unnumbered _ listed)
    | plain _ _ => simp at within
  | number =>
    cases two with
    | letter listed' => simp [numberedChar] at within
    | number =>
      simp only [numberedChar,List.cons_prefix_cons,true_and] at within
      obtain ⟨tail,same⟩ := within
      have clean : ∀ n, '\x7d' ∉ Nat.toDigits 16 n := by
        intro n brace
        obtain ⟨digit,small,isBrace⟩ := mem_toDigits brace
        have never : ∀ digit < 16, '\x7d' ≠ Nat.digitChar digit := by decide
        exact never digit small isBrace
      rw [List.append_assoc] at same
      exact Char.toNat_inj.mp (hexDigits_injective (field_unique (clean _) (clean _) same).1)
    | plain _ _ => simp [numberedChar] at within
  | plain backslash quote =>
    cases two with
    | letter _ => exact absurd (by simpa using within) backslash
    | number => exact absurd (by simpa [numberedChar] using within) backslash
    | plain _ _ => simpa using within

theorem escaped_begun (c : Char) : ∃ first rest, escapeDebug encoding c = first :: rest ∧ first ≠ '\"' := by
  have word := escapeDebug_escaped encoding c
  generalize escapeDebug encoding c = printed at word
  cases word with
  | letter => exact ⟨_,_,rfl,by decide⟩
  | number => exact ⟨_,_,rfl,by decide⟩
  | plain _ quote => exact ⟨_,_,rfl,quote⟩

-- The `Debug` text of a string ends where its closing quote stands.
theorem debugString_unique {a b : String} {rest other : List Char}
    (same : debugString encoding a ++ rest = debugString encoding b ++ other) : a = b ∧ rest = other := by
  simp only [debugString,List.cons_append,List.append_assoc,List.cons.injEq,true_and] at same
  obtain ⟨letters,rests⟩ := escaped_apart.words escaped_begun same
  exact ⟨String.toList_inj.mp letters,rests⟩

theorem debugOption_injective {a b : Option String}
    (same : debugOption encoding a = debugOption encoding b) : a = b := by
  cases a with
  | none => cases b with
    | none => rfl
    | some text => simp [debugOption] at same
  | some text => cases b with
    | none => simp [debugOption] at same
    | some other =>
      simp only [debugOption] at same
      rw [(debugString_unique (List.append_cancel_left same)).1]

theorem debugEntry_unique {a b : String × String} {rest other : List Char}
    (same : debugEntry encoding a ++ rest = debugEntry encoding b ++ other) : a = b ∧ rest = other := by
  simp only [debugEntry,List.append_assoc,List.cons_append] at same
  obtain ⟨keys,tail⟩ := debugString_unique same
  obtain ⟨values,rests⟩ := debugString_unique (List.cons.inj (List.cons.inj tail).2).2
  exact ⟨Prod.ext keys values,rests⟩

theorem debugEntry_apart : Apart fun entry => ',' :: ' ' :: debugEntry encoding entry := by
  rintro a b ⟨tail,same⟩
  refine (@debugEntry_unique encoding a b tail [] ?_).1
  simpa using same

theorem debugMetadata_injective {a b : Metadata}
    (same : debugMetadata encoding a = debugMetadata encoding b) : a = b := by
  obtain ⟨entries,sorted⟩ := a
  obtain ⟨others,sorted'⟩ := b
  suffices entries = others by subst this; rfl
  simp only [debugMetadata] at same
  cases entries with
  | nil => cases others with
    | nil => rfl
    | cons first rest => simp [debugEntry,debugString] at same
  | cons first rest => cases others with
    | nil => simp [debugEntry,debugString] at same
    | cons first' rest' =>
      simp only [List.cons.injEq,true_and,List.append_assoc] at same
      obtain ⟨rfl,tail⟩ := debugEntry_unique same
      rw [(debugEntry_apart.words (fun _ => ⟨_,_,rfl,by decide⟩) tail).1]

-- What the program relies on of the texts that other crates print: they tell
-- identifiers and instants apart and the delimiter is in none of them.
structure Printed (encoding : AuditEncoding) : Prop where
  uuid : Function.Injective encoding.uuidText
  instant : Function.Injective encoding.instantText
  uuidPlain : ∀ uuid, '|' ∉ (encoding.uuidText uuid).toList
  instantPlain : ∀ time, '|' ∉ (encoding.instantText time).toList
  hashHex : ∀ text, (encoding.sha256Hex text).toList.all isAsciiHexDigit = true

theorem debugOption_plain {link : Option String} (plain : ∀ text ∈ link, '|' ∉ text.toList) :
    '|' ∉ debugOption encoding link := by
  cases link with
  | none =>
    show '|' ∉ ['N','o','n','e']
    decide
  | some text =>
    have escaped : ∀ c ∈ text.toList, '|' ∉ escapeDebug encoding c := by
      intro c listed bar
      have letters : ∀ pair ∈ lettered, '|' ≠ pair.2 := by decide
      have word := escapeDebug_escaped encoding c
      generalize escapeDebug encoding c = printed at word bar
      cases word with
      | letter known => simp at bar; exact letters _ known bar
      | number =>
        simp only [numberedChar,List.mem_cons,List.mem_append,List.not_mem_nil,or_false] at bar
        rcases bar with bar | bar | bar | bar | bar
        · exact absurd bar (by decide)
        · exact absurd bar (by decide)
        · exact absurd bar (by decide)
        · obtain ⟨digit,small,isBar⟩ := mem_toDigits bar
          have never : ∀ digit < 16, '|' ≠ Nat.digitChar digit := by decide
          exact never digit small isBar
        · exact absurd bar (by decide)
      | plain _ _ =>
        obtain rfl := List.mem_singleton.mp bar
        exact plain text rfl listed
    simp only [debugOption,debugString,List.mem_append,List.mem_cons,List.mem_flatMap,List.not_mem_nil,
      or_false]
    rintro ((stem | stem | stem | stem | stem) | (quote | ⟨c,listed,bar⟩ | quote) | close)
    iterate 5 exact absurd stem (by decide)
    · exact absurd quote (by decide)
    · exact escaped c listed bar
    · exact absurd quote (by decide)
    · exact absurd close (by decide)

-- The hashed text of an event tells every field apart that is hashed, once it is
-- known how many delimiters the free texts contain.
theorem canonical_unique {a b : AuditEvent} (printed : Printed encoding)
    (link : ∀ text ∈ a.previousHash, '|' ∉ text.toList) (link' : ∀ text ∈ b.previousHash, '|' ∉ text.toList)
    (same : a.canonical encoding = b.canonical encoding) :
    a.eventId = b.eventId ∧ a.occurredAt = b.occurredAt ∧ a.previousHash = b.previousHash ∧
    (a.actor.toList.count '|' = b.actor.toList.count '|' →
      a.action.toList.count '|' = b.action.toList.count '|' →
      a.outcome.toList.count '|' = b.outcome.toList.count '|' →
      a.actor = b.actor ∧ a.action = b.action ∧ a.outcome = b.outcome ∧ a.metadata = b.metadata) := by
  unfold AuditEvent.canonical at same
  obtain ⟨ids,same⟩ := field_unique (printed.uuidPlain _) (printed.uuidPlain _) same
  obtain ⟨instants,same⟩ := field_unique (printed.instantPlain _) (printed.instantPlain _) same
  -- the link is what follows the last delimiter
  simp only [← List.cons_append,← List.append_assoc] at same
  obtain ⟨texts,links⟩ := last_field_unique (debugOption_plain link) (debugOption_plain link') same
  refine ⟨printed.uuid (String.toList_inj.mp ids),printed.instant (String.toList_inj.mp instants),
    debugOption_injective links,fun actors actions outcomes => ?_⟩
  simp only [List.cons_append,List.append_assoc] at texts
  obtain ⟨actor,texts⟩ := counted_unique actors texts
  obtain ⟨action,texts⟩ := counted_unique actions texts
  obtain ⟨outcome,texts⟩ := counted_unique outcomes texts
  exact ⟨String.toList_inj.mp actor,String.toList_inj.mp action,String.toList_inj.mp outcome,
    debugMetadata_injective texts⟩

end Shaka.Memory
