import Shaka.Core.PairValues
import Shaka.Observability.Redactor

namespace Shaka.Properties
open Shaka.Core Observability Patterns Pattern JsonValue

-- A value without white space and without what separates or ends the values of a text.
def PlainValue (value : String) : Prop := ∀ c ∈ value.toList, isBareChar c = true ∧ isSeparator c = false

-- The text `key=value`, and its redaction: the value is redacted when the output ends with the mark.
def assignment (key value : String) : String := key ++ "=" ++ value

def TextRedacts (isWord : Char → Bool) (key value : String) : Prop :=
  "[REDACTED]".toList <:+ (redactSensitive isWord (assignment key value)).toList

-- As a field, the value is hidden when what is shown is the same for every value.
def FieldHides (redactor : Redactor) (isWord : Char → Bool) (depth : Nat) (key value : String) : Prop :=
  ∀ other, PlainValue other → redactor.redactJsonAtDepth isWord (.object [(key,.string other)]) depth =
    redactor.redactJsonAtDepth isWord (.object [(key,.string value)]) depth

-- The search of the text ends with a match, the value in it.
def Reached (isWord : Char → Bool) (key value : String) : Prop :=
  ∃ read, (pieces (sensitiveTextPattern isWord) none (assignment key value).toList).getLast? =
    some (.matched read)

-- A key without quotes, white space and separators.
def PlainKey (key : String) : Prop := ∀ c ∈ key.toList, isWhiteSpace c = false ∧ isQuote c = false ∧
    isSeparator c = false

def EndsInName (key : String) : Prop := ∃ name, IsName name ∧ name <:+ key.toList

variable {isWord : Char → Bool} {redactor : Redactor}

theorem redactMatch_mark (read : List Char) : "[REDACTED]".toList <:+ redactMatch read := by
  unfold redactMatch
  split
  · exact ⟨"Bearer ".toList,by decide⟩
  · exact ⟨matchedKey read ++ ['='],by rw [List.append_assoc]; congr 1⟩

theorem render_last (found : List Piece) (last : Piece) (ending : found.getLast? = some last) :
    last.render redactMatch <:+ found.flatMap (Piece.render redactMatch) := by
  obtain ⟨before,rfl⟩ := List.getLast?_eq_some_iff.mp ending
  rw [List.flatMap_append]
  exact ⟨before.flatMap (Piece.render redactMatch),by simp⟩

theorem assignment_chars (key value : String) :
    (assignment key value).toList = key.toList ++ '=' :: value.toList := by
  rw [assignment,String.toList_append,String.toList_append,List.append_assoc]
  congr 1

theorem last_char {before : List Char} {key value : String} {c : Char} (plain : PlainValue value)
    (ending : (assignment key value).toList = before ++ [c]) : c ≠ ']' := by
  have last := congrArg List.getLast? ending
  rw [assignment_chars,List.getLast?_append,List.getLast?_append,List.getLast?_cons] at last
  cases valued : value.toList.getLast? with
  | none =>
    rw [valued] at last
    cases last
    decide
  | some d =>
    rw [valued] at last
    cases last
    rintro rfl
    exact absurd (plain _ (List.mem_of_getLast? valued)).1 (by decide)

-- A text that ends in a plain value is redacted to one that ends in a mark just where its search ends with
-- a match.
theorem textRedacts_iff {key value : String} (plain : PlainValue value) :
    TextRedacts isWord key value ↔ Reached isWord key value := by
  have lands := lands_end (sensitiveTextPattern isWord) none (assignment key value).toList
  have output : (redactSensitive isWord (assignment key value)).toList =
      (pieces (sensitiveTextPattern isWord) none (assignment key value).toList).flatMap
        (Piece.render redactMatch) := by
    rw [redactSensitive,String.toList_ofList]
    rfl
  unfold TextRedacts Reached
  rw [output]
  constructor
  · intro marked
    cases ending : (pieces (sensitiveTextPattern isWord) none (assignment key value).toList).getLast? with
    | none =>
      rw [List.getLast?_eq_none_iff.mp ending] at marked
      exact absurd marked (by decide)
    | some last =>
      cases last with
      | matched read => exact ⟨read,rfl⟩
      | kept c =>
        obtain ⟨before,whole⟩ := lands.last ending
        refine absurd ?_ (last_char plain whole)
        obtain ⟨shown,split⟩ := render_last _ _ ending
        obtain ⟨front,split'⟩ := marked
        have same := congrArg List.getLast? (split.trans split'.symm)
        rw [List.getLast?_append,List.getLast?_append] at same
        exact Option.some.inj same
  · rintro ⟨read,ending⟩
    exact (redactMatch_mark read).trans (render_last _ _ ending)

-- A text without separators and white space is left as it is.
theorem plain_lands {text : List Char} (plain : ∀ c ∈ text, isWhiteSpace c = false ∧ isSeparator c = false)
    (prev : Option Char) : Lands (sensitiveTextPattern isWord) prev text [] (text.map .kept) := by
  induction text generalizing prev with
  | nil => exact .here
  | cons c text ih =>
    refine .kept rfl (pattern_missed.mpr fun read rest split reads =>
      ?_) (ih (fun d listed => plain d (List.mem_cons_of_mem _ listed)) _)
    rw [List.append_nil] at split
    have inside : ∀ d ∈ read, isWhiteSpace d = false ∧ isSeparator d = false := fun d listed =>
      plain d (split ▸ List.mem_append_left rest listed)
    cases pattern_kind reads with
    | @header k w v s shape _ separates =>
      have plain := (inside s (by rw [shape]; simp)).2
      rw [plain] at separates
      cases separates
    | bearer token =>
      obtain ⟨b,w,v,rfl,_,⟨some,spaces⟩,_⟩ := isBearerToken_iff.mp token
      obtain ⟨d,w,rfl⟩ := List.exists_cons_of_ne_nil some
      have plain := (inside d (by simp)).1
      rw [spaces d List.mem_cons_self] at plain
      cases plain
    | @pair k w v s shape _ separates =>
      have plain := (inside s (by rw [shape]; simp)).2
      rw [plain] at separates
      cases separates

theorem redactSensitive_plain {value : String} (plain : PlainValue value) :
    redactSensitive isWord value = value := by
  have lands := @plain_lands isWord value.toList (fun c listed =>
      ⟨bare_visible (plain c listed).1,(plain c listed).2⟩) none
  have replaced := @Lands.replaced _ redactMatch _ _ _ _ lands
  have kept : ∀ text : List Char, (text.map Piece.kept).flatMap (Piece.render redactMatch) = text := by
    intro text
    induction text with
    | nil => rfl
    | cons c text ih => rw [List.map_cons,List.flatMap_cons,ih]; rfl
  rw [List.append_nil,kept] at replaced
  rw [redactSensitive,replaced]
  exact (congrArg String.ofList (List.append_nil _)).trans String.ofList_toList

variable {depth : Nat}

theorem redactField (within : depth < redactor.jsonDepth) (key value : String) :
    redactor.redactJsonAtDepth isWord (.object [(key,.string value)]) depth = .object [(key,
      if sensitiveKey key then .string "[REDACTED]" else if contentKey key then .string "[REDACTED_CONTENT]"
      else redactor.redactJsonAtDepth isWord (.string value) (depth + 1))] := by
  have items : ¬ 0 ≥ redactor.jsonItems := Nat.not_le_of_lt redactor.itemBounds.1
  conv_lhs => rw [Redactor.redactJsonAtDepth,if_neg (Nat.not_le_of_lt within),Redactor.redactEntries,
    if_neg items]
  split
  · rfl
  split
  · rfl
  · rfl

theorem truncateText_short {value : String} {limit : Nat} (short : value.toList.length ≤ limit) :
    truncateText value limit = value := if_pos short

-- A field shows its value unless its key is one of those whose values are not shown.
theorem fieldHides_iff (within : depth + 1 < redactor.jsonDepth) (key value : String) :
    FieldHides redactor isWord depth key value ↔ sensitiveKey key = true ∨ contentKey key = true := by
  constructor
  · intro hides
    by_contra shown
    obtain ⟨plain,plain'⟩ := not_or.mp shown
    have same : ∀ other : String, PlainValue other → other.toList.length ≤ 1 →
        Json.string other = redactor.redactJsonAtDepth isWord (.string value) (depth + 1) := by
      intro other plainly short
      have both := hides other plainly
      rw [redactField (Nat.lt_of_succ_lt within),redactField (Nat.lt_of_succ_lt within),if_neg plain,
        if_neg plain',
        if_neg plain,if_neg plain',Redactor.redactJsonAtDepth,if_neg (Nat.not_le_of_lt within),
        Redactor.redactText,
        redactSensitive_plain plainly,truncateText_short (Nat.le_trans short redactor.textBounds.1)] at both
      simpa using both
    have empty := same "" (fun c listed => by simp at listed) (by simp)
    have letter := same "a" (fun c listed => by
      obtain rfl : c = 'a' := by simpa using listed
      decide) (by decide)
    exact absurd (Json.string.inj (empty.trans letter.symm)) (by decide)
  · rintro hidden other _
    rw [redactField (Nat.lt_of_succ_lt within),redactField (Nat.lt_of_succ_lt within)]
    rcases hidden with sensitive | content
    · rw [if_pos sensitive,if_pos sensitive]
    · rw [if_pos content,if_pos content]

-- The parts of an assignment: the key and the value have no separator.
theorem assignment_parts {x y k v : List Char} {s : Char} (keyed : ∀ c ∈ k, isSeparator c = false)
    (valued : ∀ c ∈ v, isSeparator c = false) (separates : isSeparator s = true)
    (same : x ++ s :: y = k ++ '=' :: v) : x = k ∧ y = v := by
  rcases List.append_eq_append_iff.mp same with ⟨c,rfl,later⟩ | ⟨c,rfl,later⟩
  · cases c with
    | nil => exact ⟨(List.append_nil x).symm,(List.cons.inj later).2⟩
    | cons d c =>
      obtain ⟨rfl,_⟩ := List.cons.inj later
      rw [keyed s (by simp)] at separates
      cases separates
  · cases c with
    | nil => exact ⟨List.append_nil k,(List.cons.inj later).2.symm⟩
    | cons d c =>
      obtain ⟨_,rfl⟩ := List.cons.inj later
      rw [valued s (by simp)] at separates
      cases separates

section Assignments
variable {k v : List Char}
  (keyed : ∀ c ∈ k, isWhiteSpace c = false ∧ isQuote c = false ∧ isSeparator c = false)
  (valued : ∀ c ∈ v, isBareChar c = true ∧ isSeparator c = false)
include keyed valued

theorem assignment_spaceless : ∀ c ∈ k ++ '=' :: v, isWhiteSpace c = false := by
  refine List.forall_mem_append.mpr ⟨fun c listed => (keyed c listed).1,
    List.forall_mem_cons.mpr ⟨by decide,?_⟩⟩
  exact fun c listed => bare_visible (valued c listed).1

-- Only a pair is read of a text without white space.
theorem spaceless_pair {before read after : List Char} (split : k ++ '=' :: v = before ++ (read ++ after))
    (kind : Kind read) : ∃ k' s w v', read = k' ++ s :: (w ++ v') ∧ IsKey k' ∧ isSeparator s = true := by
  have spaceless : ¬ ∃ c ∈ read, isWhiteSpace c = true := by
    rintro ⟨c,listed,space⟩
    rw [assignment_spaceless keyed valued c (split ▸ by simp [listed])] at space
    cases space
  cases kind with
  | header shape _ _ _ token =>
    obtain ⟨c,listed,space⟩ := bearerToken_space token
    exact absurd ⟨c,by rw [shape]; simp [listed],space⟩ spaceless
  | bearer token => exact absurd (bearerToken_space token) spaceless
  | pair shape key separates => exact ⟨_,_,_,_,shape,key,separates⟩

-- The key of the last match is a name where the key of the assignment ends.
theorem reached_names {before read : List Char} (split : k ++ '=' :: v = before ++ read) (kind : Kind read) :
    ∃ name, IsName name ∧ name <:+ k := by
  obtain ⟨k',s,w,v',shape,key,separates⟩ := spaceless_pair keyed valued
    (show k ++ '=' :: v = before ++ (read ++ []) by simpa using split) kind
  obtain ⟨joined,_⟩ := assignment_parts (fun c listed => (keyed c listed).2.2) (fun c listed =>
    (valued c listed).2) separates
    (show (before ++ k') ++ s :: (w ++ v') = k ++ '=' :: v by rw [split,shape,List.append_assoc])
  obtain ⟨q,name,q',w',rfl,opening,named,closing,spaces⟩ := isKey_iff.mp key
  have unquoted : ∀ {q : List Char}, OptionalQuote q → (∀ c ∈ q, c ∈ k) → q = [] := by
    intro q optional inside
    rcases optional with rfl | ⟨c,rfl,quote⟩
    · rfl
    · rw [(keyed c (inside c List.mem_cons_self)).2.1] at quote
      cases quote
  have first := unquoted opening fun c listed => joined ▸ by simp [listed]
  have second := unquoted closing fun c listed => joined ▸ by simp [listed]
  have third : w' = [] := by
    rw [List.eq_nil_iff_forall_not_mem]
    intro c listed
    have space := spaces c listed
    rw [(keyed c (joined ▸ by simp [listed])).1] at space
    cases space
  rw [first,second,third] at joined
  exact ⟨name,named,before,by simpa using joined⟩

-- A match in the assignment goes on to its end.
theorem match_reaches {prev : Option Char} {found : List Piece} {read : List Char} (some : v ≠ [])
    (unquoted : ∀ c ∈ v.head?, isQuote c = false)
    (lands : Lands (sensitiveTextPattern isWord) prev (k ++ '=' :: v) [] found)
    (listed : .matched read ∈ found) : ∃ last, found.getLast? = .some (.matched last) := by
  generalize whole : k ++ '=' :: v = text at lands
  generalize ending : ([] : List Char) = rest at lands
  induction lands generalizing k with
  | here => exact absurd listed List.not_mem_nil
  | @kept prev c text after _ found split missed lands ih =>
    subst ending split
    have listed' : .matched read ∈ found := by simpa using listed
    cases k with
    | nil =>
      obtain ⟨_,rfl⟩ := List.cons.inj whole
      have plain := (@plain_lands isWord v (fun c listed =>
          ⟨bare_visible (valued c listed).1,(valued c listed).2⟩) (.some c)).whole
      rw [lands.whole] at plain
      rw [plain] at listed'
      obtain ⟨d,_,differs⟩ := List.mem_map.mp listed'
      cases differs
    | cons d k =>
      obtain ⟨_,same⟩ := List.cons.inj whole
      obtain ⟨last,final⟩ := ih (fun c listed => keyed c (List.mem_cons_of_mem _ listed)) listed' same rfl
      refine ⟨last,?_⟩
      rw [List.getLast?_cons,final]
      rfl
  | @matched prev read text after _ found split some' hit lands ih =>
    subst ending split
    rw [List.append_nil] at hit
    have sizes : read.length = (read ++ after).length := by
      have pairs : ∀ {p : Pattern}, p.find prev (read ++ after) = .some read.length →
          (∀ {prev : Option Char} {text rest : List Char}, p.Reads prev text rest → ∃ c ∈ text,
            isWhiteSpace c = true) → False := by
        intro p found spaced
        obtain ⟨read',rest,same,size,reads⟩ := find_some found
        obtain ⟨rfl,rfl⟩ := List.append_inj same size.symm
        obtain ⟨c,inside,space⟩ := spaced reads
        rw [assignment_spaceless keyed valued c (whole ▸ List.mem_append_left after inside)] at space
        cases space
      rcases found_cases hit with headed | borne | paired
      · refine (pairs headed fun reads => ?_).elim
        obtain ⟨_,k,s,w,v,rfl,_,_,_,token⟩ := header_reads.mp reads
        obtain ⟨c,inside,space⟩ := bearerToken_space token
        exact ⟨c,by simp [inside],space⟩
      · exact (pairs borne fun reads => bearerToken_space (bearer_reads.mp reads).2).elim
      · obtain ⟨k',s,w,rest,before,more,same,key,separates,spaces,best,size⟩ := pair_find paired
        obtain ⟨rfl,rfl⟩ := assignment_parts (fun c listed => (keyed c listed).2.2) (fun c listed =>
          (valued c listed).2) separates (same.symm.trans whole.symm)
        have spaceless : w = [] := by
          rw [List.eq_nil_iff_forall_not_mem]
          intro c inside
          have bare := bare_visible (valued c (List.mem_append_left rest inside)).1
          rw [spaces c inside] at bare
          cases bare
        subst spaceless
        rw [List.nil_append] at some unquoted valued same
        obtain ⟨c,rest,rfl⟩ := List.exists_cons_of_ne_nil some
        have run := pairValue_bare (unquoted c rfl) best
        rw [List.takeWhile_eq_self_iff.mpr fun d listed => (valued d listed).1] at run
        rw [size,same,run]
        simp
        omega
    have none : after = [] := by
      rw [List.length_append] at sizes
      exact List.eq_nil_of_length_eq_zero (by omega)
    subst none
    cases lands with
    | here => exact ⟨read,rfl⟩
    | kept split _ _ => cases split
    | matched split some _ _ => exact absurd (List.append_eq_nil_iff.mp split.symm).1 some

end Assignments

theorem reached_iff {key value : String} (plain : PlainValue value) (some : value ≠ "")
    (unquoted : ∀ c ∈ value.toList.head?, isQuote c = false) (plainKey : PlainKey key) :
    Reached isWord key value ↔ EndsInName key := by
  have lands := lands_end (sensitiveTextPattern isWord) none (assignment key value).toList
  rw [assignment_chars] at lands
  have chars : value.toList ≠ [] := fun none => some (String.toList_eq_nil_iff.mp none)
  unfold Reached
  rw [assignment_chars]
  constructor
  · rintro ⟨read,ending⟩
    obtain ⟨before,split⟩ := lands.last ending
    exact reached_names plainKey plain split (lands_kinds lands (List.mem_of_getLast? ending))
  · rintro ⟨name,named,before,split⟩
    obtain ⟨c,rest,valued⟩ := List.exists_cons_of_ne_nil chars
    have key' : IsKey name := isKey_iff.mpr ⟨[],name,[],[],by simp,.inl rfl,named,.inl rfl,fun d listed =>
        absurd listed List.not_mem_nil⟩
    obtain ⟨read,listed⟩ := @key_found isWord none before name rest '=' c _ (by
      rw [←List.append_assoc,split,←valued]
      exact lands) key' (by decide) (plain c (valued ▸ List.mem_cons_self)).1
    exact match_reaches plainKey plain chars unquoted lands listed

-- What the text would redact the field hides, exactly where the fields' classifiers know the key or
-- the text's pattern does not; for a plain key, that is where it ends in no name of the pattern.
theorem fieldsAndText_agree (redactor : Redactor) (isWord : Char → Bool) (depth : Nat)
    (within : depth + 1 < redactor.jsonDepth) (key value : String) (plain : PlainValue value) :
    ((TextRedacts isWord key value → FieldHides redactor isWord depth key value) ↔
      sensitiveKey key = true ∨ contentKey key = true ∨ ¬ Reached isWord key value) ∧
    (PlainKey key → value ≠ "" → (∀ c ∈ value.toList.head?, isQuote c = false) →
      (Reached isWord key value ↔ EndsInName key)) := by
  refine ⟨?_,fun plainKey some unquoted => reached_iff plain some unquoted plainKey⟩
  rw [textRedacts_iff plain,fieldHides_iff within]
  constructor
  · intro law
    by_cases reached : Reached isWord key value
    · rcases law reached with sensitive | content
      · exact .inl sensitive
      · exact .inr (.inl content)
    · exact .inr (.inr reached)
  · rintro (sensitive | content | unreached) reached
    · exact .inl sensitive
    · exact .inr content
    · exact absurd reached unreached

def trialRedactor : Redactor := ⟨4096,16,256,by decide,by decide,by decide⟩

theorem plainValue_chars {value : String}
    (all : (value.toList.all fun c => isBareChar c && !isSeparator c) = true) :
    PlainValue value := by
  intro c listed
  have both := List.all_eq_true.mp all c listed
  simpa using both

theorem plainKey_chars {key : String}
    (all : (key.toList.all fun c => !isWhiteSpace c && !isQuote c && !isSeparator c) = true) :
    PlainKey key := by
  intro c listed
  have both := List.all_eq_true.mp all c listed
  simpa [and_assoc] using both

theorem fieldsAndText_agree_password : FieldHides trialRedactor isAsciiWord 0 "password" "abc" ∧
    (Reached isAsciiWord "password" "abc" ↔ EndsInName "password") := by
  obtain ⟨law,names⟩ := fieldsAndText_agree trialRedactor isAsciiWord 0 (by decide) "password" "abc"
    (plainValue_chars (by decide))
  have first : ∀ c ∈ "abc".toList.head?, isQuote c = false := by
    intro c head
    rw [show "abc".toList.head? = some 'a' by decide,Option.mem_some_iff] at head
    subst head
    decide
  exact ⟨law.mpr (.inl (by decide)) (by unfold TextRedacts; decide),
    names (plainKey_chars (by decide)) (by decide) first⟩

theorem fieldsAndText_refreshToken : ¬ ∀ key value, PlainValue value → TextRedacts isAsciiWord key value →
    FieldHides trialRedactor isAsciiWord 0 key value := by
  intro always
  have hides := always "refresh_token" "abc" (plainValue_chars (by decide)) (by unfold TextRedacts; decide)
  rcases (fieldHides_iff (by decide) "refresh_token" "abc").mp hides with sensitive | content
  · exact absurd sensitive (by decide)
  · exact absurd content (by decide)

end Shaka.Properties
