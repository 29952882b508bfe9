import Shaka.Core.Redaction
import Mathlib.Data.Bool.AllAny

namespace Shaka.Core
open Patterns Pattern

-- A key as the pattern reads it, with its quotes and the space after it; the name in it; the key
-- of a header; the word `Bearer` with its token.
def IsKey (text : List Char) : Prop := pairKey.Reads none text []

def IsName (text : List Char) : Prop := secretName.Reads none text []

def IsHeaderKey (text : List Char) : Prop := headerKey.Reads none text []

def IsBearerToken (text : List Char) : Prop := bearerToken.Reads none text []

def IsValue (text : List Char) : Prop := pairValue.Reads none text []

def Spaces (text : List Char) : Prop := ∀ c ∈ text, isWhiteSpace c = true

-- The characters that no key has.
def keyStops : List Char := [':','=','b','B','[',']']

theorem isKey_avoids {text : List Char} (key : IsKey text) : ∀ c ∈ text, c ∉ keyStops :=
  reads_avoids (by decide) key

theorem isHeaderKey_avoids {text : List Char} (key : IsHeaderKey text) : ∀ c ∈ text, c ∉ keyStops :=
  reads_avoids (by decide) key

theorem isName_quotes {text : List Char} (name : IsName text) : ∀ c ∈ text, c ∉ ['"',apostrophe] :=
  reads_avoids (by decide) name

theorem isKey_some {text : List Char} (key : IsKey text) : text ≠ [] := reads_consumes (by decide) key

theorem isHeaderKey_some {text : List Char} (key : IsHeaderKey text) : text ≠ [] :=
  reads_consumes (by decide) key

theorem isBearerToken_some {text : List Char} (token : IsBearerToken text) : text ≠ [] :=
  reads_consumes (by decide) token

theorem isName_some {text : List Char} (name : IsName text) : text ≠ [] := reads_consumes (by decide) name

-- A key, a separator, spaces and what follows them.
theorem joined_reads {key value : Pattern} (alone : key.free = true) (alone' : value.free = true)
    {prev : Option Char} {text rest : List Char} :
    (seq key (seq (one isSeparator) (seq (many isWhiteSpace) value))).Reads prev text rest ↔
      ∃ k s w v, text = k ++ s :: (w ++ v) ∧ key.Reads none k [] ∧ isSeparator s = true ∧ Spaces w ∧
      value.Reads none v [] := by
  constructor
  · rintro ⟨k,_,rfl,first,_,_,rfl,⟨s,rfl,separates⟩,w,v,rfl,spaces,last⟩
    exact ⟨k,s,w,v,rfl,(reads_free alone).mp first,separates,spaces,(reads_free alone').mp last⟩
  · rintro ⟨k,s,w,v,rfl,first,separates,spaces,last⟩
    exact ⟨k,s :: (w ++ v),rfl,(reads_free alone).mpr first,[s],w ++ v,rfl,⟨s,rfl,separates⟩,w,v,rfl,spaces,
      (reads_free alone').mpr last⟩

theorem pair_reads {prev : Option Char} {text rest : List Char} : pair.Reads prev text rest ↔
    ∃ k s w v, text = k ++ s :: (w ++ v) ∧ IsKey k ∧ isSeparator s = true ∧ Spaces w ∧ IsValue v :=
  joined_reads (by decide) (by decide)

variable {isWord : Char → Bool}

theorem header_reads {prev : Option Char} {text rest : List Char} : (header isWord).Reads prev text rest ↔
    prev.any isWord ≠ (text ++ rest).head?.any isWord ∧
    ∃ k s w v, text = k ++ s :: (w ++ v) ∧ IsHeaderKey k ∧ isSeparator s = true ∧ Spaces w ∧
    IsBearerToken v := by
  constructor
  · rintro ⟨_,after,rfl,⟨rfl,apart⟩,later⟩
    exact ⟨apart,(joined_reads (by decide) (by decide)).mp later⟩
  · rintro ⟨apart,later⟩
    exact ⟨[],text,rfl,⟨rfl,apart⟩,(joined_reads (by decide) (by decide)).mpr later⟩

theorem bearer_reads {prev : Option Char} {text rest : List Char} : (bearer isWord).Reads prev text rest ↔
    prev.any isWord ≠ (text ++ rest).head?.any isWord ∧ IsBearerToken text := by
  constructor
  · rintro ⟨_,after,rfl,⟨rfl,apart⟩,later⟩
    exact ⟨apart,(reads_free (by decide)).mp later⟩
  · rintro ⟨apart,later⟩
    exact ⟨[],text,rfl,⟨rfl,apart⟩,(reads_free (by decide)).mpr later⟩

theorem isBearerToken_iff {text : List Char} : IsBearerToken text ↔ ∃ b w v, text = b ++ (w ++ v) ∧
    List.Forall₂ (fun letter c => folds letter c = true) "bearer".toList b ∧
    (w ≠ [] ∧ Spaces w) ∧ v ≠ [] ∧ ∀ c ∈ v, isTokenChar c = true := by
  constructor
  · rintro ⟨b,_,rfl,letters,w,v,rfl,spaces,token⟩
    exact ⟨b,w,v,rfl,word_reads.mp letters,atLeastOne_reads.mp spaces,atLeastOne_reads.mp token⟩
  · rintro ⟨b,w,v,rfl,letters,spaces,token⟩
    exact ⟨b,w ++ v,rfl,word_reads.mpr letters,w,v,rfl,atLeastOne_reads.mpr spaces,atLeastOne_reads.mpr token⟩

def OptionalQuote (text : List Char) : Prop := text = [] ∨ ∃ c, text = [c] ∧ isQuote c = true

theorem isKey_iff {text : List Char} : IsKey text ↔ ∃ q name q' w, text = q ++ (name ++ (q' ++ w)) ∧
    OptionalQuote q ∧ IsName name ∧ OptionalQuote q' ∧ Spaces w := by
  have quote : ∀ {prev : Option Char} {text rest : List Char},
      (opt (one isQuote)).Reads prev text rest ↔ OptionalQuote text := fun {_ _ _} => or_comm
  constructor
  · rintro ⟨q,_,rfl,opening,name,_,rfl,named,q',w,rfl,closing,spaces⟩
    exact ⟨q,name,q',w,rfl,quote.mp opening,(reads_free (by decide)).mp named,quote.mp closing,spaces⟩
  · rintro ⟨q,name,q',w,rfl,opening,named,closing,spaces⟩
    exact ⟨q,name ++ (q' ++ w),rfl,quote.mpr opening,name,q' ++ w,rfl,(reads_free (by decide)).mpr named,
      q',w,rfl,quote.mpr closing,spaces⟩

-- The value of a pair begins where a bare character stands, and wherever one does.
theorem isValue_bare {text : List Char} (value : IsValue text) :
    ∃ c rest, text = c :: rest ∧ isBareChar c = true := by
  have marked : ∀ mark : Char, isBareChar mark = true → (quoted mark).Reads none text [] →
      ∃ c rest, text = c :: rest ∧ isBareChar c = true := by
    rintro mark bare ⟨_,after,rfl,⟨c,rfl,first⟩,_⟩
    exact ⟨c,after,rfl,by rw [eq_of_beq first]; exact bare⟩
  rcases value with double | single | bare
  · exact marked '"' (by decide) double
  · exact marked apostrophe (by decide) single
  · obtain ⟨some,all⟩ := atLeastOne_reads.mp bare
    obtain ⟨c,rest,rfl⟩ := List.exists_cons_of_ne_nil some
    exact ⟨c,rest,rfl,all c List.mem_cons_self⟩

theorem isValue_char {c : Char} (bare : isBareChar c = true) : IsValue [c] :=
  .inr (.inr (atLeastOne_reads.mpr ⟨List.cons_ne_nil c [],fun _ listed =>
    List.mem_singleton.mp listed ▸ bare⟩))

theorem pattern_find (isWord : Char → Bool) (prev : Option Char) (text : List Char) :
    (sensitiveTextPattern isWord).find prev text =
      ((header isWord).find prev text).or (((bearer isWord).find prev text).or (pair.find prev text)) := by
  rw [sensitiveTextPattern,choice,choice,choice,find_alt,find_alt]

theorem found_cases {prev : Option Char} {text : List Char} {place : Nat}
    (found : (sensitiveTextPattern isWord).find prev text = some place) :
    (header isWord).find prev text = some place ∨ (bearer isWord).find prev text = some place ∨
    pair.find prev text = some place := by
  rw [pattern_find] at found
  cases headed : (header isWord).find prev text with
  | some place' =>
    rw [headed] at found
    exact .inl found
  | none =>
    rw [headed] at found
    cases borne : (bearer isWord).find prev text with
    | some place' =>
      rw [borne] at found
      exact .inr (.inl found)
    | none =>
      rw [borne] at found
      exact .inr (.inr found)

-- The value of a pair is taken at its best.
theorem pair_find {prev : Option Char} {text : List Char} {place : Nat}
    (found : pair.find prev text = some place) :
    ∃ k s w rest before more, text = k ++ s :: (w ++ rest) ∧ IsKey k ∧ isSeparator s = true ∧ Spaces w ∧
      pairValue.find before rest = some more ∧ place = k.length + 1 + w.length + more := by
  obtain ⟨k,_,_,rfl,key,second,rfl⟩ := find_seq found
  obtain ⟨_,_,_,rfl,⟨s,rfl,separates⟩,third,rfl⟩ := find_seq second
  obtain ⟨w,rest,more,rfl,spaces,last,rfl⟩ := find_seq third
  refine ⟨k,s,w,rest,_,more,rfl,(reads_free (by decide)).mp key,separates,spaces,last,?_⟩
  rw [List.length_singleton]
  omega

theorem quoted_find {mark c : Char} {prev : Option Char} {rest : List Char} (differs : c ≠ mark) :
    (quoted mark).find prev (c :: rest) = none := by
  refine find_none.mpr ?_
  rintro _ rest' split ⟨_,after,rfl,⟨d,rfl,first⟩,_⟩
  exact differs ((List.cons.inj split).1.trans (eq_of_beq first))

-- One that does not begin with a quote goes on to the first character that is not bare.
theorem pairValue_bare {c : Char} {prev : Option Char} {rest : List Char} {place : Nat}
    (plain : isQuote c = false) (found : pairValue.find prev (c :: rest) = some place) :
    place = ((c :: rest).takeWhile isBareChar).length := by
  have double : c ≠ '"' := by
    rintro rfl
    exact absurd plain (by decide)
  have single : c ≠ apostrophe := by
    rintro rfl
    exact absurd plain (by decide)
  rw [pairValue,choice,choice,choice,find_alt,find_alt,quoted_find double,quoted_find single] at found
  exact atLeastOne_find found

theorem pattern_some {prev : Option Char} {text rest : List Char}
    (reads : (sensitiveTextPattern isWord).Reads prev text rest) :
    text ≠ [] := by
  rcases reads with header | bearer | pair
  · obtain ⟨_,k,s,w,v,rfl,_⟩ := header_reads.mp header
    simp
  · exact isBearerToken_some (bearer_reads.mp bearer).2
  · obtain ⟨k,s,w,v,rfl,_⟩ := pair_reads.mp pair
    simp

theorem pattern_solid {prev : Option Char} {text : List Char} :
    (sensitiveTextPattern isWord).find prev text ≠ some 0 := by
  intro found
  obtain ⟨read,rest,_,size,reads⟩ := find_some found
  exact pattern_some reads (List.eq_nil_of_length_eq_zero size)

-- Nothing is found where nothing is read, and only there.
theorem pattern_missed {prev : Option Char} {text : List Char} :
    (∀ more, (sensitiveTextPattern isWord).find prev text ≠ some (more + 1)) ↔
      ∀ read rest, text = read ++ rest → ¬ (sensitiveTextPattern isWord).Reads prev read rest := by
  rw [←find_none]
  constructor
  · intro none
    cases found : (sensitiveTextPattern isWord).find prev text with
    | none => rfl
    | some place =>
      cases place with
      | zero => exact absurd found pattern_solid
      | succ more => exact absurd found (none more)
  · intro none more found
    rw [none] at found
    cases found

-- How the text of a match is rewritten.

theorem toLower_b {c : Char} (lower : c.toLower = 'b') : c = 'B' ∨ c = 'b' := by
  unfold Char.toLower at lower
  split at lower
  · rename_i upper
    left
    apply Char.ext
    have value := congrArg Char.val lower
    simp at value
    grind
  · exact .inr lower

theorem folds_cases {letter c : Char} (reads : folds letter c = true) :
    c = letter ∨ c = letter.toUpper ∨ letter = 's' ∨ letter = 'k' := by
  simp only [folds,Bool.or_eq_true,Bool.and_eq_true,beq_iff_eq] at reads
  rcases reads with ((same | upper) | ⟨s,_⟩) | ⟨k,_⟩
  · exact .inl same
  · exact .inr (.inl upper)
  · exact .inr (.inr (.inl s))
  · exact .inr (.inr (.inr k))

theorem folds_lower {letters text : List Char}
    (reads : List.Forall₂ (fun letter c => folds letter c = true) letters text)
    (plain : ∀ letter ∈ letters, letter.toLower = letter ∧ letter.toUpper.toLower = letter ∧ letter ≠ 's' ∧
      letter ≠ 'k') : text.map Char.toLower = letters := by
  induction reads with
  | nil => rfl
  | @cons letter c letters text first _ ih =>
    have later := ih fun other listed => plain other (List.mem_cons_of_mem _ listed)
    obtain ⟨lower,upper,notS,notK⟩ := plain letter List.mem_cons_self
    rw [List.map_cons,later]
    rcases folds_cases first with rfl | rfl | rfl | rfl
    · rw [lower]
    · rw [upper]
    · exact absurd rfl notS
    · exact absurd rfl notK

theorem folds_b {c : Char} (folded : folds 'b' c = true) : c = 'b' ∨ c = 'B' := by
  rcases folds_cases folded with rfl | rfl | differs | differs
  · exact .inl rfl
  · exact .inr (by decide)
  · exact absurd differs (by decide)
  · exact absurd differs (by decide)

theorem bearer_letters : "bearer".toList = 'b' :: "earer".toList := by decide

theorem bearerToken_head {text : List Char} (token : IsBearerToken text) :
    ∃ c more, text = c :: more ∧ folds 'b' c = true := by
  obtain ⟨b,w,v,rfl,letters,_⟩ := isBearerToken_iff.mp token
  rw [bearer_letters] at letters
  obtain ⟨c,more,first,_,rfl⟩ := List.forall₂_cons_left_iff.mp letters
  exact ⟨c,more ++ (w ++ v),rfl,first⟩

theorem isBearerToken_bearer {text : List Char} (token : IsBearerToken text) : isBearer text = true := by
  obtain ⟨b,_,_,rfl,letters,_⟩ := isBearerToken_iff.mp token
  have six : b.length = 6 := letters.length_eq.symm
  have lower := folds_lower letters (List.all_iff_forall_prop.mp (by decide))
  rw [isBearer,List.take_append_of_le_length (Nat.le_of_eq six.symm),
    List.take_of_length_le (Nat.le_of_eq six),lower]
  exact beq_self_eq_true _

theorem redact_bearer {text : List Char} (token : IsBearerToken text) :
    redactMatch text = "Bearer [REDACTED]".toList := by
  rw [redactMatch,if_pos (isBearerToken_bearer token)]

theorem keyStops_separator {c : Char} (avoids : c ∉ keyStops) : isSeparator c = false := by
  simp [keyStops] at avoids
  simp [isSeparator,avoids]

theorem takeWhile_key {k rest : List Char} {s : Char} (avoids : ∀ c ∈ k, c ∉ keyStops)
    (separates : isSeparator s = true) : ((k ++ s :: rest).takeWhile fun c => !isSeparator c) = k := by
  rw [List.takeWhile_append_of_pos fun c listed => by simp [keyStops_separator (avoids c listed)],
    List.takeWhile_cons_of_neg (by simp [separates]),List.append_nil]

theorem keyed_bearer {k rest : List Char} (some : k ≠ []) (avoids : ∀ c ∈ k, c ∉ keyStops) :
    isBearer (k ++ rest) = false := by
  obtain ⟨c,k,rfl⟩ := List.exists_cons_of_ne_nil some
  have first := avoids c List.mem_cons_self
  rw [isBearer,beq_eq_false_iff_ne]
  intro same
  have lower : c.toLower = 'b' := (List.cons.inj same).1
  rcases toLower_b lower with rfl | rfl
  · exact first (by decide)
  · exact first (by decide)

theorem redact_keyed {k rest : List Char} {s : Char} (some : k ≠ []) (avoids : ∀ c ∈ k, c ∉ keyStops)
    (separates : isSeparator s = true) :
    redactMatch (k ++ s :: rest) = trimQuotes k ++ "=[REDACTED]".toList := by
  rw [redactMatch,keyed_bearer some avoids,if_neg (by decide),matchedKey,takeWhile_key avoids separates]

-- What a search finds: a header or a pair, which have a key, or a bare bearer token.
inductive Kind (text : List Char) : Prop where
  | header {k w v : List Char} {s : Char} : text = k ++ s :: (w ++ v) → IsHeaderKey k →
      isSeparator s = true → Spaces w → IsBearerToken v → Kind text
  | bearer : IsBearerToken text → Kind text
  | pair {k w v : List Char} {s : Char} : text = k ++ s :: (w ++ v) → IsKey k → isSeparator s = true →
      Spaces w → IsValue v → Kind text

theorem pattern_kind {prev : Option Char} {text rest : List Char}
    (reads : (sensitiveTextPattern isWord).Reads prev text rest) :
    Kind text := by
  rcases reads with header | bearer | pair
  · obtain ⟨_,k,s,w,v,split,key,separates,spaces,token⟩ := header_reads.mp header
    exact .header split key separates spaces token
  · exact .bearer (bearer_reads.mp bearer).2
  · obtain ⟨k,s,w,v,split,key,separates,spaces,value⟩ := pair_reads.mp pair
    exact .pair split key separates spaces value

theorem drop_quotes {q rest : List Char} (all : ∀ c ∈ q, isQuote c = true)
    (stop : ∀ c ∈ rest.head?, isQuote c = false) : (q ++ rest).dropWhile isQuote = rest := by
  rw [List.dropWhile_append_of_pos all]
  cases rest with
  | nil => rfl
  | cons c rest => exact List.dropWhile_cons_of_neg (by simp [stop c rfl])

theorem optionalQuote_all {q : List Char} (optional : OptionalQuote q) : ∀ c ∈ q, isQuote c = true := by
  rcases optional with rfl | ⟨c,rfl,quote⟩
  · exact fun c listed => absurd listed List.not_mem_nil
  · exact fun d listed => List.mem_singleton.mp listed ▸ quote

theorem isName_quote {name : List Char} (named : IsName name) {c : Char} (listed : c ∈ name) :
    isQuote c = false := by
  have avoids := isName_quotes named c listed
  simp only [List.mem_cons,List.not_mem_nil,or_false,not_or] at avoids
  simp [isQuote,avoids]

theorem space_quote {c : Char} (space : isWhiteSpace c = true) : isQuote c = false := by
  have avoids := avoided (by decide : (['"',apostrophe].all fun c => !isWhiteSpace c) = true) space
  simp only [List.mem_cons,List.not_mem_nil,or_false,not_or] at avoids
  simp [isQuote,avoids]

-- A key without its quotes is still one.
theorem trimQuotes_key {k : List Char} (key : IsKey k) : IsKey (trimQuotes k) := by
  obtain ⟨q,name,q',w,rfl,opening,named,closing,spaces⟩ := isKey_iff.mp key
  obtain ⟨c,more,rfl⟩ := List.exists_cons_of_ne_nil (isName_some named)
  have front : (q ++ ((c :: more) ++ (q' ++ w))).dropWhile isQuote = (c :: more) ++ (q' ++ w) := by
    apply drop_quotes (optionalQuote_all opening)
    rintro d ⟨⟩
    exact isName_quote named List.mem_cons_self
  rw [trimQuotes,front]
  rcases List.eq_nil_or_concat w with rfl | ⟨before,last,rfl⟩
  · -- the closing quote goes with the opening one
    have back : ((c :: more) ++ (q' ++ [])).reverse.dropWhile isQuote = (c :: more).reverse := by
      rw [List.append_nil,List.reverse_append]
      apply drop_quotes
      · exact fun d listed => optionalQuote_all closing d (List.mem_reverse.mp listed)
      · intro d first
        exact isName_quote named (List.mem_reverse.mp (List.mem_of_mem_head? first))
    rw [back,List.reverse_reverse]
    exact isKey_iff.mpr ⟨[],c :: more,[],[],by simp,.inl rfl,named,.inl rfl,fun d listed =>
      absurd listed List.not_mem_nil⟩
  · have spaced : isWhiteSpace last = true := spaces last (by simp)
    have back : ((c :: more) ++ (q' ++ before.concat last)).reverse.dropWhile isQuote =
        ((c :: more) ++ (q' ++ before.concat last)).reverse := by
      rw [show (c :: more) ++ (q' ++ before.concat last) = ((c :: more) ++ (q' ++ before)) ++ [last] by simp,
        List.reverse_append]
      exact List.dropWhile_cons_of_neg (by simp [space_quote spaced])
    rw [back,List.reverse_reverse]
    exact isKey_iff.mpr ⟨[],c :: more,q',before.concat last,rfl,.inl rfl,named,closing,spaces⟩

theorem trimQuotes_none {text : List Char} (none : ∀ c ∈ text, isQuote c = false) :
    trimQuotes text = text := by
  have front : text.dropWhile isQuote = text :=
    @drop_quotes [] text (fun c listed => absurd listed List.not_mem_nil) fun c first =>
      none c (List.mem_of_mem_head? first)
  have back : text.reverse.dropWhile isQuote = text.reverse :=
    @drop_quotes [] text.reverse (fun c listed => absurd listed List.not_mem_nil) fun c first =>
      none c (List.mem_reverse.mp (List.mem_of_mem_head? first))
  rw [trimQuotes,front,back,List.reverse_reverse]

theorem isName_authorization {text : List Char}
    (letters : List.Forall₂ (fun letter c => folds letter c = true) "authorization".toList text) :
    IsName text :=
  .inr (.inr (.inr (.inr (.inl (word_reads.mpr letters)))))

theorem isHeaderKey_quote {k : List Char} (key : IsHeaderKey k) : ∀ c ∈ k, isQuote c = false := by
  intro c listed
  have avoids := reads_avoids (by decide : headerKey.avoids ['"',apostrophe] = true) key c listed
  simp only [List.mem_cons,List.not_mem_nil,or_false,not_or] at avoids
  simp [isQuote,avoids]

-- A header's key ends in one that a pair can have, and has no quotes to lose.
theorem trimQuotes_headerKey {k : List Char} (key : IsHeaderKey k) :
    ∃ before after, trimQuotes k = before ++ after ∧ IsKey after := by
  rw [trimQuotes_none (isHeaderKey_quote key)]
  obtain ⟨name,w,rfl,named,spaces⟩ := key
  rcases named with plain | proxy
  · exact ⟨[],name ++ w,rfl,isKey_iff.mpr ⟨[],name,[],w,rfl,.inl rfl,
      isName_authorization (word_reads.mp plain),.inl rfl,spaces⟩⟩
  · have back := List.forall₂_drop 6 (word_reads.mp proxy)
    rw [show "proxy-authorization".toList.drop 6 = "authorization".toList by decide] at back
    refine ⟨name.take 6,name.drop 6 ++ w,?_,
      isKey_iff.mpr ⟨[],name.drop 6,[],w,rfl,.inl rfl,isName_authorization back,.inl rfl,spaces⟩⟩
    rw [←List.append_assoc,List.take_append_drop]

theorem lands_kinds {prev : Option Char} {text rest : List Char} {found : List Piece}
    (lands : Lands (sensitiveTextPattern isWord) prev text rest found) {read : List Char}
    (listed : .matched read ∈ found) : Kind read := by
  induction lands with
  | here => exact absurd listed List.not_mem_nil
  | kept _ _ _ ih => exact ih (by simpa using listed)
  | matched _ _ hit _ ih =>
    rcases List.mem_cons.mp listed with here | later
    · cases here
      obtain ⟨read',after,whole,size,reads⟩ := find_some hit
      rename_i split _ _
      rw [split,List.append_assoc] at whole
      obtain ⟨rfl,_⟩ := List.append_inj whole size.symm
      exact pattern_kind reads
    · exact ih later

-- A search keeps nothing of a key that a separator and a bare character follow.
theorem key_found {prev : Option Char} {before k y : List Char} {s c : Char} {found : List Piece}
    (lands : Lands (sensitiveTextPattern isWord) prev (before ++ (k ++ s :: c :: y)) [] found) (key : IsKey k)
    (separates : isSeparator s = true) (bare : isBareChar c = true) : ∃ read, .matched read ∈ found := by
  induction before generalizing prev found with
  | nil =>
    generalize whole : [] ++ (k ++ s :: c :: y) = text at lands
    cases lands with
    | here => cases k <;> cases whole
    | kept _ missed _ =>
      refine absurd (.inr (.inr ?_)) (pattern_missed.mp missed (k ++ s :: ([] ++ [c])) y
        (by rw [←whole]; simp))
      exact pair_reads.mpr ⟨k,s,[],[c],rfl,key,separates,fun d listed => absurd listed List.not_mem_nil,
        isValue_char bare⟩
    | matched _ _ _ _ => exact ⟨_,List.mem_cons_self⟩
  | cons d before ih =>
    generalize whole : d :: before ++ (k ++ s :: c :: y) = text at lands
    cases lands with
    | here => cases whole
    | kept split _ later =>
      obtain ⟨_,rfl⟩ := List.cons.inj (whole.trans split)
      obtain ⟨read,listed⟩ := ih later
      exact ⟨read,List.mem_cons_of_mem _ listed⟩
    | matched _ _ _ _ => exact ⟨_,List.mem_cons_self⟩

end Shaka.Core
