import Shaka.Core.SensitiveText

namespace Shaka.Core
open Patterns Pattern

-- What the pattern takes for the value of a pair: a quoted text up to the next mark, or, where the text does
-- not begin with a mark or the mark is not closed, whatever comes before the next character that is not bare.

variable {isWord : Char → Bool} {mark c : Char} {prev : Option Char} {u y rest tail : List Char}

theorem takeWhile_stop {accepts : Char → Bool} (inside : ∀ d ∈ u, accepts d = true)
    (stop : accepts c = false) : (u ++ c :: y).takeWhile accepts = u := by
  rw [List.takeWhile_append_of_pos inside,List.takeWhile_cons_of_neg (by simp [stop]),List.append_nil]

theorem marked_inside (none : mark ∉ u) : ∀ d ∈ u, (d != mark) = true :=
  fun _ listed => bne_iff_ne.mpr fun same => none (same ▸ listed)

theorem quoted_closed (none : mark ∉ u) :
    (quoted mark).find prev (mark :: (u ++ mark :: y)) = some (u.length + 2) := by
  have inside := marked_inside none
  have reads : (quoted mark).Reads prev (mark :: (u ++ [mark])) y :=
    ⟨[mark],u ++ [mark],rfl,⟨mark,rfl,beq_self_eq_true mark⟩,u,[mark],rfl,inside,mark,rfl,
      beq_self_eq_true mark⟩
  cases found : (quoted mark).find prev (mark :: (u ++ mark :: y)) with
  | none => exact absurd reads (find_none.mp found _ _ (by simp))
  | some place =>
    obtain ⟨_,_,_,split,⟨_,rfl,_⟩,second,rfl⟩ := find_seq found
    obtain ⟨w,_,_,rfl,all,third,rfl⟩ := find_seq second
    obtain ⟨_,rest,rfl,rfl,d,rfl,same⟩ := find_some third
    obtain rfl := eq_of_beq same
    have run : w = u := by
      rw [← takeWhile_stop (y := rest) all (show (d != d) = false by simp),
        ← takeWhile_stop (y := y) inside (show (d != d) = false by simp),(List.cons.inj split).2]
      rfl
    rw [run]
    simp
    omega

theorem quoted_unclosed (none : mark ∉ rest) : (quoted mark).find prev (mark :: rest) = .none := by
  refine find_none.mpr ?_
  rintro _ rest' split ⟨_,_,rfl,⟨_,rfl,_⟩,w,_,rfl,_,d,rfl,same⟩
  rw [eq_of_beq same] at split
  have later : rest = w ++ [mark] ++ rest' := (List.cons.inj split).2
  exact none (later ▸ by simp)

theorem pairValue_find (prev : Option Char) (text : List Char) : pairValue.find prev text =
    ((quoted '"').find prev text).or (((quoted apostrophe).find prev text).or
      ((atLeastOne isBareChar).find prev text)) := by
  rw [pairValue,choice,choice,choice,find_alt,find_alt]

theorem bare_quotes : isBareChar '"' = true ∧ isBareChar apostrophe = true := by decide

theorem value_quoted (none : '"' ∉ u) :
    pairValue.find prev ('"' :: (u ++ '"' :: y)) = some (u.length + 2) := by
  rw [pairValue_find,quoted_closed none,Option.some_or]

theorem value_single (none : apostrophe ∉ u) :
    pairValue.find prev (apostrophe :: (u ++ apostrophe :: y)) = some (u.length + 2) := by
  rw [pairValue_find,quoted_find (by decide),quoted_closed none,Option.none_or,Option.some_or]

-- No mark, or a single one that is not closed.
def Unmarked (c : Char) (rest : List Char) : Prop := isQuote c = false ∨ c = apostrophe ∧ apostrophe ∉ rest

theorem value_bare (plain : Unmarked c rest) (bare : isBareChar c = true) :
    pairValue.find prev (c :: rest) = some ((c :: rest).takeWhile isBareChar).length := by
  have unquoted :
      (quoted '"').find prev (c :: rest) = none ∧ (quoted apostrophe).find prev (c :: rest) = none := by
    rcases plain with other | ⟨rfl,unclosed⟩
    · constructor
      · exact quoted_find fun same => by rw [same] at other; exact absurd other (by decide)
      · exact quoted_find fun same => by rw [same] at other; exact absurd other (by decide)
    · exact ⟨quoted_find (by decide),quoted_unclosed unclosed⟩
  rw [pairValue_find,unquoted.1,unquoted.2,Option.none_or,Option.none_or]
  cases found : (atLeastOne isBareChar).find prev (c :: rest) with
  | some place => rw [atLeastOne_find found]
  | none =>
    refine absurd (atLeastOne_reads.mpr ⟨List.cons_ne_nil c [],fun d listed =>
      ?_⟩) (find_none.mp found [c] rest rfl)
    rw [List.mem_singleton.mp listed]
    exact bare

theorem bare_visible (bare : isBareChar c = true) : isWhiteSpace c = false := by
  unfold isBareChar at bare
  cases space : isWhiteSpace c with
  | false => rfl
  | true => simp [space] at bare

theorem bearerToken_space {text : List Char} (token : IsBearerToken text) :
    ∃ c ∈ text, isWhiteSpace c = true := by
  obtain ⟨b,w,v,rfl,_,⟨some,spaces⟩,_⟩ := isBearerToken_iff.mp token
  obtain ⟨d,w,rfl⟩ := List.exists_cons_of_ne_nil some
  exact ⟨d,by simp,spaces d List.mem_cons_self⟩

theorem isBearerToken_quotes {text : List Char} (token : IsBearerToken text) :
    ∀ c ∈ text, c ∉ ['"',apostrophe] :=
  reads_avoids (by decide) token

-- A key, a separator and spaces are told apart from what follows them.

def Visible (text : List Char) : Prop := ∀ c ∈ text.head?, isWhiteSpace c = false

theorem keyed_unique {k k' w w' r r' : List Char} {s s' : Char} (key : ∀ c ∈ k, c ∉ keyStops)
    (key' : ∀ c ∈ k', c ∉ keyStops) (separates : isSeparator s = true) (separates' : isSeparator s' = true)
    (spaces : Spaces w) (spaces' : Spaces w') (visible : Visible r) (visible' : Visible r')
    (same : k ++ s :: (w ++ r) = k' ++ s' :: (w' ++ r')) :
    k = k' ∧ s = s' ∧ w = w' ∧ r = r' := by
  have keys := @takeWhile_key k (w ++ r) s key separates
  rw [same,takeWhile_key key' separates'] at keys
  subst keys
  obtain ⟨rfl,rests⟩ := List.cons.inj (List.append_cancel_left same)
  have run : ∀ {w r : List Char}, Spaces w → Visible r → (w ++ r).takeWhile isWhiteSpace = w := by
    intro w r spaces visible
    rw [List.takeWhile_append_of_pos spaces]
    cases r with
    | nil => simp
    | cons c r => rw [List.takeWhile_cons_of_neg (by simp [visible c rfl]),List.append_nil]
  have first := run spaces visible
  rw [rests,run spaces' visible'] at first
  subst first
  exact ⟨rfl,rfl,rfl,List.append_cancel_left rests⟩

theorem isValue_visible {v : List Char} (value : IsValue v) (rest : List Char) : Visible (v ++ rest) := by
  obtain ⟨c,more,rfl,bare⟩ := isValue_bare value
  rintro d ⟨⟩
  exact bare_visible bare

theorem isBearerToken_visible {v : List Char} (token : IsBearerToken v) (rest : List Char) :
    Visible (v ++ rest) := by
  obtain ⟨c,more,rfl,folded⟩ := bearerToken_head token
  rintro d ⟨⟩
  rcases folds_b folded with rfl | rfl
  · decide
  · decide

theorem pairValue_some {text : List Char} {size : Nat} (found : pairValue.find prev text = some size) :
    Visible text := by
  obtain ⟨v,rest,rfl,_,reads⟩ := find_some found
  exact isValue_visible ((reads_free (by decide)).mp reads) rest

-- At a secret's key the pattern takes what it takes for a value after it.
theorem keyed_found {k w r : List Char} {s : Char} {size : Nat} (key : IsKey k)
    (separates : isSeparator s = true) (spaces : Spaces w) (valued : pairValue.find none r = some size)
    (tokenless : ∀ t rest, r = t ++ rest → ¬ IsBearerToken t) :
    (sensitiveTextPattern isWord).find prev (k ++ s :: (w ++ r)) = some (k.length + 1 + w.length + size) := by
  have avoids := isKey_avoids key
  have visible := pairValue_some valued
  have headless : (header isWord).find prev (k ++ s :: (w ++ r)) = none := by
    refine find_none.mpr fun read rest split reads => ?_
    obtain ⟨_,k',s',w',v,rfl,key',separates',spaces',token⟩ := header_reads.mp reads
    obtain ⟨_,_,_,after⟩ := keyed_unique avoids (isHeaderKey_avoids key') separates separates' spaces
      spaces' visible (isBearerToken_visible token rest) (by rw [split]; simp)
    exact tokenless v rest after token
  have bearerless : (bearer isWord).find prev (k ++ s :: (w ++ r)) = none := by
    refine find_none.mpr fun read rest split reads => ?_
    obtain ⟨c,k,rfl⟩ := List.exists_cons_of_ne_nil (isKey_some key)
    obtain ⟨d,more,rfl,folded⟩ := bearerToken_head (bearer_reads.mp reads).2
    obtain rfl := (List.cons.inj split).1
    rcases folds_b folded with rfl | rfl
    · exact avoids _ List.mem_cons_self (by decide)
    · exact avoids _ List.mem_cons_self (by decide)
  rw [pattern_find,headless,bearerless,Option.none_or,Option.none_or]
  cases found : pair.find prev (k ++ s :: (w ++ r)) with
  | none =>
    obtain ⟨v,rest,rfl,_,reads⟩ := find_some valued
    refine absurd (pair_reads.mpr ⟨k,s,w,v,rfl,key,separates,spaces,(reads_free (by decide)).mp reads⟩)
      (find_none.mp found (k ++ s :: (w ++ v)) rest (by simp))
  | some place =>
    obtain ⟨k',s',w',rest,before,more,split,key',separates',spaces',valued',rfl⟩ := pair_find found
    obtain ⟨rfl,rfl,rfl,rfl⟩ := keyed_unique avoids (isKey_avoids key') separates separates' spaces
      spaces' visible (pairValue_some valued') split
    have alone : pairValue.find before r = pairValue.find none r :=
      congrArg List.head? (ends_free (by decide) _ _ _)
    rw [alone,valued] at valued'
    rw [Option.some.inj valued']

-- At a secret's key what the pattern takes is rewritten, and the search goes on behind it.
theorem keyed_replaced {k w v y : List Char} {s : Char} (key : IsKey k) (separates : isSeparator s = true)
    (spaces : Spaces w) (some : v ≠ []) (valued : pairValue.find none (v ++ y) = .some v.length)
    (tokenless : ∀ t rest, v ++ y = t ++ rest → ¬ IsBearerToken t) :
    replaceAll (sensitiveTextPattern isWord) redactMatch prev (k ++ s :: (w ++ (v ++ y))) =
      trimQuotes k ++ "=[REDACTED]".toList ++ replaceAll (sensitiveTextPattern isWord) redactMatch
        (lastOf none v) y := by
  have found := @keyed_found isWord prev _ _ _ _ _ key separates spaces valued tokenless
  have whole : k ++ s :: (w ++ (v ++ y)) = (k ++ s :: (w ++ v)) ++ y := by simp
  have size : k.length + 1 + w.length + v.length = (k ++ s :: (w ++ v)).length := by
    simp
    omega
  have last : lastOf prev (k ++ s :: (w ++ v)) = lastOf none v := by
    rw [show k ++ s :: (w ++ v) = (k ++ s :: w) ++ v by simp,lastOf_append]
    obtain ⟨d,v,rfl⟩ := List.exists_cons_of_ne_nil some
    rw [lastOf_cons,lastOf_cons]
  rw [whole,size] at found
  rw [whole,replaceAll_matched (by simp) found,last,
    redact_keyed (isKey_some key) (isKey_avoids key) separates]

theorem pairValue_finds {rest : List Char} (bare : isBareChar c = true) :
    ∃ v y, c :: rest = v ++ y ∧ v ≠ [] ∧ pairValue.find prev (c :: rest) = some v.length := by
  cases found : pairValue.find prev (c :: rest) with
  | none => exact absurd ((reads_free (by decide)).mpr (isValue_char bare)) (find_none.mp found [c] rest rfl)
  | some size =>
    obtain ⟨v,y,split,rfl,reads⟩ := find_some found
    obtain ⟨d,more,rfl,_⟩ := isValue_bare ((reads_free (by decide)).mp reads)
    exact ⟨_,y,split,List.cons_ne_nil _ _,rfl⟩

-- How a value that has `run` before a double quote takes that quote as well: it begins there, it is closed
-- there, its single quotes are closed later, or it is bare.
inductive ReachesValue (tail : List Char) : List Char → Nat → Prop where
  | opened {size : Nat} : ReachesValue tail [] size
  | closed {u : List Char} : '"' ∉ u → ReachesValue tail ('"' :: u) (u.length + 2)
  | single {u : List Char} {size : Nat} : apostrophe ∉ u → apostrophe ∈ tail →
      ReachesValue tail (apostrophe :: u) size
  | bare {c : Char} {rest : List Char} {size : Nat} : Unmarked c (rest ++ '"' :: tail) →
      (∀ d ∈ c :: rest, isBareChar d = true) → ReachesValue tail (c :: rest) size

theorem run_bare {run : List Char} {size : Nat}
    (found : some ((run ++ '"' :: tail).takeWhile isBareChar).length = some size)
    (far : run.length < size) : ∀ d ∈ run, isBareChar d = true := by
  obtain rfl := Option.some.inj found
  have taken : (run ++ '"' :: tail).takeWhile isBareChar <+: run ++ '"' :: tail := List.takeWhile_prefix _
  obtain ⟨more,same⟩ := List.prefix_of_prefix_length_le ⟨_,rfl⟩ taken (Nat.le_of_lt far)
  exact fun d listed => List.mem_takeWhile_imp (same ▸ List.mem_append_left _ listed)

-- The first mark in a text.
theorem first_mark (listed : mark ∈ rest) : ∃ u y, rest = u ++ mark :: y ∧ mark ∉ u := by
  induction rest with
  | nil => exact absurd listed List.not_mem_nil
  | cons d rest ih =>
    by_cases same : mark = d
    · exact ⟨[],rest,by rw [same]; rfl,List.not_mem_nil⟩
    · obtain ⟨u,y,rfl,outside⟩ := ih ((List.mem_cons.mp listed).resolve_left same)
      exact ⟨d :: u,y,rfl,fun inside => (List.mem_cons.mp inside).elim same outside⟩

-- What has no mark begins with nothing that has one.
theorem outside_prefix (split : rest ++ tail = u ++ y) (near : rest.length ≤ u.length)
    (outside : mark ∉ u) : mark ∉ rest := by
  obtain ⟨more,rfl⟩ := List.prefix_of_prefix_length_le ⟨_,split⟩ ⟨_,rfl⟩ near
  exact fun listed => outside (List.mem_append_left _ listed)

theorem value_reaches {run : List Char} {size : Nat}
    (found : pairValue.find prev (run ++ '"' :: tail) = some size) (far : run.length < size) :
    ReachesValue tail run size := by
  cases run with
  | nil => exact .opened
  | cons c rest =>
    by_cases double : c = '"'
    · subst double
      obtain ⟨u,y,split,outside⟩ := first_mark (show '"' ∈ rest ++ '"' :: tail by simp)
      rw [List.cons_append,split,value_quoted outside] at found
      obtain rfl := Option.some.inj found
      have inside := outside_prefix split (Nat.le_of_lt_succ (by simpa using far)) outside
      have sizes := congrArg List.length (congrArg (List.takeWhile (· != '"')) split)
      rw [takeWhile_stop (marked_inside outside) (by decide),
        takeWhile_stop (marked_inside inside) (by decide)] at sizes
      rw [← sizes]
      exact .closed inside
    · by_cases single : c = apostrophe
      · subst single
        by_cases closes : apostrophe ∈ rest ++ '"' :: tail
        · obtain ⟨u,y,split,outside⟩ := first_mark closes
          rw [List.cons_append,split,value_single outside] at found
          obtain rfl := Option.some.inj found
          have inside := outside_prefix split (Nat.le_of_lt_succ (by simpa using far)) outside
          refine .single inside ?_
          rcases List.mem_append.mp closes with early | late
          · exact absurd early inside
          · exact (List.mem_cons.mp late).resolve_left (by decide)
        · have plain : Unmarked apostrophe (rest ++ '"' :: tail) := .inr ⟨rfl,closes⟩
          rw [List.cons_append,value_bare plain bare_quotes.2] at found
          exact .bare plain (run_bare found far)
      · have plain : Unmarked c (rest ++ '"' :: tail) := .inl (by simp [isQuote,double,single])
        have bare : isBareChar c = true := by
          obtain ⟨v,y,split,_,reads⟩ := find_some found
          obtain ⟨d,more,rfl,bare⟩ := isValue_bare ((reads_free (by decide)).mp reads)
          exact (List.cons.inj split).1 ▸ bare
        rw [List.cons_append,value_bare plain bare] at found
        exact .bare plain (run_bare found far)

-- Of a key's name every character is bare.

def whiteSpaces : List Char :=
  ([9,10,11,12,13,32,0x85,0xA0,0x1680,0x2000,0x2001,0x2002,0x2003,0x2004,0x2005,0x2006,0x2007,0x2008,
    0x2009,0x200A,0x2028,0x2029,0x202F,0x205F,0x3000] : List Nat).map Char.ofNat

theorem isWhiteSpace_listed (space : isWhiteSpace c = true) : c ∈ whiteSpaces := by
  rw [← Char.ofNat_toNat c]
  refine List.mem_map_of_mem ?_
  simp only [isWhiteSpace,Bool.or_eq_true,Bool.and_eq_true,decide_eq_true_eq,beq_iff_eq] at space
  simp only [List.mem_cons,List.not_mem_nil]
  omega

def bareStops : List Char := whiteSpaces ++ [',',';',Char.ofNat 0x7D,']']

theorem bareStops_bare (clear : c ∉ bareStops) : isBareChar c = true := by
  obtain ⟨visible,stops⟩ := not_or.mp fun listed => clear (List.mem_append.mpr listed)
  have space : isWhiteSpace c = false := by
    cases space : isWhiteSpace c with
    | false => rfl
    | true => exact absurd (isWhiteSpace_listed space) visible
  simp only [isBareChar,space,Bool.false_or,Bool.not_eq_true',List.contains_eq_mem,decide_eq_false_iff_not]
  exact stops

theorem isName_bare {name : List Char} (named : IsName name) : ∀ c ∈ name, isBareChar c = true :=
  fun c listed => bareStops_bare (reads_avoids (by decide) named c listed)

-- What stands in JSON text between two strings, and is of no key.
def jsonMarks : List Char := [',',':',Char.ofNat 0x7B]

-- A match that takes the quote behind such a mark is of a pair, and its value takes the quote.
theorem found_reaches {front tail : List Char} {x : Char} {size : Nat} (mark : x ∈ jsonMarks)
    (found : (sensitiveTextPattern isWord).find prev (front ++ x :: '"' :: tail) = some size)
    (far : front.length + 1 < size) :
    ∃ k s w run more, front ++ [x] = k ++ s :: (w ++ run) ∧ IsKey k ∧ isSeparator s = true ∧ Spaces w ∧
      size = k.length + 1 + w.length + more ∧ ReachesValue tail run more := by
  have quoted : ∀ {read rest : List Char}, front ++ x :: '"' :: tail = read ++ rest → read.length = size →
      '"' ∈ read := by
    rintro read rest split rfl
    have front_ : front ++ x :: '"' :: tail = (front ++ [x,'"']) ++ tail := by simp
    obtain ⟨more,rfl⟩ := List.prefix_of_prefix_length_le ⟨tail,front_.symm⟩ ⟨rest,split.symm⟩ (by simp; omega)
    simp
  rcases found_cases found with header | bearer | pair
  · obtain ⟨read,rest,split,size,reads⟩ := find_some header
    obtain ⟨_,k,s,w,v,rfl,key,separates,spaces,token⟩ := header_reads.mp reads
    have listed := quoted split size
    simp only [List.mem_append,List.mem_cons] at listed
    rcases listed with inKey | same | inSpaces | inToken
    · exact absurd (isHeaderKey_quote key '"' inKey) (by decide)
    · rw [← same] at separates
      exact absurd separates (by decide)
    · exact absurd (spaces '"' inSpaces) (by decide)
    · exact absurd (List.mem_cons_self) (isBearerToken_quotes token '"' inToken)
  · obtain ⟨read,rest,split,size,reads⟩ := find_some bearer
    exact absurd (List.mem_cons_self) (isBearerToken_quotes (bearer_reads.mp reads).2 '"' (quoted split size))
  · obtain ⟨k,s,w,rest,before,more,split,key,separates,spaces,valued,rfl⟩ := pair_find pair
    have unkeyed : x ∉ k := fun listed =>
        reads_avoids (show pairKey.avoids jsonMarks = true by decide) key x listed mark
    have whole : (front ++ [x]) ++ '"' :: tail = k ++ s :: (w ++ rest) := by rw [← split]; simp
    -- the key and its separator end with the mark at the latest, and the spaces before the quote
    rcases List.append_eq_append_iff.mp whole with ⟨beyond,same,_⟩ | ⟨after,same,later⟩
    · exact absurd (same ▸ by simp) unkeyed
    cases after with
    | nil =>
      rw [List.append_nil] at same
      exact absurd (same ▸ by simp) unkeyed
    | cons d after =>
      obtain ⟨rfl,spaced⟩ := List.cons.inj later
      rcases List.append_eq_append_iff.mp spaced with ⟨run,rfl,behind⟩ | ⟨beyond,rfl,behind⟩
      · rw [behind] at valued
        refine ⟨k,s,w,run,more,same,key,separates,spaces,rfl,value_reaches valued ?_⟩
        have sizes := congrArg List.length same
        simp at sizes
        omega
      · cases beyond with
        | nil =>
          rw [List.nil_append] at behind
          rw [← behind] at valued
          refine ⟨k,s,after,[],more,by rw [same]; simp,key,separates,fun c listed =>
            spaces c (by simp [listed]),by simp,.opened⟩
        | cons d beyond =>
          obtain ⟨rfl,_⟩ := List.cons.inj behind
          exact absurd (spaces '"' (by simp)) (by decide)

end Shaka.Core
