import Shaka.Core.SensitiveText

namespace Shaka.Properties
open Shaka.Core Patterns Pattern

variable {isWord : Char → Bool}

abbrev redacted (isWord : Char → Bool) (prev : Option Char) (text : List Char) : List Char :=
  replaceAll (sensitiveTextPattern isWord) redactMatch prev text

theorem bearerMark_chars :
    "Bearer [REDACTED]".toList = "Bearer".toList ++ ' ' :: '[' :: "REDACTED]".toList := by decide

theorem keyMark_chars : "=[REDACTED]".toList = '=' :: '[' :: "REDACTED".toList ++ [']'] := by decide

-- Where a character that no key has comes before the first separator, no key is read.
theorem key_stopped {k u t y : List Char} {s : Char} (avoids : ∀ c ∈ k, c ∉ keyStops)
    (separates : isSeparator s = true) (quiet : ∀ c ∈ u, isSeparator c = false) {stop : Char}
    (among : stop ∈ u) (stops : stop ∈ keyStops) :
    u ++ y ≠ k ++ s :: t := by
  intro same
  have whole := @takeWhile_key k t s avoids separates
  rw [←same,List.takeWhile_append_of_pos fun c listed => by simp [quiet c listed]] at whole
  exact avoids stop (whole ▸ List.mem_append_left _ among) stops

-- There a bearer token is all that can be read.
theorem stopped_reads {prev : Option Char} {u y read rest : List Char}
    (quiet : ∀ c ∈ u, isSeparator c = false) {stop : Char} (among : stop ∈ u) (stops : stop ∈ keyStops)
    (split : u ++ y = read ++ rest) (reads : (sensitiveTextPattern isWord).Reads prev read rest) :
    IsBearerToken read := by
  cases pattern_kind reads with
  | header shape key separates =>
    rw [shape,List.append_assoc,List.cons_append] at split
    exact absurd split (key_stopped (isHeaderKey_avoids key) separates quiet among stops)
  | bearer token => exact token
  | pair shape key separates =>
    rw [shape,List.append_assoc,List.cons_append] at split
    exact absurd split (key_stopped (isKey_avoids key) separates quiet among stops)

-- The placeholder of a token is none itself.
theorem bearerMark_token {read rest y : List Char}
    (split : "Bearer [REDACTED]".toList ++ y = read ++ rest) : ¬ IsBearerToken read := by
  intro token
  obtain ⟨b,w,v,rfl,letters,⟨some,spaces⟩,some',tokens⟩ := isBearerToken_iff.mp token
  have six : b.length = "Bearer".toList.length := letters.length_eq.symm
  rw [bearerMark_chars,List.append_assoc,List.append_assoc] at split
  obtain ⟨_,later⟩ := List.append_inj split six.symm
  obtain ⟨c,w,rfl⟩ := List.exists_cons_of_ne_nil some
  obtain ⟨d,v,rfl⟩ := List.exists_cons_of_ne_nil some'
  cases w with
  | nil =>
    obtain ⟨_,second⟩ := List.cons.inj later
    have bracket : d = '[' := (List.cons.inj second).1.symm
    have kept := tokens d List.mem_cons_self
    rw [bracket] at kept
    exact absurd kept (by decide)
  | cons e w =>
    obtain ⟨_,second⟩ := List.cons.inj later
    have bracket : e = '[' := (List.cons.inj second).1.symm
    have kept := spaces e (List.mem_cons_of_mem _ List.mem_cons_self)
    rw [bracket] at kept
    exact absurd kept (by decide)

-- A search keeps all of a text that begins no token and ends before a key could.
theorem quiet_lands {u : List Char} (quiet : ∀ c ∈ u ++ [']'], isSeparator c = false ∧ folds 'b' c = false)
    (prev : Option Char) (y : List Char) :
    Lands (sensitiveTextPattern isWord) prev (u ++ [']']) y ((u ++ [']']).map .kept) := by
  have missed : ∀ {prev : Option Char} {u : List Char}, (∀ c ∈ u ++ [']'], isSeparator c = false ∧
      folds 'b' c = false) →
      ∀ more, (sensitiveTextPattern isWord).find prev ((u ++ [']']) ++ y) ≠ some (more + 1) := by
    intro prev u quiet
    refine pattern_missed.mpr fun read rest split reads => ?_
    have token := stopped_reads (fun c listed =>
        (quiet c listed).1) (List.mem_append_right u List.mem_cons_self) (by decide) split reads
    obtain ⟨c,more,rfl,folded⟩ := bearerToken_head token
    have head : c ∈ u ++ [']'] := by
      cases u with
      | nil => exact (List.cons.inj split).1 ▸ List.mem_cons_self
      | cons d u => exact (List.cons.inj split).1 ▸ List.mem_cons_self
    rw [(quiet c head).2] at folded
    cases folded
  induction u generalizing prev with
  | nil => exact .kept rfl (missed quiet) .here
  | cons c u ih =>
    exact .kept rfl (missed quiet) (ih (fun d listed => quiet d (List.mem_cons_of_mem _ listed)) _)

theorem bearerMark_lands (prev : Option Char) (y : List Char) :
    Lands (sensitiveTextPattern isWord) prev "Bearer [REDACTED]".toList y
      ("Bearer [REDACTED]".toList.map .kept) := by
  rw [show "Bearer [REDACTED]".toList = 'B' :: ("earer [REDACTED".toList ++ [']']) by decide,List.map_cons]
  refine .kept rfl ?_ (quiet_lands (List.all_iff_forall_prop.mp (by decide)) _ y)
  refine pattern_missed.mpr fun read rest split reads => ?_
  rw [show 'B' :: ("earer [REDACTED".toList ++ [']']) = "Bearer [REDACTED]".toList by decide] at split
  have quiet : ∀ c ∈ "Bearer [REDACTED]".toList, isSeparator c = false :=
    List.all_iff_forall_prop.mp (by decide)
  have among : ']' ∈ "Bearer [REDACTED]".toList := by decide
  exact bearerMark_token split (stopped_reads quiet among (by decide) split reads)

theorem kept_render (text : List Char) : (text.map Piece.kept).flatMap (Piece.render redactMatch) = text := by
  induction text with
  | nil => rfl
  | cons c text ih => rw [List.map_cons,List.flatMap_cons,ih]; rfl

-- No text follows a bracket that its own redaction repeats: the brackets would not end.
theorem bracket_endless (prev : Option Char) (text : List Char) :
    text ≠ ']' :: redacted isWord prev text := by
  induction text generalizing prev with
  | nil =>
    intro same
    cases same
  | cons c rest ih =>
    intro same
    obtain ⟨rfl,later⟩ := List.cons.inj same
    have lands := @quiet_lands isWord [] (List.all_iff_forall_prop.mp (by decide)) prev rest
    have next : redacted isWord prev (']' :: rest) = ']' :: redacted isWord (some ']') rest := lands.replaced
    rw [next] at later
    exact ih _ later

theorem trimQuotes_avoids {k : List Char} (avoids : ∀ c ∈ k, c ∉ keyStops) :
    ∀ c ∈ trimQuotes k, c ∉ keyStops := by
  intro c listed
  have inner := List.mem_reverse.mp ((List.dropWhile_sublist _).subset (List.mem_reverse.mp listed))
  exact avoids c ((List.dropWhile_sublist _).subset inner)

-- A keyed match that is its own replacement would have its value end before the bracket.
theorem keyed_fixed {k w v rest tail : List Char} {s : Char} (some : k ≠ []) (avoids : ∀ c ∈ k, c ∉ keyStops)
    (separates : isSeparator s = true) (spaces : Spaces w)
    (same : redactMatch (k ++ s :: (w ++ v)) ++ tail = k ++ s :: (w ++ v) ++ rest) :
    v ++ rest = '[' :: ("REDACTED".toList ++ ']' :: tail) := by
  rw [redact_keyed some avoids separates,keyMark_chars] at same
  have shape :
      trimQuotes k ++ '=' :: ('[' :: "REDACTED".toList ++ ']' :: tail) = k ++ s :: (w ++ (v ++ rest)) := by
    simpa using same
  have keys := @takeWhile_key (trimQuotes k) ('[' :: "REDACTED".toList ++ ']' :: tail) '='
      (trimQuotes_avoids avoids) (by decide)
  rw [shape,takeWhile_key avoids separates] at keys
  rw [←keys] at shape
  have after := (List.cons.inj (List.append_cancel_left shape)).2
  cases w with
  | nil => exact after.symm
  | cons c w =>
    have bracket : c = '[' := (List.cons.inj after).1.symm
    have space := spaces c List.mem_cons_self
    rw [bracket] at space
    exact absurd space (by decide)

theorem fixed_kept {prev : Option Char} {text : List Char} {found : List Piece}
    (lands : Lands (sensitiveTextPattern isWord) prev text [] found)
    (same : found.flatMap (Piece.render redactMatch) = text) :
    ∀ read, .matched read ∉ found := by
  generalize ending : ([] : List Char) = rest at lands
  induction lands with
  | here => exact fun read listed => absurd listed List.not_mem_nil
  | kept split _ _ ih =>
    rw [split] at same
    have later := (List.cons.inj same).2
    intro read listed
    exact ih later ending read (by simpa using listed)
  | @matched prev read text after _ found split some hit lands ih =>
    subst ending
    exfalso
    have tail : found.flatMap (Piece.render redactMatch) = redacted isWord (lastOf prev read) after := by
      have replaced := @Lands.replaced _ redactMatch _ _ _ _ lands
      rw [List.append_nil] at replaced
      rw [redacted,replaced]
      exact (List.append_nil _).symm
    rw [List.flatMap_cons,tail,split] at same
    rw [List.append_nil,split] at hit
    change redactMatch read ++ redacted isWord (lastOf prev read) after = read ++ after at same
    rcases found_cases hit with headed | borne | paired
    · obtain ⟨read',rest,whole,size,reads⟩ := find_some headed
      obtain ⟨rfl,rfl⟩ := List.append_inj whole size.symm
      obtain ⟨_,k,s,w,v,rfl,key,separates,spaces,token⟩ := header_reads.mp reads
      have value := keyed_fixed (isHeaderKey_some key) (isHeaderKey_avoids key) separates spaces same
      obtain ⟨c,more,rfl,folded⟩ := bearerToken_head token
      rw [(List.cons.inj value).1] at folded
      exact absurd folded (by decide)
    · obtain ⟨read',rest,whole,size,reads⟩ := find_some borne
      obtain ⟨rfl,rfl⟩ := List.append_inj whole size.symm
      have token := (bearer_reads.mp reads).2
      rw [redact_bearer token] at same
      exact bearerMark_token same token
    · obtain ⟨k,s,w,rest,before,more,whole,key,separates,spaces,valued,size⟩ := pair_find paired
      obtain ⟨v,after',rfl,long,_⟩ := find_some valued
      have both : read ++ after = (k ++ s :: (w ++ v)) ++ after' := by
        rw [whole]
        simp
      obtain ⟨rfl,rfl⟩ := List.append_inj both (by
        rw [size,←long]
        simp
        omega)
      have value := keyed_fixed (isKey_some key) (isKey_avoids key) separates spaces same
      rw [value] at valued
      have run : ∀ tail, ('[' :: ("REDACTED".toList ++ ']' :: tail)).takeWhile isBareChar = '[' ::
          "REDACTED".toList := by
        intro tail
        rw [←List.cons_append,List.takeWhile_append_of_pos (List.all_iff_forall_prop.mp (by decide)),
          List.takeWhile_cons_of_neg (by decide),
          List.append_nil]
      have best := pairValue_bare (by decide) valued
      rw [run] at best
      obtain ⟨_,bracket⟩ := @List.append_inj _ v ('[' :: "REDACTED".toList) _ _ value (long.trans best)
      exact bracket_endless _ _ bracket

-- A header or a pair leaves a key behind that the next search finds.
theorem keyed_again {text : List Char} {read : List Char}
    (listed : .matched read ∈ pieces (sensitiveTextPattern isWord) none text)
    (keyed : isBearer read = false) :
    ∃ before k y, redacted isWord none text = before ++ (k ++ '=' :: '[' :: y) ∧ IsKey k := by
  obtain ⟨first,last,split⟩ := List.append_of_mem listed
  have shown : redacted isWord none text = first.flatMap (Piece.render redactMatch) ++
      (redactMatch read ++ last.flatMap (Piece.render redactMatch)) := by
    rw [redacted,replaceAll,split,List.flatMap_append,List.flatMap_cons]
    rfl
  rw [shown]
  cases lands_kinds (lands_end _ none text) listed with
  | header shape key separates =>
    rw [shape,redact_keyed (isHeaderKey_some key) (isHeaderKey_avoids key) separates,keyMark_chars]
    obtain ⟨front,back,trimmed,key'⟩ := trimQuotes_headerKey key
    rw [trimmed]
    exact ⟨first.flatMap (Piece.render redactMatch) ++ front,back,
      "REDACTED".toList ++ ']' :: last.flatMap (Piece.render redactMatch),by simp,key'⟩
  | bearer token =>
    rw [isBearerToken_bearer token] at keyed
    cases keyed
  | pair shape key separates =>
    rw [shape,redact_keyed (isKey_some key) (isKey_avoids key) separates,keyMark_chars]
    exact ⟨first.flatMap (Piece.render redactMatch),_,
      "REDACTED".toList ++ ']' :: last.flatMap (Piece.render redactMatch),
      by simp,trimQuotes_key key⟩

theorem redacted_keyed {text : List Char}
    (same : redacted isWord none (redacted isWord none text) = redacted isWord none text) {read : List Char}
    (listed : .matched read ∈ pieces (sensitiveTextPattern isWord) none text) :
    isBearer read = true := by
  by_contra keyed
  obtain ⟨before,k,y,shown,key⟩ := keyed_again listed (Bool.not_eq_true _ ▸ keyed)
  have lands := lands_end (sensitiveTextPattern isWord) none (redacted isWord none text)
  have kept := fixed_kept lands same
  rw [shown] at lands kept
  obtain ⟨read',hit⟩ := key_found lands key (by decide) (by decide)
  exact kept read' hit

-- The second text is the first with placeholders where bearer tokens stood.
inductive Smoothed : List Char → List Char → Prop where
  | nil : Smoothed [] []
  | kept {text smooth : List Char} (c : Char) : Smoothed text smooth → Smoothed (c :: text) (c :: smooth)
  | token {text smooth more : List Char} {c : Char} : folds 'b' c = true → Smoothed text smooth →
      Smoothed (c :: (more ++ text)) ("Bearer [REDACTED]".toList ++ smooth)

theorem bearerMark_cons : "Bearer [REDACTED]".toList = 'B' :: "earer [REDACTED]".toList := by decide

-- What has no capital b is not of a placeholder.
theorem smoothed_split {text u y : List Char} (smoothed : Smoothed text (u ++ y)) (plain : ∀ c ∈ u, c ≠ 'B') :
    ∃ rest, text = u ++ rest ∧ Smoothed rest y := by
  induction u generalizing text with
  | nil => exact ⟨text,rfl,smoothed⟩
  | cons c u ih =>
    generalize whole : c :: u ++ y = smooth at smoothed
    cases smoothed with
    | nil => cases whole
    | kept d later =>
      obtain ⟨rfl,same⟩ := List.cons.inj whole
      subst same
      obtain ⟨rest,rfl,smoothed⟩ := ih later fun d listed => plain d (List.mem_cons_of_mem _ listed)
      exact ⟨rest,rfl,smoothed⟩
    | token _ _ =>
      rw [bearerMark_cons] at whole
      exact absurd (List.cons.inj whole).1 (plain c List.mem_cons_self)

-- A character of a class that has both cases of the letter stands for one in the smoothed text.
theorem smoothed_head {text y : List Char} {c : Char} {accepts : Char → Bool} (small : accepts 'b' = true)
    (capital : accepts 'B' = true) (smoothed : Smoothed text (c :: y)) (accepted : accepts c = true) :
    ∃ d rest, text = d :: rest ∧ accepts d = true := by
  generalize whole : c :: y = smooth at smoothed
  cases smoothed with
  | nil => cases whole
  | kept d later =>
    obtain ⟨rfl,_⟩ := List.cons.inj whole
    exact ⟨c,_,rfl,accepted⟩
  | token folded _ =>
    rcases folds_b folded with rfl | rfl
    · exact ⟨_,_,rfl,small⟩
    · exact ⟨_,_,rfl,capital⟩

theorem letters_plain {letters text : List Char}
    (reads : List.Forall₂ (fun letter c => folds letter c = true) letters text)
    (none : ∀ letter ∈ letters, folds letter 'B' = false) : ∀ c ∈ text, c ≠ 'B' := by
  induction reads with
  | nil => exact fun c listed => absurd listed List.not_mem_nil
  | @cons letter c letters text first _ ih =>
    refine List.forall_mem_cons.mpr ⟨?_,ih fun other listed => none other (List.mem_cons_of_mem _ listed)⟩
    rintro rfl
    rw [none letter List.mem_cons_self] at first
    cases first

theorem space_plain {c : Char} (space : isWhiteSpace c = true) : c ≠ 'B' := by
  rintro rfl
  exact absurd space (by decide)

-- A token of the smoothed text stands for one, since a placeholder is none.
theorem smoothed_token {text t rest : List Char} (smoothed : Smoothed text (t ++ rest))
    (token : IsBearerToken t) : ∃ t' rest', text = t' ++ rest' ∧ IsBearerToken t' ∧ t'.head? = t.head? := by
  generalize whole : t ++ rest = smooth at smoothed
  obtain ⟨b,w,v,rfl,letters,⟨some,spaces⟩,some',tokens⟩ := isBearerToken_iff.mp token
  rw [bearer_letters] at letters
  obtain ⟨c,b,first,later,rfl⟩ := List.forall₂_cons_left_iff.mp letters
  cases smoothed with
  | nil => cases whole
  | token _ _ => exact absurd token (bearerMark_token whole.symm)
  | @kept text' smooth' d inner =>
    obtain ⟨rfl,same⟩ := List.cons.inj whole
    have joined : smooth' = (b ++ w) ++ (v ++ rest) := by
      rw [←same]
      simp
    rw [joined] at inner
    have plain : ∀ c ∈ b ++ w, c ≠ 'B' := List.forall_mem_append.mpr
      ⟨letters_plain later (List.all_iff_forall_prop.mp (by decide)),fun c listed =>
        space_plain (spaces c listed)⟩
    obtain ⟨x,rfl,deeper⟩ := smoothed_split inner plain
    obtain ⟨e,v,rfl⟩ := List.exists_cons_of_ne_nil some'
    obtain ⟨d,rest',rfl,tokened⟩ := smoothed_head (by decide) (by decide) deeper (tokens e List.mem_cons_self)
    refine ⟨(c :: b) ++ (w ++ [d]),rest',by simp,isBearerToken_iff.mpr ⟨c :: b,w,[d],rfl,?_,
      ⟨some,spaces⟩,by simp,?_⟩,rfl⟩
    · rw [bearer_letters]
      exact .cons first later
    · exact fun f listed => List.mem_singleton.mp listed ▸ tokened

theorem key_plain {k w : List Char} {s : Char} (avoids : ∀ c ∈ k, c ∉ keyStops)
    (separates : isSeparator s = true) (spaces : Spaces w) : ∀ c ∈ k ++ s :: w, c ≠ 'B' := by
  refine List.forall_mem_append.mpr ⟨?_,List.forall_mem_cons.mpr ⟨?_,fun c listed =>
    space_plain (spaces c listed)⟩⟩
  · rintro c listed rfl
    exact avoids 'B' listed (by decide)
  · rintro rfl
    exact absurd separates (by decide)

-- The places in the two texts are alike for a search: the same character stands before them, or no
-- token can begin there.
def SameStart (prev prev' : Option Char) (text : List Char) : Prop :=
  prev = prev' ∨ ∀ c ∈ text.head?, isTokenChar c = false

theorem alike_boundary {prev prev' : Option Char} {text : List Char} {c : Char}
    (alike : SameStart prev prev' text) (head : text.head? = some c) (token : isTokenChar c = true) :
    prev = prev' := by
  rcases alike with same | plain
  · exact same
  · have never := plain c head
    rw [token] at never
    cases never

theorem headerKey_head {k : List Char} (key : IsHeaderKey k) :
    ∃ c more, k = c :: more ∧ isTokenChar c = true := by
  have token : ∀ {letter c : Char}, folds letter c = true → isTokenChar letter = true →
      isTokenChar letter.toUpper = true → letter ≠ 's' → letter ≠ 'k' → isTokenChar c = true := by
    intro letter c reads small capital notS notK
    rcases folds_cases reads with rfl | rfl | differs | differs
    · exact small
    · exact capital
    · exact absurd differs notS
    · exact absurd differs notK
  obtain ⟨name,w,rfl,named,_⟩ := key
  rcases named with plain | proxy
  · have letters := word_reads.mp plain
    rw [show "authorization".toList = 'a' :: "uthorization".toList by decide] at letters
    obtain ⟨c,more,first,_,rfl⟩ := List.forall₂_cons_left_iff.mp letters
    exact ⟨c,more ++ w,rfl,token first (by decide) (by decide) (by decide) (by decide)⟩
  · have letters := word_reads.mp proxy
    rw [show "proxy-authorization".toList = 'p' :: "roxy-authorization".toList by decide] at letters
    obtain ⟨c,more,first,_,rfl⟩ := List.forall₂_cons_left_iff.mp letters
    exact ⟨c,more ++ w,rfl,token first (by decide) (by decide) (by decide) (by decide)⟩

-- What is read of the smoothed text is read of the text that it stands for.
theorem smoothed_reads {prev prev' : Option Char} {text read rest : List Char}
    (smoothed : Smoothed text (read ++ rest)) (alike : SameStart prev prev' text)
    (reads : (sensitiveTextPattern isWord).Reads prev' read rest) :
    ∃ read' rest', text = read' ++ rest' ∧ (sensitiveTextPattern isWord).Reads prev read' rest' := by
  rcases reads with headed | borne | paired
  · obtain ⟨apart,k,s,w,v,rfl,key,separates,spaces,token⟩ := header_reads.mp headed
    rw [show k ++ s :: (w ++ v) ++ rest = (k ++ s :: w) ++ (v ++ rest) by simp] at smoothed
    obtain ⟨x,rfl,inner⟩ := smoothed_split smoothed (key_plain (isHeaderKey_avoids key) separates spaces)
    obtain ⟨v',rest',rfl,token',_⟩ := smoothed_token inner token
    obtain ⟨c,more,rfl,tokened⟩ := headerKey_head key
    refine ⟨c :: more ++ s :: (w ++ v'),rest',by simp,
      .inl (header_reads.mpr ⟨?_,_,s,w,v',rfl,key,separates,spaces,token'⟩)⟩
    rw [alike_boundary alike rfl tokened]
    exact apart
  · obtain ⟨apart,token⟩ := bearer_reads.mp borne
    obtain ⟨t',rest',rfl,token',head⟩ := smoothed_token smoothed token
    obtain ⟨c,more,rfl,folded⟩ := bearerToken_head token'
    have tokened : isTokenChar c = true := by
      rcases folds_b folded with rfl | rfl
      · decide
      · decide
    refine ⟨c :: more,rest',rfl,.inr (.inl (bearer_reads.mpr ⟨?_,token'⟩))⟩
    obtain ⟨d,others,rfl⟩ := List.exists_cons_of_ne_nil (isBearerToken_some token)
    cases head
    rw [alike_boundary alike rfl tokened]
    exact apart
  · obtain ⟨k,s,w,v,rfl,key,separates,spaces,value⟩ := pair_reads.mp paired
    rw [show k ++ s :: (w ++ v) ++ rest = (k ++ s :: w) ++ (v ++ rest) by simp] at smoothed
    obtain ⟨x,rfl,inner⟩ := smoothed_split smoothed (key_plain (isKey_avoids key) separates spaces)
    obtain ⟨c,v,rfl,bare⟩ := isValue_bare value
    obtain ⟨d,rest',rfl,bared⟩ := smoothed_head (by decide) (by decide) inner bare
    exact ⟨k ++ s :: (w ++ [d]),rest',by simp,
      .inr (.inr (pair_reads.mpr ⟨k,s,w,[d],rfl,key,separates,spaces,isValue_char bared⟩))⟩

-- A bare token is read to its end.
theorem bearer_whole {prev : Option Char} {read after : List Char}
    (found : (bearer isWord).find prev (read ++ after) = some read.length) :
    ∀ c ∈ after.head?, isTokenChar c = false := by
  obtain ⟨_,_,_,split,⟨rfl,_⟩,first,size⟩ := find_seq found
  obtain ⟨b,_,_,split',_,second,size'⟩ := find_seq first
  obtain ⟨w,rest,more,split'',_,last,size''⟩ := find_seq second
  have best := atLeastOne_find last
  have whole : read ++ after = (b ++ (w ++ rest.takeWhile isTokenChar)) ++ rest.dropWhile isTokenChar := by
    rw [split,split',split'']
    simp
  obtain ⟨_,rfl⟩ := List.append_inj whole (by simp [size,size',size'',best])
  intro c head
  have stop := List.head?_dropWhile_not isTokenChar rest
  rw [head] at stop
  simpa using stop

theorem kind_bearer {read : List Char} (kind : Kind read) (bare : isBearer read = true) :
    IsBearerToken read := by
  cases kind with
  | header shape key _ =>
    rw [shape,keyed_bearer (isHeaderKey_some key) (isHeaderKey_avoids key)] at bare
    cases bare
  | bearer token => exact token
  | pair shape key _ =>
    rw [shape,keyed_bearer (isKey_some key) (isKey_avoids key)] at bare
    cases bare

theorem found_whole {prev : Option Char} {read after : List Char} (bare : isBearer read = true)
    (hit : (sensitiveTextPattern isWord).find prev (read ++ after) = some read.length) :
    ∀ c ∈ after.head?, isTokenChar c = false := by
  have keyless : ∀ {p : Pattern}, p.find prev (read ++ after) = some read.length →
      (∀ {prev : Option Char} {text rest : List Char}, p.Reads prev text rest → ∃ k s w v,
        text = k ++ s :: (w ++ v) ∧ k ≠ [] ∧ ∀ c ∈ k, c ∉ keyStops) → False := by
    intro p found keyed
    obtain ⟨read',rest,whole,size,reads⟩ := find_some found
    obtain ⟨rfl,rfl⟩ := List.append_inj whole size.symm
    obtain ⟨k,s,w,v,rfl,some,avoids⟩ := keyed reads
    rw [keyed_bearer some avoids] at bare
    cases bare
  rcases found_cases hit with headed | borne | paired
  · refine (keyless headed fun reads => ?_).elim
    obtain ⟨_,k,s,w,v,shape,key,_⟩ := header_reads.mp reads
    exact ⟨k,s,w,v,shape,isHeaderKey_some key,isHeaderKey_avoids key⟩
  · exact bearer_whole borne
  · refine (keyless paired fun reads => ?_).elim
    obtain ⟨k,s,w,v,shape,key,_⟩ := pair_reads.mp reads
    exact ⟨k,s,w,v,shape,isKey_some key,isKey_avoids key⟩

-- Where bare tokens are all that is found, a second search finds nothing. The induction is on the
-- first search, and the text that it leaves is read as the text that it found.
theorem smooth_again {prev prev' : Option Char} {text : List Char} {found : List Piece}
    (lands : Lands (sensitiveTextPattern isWord) prev text [] found)
    (bare : ∀ read, .matched read ∈ found → isBearer read = true) (alike : SameStart prev prev' text) :
    Smoothed text (found.flatMap (Piece.render redactMatch)) ∧
      redacted isWord prev' (found.flatMap (Piece.render redactMatch)) =
        found.flatMap (Piece.render redactMatch) := by
  generalize ending : ([] : List Char) = rest at lands
  induction lands generalizing prev' with
  | here => exact ⟨.nil,rfl⟩
  | @kept prev c text after _ found split missed lands ih =>
    subst ending split
    obtain ⟨smoothed,again⟩ := ih (fun read listed => bare read (List.mem_cons_of_mem _ listed))
        (.inl rfl) rfl
    have whole : Smoothed (c :: after) (c :: found.flatMap (Piece.render redactMatch)) := .kept c smoothed
    refine ⟨whole,?_⟩
    change redacted isWord prev' (c :: found.flatMap (Piece.render redactMatch)) = c ::
      found.flatMap (Piece.render redactMatch)
    have missed' :
        ∀ more, (sensitiveTextPattern isWord).find prev' (c :: found.flatMap (Piece.render redactMatch)) ≠
        .some (more + 1) := by
      refine pattern_missed.mpr fun read rest shape reads => ?_
      rw [shape] at whole
      obtain ⟨read',rest',shape',reads'⟩ := smoothed_reads whole alike reads
      rw [List.append_nil] at missed
      exact pattern_missed.mp missed read' rest' shape' reads'
    rw [redacted,replaceAll_kept missed']
    exact congrArg (c :: ·) again
  | @matched prev read text after _ found split some hit lands ih =>
    subst ending split
    have borne := bare read List.mem_cons_self
    rw [List.append_nil] at hit
    have token :=
      kind_bearer (lands_kinds (.matched rfl some (by rwa [List.append_nil]) lands) List.mem_cons_self) borne
    obtain ⟨smoothed,again⟩ := @ih (.some ']') (fun read listed => bare read (List.mem_cons_of_mem _ listed))
      (.inr (found_whole borne hit)) rfl
    have shown : (Piece.matched read :: found).flatMap (Piece.render redactMatch) =
        "Bearer [REDACTED]".toList ++ found.flatMap (Piece.render redactMatch) := by
      rw [List.flatMap_cons,Piece.render,redact_bearer token]
    rw [shown]
    obtain ⟨c,more,rfl,folded⟩ := bearerToken_head token
    refine ⟨.token folded smoothed,?_⟩
    have replaced :=
      @Lands.replaced _ redactMatch _ _ _ _ (@bearerMark_lands isWord prev'
        (found.flatMap (Piece.render redactMatch)))
    rw [kept_render] at replaced
    rw [redacted,replaced]
    exact congrArg ("Bearer [REDACTED]".toList ++ ·) again

-- Redaction is repeated by a second one exactly on texts in which it finds bare bearer tokens only.
theorem redactSensitive_idempotent (isWord : Char → Bool) (text : String) :
    redactSensitive isWord (redactSensitive isWord text) = redactSensitive isWord text ↔
      ∀ read, .matched read ∈ pieces (sensitiveTextPattern isWord) none text.toList →
      isBearer read = true := by
  have chars : redactSensitive isWord (redactSensitive isWord text) = redactSensitive isWord text ↔
      redacted isWord none (redacted isWord none text.toList) = redacted isWord none text.toList := by
    unfold redactSensitive
    rw [String.toList_ofList]
    exact String.ofList_inj
  rw [chars]
  constructor
  · exact fun same read listed => redacted_keyed same listed
  · exact fun bare => (smooth_again (lands_end _ none text.toList) bare (.inl rfl)).2

theorem redactSensitive_twice_token : ¬ ∀ text : String,
    redactSensitive isAsciiWord (redactSensitive isAsciiWord text) = redactSensitive isAsciiWord text := by
  intro always
  exact absurd (always "token=abc") (by decide)

end Shaka.Properties
