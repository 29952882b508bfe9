import Shaka.Core.PairValues
import Shaka.Library.JsonText

namespace Shaka.Properties
open Shaka.Core Patterns Pattern JsonValue

variable {isWord : Char → Bool} {place : OpenValue} {text other : String} {tail run v y : List Char}

-- The text of a document up to the opening quote of its open string, and what follows that quote.

def ahead (place : OpenValue) : List Char := place.lead ++ (quotedText place.key ++ [':'])

def behindQuote (place : OpenValue) (text : String) : List Char := escaped text ++ '"' :: place.back

theorem document_chars (place : OpenValue) (text : String) :
    jsonChars (place.fill text) = ahead place ++ '"' :: behindQuote place text := by
  rw [fill_chars]
  simp [ahead,behindQuote,quotedText]

-- What takes the open string: the quoted value of its own key, or the bare or single quoted value of a
-- key before it, which runs into it.
inductive Grip where
  | own
  | bare
  | single
  deriving DecidableEq, Repr

-- The characters that end it.
def Grip.ends : Grip → Char → Bool
  | own,c => c == '"'
  | bare,c => !isBareChar c
  | single,c => c == apostrophe

-- `run` is what the value has before the opening quote, and `tail` is what follows that.
inductive Gripped (tail : List Char) : List Char → Grip → Prop where
  | own : Gripped tail [] .own
  | bare {c : Char} {rest : List Char} : Unmarked c (rest ++ '"' :: tail) →
      (∀ d ∈ c :: rest, isBareChar d = true) → Gripped tail (c :: rest) .bare
  | single {rest : List Char} : apostrophe ∉ rest → apostrophe ∈ tail →
      Gripped tail (apostrophe :: rest) .single

-- The place where the search meets the pair that takes the open string.
structure Hold where
  before : List Char
  found : List Piece
  key : List Char
  separator : Char
  spaces : List Char
  run : List Char
  grip : Grip

def Hold.pairText (hold : Hold) : List Char := hold.key ++ hold.separator :: (hold.spaces ++ hold.run)

-- What is shown up to the mark that stands for the string.
def Hold.shown (hold : Hold) : List Char :=
  hold.found.flatMap (Piece.render redactMatch) ++ (trimQuotes hold.key ++ "=[REDACTED]".toList)

structure Meets (isWord : Char → Bool) (place : OpenValue) (tail : List Char) (hold : Hold) : Prop where
  split : ahead place = hold.before ++ hold.pairText
  key : IsKey hold.key
  separates : isSeparator hold.separator = true
  spaces : Spaces hold.spaces
  lands : Lands (sensitiveTextPattern isWord) none hold.before (hold.pairText ++ '"' :: tail) hold.found
  grip : Gripped tail hold.run hold.grip

-- What a value that takes the open string takes of it, from the opening quote on.
inductive Takes : Grip → List Char → List Char → Prop where
  | own {u y : List Char} : '"' ∉ u → Takes .own ('"' :: (u ++ ['"'])) y
  | bare {v y : List Char} : (∀ c ∈ v, isBareChar c = true) → (∀ d ∈ y.head?, isBareChar d = false) →
      Takes .bare v y
  | single {u y : List Char} : apostrophe ∉ u → Takes .single (u ++ [apostrophe]) y

theorem gripped_found {grip : Grip} (gripped : Gripped tail run grip) (split : '"' :: tail = v ++ y)
    (takes : Takes grip v y) : pairValue.find none (run ++ '"' :: tail) = some (run ++ v).length := by
  rw [split]
  cases takes with
  | own none =>
    cases gripped
    have whole := @value_quoted .none _ y none
    simp only [List.nil_append,List.cons_append,List.append_assoc,whole]
    simp
  | bare all stop =>
    cases gripped with
    | bare unmarked bare =>
      rw [split] at unmarked
      rw [List.cons_append,value_bare unmarked (bare _ List.mem_cons_self),← List.cons_append,
        ← List.append_assoc,List.takeWhile_append_of_pos (List.forall_mem_append.mpr ⟨bare,all⟩)]
      cases y with
      | nil => simp
      | cons d y => rw [List.takeWhile_cons_of_neg (by simp [stop d rfl]),List.append_nil]
  | @single u _ none =>
    cases gripped with
    | @single rest none' _ =>
      have outside : apostrophe ∉ rest ++ u := by simp [none,none']
      have whole := @value_single .none _ y outside
      rw [List.cons_append,show rest ++ (u ++ [apostrophe] ++ y) = rest ++ u ++ apostrophe :: y by simp,whole]
      simp
      omega

-- What the run begins with no bearer token begins with.
theorem gripped_tokenless {grip : Grip} (gripped : Gripped tail run grip) {tail' t rest : List Char}
    (split : run ++ '"' :: tail' = t ++ rest) : ¬ IsBearerToken t := by
  intro token
  have unquoted := isBearerToken_quotes token
  have marked : ∀ {c : Char} {more : List Char}, c ∈ ['"',apostrophe] → c :: more ≠ t ++ rest := by
    intro c more mark same
    obtain ⟨d,later,rfl,_⟩ := bearerToken_head token
    obtain rfl := (List.cons.inj same).1
    exact unquoted _ List.mem_cons_self mark
  cases gripped with
  | own => exact marked (by simp) split
  | single => exact marked (by simp) split
  | @bare c more _ bare =>
    -- the token has a space, which the run has not, and no quote
    obtain ⟨d,listed,space⟩ := bearerToken_space token
    rcases List.append_eq_append_iff.mp split with ⟨beyond,rfl,behind⟩ | ⟨after,same,_⟩
    · cases beyond with
      | nil =>
        rw [List.append_nil] at listed
        rw [bare_visible (bare d listed)] at space
        cases space
      | cons e beyond =>
        obtain ⟨rfl,_⟩ := List.cons.inj behind
        exact unquoted '"' (by simp) (by simp)
    · rw [bare_visible (bare d (same ▸ List.mem_append_left _ listed))] at space
      cases space

theorem pairText_split (hold : Hold) (rest : List Char) :
    hold.pairText ++ rest = hold.key ++ hold.separator :: (hold.spaces ++ (hold.run ++ rest)) := by
  simp [Hold.pairText]

theorem held_found {prev : Option Char} {hold : Hold} (held : Meets isWord place tail hold)
    (split : '"' :: tail = v ++ y) (takes : Takes hold.grip v y) :
    (sensitiveTextPattern isWord).find prev (hold.pairText ++ '"' :: tail) =
      some (hold.pairText.length + v.length) := by
  have found := @keyed_found isWord prev _ _ _ _ _ held.key held.separates held.spaces
    (gripped_found held.grip split takes) fun t rest same => gripped_tokenless held.grip same
  rw [pairText_split,found,Hold.pairText]
  simp
  omega

-- Whatever takes the string ends.
theorem takes_some {grip : Grip} (gripped : Gripped (behindQuote place text) run grip) :
    ∃ v y, '"' :: behindQuote place text = v ++ y ∧ v ≠ [] ∧ Takes grip v y := by
  have until_ : ∀ (accepts : Char → Bool) {letters : List Char} {c : Char}, c ∈ letters → accepts c = false →
      ∃ u d y, letters = u ++ d :: y ∧ (∀ e ∈ u, accepts e = true) ∧ accepts d = false := by
    intro accepts letters c listed stop
    cases rest : letters.dropWhile accepts with
    | nil =>
      have all := List.dropWhile_eq_nil_iff.mp rest c listed
      rw [stop] at all
      cases all
    | cons d y =>
      refine ⟨letters.takeWhile accepts,d,y,?_,fun e inside => List.mem_takeWhile_imp inside,?_⟩
      · rw [← rest,List.takeWhile_append_dropWhile]
      · have head := List.head?_dropWhile_not accepts letters
        rw [rest] at head
        exact head
  have ended : '"' ∈ behindQuote place text := by simp [behindQuote]
  have outside : ∀ {mark : Char} {u : List Char}, (∀ e ∈ u, (e != mark) = true) → mark ∉ u :=
    fun all listed => by
    simpa using all _ listed
  cases gripped with
  | own =>
    obtain ⟨u,d,y,split,inside,stop⟩ := until_ (· != '"') ended (by decide)
    obtain rfl : d = '"' := by simpa using stop
    exact ⟨'"' :: (u ++ ['"']),y,by rw [split]; simp,List.cons_ne_nil _ _,.own (outside inside)⟩
  | bare _ bare =>
    obtain ⟨c,rest,back,head⟩ := back_head place
    have stop : isBareChar c = false := by
      rcases head with rfl | rfl
      · decide
      · decide
    obtain ⟨u,d,y,split,inside,stopped⟩ := until_ isBareChar
      (show c ∈ behindQuote place text by simp [behindQuote,back]) stop
    refine ⟨'"' :: u,d :: y,by rw [split]; rfl,List.cons_ne_nil _ _,.bare ?_ ?_⟩
    · exact List.forall_mem_cons.mpr ⟨bare_quotes.1,inside⟩
    · rintro e ⟨⟩
      exact stopped
  | single _ closed =>
    obtain ⟨u,d,y,split,inside,stop⟩ := until_ (· != apostrophe) closed (by decide)
    obtain rfl : d = apostrophe := by simpa using stop
    refine ⟨('"' :: u) ++ [apostrophe],y,by rw [split]; simp,by simp,.single ?_⟩
    have differs : apostrophe ≠ '"' := by decide
    simp [differs,outside inside]

-- The key of the open string, as serialised, is a secret's name.
theorem key_named {key : String} (secret : IsKey (quotedText key)) : IsName (escaped key) := by
  obtain ⟨q,name,q',w,split,first,named,last,spaces⟩ := isKey_iff.mp secret
  have unquoted : '"' ∉ name := fun listed => isName_quotes named '"' listed (by decide)
  obtain ⟨d,more,rfl⟩ := List.exists_cons_of_ne_nil (isName_some named)
  have opened : escaped key ++ ['"'] = d :: more ++ (q' ++ w) := by
    rcases first with rfl | ⟨c,rfl,_⟩
    · obtain ⟨rfl,_⟩ := List.cons.inj split
      exact absurd List.mem_cons_self unquoted
    · exact (List.cons.inj split).2
  have ends : ∀ before after : List Char, escaped key ++ ['"'] = before ++ after → after ≠ [] →
      '"' ∈ after := by
    intro before after same some
    have lasts := congrArg List.getLast? same
    rw [List.getLast?_append_of_ne_nil _ some,List.getLast?_append_of_ne_nil _ (List.cons_ne_nil _ _)]
      at lasts
    exact List.mem_of_getLast? lasts.symm
  have spaceless : w = [] := by
    by_contra some
    exact absurd (spaces '"' (ends (d :: more ++ q') w (by rw [opened]; simp) some)) (by decide)
  rw [spaceless,List.append_nil] at opened
  rcases last with rfl | ⟨c,rfl,_⟩
  · rw [List.append_nil] at opened
    exact absurd (ends [] _ opened (List.cons_ne_nil _ _)) unquoted
  · exact (List.append_inj' opened rfl).1 ▸ named

-- So a bare or single quoted value that runs into the key runs through it.
theorem keyText_bare {key : String} (secret : IsKey (quotedText key)) :
    ∀ d ∈ quotedText key ++ [':'], isBareChar d = true ∧ d ≠ apostrophe := by
  have named := key_named secret
  intro d listed
  simp only [quotedText,List.cons_append,List.append_assoc,List.mem_cons,List.mem_append,List.not_mem_nil,
    or_false] at listed
  rcases listed with rfl | inName | rfl | listed
  · decide
  · exact ⟨isName_bare named d inName,fun same => isName_quotes named d inName (by simp [same])⟩
  · decide
  · obtain rfl : d = ':' := by simpa using listed
    decide

-- The character before a key is one that no value begins after.
theorem lead_mark (place : OpenValue) :
    ∃ front x, place.lead = front ++ [x] ∧ x ∈ jsonMarks ∧ isSeparator x = false ∧
    isWhiteSpace x = false := by
  obtain ⟨front,x,leads,rfl | rfl⟩ := lead_last place
  · exact ⟨front,_,leads,by decide,by decide,by decide⟩
  · exact ⟨front,_,leads,by decide,by decide,by decide⟩

-- What is left of a text ends as the text does.
theorem split_last {front before after : List Char} {x : Char} (split : front ++ [x] = before ++ after)
    (some : after ≠ []) : ∃ init, after = init ++ [x] := by
  rcases List.eq_nil_or_concat after with rfl | ⟨init,y,rfl⟩
  · exact absurd rfl some
  · rw [List.concat_eq_append,← List.append_assoc] at split
    obtain ⟨_,same⟩ := List.append_inj' split rfl
    exact ⟨init,by rw [(List.cons.inj same).1,List.concat_eq_append]⟩

section Spanning
variable {before after k w : List Char} {x s : Char} {found : List Piece}

-- A value that has not begun yet is reached through a separator and spaces.
theorem mark_reached (pairs : after ++ [x] = k ++ s :: w) (separates : isSeparator s = true)
    (spaces : Spaces w) : isSeparator x = true ∨ isWhiteSpace x = true := by
  have lasts : [x].getLast? = (s :: w).getLast? := by
    rw [← List.getLast?_append_of_ne_nil after (List.cons_ne_nil x []),pairs,
      List.getLast?_append_of_ne_nil _ (List.cons_ne_nil _ _)]
  rcases List.mem_cons.mp (List.mem_of_getLast? lasts.symm) with rfl | listed
  · exact .inl separates
  · exact .inr (spaces x listed)

-- A match that begins before the key and goes on to the string.
theorem held_onward {grip : Grip} (split : place.lead = before ++ (after ++ [x]))
    (pairs : after ++ [x] = k ++ s :: (w ++ run))
    (key : IsKey k) (separates : isSeparator s = true) (spaces : Spaces w)
    (lands : Lands (sensitiveTextPattern isWord) none before (after ++ [x] ++
      (quotedText place.key ++ ':' :: '"' :: tail)) found)
    (gripped : Gripped tail (run ++ (quotedText place.key ++ [':'])) grip) :
    ∃ hold, Meets isWord place tail hold := by
  refine ⟨⟨before,found,k,s,w,_,grip⟩,?_,key,separates,spaces,?_,gripped⟩
  · rw [ahead,split,Hold.pairText,List.append_assoc,pairs]
    simp
  · have same :
        Hold.pairText ⟨before,found,k,s,w,run ++ (quotedText place.key ++ [':']),grip⟩ ++ '"' :: tail =
        after ++ [x] ++ (quotedText place.key ++ ':' :: '"' :: tail) := by
      rw [pairs,Hold.pairText]
      simp
    rw [same]
    exact lands

-- A match that begins before the key and closes at its opening quote leaves the string to the key.
theorem held_closed (secret : IsKey (quotedText place.key)) (split : place.lead = before ++ (after ++ [x]))
    (lands : Lands (sensitiveTextPattern isWord) none before
      (after ++ x :: '"' :: (escaped place.key ++ '"' :: ':' :: '"' :: tail)) found)
    (hit : (sensitiveTextPattern isWord).find (lastOf none before)
      (after ++ x :: '"' :: (escaped place.key ++ '"' :: ':' :: '"' :: tail)) = some (after.length + 2)) :
    ∃ hold, Meets isWord place tail hold := by
  refine ⟨⟨place.lead ++ ['"'],found ++ [.matched (after ++ [x,'"'])],escaped place.key ++ ['"'],':',
    [],[],.own⟩,?_,?_,rfl,?_,?_,.own⟩
  · simp [ahead,quotedText,Hold.pairText]
  · exact isKey_iff.mpr ⟨[],_,['"'],[],by simp,.inl rfl,key_named secret,.inr ⟨'"',rfl,by decide⟩,
      fun c listed => absurd listed List.not_mem_nil⟩
  · exact fun c listed => absurd listed List.not_mem_nil
  · have rest :
        Hold.pairText ⟨place.lead ++ ['"'],found ++ [.matched (after ++ [x,'"'])],escaped place.key ++ ['"'],
        ':',[],[],.own⟩ ++ '"' :: tail = escaped place.key ++ '"' :: ':' :: '"' :: tail := by
      simp [Hold.pairText]
    rw [rest,split,show before ++ (after ++ [x]) ++ ['"'] = before ++ (after ++ [x,'"']) by simp]
    refine Lands.trans ?_ (.matched (List.append_nil _).symm (by simp) ?_ .here)
    · simpa using lands
    · simp only [List.append_assoc,List.cons_append,List.nil_append]
      rw [hit]
      simp

end Spanning

-- Wherever a secret's key stands, something takes its string: its own key, unless a match before it runs into
-- the key. Such a match closes at the key's opening quote, or goes on to the string.
theorem held_exists (secret : IsKey (quotedText place.key)) (tail : List Char) :
    ∃ hold, Meets isWord place tail hold := by
  have keyText := keyText_bare secret
  obtain ⟨front,x,leads,marked,closing⟩ := lead_mark place
  rcases lands_or_spans (sensitiveTextPattern isWord) none place.lead (quotedText place.key ++ ':' ::
    '"' :: tail) with
    ⟨found,lands⟩ | ⟨before,after,found,size,split,some,lands,hit,far⟩
  · refine ⟨⟨place.lead,found,quotedText place.key,':',[],[],.own⟩,rfl,secret,rfl,?_,?_,.own⟩
    · exact fun c listed => absurd listed List.not_mem_nil
    · simpa [Hold.pairText] using lands
  obtain ⟨after,rfl⟩ := split_last (leads ▸ split) some
  have whole : after ++ [x] ++ (quotedText place.key ++ ':' :: '"' :: tail) =
      after ++ x :: '"' :: (escaped place.key ++ '"' :: ':' :: '"' :: tail) := by
    simp [quotedText]
  rw [whole] at hit
  obtain ⟨k,s,w,run,more,pairs,key,separates,spaces,rfl,reaches⟩ :=
    found_reaches marked hit (by simpa using far)
  cases reaches with
  | opened =>
    rw [List.append_nil] at pairs
    rcases mark_reached pairs separates spaces with separator | space
    · cases closing.1.symm.trans separator
    · cases closing.2.symm.trans space
  | @closed u outside =>
    have sizes := congrArg List.length pairs
    refine held_closed secret split (whole ▸ lands) (hit.trans (congrArg Option.some ?_))
    simp at sizes
    omega
  | @single u _ outside closes =>
    refine held_onward split pairs key separates spaces lands
      (@Gripped.single tail (u ++ (quotedText place.key ++ [':'])) ?_ ?_)
    · rw [List.mem_append,not_or]
      exact ⟨outside,fun listed => (keyText _ listed).2 rfl⟩
    · simp only [List.mem_append,List.mem_cons] at closes
      rcases closes with inName | same | same | same | inTail
      · exact absurd rfl (keyText _ (by simp [quotedText,inName])).2
      · exact absurd same (by decide)
      · exact absurd same (by decide)
      · exact absurd same (by decide)
      · exact inTail
  | @bare c rest _ unmarked bare =>
    refine held_onward split pairs key separates spaces lands
      (@Gripped.bare tail c (rest ++ (quotedText place.key ++ [':'])) ?_ ?_)
    · simpa [quotedText] using unmarked
    · rw [← List.cons_append]
      exact List.forall_mem_append.mpr ⟨bare,fun d listed => (keyText d listed).1⟩

-- A value does not begin with the quote that closes the key: the key would end in a separator or a space.
theorem key_unclosed {before k w u : List Char} {s : Char} (secret : IsKey (quotedText place.key))
    (separates : isSeparator s = true) (spaces : Spaces w) (outside : '"' ∉ u)
    (split : ahead place = before ++ (k ++ s :: (w ++ '"' :: u))) : False := by
  have named := key_named secret
  have whole :
      place.lead ++ '"' :: escaped place.key ++ ['"'] ++ [':'] = before ++ (k ++ s :: w) ++ '"' :: u := by
    rw [show place.lead ++ '"' :: escaped place.key ++ ['"'] ++ [':'] =
      ahead place by simp [ahead,quotedText],split]
    simp
  obtain ⟨init,same⟩ := split_last whole (List.cons_ne_nil _ _)
  cases init with
  | nil => exact absurd (List.cons.inj same).1 (by decide)
  | cons q init =>
  obtain ⟨rfl,rfl⟩ := List.cons.inj same
  have closed :
      place.lead ++ '"' :: escaped place.key ++ ['"'] = before ++ (k ++ s :: w) ++ ['"'] ++ init := by
    refine (List.append_inj' (whole.trans ?_) rfl).1
    simp
  obtain rfl : init = [] := by
    by_contra some
    obtain ⟨_,rfl⟩ := split_last closed some
    simp at outside
  rw [List.append_nil] at closed
  have ends := (List.append_inj' closed rfl).1
  have lasts : (escaped place.key).getLast? = (s :: w).getLast? := by
    rw [← List.getLast?_append_of_ne_nil (place.lead ++ ['"']) (isName_some named),
      ← List.getLast?_append_of_ne_nil (before ++ k) (List.cons_ne_nil s w)]
    exact congrArg List.getLast? (by simpa using ends)
  have last := List.getLast?_eq_some_getLast (isName_some named)
  have inName := List.mem_of_getLast? last
  rcases List.mem_cons.mp (List.mem_of_getLast? (lasts.symm.trans last)) with same | listed
  · rw [← same,keyStops_separator (reads_avoids (by decide) named _ inName)] at separates
    cases separates
  · have space := spaces _ listed
    rw [bare_visible (isName_bare named _ inName)] at space
    cases space

-- A match that takes the opening quote takes the string, if it begins before the quote.
theorem spanning_gripped {prev : Option Char} {before after : List Char} {size : Nat}
    (secret : IsKey (quotedText place.key)) (split : ahead place = before ++ after) (some : after ≠ [])
    (found : (sensitiveTextPattern isWord).find prev (after ++ '"' :: tail) = .some size)
    (far : after.length < size) :
    ∃ k s w run grip, after = k ++ s :: (w ++ run) ∧ IsKey k ∧ isSeparator s = true ∧ Spaces w ∧
    Gripped tail run grip := by
  obtain ⟨front,rfl⟩ := split_last
    (show place.lead ++ quotedText place.key ++ [':'] = before ++
      after by rw [← split,ahead,List.append_assoc]) some
  obtain ⟨k,s,w,run,more,pairs,key,separates,spaces,_,reaches⟩ := found_reaches (by decide : ':' ∈ jsonMarks)
    (show (sensitiveTextPattern isWord).find prev (front ++ ':' :: '"' :: tail) =
      .some size by simpa using found) (by simpa using far)
  refine ⟨k,s,w,run,?_⟩
  cases reaches with
  | opened => exact ⟨.own,pairs,key,separates,spaces,.own⟩
  | single outside closes => exact ⟨.single,pairs,key,separates,spaces,.single outside closes⟩
  | bare unmarked bare => exact ⟨.bare,pairs,key,separates,spaces,.bare unmarked bare⟩
  | closed outside => exact (key_unclosed secret separates spaces outside (pairs ▸ split)).elim

-- What takes the string where one text follows takes it where another does, unless the other alone has a
-- single quote that closes something.
theorem gripped_carried {grip : Grip} {tail' : List Char} (gripped : Gripped tail' run grip)
    (marks : apostrophe ∈ tail' → apostrophe ∈ tail) : ∃ grip', Gripped tail run grip' := by
  cases gripped with
  | own => exact ⟨.own,.own⟩
  | single outside closes => exact ⟨.single,.single outside (marks closes)⟩
  | @bare c rest unmarked bare =>
    rcases unmarked with plain | ⟨rfl,none⟩
    · exact ⟨.bare,.bare (.inl plain) bare⟩
    · by_cases closes : apostrophe ∈ tail
      · exact ⟨.single,.single (fun listed => none (by simp [listed])) closes⟩
      · refine ⟨.bare,.bare (.inr ⟨rfl,fun listed => ?_⟩) bare⟩
        rcases List.mem_append.mp listed with early | late
        · exact none (by simp [early])
        · exact closes ((List.mem_cons.mp late).resolve_left (by decide))

-- So the search comes to the same place there, with the same matches before it.
theorem held_shares {hold : Hold} {tail' : List Char} (secret : IsKey (quotedText place.key))
    (held : Meets isWord place (behindQuote place text) hold)
    (marks : apostrophe ∈ tail' → apostrophe ∈ behindQuote place text) :
    Lands (sensitiveTextPattern isWord) none hold.before (hold.pairText ++ '"' :: tail') hold.found := by
  obtain ⟨c,rest,pairs⟩ := List.exists_cons_of_ne_nil (show hold.pairText ≠ [] by simp [Hold.pairText])
  have lands := held.lands
  rw [pairs] at lands ⊢
  refine lands.shared fun before after early size split some lands' hit => ?_
  by_contra far
  have second :
      Lands (sensitiveTextPattern isWord) none (before ++ after) (c :: rest ++ '"' ::
      behindQuote place text) hold.found :=
    split ▸ lands
  have short : ∀ size', (sensitiveTextPattern isWord).find (lastOf none before)
      ((after ++ hold.pairText) ++ '"' :: behindQuote place text) = .some size' → size' ≤ after.length := by
    intro size' found
    refine lands'.within second some ?_
    rw [List.append_assoc,pairs] at found
    exact found
  have hit' : (sensitiveTextPattern isWord).find (lastOf none before) ((after ++ hold.pairText) ++ '"' ::
      tail') = .some size := by
    rw [List.append_assoc,pairs]
    exact hit
  by_cases near : size ≤ (after ++ hold.pairText).length
  · -- the match ends where the texts are alike
    refine far (short size (Pattern.find_within hit' near fun place' found => ?_))
    rw [List.length_append]
    exact Nat.le_trans (short place' found) (Nat.le_add_right _ _)
  · have whole : ahead place = before ++ (after ++ hold.pairText) := by
      rw [held.split,split,List.append_assoc]
    obtain ⟨k,s,w,run,grip,pairs',key,separates,spaces,gripped⟩ :=
      spanning_gripped secret whole (by simp [some]) hit' (Nat.lt_of_not_le near)
    obtain ⟨grip',gripped'⟩ := gripped_carried gripped marks
    obtain ⟨v,y,_,_,takes⟩ := takes_some gripped'
    have found := @keyed_found isWord (lastOf none before) _ _ _ _ _ key separates spaces
      (gripped_found gripped' ‹_› takes) fun t rest same => gripped_tokenless gripped' same
    have long := short _ (show _ = Option.some _ by
      rw [pairs',← found]
      simp)
    have sizes := congrArg List.length pairs'
    have positive := List.length_pos_of_ne_nil (show hold.pairText ≠ [] by simp [pairs])
    simp at long sizes
    omega

theorem gripped_unique {grip grip' : Grip} (gripped : Gripped tail run grip)
    (gripped' : Gripped tail run grip') : grip = grip' := by
  have apart : ∀ {rest : List Char}, Unmarked apostrophe (rest ++ '"' :: tail) → apostrophe ∉ tail := by
    intro rest unmarked closes
    rcases unmarked with plain | ⟨_,none⟩
    · exact absurd plain (by decide)
    · exact none (by simp [closes])
  cases gripped with
  | own =>
    cases gripped'
    rfl
  | bare unmarked _ =>
    cases gripped' with
    | bare => rfl
    | single _ closes => exact absurd closes (apart unmarked)
  | single _ closes =>
    cases gripped' with
    | bare unmarked _ => exact absurd closes (apart unmarked)
    | single => rfl

-- A text has one such place.
-- A place before the other would have a match that reaches beyond it.
theorem held_level {hold hold' : Hold} {after : List Char}
    (held : Meets isWord place (behindQuote place text) hold)
    (held' : Meets isWord place (behindQuote place text) hold')
    (split : hold'.before = hold.before ++ after) : after = [] := by
  by_contra some
  obtain ⟨v,y,whole,_,takes⟩ := takes_some held.grip
  have pairs : hold.pairText = after ++ hold'.pairText := by
    have same := held.split.symm.trans held'.split
    rw [split,List.append_assoc] at same
    exact List.append_cancel_left same
  have lands := held.lands
  have lands' := held'.lands
  rw [pairs,List.append_assoc] at lands
  rw [split] at lands'
  have found : (sensitiveTextPattern isWord).find (lastOf none hold.before) _ = Option.some _ :=
    held_found held whole takes
  rw [pairs,List.append_assoc] at found
  have near := lands.within lands' some found
  have positive := List.length_pos_of_ne_nil (show hold'.pairText ≠ [] by simp [Hold.pairText])
  rw [List.length_append] at near
  omega

theorem held_visible {hold : Hold} (held : Meets isWord place (behindQuote place text) hold) :
    Visible (hold.run ++ '"' :: behindQuote place text) := by
  obtain ⟨v,y,whole,_,takes⟩ := takes_some held.grip
  exact pairValue_some (gripped_found held.grip whole takes)

theorem held_unique {hold hold' : Hold} (held : Meets isWord place (behindQuote place text) hold)
    (held' : Meets isWord place (behindQuote place text) hold') : hold = hold' := by
  have before : hold.before = hold'.before := by
    rcases List.append_eq_append_iff.mp (held.split.symm.trans held'.split) with ⟨after,split,
      _⟩ | ⟨after,split,_⟩
    · rw [split,held_level held held' split,List.append_nil]
    · rw [split,held_level held' held split,List.append_nil]
  have pairs : hold.pairText = hold'.pairText := by
    have same := held.split.symm.trans held'.split
    rw [before] at same
    exact List.append_cancel_left same
  have whole := congrArg (· ++ '"' :: behindQuote place text) pairs
  simp only [pairText_split] at whole
  obtain ⟨keys,separators,spaces,rests⟩ :=
    keyed_unique (isKey_avoids held.key) (isKey_avoids held'.key) held.separates
    held'.separates held.spaces held'.spaces (held_visible held) (held_visible held') whole
  have runs := List.append_cancel_right rests
  have found : hold.found = hold'.found := by
    obtain ⟨c,rest,split⟩ := List.exists_cons_of_ne_nil (show hold.pairText ≠ [] by simp [Hold.pairText])
    have lands := held.lands
    have lands' := held'.lands
    rw [← before,← pairs] at lands'
    rw [split] at lands lands'
    exact lands.unique lands'
  have grips := gripped_unique held.grip (runs ▸ held'.grip)
  obtain ⟨⟩ := hold
  obtain ⟨⟩ := hold'
  cases before
  cases found
  cases keys
  cases separators
  cases spaces
  cases runs
  cases grips
  rfl

-- What the text shows.
theorem held_replaced {hold : Hold} {tail' : List Char} (secret : IsKey (quotedText place.key))
    (held : Meets isWord place (behindQuote place text) hold)
    (marks : apostrophe ∈ tail' → apostrophe ∈ behindQuote place text) (some : v ≠ [])
    (split : hold.run ++ '"' :: tail' = v ++ y) (valued : pairValue.find none (v ++ y) = .some v.length) :
    replaceAll (sensitiveTextPattern isWord) redactMatch none (ahead place ++ '"' :: tail') =
      hold.shown ++ replaceAll (sensitiveTextPattern isWord) redactMatch (lastOf none v) y := by
  have lands := held_shares secret held marks
  rw [held.split,List.append_assoc,lands.replaced,pairText_split,split,
    keyed_replaced held.key held.separates held.spaces some valued
      fun t rest same => gripped_tokenless held.grip (split.trans same),Hold.shown]
  simp

def Spared (grip : Grip) (text : String) : Prop := ∀ c ∈ escaped text, grip.ends c = false

-- What is left of the text behind the string, and the character before it.
def Grip.left (place : OpenValue) : Grip → List Char
  | own | bare => place.back
  | single => (place.back.dropWhile (· != apostrophe)).tail

def Grip.closing : Grip → Char
  | own | bare => '"'
  | single => apostrophe

theorem kept_takes {grip : Grip} (gripped : Gripped (behindQuote place text) run grip)
    (kept : Spared grip text) :
    ∃ v, '"' :: behindQuote place text = v ++ grip.left place ∧ v ≠ [] ∧
    lastOf none (run ++ v) = some grip.closing ∧ Takes grip v (grip.left place) := by
  have last : ∀ (front : List Char) (c : Char), lastOf none (front ++ [c]) = some c :=
    fun front c => by rw [lastOf_append]; rfl
  cases gripped with
  | own =>
    refine ⟨'"' :: (escaped text ++ ['"']),by simp [behindQuote,Grip.left],List.cons_ne_nil _ _,
      last ('"' :: escaped text) '"',.own ?_⟩
    exact fun listed => absurd (kept '"' listed) (by decide)
  | @bare c rest _ bare =>
    refine ⟨'"' :: (escaped text ++ ['"']),by simp [behindQuote,Grip.left],List.cons_ne_nil _ _,?_,
      .bare ?_ ?_⟩
    · rw [show c :: rest ++ '"' :: (escaped text ++ ['"']) = (c :: rest ++ '"' :: escaped text) ++
        ['"'] by simp,last]
      rfl
    · intro d listed
      simp only [List.mem_cons,List.mem_append,List.not_mem_nil,or_false] at listed
      rcases listed with rfl | inside | rfl
      · decide
      · exact Bool.not_eq_false' .. ▸ kept d inside
      · decide
    · intro d head
      obtain ⟨e,more,back,stop⟩ := back_head place
      rw [Grip.left,back] at head
      obtain rfl := Option.some.inj head
      rcases stop with rfl | rfl
      · decide
      · decide
  | @single rest outside closes =>
    have inBack : apostrophe ∈ place.back := by
      rcases List.mem_append.mp closes with early | late
      · exact absurd (kept apostrophe early) (by decide)
      · exact (List.mem_cons.mp late).resolve_left (by decide)
    obtain ⟨u,y,split,outside'⟩ := first_mark inBack
    have left : Grip.single.left place = y := by
      rw [Grip.left,split,List.dropWhile_append_of_pos (marked_inside outside'),
        List.dropWhile_cons_of_neg (by simp)]
      rfl
    rw [left]
    refine ⟨('"' :: (escaped text ++ '"' :: u)) ++ [apostrophe],by simp [behindQuote,split],by simp,?_,
      .single ?_⟩
    · rw [← List.append_assoc,last]
      rfl
    · simp only [List.mem_cons,List.mem_append,not_or]
      exact ⟨by decide,fun listed => absurd (kept apostrophe listed) (by decide),by decide,outside'⟩

theorem kept_replaced {hold : Hold} (secret : IsKey (quotedText place.key))
    (held : Meets isWord place (behindQuote place text) hold) (kept : Spared hold.grip text) :
    replaceAll (sensitiveTextPattern isWord) redactMatch none (jsonChars (place.fill text)) =
      hold.shown ++ replaceAll (sensitiveTextPattern isWord) redactMatch (some hold.grip.closing)
        (hold.grip.left place) := by
  obtain ⟨v,split,some,last,takes⟩ := kept_takes held.grip kept
  have valued := gripped_found held.grip split takes
  rw [document_chars,held_replaced (v:=hold.run ++ v) (y:=hold.grip.left place) secret held id
    (by simp [some]) (by rw [split]; simp) ?_,last]
  rwa [split,← List.append_assoc] at valued

end Shaka.Properties
