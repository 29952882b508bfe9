import Shaka.Properties.HeldSecrets
import Shaka.Properties.ToolRuns

namespace Shaka.Properties
open Shaka.Core Shaka.Runtime Patterns Pattern JsonValue

-- The run with a host that redacts as the program does, and writes JSON as its library does.
def concrete (isWord : Char → Bool) (run : AgentRun) : AgentRun :=
  {run with host:={run.host with redactSensitive:=redactSensitive isWord, jsonText:=jsonText}}

-- What the model gets to see of a tool's output.
def sanitized (isWord : Char → Bool) (run : AgentRun) (result : ToolResult) (output : Json) : ToolResult :=
  (concrete isWord run).sanitizeToolResult {result with output:=output}

variable {isWord : Char → Bool} {run : AgentRun} {result : ToolResult} {place : OpenValue}
  {text other : String} {hold hold' : Hold}

-- The text that the model is shown.
theorem sanitized_eq (run : AgentRun) (result : ToolResult) (output : Json) :
    sanitized isWord run result output = {result with output:=.object [("serialized",.string (String.ofList
      ((replaceAll (sensitiveTextPattern isWord) redactMatch none (jsonChars output)).take 8192)))]} := by
  unfold sanitized AgentRun.sanitizeToolResult concrete takeChars redactSensitive jsonText
  simp only [String.toList_ofList]

theorem sanitized_same {run : AgentRun} {result : ToolResult} {output output' : Json} :
    sanitized isWord run result output = sanitized isWord run result output' ↔
      (replaceAll (sensitiveTextPattern isWord) redactMatch none (jsonChars output)).take 8192 =
        (replaceAll (sensitiveTextPattern isWord) redactMatch none (jsonChars output')).take 8192 := by
  rw [sanitized_eq,sanitized_eq]
  simp [String.ofList_inj]

-- What opens, parts and closes the entries of a JSON object is of no key.
def entryStops : List Char := [',',Char.ofNat 0x7B,Char.ofNat 0x7D]

theorem kind_key {read : List Char} (kind : Kind read) : (∃ k s rest, read = k ++ s :: rest ∧ k ≠ [] ∧
    (∀ c ∈ k, c ∉ entryStops) ∧ isSeparator s = true ∧ (IsKey k ∨ IsHeaderKey k)) ∨ IsBearerToken read := by
  cases kind with
  | @header k w v s shape key separates =>
    exact .inl ⟨k,s,w ++ v,shape,isHeaderKey_some key,reads_avoids (by decide) key,separates,.inr key⟩
  | bearer token => exact .inr token
  | @pair k w v s shape key separates =>
    exact .inl ⟨k,s,w ++ v,shape,isKey_some key,reads_avoids (by decide) key,separates,.inl key⟩

theorem back_kept {prev : Option Char} {c : Char} {rest : List Char} (stop : c ∈ entryStops) :
    ∀ more, (sensitiveTextPattern isWord).find prev (c :: rest) ≠ some (more + 1) := by
  refine pattern_missed.mpr fun read rest' split reads => ?_
  rcases kind_key (pattern_kind reads) with ⟨k,s,more,rfl,some,avoids,_⟩ | token
  · obtain ⟨d,k,rfl⟩ := List.exists_cons_of_ne_nil some
    obtain ⟨rfl,_⟩ := List.cons.inj split
    exact avoids c List.mem_cons_self stop
  · obtain ⟨d,more,rfl,folded⟩ := bearerToken_head token
    obtain ⟨rfl,_⟩ := List.cons.inj split
    rcases folds_b folded with rfl | rfl
    · exact absurd stop (by decide)
    · exact absurd stop (by decide)

theorem quote_keyless {k : List Char} (key : IsKey k ∨ IsHeaderKey k) : k ≠ ['"'] := by
  rintro rfl
  rcases key with key | key
  · obtain ⟨q,name,q',w,split,_,named,_⟩ := isKey_iff.mp key
    obtain ⟨c,more,rfl⟩ := List.exists_cons_of_ne_nil (isName_some named)
    have inside : c ∈ ['"'] := split ▸ by simp
    obtain rfl := List.mem_singleton.mp inside
    exact absurd (isName_quote named List.mem_cons_self) (by decide)
  · exact absurd (isHeaderKey_quote key '"' List.mem_cons_self) (by decide)

theorem quote_kept {prev : Option Char} {c : Char} {rest : List Char} (stop : c ∈ entryStops) :
    ∀ more, (sensitiveTextPattern isWord).find prev ('"' :: c :: rest) ≠ some (more + 1) := by
  refine pattern_missed.mpr fun read rest' split reads => ?_
  rcases kind_key (pattern_kind reads) with ⟨k,s,more,rfl,some,avoids,_,key⟩ | token
  · obtain ⟨d,k,rfl⟩ := List.exists_cons_of_ne_nil some
    obtain ⟨rfl,later⟩ := List.cons.inj split
    cases k with
    | nil => exact quote_keyless key rfl
    | cons e k =>
      obtain ⟨rfl,_⟩ := List.cons.inj later
      exact avoids c (by simp) stop
  · obtain ⟨d,more,rfl,folded⟩ := bearerToken_head token
    obtain ⟨rfl,_⟩ := List.cons.inj split
    exact absurd folded (by decide)

-- A text that does not end what takes it gives its place to every text that has no single quote more.
theorem kept_shared (secret : IsKey (quotedText place.key))
    (held : Meets isWord place (behindQuote place text) hold) (kept : Spared hold.grip text)
    (marks : apostrophe ∈ behindQuote place other → apostrophe ∈ behindQuote place text) :
    Meets isWord place (behindQuote place other) hold := by
  refine ⟨held.split,held.key,held.separates,held.spaces,held_shares secret held marks,?_⟩
  have grip := held.grip
  generalize hold.run = run at grip
  generalize hold.grip = hold at grip kept
  cases grip with
  | own => exact .own
  | bare unmarked bare =>
    rcases unmarked with plain | ⟨rfl,none⟩
    · exact .bare (.inl plain) bare
    · refine .bare (.inr ⟨rfl,fun listed => ?_⟩) bare
      rcases List.mem_append.mp listed with early | late
      · exact none (List.mem_append_left _ early)
      · refine none (List.mem_append_right _ (List.mem_cons_of_mem _ (marks ?_)))
        exact (List.mem_cons.mp late).resolve_left (by decide)
  | single outside closes =>
    refine .single outside ?_
    rcases List.mem_append.mp closes with early | late
    · exact absurd (kept apostrophe early) (by decide)
    · exact List.mem_append_right _ late

theorem kept_same (secret : IsKey (quotedText place.key))
    (held : Meets isWord place (behindQuote place text) hold)
    (held' : Meets isWord place (behindQuote place other) hold') (kept : Spared hold.grip text)
    (kept' : Spared hold'.grip other) :
    sanitized isWord run result (place.fill text) = sanitized isWord run result (place.fill other) := by
  have alike : hold = hold' := by
    by_cases marks : apostrophe ∈ behindQuote place other → apostrophe ∈ behindQuote place text
    · exact held_unique (kept_shared secret held kept marks) held'
    · have marks' : apostrophe ∈ behindQuote place text → apostrophe ∈ behindQuote place other :=
        fun _ => (Classical.not_imp.mp marks).1
      exact (held_unique (kept_shared secret held' kept' marks') held).symm
  subst alike
  rw [sanitized_same,kept_replaced secret held kept,kept_replaced secret held' kept']

-- The text of the document up to its open string, with a single quote behind the opening one: the two
-- close whatever takes the string.
def throughSecret (place : OpenValue) : String := String.ofList (ahead place ++ ['"',apostrophe])

-- Where the string is a single quote, the search comes to the first place that it can come to.
theorem apostrophe_marks : apostrophe ∈ behindQuote place "'" := by
  have letters : escaped "'" = [apostrophe] := by decide
  simp [behindQuote,letters]

theorem apostrophe_plain (held : Meets isWord place (behindQuote place "'") hold) : hold.run = [] ∨
    (∀ tail, Gripped tail hold.run .bare) ∨ ∀ tail, apostrophe ∈ tail → Gripped tail hold.run .single := by
  have grip := held.grip
  generalize hold.run = run at grip ⊢
  generalize hold.grip = taken at grip
  cases grip with
  | own => exact .inl rfl
  | bare unmarked bare =>
    refine .inr (.inl fun tail => .bare ?_ bare)
    rcases unmarked with plain | ⟨_,none⟩
    · exact .inl plain
    · exact absurd (List.mem_append_right _ (List.mem_cons_of_mem _ apostrophe_marks)) none
  | single outside _ => exact .inr (.inr fun tail => .single outside)

theorem through_shown (secret : IsKey (quotedText place.key))
    (held : Meets isWord place (behindQuote place "'") hold) :
    (redactSensitive isWord (throughSecret place)).length = hold.shown.length := by
  have valued :
      pairValue.find none (hold.run ++ ['"',apostrophe]) = some (hold.run ++ ['"',apostrophe]).length := by
    rcases apostrophe_plain held with none | bare | single
    · rw [none]
      decide
    · refine gripped_found (bare _) (y:=[]) rfl (.bare (List.all_iff_forall_prop.mp (by decide)) ?_)
      rintro d ⟨⟩
    · exact gripped_found (single _ List.mem_cons_self) (y:=[]) rfl (@Takes.single ['"'] [] (by decide))
  have shown := held_replaced (y:=[]) secret held (fun _ =>
    apostrophe_marks) (by simp) (List.append_nil _).symm
    (by rwa [List.append_nil])
  rw [redactSensitive,throughSecret,String.toList_ofList,shown,String.length_ofList]
  simp [replaceAll,pieces,piecesFrom]

-- Every text shows that much, and what its last match leaves.
theorem shown_begins (secret : IsKey (quotedText place.key))
    (held : Meets isWord place (behindQuote place "'") hold) (text : String) :
    ∃ rest, replaceAll (sensitiveTextPattern isWord) redactMatch none (jsonChars (place.fill text)) =
      hold.shown ++ rest := by
  have head : ∃ c rest, hold.run ++ '"' :: behindQuote place text = c :: rest ∧ isBareChar c = true := by
    have grip := held.grip
    generalize hold.run = run at grip ⊢
    generalize hold.grip = taken at grip
    cases grip with
    | own => exact ⟨'"',_,rfl,by decide⟩
    | bare _ bare => exact ⟨_,_,rfl,bare _ List.mem_cons_self⟩
    | single => exact ⟨apostrophe,_,rfl,by decide⟩
  obtain ⟨c,rest,whole,bare⟩ := head
  obtain ⟨v,y,split,some,valued⟩ := @pairValue_finds c none rest bare
  rw [document_chars,held_replaced secret held (fun _ => apostrophe_marks) some (whole.trans split)
    (split ▸ valued)]
  exact ⟨_,rfl⟩

-- Two texts tell whether all that is shown comes before the string.
theorem leaks (secret : IsKey (quotedText place.key))
    (held : Meets isWord place (behindQuote place "'") hold) :
    ∃ text other c d rest rest', c ≠ d ∧
      replaceAll (sensitiveTextPattern isWord) redactMatch none (jsonChars (place.fill text)) =
        hold.shown ++ c :: rest ∧
      replaceAll (sensitiveTextPattern isWord) redactMatch none (jsonChars (place.fill other)) =
        hold.shown ++ d :: rest' := by
  obtain ⟨c,back,split,head⟩ := back_head place
  have stop : c ∈ entryStops ∧ c ≠ '"' := by
    rcases head with rfl | rfl
    · decide
    · decide
  have closes : ∀ prev more, (sensitiveTextPattern isWord).find prev ('"' :: place.back) ≠ some (more + 1) :=
    fun prev => split ▸ quote_kept stop.1
  have output : ∀ (text : String) (v : List Char) (d : Char) (y : List Char),
      '"' :: behindQuote place text = v ++ d :: y → v ≠ [] →
      pairValue.find none (hold.run ++ '"' :: behindQuote place text) = some (hold.run ++ v).length →
      (∀ prev more, (sensitiveTextPattern isWord).find prev (d :: y) ≠ some (more + 1)) →
      ∃ rest, replaceAll (sensitiveTextPattern isWord) redactMatch none (jsonChars (place.fill text)) =
        hold.shown ++ d :: rest := by
    intro text v d y split some valued kept
    rw [split,← List.append_assoc] at valued
    rw [document_chars,held_replaced (v:=hold.run ++ v) (y:=d :: y) secret held (fun _ =>
      apostrophe_marks) (by simp [some]) (by rw [split,List.append_assoc]) valued,replaceAll_kept (kept _)]
    exact ⟨_,rfl⟩
  rcases apostrophe_plain held with none | bare | single
  · -- the string ends its own value
    have whole : '"' :: behindQuote place "" = ['"','"'] ++ c :: back := by rw [← split]; rfl
    have whole' : '"' :: behindQuote place "\"" = ['"','\\','"'] ++ '"' :: place.back := by
      rw [behindQuote,show escaped "\"" = ['\\','"'] by decide]
      rfl
    obtain ⟨rest,shows⟩ := output "" _ _ _ whole (List.cons_ne_nil _ _)
      (by rw [none]; exact gripped_found .own whole (@Takes.own [] _ List.not_mem_nil)) fun _ =>
      back_kept stop.1
    obtain ⟨rest',shows'⟩ := output "\"" _ _ _ whole' (List.cons_ne_nil _ _)
      (by rw [none]; exact gripped_found .own whole' (@Takes.own ['\\'] _ (by decide))) closes
    exact ⟨_,_,_,_,rest,rest',stop.2,shows,shows'⟩
  · -- it ends the bare value that runs into it
    have ended : ∀ (d : Char) (text : String), escaped text = [d] → d ∈ entryStops → isBareChar d = false →
        ∃ rest, replaceAll (sensitiveTextPattern isWord) redactMatch none (jsonChars (place.fill text)) =
          hold.shown ++ d :: rest := by
      intro d text letters stop stops
      have whole : '"' :: behindQuote place text = ['"'] ++ d :: '"' :: place.back := by
        rw [behindQuote,letters]
        rfl
      refine output text _ _ _ whole (List.cons_ne_nil _ _) (gripped_found (bare _) whole (.bare ?_ ?_))
        fun _ => back_kept stop
      · exact List.all_iff_forall_prop.mp (by decide)
      · rintro e ⟨⟩
        exact stops
    obtain ⟨rest,shows⟩ := ended ',' "," (by decide) (by decide) (by decide)
    obtain ⟨rest',shows'⟩ := ended (Char.ofNat 0x7D) "\x7d" (by decide) (by decide) (by decide)
    exact ⟨_,_,_,_,rest,rest',by decide,shows,shows'⟩
  · -- it ends the single quoted value that runs into it
    have ended : ∀ (text : String) (d : Char) (y : List Char),
        escaped text ++ '"' :: place.back = apostrophe :: d :: y →
        (∀ prev more, (sensitiveTextPattern isWord).find prev (d :: y) ≠ some (more + 1)) →
        ∃ rest, replaceAll (sensitiveTextPattern isWord) redactMatch none (jsonChars (place.fill text)) =
          hold.shown ++ d :: rest := by
      intro text d y split kept
      have whole : '"' :: behindQuote place text = (['"'] ++ [apostrophe]) ++ d :: y := by
        rw [behindQuote,split]
        rfl
      exact output text _ _ _ whole (List.cons_ne_nil _ _)
        (gripped_found (single _ (by rw [behindQuote,split]; exact List.mem_cons_self)) whole
          (.single (by decide))) kept
    obtain ⟨rest,shows⟩ :=
      ended "'" '"' place.back (by rw [show escaped "'" = [apostrophe] by decide]; rfl) closes
    obtain ⟨rest',shows'⟩ :=
      ended "'," ',' ('"' :: place.back) (by rw [show escaped "'," = [apostrophe,','] by decide]; rfl)
      fun _ => back_kept (by decide)
    exact ⟨_,_,_,_,rest,rest',by decide,shows,shows'⟩

-- No secret shows, whatever takes its string, as long as it does not end that; and of all the strings at a
-- place none shows exactly where what comes before it fills all that is shown.
theorem sanitized_secret (isWord : Char → Bool) (run : AgentRun) (result : ToolResult) (place : OpenValue)
    (secret : IsKey (quotedText place.key)) :
    (∀ text, ∃ hold, Meets isWord place (behindQuote place text) hold) ∧
    (∀ text other hold hold', Meets isWord place (behindQuote place text) hold →
      Meets isWord place (behindQuote place other) hold' →
      Spared hold.grip text → Spared hold'.grip other →
      sanitized isWord run result (place.fill text) = sanitized isWord run result (place.fill other)) ∧
    ((∀ text other, sanitized isWord run result (place.fill text) = sanitized isWord run result
      (place.fill other)) ↔ 8192 ≤ (redactSensitive isWord (throughSecret place)).length) := by
  refine ⟨fun text => held_exists secret _,fun _ _ _ _ held held' kept kept' =>
    kept_same secret held held' kept kept',?_⟩
  obtain ⟨hold,held⟩ := @held_exists isWord place secret (behindQuote place "'")
  rw [through_shown secret held]
  constructor
  · intro all
    by_contra room
    obtain ⟨text,other,c,d,rest,rest',differ,shows,shows'⟩ := leaks secret held
    have same := sanitized_same.mp (all text other)
    rw [shows,shows',List.take_append,List.take_append,List.take_of_length_le (by omega)] at same
    obtain ⟨more,size⟩ : ∃ more, 8192 - hold.shown.length = more + 1 :=
      ⟨8192 - hold.shown.length - 1,by omega⟩
    rw [size,List.take_succ_cons,List.take_succ_cons] at same
    exact differ (List.cons.inj (List.append_cancel_left same)).1
  · intro filled text other
    obtain ⟨rest,shows⟩ := shown_begins secret held text
    obtain ⟨rest',shows'⟩ := shown_begins secret held other
    rw [sanitized_same,shows,shows',List.take_append_of_le_length filled,List.take_append_of_le_length filled]

def passwordPlace : OpenValue := .here [] "password" []

-- The bare value of the first key runs into the second.
def tokenPlace : OpenValue := .entry [] "token" passwordPlace []

theorem password_held (text : String) : Meets isAsciiWord passwordPlace (behindQuote passwordPlace text)
    ⟨[Char.ofNat 0x7B],[.kept (Char.ofNat 0x7B)],"\"password\"".toList,':',[],[],.own⟩ where
  split := by decide
  key := reads_whole (by decide)
  separates := rfl
  spaces := fun c listed => absurd listed List.not_mem_nil
  lands := .kept rfl (back_kept (by decide)) .here
  grip := .own

theorem token_held (text : String) : Meets isAsciiWord tokenPlace (behindQuote tokenPlace text)
    ⟨[Char.ofNat 0x7B],[.kept (Char.ofNat 0x7B)],"\"token\"".toList,':',[],"\x7b\"password\":".toList,
      .bare⟩ where
  split := by decide
  key := reads_whole (by decide)
  separates := rfl
  spaces := fun c listed => absurd listed List.not_mem_nil
  lands := .kept rfl (back_kept (by decide)) .here
  grip := .bare (.inl (by decide)) (List.all_iff_forall_prop.mp (by decide))

theorem sanitized_secret_password :
    sanitized isAsciiWord (echoRun fun request => .finished (echo request)) ⟨"echo",.null,true,
      none⟩ (passwordPlace.fill "a") =
      sanitized isAsciiWord (echoRun fun request => .finished (echo request)) ⟨"echo",.null,true,none⟩
        (passwordPlace.fill "b c\\") ∧
    sanitized isAsciiWord (echoRun fun request => .finished (echo request)) ⟨"echo",.null,true,
      none⟩ (tokenPlace.fill "abc") =
      sanitized isAsciiWord (echoRun fun request => .finished (echo request)) ⟨"echo",.null,true,
        none⟩ (tokenPlace.fill "hunter2") ∧ ¬ ∀ text other,
      sanitized isAsciiWord (echoRun fun request => .finished (echo request)) ⟨"echo",.null,true,
        none⟩ (passwordPlace.fill text) =
        sanitized isAsciiWord (echoRun fun request => .finished (echo request)) ⟨"echo",.null,true,none⟩
          (passwordPlace.fill other) := by
  obtain ⟨_,plain,exact⟩ := sanitized_secret isAsciiWord (echoRun fun request => .finished (echo request))
    ⟨"echo",.null,true,none⟩ passwordPlace (reads_whole (by decide))
  obtain ⟨_,plain',_⟩ := sanitized_secret isAsciiWord (echoRun fun request => .finished (echo request))
    ⟨"echo",.null,true,none⟩ tokenPlace (reads_whole (by decide))
  refine ⟨plain _ _ _ _ (password_held "a") (password_held "b c\\") ?_ ?_,
    plain' _ _ _ _ (token_held "abc") (token_held "hunter2") ?_ ?_,fun all => ?_⟩
  · exact List.all_iff_forall_prop.mp (by decide)
  · exact List.all_iff_forall_prop.mp (by decide)
  · exact List.all_iff_forall_prop.mp (by decide)
  · exact List.all_iff_forall_prop.mp (by decide)
  · exact absurd (exact.mp all) (by decide +kernel)

-- The quote inside a password ends what the pattern takes, and the rest of the password shows.
theorem sanitized_secret_quote : ¬ ∀ (isWord : Char → Bool) (run : AgentRun) (result : ToolResult)
    (place : OpenValue) (text other : String), IsKey (quotedText place.key) →
    sanitized isWord run result (place.fill text) = sanitized isWord run result (place.fill other) := by
  intro all
  have same := all isAsciiWord (echoRun fun request => .finished (echo request)) ⟨"echo",.null,true,
    none⟩ passwordPlace "a\"b" "a\"c" (reads_whole (by decide))
  rw [sanitized_same] at same
  exact absurd same (by decide)

end Shaka.Properties
