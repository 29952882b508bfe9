import Shaka.Library.Patterns

namespace Patterns

-- A text as a search sees it: what lies between its matches, and the matches.
inductive Piece where
  | kept (c : Char)
  | matched (text : List Char)
  deriving DecidableEq, Repr

-- The search from left to right; it goes on where a match ends, and `skip` characters are still
-- of the last one. An empty match finds nothing.
def piecesFrom (p : Pattern) (prev : Option Char) : Nat → List Char → List Piece
  | _,[] => []
  | skip + 1,c :: rest => piecesFrom p (some c) skip rest
  | 0,c :: rest => match p.find prev (c :: rest) with
    | some (read + 1) => .matched ((c :: rest).take (read + 1)) :: piecesFrom p (some c) read rest
    | _ => .kept c :: piecesFrom p (some c) 0 rest

def pieces (p : Pattern) (prev : Option Char) (text : List Char) : List Piece := piecesFrom p prev 0 text

def Piece.render (rewrite : List Char → List Char) : Piece → List Char
  | .kept c => [c]
  | .matched text => rewrite text

-- Every match replaced.
def replaceAll (p : Pattern) (rewrite : List Char → List Char) (prev : Option Char) (text : List Char) :
    List Char :=
  (pieces p prev text).flatMap (Piece.render rewrite)

-- A search comes to the end of `text` between two matches, or two characters that it keeps, where
-- `rest` follows.
inductive Lands (p : Pattern) : Option Char → List Char → List Char → List Piece → Prop where
  | here {prev : Option Char} {rest : List Char} : Lands p prev [] rest []
  | kept {prev : Option Char} {c : Char} {text after rest : List Char} {found : List Piece} :
      text = c :: after →
      (∀ read, p.find prev (text ++ rest) ≠ some (read + 1)) → Lands p (some c) after rest found →
      Lands p prev text rest (.kept c :: found)
  | matched {prev : Option Char} {read text after rest : List Char} {found : List Piece} :
      text = read ++ after →
      read ≠ [] → p.find prev (text ++ rest) = some read.length →
      Lands p (lastOf prev read) after rest found → Lands p prev text rest (.matched read :: found)

theorem piecesFrom_skip (p : Pattern) (prev : Option Char) (read rest : List Char) :
    piecesFrom p prev read.length (read ++ rest) = pieces p (lastOf prev read) rest := by
  induction read generalizing prev with
  | nil => rfl
  | cons c read ih =>
    rw [List.cons_append,List.length_cons,piecesFrom,ih,lastOf_cons]

theorem pieces_kept {p : Pattern} {prev : Option Char} {c : Char} {rest : List Char}
    (none : ∀ read, p.find prev (c :: rest) ≠ some (read + 1)) :
    pieces p prev (c :: rest) = .kept c :: pieces p (some c) rest := by
  unfold pieces
  rw [piecesFrom]
  split
  · rename_i read found
    exact absurd found (none read)
  · rfl

theorem pieces_matched {p : Pattern} {prev : Option Char} {read rest : List Char} (some : read ≠ [])
    (found : p.find prev (read ++ rest) = .some read.length) :
    pieces p prev (read ++ rest) = .matched read :: pieces p (lastOf prev read) rest := by
  obtain ⟨c,more,rfl⟩ := List.exists_cons_of_ne_nil some
  rw [List.cons_append,List.length_cons] at found
  rw [pieces,List.cons_append,piecesFrom,found]
  dsimp only
  rw [←List.cons_append,←List.length_cons,List.take_left,piecesFrom_skip,lastOf_cons]

theorem Lands.pieces {p : Pattern} {prev : Option Char} {text rest : List Char} {found : List Piece}
    (lands : Lands p prev text rest found) :
    pieces p prev (text ++ rest) = found ++ pieces p (lastOf prev text) rest := by
  induction lands with
  | here => rfl
  | kept split none _ ih =>
    subst split
    rw [List.cons_append] at none ⊢
    rw [pieces_kept none,ih,lastOf_cons]
    rfl
  | matched split some found _ ih =>
    subst split
    rw [List.append_assoc] at found ⊢
    rw [pieces_matched some found,ih,lastOf_append]
    rfl

theorem Lands.whole {p : Pattern} {prev : Option Char} {text : List Char} {found : List Piece}
    (lands : Lands p prev text [] found) : Patterns.pieces p prev text = found := by
  have split := lands.pieces
  have nothing : Patterns.pieces p (lastOf prev text) [] = [] := by
    rw [Patterns.pieces,piecesFrom]
  rwa [List.append_nil,nothing,List.append_nil] at split

-- Every search comes to the end of its text.
theorem lands_end (p : Pattern) (prev : Option Char) (text : List Char) :
    Lands p prev text [] (pieces p prev text) := by
  induction long : text.length using Nat.strong_induction_on generalizing prev text with
  | _ count ih =>
    cases text with
    | nil => exact .here
    | cons c rest =>
      by_cases hit : ∃ read, p.find prev (c :: rest) = some (read + 1)
      · obtain ⟨read,found⟩ := hit
        obtain ⟨before,after,split,size,_⟩ := Pattern.find_some found
        have some : before ≠ [] := fun none => by simp [none] at size
        have shorter : after.length < count := by
          have total := congrArg List.length split
          rw [List.length_append,size] at total
          omega
        rw [split] at found ⊢
        rw [←size] at found
        rw [pieces_matched some found]
        refine .matched rfl some ?_ (ih after.length shorter _ _ rfl)
        rwa [List.append_nil]
      · have none : ∀ read, p.find prev (c :: rest) ≠ some (read + 1) := fun read found => hit ⟨read,found⟩
        rw [pieces_kept none]
        refine .kept rfl ?_ (ih rest.length (by rw [←long]; exact Nat.lt_succ_self _) _ _ rfl)
        simpa using none

theorem Lands.replaced {p : Pattern} {rewrite : List Char → List Char} {prev : Option Char}
    {text rest : List Char} {found : List Piece} (lands : Lands p prev text rest found) :
    replaceAll p rewrite prev (text ++ rest) = found.flatMap (Piece.render rewrite) ++ replaceAll p rewrite
      (lastOf prev text) rest := by
  rw [replaceAll,lands.pieces,List.flatMap_append]
  rfl

theorem replaceAll_kept {p : Pattern} {rewrite : List Char → List Char} {prev : Option Char} {c : Char}
    {rest : List Char} (none : ∀ read, p.find prev (c :: rest) ≠ some (read + 1)) :
    replaceAll p rewrite prev (c :: rest) = c :: replaceAll p rewrite (some c) rest := by
  rw [replaceAll,pieces_kept none]
  rfl

theorem replaceAll_matched {p : Pattern} {rewrite : List Char → List Char} {prev : Option Char}
    {read rest : List Char} (some : read ≠ []) (found : p.find prev (read ++ rest) = .some read.length) :
    replaceAll p rewrite prev (read ++ rest) = rewrite read ++ replaceAll p rewrite (lastOf prev read)
      rest := by
  rw [replaceAll,pieces_matched some found]
  rfl

-- Two texts that begin alike are searched alike to where both searches come between matches.
theorem Lands.unique {p : Pattern} {prev : Option Char} {text : List Char} {c : Char}
    {rest rest' : List Char} {found found' : List Piece} (one : Lands p prev text (c :: rest) found)
    (two : Lands p prev text (c :: rest') found') : found = found' := by
  -- where one search keeps a character, the other finds nothing that ends within the text
  have apart : ∀ {prev : Option Char} {text read after rest rest' : List Char},
      (∀ more, p.find prev (text ++ c :: rest) ≠ some (more + 1)) → text = read ++ after → read ≠ [] →
      p.find prev (text ++ c :: rest') ≠ some read.length := by
    intro prev text read after rest rest' none split some found
    have near : read.length ≤ text.length := by
      rw [split,List.length_append]
      exact Nat.le_add_right _ _
    obtain ⟨more,size⟩ := Nat.exists_eq_succ_of_ne_zero fun empty =>
        some (List.eq_nil_of_length_eq_zero empty)
    apply none more
    rw [←Nat.succ_eq_add_one,←size]
    refine Pattern.find_within found near fun place' found' => ?_
    cases place' with
    | zero => exact Nat.zero_le _
    | succ more => exact absurd found' (none more)
  generalize same : c :: rest = whole at one
  induction one generalizing found' with
  | here =>
    cases two with
    | here => rfl
    | kept split => cases split
    | matched split some => exact absurd (List.append_eq_nil_iff.mp split.symm).1 some
  | kept split none _ ih =>
    subst same
    cases two with
    | here => cases split
    | kept split' _ later =>
      cases split.symm.trans split'
      rw [ih later rfl]
    | matched split' some found _ => exact absurd found (apart none split' some)
  | @matched prev read text after _ found split some hit _ ih =>
    subst same
    cases two with
    | here => exact absurd (List.append_eq_nil_iff.mp split.symm).1 some
    | kept split' none _ => exact absurd hit (apart none split some)
    | @matched _ read' _ after' _ found' split' some' hit' later =>
      have near : read.length ≤ text.length := by
        rw [split,List.length_append]
        exact Nat.le_add_right _ _
      have sizes : read.length = read'.length := by
        have both : p.find prev (text ++ c :: rest') = .some read.length := by
          refine Pattern.find_within hit near fun place' other => ?_
          rw [hit'] at other
          cases other
          rw [split',List.length_append]
          exact Nat.le_add_right _ _
        exact Option.some.inj (both.symm.trans hit')
      obtain ⟨rfl,rfl⟩ := List.append_inj (split.symm.trans split') sizes
      rw [ih later rfl]

-- What the search does last, it does at the end of the text.
theorem Lands.last {p : Pattern} {prev : Option Char} {text rest : List Char} {found : List Piece}
    (lands : Lands p prev text rest found) {last : Piece} (ending : found.getLast? = some last) :
    ∃ before, text = before ++ last.render id := by
  induction lands with
  | here => cases ending
  | @kept prev c text after rest found split missed lands ih =>
    rw [List.getLast?_cons] at ending
    cases later : found.getLast? with
    | none =>
      rw [later] at ending
      cases ending
      obtain rfl := List.getLast?_eq_none_iff.mp later
      cases lands with
      | here => exact ⟨[],split⟩
    | some piece =>
      rw [later] at ending
      obtain ⟨before,same⟩ := ih (later.trans ending)
      exact ⟨c :: before,by rw [split,same]; rfl⟩
  | @matched prev read text after rest found split some hit lands ih =>
    rw [List.getLast?_cons] at ending
    cases later : found.getLast? with
    | none =>
      rw [later] at ending
      cases ending
      obtain rfl := List.getLast?_eq_none_iff.mp later
      cases lands with
      | here => exact ⟨[],by rw [split,List.append_nil]; rfl⟩
    | some piece =>
      rw [later] at ending
      obtain ⟨before,same⟩ := ih (later.trans ending)
      exact ⟨read ++ before,by rw [split,same,List.append_assoc]⟩

theorem Lands.trans {p : Pattern} {prev : Option Char} {text after rest : List Char}
    {found later : List Piece} (lands : Lands p prev text (after ++ rest) found)
    (onward : Lands p (lastOf prev text) after rest later) :
    Lands p prev (text ++ after) rest (found ++ later) := by
  generalize whole : after ++ rest = tail at lands
  induction lands with
  | here => exact onward
  | kept split none _ ih =>
    subst split whole
    rw [lastOf_cons] at onward
    refine .kept rfl ?_ (ih onward rfl)
    rwa [List.append_assoc]
  | matched split some hit _ ih =>
    subst split whole
    rw [lastOf_append] at onward
    refine .matched (List.append_assoc _ _ _) some ?_ (ih onward rfl)
    rwa [List.append_assoc]

-- Every search comes to a place in its text, or has a match that spans it.
theorem lands_or_spans (p : Pattern) (prev : Option Char) (text rest : List Char) :
    (∃ found, Lands p prev text rest found) ∨
    ∃ before after found more, text = before ++ after ∧ after ≠ [] ∧
    Lands p prev before (after ++ rest) found ∧
      p.find (lastOf prev before) (after ++ rest) = some more ∧ after.length < more := by
  induction long : text.length using Nat.strong_induction_on generalizing prev text with
  | _ count ih =>
    cases text with
    | nil => exact .inl ⟨[],.here⟩
    | cons c text =>
      by_cases hit : ∃ read, p.find prev (c :: text ++ rest) = some (read + 1)
      · obtain ⟨read,found⟩ := hit
        by_cases far : text.length < read
        · exact .inr ⟨[],c :: text,[],read + 1,rfl,List.cons_ne_nil _ _,.here,found,Nat.succ_lt_succ far⟩
        have size : ((c :: text).take (read + 1)).length = read + 1 := by
          rw [List.length_take,List.length_cons]
          omega
        have split : c :: text = (c :: text).take (read + 1) ++ (c :: text).drop (read + 1) :=
          (List.take_append_drop _ _).symm
        have some : (c :: text).take (read + 1) ≠ [] := by
          rw [List.take_succ_cons]
          exact List.cons_ne_nil _ _
        rw [← size] at found
        generalize (c :: text).take (read + 1) = match_ at split some found
        generalize (c :: text).drop (read + 1) = after at split
        have shorter : after.length < count := by
          rw [← long,split,List.length_append]
          have := List.length_pos_of_ne_nil some
          omega
        rcases ih after.length shorter (lastOf prev match_) after rfl with ⟨more,lands⟩ |
          ⟨before,last,more,far,rfl,rest',lands,spans⟩
        · exact .inl ⟨_,.matched split some found lands⟩
        · refine .inr ⟨match_ ++ before,last,_,far,by rw [split,List.append_assoc],rest',
            .matched rfl some ?_ lands,?_⟩
          · rw [split] at found
            simpa only [List.append_assoc] using found
          · rw [lastOf_append]
            exact spans
      · have none : ∀ read, p.find prev (c :: text ++ rest) ≠ some (read + 1) := fun read found =>
            hit ⟨read,found⟩
        rcases ih text.length (by rw [← long]; exact Nat.lt_succ_self _) (some c) text rfl with
          ⟨more,lands⟩ | ⟨before,last,more,far,rfl,rest',lands,spans⟩
        · exact .inl ⟨_,.kept rfl none lands⟩
        · refine .inr ⟨c :: before,last,_,far,rfl,rest',.kept rfl ?_ lands,?_⟩
          · simpa only [List.cons_append,List.append_assoc] using none
          · rw [lastOf_cons]
            exact spans

-- From a place that a search comes to it goes on to the next that it comes to.
theorem Lands.onward {p : Pattern} {prev : Option Char} {text after rest : List Char}
    {found early : List Piece} (first : Lands p prev text (after ++ rest) early)
    (second : Lands p prev (text ++ after) rest found) :
    ∃ later, Lands p (lastOf prev text) after rest later := by
  generalize whole : after ++ rest = tail at first
  induction first generalizing found with
  | here => exact ⟨found,second⟩
  | @kept prev c text more _ _ split none _ ih =>
    subst split whole
    rw [lastOf_cons]
    cases second with
    | kept split _ later =>
      cases split
      exact ih later rfl
    | matched _ some hit _ =>
      obtain ⟨more,size⟩ := Nat.exists_eq_succ_of_ne_zero fun empty =>
          some (List.eq_nil_of_length_eq_zero empty)
      rw [List.append_assoc,size] at hit
      exact absurd hit (none more)
  | @matched prev read text more _ _ split some hit _ ih =>
    subst split whole
    rw [lastOf_append]
    rw [List.append_assoc] at hit second
    generalize whole : read ++ (more ++ after) = text at second
    cases second with
    | here => exact absurd (List.append_eq_nil_iff.mp whole).1 some
    | kept _ none _ =>
      subst whole
      obtain ⟨more,size⟩ := Nat.exists_eq_succ_of_ne_zero fun empty =>
          some (List.eq_nil_of_length_eq_zero empty)
      rw [size] at hit
      refine absurd ?_ (none more)
      simpa only [List.append_assoc] using hit
    | @matched _ read' _ _ _ _ split _ hit' later =>
      subst whole
      have sizes : read.length = read'.length := by
        refine Option.some.inj (hit.symm.trans ?_)
        simpa only [List.append_assoc] using hit'
      obtain ⟨rfl,rfl⟩ := List.append_inj split sizes
      exact ih later rfl

-- So no match at the one reaches beyond the other.
theorem Lands.within {p : Pattern} {prev : Option Char} {text after rest : List Char}
    {found early : List Piece} {size : Nat} (first : Lands p prev text (after ++ rest) early)
    (second : Lands p prev (text ++ after) rest found) (some : after ≠ [])
    (hit : p.find (lastOf prev text) (after ++ rest) = .some size) : size ≤ after.length := by
  obtain ⟨later,lands⟩ := first.onward second
  cases lands with
  | here => exact absurd rfl some
  | kept _ none _ =>
    cases size with
    | zero => exact Nat.zero_le _
    | succ read => exact absurd hit (none read)
  | matched split _ found _ =>
    rw [Option.some.inj (hit.symm.trans found),split,List.length_append]
    exact Nat.le_add_right _ _

-- Where one search comes to, another comes as well when it has no match that spans the place.
theorem Lands.shared {p : Pattern} {prev : Option Char} {text : List Char} {c : Char}
    {rest rest' : List Char} {found : List Piece} (lands : Lands p prev text (c :: rest) found)
    (within : ∀ before after early size, text = before ++ after → after ≠ [] →
      Lands p prev before (after ++ c :: rest) early →
      p.find (lastOf prev before) (after ++ c :: rest') = some size → size ≤ after.length) :
    Lands p prev text (c :: rest') found := by
  generalize same : c :: rest = whole at lands within
  induction lands with
  | here => exact .here
  | kept split none _ ih =>
    subst split same
    refine .kept rfl (fun read found' =>
      none read ?_) (ih rfl fun before after early size split some lands hit => ?_)
    · have near := within [] _ [] _ rfl (List.cons_ne_nil _ _) .here found'
      refine Pattern.find_within found' near fun place other => ?_
      cases place with
      | zero => exact Nat.zero_le _
      | succ more => exact absurd other (none more)
    · subst split
      refine within (_ :: before) after _ size rfl some (.kept rfl ?_ lands) (by rwa [lastOf_cons])
      simpa only [List.cons_append,List.append_assoc] using none
  | @matched prev read text more _ _ split some hit _ ih =>
    subst split same
    have near : read.length ≤ (read ++ more).length := by
      rw [List.length_append]
      exact Nat.le_add_right _ _
    have long : read ++ more ≠ [] := fun none => some (List.append_eq_nil_iff.mp none).1
    refine .matched rfl some ?_ (ih rfl fun before after early size split some' lands found' => ?_)
    · exact Pattern.find_within hit near fun place other => within [] _ [] _ rfl long .here other
    · subst split
      refine within (read ++ before) after _ size (List.append_assoc _ _ _).symm some'
        (.matched rfl some ?_ lands) (by rwa [lastOf_append])
      simpa only [List.append_assoc] using hit

end Patterns
