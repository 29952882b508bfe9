import Mathlib.Data.List.Forall2
import Mathlib.Data.List.Induction

namespace HashChain

-- Entries that each carry a digest of themselves and the digest of the entry
-- before them. `intact` is what else is checked of an entry on its own.
structure Discipline (ε γ : Type) where
  previous : ε → Option γ
  digest : ε → γ
  intact : ε → Prop

variable {ε γ : Type} {discipline : Discipline ε γ}

def Linked (discipline : Discipline ε γ) : Option γ → List ε → Prop
  | _,[] => True
  | last,entry :: rest => discipline.previous entry = last ∧ discipline.intact entry ∧
      Linked discipline (some (discipline.digest entry)) rest

-- The digest that the entry after these ones has to carry.
def lastDigest (discipline : Discipline ε γ) (last : Option γ) (entries : List ε) : Option γ :=
  (entries.getLast?.map discipline.digest).or last

theorem lastDigest_cons {last : Option γ} {entry : ε} {rest : List ε} :
    lastDigest discipline last (entry :: rest) = lastDigest discipline (some (discipline.digest entry))
      rest := by
  cases rest with
  | nil => rfl
  | cons second later =>
    unfold lastDigest
    rw [List.getLast?_cons_cons]
    cases tail : (second :: later).getLast? with
    | none => simp at tail
    | some final => rfl

theorem lastDigest_snoc {last : Option γ} {entry : ε} {entries : List ε} :
    lastDigest discipline last (entries ++ [entry]) = some (discipline.digest entry) := by
  simp [lastDigest]

theorem linked_snoc {last : Option γ} {entry : ε} {entries : List ε} :
    Linked discipline last (entries ++ [entry]) ↔ Linked discipline last entries ∧
      discipline.previous entry = lastDigest discipline last entries ∧ discipline.intact entry := by
  induction entries generalizing last with
  | nil => simp [Linked,lastDigest]
  | cons first rest ih => simp only [List.cons_append,Linked,ih,lastDigest_cons,and_assoc]

theorem Linked.intact {last : Option γ} {entries : List ε} (linked : Linked discipline last entries) :
    ∀ entry ∈ entries, discipline.intact entry := by
  induction entries generalizing last with
  | nil => simp
  | cons first rest ih => simpa using ⟨linked.2.1,ih linked.2.2⟩

-- Every link leads to an entry of the chain, or to what the chain starts from.
theorem Linked.source {last : Option γ} {entries : List ε} (linked : Linked discipline last entries)
    {entry : ε} (present : entry ∈ entries) : discipline.previous entry = last ∨
      ∃ other ∈ entries, discipline.previous entry = some (discipline.digest other) := by
  induction entries generalizing last with
  | nil => cases present
  | cons first rest ih =>
    rcases List.mem_cons.mp present with rfl | later
    · exact Or.inl linked.1
    · refine Or.inr ?_
      rcases ih linked.2.2 later with earlier | ⟨other,listed,link⟩
      · exact ⟨first,List.mem_cons_self,earlier⟩
      · exact ⟨other,List.mem_cons_of_mem _ listed,link⟩

-- The last digest commits to the chain: if equal digests tie entries together and
-- come from equal links, chains of one length with one last digest are tied throughout.
theorem committed {last : Option γ} {tied : ε → ε → Prop} {entries others : List ε}
    (linked : Linked discipline last entries) (linked' : Linked discipline last others)
    (binding : ∀ entry ∈ entries, ∀ other ∈ others, discipline.digest entry = discipline.digest other →
      tied entry other ∧ discipline.previous entry = discipline.previous other)
    (length : entries.length = others.length)
    (same : lastDigest discipline last entries = lastDigest discipline last others) :
    List.Forall₂ tied entries others := by
  induction entries using List.reverseRecOn generalizing others with
  | nil =>
    obtain rfl := List.length_eq_zero_iff.mp length.symm
    exact .nil
  | append_singleton front entry ih =>
    -- the last entries are tied by the last digest, and their links by the tie
    obtain ⟨front',other,rfl⟩ := List.eq_nil_or_concat others |>.resolve_left (by rintro rfl; simp at length)
    obtain ⟨before,link,_⟩ := linked_snoc.mp linked
    rw [List.concat_eq_append] at linked' length same binding ⊢
    obtain ⟨before',link',_⟩ := linked_snoc.mp linked'
    rw [lastDigest_snoc,lastDigest_snoc,Option.some.injEq] at same
    obtain ⟨tie,links⟩ := binding entry (by simp) other (by simp) same
    refine List.rel_append (ih before before' ?_ (by simpa using length)
      (link.symm.trans (links.trans link'))) (.cons tie .nil)
    intro one listed two listed'
    exact binding one (List.mem_append_left _ listed) two (List.mem_append_left _ listed')

end HashChain
