import Mathlib.Data.Nat.Basic
import Mathlib.Data.Int.Order.Basic
import Mathlib.Algebra.Order.Ring.Nat
import Mathlib.Order.Compare

namespace OrderedText

variable {α : Type} {cmp : α → α → Ordering}

-- Texts that begin with parts of one length are compared part by part.
theorem compare_append {p q : List α} (long : p.length = q.length) (r s : List α) :
    List.compareLex cmp (p ++ r) (q ++ s) = (List.compareLex cmp p q).then (List.compareLex cmp r s) := by
  induction p generalizing q with
  | nil =>
    obtain rfl := List.eq_nil_of_length_eq_zero long.symm
    rfl
  | cons c p ih =>
    cases q with
    | nil => cases long
    | cons d q =>
      rw [List.cons_append,List.cons_append,List.compareLex_cons_cons,List.compareLex_cons_cons,
        ih (Nat.succ.inj long),Ordering.then_assoc]

theorem compare_cons [Std.ReflCmp cmp] (c : α) (r s : List α) :
    List.compareLex cmp (c :: r) (c :: s) = List.compareLex cmp r s := by
  have same : cmp c c = .eq := Std.ReflCmp.compare_self
  rw [List.compareLex_cons_cons,same]
  rfl

theorem compare_self [Std.ReflCmp cmp] (text : List α) : List.compareLex cmp text text = .eq := by
  induction text with
  | nil => rfl
  | cons c text ih => rw [compare_cons,ih]

theorem compare_map {β : Type} (f : β → α) (r s : List β) :
    List.compareLex cmp (r.map f) (s.map f) = List.compareLex (fun c d => cmp (f c) (f d)) r s := by
  induction r generalizing s with
  | nil =>
    cases s with
    | nil => rfl
    | cons d s => rfl
  | cons c r ih =>
    cases s with
    | nil => rfl
    | cons d s => rw [List.map_cons,List.map_cons,List.compareLex_cons_cons,List.compareLex_cons_cons,ih]

-- Two pairs that stand in the same order are compared alike.
theorem compare_alike {β γ : Type} [LinearOrder β] [LinearOrder γ] {a b : β} {c d : γ}
    (less : a < b ↔ c < d) (more : b < a ↔ d < c) : compare a b = compare c d := by
  rcases lt_trichotomy c d with below | same | above
  · rw [compare_lt_iff_lt.mpr below,compare_lt_iff_lt.mpr (less.mpr below)]
  · have equal : a = b := le_antisymm (not_lt.mp fun above => lt_irrefl d (same ▸ more.mp above))
      (not_lt.mp fun below => lt_irrefl d (same ▸ less.mp below))
    rw [compare_eq_iff_eq.mpr same,compare_eq_iff_eq.mpr equal]
  · rw [compare_gt_iff_gt.mpr above,compare_gt_iff_gt.mpr (more.mpr above)]

-- What is made up of two parts is compared by the first, and then by the second.
theorem compare_parts {β γ δ : Type} [LinearOrder β] [LinearOrder γ] [LinearOrder δ] {a b : β} {c d : γ}
    {e f : δ} (less : c < d → a < b) (more : d < c → b < a)
    (same : c = d → ((a < b ↔ e < f) ∧ (b < a ↔ f < e))) :
    compare a b = (compare c d).then (compare e f) := by
  rcases lt_trichotomy c d with below | equal | above
  · rw [compare_lt_iff_lt.mpr below,compare_lt_iff_lt.mpr (less below)]
    rfl
  · obtain ⟨forward,backward⟩ := same equal
    rw [compare_eq_iff_eq.mpr equal,compare_alike forward backward]
    rfl
  · rw [compare_gt_iff_gt.mpr above,compare_gt_iff_gt.mpr (more above)]
    rfl

-- A number is compared by its quotient, and then by its remainder.
theorem compare_div (base a b : Nat) :
    compare a b = (compare (a / base) (b / base)).then (compare (a % base) (b % base)) := by
  have order : ∀ x y : Nat, x / base < y / base → x < y := fun x y less => Nat.lt_of_div_lt_div less
  refine compare_parts (order a b) (order b a) fun same => ?_
  have whole := Nat.div_add_mod a base
  have whole' := Nat.div_add_mod b base
  rw [same] at whole
  omega

theorem compare_ediv {base : Int} (some : 0 < base) (a b : Int) :
    compare a b = (compare (a / base) (b / base)).then (compare (a % base) (b % base)) := by
  have order : ∀ x y : Int, x / base < y / base → x < y := fun x y less =>
    Int.lt_of_not_ge fun le => absurd (Int.ediv_le_ediv some le) (Int.not_le.mpr less)
  refine compare_parts (order a b) (order b a) fun same => ?_
  have whole := Int.mul_ediv_add_emod a base
  have whole' := Int.mul_ediv_add_emod b base
  rw [same] at whole
  omega

-- A numeral of fixed width, with leading zeros.
def digits (digit : Nat → α) (base : Nat) : Nat → Nat → List α
  | 0,_ => []
  | width + 1,number => digits digit base width (number / base) ++ [digit (number % base)]

section Digits
variable {digit : Nat → α} {base : Nat}

@[simp] theorem digits_length (width number : Nat) : (digits digit base width number).length = width := by
  induction width generalizing number with
  | zero => rfl
  | succ width ih => rw [digits,List.length_append,ih,List.length_singleton]

theorem mem_digits {width number : Nat} {c : α} (written : c ∈ digits digit base width number)
    (some : 0 < base) : ∃ value < base, c = digit value := by
  induction width generalizing number with
  | zero => cases written
  | succ width ih =>
    rcases List.mem_append.mp written with early | last
    · exact ih early
    · exact ⟨number % base,Nat.mod_lt _ some,List.mem_singleton.mp last⟩

-- The last digits of a numeral are the numeral of the remainder.
theorem digits_mod (width number : Nat) :
    digits digit base width (number % base ^ width) = digits digit base width number := by
  induction width generalizing number with
  | zero => rfl
  | succ width ih =>
    have high : number % base ^ (width + 1) / base = number / base % base ^ width := by
      rw [Nat.pow_succ',Nat.mod_mul_right_div_self]
    have last : number % base ^ (width + 1) % base = number % base :=
      Nat.mod_mod_of_dvd number (Nat.dvd_mul_left base (base ^ width))
    rw [digits,digits,high,last,ih]

theorem digits_append (width short number : Nat) : digits digit base (width + short) number =
    digits digit base width (number / base ^ short) ++ digits digit base short number := by
  induction short generalizing number with
  | zero =>
    rw [Nat.pow_zero,Nat.div_one]
    exact (List.append_nil _).symm
  | succ short ih =>
    rw [← Nat.add_assoc,digits,ih,digits,Nat.div_div_eq_div_mul,← Nat.pow_succ',List.append_assoc]

variable (rising : ∀ i < base, ∀ j < base, cmp (digit i) (digit j) = compare i j)
include rising

-- Numerals of one width are in the order of the numbers.
theorem digits_compare {width a b : Nat} (small : a < base ^ width) (small' : b < base ^ width) :
    List.compareLex cmp (digits digit base width a) (digits digit base width b) = compare a b := by
  induction width generalizing a b with
  | zero =>
    have zero : a = 0 := Nat.lt_one_iff.mp small
    have zero' : b = 0 := Nat.lt_one_iff.mp small'
    rw [zero,zero']
    rfl
  | succ width ih =>
    have some : 0 < base := Nat.pos_of_ne_zero fun none => by simp [none] at small
    have high : a / base < base ^ width := Nat.div_lt_of_lt_mul (by rwa [Nat.pow_succ'] at small)
    have high' : b / base < base ^ width := Nat.div_lt_of_lt_mul (by rwa [Nat.pow_succ'] at small')
    rw [digits,digits,compare_append (by simp),ih high high',List.compareLex_cons_cons,
      rising _ (Nat.mod_lt _ some) _ (Nat.mod_lt _ some),compare_div base a b,List.compareLex_nil_nil,
      Ordering.then_eq]

end Digits

-- A sequence of numbers without the zeros at its end.
def trimmed : List Nat → List Nat
  | [] => []
  | number :: rest => if number = 0 ∧ trimmed rest = [] then [] else number :: trimmed rest

theorem mem_trimmed {numbers : List Nat} {number : Nat} (left : number ∈ trimmed numbers) :
    number ∈ numbers := by
  induction numbers with
  | nil => cases left
  | cons first rest ih =>
    rw [trimmed] at left
    split at left
    · cases left
    · exact List.mem_cons.mpr ((List.mem_cons.mp left).imp_right ih)

-- What is left of two sequences of one length stands in the order of the sequences.
theorem compare_trimmed {xs ys : List Nat} (long : xs.length = ys.length) :
    List.compareLex compare (trimmed xs) (trimmed ys) = List.compareLex compare xs ys := by
  induction xs generalizing ys with
  | nil =>
    obtain rfl := List.eq_nil_of_length_eq_zero long.symm
    rfl
  | cons x xs ih =>
    cases ys with
    | nil => cases long
    | cons y ys =>
      have later := ih (Nat.succ.inj long)
      rw [trimmed,trimmed,List.compareLex_cons_cons,← later]
      split
      · next ended =>
        obtain ⟨rfl,none⟩ := ended
        split
        · next ended' =>
          obtain ⟨rfl,none'⟩ := ended'
          rw [none,none']
          rfl
        · next more =>
          rw [none]
          rcases Nat.eq_zero_or_pos y with rfl | some
          · obtain ⟨z,zs,rest⟩ := List.exists_cons_of_ne_nil fun none' => more ⟨rfl,none'⟩
            rw [rest]
            rfl
          · rw [compare_lt_iff_lt.mpr some]
            rfl
      · next more =>
        split
        · next ended' =>
          obtain ⟨rfl,none'⟩ := ended'
          rw [none']
          rcases Nat.eq_zero_or_pos x with rfl | some
          · obtain ⟨z,zs,rest⟩ := List.exists_cons_of_ne_nil fun none => more ⟨rfl,none⟩
            rw [rest]
            rfl
          · rw [compare_gt_iff_gt.mpr some]
            rfl
        · rw [List.compareLex_cons_cons]

-- Words of one length, up to a symbol that comes before all that they begin with, are compared as
-- the list of what they stand for.
theorem compare_words [Std.ReflCmp cmp] {β : Type} {code : β → List α} {order : β → β → Ordering}
    {stop : α} {tail : List α}
    {gs hs : List β} (long : ∀ g ∈ gs, ∀ h ∈ hs, (code g).length = (code h).length)
    (kept : ∀ g ∈ gs, ∀ h ∈ hs, List.compareLex cmp (code g) (code h) = order g h)
    (after : ∀ g, g ∈ gs ∨ g ∈ hs → ∃ c rest, code g = c :: rest ∧ cmp stop c = .lt ∧ cmp c stop = .gt) :
    List.compareLex cmp (gs.flatMap code ++ stop :: tail) (hs.flatMap code ++ stop :: tail) =
      List.compareLex order gs hs := by
  induction gs generalizing hs with
  | nil =>
    cases hs with
    | nil => exact compare_self _
    | cons h hs =>
      obtain ⟨c,rest,begins,before,_⟩ := after h (.inr List.mem_cons_self)
      rw [List.flatMap_cons,begins,List.cons_append,List.cons_append,List.flatMap_nil,List.nil_append,
        List.compareLex_cons_cons,before]
      rfl
  | cons g gs ih =>
    cases hs with
    | nil =>
      obtain ⟨c,rest,begins,_,behind⟩ := after g (.inl List.mem_cons_self)
      rw [List.flatMap_cons,begins,List.cons_append,List.cons_append,List.flatMap_nil,List.nil_append,
        List.compareLex_cons_cons,behind]
      rfl
    | cons h hs =>
      have later := @ih hs (fun g listed h listed' =>
        long g (List.mem_cons_of_mem _ listed) h (List.mem_cons_of_mem _ listed'))
        (fun g listed h listed' => kept g (List.mem_cons_of_mem _ listed) h (List.mem_cons_of_mem _ listed'))
        (fun g listed => after g (listed.imp (List.mem_cons_of_mem _) (List.mem_cons_of_mem _)))
      rw [List.flatMap_cons,List.flatMap_cons,List.append_assoc,List.append_assoc,
        compare_append (long g List.mem_cons_self h List.mem_cons_self),
        kept g List.mem_cons_self h List.mem_cons_self,later,
        List.compareLex_cons_cons]

end OrderedText
