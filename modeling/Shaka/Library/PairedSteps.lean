import Shaka.Library.CheckedSteps

namespace PairedSteps
open CheckedSteps

variable {ε α β γ δ σ τ κ ι : Type} {R : α → β → Prop} {Q : γ → δ → Prop}

-- Two runs of checked programs that end alike: both refused, for one reason, or both
-- with results that are related.
inductive Paired (R : α → β → Prop) : Except ε α → Except ε β → Prop
  | ok : R a b → Paired R (.ok a) (.ok b)
  | error : Paired R (.error e) (.error e)

-- Sequencing: what the first halves establish, the second halves start from.
theorem Paired.bind {x : Except ε γ} {y : Except ε δ} {f : γ → Except ε α} {g : δ → Except ε β}
    (first : Paired Q x y) (then_ : ∀ c d, x = .ok c → y = .ok d → Q c d → Paired R (f c) (g d)) :
    Paired R (x >>= f) (y >>= g) := by
  cases first with
  | ok related => exact then_ _ _ rfl rfl related
  | error => exact .error

-- Both sides make the same first step.
theorem Paired.same {x : Except ε γ} {f : γ → Except ε α} {g : γ → Except ε β}
    (then_ : ∀ c, x = .ok c → Paired R (f c) (g c)) : Paired R (x >>= f) (x >>= g) := by
  cases outcome : x with
  | error e => exact .error
  | ok c => exact then_ c outcome

-- Both sides check what is true of one exactly when it is true of the other.
theorem Paired.require {p q : Prop} [Decidable p] [Decidable q] {e : ε} {f : Unit → Except ε α}
    {g : Unit → Except ε β} (iff : p ↔ q) (then_ : p → Paired R (f ()) (g ())) :
    Paired R (CheckedSteps.require p e >>= f) (CheckedSteps.require q e >>= g) := by
  by_cases holds : p
  · rw [require_pos e holds,require_pos e (iff.mp holds)]
    exact then_ holds
  · rw [require_error.mpr ⟨holds,rfl⟩,require_error.mpr ⟨fun other => holds (iff.mpr other),rfl⟩]
    exact .error

-- Both sides read the same optional value.
theorem Paired.orFail {value other : Option γ} {e : ε} {f : γ → Except ε α} {g : γ → Except ε β}
    (equal : value = other) (then_ : ∀ c, value = some c → Paired R (f c) (g c)) :
    Paired R (CheckedSteps.orFail value e >>= f) (CheckedSteps.orFail other e >>= g) := by
  subst equal
  exact .same fun c found => then_ c (orFail_ok.mp found)

theorem Paired.checkEach {check other : κ → Except ε Unit} {items : List κ} {f : Unit → Except ε α}
    {g : Unit → Except ε β} (equal : ∀ item ∈ items, check item = other item)
    (then_ : Paired R (f ()) (g ())) :
    Paired R (CheckedSteps.checkEach check items >>= f) (CheckedSteps.checkEach other items >>= g) := by
  have same : CheckedSteps.checkEach check items = CheckedSteps.checkEach other items := by
    induction items with
    | nil => rfl
    | cons item rest ih =>
      rw [CheckedSteps.checkEach,CheckedSteps.checkEach,equal item List.mem_cons_self,
        ih fun item later => equal item (List.mem_cons_of_mem _ later)]
  rw [same]
  exact .same fun _ _ => then_

-- The answers and the states that two paired transactions leave.
def Ends (R : σ → τ → Prop) (left : α × σ) (right : α × τ) : Prop := left.1 = right.1 ∧ R left.2 right.2

theorem Paired.answers {S : σ → τ → Prop} {x : Except ε (α × σ)} {y : Except ε (α × τ)}
    (paired : Paired (Ends S) x y) : x.map (·.1) = y.map (·.1) := by
  cases paired with
  | ok ends => simp only [Except.map,ends.1]
  | error => rfl

theorem Paired.committed {S : σ → τ → Prop} {x : σ → Except ε (α × σ)} {y : τ → Except ε (α × τ)} {s : σ}
    {t : τ} (paired : Paired (Ends S) (x s) (y t)) (before : S s t) : S (commit x s).2 (commit y t).2 := by
  unfold commit
  revert paired
  cases x s with
  | error e =>
    intro paired
    generalize y t = right at paired
    cases paired
    exact before
  | ok left =>
    intro paired
    generalize y t = right at paired
    cases paired with
    | ok ends => exact ends.2

theorem Paired.answered {S : σ → τ → Prop} {x : σ → Except ε (α × σ)} {y : τ → Except ε (α × τ)} {s : σ}
    {t : τ} (paired : Paired (Ends S) (x s) (y t)) : (commit x s).1 = (commit y t).1 := by
  have answer : ∀ {ρ : Type} (z : ρ → Except ε (α × ρ)) (r : ρ), (commit z r).1 = (z r).map (·.1) := by
    intro ρ z r
    unfold commit
    cases z r <;> rfl
  rw [answer,answer]
  exact paired.answers

-- The answers to calls that are made one after the other, and what they leave.
def answers (run : ι → σ → Except ε (α × σ)) : σ → List ι → List (Except ε α)
  | _,[] => []
  | s,call :: rest => (commit (run call) s).1 :: answers run (commit (run call) s).2 rest

def stateAfter (run : ι → σ → Except ε (α × σ)) (s : σ) (calls : List ι) : σ :=
  calls.foldl (fun s call => (commit (run call) s).2) s

theorem stateAfter_append (run : ι → σ → Except ε (α × σ)) (s : σ) (calls : List ι) (call : ι) :
    stateAfter run s (calls ++ [call]) = (commit (run call) (stateAfter run s calls)).2 := by
  simp only [stateAfter,List.foldl_append,List.foldl_cons,List.foldl_nil]

-- A machine whose calls are those of another, from related states, answers like it.
theorem calls_paired {S : σ → τ → Prop} {run : ι → σ → Except ε (α × σ)} {other : ι → τ → Except ε (α × τ)}
    {calls : List ι} {s : σ} {t : τ}
    (each : ∀ call ∈ calls, ∀ s t, S s t → Paired (Ends S) (run call s) (other call t)) (before : S s t) :
    answers run s calls = answers other t calls ∧ S (stateAfter run s calls) (stateAfter other t calls) := by
  induction calls generalizing s t with
  | nil => exact ⟨rfl,before⟩
  | cons call rest ih =>
    have first := each call List.mem_cons_self s t before
    obtain ⟨same,last⟩ := ih (fun call later => each call (List.mem_cons_of_mem _ later))
        (first.committed before)
    exact ⟨by rw [answers,answers,first.answered,same],last⟩

end PairedSteps
