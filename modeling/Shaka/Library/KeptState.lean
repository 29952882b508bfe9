import Mathlib.Data.List.Basic

namespace KeptState

variable {σ ε ε' α β ι : Type}

-- A program whose state outlives its failures: what was done before an error stays done.
def Program (σ ε α : Type) := σ → Except ε α × σ

instance : Monad (Program σ ε) where
  pure a := fun s => (.ok a,s)
  bind p f := fun s => match p s with
    | (.ok a,s') => f a s'
    | (.error e,s') => (.error e,s')

def fail (e : ε) : Program σ ε α := fun s => (.error e,s)

def update (f : σ → σ) : Program σ ε Unit := fun s => (.ok (),f s)

def observe (f : σ → α) : Program σ ε α := fun s => (.ok (f s),s)

-- A check that reads the state no further.
def given (x : Except ε α) : Program σ ε α := fun s => (x,s)

-- `if let Err(_) = program { .. }`: the failure is left behind.
def attempt (p : Program σ ε α) : Program σ ε' Unit := fun s => (.ok (),(p s).2)

def reword (f : ε → ε') (p : Program σ ε α) : Program σ ε' α := fun s => ((p s).1.mapError f,(p s).2)

-- The loop `for item in items { results.push(step(item)?) }`.
def collect (step : ι → Program σ ε α) : List ι → Program σ ε (List α)
  | [] => pure []
  | item :: rest => do
    let first ← step item
    let others ← collect step rest
    pure (first :: others)

theorem bind_ran {p : Program σ ε α} {f : α → Program σ ε β} {b : β} {s s' : σ} :
    (p >>= f) s = (.ok b,s') ↔ ∃ a middle, p s = (.ok a,middle) ∧ f a middle = (.ok b,s') := by
  change (match p s with | (.ok a,s') => f a s' | (.error e,s') => (.error e,s')) = _ ↔ _
  cases p s with
  | mk answer middle =>
    cases answer with
    | error e => simp
    | ok a => simp

theorem bind_of_ok {p : Program σ ε α} {f : α → Program σ ε β} {a : α} {s s' : σ} (ran : p s = (.ok a,s')) :
    (p >>= f) s = f a s' := by
  change (match p s with | (.ok a,s') => f a s' | (.error e,s') => (.error e,s')) = _
  rw [ran]

theorem bind_of_error {p : Program σ ε α} {f : α → Program σ ε β} {e : ε} {s s' : σ}
    (ran : p s = (.error e,s')) : (p >>= f) s = (.error e,s') := by
  change (match p s with | (.ok a,s') => f a s' | (.error e,s') => (.error e,s')) = _
  rw [ran]

theorem bind_given {x : Except ε α} {f : α → Program σ ε β} {s : σ} :
    (given x >>= f) s = match x with | .ok a => f a s | .error e => (.error e,s) := by
  cases x with
  | error e => rfl
  | ok a => rfl

theorem bind_assoc {γ : Type} {p : Program σ ε α} {f : α → Program σ ε β} {h : β → Program σ ε γ} :
    ((p >>= f) >>= h) = p >>= fun a => f a >>= h := by
  funext s
  change (match (match p s with | (.ok a,s') => f a s' | (.error e,s') => (.error e,s')) with
    | (.ok b,s') => h b s' | (.error e,s') => (.error e,s')) =
    match p s with
    | (.ok a,s') => (match f a s' with | (.ok b,s') => h b s' | (.error e,s') => (.error e,s'))
    | (.error e,s') => (.error e,s')
  cases p s with
  | mk answer middle =>
    cases answer with
    | error e => rfl
    | ok a => rfl

theorem given_ran {x : Except ε α} {a : α} {s s' : σ} :
    (given x : Program σ ε α) s = (.ok a,s') ↔ x = .ok a ∧ s' = s := by
  simp only [given,Prod.mk.injEq,eq_comm (a := s)]

theorem observe_ran {f : σ → α} {a : α} {s s' : σ} : (observe f : Program σ ε α) s = (.ok a,s') ↔ a = f s ∧
    s' = s := by
  simp only [observe,Prod.mk.injEq,Except.ok.injEq,eq_comm]

theorem update_ran {f : σ → σ} {u : Unit} {s s' : σ} : (update f : Program σ ε Unit) s = (.ok u,s') ↔
    s' = f s := by
  simp only [update,Prod.mk.injEq,eq_comm,true_and]

-- A program that changes nothing before it fails.
def Clean (p : Program σ ε α) : Prop := ∀ s e, (p s).1 = .error e → (p s).2 = s

theorem clean_given {x : Except ε α} {f : α → Program σ ε β} (rest : ∀ a, Clean (f a)) :
    Clean (given x >>= f) := by
  intro s e failed
  rw [bind_given] at failed ⊢
  cases x with
  | error _ => rfl
  | ok a => exact rest a s e failed

theorem clean_observe {g : σ → α} {f : α → Program σ ε β} (rest : ∀ a, Clean (f a)) :
    Clean (observe g >>= f) :=
  fun s e failed => rest (g s) s e failed

theorem clean_pure {p : Program σ ε α} (f : α → β) (clean : Clean p) : Clean (p >>= fun a => pure (f a)) := by
  intro s e failed
  have first := clean s
  change (match p s with | (.ok a,s') => (pure (f a) : Program σ ε β) s' | (.error e,s') => (.error e,s')).1 = _ at failed
  change (match p s with | (.ok a,s') => (pure (f a) : Program σ ε β) s' | (.error e,s') => (.error e,s')).2 = _
  cases ran : p s with
  | mk answer middle =>
    rw [ran] at failed first
    cases answer with
    | ok a => cases failed
    | error e' => exact first e' rfl

-- What holds of the state where a check fails, and of all that its answers lead to.
theorem holds_given {motive : σ → Prop} {x : Except ε α} {f : α → Program σ ε β} {s : σ} (stopped : motive s)
    (rest : ∀ a, x = .ok a → motive (f a s).2) : motive ((given x >>= f) s).2 := by
  rw [bind_given]
  cases x with
  | error _ => exact stopped
  | ok a => exact rest a rfl

theorem holds_pure {motive : σ → Prop} {p : Program σ ε α} (f : α → β) {s : σ} (holds : motive (p s).2) :
    motive ((p >>= fun a => pure (f a)) s).2 := by
  change motive (match p s with | (.ok a,s') => (pure (f a) : Program σ ε β) s' | (.error e,s') => (.error e,s')).2
  cases ran : p s with
  | mk answer middle =>
    rw [ran] at holds
    cases answer with
    | ok a => exact holds
    | error e => exact holds

-- A last change does not fail.
theorem clean_last {g : σ → σ} {a : α} : Clean (do update g; pure a : Program σ ε α) := by
  intro s e failed
  cases failed

-- A program keeps a property of the state however it ends.
def Keeps (motive : σ → Prop) (p : Program σ ε α) : Prop := ∀ s, motive s → motive (p s).2

variable {motive : σ → Prop}

theorem keeps_pure (a : α) : Keeps motive (pure a : Program σ ε α) := fun _ holds => holds

theorem keeps_fail (e : ε) : Keeps motive (fail e : Program σ ε α) := fun _ holds => holds

theorem keeps_given (x : Except ε α) : Keeps motive (given x) := fun _ holds => holds

theorem keeps_observe (f : σ → α) : Keeps motive (observe f : Program σ ε α) := fun _ holds => holds

theorem keeps_update {f : σ → σ} (kept : ∀ s, motive s → motive (f s)) : Keeps motive
    (update f : Program σ ε Unit) := kept

-- The second part runs only where the first has answered.
theorem keeps_bind_of {p : Program σ ε α} {f : α → Program σ ε β} (one : Keeps motive p)
    (two : ∀ a s s', motive s → p s = (.ok a,s') → motive s' → motive (f a s').2) :
    Keeps motive (p >>= f) := by
  intro s holds
  have first := one s holds
  change motive (match p s with | (.ok a,s') => f a s' | (.error e,s') => (.error e,s')).2
  cases ran : p s with
  | mk answer middle =>
    rw [ran] at first
    cases answer with
    | error e => exact first
    | ok a => exact two a s middle holds ran first

theorem keeps_bind {p : Program σ ε α} {f : α → Program σ ε β} (one : Keeps motive p)
    (two : ∀ a, Keeps motive (f a)) : Keeps motive (p >>= f) :=
  keeps_bind_of one fun a _ s' _ _ holds => two a s' holds

theorem keeps_attempt {p : Program σ ε α} (kept : Keeps motive p) : Keeps motive
    (attempt p : Program σ ε' Unit) := kept

theorem keeps_reword {p : Program σ ε α} {f : ε → ε'} (kept : Keeps motive p) :
    Keeps motive (reword f p) := kept

-- What a pair of programs leads to, by where the first one ends.
theorem bind_ends {p : Program σ ε α} {f : α → Program σ ε β} {s : σ} {motive : Except ε β × σ → Prop}
    (failed : ∀ e s', p s = (.error e,s') → motive (.error e,s'))
    (rest : ∀ a s', p s = (.ok a,s') → motive (f a s')) :
    motive ((p >>= f) s) := by
  change motive (match p s with | (.ok a,s') => f a s' | (.error e,s') => (.error e,s'))
  cases ran : p s with
  | mk answer middle =>
    cases answer with
    | error e => exact failed e middle ran
    | ok a => exact rest a middle ran

-- A loop over items adds at most what its steps add.
theorem collect_rises {measure : σ → Nat} {step : ι → Program σ ε α}
    (rises : ∀ item s, measure (step item s).2 ≤ measure s + 1) (items : List ι) (s : σ) :
    measure (collect step items s).2 ≤ measure s + items.length := by
  induction items generalizing s with
  | nil => exact Nat.le_refl _
  | cons item rest ih =>
    have first := rises item s
    rw [List.length_cons]
    apply @bind_ends _ _ _ _ (step item) _ s fun after => measure after.2 ≤ measure s + (rest.length + 1)
    · intro e s' ran
      rw [ran] at first
      exact Nat.le_trans first (by omega)
    intro a s' ran
    rw [ran] at first
    change measure s' ≤ measure s + 1 at first
    have later := ih s'
    apply @bind_ends _ _ _ _ (collect step rest) _ s' fun after =>
      measure after.2 ≤ measure s + (rest.length + 1)
    · intro e s'' ran
      rw [ran] at later
      exact Nat.le_trans later (by omega)
    · intro others s'' ran
      rw [ran] at later
      exact Nat.le_trans later (by omega)

-- `loop { .. }`, run to its end: the body leaves the loop with a value, or goes round with the
-- next values of its variables. Nothing bounds the rounds.
inductive Loops (body : α → Program σ ε (β ⊕ α)) : α → σ → Except ε β × σ → Prop where
  | failed {a : α} {s s' : σ} {e : ε} : body a s = (.error e,s') → Loops body a s (.error e,s')
  | left {a : α} {s s' : σ} {b : β} : body a s = (.ok (.inl b),s') → Loops body a s (.ok b,s')
  | again {a next : α} {s s' : σ} {r : Except ε β × σ} :
      body a s = (.ok (.inr next),s') → Loops body next s' r → Loops body a s r

-- The end of a loop is the only one.
theorem Loops.unique {body : α → Program σ ε (β ⊕ α)} {a : α} {s : σ} {r r' : Except ε β × σ}
    (one : Loops body a s r) (two : Loops body a s r') : r = r' := by
  induction one with
  | failed ran =>
    cases two with
    | failed ran' => cases ran.symm.trans ran'; rfl
    | left ran' => cases ran.symm.trans ran'
    | again ran' => cases ran.symm.trans ran'
  | left ran =>
    cases two with
    | failed ran' => cases ran.symm.trans ran'
    | left ran' => cases ran.symm.trans ran'; rfl
    | again ran' => cases ran.symm.trans ran'
  | again ran _ ih =>
    cases two with
    | failed ran' => cases ran.symm.trans ran'
    | left ran' => cases ran.symm.trans ran'
    | again ran' later =>
      cases ran.symm.trans ran'
      exact ih later

-- What a round keeps holds of every round, and so of the end.
theorem Loops.invariant {body : α → Program σ ε (β ⊕ α)} {holds : α → σ → Prop} {post : Except ε β × σ → Prop}
    (failed : ∀ a s e s', holds a s → body a s = (.error e,s') → post (.error e,s'))
    (left : ∀ a s b s', holds a s → body a s = (.ok (.inl b),s') → post (.ok b,s'))
    (again : ∀ a s next s', holds a s → body a s = (.ok (.inr next),s') → holds next s')
    {a : α} {s : σ} {r : Except ε β × σ} (loops : Loops body a s r) (start : holds a s) : post r := by
  induction loops with
  | failed ran => exact failed _ _ _ _ start ran
  | left ran => exact left _ _ _ _ start ran
  | again ran _ ih => exact ih (again _ _ _ _ start ran)

theorem keeps_collect {step : ι → Program σ ε α} (kept : ∀ item, Keeps motive (step item)) (items : List ι) :
    Keeps motive (collect step items) := by
  induction items with
  | nil => exact keeps_pure []
  | cons item rest ih => exact keeps_bind (kept item) fun _ => keeps_bind ih fun _ => keeps_pure _

end KeptState
