import Mathlib.Data.List.Basic

namespace CheckedSteps

variable {ε α β σ τ : Type}

-- A guard of a checked program: the error is the one reported when `p` fails.
def require (p : Prop) [Decidable p] (e : ε) : Except ε Unit :=
  if p then .ok () else .error e

theorem bind_ok {x : Except ε α} {f : α → Except ε β} :
    (x >>= f) = .ok b ↔ ∃ a, x = .ok a ∧ f a = .ok b := by
  cases x with
  | error e => simp [bind,Except.bind]
  | ok a => simp [bind,Except.bind]

-- A sequence succeeds when its second part does on the answer of the first.
theorem bind_done {x : Except ε α} {f : α → Except ε β} {a : α} (first : x = .ok a)
    (rest : ∃ b, f a = .ok b) : ∃ b, (x >>= f) = .ok b := by
  obtain ⟨b,second⟩ := rest
  exact ⟨b,bind_ok.mpr ⟨a,first,second⟩⟩

theorem bind_error {x : Except ε α} {f : α → Except ε β} :
    (x >>= f) = .error e ↔ x = .error e ∨ ∃ a, x = .ok a ∧ f a = .error e := by
  cases x with
  | error e' => simp [bind,Except.bind]
  | ok a => simp [bind,Except.bind]

-- An error that neither part of a program reports is not reported by the whole.
theorem spares_bind {x : Except ε α} {f : α → Except ε β} (one : x ≠ .error e)
    (two : ∀ a, x = .ok a → f a ≠ .error e) : (x >>= f) ≠ .error e := by
  intro failed
  rcases bind_error.mp failed with early | ⟨a,ran,late⟩
  · exact one early
  · exact two a ran late

@[simp] theorem pure_ok {a b : α} : (pure a : Except ε α) = .ok b ↔ a = b := by
  simp [pure,Except.pure]

@[simp] theorem pure_error {a : α} : (pure a : Except ε α) = .error e ↔ False := by
  simp [pure,Except.pure]

@[simp] theorem ok_bind {a : α} {f : α → Except ε β} : (Except.ok a >>= f) = f a := rfl

@[simp] theorem error_bind {f : α → Except ε β} : ((Except.error e : Except ε α) >>= f) = .error e := rfl

@[simp] theorem require_ok {p : Prop} [Decidable p] {e : ε} {u : Unit} :
    require p e = .ok u ↔ p := by
  unfold require
  split <;> simp_all

@[simp] theorem require_error {p : Prop} [Decidable p] {e e' : ε} :
    require p e = .error e' ↔ ¬ p ∧ e = e' := by
  unfold require
  split <;> simp_all

theorem require_pos {p : Prop} [Decidable p] (e : ε) (holds : p) : require p e = .ok () := by
  simp [require,holds]

-- `option.ok_or(error)?`
def orFail (value : Option α) (e : ε) : Except ε α :=
  match value with
  | some a => .ok a
  | none => .error e

@[simp] theorem orFail_ok {value : Option α} {e : ε} {a : α} : orFail value e = .ok a ↔ value = some a := by
  cases value <;> simp [orFail]

@[simp] theorem orFail_error {value : Option α} {e e' : ε} :
    orFail value e = .error e' ↔ value = none ∧ e = e' := by
  cases value <;> simp [orFail]

@[simp] theorem mapError_ok {ε' : Type} {f : ε → ε'} {x : Except ε α} {a : α} :
    x.mapError f = .ok a ↔ x = .ok a := by
  cases x <;> simp [Except.mapError]

@[simp] theorem mapError_error {ε' : Type} {f : ε → ε'} {x : Except ε α} {e' : ε'} :
    x.mapError f = .error e' ↔ ∃ e, x = .error e ∧ f e = e' := by
  cases x <;> simp [Except.mapError]

theorem toOption_ok {x : Except ε α} {a : α} (evaluated : x.toOption = some a) : x = .ok a := by
  cases x with
  | error e => cases evaluated
  | ok b =>
    cases evaluated
    rfl

-- `if condition { action?; }` on a threaded state
def stepIf (condition : Prop) [Decidable condition] (action : Except ε σ) (s : σ) : Except ε σ :=
  if condition then action else .ok s

theorem stepIf_ok {condition : Prop} [Decidable condition] {action : Except ε σ} {s s' : σ} :
    stepIf condition action s = .ok s' ↔ (condition ∧ action = .ok s') ∨ (¬ condition ∧ s = s') := by
  unfold stepIf
  split <;> simp_all

theorem stepIf_error {condition : Prop} [Decidable condition] {action : Except ε σ} {s : σ} {e : ε} :
    stepIf condition action s = .error e ↔ condition ∧ action = .error e := by
  unfold stepIf
  split <;> simp_all

theorem stepIf_spares {condition : Prop} [Decidable condition] {action : Except ε σ} {s : σ} {e : ε}
    (spared : action ≠ .error e) : stepIf condition action s ≠ .error e :=
  fun failed => spared (stepIf_error.mp failed).2

-- `if let Some(value) = option { check(value)? }`
def checkOption (check : α → Except ε Unit) : Option α → Except ε Unit
  | some a => check a
  | none => .ok ()

theorem checkOption_ok {check : α → Except ε Unit} {value : Option α} {u : Unit} :
    checkOption check value = .ok u ↔ ∀ a, value = some a → check a = .ok () := by
  cases value <;> simp [checkOption]

-- The loop `for item in items { check(item)? }`.
def checkEach (check : α → Except ε Unit) : List α → Except ε Unit
  | [] => .ok ()
  | item :: rest => do
    check item
    checkEach check rest

theorem checkEach_ok {check : α → Except ε Unit} {items : List α} {u : Unit} :
    checkEach check items = .ok u ↔ ∀ item ∈ items, check item = .ok () := by
  induction items with
  | nil => simp [checkEach]
  | cons item rest ih =>
    simp only [checkEach,bind_ok,ih,List.mem_cons,forall_eq_or_imp]
    constructor
    · rintro ⟨_,first,others⟩
      exact ⟨first,others⟩
    · rintro ⟨first,others⟩
      exact ⟨(),first,others⟩

theorem checkEach_error {check : α → Except ε Unit} {items : List α} {e : ε}
    (failed : checkEach check items = .error e) : ∃ item ∈ items, check item = .error e := by
  induction items with
  | nil => cases failed
  | cons item rest ih =>
    rcases bind_error.mp failed with first | ⟨_,_,later⟩
    · exact ⟨item,List.mem_cons_self,first⟩
    · obtain ⟨other,listed,stopped⟩ := ih later
      exact ⟨other,List.mem_cons_of_mem _ listed,stopped⟩

-- The loop `for item in items { state = step(state, item)? }`.
def foldEach (step : σ → α → Except ε σ) : σ → List α → Except ε σ
  | s,[] => .ok s
  | s,item :: rest => do
    let next ← step s item
    foldEach step next rest

@[simp] theorem foldEach_nil {step : σ → α → Except ε σ} : foldEach step s [] = .ok s := rfl

theorem foldEach_cons {step : σ → α → Except ε σ} :
    foldEach step s (item :: rest) = step s item >>= fun next => foldEach step next rest := rfl

theorem foldEach_append {step : σ → α → Except ε σ} :
    foldEach step s (first ++ second) = foldEach step s first >>= fun next => foldEach step next second := by
  induction first generalizing s with
  | nil => rfl
  | cons item rest ih =>
    simp only [List.cons_append,foldEach_cons]
    cases step s item with
    | error e => rfl
    | ok next => exact ih

theorem foldEach_append_ok {step : σ → α → Except ε σ} (one : foldEach step s first = .ok middle)
    (two : foldEach step middle second = .ok after) : foldEach step s (first ++ second) = .ok after := by
  rw [foldEach_append,one]
  exact two

-- Loop rule: what one iteration preserves, a completed loop preserves.
theorem foldEach_preserves {step : σ → α → Except ε σ} {motive : σ → Prop}
    (preserved : ∀ s item next, item ∈ items → motive s → step s item = .ok next → motive next)
    (start : motive s) (ran : foldEach step s items = .ok after) : motive after := by
  induction items generalizing s with
  | nil => cases ran; exact start
  | cons item rest ih =>
    obtain ⟨next,first,others⟩ := bind_ok.mp ran
    exact ih (fun s item next present => preserved s item next (List.mem_cons_of_mem _ present))
      (preserved s item next List.mem_cons_self start first) others

theorem foldEach_spares {step : σ → α → Except ε σ} (spared : ∀ s item, step s item ≠ .error e) :
    foldEach step s items ≠ .error e := by
  induction items generalizing s with
  | nil => simp
  | cons item rest ih => exact spares_bind (spared s item) fun _ _ => ih

theorem foldEach_mapError_ok {ε' : Type} {f : ε → ε'} {step : σ → α → Except ε σ} {s after : σ}
    {items : List α} :
    foldEach (fun s item => (step s item).mapError f) s items = .ok after ↔
    foldEach step s items = .ok after := by
  induction items generalizing s with
  | nil => simp
  | cons item rest ih => simp only [foldEach_cons,bind_ok,mapError_ok,ih]

theorem mapM_reads {row : β → α} {read : α → Except ε β} {items : List β}
    (each : ∀ item ∈ items, read (row item) = .ok item) : (items.map row).mapM read = .ok items := by
  induction items with
  | nil => rfl
  | cons item rest ih =>
    simp only [List.map_cons,List.mapM_cons,bind_ok,pure_ok]
    exact ⟨item,each item List.mem_cons_self,rest,ih fun other listed =>
      each other (List.mem_cons_of_mem _ listed),rfl⟩

-- An all-or-nothing transaction: an error leaves the state as it was.
def commit (transaction : σ → Except ε (α × σ)) (s : σ) : Except ε α × σ :=
  match transaction s with
  | .ok (result,next) => (.ok result,next)
  | .error e => (.error e,s)

theorem commit_error {transaction : σ → Except ε (α × σ)}
    (failed : (commit transaction s).1 = .error e) : (commit transaction s).2 = s := by
  unfold commit at failed ⊢
  split
  · simp_all
  · rfl

-- A property of states survives a transaction when its successful runs keep it.
theorem commit_preserves {transaction : σ → Except ε (α × σ)} {invariant : σ → Prop}
    (kept : ∀ result next, transaction s = .ok (result,next) → invariant next)
    (start : invariant s) : invariant (commit transaction s).2 := by
  unfold commit
  cases outcome : transaction s with
  | error e => exact start
  | ok pair => obtain ⟨value,next⟩ := pair; exact kept value next outcome

end CheckedSteps
