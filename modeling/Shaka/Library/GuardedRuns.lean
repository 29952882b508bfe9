import Mathlib.Init

namespace GuardedRuns

variable {σ lbl : Type}

-- The states reached from `first` by steps that are each allowed where they are taken.
inductive Reaches (next : σ → lbl → σ) (allowed : σ → lbl → Prop) (first : σ) : σ → Prop
  | start : Reaches next allowed first first
  | step : Reaches next allowed first s → allowed s label → Reaches next allowed first (next s label)

theorem Reaches.trans {next : σ → lbl → σ} {allowed : σ → lbl → Prop} {first middle last : σ}
    (one : Reaches next allowed first middle) (two : Reaches next allowed middle last) :
    Reaches next allowed first last := by
  induction two with
  | start => exact one
  | step _ guard ih => exact .step ih guard

theorem Reaches.weaken {next : σ → lbl → σ} {allowed wider : σ → lbl → Prop} {first last : σ}
    (run : Reaches next allowed first last) (included : ∀ s label, allowed s label → wider s label) :
    Reaches next wider first last := by
  induction run with
  | start => exact .start
  | step _ guard ih => exact .step ih (included _ _ guard)

-- What the first state has and every allowed step keeps holds in every state reached.
theorem Reaches.invariant {next : σ → lbl → σ} {allowed : σ → lbl → Prop} {first last : σ}
    {motive : σ → Prop} (run : Reaches next allowed first last) (initial : motive first)
    (kept : ∀ s label, motive s → allowed s label → motive (next s label)) : motive last := by
  induction run with
  | start => exact initial
  | step _ guard ih => exact kept _ _ ih guard

-- The same rule where the step lemma may use what is already known of reached states.
theorem Reaches.invariant_under {next : σ → lbl → σ} {allowed : σ → lbl → Prop} {first last : σ}
    {known motive : σ → Prop} (run : Reaches next allowed first last)
    (established : ∀ s, Reaches next allowed first s → known s) (initial : motive first)
    (kept : ∀ s label, known s → motive s → allowed s label → motive (next s label)) :
    motive last := by
  induction run with
  | start => exact initial
  | step reached guard ih => exact kept _ _ (established _ reached) ih guard

-- A finite list of labels, taken in order.
def play (next : σ → lbl → σ) (s : σ) (labels : List lbl) : σ := labels.foldl next s

def Admitted (next : σ → lbl → σ) (allowed : σ → lbl → Prop) : σ → List lbl → Prop
  | _,[] => True
  | s,label :: rest => allowed s label ∧ Admitted next allowed (next s label) rest

theorem admitted_always {next : σ → lbl → σ} {allowed : σ → lbl → Prop} {first : σ} {labels : List lbl}
    (all : ∀ label ∈ labels, ∀ s, allowed s label) : Admitted next allowed first labels := by
  induction labels generalizing first with
  | nil => trivial
  | cons label rest ih =>
    exact ⟨all label List.mem_cons_self first,ih fun other later => all other (List.mem_cons_of_mem _ later)⟩

theorem admitted_append {next : σ → lbl → σ} {allowed : σ → lbl → Prop} {first : σ} {labels rest : List lbl}
    (one : Admitted next allowed first labels) (two : Admitted next allowed (play next first labels) rest) :
    Admitted next allowed first (labels ++ rest) := by
  induction labels generalizing first with
  | nil => exact two
  | cons label later ih => exact ⟨one.1,ih one.2 two⟩

theorem play_reaches {next : σ → lbl → σ} {allowed : σ → lbl → Prop} {first : σ} {labels : List lbl}
    (admitted : Admitted next allowed first labels) :
    Reaches next allowed first (play next first labels) := by
  induction labels generalizing first with
  | nil => exact .start
  | cons label rest ih =>
    obtain ⟨guard,others⟩ := admitted
    exact (Reaches.step .start guard).trans (ih others)

end GuardedRuns
