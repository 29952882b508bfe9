import Shaka.Store.Frames

namespace Shaka.Store
open Shaka.Core Queue Plan CheckedSteps GuardedRuns

variable {encoding : StoreEncoding} {permitted : Act → TaskRecord → PlanRows → Prop} {s s' : QueueStore}

theorem Advances.weaken {wider : Act → TaskRecord → PlanRows → Prop}
    (advances : Advances encoding permitted s s')
    (included : ∀ act task rows, permitted act task rows → wider act task rows) :
    Advances encoding wider s s' := by
  induction advances with
  | refl => exact .refl
  | tail _ advance ih => exact ih.tail (advance.weaken included)

-- What a decision of an operator is about: the latest revision of its plan.
def DecidesOn (s : QueueStore) (op : Operation) (rows : PlanRows) : Prop :=
  match op with
  | .resolvePlanUnknown request _ => ∃ key, Loaded s request.planId request.principal.tenantId key rows
  | _ => True

-- Every operation advances the database, by moves of the tasks it is about.
theorem exec_advances (sound : Sound encoding s) (replayable : Replayable encoding s) (op : Operation)
    (safe : ResumeSafe s op) : Advances encoding
      (fun act task rows => Concerned s op act task rows ∧ DecidesOn s op rows) s (exec encoding s op) := by
  rcases exec_cases encoding s op with same | ok
  · rw [same]
  generalize exec encoding s op = s' at ok
  cases op with
  | bootstrapPrincipal principal =>
    simp only [transaction,bootstrapPrincipal,bind_ok] at ok
    obtain ⟨_,_,_,_,ok⟩ := ok
    split at ok <;> cases ok <;> exact .single (.aside rfl fun _ => rfl)
  | setLimits tenantId limits =>
    simp only [transaction,storeOf_ok,setLimits,bind_ok,pure_ok,Prod.mk.injEq] at ok
    obtain ⟨_,_,_,_,_,_,rfl⟩ := ok
    exact .single (.aside rfl fun _ => rfl)
  | createSession principal =>
    cases ok
    exact .single (.aside rfl fun _ => rfl)
  | savePlan plan =>
    obtain ⟨answer,ok⟩ := storeOf_ok.mp ok
    exact .single (savePlan_advance ok)
  | submit request clock =>
    obtain ⟨answer,ok⟩ := storeOf_ok.mp ok
    exact .single (submit_advance ok)
  | approvePlan principal approval key now =>
    obtain ⟨answer,ok⟩ := storeOf_ok.mp ok
    exact .single (approvePlan_advance ok)
  | claim now leaseFor planContext =>
    obtain ⟨answer,ok⟩ := storeOf_ok.mp ok
    exact .single ((claim_advance sound ok).weaken fun _ _ _ concerned => ⟨concerned,trivial⟩)
  | finish taskId tenantId leaseToken report now planContext =>
    obtain ⟨answer,ok⟩ := storeOf_ok.mp ok
    exact .single ((finish_advance sound ok).weaken fun _ _ _ concerned => ⟨concerned,trivial⟩)
  | requestCancel taskId tenantId now =>
    obtain ⟨answer,ok⟩ := storeOf_ok.mp ok
    exact .single ((requestCancel_advance sound ok).weaken fun _ _ _ concerned => ⟨concerned,trivial⟩)
  | recoverExpiredLeases now =>
    obtain ⟨answer,ok⟩ := storeOf_ok.mp ok
    exact (recoverExpiredLeases_advances sound ok).weaken fun _ _ _ concerned => ⟨concerned,trivial⟩
  | resolvePlanUnknown request now =>
    obtain ⟨answer,ok⟩ := storeOf_ok.mp ok
    exact .single (resolvePlanUnknown_advance sound ok)
  | resumePlan tenantId planId now =>
    cases ok
    exact .single ((resumePlan_advance sound replayable safe).weaken fun _ _ _ concerned =>
      ⟨concerned,trivial⟩)

theorem Advances.consistent {Pair : TaskRecord → PlanRows → Prop} {Lone : PlanRows → Prop}
    (preserved : Preserved encoding permitted Pair Lone) (consistent : Consistent encoding Pair Lone s)
    (advances : Advances encoding permitted s s') : Consistent encoding Pair Lone s' := by
  induction advances with
  | refl => exact consistent
  | tail _ advance ih => exact ih.advance preserved advance

theorem Advances.replayable (replayable : Replayable encoding s)
    (advances : Advances encoding permitted s s') : Replayable encoding s' := by
  induction advances with
  | refl => exact replayable
  | tail _ advance ih => exact ih.advance advance

structure Steady (encoding : StoreEncoding) (s : QueueStore) : Prop where
  sound : Sound encoding s
  replayable : Replayable encoding s

-- A run of operations in any order, from the empty database.
abbrev Run (encoding : StoreEncoding) (allowed : QueueStore → Operation → Prop) :=
  Reaches (exec encoding) allowed .empty

theorem run_steady {allowed : QueueStore → Operation → Prop} (run : Run encoding allowed s)
    (safe : ∀ s op, allowed s op → ResumeSafe s op) : Steady encoding s := by
  refine run.invariant ⟨empty_consistent,?_⟩ fun s op steady guard => ?_
  · intro key rows found
    cases found
  · have advances := exec_advances steady.sound steady.replayable op (safe s op guard)
    exact ⟨Advances.consistent coherent_preserved steady.sound advances,
      Advances.replayable steady.replayable advances⟩

-- What every advance keeps holds in every state of a run.
theorem run_consistent {allowed : QueueStore → Operation → Prop} {Pair : TaskRecord → PlanRows → Prop}
    {Lone : PlanRows → Prop} (preserved : Preserved encoding permitted Pair Lone)
    (run : Run encoding allowed s) (safe : ∀ s op, allowed s op → ResumeSafe s op)
    (may : ∀ s op act task rows, allowed s op → Concerned s op act task rows → DecidesOn s op rows →
      permitted act task rows) :
    Consistent encoding Pair Lone s := by
  refine run.invariant_under (fun _ reached => run_steady reached safe) empty_consistent
    fun s op steady consistent guard => ?_
  have advances := exec_advances steady.sound steady.replayable op (safe s op guard)
  exact Advances.consistent preserved consistent
    (Advances.weaken advances fun act task rows moved => may s op act task rows guard moved.1 moved.2)

-- Every stored plan is one that was saved in the run.
theorem run_saved {allowed : QueueStore → Operation → Prop} {saved : PlanSpec → Prop}
    (run : Run encoding allowed s) (filing : ∀ s plan, allowed s (.savePlan plan) → saved plan) :
    ∀ key rows, s.plans.lookup key = some rows → saved rows.plan := by
  refine run.invariant (motive := fun s => ∀ key rows, s.plans.lookup key = some rows → saved rows.plan) ?_ ?_
  · intro key rows found
    cases found
  · intro s op all guard key rows found
    rcases (exec_carries encoding s op).origin key rows found with ⟨old,stored,plan⟩ | saving
    · exact plan ▸ all key old stored
    · exact filing s rows.plan (saving ▸ guard)

-- Every operation of the queue, without the recovery at the start of a process.

def isResume : Operation → Bool
  | .resumePlan .. => true
  | _ => false

def Ordinary (_ : QueueStore) (op : Operation) : Prop := isResume op = false

theorem ordinary_safe (s : QueueStore) (op : Operation) (ordinary : Ordinary s op) : ResumeSafe s op := by
  cases op <;> trivial

theorem restart_resumes {op : Operation} {task : TaskRecord} {rows : PlanRows}
    (act : ActOf op .restart task rows) (ordinary : Ordinary s op) : False := by
  cases op <;> simp_all [ActOf,Ordinary,isResume,resolutionAct]
  split at act <;> simp at act

theorem ordinary_run {operations : List Operation} (plain : operations.all (fun op => !isResume op) = true) :
    Run encoding Ordinary (play (exec encoding) .empty operations) := by
  simp only [List.all_eq_true,Bool.not_eq_true'] at plain
  exact play_reaches (admitted_always fun op listed _ => plain op listed)

-- A small database to carry runs out on: an administrator, who saves plans with
-- steps that only read, and one task for each plan. Digests stand for the short
-- texts they are taken of.

def trialEncoding : StoreEncoding where
  sha256Hex := fun text => String.ofList (List.replicate (64 - text.length) '0' ++ text.toList)
  planJson := fun plan => s!"{plan.planId.uuid}"
  rfc3339 := fun now => if 0 ≤ now ∧ now < 10 * nanosPerSecond ∧ now % nanosPerSecond = 0 then
    s!"1970-01-01T00:00:0{(now / nanosPerSecond).toNat}+00:00" else s!"t{now}"
  uuidText := fun uuid => s!"{uuid}"
  transitionJson := fun transition => s!"{transition.sequence}"

def trialStep (stepId : String) (dependsOn : List String) (compensation : Option String) : PlanStep where
  stepId := ⟨stepId⟩
  dependsOn := dependsOn.map (⟨·⟩)
  action := .readOnly "read"
  preconditions := []
  postconditions := []
  risk := .readOnly
  approval := .none
  maxAttempts := 1
  compensationStepId := compensation.map (⟨·⟩)

def trialAdmin : Principal := ⟨⟨"operator"⟩,⟨"tenant"⟩,.administrator⟩

def trialInput (number : Nat) (steps : List PlanStep) : PlanSpecInput where
  planId := ⟨number⟩
  taskId := ⟨number⟩
  tenantId := trialAdmin.tenantId
  operatorId := trialAdmin.operatorId
  mode := .dryRun
  risk := .readOnly
  approval := .none
  budget := .default
  steps := steps

def trialDigest (number : Nat) : String := trialEncoding.sha256Hex s!"{number}"

def trialPlan (number : Nat) (steps : List PlanStep) : PlanSpec where
  planId := ⟨number⟩
  taskId := ⟨number⟩
  tenantId := trialAdmin.tenantId
  operatorId := trialAdmin.operatorId
  revision := 1
  mode := .dryRun
  risk := .readOnly
  approval := .none
  budget := .default
  steps := steps
  digest := trialDigest number
  state := .draft
  createdAt := 0

theorem validateStructure_sealed (plan : PlanSpec) (digest : String) :
    ({plan with digest:=digest} : PlanSpec).validateStructure = plan.validateStructure := rfl

theorem trialPlan_new {number : Nat} {steps : List PlanStep}
    (valid : (trialPlan number steps).validateStructure = .ok ()) :
    PlanSpec.new trialEncoding.toEncoding (trialInput number steps) 0 = .ok (trialPlan number steps) := by
  have budget : ExecutionBudget.default.validate = .ok () := by decide
  refine bind_ok.mpr ⟨(),budget,bind_ok.mpr ⟨(),?_,?_⟩⟩
  · rw [← validateStructure_sealed _ (trialDigest number)]
    exact valid
  · simp only [pure_ok,trialPlan,trialInput,trialDigest,PlanSpec.calculateDigest,trialEncoding]

def second (count : Nat) : Time := count * nanosPerSecond

def trialSubmit (number : Nat) (planned : Bool) (now : Time) : Operation :=
  .submit ⟨0,trialAdmin,s!"task-{number}","fingerprint",
    ⟨⟨number⟩,trialAdmin.tenantId,trialAdmin.operatorId,.default,
    true,.fromPrincipal trialAdmin⟩,0,1,if planned then some ⟨⟨number⟩,1,trialDigest number⟩ else none,
    none⟩ ⟨now,now,now⟩

def trialOpen (number : Nat) (steps : List PlanStep) : List Operation :=
  [.bootstrapPrincipal trialAdmin,.createSession trialAdmin,.savePlan (trialPlan number steps),
    trialSubmit number true (second 1)]

def trialClaim (count : Nat) : Operation := .claim (second count) (second 1) .default

def trialFinish (number token count : Nat) (error : Option String) : Operation :=
  .finish ⟨number⟩ trialAdmin.tenantId ⟨token⟩ ⟨none,error,false,0,0⟩ (second count) .default

def trialCancel (number count : Nat) : Operation := .requestCancel ⟨number⟩ trialAdmin.tenantId (second count)

def trialResolve (number : Nat) (decision : PlanResolutionDecision) (key : String) (count : Nat) :
    Operation :=
  .resolvePlanUnknown ⟨trialAdmin,⟨number⟩,decision,key,some (trialDigest 0)⟩ (second count)

def trialDirect (number : Nat) : List Operation :=
  [.bootstrapPrincipal trialAdmin,.createSession trialAdmin,trialSubmit number false (second 1)]

-- The same submission under another budget.
def trialBudgeted (budget : ExecutionBudget) : Operation → Operation
  | .submit request clock => .submit {request with envelope:={request.envelope with budget:=budget}} clock
  | op => op

def trial (operations : List Operation) : QueueStore := play (exec trialEncoding) .empty operations

theorem trial_append (first rest : List Operation) :
    trial (first ++ rest) = play (exec trialEncoding) (trial first) rest := List.foldl_append

-- The task that a claim hands out, from what was evaluated of it.
theorem handed_out {γ : Type} {result : Except QueueError (Option TaskRecord × QueueStore)}
    {f : TaskRecord → γ} {value : γ}
    (evaluated : result.toOption.map (fun answer => answer.1.map f) = some (some value)) :
    ∃ claimed s, result = .ok (some claimed,s) ∧ f claimed = value := by
  cases result with
  | error e => cases evaluated
  | ok answer =>
    obtain ⟨handed,s⟩ := answer
    obtain ⟨claimed,rfl,same⟩ := Option.map_eq_some_iff.mp (Option.some.inj evaluated)
    exact ⟨claimed,s,rfl,same⟩

end Shaka.Store
