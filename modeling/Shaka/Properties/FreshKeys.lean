import Shaka.Store.Refusals

namespace Shaka.Properties
open Shaka.Core Queue Plan Store CheckedSteps GuardedRuns

variable {encoding : StoreEncoding} {s : QueueStore}

-- In a run whose acts find their keys unused, no transition is refused for its key.
theorem keys_fresh (clock : Function.Injective encoding.rfc3339) (run : Run encoding (Keyed encoding) s)
    (op : Operation) (keyed : Keyed encoding s op) :
    transaction encoding op s ≠ .error (.sqlite .uniqueTransitionKey) := by
  have consistent := run_spent clock run
  have plain : ∀ {α : Type} {result : Except QueueError (α × QueueStore)}, Keyless result →
      storeOf result ≠ .error (.sqlite .uniqueTransitionKey) := fun keyless refused =>
      keyless (storeOf_error.mp refused)
  cases op with
  | bootstrapPrincipal principal => exact bootstrapPrincipal_keyless
  | setLimits tenantId limits => exact plain setLimits_keyless
  | createSession principal => exact plain keyless_ok
  | savePlan plan => exact plain savePlan_keyless
  | submit request clock => exact plain (submit_keyless consistent)
  | approvePlan principal approval key now => exact plain (approvePlan_keyless consistent)
  | claim now leaseFor planContext => exact plain (claim_keyless clock consistent keyed)
  | finish taskId tenantId leaseToken report now planContext =>
    exact plain (finish_keyless clock consistent keyed)
  | requestCancel taskId tenantId now => exact plain (requestCancel_keyless clock consistent keyed)
  | recoverExpiredLeases now => exact plain (recoverExpiredLeases_keyless clock consistent keyed)
  | resolvePlanUnknown request now => exact plain (resolvePlanUnknown_keyless consistent keyed)
  | resumePlan tenantId planId now => cases keyed.1

-- A task that is cancelled, loses its step to the cancellation, is resumed by decision, and is
-- then cancelled again.
def recancelledRun : List Operation := trialOpen 7 [trialStep "a" [] none] ++
  [trialClaim 2,trialCancel 7 2,trialFinish 7 7 2 none,trialResolve 7 .resume "fix-1" 4]

theorem keys_fresh_recancelled : Run trialEncoding Ordinary (trial recancelledRun) ∧
    transaction trialEncoding (trialCancel 7 5) (trial recancelledRun) =
      .error (.sqlite .uniqueTransitionKey) := by
  refine ⟨ordinary_run rfl,?_⟩
  have evaluated : (match transaction trialEncoding (trialCancel 7 5) (trial recancelledRun) with
      | .error e => e == .sqlite .uniqueTransitionKey
      | .ok _ => false) = true := by decide +kernel
  cases outcome : transaction trialEncoding (trialCancel 7 5) (trial recancelledRun) with
  | error e =>
    rw [outcome] at evaluated
    exact congrArg _ (by simpa using evaluated)
  | ok answer =>
    rw [outcome] at evaluated
    cases evaluated

-- The condition, as it can be evaluated on a database.

def storedRows (s : QueueStore) (p : PlanRows → Bool) : Bool := s.plans.entries.all fun entry => p entry.2

theorem storedRows_found {p : PlanRows → Bool} (checked : storedRows s p = true) {key : PlanKey}
    {rows : PlanRows} (stored : s.plans.lookup key = some rows) : p rows = true :=
  List.all_eq_true.mp checked ⟨key,rows⟩ (AList.mem_lookup_iff.mp stored)

def fewAttempts (rows : PlanRows) : Bool := rows.steps.entries.all fun entry =>
    decide (entry.2.attempts < maxU32)

theorem keyed_claim {now leaseFor : Time} {planContext : PlanClaimContext}
    (checked : storedRows s fewAttempts = true) : Keyed encoding s (.claim now leaseFor planContext) := by
  refine ⟨rfl,fun act task rows concerned _ => ?_⟩
  obtain ⟨⟨x,rfl⟩,_⟩ := concerned.act
  obtain ⟨key,_,stored⟩ := concerned.stored
  have few := storedRows_found checked stored
  refine ⟨?_,fun derived none => none.elim⟩
  show rows.attemptsOf x < maxU32
  unfold PlanRows.attemptsOf
  cases found : rows.steps.lookup x with
  | none => decide
  | some row => simpa using List.all_eq_true.mp few ⟨x,row⟩ (AList.mem_lookup_iff.mp found)

theorem keyed_recover {now : Time}
    (checked : storedRows s (fun rows => rows.transitions.all fun transition =>
      transition.createdAt != now) = true) : Keyed encoding s (.recoverExpiredLeases now) := by
  refine ⟨rfl,fun act task rows concerned _ => ?_⟩
  obtain ⟨rfl,_⟩ := concerned.act
  obtain ⟨key,_,stored⟩ := concerned.stored
  refine ⟨fun event told _ => ?_,fun derived none => none.elim⟩
  obtain ⟨transition,listed,rfl⟩ := List.mem_map.mp told
  have apart := List.all_eq_true.mp (storedRows_found checked stored) transition listed
  exact bne_iff_ne.mp apart

-- A key of the operator's own that starts with letters that no key in the journal starts with.
theorem keyed_resolution {request : ResolutionRequest} {now : Time}
    (second : request.idempotencyKey.toList[1]? = some 'p')
    (checked : storedRows s (fun rows => rows.transitions.all fun transition =>
      transition.idempotencyKey.toList[1]? != some 'p') = true) : Keyed encoding s
          (.resolvePlanUnknown request now) := by
  refine ⟨rfl,fun act task rows concerned _ => ?_⟩
  obtain ⟨_,rfl⟩ := concerned.act
  obtain ⟨key,_,stored⟩ := concerned.stored
  have derives : ∀ derived, Derived (view rows) (resolutionAct rows request) derived →
      derived.toList[1]? = some 'p' := by
    intro derived made
    unfold resolutionAct at made
    split at made
    · obtain ⟨x,_,rfl⟩ := made
      exact second_append (second_append second)
    · rcases made with ⟨x,_,rfl⟩ | ⟨x,_,rfl⟩ <;> exact second_append (second_append second)
    · cases made
  constructor
  · unfold resolutionAct at derives ⊢
    split at derives
    · exact ⟨foreign_second second,fun derived made => foreign_second (derives derived made)⟩
    · exact ⟨foreign_second second,fun derived made => foreign_second (derives derived made)⟩
    · exact foreign_second second
  · intro derived made used
    rw [view_keys] at used
    obtain ⟨transition,listed,same⟩ := List.mem_map.mp used
    have apart := List.all_eq_true.mp (storedRows_found checked stored) transition listed
    rw [same] at apart
    exact bne_iff_ne.mp apart (derives derived made)

-- A lease that expires once, and the work resumed under a key of the operator's own.
def resumedRun : List Operation := trialOpen 7 [trialStep "a" [] none] ++
  [trialClaim 2,.recoverExpiredLeases (second 5),trialResolve 7 .resume "operator-1" 6]

theorem keyed_aside {op : Operation} (plain : isResume op = false)
    (idle : ∀ act task rows, ¬ ActOf op act task rows) :
    Keyed encoding s op := ⟨plain,fun act task rows concerned => (idle act task rows concerned.act).elim⟩

theorem trialOpen_keyed {number : Nat} {steps : List PlanStep} :
    ∀ op ∈ trialOpen number steps, ∀ s, Keyed encoding s op := by
  intro op listed s
  simp only [trialOpen,List.mem_cons,List.not_mem_nil,or_false] at listed
  rcases listed with rfl | rfl | rfl | rfl <;> exact keyed_aside rfl fun _ _ _ act => act

theorem resumedRun_keyed : Run trialEncoding (Keyed trialEncoding) (trial resumedRun) := by
  refine play_reaches (admitted_append (admitted_always trialOpen_keyed) ⟨?_,?_,?_,trivial⟩)
  · exact keyed_claim (by decide +kernel)
  · exact keyed_recover (by decide +kernel)
  · exact keyed_resolution (by decide +kernel) (by decide +kernel)

theorem keys_fresh_resumed : transaction trialEncoding (trialClaim 7) (trial resumedRun) ≠
    .error (.sqlite .uniqueTransitionKey) := by
  refine keys_fresh trial_clock resumedRun_keyed (trialClaim 7) (keyed_claim (by decide +kernel))

end Shaka.Properties
