import Shaka.Plan.Spent
import Shaka.Plan.Turns
import Shaka.Store.Runs

namespace Shaka.Store
open Shaka.Core Queue Plan CheckedSteps GuardedRuns

variable {encoding : StoreEncoding} {s s' : QueueStore} {task : TaskRecord} {rows rows' : PlanRows}

-- The keys of plans without a task are those of decisions on them.
structure Untold (encoding : StoreEncoding) (rows : PlanRows) : Prop where
  idle : Idle rows
  unrecorded : isUndecided rows.state = true → (view rows).keys = []
  foreign : ∀ key ∈ (view rows).keys, Foreign encoding.toEncoding key

-- No key of the store starts like those of decisions on plans.
theorem stems_second (kind : KeyKind) : 1 < kind.letters.length ∧ kind.letters[1]? ≠ some 'p' := by
  have all : ∀ kind ∈ keyKinds, 1 < kind.letters.length ∧ kind.letters[1]? ≠ some 'p' := by decide +kernel
  exact all kind (mem_keyKinds kind)

theorem second_append {stem tail : String} {letter : Char} (second : stem.toList[1]? = some letter) :
    (stem ++ tail).toList[1]? = some letter := by
  obtain ⟨long,_⟩ := List.getElem?_eq_some_iff.mp second
  rw [String.toList_append,List.getElem?_append_left long,second]

theorem foreign_second {encoding : Encoding} {key : String} (second : key.toList[1]? = some 'p') :
    Foreign encoding key := by
  intro stored same
  obtain ⟨long,apart⟩ := stems_second stored.kind
  have letters := congrArg String.toList same
  rw [text_letters] at letters
  refine apart ?_
  rw [← second,← List.getElem?_append_left long,letters]

theorem approvalKey_foreign {encoding : Encoding} (id : String) (state : PlanState) :
    Foreign encoding (approvalKey id state) := by
  unfold approvalKey
  split <;> exact foreign_second (second_append (by decide +kernel))

theorem decisionWrites_foreign {encoding : Encoding} {approval : PlanApproval} {now : Time}
    {state : PlanState} :
    ∀ key ∈ keysOf (decisionWrites encoding approval now state), Foreign encoding key := by
  unfold decisionWrites
  split
  · split
    · simp [keysOf]
    · cases state <;> simp [admissionWrites,keysOf,approvalKey_foreign]
  · simp [keysOf,approvalKey_foreign]

theorem Untold.saved (saved : Saved rows) : Untold encoding rows := by
  have none : (view rows).keys = [] := by simp [saved.transitions]
  exact ⟨.saved saved,fun _ => none,by simp [none]⟩

-- A decision that leaves the plan undecided writes nothing.
theorem decided_undecided {row : PlanApprovalRow} (decided : Decided encoding rows rows' row)
    (undecided : isUndecided rows'.state = true) :
    view rows' = view rows ∧ isUndecided rows.state = true := by
  have reached := decided.reached
  have after : isUndecided (view rows').plan = true := undecided
  unfold decisionWrites at reached
  split at reached
  · split at reached
    · rw [writes_nil] at reached
      exact ⟨reached,by rwa [← view_plan,← reached]⟩
    · next whole =>
      have before := decided.undecided.resolve_right fun both => whole both.2
      have admissible : isAdmissible (view rows).plan = true := by
        rw [view_plan]
        cases state : rows.state <;> simp_all [isUndecided,isAdmissible]
      rw [reached,show rows.state = (view rows).plan from rfl,admissionWrites_plan admissible] at after
      cases after
  · rw [reached] at after
    cases after

theorem Untold.decided {row : PlanApprovalRow} (decided : Decided encoding rows rows' row)
    (untold : Untold encoding rows) : Untold encoding rows' := by
  have keys : (view rows').keys = (view rows).keys ++
      keysOf (decisionWrites encoding.toEncoding row.approval row.createdAt rows.state) := by
    rw [decided.reached,writes_keys]
  refine ⟨untold.idle.decided decided,fun undecided => ?_,fun key listed => ?_⟩
  · obtain ⟨same,before⟩ := decided_undecided decided undecided
    rw [same]
    exact untold.unrecorded before
  · rw [keys,List.mem_append] at listed
    rcases listed with before | written
    · exact untold.foreign key before
    · exact decisionWrites_foreign key written

-- The keys of an admission say nothing against any move.
theorem Admitted.spent {verifyNow now : Time} (clock : Function.Injective encoding.rfc3339)
    (admitted : Admitted encoding task rows rows' verifyNow now) (untold : Untold encoding rows) :
    Spent encoding.toEncoding (view rows') := by
  intro key plain used
  rw [admitted.reached,writes_keys,List.mem_append] at used
  rcases used with before | written
  · exact absurd rfl (untold.foreign _ before key)
  have marks : ∀ written ∈ keysOf (admissionWrites admissionKey now rows.state), ∃ mark,
      (mark = .admissionProposed ∨ mark = .admissionValidated ∨ mark = .admissionApproved) ∧
      written = (StoreKey.plan mark).text encoding.toEncoding := by
    cases rows.state <;> simp [admissionWrites,keysOf,admissionKey,StoreKey.text,KeyKind.stem]
  obtain ⟨mark,admission,same⟩ := marks _ written
  obtain rfl := storeKey_unique clock plain (show (StoreKey.plan mark).PlainStep from trivial) same
  rcases admission with rfl | rfl | rfl <;> trivial

theorem Filed.plain {key : PlanKey} (filed : Filed encoding key rows) {x : PlanStepId} {state : PlanStepState}
    (found : rows.stepState x = some state) : Plain x := by
  obtain ⟨step,listed,rfl⟩ := List.mem_map.mp (stepState_listed filed.steps found)
  exact validatePlanKey_plain (validateStep_key ((validateStructure_steps filed.structured).2.2 step
    listed).1)

def PairSpent (encoding : StoreEncoding) (task : TaskRecord) (rows : PlanRows) : Prop :=
  PairCoherent task rows ∧ Spent encoding.toEncoding (view rows)

theorem spent_preserved (clock : Function.Injective encoding.rfc3339) : Preserved encoding
    (fun act _ rows => Unspent encoding.toEncoding (view rows) act) (PairSpent encoding)
      (Untold encoding) where
  saved _ _ _ saved := .saved saved
  decidedLone _ _ _ _ _ decided untold := untold.decided decided
  decidedPair key task rows rows' row _ _ decided pair := by
    rw [PairSpent,PairCoherent,flowOf,decided_quiet decided pair.1]
    exact pair
  admitted _ _ _ _ _ _ _ _ admitted untold := ⟨admitted.coherent untold.idle,admitted.spent clock untold⟩
  moved key act task task' rows rows' filed _ moved unspent pair := by
    obtain ⟨ws,move,reached⟩ := moved.move
    rw [PairSpent,PairCoherent,flowOf,reached]
    exact ⟨move.coherent pair.1,move.spent clock (fun x state found => filed.plain found) unspent pair.2⟩

-- Operations whose acts find the keys that they record unused.
def Keyed (encoding : StoreEncoding) (s : QueueStore) (op : Operation) : Prop :=
  isResume op = false ∧ ∀ act task rows, Concerned s op act task rows → DecidesOn s op rows →
    Unspent encoding.toEncoding (view rows) act ∧ ∀ derived, Derived (view rows) act derived →
    derived ∉ (view rows).keys

theorem run_spent (clock : Function.Injective encoding.rfc3339) (run : Run encoding (Keyed encoding) s) :
    Consistent encoding (PairSpent encoding) (Untold encoding) s := by
  refine run_consistent (spent_preserved clock) run (fun s op keyed => ordinary_safe s op keyed.1) ?_
  exact fun s op act task rows keyed concerned decides => (keyed.2 act task rows concerned decides).1

-- The clock of the trial database tells instants apart.

theorem natText_injective {a b : Nat} (same : (a.repr).toList = b.repr.toList) : a = b :=
  digits_injective (by simpa only [Nat.toList_repr] using same)

theorem intText_injective {a b : Int} (same : (toString a).toList = (toString b).toList) : a = b := by
  have unsigned : ∀ n : Nat, ∀ rest, n.repr.toList ≠ '-' :: rest := fun n rest signed => by
    have dash : '-' ∈ Nat.toDigits 10 n := by
      rw [← Nat.toList_repr,signed]
      exact List.mem_cons_self
    exact absurd (Nat.isDigit_of_mem_toDigits (by decide) (by decide) dash) (by decide)
  simp only [Int.toString_eq_repr,Int.repr_eq_if] at same
  split at same
  · split at same
    · have := natText_injective same
      omega
    · rw [String.toList_append] at same
      exact absurd same (unsigned _ _)
  · split at same
    · rw [String.toList_append] at same
      exact absurd same.symm (unsigned _ _)
    · simp only [String.toList_append] at same
      have := natText_injective (List.append_cancel_left same)
      omega

theorem seconds_injective {a b : Int} (whole : 0 ≤ a ∧ a < 10 * 1000000000 ∧ a % 1000000000 = 0)
    (whole' : 0 ≤ b ∧ b < 10 * 1000000000 ∧ b % 1000000000 = 0)
    (same : (a / 1000000000).toNat = (b / 1000000000).toNat) : a = b := by
  omega

theorem dated_apart (a b c : String) : "1970-01-01T00:00:0" ++ a ++ c ≠ "t" ++ b := by
  intro same
  have letters := congrArg String.toList same
  have dated : "1970-01-01T00:00:0".toList = '1' :: "970-01-01T00:00:0".toList := by decide +kernel
  have plain : "t".toList = ['t'] := by decide +kernel
  simp only [String.toList_append,dated,plain,List.cons_append] at letters
  exact absurd (List.cons.inj letters).1 (by decide)

theorem trial_clock : Function.Injective trialEncoding.rfc3339 := by
  intro a b same
  simp only [trialEncoding] at same
  split at same
  · next early =>
    split at same
    · next early' =>
      have letters := congrArg String.toList same
      simp only [String.toList_append] at letters
      exact seconds_injective early early'
        (natText_injective (List.append_cancel_left (List.append_cancel_right letters)))
    · exact absurd same (dated_apart _ _ _)
  · split at same
    · exact absurd same.symm (dated_apart _ _ _)
    · have letters := congrArg String.toList same
      simp only [String.toList_append] at letters
      exact intText_injective (List.append_cancel_left letters)

end Shaka.Store
