import Shaka.Library.FixedWidth
import Shaka.Queue.Finish

namespace Shaka.Queue
open Shaka.Core CheckedSteps FixedWidth

-- A `chrono::Duration`, of at most `i64::MAX` milliseconds either way.
structure Duration where
  nanos : Int
  within : -(9223372036854775807 * nanosPerMilli) ≤ nanos ∧ nanos ≤ 9223372036854775807 * nanosPerMilli

def Duration.numMilliseconds (duration : Duration) : Int64 := .ofInt (duration.nanos.tdiv nanosPerMilli)

-- `Duration::milliseconds`, an error beyond the range
def Duration.milliseconds (count : Int64) : Option Duration :=
  if within : -9223372036854775807 ≤ count.toInt then
    some ⟨count.toInt * nanosPerMilli,by
      have below := Int64.toInt_lt count
      unfold nanosPerMilli
      omega⟩
  else none

-- The delay of `finish_task_with_lease_token`, as it is computed on machine words.
def directBackoff (attempts : UInt32) (baseDelay maxDelay : Duration) : Option Duration := do
  let exponent := min (saturatingSub attempts 1) 10
  let multiplier ← checkedShl 1 exponent
  let delayMs := min (saturatingMul baseDelay.numMilliseconds multiplier) maxDelay.numMilliseconds
  Duration.milliseconds (max delayMs 0)

-- The delay of `finish_planned_step_tx`.
def plannedBackoff (attempts : UInt32) (baseDelay maxDelay : Duration) : Option Duration := do
  let exponent := min (saturatingSub attempts 1) 10
  let multiplier ← checkedShl 1 exponent
  let delayMs := max (min (saturatingMul baseDelay.numMilliseconds multiplier) maxDelay.numMilliseconds) 0
  Duration.milliseconds delayMs

-- The same delay over all integers.
def exactBackoff (attempts : Nat) (baseMs maxMs : Int) : Int :=
  max (min (baseMs * 2 ^ min (attempts - 1) 10) maxMs) 0

theorem numMilliseconds_exact (duration : Duration) :
    duration.numMilliseconds.toInt = duration.nanos.tdiv nanosPerMilli := by
  have within := duration.within
  have truncated := tdiv_cases duration.nanos nanosPerMilli
  unfold Duration.numMilliseconds nanosPerMilli at *
  exact Int64.toInt_ofInt_of_le (by omega) (by omega)

-- Ten doublings stay within the word, and no bit is lost.
theorem multiplier_exact (attempts : UInt32) : ∃ multiplier : Int64,
    checkedShl 1 (min (saturatingSub attempts 1) 10) = some multiplier ∧
    multiplier.toInt = 2 ^ min (attempts.toNat - 1) 10 := by
  have doubled : ∀ places ≤ 10, ((1 : Int64) <<< Int64.ofNat places).toInt = 2 ^ places := by decide
  have places : (min (saturatingSub attempts 1) 10).toNat = min (attempts.toNat - 1) 10 := by
    rw [toNat_min,toNat_saturatingSub]
    rfl
  have few : min (saturatingSub attempts 1) 10 < 64 := by
    rw [UInt32.lt_iff_toNat_lt,places]
    exact Nat.lt_of_le_of_lt (Nat.min_le_right _ _) (by decide)
  refine ⟨_,if_pos few,?_⟩
  rw [places]
  exact doubled _ (Nat.min_le_right _ _)

-- The ends of the range come after the bound and below zero.
theorem delay_exact (attempts : UInt32) (baseDelay maxDelay : Duration) {multiplier : Int64}
    (doubled : multiplier.toInt = 2 ^ min (attempts.toNat - 1) 10) :
    (max (min (saturatingMul baseDelay.numMilliseconds multiplier) maxDelay.numMilliseconds) 0).toInt =
      exactBackoff attempts.toNat (baseDelay.nanos.tdiv nanosPerMilli)
        (maxDelay.nanos.tdiv nanosPerMilli) := by
  have bounded := Int64.toInt_lt maxDelay.numMilliseconds
  rw [toInt_max,toInt_min,toInt_saturatingMul,doubled,Int64.toInt_zero,exactBackoff,← numMilliseconds_exact,
    ← numMilliseconds_exact,clampInt64]
  omega

theorem plannedBackoff_exact (attempts : UInt32) (baseDelay maxDelay : Duration) : ∃ delay : Duration,
    plannedBackoff attempts baseDelay maxDelay = some delay ∧ delay.nanos =
      exactBackoff attempts.toNat (baseDelay.nanos.tdiv nanosPerMilli) (maxDelay.nanos.tdiv nanosPerMilli)
        * nanosPerMilli := by
  obtain ⟨multiplier,shifted,doubled⟩ := multiplier_exact attempts
  have exactly := delay_exact attempts baseDelay maxDelay doubled
  unfold plannedBackoff
  dsimp only
  rw [shifted]
  dsimp only [Option.bind_eq_bind,Option.bind_some]
  generalize max (min (saturatingMul baseDelay.numMilliseconds multiplier) maxDelay.numMilliseconds) 0 =
    count at *
  have least : -9223372036854775807 ≤ count.toInt := by
    rw [exactly,exactBackoff]
    omega
  refine ⟨_,dif_pos least,?_⟩
  rw [← exactly]

theorem directBackoff_planned (attempts : UInt32) (baseDelay maxDelay : Duration) :
    directBackoff attempts baseDelay maxDelay = plannedBackoff attempts baseDelay maxDelay := rfl

theorem exactBackoff_bounded (attempts : Nat) (baseMs maxMs : Int) :
    0 ≤ exactBackoff attempts baseMs maxMs ∧ exactBackoff attempts baseMs maxMs ≤ max maxMs 0 := by
  unfold exactBackoff
  omega

-- A further attempt never comes sooner.
theorem exactBackoff_rising {attempts later : Nat} (more : attempts ≤ later) (baseMs maxMs : Int) :
    exactBackoff attempts baseMs maxMs ≤ exactBackoff later baseMs maxMs := by
  have powers : (2 : Int) ^ min (attempts - 1) 10 ≤ 2 ^ min (later - 1) 10 := by
    exact_mod_cast Nat.pow_le_pow_right (by decide) (show min (attempts - 1) 10 ≤ min (later - 1) 10 by omega)
  rcases lt_or_ge baseMs 0 with low | high
  · have none : ∀ number, exactBackoff number baseMs maxMs = 0 := fun number => by
      have scaled : baseMs * 2 ^ min (number - 1) 10 ≤ 0 :=
        Int.mul_nonpos_of_nonpos_of_nonneg (Int.le_of_lt low) (Int.pow_nonneg (by decide))
      unfold exactBackoff
      omega
    rw [none,none]
  · have scaled := Int.mul_le_mul_of_nonneg_left powers high
    unfold exactBackoff
    omega

theorem retryDelay_exact (attempts : Nat) (report : FinishReport)
    (bounded : report.maxDelay.tdiv nanosPerMilli < 2 ^ 63) :
    retryDelay attempts report =
      exactBackoff attempts (report.baseDelay.tdiv nanosPerMilli) (report.maxDelay.tdiv nanosPerMilli) *
        nanosPerMilli := by
  unfold retryDelay exactBackoff saturateI64
  dsimp only
  congr 1
  omega

-- What a failure that may be retried waits for.
theorem finishDirect_requeued {task : TaskRecord} {report : FinishReport} {now next : Time}
    (requeued : (finishDirect task report now).1 = .requeued next) :
    next = now + retryDelay task.attempts report := by
  unfold finishDirect at requeued
  dsimp only at requeued
  split at requeued
  · cases requeued
  · split at requeued
    · exact (FinishOutcome.requeued.inj requeued).symm
    · split at requeued
      · cases requeued
      · cases requeued

section Planned
variable {encoding : StoreEncoding} {tx tx' : PlanTx} {task : TaskRecord} {stepId : PlanStepId}
  {report : FinishReport} {claimContext : PlanClaimContext} {now next : Time} {update : TaskUpdate}

theorem finishFailedTx_requeued {plan : PlanSpec} {attempts maxAttempts : Nat} {safeError : String}
    (ran : finishFailedTx encoding tx plan task stepId attempts maxAttempts safeError report
      claimContext now = .ok (.requeued next,tx',update)) : next = now + retryDelay attempts report := by
  unfold finishFailedTx at ran
  obtain ⟨failed,_,ran⟩ := bind_ok.mp ran
  obtain ⟨noted,_,ran⟩ := bind_ok.mp ran
  split at ran
  · obtain ⟨marked,_,ran⟩ := bind_ok.mp ran
    cases ran
  · split at ran
    · obtain ⟨ready,_,ran⟩ := bind_ok.mp ran
      cases ran
      rfl
    · obtain ⟨closed,_,ran⟩ := bind_ok.mp ran
      cases ran

theorem finishSucceededTx_final {plan : PlanSpec} {attempts : Nat}
    (ran : finishSucceededTx encoding tx plan task stepId attempts report claimContext now =
      .ok (.requeued next,tx',update)) :
    False := by
  unfold finishSucceededTx at ran
  obtain ⟨succeeded,_,ran⟩ := bind_ok.mp ran
  obtain ⟨noted,_,ran⟩ := bind_ok.mp ran
  split at ran
  · unfold completeCompensationTx at ran
    obtain ⟨completed,_,ran⟩ := bind_ok.mp ran
    obtain ⟨kept,_,ran⟩ := bind_ok.mp ran
    dsimp only at ran
    split at ran
    · obtain ⟨compensated,_,ran⟩ := bind_ok.mp ran
      cases ran
    · cases ran
  · dsimp only at ran
    split at ran
    · obtain ⟨closed,_,ran⟩ := bind_ok.mp ran
      cases ran
    · cases ran

theorem finishPlannedStepTx_requeued {reference : PlanTaskReference}
    (ran : finishPlannedStepTx encoding tx task reference report claimContext now = .ok (.requeued next,
      tx',update)) : ∃ stepId row, task.planStepId = some stepId ∧ tx.rows.steps.lookup stepId = some row ∧
      next = now + retryDelay row.attempts report := by
  unfold finishPlannedStepTx at ran
  obtain ⟨plan,_,ran⟩ := bind_ok.mp ran
  obtain ⟨stepId,held,ran⟩ := bind_ok.mp ran
  obtain ⟨row,stored,ran⟩ := bind_ok.mp ran
  obtain ⟨_,_,ran⟩ := bind_ok.mp ran
  obtain ⟨_,_,ran⟩ := bind_ok.mp ran
  refine ⟨stepId,row,orFail_ok.mp held,orFail_ok.mp stored,?_⟩
  split at ran
  · unfold finishCancelledTx at ran
    obtain ⟨marked,_,ran⟩ := bind_ok.mp ran
    cases ran
  · obtain ⟨judged,_,ran⟩ := bind_ok.mp ran
    cases judged with
    | none => exact (finishSucceededTx_final ran).elim
    | some safeError => exact finishFailedTx_requeued ran

end Planned

end Shaka.Queue
