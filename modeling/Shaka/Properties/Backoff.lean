import Shaka.Queue.Backoff
import Shaka.Store.Runs

namespace Shaka.Properties
open Shaka.Core Queue Store FixedWidth

-- A delay over all integers, in whole milliseconds, is no longer than the bound itself.
theorem exactBackoff_within (attempts : Nat) (baseMs : Int) (maxDelay : Duration) :
    exactBackoff attempts baseMs (maxDelay.nanos.tdiv nanosPerMilli) * nanosPerMilli ≤
      max 0 maxDelay.nanos := by
  have bounded := (exactBackoff_bounded attempts baseMs (maxDelay.nanos.tdiv nanosPerMilli)).2
  have truncated := tdiv_cases maxDelay.nanos nanosPerMilli
  unfold nanosPerMilli at *
  omega

-- The delay before the next attempt, on machine words: both paths come to the same one, which is what
-- unbounded arithmetic gives, lies between zero and the bound and does not fall as the attempts grow.
-- It is what the two ends of a failed attempt wait for.
theorem backoff_law (attempts : UInt32) (baseDelay maxDelay : Duration) : ∃ delay : Duration,
    directBackoff attempts baseDelay maxDelay = some delay ∧ plannedBackoff attempts baseDelay maxDelay =
      some delay ∧
    delay.nanos = exactBackoff attempts.toNat (baseDelay.nanos.tdiv nanosPerMilli)
      (maxDelay.nanos.tdiv nanosPerMilli) * nanosPerMilli ∧
    (0 ≤ delay.nanos ∧ delay.nanos ≤ max 0 maxDelay.nanos) ∧
    (∀ later : UInt32, attempts ≤ later → ∃ longer : Duration,
      directBackoff later baseDelay maxDelay = some longer ∧
      plannedBackoff later baseDelay maxDelay = some longer ∧ delay.nanos ≤ longer.nanos) ∧
    (∀ (report : FinishReport) (now next : Time), report.baseDelay = baseDelay.nanos →
      report.maxDelay = maxDelay.nanos →
      (∀ task : TaskRecord, task.attempts = attempts.toNat →
        (finishDirect task report now).1 = .requeued next →
        next = now + delay.nanos) ∧
      (∀ (encoding : StoreEncoding) (tx tx' : PlanTx) (task : TaskRecord) (reference : PlanTaskReference)
        (claimContext : PlanClaimContext) (update : TaskUpdate),
        (∀ stepId ∈ task.planStepId, ∀ row ∈ tx.rows.steps.lookup stepId, row.attempts = attempts.toNat) →
        finishPlannedStepTx encoding tx task reference report claimContext now = .ok (.requeued next,
          tx',update) → next = now + delay.nanos)) := by
  obtain ⟨delay,planned,exactly⟩ := plannedBackoff_exact attempts baseDelay maxDelay
  have direct := (directBackoff_planned attempts baseDelay maxDelay).trans planned
  refine ⟨delay,direct,planned,exactly,⟨?_,?_⟩,fun later more => ?_,fun report now next base bound => ?_⟩
  · have least := (exactBackoff_bounded attempts.toNat (baseDelay.nanos.tdiv nanosPerMilli)
      (maxDelay.nanos.tdiv nanosPerMilli)).1
    unfold nanosPerMilli at *
    omega
  · rw [exactly]
    exact exactBackoff_within _ _ _
  · obtain ⟨longer,planned',exactly'⟩ := plannedBackoff_exact later baseDelay maxDelay
    have rising := exactBackoff_rising (UInt32.le_iff_toNat_le.mp more) (baseDelay.nanos.tdiv nanosPerMilli)
      (maxDelay.nanos.tdiv nanosPerMilli)
    refine ⟨longer,(directBackoff_planned later baseDelay maxDelay).trans planned',planned',?_⟩
    rw [exactly,exactly']
    exact Int.mul_le_mul_of_nonneg_right rising (by decide)
  · have words : report.maxDelay.tdiv nanosPerMilli < 2 ^ 63 := by
      rw [bound,← numMilliseconds_exact]
      exact Int64.toInt_lt _
    have waits : retryDelay attempts.toNat report = delay.nanos := by
      rw [retryDelay_exact attempts.toNat report words,base,bound,exactly]
    refine ⟨fun task counted requeued =>
      ?_,fun encoding tx tx' task reference claimContext update counted ran => ?_⟩
    · rw [finishDirect_requeued requeued,counted,waits]
    · obtain ⟨stepId,row,held,stored,rfl⟩ := finishPlannedStepTx_requeued ran
      rw [counted stepId held row stored,waits]

def quarterSecond : Duration := ⟨250 * nanosPerMilli,by decide⟩

def halfMinute : Duration := ⟨30 * nanosPerSecond,by decide⟩

def failedReport : FinishReport := ⟨none,some "timeout",true,quarterSecond.nanos,halfMinute.nanos⟩

def failedTask : TaskRecord :=
  {newTask ⟨0,trialAdmin,"task","fingerprint",⟨⟨1⟩,trialAdmin.tenantId,trialAdmin.operatorId,.default,true,
    .fromPrincipal trialAdmin⟩,0,5,none,none⟩ ⟨⟨1⟩,trialAdmin.tenantId,trialAdmin.operatorId,.default,true,
    .fromPrincipal trialAdmin⟩ 0 with status:=.running,attempts:=3}

-- The third failure of a direct task waits for a second, no less than the second failure.
theorem backoff_law_third : ∃ delay : Duration, directBackoff 3 quarterSecond halfMinute = some delay ∧
    plannedBackoff 3 quarterSecond halfMinute = some delay ∧ delay.nanos = nanosPerSecond ∧
    (finishDirect failedTask failedReport 0).1 = .requeued (0 + delay.nanos) := by
  obtain ⟨delay,direct,planned,exactly,_,_,finished⟩ := backoff_law 3 quarterSecond halfMinute
  refine ⟨delay,direct,planned,exactly.trans (by decide),?_⟩
  have requeued : (finishDirect failedTask failedReport 0).1 = .requeued nanosPerSecond := by decide
  rw [requeued,(finished failedReport 0 nanosPerSecond rfl rfl).1 failedTask rfl requeued]

end Shaka.Properties
