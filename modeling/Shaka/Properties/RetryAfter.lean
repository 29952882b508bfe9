import Shaka.Library.FixedWidth
import Shaka.Plan.Reports
import Shaka.Store.Runs

namespace Shaka.Properties
open Shaka.Core Queue Plan Store CheckedSteps FixedWidth

-- The end of the window that a time lies in, and the seconds that a rejection at that time names.
def windowEnd (now : Time) (windowSeconds : Nat) : Time :=
  fixedWindowStart now windowSeconds + windowSeconds * nanosPerSecond

def retryAfter (now : Time) (windowSeconds : Nat) : Nat :=
  (max ((windowEnd now windowSeconds - now).tdiv nanosPerSecond) 1).toNat

-- The time of the retry that is suggested.
def retryAt (now : Time) (windowSeconds : Nat) : Time := now + retryAfter now windowSeconds * nanosPerSecond

-- Nothing is lost by counting whole seconds only: the time has no fraction, or no window can be told for
-- it, or at most the last second of the window is left.
def Whole (now : Time) (windowSeconds : Nat) : Prop :=
  now % nanosPerSecond = 0 ∨ fixedWindowStart now windowSeconds = now ∨
    windowEnd now windowSeconds ≤ now + nanosPerSecond

-- The second of a time and the second that its window starts with, of windows that are `width` seconds long.
structure Window (width now second start : Int) : Prop where
  whole : second * nanosPerSecond ≤ now ∧ now < (second + 1) * nanosPerSecond
  within : start ≤ second ∧ second < start + width
  multiple : ∃ turn, start = width * turn

-- A window of no seconds is counted as one of a second.
def windowWidth (windowSeconds : Nat) : Int := max (windowSeconds : Int) 1

theorem windowWidth_pos (windowSeconds : Nat) : 0 < windowWidth windowSeconds := by
  unfold windowWidth
  omega

theorem window_exists (now : Time) (windowSeconds : Nat) :
    ∃ second start, Window (windowWidth windowSeconds) now second start ∧
    fixedWindowStart now windowSeconds = if start < minTimestamp then now else start * nanosPerSecond := by
  have some := windowWidth_pos windowSeconds
  have parts := Int.mul_ediv_add_emod (now / nanosPerSecond) (windowWidth windowSeconds)
  have least := Int.emod_nonneg (now / nanosPerSecond) (Int.ne_of_gt some)
  have most := Int.emod_lt_of_pos (now / nanosPerSecond) some
  refine ⟨now / nanosPerSecond,now / nanosPerSecond - now / nanosPerSecond % windowWidth windowSeconds,
    ⟨?_,?_,?_⟩,?_⟩
  · unfold nanosPerSecond
    omega
  · omega
  · exact ⟨now / nanosPerSecond / windowWidth windowSeconds,by omega⟩
  · unfold fixedWindowStart
    rw [Int.fdiv_eq_ediv_of_nonneg _ (by decide)]
    rfl

-- Windows of one width are the same or apart.
theorem window_same {width now later second second' start start' : Int}
    (window : Window width now second start) (window' : Window width later second' start')
    (after : start ≤ second') (near : second' < start + width) :
    start' = start := by
  obtain ⟨turn,begins⟩ := window.multiple
  obtain ⟨turn',begins'⟩ := window'.multiple
  obtain ⟨least,most⟩ := window'.within
  have wide : 0 < width := by omega
  have one : second' / width = turn ∧ second' % width = second' - start :=
    (Int.ediv_emod_unique wide).mpr ⟨by omega,by omega,by omega⟩
  have other : second' / width = turn' ∧ second' % width = second' - start' :=
    (Int.ediv_emod_unique wide).mpr ⟨by omega,by omega,by omega⟩
  omega

-- What the rejection names is a second at least, and the time left rounded down.
theorem retryAfter_parts (now : Time) (windowSeconds : Nat) : 1 ≤ retryAfter now windowSeconds ∧
    ((retryAfter now windowSeconds : Int) = 1 ∨
      (retryAfter now windowSeconds : Int) = (windowEnd now windowSeconds - now) / nanosPerSecond) ∧
    (nanosPerSecond ≤ windowEnd now windowSeconds - now →
      (retryAfter now windowSeconds : Int) = (windowEnd now windowSeconds - now) / nanosPerSecond) := by
  have truncated := tdiv_cases (windowEnd now windowSeconds - now) nanosPerSecond
  unfold retryAfter nanosPerSecond at *
  omega

-- The retry comes up to the end of the window exactly where whole seconds are enough.
theorem retryAt_reaches (now : Time) (windowSeconds : Nat) :
    windowEnd now windowSeconds ≤ retryAt now windowSeconds ↔ Whole now windowSeconds := by
  obtain ⟨second,start,window,begins⟩ := window_exists now windowSeconds
  obtain ⟨least,short,long⟩ := retryAfter_parts now windowSeconds
  have left : windowEnd now windowSeconds = fixedWindowStart now windowSeconds + windowSeconds *
      nanosPerSecond := rfl
  unfold Whole retryAt
  generalize retryAfter now windowSeconds = seconds at *
  generalize windowEnd now windowSeconds = ending at *
  have whole := window.whole
  unfold nanosPerSecond Time at *
  split at begins
  · omega
  · omega

-- The retry meets another window exactly where it comes up to the end of this one.
theorem retryAt_fresh (now : Time) (windowSeconds : Nat) :
    fixedWindowStart (retryAt now windowSeconds) windowSeconds ≠ fixedWindowStart now windowSeconds ↔
      Whole now windowSeconds := by
  obtain ⟨second,start,window,begins⟩ := window_exists now windowSeconds
  obtain ⟨second',start',window',begins'⟩ := window_exists (retryAt now windowSeconds) windowSeconds
  obtain ⟨least,short,long⟩ := retryAfter_parts now windowSeconds
  have reaches := retryAt_reaches now windowSeconds
  have left : windowEnd now windowSeconds = fixedWindowStart now windowSeconds + windowSeconds *
      nanosPerSecond := rfl
  have waits : retryAt now windowSeconds = now + retryAfter now windowSeconds * nanosPerSecond := rfl
  have width : windowWidth windowSeconds = max (windowSeconds : Int) 1 := rfl
  rw [← reaches]
  have whole := window.whole
  have whole' := window'.whole
  have within := window.within
  have within' := window'.within
  by_cases early : start < minTimestamp
  · -- a window that cannot be told begins with the time itself
    rw [if_pos early] at begins
    have apart : fixedWindowStart (retryAt now windowSeconds) windowSeconds ≠ now := by
      intro same
      have last : start' = second → start = start' := fun last =>
          window_same window' window (by omega) (by omega)
      rw [same] at begins'
      unfold nanosPerSecond Time at *
      split at begins'
      · omega
      · omega
    rw [begins]
    exact iff_of_true apart (reaches.mpr (.inr (.inl begins)))
  · rw [if_neg early] at begins
    by_cases near : second' < start + windowWidth windowSeconds
    · -- a retry within the window
      have same : start ≤ second' → start' = start := fun after => window_same window window' after near
      unfold nanosPerSecond Time at *
      split at begins'
      · omega
      · omega
    · unfold nanosPerSecond Time at *
      split at begins'
      · omega
      · omega

section Limited
variable {encoding : StoreEncoding} {s : QueueStore} {request : SubmitRequest} {clock : SubmitClock}
  {seconds : Nat}

-- Only a full window reports that the rate is limited.
theorem submit_limited
    (limited : submitTaskGoverned encoding s request clock = .error (.rateLimited seconds)) :
    ∃ limits, s.limits.lookup request.principal.tenantId = some limits ∧
      (∃ scope ∈ submitScopes request.principal,
        limits.requestsPerWindow ≤ windowCount s scope (fixedWindowStart clock.now limits.windowSeconds)) ∧
      seconds = retryAfter clock.now limits.windowSeconds := by
  have queue : ofQueue (.rateLimited seconds) = true := rfl
  have validated : validateSubmit request ≠ .error (.rateLimited seconds) := by
    unfold validateSubmit
    refine spares_bind (require_spares queue rfl) fun _ _ => spares_bind (require_spares queue rfl) fun _ _ =>
      spares_bind ?_ fun _ _ => spares_bind (require_spares queue rfl) fun _ _ =>
        spares_bind (liftCore_spares queue) fun _ _ => require_spares queue rfl
    cases request.requestId with
    | none => simp [checkOption]
    | some requestId => exact require_spares queue rfl
  have admitted :
      ∀ s' envelope, admitReference encoding s' request.principal envelope request.planReference clock ≠
      .error (.rateLimited seconds) := fun s' envelope => by
    unfold admitReference
    split
    · simp
    · refine spares_bind ?_ fun _ _ => spares_bind (recordPlanAdmissionTx_spares queue) fun _ _ => by simp
      exact spares_bind (orFail_spares queue rfl) fun _ _ => by simp
  unfold submitTaskGoverned at limited
  rcases bind_error.mp limited with failed | ⟨_,_,limited⟩
  · exact absurd failed validated
  rcases bind_error.mp limited with failed | ⟨session,_,limited⟩
  · exact absurd failed (orFail_spares queue rfl)
  rcases bind_error.mp limited with failed | ⟨_,_,limited⟩
  · exact absurd failed (require_spares queue rfl)
  rcases bind_error.mp limited with failed | ⟨limits,held,limited⟩
  · exact absurd failed (orFail_spares queue rfl)
  refine ⟨limits,orFail_ok.mp held,?_⟩
  split at limited
  · refine absurd limited (spares_bind (loadTask_spares queue) fun _ _ =>
      spares_bind (require_spares queue rfl) fun _ _ => ?_)
    simp
  · dsimp only at limited
    rcases bind_error.mp limited with failed | ⟨_,_,limited⟩
    · obtain ⟨scope,listed,full⟩ := checkEach_error failed
      obtain ⟨beyond,same⟩ := require_error.mp full
      exact ⟨⟨scope,listed,Nat.not_lt.mp beyond⟩,(QueueError.rateLimited.inj same).symm⟩
    · refine absurd limited (spares_bind (admitted _ _) fun _ _ => spares_bind ?_ fun _ _ =>
        spares_bind (require_spares queue rfl) fun _ _ =>
          spares_bind (loadTask_spares queue) fun _ _ => by simp)
      exact spares_bind (require_spares queue rfl) fun _ _ =>
          spares_bind (require_spares queue rfl) fun _ _ =>
        require_spares queue rfl

-- A rejected client is told to wait for a second at least. The wait comes up to the end of the window that
-- rejected it, and to a window with a count of its own, exactly where whole seconds are enough.
theorem retry_after_reaches
    (limited : submitTaskGoverned encoding s request clock = .error (.rateLimited seconds)) :
    ∃ limits, s.limits.lookup request.principal.tenantId = some limits ∧ 1 ≤ seconds ∧
      (windowEnd clock.now limits.windowSeconds ≤ clock.now + seconds * nanosPerSecond ↔
        Whole clock.now limits.windowSeconds) ∧
      (fixedWindowStart (clock.now + seconds * nanosPerSecond) limits.windowSeconds ≠
        fixedWindowStart clock.now limits.windowSeconds ↔ Whole clock.now limits.windowSeconds) := by
  obtain ⟨limits,held,_,rfl⟩ := submit_limited limited
  refine ⟨limits,held,(retryAfter_parts clock.now limits.windowSeconds).1,?_,?_⟩
  · exact retryAt_reaches clock.now limits.windowSeconds
  · exact retryAt_fresh clock.now limits.windowSeconds

end Limited

-- One request a minute is allowed; a second one comes half a second after the first, and once more when it
-- was told to.

def limitedRun : List Operation := [.bootstrapPrincipal trialAdmin,.createSession trialAdmin,
  .setLimits trialAdmin.tenantId {defaultLimits with requestsPerWindow:=1},trialSubmit 1 false (second 1)]

def limitedRequest :
    SubmitRequest := ⟨0,trialAdmin,"task-2","fingerprint",⟨⟨2⟩,trialAdmin.tenantId,trialAdmin.operatorId,
  .default,true,.fromPrincipal trialAdmin⟩,0,1,none,none⟩

def limitedAnswer (now : Time) : Except QueueError ((SubmitOutcome × TaskRecord) × QueueStore) :=
  submitTaskGoverned trialEncoding (trial limitedRun) limitedRequest ⟨now,now,now⟩

theorem error_of_map {ε α β : Type} {result : Except ε α} {f : α → β} {e : ε}
    (failed : result.map f = .error e) : result = .error e := by
  cases result with
  | error e' => exact congrArg Except.error (Except.error.inj failed)
  | ok a => cases failed

theorem limited_answers : limitedAnswer (second 3) = .error (.rateLimited 57) ∧
    limitedAnswer 1500000000 = .error (.rateLimited 58) ∧
    limitedAnswer (1500000000 + 58 * nanosPerSecond) = .error (.rateLimited 1) ∧
    (trial limitedRun).limits.lookup trialAdmin.tenantId =
      some {defaultLimits with requestsPerWindow:=1} := by
  have answers : (limitedAnswer (second 3)).map (fun _ => ()) = .error (.rateLimited 57) ∧
      (limitedAnswer 1500000000).map (fun _ => ()) = .error (.rateLimited 58) ∧
      (limitedAnswer (1500000000 + 58 * nanosPerSecond)).map (fun _ => ()) = .error (.rateLimited 1) ∧
      (trial limitedRun).limits.lookup trialAdmin.tenantId =
        some {defaultLimits with requestsPerWindow:=1} := by decide +kernel
  exact ⟨error_of_map answers.1,error_of_map answers.2.1,error_of_map answers.2.2.1,answers.2.2.2⟩

theorem retry_after_reaches_whole : windowEnd (second 3) 60 ≤ second 3 + 57 * nanosPerSecond ∧
    fixedWindowStart (second 3 + 57 * nanosPerSecond) 60 ≠ fixedWindowStart (second 3) 60 := by
  obtain ⟨limits,held,_,reaches,fresh⟩ := retry_after_reaches limited_answers.1
  obtain rfl := Option.some.inj (limited_answers.2.2.2.symm.trans held)
  exact ⟨reaches.mpr (.inl (by decide)),fresh.mpr (.inl (by decide))⟩

-- At a second and a half the client is told to wait for 58 of the 58.5 seconds that are left, and is
-- rejected again.
theorem retry_after_reaches_fraction : limitedAnswer 1500000000 = .error (.rateLimited 58) ∧
    (trial limitedRun).limits.lookup trialAdmin.tenantId = some {defaultLimits with requestsPerWindow:=1} ∧
    ¬ windowEnd 1500000000 60 ≤ 1500000000 + 58 * nanosPerSecond ∧
    limitedAnswer (1500000000 + 58 * nanosPerSecond) = .error (.rateLimited 1) := by
  refine ⟨limited_answers.2.1,limited_answers.2.2.2,?_,limited_answers.2.2.1⟩
  decide

end Shaka.Properties
