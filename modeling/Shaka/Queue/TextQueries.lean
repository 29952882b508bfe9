import Shaka.Core.Timestamps
import Shaka.Queue.Cancellation

namespace Shaka.Queue
open Shaka.Core

-- The TEXT column that holds a time.
def timestamp (time : Time) : String := toRfc3339 (.ofTime time)

-- `stored <= ?1`
def textAtMost (stored bound : Time) : Bool := textOrder (timestamp stored) (timestamp bound) != .gt

-- `stored > ?1`
def textAfter (stored bound : Time) : Bool := textOrder (timestamp stored) (timestamp bound) == .gt

-- The queries of the claim and of the recovery over the columns as they are stored.
def dueByText (now : Time) (task : TaskRecord) : Bool :=
  task.status == .queued && !task.cancelRequested && textAtMost task.nextAttemptAt now

def claimOrderByText (left right : TaskRecord) : Prop :=
  right.priority < left.priority ∨
    (left.priority = right.priority ∧ textAtMost left.createdAt right.createdAt = true)

instance : DecidableRel claimOrderByText := fun left right =>
  inferInstanceAs (Decidable (right.priority < left.priority ∨
    (left.priority = right.priority ∧ textAtMost left.createdAt right.createdAt = true)))

def claimCandidatesByText (s : QueueStore) (now : Time) : List TaskRecord :=
  ((s.taskRows.filter (dueByText now)).insertionSort claimOrderByText).take claimLimit

def expiredByText (now : Time) (task : TaskRecord) : Bool :=
  task.status.isLeased && task.leaseUntil.any fun leaseUntil => textAtMost leaseUntil now

def recoveryCandidatesByText (s : QueueStore) (now : Time) : List TaskRecord :=
  ((s.taskRows.filter (expiredByText now)).insertionSort fun left right =>
    textAtMost left.updatedAt right.updatedAt = true).take 128

-- A time that is written with a year of four digits.
def Dated (time : Time) : Prop := (Instant.ofTime time).FourDigits

instance (time : Time) : Decidable (Dated time) :=
  inferInstanceAs (Decidable (Instant.ofTime time).FourDigits)

structure DatedTask (task : TaskRecord) : Prop where
  nextAttemptAt : Dated task.nextAttemptAt
  leaseUntil : ∀ leaseUntil ∈ task.leaseUntil, Dated leaseUntil
  createdAt : Dated task.createdAt
  updatedAt : Dated task.updatedAt

theorem timestamp_compare {left right : Time} (dated : Dated left) (dated' : Dated right) :
    textOrder (timestamp left) (timestamp right) = compare left right :=
  (timestamps_compare dated dated').trans (compare_ofTime left right)

theorem timestamp_apart (left right : Time) (dated : Dated left) (dated' : Dated right)
    (same : timestamp left = timestamp right) : left = right := by
  have ordered := timestamp_compare dated dated'
  rw [same,timestamp_compare dated' dated',compare_eq_iff_eq.mpr rfl] at ordered
  exact compare_eq_iff_eq.mp ordered.symm

-- A year that is not written with four digits is written with a sign.
theorem timestamp_dated {left right : Time} (dated : Dated left) (same : timestamp left = timestamp right) :
    Dated right := by
  by_contra undated
  have signed : ¬ (0 ≤ (Instant.ofTime right).date.year ∧ (Instant.ofTime right).date.year ≤ 9999) := undated
  have signs : ∀ value < 10, clockDigit value ≠ '+' ∧ clockDigit value ≠ '-' := by decide
  obtain ⟨value,small,rest,begins⟩ := numeral_begins 3 (Instant.ofTime left).date.year.toNat
  have texts : stampText (.ofTime left) = stampText (.ofTime right) := String.ofList_injective same
  rw [stampText,stampText,yearText_four dated,begins,yearText,if_neg signed] at texts
  have first := (List.cons.inj texts).1
  split at first
  · exact (signs value small).1 first
  · exact (signs value small).2 first

theorem textAtMost_dated {stored bound : Time} (dated : Dated stored) (dated' : Dated bound) :
    textAtMost stored bound = decide (stored ≤ bound) := by
  rw [textAtMost,timestamp_compare dated dated',Bool.eq_iff_iff,bne_iff_ne,decide_eq_true_iff,
    compare_le_iff_le]

theorem textAfter_dated {stored bound : Time} (dated : Dated stored) (dated' : Dated bound) :
    textAfter stored bound = decide (bound < stored) := by
  rw [textAfter,timestamp_compare dated dated',Bool.eq_iff_iff,beq_iff_eq,decide_eq_true_iff,
    compare_gt_iff_gt]

theorem dueByText_dated {now : Time} {task : TaskRecord} (dated : DatedTask task) (current : Dated now) :
    dueByText now task = isDue now task := by
  rw [dueByText,isDue,textAtMost_dated dated.nextAttemptAt current]

theorem expiredByText_dated {now : Time} {task : TaskRecord} (dated : DatedTask task) (current : Dated now) :
    expiredByText now task = isExpired now task := by
  rw [expiredByText,isExpired]
  congr 1
  cases held : task.leaseUntil with
  | none => rfl
  | some leaseUntil => simp [textAtMost_dated (dated.leaseUntil leaseUntil held) current]

end Shaka.Queue
