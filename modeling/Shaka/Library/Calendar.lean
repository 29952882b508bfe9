import Shaka.Library.OrderedText

namespace Calendar
open OrderedText

-- Dates of the Gregorian calendar, carried on before its introduction.
structure Civil where
  year : Int
  month : Nat
  day : Nat
  deriving DecidableEq, Repr

def isLeap (year : Nat) : Bool := year % 4 == 0 && (year % 100 != 0 || year % 400 == 0)

def yearLength (year : Nat) : Nat := if isLeap year then 366 else 365

-- How many years are leap years, of the first of a cycle of four hundred.
def leapDays (years : Nat) : Nat := (years + 3) / 4 - (years + 99) / 100 + (years + 399) / 400

-- The year within the cycle and the day within the year, counted from 0.
def cycleYear (day : Nat) : Nat × Nat :=
  let year := day / 365
  let ordinal := day % 365
  if ordinal < leapDays year then (year - 1,ordinal + 365 - leapDays (year - 1))
    else (year,ordinal - leapDays year)

def monthLengths (leap : Bool) : List Nat := [31,if leap then 29 else 28,31,30,31,30,31,31,30,31,30,31]

-- The month and the day of the month, counted from 1, of a day of the year, counted from 0.
def monthDay : List Nat → Nat → Nat × Nat
  | [],ordinal => (1,ordinal + 1)
  | length :: rest,ordinal =>
    if ordinal < length then (1,ordinal + 1)
    else ((monthDay rest (ordinal - length)).1 + 1,(monthDay rest (ordinal - length)).2)

-- The date of a day, counted from the first of January of the year 0.
def dateOfDay (day : Int) : Civil :=
  let (year,ordinal) := cycleYear (day % 146097).toNat
  let (month,date) := monthDay (monthLengths (isLeap year)) ordinal
  ⟨400 * (day / 146097) + year,month,date⟩

theorem leapDays_succ (year : Nat) : leapDays (year + 1) = leapDays year + if isLeap year then 1 else 0 := by
  have fours : (year + 1 + 3) / 4 = (year + 3) / 4 + if year % 4 = 0 then 1 else 0 := by
    split <;> omega
  have hundreds : (year + 1 + 99) / 100 = (year + 99) / 100 + if year % 100 = 0 then 1 else 0 := by
    split <;> omega
  have cycles : (year + 1 + 399) / 400 = (year + 399) / 400 + if year % 400 = 0 then 1 else 0 := by
    split <;> omega
  have fewer : (year + 99) / 100 ≤ (year + 3) / 4 := by omega
  unfold leapDays
  rw [fours,hundreds,cycles]
  by_cases four : year % 4 = 0
  · by_cases hundred : year % 100 = 0
    · by_cases cycle : year % 400 = 0
      · simp only [isLeap,four,hundred,cycle,if_true,beq_self_eq_true,Bool.true_and,Bool.or_true]
        omega
      · simp [isLeap,four,hundred,cycle]
    · have cycle : year % 400 ≠ 0 := by omega
      simp only [isLeap,four,hundred,cycle,if_true,if_false,beq_self_eq_true,Bool.true_and,bne,Bool.not_false,
        Bool.true_or,beq_eq_false_iff_ne.mpr hundred]
      omega
  · have hundred : year % 100 ≠ 0 := by omega
    have cycle : year % 400 ≠ 0 := by omega
    simp [isLeap,four,hundred,cycle]

-- What comes before a year of the cycle.
def yearStart (year : Nat) : Nat := 365 * year + leapDays year

theorem yearStart_succ (year : Nat) : yearStart (year + 1) = yearStart year + yearLength year := by
  unfold yearStart yearLength
  rw [leapDays_succ]
  split
  · omega
  · omega

theorem cycleYear_parts {day : Nat} (within : day < 146097) : (cycleYear day).1 < 400 ∧
    day = yearStart (cycleYear day).1 + (cycleYear day).2 ∧
    (cycleYear day).2 < yearLength (cycleYear day).1 := by
  have few : ∀ year ≤ 400, leapDays year ≤ year ∧ leapDays year ≤ 365 := fun year _ => by
    unfold leapDays
    omega
  unfold cycleYear
  dsimp only
  split
  · next early =>
    obtain ⟨year,same⟩ : ∃ year, day / 365 = year + 1 := by
      refine ⟨day / 365 - 1,?_⟩
      have := (few (day / 365) (by omega)).1
      omega
    have next := yearStart_succ year
    have bounded := (few year (by omega)).2
    rw [same] at early ⊢
    simp only [yearStart,Nat.add_sub_cancel] at next ⊢
    refine ⟨?_,?_,?_⟩
    · omega
    · omega
    · omega
  · next late =>
    have next := yearStart_succ (day / 365)
    have whole : leapDays 400 = 97 := by decide
    simp only [yearStart] at next ⊢
    refine ⟨?_,?_,?_⟩
    · by_contra beyond
      have last : day / 365 = 400 := by omega
      rw [last] at late
      omega
    · omega
    · have days := Nat.div_add_mod day 365
      have short : day % 365 < 365 := Nat.mod_lt _ (by decide)
      have least : 365 ≤ yearLength (day / 365) := by
        unfold yearLength
        split
        · decide
        · exact Nat.le_refl _
      omega

-- The months of a year make up its days.
theorem monthLengths_sum (year : Nat) : (monthLengths (isLeap year)).sum = yearLength year := by
  unfold yearLength
  cases isLeap year
  · rfl
  · rfl

theorem yearStart_rising {a b : Nat} (less : a < b) : yearStart a + yearLength a ≤ yearStart b := by
  obtain ⟨more,rfl⟩ := Nat.exists_eq_add_of_lt less
  induction more with
  | zero => exact Nat.le_of_eq (yearStart_succ a).symm
  | succ more ih =>
    have before := ih (by omega)
    rw [show a + (more + 1) + 1 = (a + more + 1) + 1 from rfl,yearStart_succ]
    omega

-- Days of one year are in the order of their months, and in a month of their dates.
theorem monthDay_compare {lengths : List Nat} {a b : Nat} (within : a < lengths.sum)
    (within' : b < lengths.sum) :
    (compare (monthDay lengths a).1 (monthDay lengths b).1).then (compare (monthDay lengths a).2
      (monthDay lengths b).2) = compare a b := by
  induction lengths generalizing a b with
  | nil => cases within
  | cons length rest ih =>
    have counted : ∀ lengths ordinal, 1 ≤ (monthDay lengths ordinal).1 := fun lengths ordinal => by
      cases lengths with
      | nil => exact Nat.le_refl 1
      | cons length rest =>
        rw [monthDay]
        split
        · exact Nat.le_refl 1
        · exact Nat.le_add_left 1 _
    rw [List.sum_cons] at within within'
    simp only [monthDay]
    split
    · next here =>
      split
      · next here' =>
        rw [compare_eq_iff_eq.mpr rfl]
        exact compare_alike (by omega) (by omega)
      · next there' =>
        have first := counted rest (b - length)
        rw [compare_lt_iff_lt.mpr (show 1 < (monthDay rest (b - length)).1 + 1 by omega),
          compare_lt_iff_lt.mpr (show a < b by omega)]
        rfl
    · next there =>
      split
      · next here' =>
        have first := counted rest (a - length)
        rw [compare_gt_iff_gt.mpr (show 1 < (monthDay rest (a - length)).1 + 1 by omega),
          compare_gt_iff_gt.mpr (show b < a by omega)]
        rfl
      · next there' =>
        have months : compare ((monthDay rest (a - length)).1 + 1) ((monthDay rest (b - length)).1 + 1) =
            compare (monthDay rest (a - length)).1 (monthDay rest (b - length)).1 :=
            compare_alike (by omega) (by omega)
        rw [months,@ih (a - length) (b - length) (by omega) (by omega)]
        exact compare_alike (by omega) (by omega)

theorem monthDay_within {lengths : List Nat} {longest ordinal : Nat} (within : ordinal < lengths.sum)
    (short : ∀ length ∈ lengths, length ≤ longest) :
    (monthDay lengths ordinal).1 ≤ lengths.length ∧ (monthDay lengths ordinal).2 ≤ longest := by
  induction lengths generalizing ordinal with
  | nil => cases within
  | cons length rest ih =>
    rw [List.sum_cons] at within
    rw [monthDay,List.length_cons]
    split
    · next here =>
      have most := short length List.mem_cons_self
      exact ⟨Nat.le_add_left 1 _,by omega⟩
    · next there =>
      obtain ⟨months,days⟩ := @ih (ordinal - length) (by omega) fun length listed =>
          short length (List.mem_cons_of_mem _ listed)
      exact ⟨Nat.succ_le_succ months,days⟩

theorem dateOfDay_within (day : Int) : (dateOfDay day).month ≤ 12 ∧ (dateOfDay day).day ≤ 31 := by
  obtain ⟨_,_,ordinal⟩ := cycleYear_parts (show (day % 146097).toNat < 146097 by omega)
  unfold dateOfDay
  refine monthDay_within (by rwa [monthLengths_sum]) ?_
  cases isLeap (cycleYear (day % 146097).toNat).1
  · decide
  · decide

-- Days are in the order of their dates.
theorem dateOfDay_compare (a b : Int) : compare a b = (compare (dateOfDay a).year (dateOfDay b).year).then
    ((compare (dateOfDay a).month (dateOfDay b).month).then
        (compare (dateOfDay a).day (dateOfDay b).day)) := by
  have within : ∀ day : Int, (day % 146097).toNat < 146097 := fun day => by omega
  obtain ⟨year,whole,ordinal⟩ := cycleYear_parts (within a)
  obtain ⟨year',whole',ordinal'⟩ := cycleYear_parts (within b)
  unfold dateOfDay
  dsimp only
  generalize cycleYear (a % 146097).toNat = at_ at *
  generalize cycleYear (b % 146097).toNat = at' at *
  obtain ⟨y,o⟩ := at_
  obtain ⟨y',o'⟩ := at'
  dsimp only at *
  have rising := @yearStart_rising y y'
  have rising' := @yearStart_rising y' y
  have days : compare a b = (compare (400 * (a / 146097) + (y : Int))
      (400 * (b / 146097) + (y' : Int))).then (compare o o') := by
    refine compare_parts (fun less => ?_) (fun more => ?_) fun same => ?_
    · omega
    · omega
    · obtain rfl : y = y' := by omega
      omega
  rw [days]
  by_cases same : 400 * (a / 146097) + (y : Int) = 400 * (b / 146097) + (y' : Int)
  · obtain rfl : y = y' := by omega
    rw [compare_eq_iff_eq.mpr same]
    exact (monthDay_compare (by rwa [monthLengths_sum]) (by rwa [monthLengths_sum])).symm
  · rcases lt_or_gt_of_ne same with less | more
    · rw [compare_lt_iff_lt.mpr less]
      rfl
    · rw [compare_gt_iff_gt.mpr more]
      rfl

end Calendar
