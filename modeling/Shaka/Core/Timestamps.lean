import Shaka.Core.Vocabulary
import Shaka.Library.Calendar

namespace Shaka.Core
open OrderedText Calendar

-- A moment as `DateTime<Utc>` keeps it, in seconds since 1970-01-01T00:00:00; a leap second goes on with
-- the nanoseconds of the last second of its minute.
structure Instant where
  seconds : Int
  nanos : Nat
  proper : nanos < 1000000000 ∨ (seconds % 60 = 59 ∧ nanos < 2000000000)

instance : Ord Instant where
  compare left right := (compare left.seconds right.seconds).then (compare left.nanos right.nanos)

def Instant.ofTime (time : Time) : Instant where
  seconds := time / 1000000000
  nanos := (time % 1000000000).toNat
  proper := .inl (by omega)

theorem compare_ofTime (left right : Int) :
    compare (Instant.ofTime left) (.ofTime right) = compare left right := by
  have nanos : compare (left % 1000000000).toNat (right % 1000000000).toNat =
      compare (left % 1000000000) (right % 1000000000) := compare_alike (by omega) (by omega)
  rw [compare_ediv (show (0 : Int) < 1000000000 by decide),← nanos]
  rfl

def Instant.date (instant : Instant) : Civil := dateOfDay (instant.seconds / 86400 + 719528)

def Instant.secondOfDay (instant : Instant) : Nat := (instant.seconds % 86400).toNat

-- The years that are written with four digits.
def Instant.FourDigits (instant : Instant) : Prop := 0 ≤ instant.date.year ∧ instant.date.year ≤ 9999

instance (instant : Instant) : Decidable instant.FourDigits :=
  inferInstanceAs (Decidable (0 ≤ instant.date.year ∧ instant.date.year ≤ 9999))

def clockDigit (value : Nat) : Char := Char.ofNat (48 + value)

abbrev numeral (width number : Nat) : List Char := digits clockDigit 10 width number

def yearText (year : Int) : List Char :=
  if 0 ≤ year ∧ year ≤ 9999 then numeral 4 year.toNat
  else (if 0 ≤ year then '+' else '-') ::
    (List.replicate (4 - (Nat.toDigits 10 year.natAbs).length) '0' ++ Nat.toDigits 10 year.natAbs)

-- `SecondsFormat::AutoSi`
def fraction (nano : Nat) : List Char :=
  if nano = 0 then []
  else if nano % 1000000 = 0 then '.' :: numeral 3 (nano / 1000000)
  else if nano % 1000 = 0 then '.' :: numeral 6 (nano / 1000)
  else '.' :: numeral 9 nano

-- The time of the day; a leap second is the second after the 59th.
def clockText (instant : Instant) : List Char :=
  numeral 2 (instant.secondOfDay / 3600) ++ ':' :: (numeral 2 (instant.secondOfDay / 60 % 60) ++ ':' ::
    (numeral 2 (instant.secondOfDay % 60 + instant.nanos / 1000000000) ++
      (fraction (instant.nanos % 1000000000) ++ ['+','0','0',':','0','0'])))

def stampText (instant : Instant) : List Char :=
  yearText instant.date.year ++ '-' :: (numeral 2 instant.date.month ++ '-' ::
    (numeral 2 instant.date.day ++ 'T' :: clockText instant))

def toRfc3339 (instant : Instant) : String := String.ofList (stampText instant)

-- Two texts byte by byte, as a database orders them.
def textBytes (text : String) : List UInt8 := text.toUTF8.data.toList

def textOrder (left right : String) : Ordering := List.compareLex compare (textBytes left) (textBytes right)

def byteOrder (left right : Char) : Ordering := compare left.val.toUInt8 right.val.toUInt8

instance : Std.ReflCmp byteOrder where
  compare_self := fun {c} => (Std.ReflCmp.compare_self : compare c.val.toUInt8 c.val.toUInt8 = .eq)

theorem textBytes_ascii {text : List Char} (ascii : ∀ c ∈ text, c.utf8Size = 1) :
    textBytes (String.ofList text) = text.map fun c => c.val.toUInt8 := by
  have bytes : text.flatMap String.utf8EncodeChar = text.map fun c => c.val.toUInt8 := by
    induction text with
    | nil => rfl
    | cons c text ih =>
      rw [List.flatMap_cons,String.utf8EncodeChar_eq_singleton (ascii c List.mem_cons_self),List.map_cons,
        ih fun c listed => ascii c (List.mem_cons_of_mem _ listed)]
      rfl
  rw [textBytes,String.toUTF8_eq_toByteArray,String.toByteArray_ofList,List.utf8Encode,
    List.toList_data_toByteArray,bytes]

theorem textOrder_ascii {left right : List Char} (ascii : ∀ c ∈ left, c.utf8Size = 1)
    (ascii' : ∀ c ∈ right, c.utf8Size = 1) :
    textOrder (String.ofList left) (String.ofList right) = List.compareLex byteOrder left right := by
  rw [textOrder,textBytes_ascii ascii,textBytes_ascii ascii',compare_map]
  rfl

theorem clockDigit_rising : ∀ i < 10, ∀ j < 10, byteOrder (clockDigit i) (clockDigit j) = compare i j := by
  decide

theorem numeral_compare {width a b : Nat} (small : a < 10 ^ width) (small' : b < 10 ^ width) :
    List.compareLex byteOrder (numeral width a) (numeral width b) = compare a b :=
  digits_compare clockDigit_rising small small'

-- Two texts that begin with a numeral and the same separator.
theorem field_compare {width a b : Nat} {c : Char} {r s : List Char} (small : a < 10 ^ width)
    (small' : b < 10 ^ width) :
    List.compareLex byteOrder (numeral width a ++ c :: r) (numeral width b ++ c :: s) =
      (compare a b).then (List.compareLex byteOrder r s) := by
  rw [compare_append (by simp),numeral_compare small small',compare_cons]

-- The milliseconds, the microseconds and the nanoseconds of a fraction.
def groups (nano : Nat) : List Nat := [nano / 1000000,nano / 1000 % 1000,nano % 1000]

-- A fraction is written by its groups, less those at its end that are zero.
theorem fraction_groups (nano : Nat) :
    fraction nano = if nano = 0 then [] else '.' :: (trimmed (groups nano)).flatMap (numeral 3) := by
  have six : ∀ number, numeral 6 number = numeral 3 (number / 1000) ++ numeral 3 (number % 1000) :=
    fun number =>
    (digits_append 3 3 number).trans (congrArg (numeral 3 (number / 1000) ++ ·) (digits_mod 3 number).symm)
  have nine : ∀ number, numeral 9 number = numeral 6 (number / 1000) ++ numeral 3 (number % 1000) :=
    fun number =>
    (digits_append 6 3 number).trans (congrArg (numeral 6 (number / 1000) ++ ·) (digits_mod 3 number).symm)
  unfold fraction
  split
  · rfl
  · next some =>
    split
    · next millis =>
      have parts : nano / 1000000 ≠ 0 ∧ nano / 1000 % 1000 = 0 ∧ nano % 1000 = 0 := by omega
      simp [groups,trimmed,parts]
    · next finer =>
      split
      · next micros =>
        have parts : nano / 1000 % 1000 ≠ 0 ∧ nano % 1000 = 0 := by omega
        have high : nano / 1000 / 1000 = nano / 1000000 := Nat.div_div_eq_div_mul nano 1000 1000
        simp [groups,trimmed,parts,six,high]
      · next finest =>
        have high : nano / 1000 / 1000 = nano / 1000000 := Nat.div_div_eq_div_mul nano 1000 1000
        have parts : nano % 1000 ≠ 0 := by omega
        simp [groups,trimmed,parts,six,nine,high]

theorem groups_compare (a b : Nat) : List.compareLex compare (groups a) (groups b) = compare a b := by
  rw [groups,groups,List.compareLex_cons_cons,List.compareLex_cons_cons,List.compareLex_cons_cons,
    List.compareLex_nil_nil,
    Ordering.then_eq,compare_div 1000 a b,compare_div 1000 (a / 1000) (b / 1000),Nat.div_div_eq_div_mul,
    Nat.div_div_eq_div_mul,Ordering.then_assoc]

-- The offset stands before every digit, and so does the point of a fraction after it.
theorem offset_before : ∀ value < 10,
    byteOrder '+' (clockDigit value) = .lt ∧ byteOrder (clockDigit value) '+' = .gt := by
  decide

theorem numeral_begins (width number : Nat) :
    ∃ value < 10, ∃ rest, numeral (width + 1) number = clockDigit value :: rest := by
  have long : (numeral (width + 1) number).length = width + 1 := digits_length (width + 1) number
  obtain ⟨c,rest,begins⟩ := List.exists_cons_of_length_eq_add_one long
  obtain ⟨value,small,rfl⟩ := mem_digits (begins ▸ List.mem_cons_self : c ∈ numeral (width + 1) number)
      (by decide)
  exact ⟨value,small,rest,begins⟩

-- Fractions of whatever lengths, each followed by the offset, are in the order of their numbers.
theorem fraction_compare {a b : Nat} (small : a < 1000000000) (small' : b < 1000000000) (tail : List Char) :
    List.compareLex byteOrder (fraction a ++ '+' :: tail) (fraction b ++ '+' :: tail) = compare a b := by
  have short : ∀ nano, nano < 1000000000 → ∀ group ∈ trimmed (groups nano), group < 10 ^ 3 := by
    intro nano small group left
    have listed := mem_trimmed left
    simp only [groups,List.mem_cons,List.not_mem_nil,or_false] at listed
    omega
  rw [fraction_groups,fraction_groups]
  split
  · next none =>
    split
    · next none' =>
      rw [none,none']
      exact compare_self _
    · next some' =>
      rw [compare_lt_iff_lt.mpr (show a < b by omega)]
      rfl
  · next some =>
    split
    · next none' =>
      rw [compare_gt_iff_gt.mpr (show b < a by omega)]
      rfl
    · next some' =>
      have kept := compare_trimmed (show (groups a).length = (groups b).length from rfl)
      rw [List.cons_append,List.cons_append,compare_cons,← groups_compare,← kept]
      refine compare_words (fun g _ h _ => by simp) (fun g listed h listed' => ?_) fun g _ => ?_
      · exact numeral_compare (short a small g listed) (short b small' h listed')
      · obtain ⟨value,digit,rest,begins⟩ := numeral_begins 2 g
        exact ⟨clockDigit value,rest,begins,offset_before value digit⟩

-- A leap second comes after the second it goes on with, and before the next minute.
theorem second_compare (left right : Instant) :
    (compare (left.secondOfDay % 60) (right.secondOfDay % 60)).then (compare left.nanos right.nanos) =
      (compare (left.secondOfDay % 60 + left.nanos / 1000000000)
        (right.secondOfDay % 60 + right.nanos / 1000000000)).then
        (compare (left.nanos % 1000000000) (right.nanos % 1000000000)) := by
  have proper : ∀ instant :
      Instant, instant.nanos < 1000000000 ∨ (instant.secondOfDay % 60 = 59 ∧ instant.nanos < 2000000000) := by
    intro instant
    refine instant.proper.imp_right fun leap => ⟨?_,leap.2⟩
    have last := leap.1
    unfold Instant.secondOfDay
    omega
  have left_proper := proper left
  have right_proper := proper right
  have whole : ∀ instant : Instant, instant.secondOfDay % 60 < 60 := fun instant => Nat.mod_lt _ (by decide)
  have left_whole := whole left
  have right_whole := whole right
  generalize left.secondOfDay % 60 = x at *
  generalize right.secondOfDay % 60 = y at *
  generalize left.nanos = n at *
  generalize right.nanos = m at *
  have total : ∀ x n : Nat, (x * 1000000000 + n) / 1000000000 = x + n / 1000000000 ∧
      (x * 1000000000 + n) % 1000000000 = n % 1000000000 := fun x n => by omega
  have written := compare_div 1000000000 (x * 1000000000 + n) (y * 1000000000 + m)
  rw [(total x n).1,(total x n).2,(total y m).1,(total y m).2] at written
  rw [← written]
  exact (compare_parts (by omega) (by omega) (by omega)).symm

theorem clock_compare (left right : Instant) : List.compareLex byteOrder (clockText left) (clockText right) =
    (compare left.secondOfDay right.secondOfDay).then (compare left.nanos right.nanos) := by
  have day : ∀ instant : Instant, instant.secondOfDay < 86400 := fun instant => by
    unfold Instant.secondOfDay
    omega
  have most : ∀ instant : Instant, instant.nanos < 2000000000 := fun instant => by
    have proper := instant.proper
    omega
  have left_day := day left
  have right_day := day right
  have left_most := most left
  have right_most := most right
  have hours : left.secondOfDay / 3600 = left.secondOfDay / 60 / 60 ∧
      right.secondOfDay / 3600 = right.secondOfDay / 60 / 60 :=
    ⟨(Nat.div_div_eq_div_mul _ 60 60).symm,(Nat.div_div_eq_div_mul _ 60 60).symm⟩
  rw [clockText,clockText,field_compare (by omega) (by omega),field_compare (by omega) (by omega),
    compare_append (by simp),numeral_compare (by omega) (by omega),
    fraction_compare (Nat.mod_lt _ (by decide)) (Nat.mod_lt _ (by decide)),← second_compare,
    compare_div 60 left.secondOfDay right.secondOfDay,
    compare_div 60 (left.secondOfDay / 60) (right.secondOfDay / 60),
    hours.1,hours.2]
  simp only [Ordering.then_assoc]

-- Every character of a text with a year of four digits is one byte.
theorem numeral_ascii {width number : Nat} : ∀ c ∈ numeral width number, c.utf8Size = 1 := by
  intro c listed
  have single : ∀ value < 10, (clockDigit value).utf8Size = 1 := by decide
  obtain ⟨value,small,rfl⟩ := mem_digits listed (by decide)
  exact single value small

theorem fraction_ascii (nano : Nat) : ∀ c ∈ fraction nano, c.utf8Size = 1 := by
  unfold fraction
  split
  · exact fun c listed => absurd listed List.not_mem_nil
  · split
    · exact List.forall_mem_cons.mpr ⟨rfl,numeral_ascii⟩
    · split
      · exact List.forall_mem_cons.mpr ⟨rfl,numeral_ascii⟩
      · exact List.forall_mem_cons.mpr ⟨rfl,numeral_ascii⟩

theorem yearText_four {year : Int} (four : 0 ≤ year ∧ year ≤ 9999) :
    yearText year = numeral 4 year.toNat := if_pos four

theorem stampText_ascii {instant : Instant} (four : instant.FourDigits) :
    ∀ c ∈ stampText instant, c.utf8Size = 1 := by
  rw [stampText,yearText_four four,clockText]
  simp only [List.forall_mem_append,List.forall_mem_cons]
  refine ⟨numeral_ascii,rfl,numeral_ascii,rfl,numeral_ascii,rfl,numeral_ascii,rfl,numeral_ascii,rfl,
    numeral_ascii,?_,?_⟩
  · exact fraction_ascii _
  · exact ⟨rfl,rfl,rfl,rfl,rfl,rfl,fun c listed => absurd listed List.not_mem_nil⟩

theorem seconds_compare (left right : Instant) : compare left.seconds right.seconds =
    (compare left.date.year right.date.year).then ((compare left.date.month right.date.month).then
      ((compare left.date.day right.date.day).then (compare left.secondOfDay right.secondOfDay))) := by
  have days : compare (left.seconds / 86400) (right.seconds / 86400) =
      compare (left.seconds / 86400 + 719528) (right.seconds / 86400 + 719528) :=
      compare_alike (by omega) (by omega)
  have time : compare (left.seconds % 86400) (right.seconds % 86400) =
      compare left.secondOfDay right.secondOfDay := by
    unfold Instant.secondOfDay
    exact compare_alike (by omega) (by omega)
  rw [compare_ediv (show (0 : Int) < 86400 by decide),days,dateOfDay_compare,time,Ordering.then_assoc,
    Ordering.then_assoc]
  rfl

-- The texts of two instants are in the order of the instants.
theorem timestamps_compare {left right : Instant} (four : left.FourDigits) (four' : right.FourDigits) :
    textOrder (toRfc3339 left) (toRfc3339 right) = compare left right := by
  have short : ∀ instant : Instant, instant.date.month < 10 ^ 2 ∧ instant.date.day < 10 ^ 2 :=
    fun instant => by
    obtain ⟨month,day⟩ := dateOfDay_within (instant.seconds / 86400 + 719528)
    exact ⟨Nat.lt_of_le_of_lt month (by decide),Nat.lt_of_le_of_lt day (by decide)⟩
  have year : ∀ instant : Instant, instant.FourDigits → instant.date.year.toNat < 10 ^ 4 :=
    fun instant four => by
    have most := four.2
    omega
  have years :
      compare left.date.year right.date.year = compare left.date.year.toNat right.date.year.toNat := by
    obtain ⟨least,_⟩ := four
    obtain ⟨least',_⟩ := four'
    exact compare_alike (by omega) (by omega)
  have whole :
      compare left right = (compare left.seconds right.seconds).then (compare left.nanos right.nanos) := rfl
  rw [toRfc3339,toRfc3339,textOrder_ascii (stampText_ascii four) (stampText_ascii four'),stampText,
    stampText,yearText_four four,
    yearText_four four',field_compare (year left four) (year right four'),
    field_compare (short left).1 (short right).1,
    field_compare (short left).2 (short right).2,clock_compare,← years,whole,seconds_compare]
  simp only [Ordering.then_assoc]

end Shaka.Core
