import Mathlib.Algebra.BigOperators.Group.List.Basic
import Mathlib.Tactic.IntervalCases
import NfcPolling.Journal.Line

/-! The Gregorian calendar told by its leap years and the lengths of its months, without
cycles, and carried back through all earlier years. The date computed for a day is one of
this calendar and is that many days away from the start of 1970; later days have later
dates. -/
namespace NfcPolling.CalendarDays
open NfcPolling.Journal

/-- Every fourth year has a leap day, except for three full centuries out of four. -/
def Leap (year : Int) : Prop := year % 4 = 0 ∧ (year % 100 ≠ 0 ∨ year % 400 = 0)

instance (year : Int) : Decidable (Leap year) := inferInstanceAs (Decidable (_ ∧ _))

def yearLength (year : Int) : Nat := if Leap year then 366 else 365

def monthLength (year : Int) (month : Nat) : Nat :=
  if month = 2 then if Leap year then 29 else 28
  else if month = 4 ∨ month = 6 ∨ month = 9 ∨ month = 11 then 30
  else 31

/-- The days of the year in front of the month. -/
def monthStart (year : Int) (month : Nat) : Nat :=
  ((List.range' 1 (month - 1)).map (monthLength year)).sum

/-- The days from the start of 1970 to the start of the year: all years between them,
counted down before 1970. -/
def yearStart (year : Int) : Int :=
  ((List.range (year - 1970).toNat).map fun k : Nat => (yearLength (1970 + k) : Int)).sum
    - ((List.range (1970 - year).toNat).map fun k : Nat => (yearLength (1969 - k) : Int)).sum

/-- A day that the month of the year has. -/
structure Proper (date : Date) : Prop where
  month : 1 ≤ date.month ∧ date.month ≤ 12
  day : 1 ≤ date.day ∧ date.day ≤ monthLength date.year date.month

instance (date : Date) : Decidable (Proper date) :=
  decidable_of_iff ((1 ≤ date.month ∧ date.month ≤ 12) ∧
    1 ≤ date.day ∧ date.day ≤ monthLength date.year date.month)
    ⟨fun ⟨month, day⟩ => ⟨month, day⟩, fun ⟨month, day⟩ => ⟨month, day⟩⟩

/-- The days from the first of January 1970 to the date. -/
def dayNumber (date : Date) : Int :=
  yearStart date.year + monthStart date.year date.month + (date.day - 1 : Nat)

/-- A leap day is where the number of full fours, hundreds and four hundreds of years
grows by one more. -/
theorem yearLength_eq (year : Int) :
    (yearLength year : Int) = 365 + (year / 4 - (year - 1) / 4) - (year / 100 - (year - 1) / 100)
      + (year / 400 - (year - 1) / 400) := by
  by_cases leap : Leap year
  · simp only [yearLength, leap, ↓reduceIte]
    unfold Leap at leap
    omega
  · simp only [yearLength, leap, ↓reduceIte]
    unfold Leap at leap
    omega

/-- The start of a year from the leap days in front of it, of which 477 lie between the
year zero and 1970. -/
theorem yearStart_eq (year : Int) :
    yearStart year = 365 * (year - 1970) + (year - 1) / 4 - (year - 1) / 100 + (year - 1) / 400
      - 477 := by
  have onward (n : Nat) : ((List.range n).map fun k : Nat => (yearLength (1970 + k) : Int)).sum =
      365 * n + (1969 + n : Int) / 4 - (1969 + n : Int) / 100 + (1969 + n : Int) / 400 - 477 := by
    induction n with
    | zero => rfl
    | succ n ih =>
      rw [List.sum_range_succ, ih, yearLength_eq]
      omega
  have back (n : Nat) : ((List.range n).map fun k : Nat => (yearLength (1969 - k) : Int)).sum =
      365 * n - (1969 - n : Int) / 4 + (1969 - n : Int) / 100 - (1969 - n : Int) / 400 + 477 := by
    induction n with
    | zero => rfl
    | succ n ih =>
      rw [List.sum_range_succ, ih, yearLength_eq]
      omega
  rw [yearStart, onward, back]
  omega

theorem yearStart_succ (year : Int) : yearStart (year + 1) = yearStart year + yearLength year := by
  rw [yearStart_eq, yearStart_eq, yearLength_eq]
  omega

theorem yearStart_mono {earlier later : Int} (le : earlier ≤ later) :
    yearStart earlier ≤ yearStart later := by
  rw [yearStart_eq, yearStart_eq]
  omega

theorem monthLength_le (year : Int) (month : Nat) : monthLength year month ≤ 31 := by
  unfold monthLength
  split <;> split <;> omega

theorem monthStart_succ (year : Int) {month : Nat} (positive : 1 ≤ month) :
    monthStart year (month + 1) = monthStart year month + monthLength year month := by
  obtain ⟨before, rfl⟩ := Nat.exists_eq_add_of_le' positive
  simp only [monthStart, Nat.add_sub_cancel, List.range'_concat, List.map_append, List.sum_append,
    List.map_cons, List.map_nil, List.sum_singleton]
  congr 2
  omega

theorem monthStart_mono (year : Int) {earlier later : Nat} (positive : 1 ≤ earlier)
    (le : earlier ≤ later) : monthStart year earlier ≤ monthStart year later := by
  induction later, le using Nat.le_induction with
  | base => exact le_rfl
  | succ later le ih =>
    rw [monthStart_succ year (Nat.le_trans positive le)]
    omega

/-- Twelve months make up a year. -/
theorem monthStart_end (year : Int) : monthStart year 13 = yearLength year := by
  by_cases leap : Leap year <;> simp [monthStart, monthLength, yearLength, leap, List.range']

/-- A proper date lies in its month. -/
theorem day_in_month {date : Date} (proper : Proper date) :
    monthStart date.year date.month + (date.day - 1) < monthStart date.year (date.month + 1) := by
  rw [monthStart_succ date.year proper.month.1]
  have within := proper.day
  omega

/-- A proper date lies in its year. -/
theorem day_in_year {date : Date} (proper : Proper date) :
    yearStart date.year ≤ dayNumber date ∧ dayNumber date < yearStart (date.year + 1) := by
  have inMonth := day_in_month proper
  have month := proper.month
  have before : monthStart date.year (date.month + 1) ≤ monthStart date.year 13 :=
    monthStart_mono date.year (by omega) (by omega)
  rw [monthStart_end] at before
  rw [yearStart_succ, dayNumber]
  omega

/-- Dates are ordered by year, month and day in turn. -/
def Before (earlier later : Date) : Prop :=
  earlier.year < later.year ∨ earlier.year = later.year ∧
    (earlier.month < later.month ∨ earlier.month = later.month ∧ earlier.day < later.day)

theorem dayNumber_lt {earlier later : Date} (first : Proper earlier) (second : Proper later)
    (before : Before earlier later) : dayNumber earlier < dayNumber later := by
  rcases before with year | ⟨year, month | ⟨month, day⟩⟩
  · have end_ := yearStart_mono (Int.add_one_le_of_lt year)
    have inYear := day_in_year first
    have inLater := day_in_year second
    omega
  · have next := monthStart_mono later.year (Nat.le_add_left 1 earlier.month) month
    have inMonth := day_in_month first
    rw [year] at inMonth
    rw [dayNumber, dayNumber, year]
    omega
  · rw [dayNumber, dayNumber, year, month]
    have positive := first.day
    omega

/-- The day of a cycle lies in the year that is found for it. Only a year that ends with
a leap day has room for a day 365, counted from the first of March. -/
theorem year_of_cycle {day : Nat} (within : day < 146097) :
    let found := Date.yearOfCycle day
    day + found.1 / 100 = 365 * found.1 + found.1 / 4 + found.2 ∧ found.1 < 400 ∧
      found.2 ≤ 365 ∧ (found.2 = 365 → Leap (found.1 + 1)) := by
  simp only [Date.yearOfCycle]
  generalize centuryOf : min (day / 36524) 3 = century
  generalize restOf : day - century * 36524 = rest
  generalize foursOf : rest / 1461 = fours
  generalize lastOf : rest - fours * 1461 = last
  generalize yearOf : min (last / 365) 3 = year
  have inCentury : century ≤ 3 ∧ day = rest + century * 36524 ∧ rest ≤ 36524 ∧
      (century < 3 → rest < 36524) := by omega
  have inFours : fours ≤ 24 ∧ rest = last + fours * 1461 ∧ last ≤ 1460 := by omega
  have inYear : year ≤ 3 ∧ year * 365 ≤ last ∧ last - year * 365 ≤ 365 ∧
      (last - year * 365 = 365 → year = 3) := by omega
  have hundreds : (century * 100 + fours * 4 + year) / 100 = century := by omega
  have quarters : (century * 100 + fours * 4 + year) / 4 = century * 25 + fours := by omega
  rw [hundreds, quarters]
  refine ⟨by omega, by omega, inYear.2.2.1, fun full => ?_⟩
  -- The long year is the last of four, and of a century only when it ends the cycle.
  unfold Leap
  omega

/-- The day of a year from March on lies in the month that is found for it. -/
theorem month_of_year {day : Nat} (within : day ≤ 365) :
    let found := Date.monthOfYear day
    day = (153 * found.1 + 2) / 5 + found.2 ∧ found.1 ≤ 11 ∧
      day < (153 * (found.1 + 1) + 2) / 5 := by
  simp only [Date.monthOfYear]
  omega

/-- The month that is reached from March, and the year it belongs to. -/
def fromMarch (year : Int) (month dayOfMonth : Nat) : Date where
  year := year + if month < 10 then 0 else 1
  month := if month < 10 then month + 3 else month - 9
  day := dayOfMonth + 1

/-- From March to February the months start at even steps of 153 days for five of them. -/
theorem dayNumber_fromMarch (year : Int) {month : Nat} (dayOfMonth : Nat) (within : month ≤ 11) :
    dayNumber (fromMarch year month dayOfMonth) =
      yearStart (year + 1) - 306 + ((153 * month + 2) / 5 + dayOfMonth : Nat) := by
  by_cases same : month < 10
  · have start : monthStart year (month + 3) + 306 = yearLength year + (153 * month + 2) / 5 := by
      by_cases leap : Leap year <;> interval_cases month <;>
        simp [monthStart, monthLength, yearLength, List.range', leap]
    simp only [dayNumber, fromMarch, same, ↓reduceIte, Int.add_zero, yearStart_succ,
      Nat.add_sub_cancel]
    omega
  · have start : monthStart (year + 1) (month - 9) + 306 = (153 * month + 2) / 5 := by
      interval_cases month <;> simp [monthStart, monthLength] at *
    simp only [dayNumber, fromMarch, same, ↓reduceIte, Nat.add_sub_cancel]
    omega

theorem proper_fromMarch (year : Int) {month dayOfMonth : Nat} (within : month ≤ 11)
    (before : (153 * month + 2) / 5 + dayOfMonth < (153 * (month + 1) + 2) / 5)
    (last : (153 * month + 2) / 5 + dayOfMonth ≤ 365)
    (leap : (153 * month + 2) / 5 + dayOfMonth = 365 → Leap (year + 1)) :
    Proper (fromMarch year month dayOfMonth) where
  month := by
    simp only [fromMarch]
    split <;> omega
  day := by
    refine ⟨Nat.le_add_left 1 dayOfMonth, ?_⟩
    by_cases february : month = 11
    · subst february
      have length : monthLength (year + 1) 2 = if Leap (year + 1) then 29 else 28 := rfl
      simp only [fromMarch, Nat.reduceLT, ↓reduceIte, Nat.reduceSub, length]
      split
      · omega
      · rename_i common
        have short := mt leap common
        omega
    · simp only [fromMarch]
      interval_cases month <;> simp [monthLength] at * <;> omega

theorem leap_in_cycle (cycle year : Int) : Leap (400 * cycle + year) ↔ Leap year := by
  unfold Leap
  omega

/-- A cycle of four hundred years is a whole number of days, the same for all cycles. -/
theorem yearStart_in_cycle (cycle : Int) {year : Nat} (few : year < 400) :
    yearStart (400 * cycle + year + 1) =
      146097 * cycle + (365 * year + year / 4 : Nat) - (year / 100 : Nat) - 719162 := by
  have quarters : (400 * cycle + year + 1 - 1) / 4 = 100 * cycle + (year / 4 : Nat) := by omega
  have hundreds : (400 * cycle + year + 1 - 1) / 100 = 4 * cycle + (year / 100 : Nat) := by omega
  have cycles : (400 * cycle + year + 1 - 1) / 400 = cycle := by omega
  rw [yearStart_eq, quarters, hundreds, cycles]
  omega

/-- The date computed for a day is in the calendar, and is that day. -/
theorem date_of_day (day : Int) :
    Proper (Date.ofEpochDay day) ∧ dayNumber (Date.ofEpochDay day) = day := by
  have split : day + 719468 =
      146097 * ((day + 719468) / 146097) + ((day + 719468) % 146097).toNat := by omega
  have date : Date.ofEpochDay day =
      let year := Date.yearOfCycle ((day + 719468) % 146097).toNat
      let month := Date.monthOfYear year.2
      fromMarch (400 * ((day + 719468) / 146097) + year.1) month.1 month.2 := rfl
  have inCycle : ((day + 719468) % 146097).toNat < 146097 := by omega
  rw [date]
  dsimp only
  generalize (day + 719468) / 146097 = cycle at split ⊢
  generalize ((day + 719468) % 146097).toNat = dayOfCycle at split inCycle ⊢
  obtain ⟨inYear, few, upto, leap⟩ := year_of_cycle inCycle
  generalize Date.yearOfCycle dayOfCycle = year at inYear few upto leap ⊢
  obtain ⟨inMonth, within, before⟩ := month_of_year upto
  generalize Date.monthOfYear year.2 = month at inMonth within before ⊢
  constructor
  · rw [inMonth] at before upto leap
    refine proper_fromMarch _ within before upto fun full => ?_
    rw [Int.add_assoc, leap_in_cycle]
    exact leap full
  · rw [dayNumber_fromMarch _ _ within, ← inMonth, yearStart_in_cycle cycle few]
    omega

/-- The start of the epoch, the leap day of a full century, and the day before a year
that is none. -/
example : Date.ofEpochDay 0 = ⟨1970, 1, 1⟩ ∧ Date.ofEpochDay 11016 = ⟨2000, 2, 29⟩ ∧
    Date.ofEpochDay (-25509) = ⟨1900, 2, 28⟩ := by decide

end NfcPolling.CalendarDays
