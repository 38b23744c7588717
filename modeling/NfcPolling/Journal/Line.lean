import NfcPolling.Journal.Basic

/-! The written form of a journal entry: an optional moment, the letter of its
severity, the label of its source and at most 1023 bytes of message. An empty
message is not written at all.

Dates are those of the Gregorian calendar, carried back before its introduction.
Years are counted from March, so that the leap day is the last of its year, and
divided into cycles of four hundred, one hundred, four and one year; the last
century and the last year of a cycle may be a day longer than the others.

The moment is given to the nearest millisecond. A half goes to the even
neighbour, and a full second is carried over before the date is computed. -/
namespace NfcPolling.Journal

structure Date where
  year : Int
  month : Nat
  day : Nat
  deriving DecidableEq, Repr

namespace Date

/-- The days from the first of March of the year zero to the first of January 1970. -/
def epochOffset : Int := 719468

def cycleDays : Int := 146097

/-- The year of a four-hundred-year cycle, and the day of that year, for a day
of the cycle. -/
def yearOfCycle (day : Nat) : Nat × Nat :=
  let century := min (day / 36524) 3
  let dayOfCentury := day - century * 36524
  let leap := dayOfCentury / 1461
  let dayOfLeap := dayOfCentury - leap * 1461
  let year := min (dayOfLeap / 365) 3
  (century * 100 + leap * 4 + year, dayOfLeap - year * 365)

/-- The month counted from March as zero, and the day of the month counted from
zero, for a day of a year that starts in March. Five months from March or from
August on have 153 days. -/
def monthOfYear (day : Nat) : Nat × Nat :=
  let month := (5 * day + 2) / 153
  (month, day - (153 * month + 2) / 5)

/-- The date a number of days after the first of January 1970, or before it. -/
def ofEpochDay (day : Int) : Date :=
  let shifted := day + epochOffset
  let (year, dayOfYear) := yearOfCycle (shifted % cycleDays).toNat
  let (month, dayOfMonth) := monthOfYear dayOfYear
  let january := if month < 10 then 0 else 1
  { year := 400 * (shifted / cycleDays) + year + january
    month := if month < 10 then month + 3 else month - 9
    day := dayOfMonth + 1 }

end Date

/-- A moment of universal time. -/
structure Stamp where
  date : Date
  hour : Nat
  minute : Nat
  second : Nat
  millisecond : Nat
  deriving DecidableEq, Repr

namespace Stamp

/-- Thousandths of a number, a half rounded to the even neighbour. -/
def roundThousandths (n : Nat) : Nat :=
  if n % 1000 > 500 ∨ (n % 1000 = 500 ∧ (n / 1000) % 2 = 1) then n / 1000 + 1 else n / 1000

/-- The moment of a clock that counts seconds from the start of 1970 and, within
the second, microseconds. -/
def ofClock (seconds : Int) (microseconds : Nat) : Stamp :=
  let rounded := roundThousandths microseconds
  let carried : Nat := if rounded < 1000 then 0 else 1
  let total := seconds + carried
  let ofDay := (total % 86400).toNat
  { date := Date.ofEpochDay (total / 86400)
    hour := ofDay / 3600
    minute := ofDay / 60 % 60
    second := ofDay % 60
    millisecond := rounded - 1000 * carried }

/-- Date and time to the second joined by colons and a dash, then a point and
three digits; years are written without leading zeros. -/
def render (s : Stamp) : Bytes :=
  let two (n : Nat) : Bytes := Bytes.padded 2 (Bytes.decimal n)
  let colon := Bytes.ascii ":"
  Bytes.signed s.date.year ++ colon ++ two s.date.month ++ colon ++ two s.date.day
    ++ Bytes.ascii "-" ++ two s.hour ++ colon ++ two s.minute ++ colon ++ two s.second
    ++ Bytes.ascii "." ++ Bytes.padded 3 (Bytes.decimal s.millisecond)

end Stamp

/-- The most bytes of a message that are kept. -/
def maxMessage : Nat := 1023

/-- The message as it is written: cut to the limit, and then without one newline
at its end. -/
def messageBody (message : Bytes) : Option Bytes :=
  if message = [] then none
  else
    let kept := message.take maxMessage
    some (if kept.getLast? = some 10 then kept.dropLast else kept)

/-- Severity, label and message of one line, without moment and newline. -/
def line (severity : Severity) (label message : Bytes) : Option Bytes :=
  (messageBody message).map fun body => [severity.letter, Bytes.ofChar '/'] ++ label ++ body

/-- The complete line for a message that is handed over from outside: the moment
and a tab come first, a newline last. Label and message end at their first NUL. -/
def stampedLine (stamp : Stamp) (severity : Severity) (label message : Bytes) : Option Bytes :=
  (line severity (Bytes.untilNul label) (Bytes.untilNul message)).map fun text =>
    stamp.render ++ [9] ++ text ++ [10]

end NfcPolling.Journal
