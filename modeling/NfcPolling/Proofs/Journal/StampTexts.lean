import NfcPolling.Journal.Line
import NfcPolling.Proofs.Journal.CalendarDays
import NfcPolling.Proofs.Settings.Spelling

/-! The moment in front of a journal line. It has a fixed shape, is read back as a date and
a time of day, and tells the clock to the nearest millisecond, across the end of every
second, day and year. Lines of later clocks never have earlier moments, byte by byte. -/
namespace NfcPolling.StampTexts
open NfcPolling.Journal Bytes Spelling CalendarDays

/-- Fields of some number of decimal digits, each with the byte that ends it. -/
abbrev Shape := List (Nat × UInt8)

/-- The values in the shape, filled up with zeros. -/
def write : Shape → List Nat → Bytes
  | (width, mark) :: shape, value :: values =>
    padded width (decimal value) ++ mark :: write shape values
  | _, _ => []

/-- Reads the values of a text that has the shape from its first to its last byte. -/
def read? : Shape → Bytes → Option (List Nat)
  | [], text => if text = [] then some [] else none
  | (width, mark) :: shape, text =>
    if text[width]? = some mark then do
      let value ← Settings.Numeral.digits? 10 (text.take width)
      let values ← read? shape (text.drop (width + 1))
      return value :: values
    else none

/-- The values have no more digits than the shape has room for. -/
def Fits (shape : Shape) (values : List Nat) : Prop :=
  List.Forall₂ (fun field value => 0 < field.1 ∧ value < 10 ^ field.1) shape values

theorem field_length {width value : Nat} (fits : 0 < width ∧ value < 10 ^ width) :
    (padded width (decimal value)).length = width :=
  padded_length (digits_length fits.1 fits.2)

section Shape
variable {shape : Shape} {values : List Nat}

theorem write_length (fits : Fits shape values) :
    (write shape values).length = (shape.map (·.1 + 1)).sum := by
  induction fits with
  | nil => rfl
  | cons field rest ih =>
    simp only [write, List.length_append, List.length_cons, field_length field, ih, List.map_cons,
      List.sum_cons]
    omega

/-- Values are read back from the text that they are written to. -/
theorem read_write (fits : Fits shape values) : read? shape (write shape values) = some values := by
  induction fits with
  | nil => rfl
  | @cons field value shape values fits rest ih =>
    obtain ⟨width, mark⟩ := field
    have size := field_length fits
    have ended : (padded width (decimal value) ++ mark :: write shape values)[width]? =
        some mark := by
      rw [List.getElem?_append_right (Nat.le_of_eq size), size]
      simp
    have digits : (padded width (decimal value) ++ mark :: write shape values).take width =
        padded width (decimal value) := List.take_left' size
    have behind : (padded width (decimal value) ++ mark :: write shape values).drop (width + 1) =
        write shape values := by
      rw [← List.drop_drop, List.drop_left' size]
      rfl
    simp [write, read?, ended, digits, behind, decimal_read, ih]

end Shape

/-- Texts that start with pieces of the same length are ordered by these pieces first. -/
theorem lex_append {r : α → α → Prop} {first second tail tail' : List α}
    (same : first.length = second.length) (before : List.Lex r (first ++ tail) (second ++ tail')) :
    List.Lex r first second ∨ first = second ∧ List.Lex r tail tail' := by
  induction first generalizing second with
  | nil =>
    obtain rfl := List.length_eq_zero_iff.mp same.symm
    exact .inr ⟨rfl, before⟩
  | cons a rest ih =>
    cases second with
    | nil => cases same
    | cons b more =>
      rcases List.cons_lex_cons_iff.mp before with head | ⟨rfl, later⟩
      · exact .inl (.rel head)
      · rcases ih (Nat.succ.inj same) later with inside | ⟨rfl, behind⟩
        · exact .inl (.cons inside)
        · exact .inr ⟨rfl, behind⟩

theorem digit_byte {digit : Nat} {b : UInt8} (shown : Shows 10 digit b) : b.toNat = digit + 48 := by
  have both : ∀ d : Fin 10, (ofChar d.val.digitChar).toNat = d.val + 48 ∧
      (ofChar d.val.digitChar.toUpper).toNat = d.val + 48 := by decide
  obtain ⟨below, rfl | rfl⟩ := shown
  · exact (both ⟨digit, below⟩).1
  · exact (both ⟨digit, below⟩).2

/-- Of two decimal numerals of the same length the earlier one denotes less. -/
theorem digits_order {n m : Nat} {left right : Bytes} (first : Digits 10 n left)
    (second : Digits 10 m right) (same : left.length = right.length)
    (before : List.Lex (· < ·) left right) : n < m := by
  induction first generalizing m right with
  | @single digit b shown =>
    cases second with
    | @single digit' b' shown' =>
      rcases List.cons_lex_cons_iff.mp before with less | ⟨_, none⟩
      · have bytes := UInt8.lt_iff_toNat_lt.mp less
        rw [digit_byte shown, digit_byte shown'] at bytes
        omega
      · cases none
    | further front' shown' =>
      have filled := List.length_pos_iff.mpr (digits_filled front')
      simp only [List.length_append, List.length_singleton] at same
      omega
  | @further n digit front b written shown ih =>
    cases second with
    | single shown' =>
      have filled := List.length_pos_iff.mpr (digits_filled written)
      simp only [List.length_append, List.length_singleton] at same
      omega
    | @further m digit' front' b' written' shown' =>
      have fronts : front.length = front'.length := by
        simpa only [List.length_append, List.length_singleton, Nat.add_right_cancel_iff] using same
      have below := shown.1
      rcases lex_append fronts before with earlier | ⟨rfl, last⟩
      · have less := ih written' fronts earlier
        omega
      · obtain rfl := digits_unique (by omega) written written'
        rcases List.cons_lex_cons_iff.mp last with less | ⟨_, none⟩
        · have bytes := UInt8.lt_iff_toNat_lt.mp less
          rw [digit_byte shown, digit_byte shown'] at bytes
          omega
        · cases none

/-- Written values are ordered as their texts are. -/
theorem write_order {shape : Shape} {values others : List Nat} (fits : Fits shape values)
    (fits' : Fits shape others)
    (before : List.Lex (· < ·) (write shape values) (write shape others)) :
    List.Lex (· < ·) values others := by
  induction fits generalizing others with
  | nil =>
    cases fits'
    cases before
  | @cons field value shape values room _ ih =>
    obtain ⟨width, mark⟩ := field
    cases fits' with
    | @cons _ other _ others room' rest' =>
      have lengths := (field_length room).trans (field_length room').symm
      rcases lex_append lengths before with earlier | ⟨same, later⟩
      · exact .rel (digits_order (digits_padded (by omega) width (decimal_digits value))
          (digits_padded (by omega) width (decimal_digits other)) lengths earlier)
      · obtain rfl : value = other :=
          Option.some.inj ((decimal_read width value).symm.trans (same ▸ decimal_read width other))
        rcases List.cons_lex_cons_iff.mp later with mark' | ⟨_, behind⟩
        · exact absurd mark' (UInt8.lt_irrefl mark)
        · exact .cons (ih rest' behind)

/-- The moment in front of a line, with the tab behind it. -/
def stampShape : Shape :=
  [(4, ofChar ':'), (2, ofChar ':'), (2, ofChar '-'), (2, ofChar ':'), (2, ofChar ':'),
    (2, ofChar '.'), (3, 9)]

def fields (s : Stamp) : List Nat :=
  [s.date.year.toNat, s.date.month, s.date.day, s.hour, s.minute, s.second, s.millisecond]

def stampOf? : List Nat → Option Stamp
  | [year, month, day, hour, minute, second, millisecond] =>
    some ⟨⟨year, month, day⟩, hour, minute, second, millisecond⟩
  | _ => none

/-- A moment that the calendar and a clock can show. -/
structure Shown (s : Stamp) : Prop where
  date : Proper s.date
  hour : s.hour < 24
  minute : s.minute < 60
  second : s.second < 60
  millisecond : s.millisecond < 1000

instance (s : Stamp) : Decidable (Shown s) :=
  decidable_of_iff
    (Proper s.date ∧ s.hour < 24 ∧ s.minute < 60 ∧ s.second < 60 ∧ s.millisecond < 1000)
    ⟨fun ⟨date, hour, minute, second, millisecond⟩ => ⟨date, hour, minute, second, millisecond⟩,
      fun ⟨date, hour, minute, second, millisecond⟩ => ⟨date, hour, minute, second, millisecond⟩⟩

/-- The milliseconds from the start of 1970 to the moment. -/
def instant (s : Stamp) : Int :=
  86400000 * dayNumber s.date
    + (3600000 * s.hour + 60000 * s.minute + 1000 * s.second + s.millisecond : Nat)

/-- The milliseconds from the start of 1970 that a text tells, which must hold a moment
in its shape and nothing else. -/
def instant? (text : Bytes) : Option Int := do
  let s ← stampOf? (← read? stampShape text)
  if Shown s then some (instant s) else none

theorem fields_fit {s : Stamp} (shown : Shown s) (year : s.date.year < 10000) :
    Fits stampShape (fields s) := by
  obtain ⟨date, hour, minute, second, millisecond⟩ := shown
  have months := date.month.2
  have days := Nat.le_trans date.day.2 (monthLength_le _ _)
  simp only [Fits, stampShape, fields, List.forall₂_cons, List.forall₂_nil_left_iff, and_true]
  omega

/-- A year from 1000 on needs no zeros in front. -/
theorem year_written {year : Int} (late : 1000 ≤ year) :
    signed year = padded 4 (decimal year.toNat) := by
  obtain ⟨n, rfl⟩ := Int.eq_ofNat_of_zero_le (Int.le_trans (by decide) late)
  have digits : ¬ (Nat.toDigits 10 n).length ≤ 3 := by
    rw [Nat.length_toDigits_le_iff (by decide) (by decide)]
    omega
  have full : 4 - (decimal n).length = 0 := by
    rw [decimal, Bytes.digits, List.length_map]
    omega
  rw [padded, Int.toNat_natCast, full]
  rfl

theorem render_written {s : Stamp} (late : 1000 ≤ s.date.year) :
    s.render ++ [9] = write stampShape (fields s) := by
  rw [Stamp.render, year_written late]
  simp [write, stampShape, fields, ascii]

theorem read_render {s : Stamp} (shown : Shown s) (late : 1000 ≤ s.date.year)
    (early : s.date.year < 10000) : instant? (s.render ++ [9]) = some (instant s) := by
  have values := read_write (fields_fit shown early)
  have same : stampOf? (fields s) = some s := by
    have year : (s.date.year.toNat : Int) = s.date.year := Int.toNat_of_nonneg (by omega)
    simp only [stampOf?, fields, year]
  simp [instant?, render_written late, values, same, shown]

/-- The first field in which two moments differ tells which is earlier. -/
theorem instant_order {first second : Stamp} (shown : Shown first) (shown' : Shown second)
    (late : 0 ≤ first.date.year) (late' : 0 ≤ second.date.year)
    (before : List.Lex (· < ·) (fields first) (fields second)) :
    instant first < instant second := by
  obtain ⟨proper, hour, minute, inMinute, millisecond⟩ := shown
  simp only [fields, List.cons_lex_cons_iff, List.not_lex_nil, and_false, or_false] at before
  have dated : Before first.date second.date ∨ first.date = second.date ∧
      (first.hour < second.hour ∨ first.hour = second.hour ∧
        (first.minute < second.minute ∨ first.minute = second.minute ∧
          (first.second < second.second ∨ first.second = second.second ∧
            first.millisecond < second.millisecond))) := by
    rcases before with year | ⟨year, month | ⟨month, day | ⟨day, time⟩⟩⟩
    · exact .inl (.inl (by omega))
    · exact .inl (.inr ⟨by omega, .inl month⟩)
    · exact .inl (.inr ⟨by omega, .inr ⟨month, day⟩⟩)
    · have years : first.date.year = second.date.year := by omega
      refine .inr ⟨?_, time⟩
      calc first.date = ⟨first.date.year, first.date.month, first.date.day⟩ := rfl
        _ = second.date := by rw [years, month, day]
  unfold instant
  rcases dated with earlier | ⟨same, time⟩
  · have days := dayNumber_lt proper shown'.date earlier
    omega
  · rw [same]
    omega

/-- The distance of a number from so many thousands. -/
def gap (n thousands : Nat) : Nat := (1000 * thousands - n) + (n - 1000 * thousands)

/-- No other number of thousands is nearer, and of two that are as near this is the even one. -/
structure NearestEven (n thousands : Nat) : Prop where
  near : ∀ other, gap n thousands ≤ gap n other
  even : ∀ other, other ≠ thousands → gap n other = gap n thousands → thousands % 2 = 0

theorem nearest_even_iff (n thousands : Nat) :
    NearestEven n thousands ↔ thousands = Stamp.roundThousandths n := by
  constructor
  · rintro ⟨near, even⟩
    have below := near (n / 1000)
    have above := near (n / 1000 + 1)
    have evenBelow := even (n / 1000)
    have evenAbove := even (n / 1000 + 1)
    unfold gap at *
    unfold Stamp.roundThousandths
    split <;> omega
  · rintro rfl
    unfold Stamp.roundThousandths
    split
    all_goals
      refine ⟨fun other => ?_, fun other different same => ?_⟩
      · unfold gap
        omega
      · unfold gap at same
        omega

/-- What a clock shows: seconds from the start of 1970, and microseconds within the second. -/
structure Clock where
  seconds : Int
  microseconds : Nat
  proper : microseconds < 1000000

namespace Clock

def stamp (clock : Clock) : Stamp := .ofClock clock.seconds clock.microseconds

/-- The instant is that of the clock, to the nearest millisecond of its second. -/
def Tells (clock : Clock) (instant : Int) : Prop :=
  ∃ millis, NearestEven clock.microseconds millis ∧ instant = 1000 * clock.seconds + millis

def NotAfter (first second : Clock) : Prop :=
  first.seconds < second.seconds ∨
    first.seconds = second.seconds ∧ first.microseconds ≤ second.microseconds

end Clock

/-- The instant lies in a year of four digits. -/
def InYears (instant : Int) : Prop :=
  86400000 * yearStart 1000 ≤ instant ∧ instant < 86400000 * yearStart 10000

theorem rounded_upto (clock : Clock) : Stamp.roundThousandths clock.microseconds ≤ 1000 := by
  have proper := clock.proper
  unfold Stamp.roundThousandths
  split <;> omega

/-- The date and the time of day that are computed are those of the rounded clock. -/
theorem stamp_shown (clock : Clock) :
    Shown clock.stamp ∧
      instant clock.stamp = 1000 * clock.seconds + Stamp.roundThousandths clock.microseconds := by
  have upto := rounded_upto clock
  let rounded := Stamp.roundThousandths clock.microseconds
  let total := clock.seconds + ((if rounded < 1000 then 0 else 1 : Nat) : Int)
  have date : clock.stamp.date = Date.ofEpochDay (total / 86400) := rfl
  obtain ⟨proper, day⟩ := date_of_day (total / 86400)
  have time : clock.stamp.hour = (total % 86400).toNat / 3600 ∧
      clock.stamp.minute = (total % 86400).toNat / 60 % 60 ∧
      clock.stamp.second = (total % 86400).toNat % 60 ∧
      clock.stamp.millisecond = rounded - 1000 * (if rounded < 1000 then 0 else 1) :=
    ⟨rfl, rfl, rfl, rfl⟩
  obtain ⟨hour, minute, second, millisecond⟩ := time
  have carried : (1000 : Int) * total + clock.stamp.millisecond =
      1000 * clock.seconds + rounded := by
    rw [millisecond]
    simp only [total]
    split <;> omega
  refine ⟨⟨date ▸ proper, by omega, by omega, by omega, ?_⟩, ?_⟩
  · rw [millisecond]
    split <;> omega
  · rw [instant, date, day]
    omega

theorem tells_iff (clock : Clock) (told : Int) : clock.Tells told ↔ told = instant clock.stamp := by
  simp only [Clock.Tells, nearest_even_iff, exists_eq_left, (stamp_shown clock).2]

/-- The year of a moment bounds its instant, and so the other way round. -/
theorem year_within {s : Stamp} (shown : Shown s) (within : InYears (instant s)) :
    1000 ≤ s.date.year ∧ s.date.year < 10000 := by
  have inYear := day_in_year shown.date
  have time : 3600000 * s.hour + 60000 * s.minute + 1000 * s.second + s.millisecond < 86400000 := by
    obtain ⟨_, hour, minute, second, millisecond⟩ := shown
    omega
  unfold InYears instant at within
  constructor
  · by_contra early
    have ended := yearStart_mono (show s.date.year + 1 ≤ 1000 by omega)
    omega
  · by_contra late
    have begun := yearStart_mono (show 10000 ≤ s.date.year by omega)
    omega

/-- Rounding to the nearest millisecond keeps the order of clocks. -/
theorem instant_not_after {first second : Clock} (order : first.NotAfter second) :
    instant first.stamp ≤ instant second.stamp := by
  have upto := rounded_upto first
  rw [(stamp_shown first).2, (stamp_shown second).2]
  rcases order with seconds | ⟨seconds, microseconds⟩
  · omega
  · have rounded : Stamp.roundThousandths first.microseconds ≤
        Stamp.roundThousandths second.microseconds := by
      unfold Stamp.roundThousandths
      split <;> split <;> omega
    omega

theorem line_opens {stamp : Stamp} {severity : Severity} {label message line : Bytes}
    (written : stampedLine stamp severity label message = some line) :
    ∃ rest, line = (stamp.render ++ [9]) ++ rest := by
  obtain ⟨text, _, same⟩ := Option.map_eq_some_iff.mp written
  exact ⟨text ++ [10], by simp [← same]⟩

/-- Every message but an empty one is written. -/
theorem line_written (stamp : Stamp) (severity : Severity) (label : Bytes) {message : Bytes}
    (filled : untilNul message ≠ []) :
    ∃ line, stampedLine stamp severity label message = some line := by
  simp [stampedLine, Journal.line, messageBody, filled]

/-- The first 24 bytes of any line at this moment. -/
theorem line_prefix {clock : Clock} (within : InYears (instant clock.stamp)) {severity : Severity}
    {label message line : Bytes}
    (written : stampedLine clock.stamp severity label message = some line) :
    line.take 24 = clock.stamp.render ++ [9] ∧
      line.take 24 = write stampShape (fields clock.stamp) ∧
      Fits stampShape (fields clock.stamp) := by
  have shown := (stamp_shown clock).1
  obtain ⟨late, early⟩ := year_within shown within
  have fits := fields_fit shown early
  have size : (clock.stamp.render ++ [9]).length = 24 := by
    rw [render_written late, write_length fits]
    rfl
  obtain ⟨rest, same⟩ := line_opens written
  have front : line.take 24 = clock.stamp.render ++ [9] := by
    rw [same, List.take_left' size]
  exact ⟨front, front.trans (render_written late), fits⟩

/-- A message that is not empty is written behind 24 bytes that have the shape of a
date, a time of day to the millisecond and a tab. Read back they tell the instant of the
clock, rounded to the nearest millisecond and from a half to the even one. The first 24
bytes of a line of a later clock, or of an equal one, never come before them. -/
theorem moments_exact_and_ordered (clock : Clock) {told : Int} (tells : clock.Tells told)
    (within : InYears told) (severity : Severity) (label message : Bytes)
    (filled : untilNul message ≠ []) :
    ∃ line, stampedLine clock.stamp severity label message = some line ∧
      (line.take 24).length = 24 ∧ instant? (line.take 24) = some told ∧
      ∀ (later : Clock) (toldLater : Int) (severity' : Severity) (label' message' line' : Bytes),
        clock.NotAfter later → later.Tells toldLater → InYears toldLater →
        stampedLine later.stamp severity' label' message' = some line' →
        ¬ List.Lex (· < ·) (line'.take 24) (line.take 24) := by
  obtain rfl := (tells_iff clock told).mp tells
  obtain ⟨line, written⟩ := line_written clock.stamp severity label filled
  obtain ⟨front, shape, fits⟩ := line_prefix within written
  have shown := (stamp_shown clock).1
  obtain ⟨late, early⟩ := year_within shown within
  refine ⟨line, written, ?size, ?read, ?ordered⟩
  case size =>
    rw [shape, write_length fits]
    rfl
  case read =>
    rw [front]
    exact read_render shown late early
  case ordered =>
    intro later toldLater severity' label' message' line' order tells' within' written' before
    obtain rfl := (tells_iff later toldLater).mp tells'
    obtain ⟨_, shape', fits'⟩ := line_prefix within' written'
    have shown' := (stamp_shown later).1
    obtain ⟨late', _⟩ := year_within shown' within'
    rw [shape, shape'] at before
    have less := instant_order shown' shown (by omega) (by omega) (write_order fits' fits before)
    have upto := instant_not_after order
    omega

/-- Half a millisecond before and after the start of 1970: both halves go to the even
side, and the first of them carries through the end of the year. -/
theorem halves_meet_in_new_year :
    let early : Clock := ⟨-1, 999500, by decide⟩
    let late : Clock := ⟨0, 500, by decide⟩
    early.Tells 0 ∧ late.Tells 0 ∧ InYears 0 ∧ untilNul [65] ≠ [] ∧ early.NotAfter late ∧
      ∃ line line', stampedLine early.stamp .error [] [65] = some line ∧
        stampedLine late.stamp .debug [] [66] = some line' ∧
        (line.take 24).length = 24 ∧ instant? (line.take 24) = some 0 ∧
        ¬ List.Lex (· < ·) (line'.take 24) (line.take 24) := by
  intro early late
  have tells : early.Tells 0 := ⟨1000, (nearest_even_iff _ _).mpr (by decide), rfl⟩
  have tellsLate : late.Tells 0 := ⟨0, (nearest_even_iff _ _).mpr (by decide), rfl⟩
  have within : InYears 0 := by
    rw [InYears, yearStart_eq, yearStart_eq]
    decide
  have order : early.NotAfter late := .inl (by decide)
  obtain ⟨line, written, size, read, ordered⟩ :=
    moments_exact_and_ordered early tells within .error [] [65] (by decide)
  obtain ⟨line', written'⟩ := line_written late.stamp .debug [] (show untilNul [66] ≠ [] by decide)
  exact ⟨tells, tellsLate, within, by decide, order, line, line', written, written', size, read,
    ordered late 0 .debug [] [66] line' order tellsLate within written'⟩

end NfcPolling.StampTexts
