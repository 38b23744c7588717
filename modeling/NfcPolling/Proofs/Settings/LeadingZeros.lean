import NfcPolling.Proofs.Settings.ValueSyntax

/-! The base in which a number is read. Behind `0x` it is sixteen and behind any digit but
a zero it is ten, for numerals of any length. A zero in front of other digits changes the
base to eight: the digits then denote less than in base ten, or nothing at all. -/
namespace NfcPolling.LeadingZeros
open NfcPolling.Settings Bytes Spelling NumeralSyntax ValueSyntax

section Read
variable [Dialect]

/-- The text is accepted as this number when 32 bits can hold it, and else refused. -/
def ReadAs (n : Nat) (text : Bytes) : Prop :=
  (n < UInt32.size → Accepted text (.unsigned (.ofNat n))) ∧ (UInt32.size ≤ n → Refused text)

theorem written_unique {n m : Nat} {text : Bytes} (left : Written n text)
    (right : Written m text) : n = m :=
  Option.some.inj ((magnitude_of_written left).symm.trans (magnitude_of_written right))

end Read

theorem shows_wider {base wider digit : Nat} {b : UInt8} (le : base ≤ wider)
    (shown : Shows base digit b) : Shows wider digit b :=
  ⟨Nat.lt_of_lt_of_le shown.1 le, shown.2⟩

/-- Digits of base eight denote less in that base than in base ten, unless a single
digit is all that the zeros leave. -/
theorem octal_below {m : Nat} {text : Bytes} (eight : Digits 8 m text) :
    ∃ n, Digits 10 n text ∧ m ≤ n ∧ (8 ≤ n → m < n) := by
  induction eight with
  | @single digit b shown =>
    have below := shown.1
    exact ⟨digit, .single (shows_wider (by omega) shown), le_rfl, by omega⟩
  | @further m digit front b _ shown ih =>
    obtain ⟨n, ten, le, less⟩ := ih
    have below := shown.1
    exact ⟨_, .further ten (shows_wider (by omega) shown), by omega, by omega⟩

/-- Where zeros leave a single digit below eight, both bases agree. -/
theorem octal_of_small {n : Nat} {text : Bytes} (ten : Digits 10 n text) (small : n < 8) :
    Digits 8 n text := by
  induction ten with
  | single shown => exact .single ⟨small, shown.2⟩
  | @further n digit front b _ shown ih =>
    obtain rfl : n = 0 := by omega
    have early : digit < 8 := by omega
    simpa using Digits.further (ih (by omega)) ⟨early, shown.2⟩

/-- An eight or a nine, the decimal digits that base eight does not have. -/
def Late (b : UInt8) : Prop := b = ofChar '8' ∨ b = ofChar '9'

theorem late_of_shows {digit : Nat} {b : UInt8} (shown : Shows 10 digit b) (late : 8 ≤ digit) :
    Late b := by
  have either : digit = 8 ∨ digit = 9 := by
    have below := shown.1
    omega
  rcases either with rfl | rfl
  · exact .inl (shown.2.elim id id)
  · exact .inr (shown.2.elim id id)

/-- Decimal digits are digits of base eight, or one of them is late. -/
theorem octal_or_late {n : Nat} {text : Bytes} (ten : Digits 10 n text) :
    (∃ m, Digits 8 m text) ∨ ∃ b ∈ text, Late b := by
  induction ten with
  | @single digit b shown =>
    by_cases early : digit < 8
    · exact .inl ⟨digit, .single ⟨early, shown.2⟩⟩
    · exact .inr ⟨b, by simp, late_of_shows shown (Nat.le_of_not_lt early)⟩
  | @further n digit front b _ shown ih =>
    rcases ih with ⟨m, eight⟩ | ⟨other, member, late⟩
    · by_cases early : digit < 8
      · exact .inl ⟨_, .further eight ⟨early, shown.2⟩⟩
      · exact .inr ⟨b, by simp, late_of_shows shown (Nat.le_of_not_lt early)⟩
    · exact .inr ⟨other, by simp [member], late⟩

theorem octal_not_late {m : Nat} {text : Bytes} (eight : Digits 8 m text) :
    ∀ b ∈ text, ¬ Late b := by
  have early : ∀ d : Fin 8, ¬ Late (ofChar d.val.digitChar) ∧
      ¬ Late (ofChar d.val.digitChar.toUpper) := by
    unfold Late
    decide
  have single {digit : Nat} {b : UInt8} (shown : Shows 8 digit b) : ¬ Late b := by
    obtain ⟨below, rfl | rfl⟩ := shown
    · exact (early ⟨digit, below⟩).1
    · exact (early ⟨digit, below⟩).2
  induction eight with
  | single shown => simpa using single shown
  | further front shown ih =>
    intro b member
    rcases List.mem_append.mp member with inside | last
    · exact ih b inside
    · rw [List.mem_singleton.mp last]
      exact single shown

section Read
variable [Dialect]

/-- A text that a digit opens is no string and no bytes. -/
theorem read_digit {first : UInt8} {d : Nat} (digit : hexValue? first = some d) (rest : Bytes) :
    Value.read? (first :: rest) = (Numeral.read? (first :: rest)).map .unsigned := by
  rw [Value.read?, enclosed_otherwise (digit_other digit rfl),
    enclosed_otherwise (digit_other digit rfl)]

theorem refused_of_unwritten {first : UInt8} {rest : Bytes} {d : Nat}
    (digit : hexValue? first = some d) (plain : 0 ∉ first :: rest)
    (none : ∀ number : UInt32, ¬ Written number.toNat (first :: rest)) :
    Refused (first :: rest) := by
  have solid : (first :: rest).head?.any Numeral.isSpace = false :=
    (spaceless (digit_above digit)).2.2.2
  rw [refused_iff, read_digit digit, Option.map_eq_none_iff, Option.eq_none_iff_forall_ne_some]
  exact fun number read => none number ((read_solid_iff plain solid number).mp read)

/-- Every numeral is read as the number it denotes. -/
theorem written_read {n : Nat} {text : Bytes} (written : Written n text) : ReadAs n text := by
  refine ⟨fun small => ?_, fun large => ?_⟩
  · rw [accepted_iff]
    apply read_written
    rwa [UInt32.toNat_ofNat_of_lt' small]
  · have plain := written_without_nul written
    obtain ⟨first, rest, rfl, d, digit⟩ := written_opens written
    refine refused_of_unwritten digit plain fun number other => ?_
    have bound := number.toNat_lt
    rw [written_unique other written] at bound
    exact absurd bound (Nat.not_lt_of_le large)

/-- Behind a zero decimal digits are a numeral of base eight or no numeral. -/
theorem zero_written_iff {n m : Nat} {rest : Bytes} (ten : Digits 10 n (ofChar '0' :: rest)) :
    Written m (ofChar '0' :: rest) ↔ Digits 8 m (ofChar '0' :: rest) := by
  refine ⟨fun written => ?_, .octal⟩
  generalize whole : ofChar '0' :: rest = text at written ten
  cases written with
  | octal shown => exact shown
  | decimal leading => exact absurd (List.cons.inj whole).1.symm leading
  | @hexadecimal mark digits marked =>
    exact absurd marked (digits_unmarked le_rfl ten mark (by simp)).1
  | @binary mark digits known marked =>
    exact absurd marked (digits_unmarked le_rfl ten mark (by simp)).2

theorem late_refused {n : Nat} {rest : Bytes} (ten : Digits 10 n (ofChar '0' :: rest))
    {b : UInt8} (member : b ∈ ofChar '0' :: rest) (late : Late b) : Refused (ofChar '0' :: rest) := by
  have plain : 0 ∉ ofChar '0' :: rest := fun nul =>
    absurd (digits_plain (by omega) ten 0 nul) (by decide)
  refine refused_of_unwritten (d := 0) rfl plain fun number written => ?_
  exact octal_not_late ((zero_written_iff ten).mp written) b member late

theorem written_of_accepted {n : Nat} {rest : Bytes} (ten : Digits 10 n (ofChar '0' :: rest))
    {number : UInt32} (accepted : Accepted (ofChar '0' :: rest) (.unsigned number)) :
    Written number.toNat (ofChar '0' :: rest) := by
  have plain : 0 ∉ ofChar '0' :: rest := fun nul =>
    absurd (digits_plain (by omega) ten 0 nul) (by decide)
  rw [accepted_iff, read_unsigned_iff] at accepted
  exact (read_solid_iff plain rfl number).mp accepted

theorem not_refused_of_accepted {text : Bytes} {value : Value} (accepted : Accepted text value) :
    ¬ Refused text := by
  rw [accepted_iff] at accepted
  rw [refused_iff, accepted]
  exact Option.some_ne_none value

/-- Behind a zero decimal digits are read as they denote only when a single significant
digit below eight is left, or when both bases are too large. -/
theorem zero_read_iff {n : Nat} {rest : Bytes} (ten : Digits 10 n (ofChar '0' :: rest)) :
    ReadAs n (ofChar '0' :: rest) ↔
      n < 8 ∨ (UInt32.size ≤ n ∧ ∀ m, Digits 8 m (ofChar '0' :: rest) → UInt32.size ≤ m) := by
  constructor
  · rintro ⟨accepts, refuses⟩
    refine or_iff_not_imp_left.mpr fun several => ?_
    have large : UInt32.size ≤ n := by
      refine Nat.le_of_not_lt fun small => ?_
      have written := written_of_accepted ten (accepts small)
      rw [UInt32.toNat_ofNat_of_lt' small, zero_written_iff ten] at written
      obtain ⟨other, otherTen, -, less⟩ := octal_below written
      obtain rfl := digits_unique (by omega) otherTen ten
      exact absurd (less (Nat.le_of_not_lt several)) (lt_irrefl _)
    refine ⟨large, fun m eight => Nat.le_of_not_lt fun small => ?_⟩
    exact not_refused_of_accepted ((written_read (.octal eight)).1 small) (refuses large)
  · rintro (single | ⟨large, largeEight⟩)
    · exact written_read (.octal (octal_of_small ten single))
    · refine ⟨fun small => absurd small (Nat.not_lt_of_le large), fun _ => ?_⟩
      rcases octal_or_late ten with ⟨m, eight⟩ | ⟨b, member, late⟩
      · exact (written_read (.octal eight)).2 (largeEight m eight)
      · exact late_refused ten member late

/-- Digits behind `0x` and decimal digits that no zero opens are read as the number they
denote, and refused when 32 bits cannot hold it. Decimal digits behind a zero are read in
base eight instead, as a smaller number when they have more than one significant digit,
and refused when an eight or a nine is among them; the last part says for which of them
this makes no difference. -/
theorem decimal_unless_leading_zero (n : Nat) (text : Bytes) :
    (Digits 16 n text → ReadAs n (ofChar '0' :: ofChar 'x' :: text)) ∧
    (Digits 10 n text →
      (text.head? ≠ some (ofChar '0') → ReadAs n text) ∧
      (text.head? = some (ofChar '0') →
        (∀ m, Digits 8 m text → m ≤ n ∧ (8 ≤ n → m < n) ∧ ReadAs m text) ∧
        ((∃ b ∈ text, Late b) → Refused text) ∧
        (ReadAs n text ↔
          n < 8 ∨ (UInt32.size ≤ n ∧ ∀ m, Digits 8 m text → UInt32.size ≤ m)))) := by
  refine ⟨fun shown => written_read (.hexadecimal (.inl rfl) shown), fun ten => ?_⟩
  obtain ⟨first, rest, rfl⟩ := List.exists_cons_of_ne_nil (digits_filled ten)
  refine ⟨fun other => written_read (.decimal (by simpa using other) ten), fun zero => ?_⟩
  obtain rfl : first = ofChar '0' := by simpa using zero
  refine ⟨fun m eight => ?_, fun ⟨b, member, late⟩ => late_refused ten member late,
    zero_read_iff ten⟩
  obtain ⟨other, otherTen, le, less⟩ := octal_below eight
  obtain rfl := digits_unique (by omega) otherTen ten
  exact ⟨le, less, written_read (.octal eight)⟩

end Read

/-- The largest number in both notations, and a number that a zero in front makes
smaller. -/
theorem hundred_behind_zero_is_smaller :
    Digits 16 4294967295 (ascii "fFffffff") ∧
    Accepted (ascii "0xfFffffff") (.unsigned 4294967295) ∧
    Digits 10 4294967295 (ascii "4294967295") ∧
    Accepted (ascii "4294967295") (.unsigned 4294967295) ∧
    Digits 10 100 (ascii "0100") ∧ Accepted (ascii "0100") (.unsigned 64) := by
  have hex : Digits 16 4294967295 (ascii "fFffffff") := (digits_iff le_rfl (by decide) _).mp (by decide)
  have largest : Digits 10 4294967295 (ascii "4294967295") :=
    (digits_iff (by omega) (by decide) _).mp (by decide)
  have ten : Digits 10 100 (ascii "0100") := (digits_iff (by omega) (by decide) _).mp (by decide)
  have eight : Digits 8 64 (ascii "0100") := (digits_iff (by omega) (by decide) _).mp (by decide)
  have behind := ((decimal_unless_leading_zero 100 (ascii "0100")).2 ten).2 rfl
  exact ⟨hex, ((decimal_unless_leading_zero _ _).1 hex).1 (by decide), largest,
    (((decimal_unless_leading_zero _ _).2 largest).1 (by decide)).1 (by decide), ten,
    (behind.1 64 eight).2.2.1 (by decide)⟩

/-- Ten behind a zero is read as eight, eight behind a zero is refused, and a number of
more than 32 bits is accepted behind a zero. -/
theorem leading_zero_misread :
    (Digits 10 10 (ascii "010") ∧ Accepted (ascii "010") (.unsigned 8) ∧
      ¬ ReadAs 10 (ascii "010")) ∧
    (Digits 10 8 (ascii "08") ∧ Refused (ascii "08") ∧ ¬ ReadAs 8 (ascii "08")) ∧
    Digits 10 10000000000 (ascii "010000000000") ∧
      Accepted (ascii "010000000000") (.unsigned 1073741824) ∧
      ¬ ReadAs 10000000000 (ascii "010000000000") := by
  have ten : Digits 10 10 (ascii "010") := (digits_iff (by omega) (by decide) _).mp (by decide)
  have eight : Digits 10 8 (ascii "08") := (digits_iff (by omega) (by decide) _).mp (by decide)
  have long : Digits 10 10000000000 (ascii "010000000000") :=
    (digits_iff (by omega) (by decide) _).mp (by decide)
  have asEight : Value.read? (ascii "010") = some (.unsigned 8) := by decide
  have unread : Value.read? (ascii "08") = none := by decide
  have shorter : Value.read? (ascii "010000000000") = some (.unsigned 1073741824) := by decide
  refine ⟨⟨ten, (accepted_iff _ _).mpr asEight, fun asTen => ?_⟩,
    ⟨eight, (refused_iff _).mpr unread, fun asWritten => ?_⟩,
    long, (accepted_iff _ _).mpr shorter, fun asLong => ?_⟩
  · have read := (accepted_iff _ _).mp (asTen.1 (by decide))
    rw [asEight] at read
    cases read
  · exact not_refused_of_accepted (asWritten.1 (by decide)) ((refused_iff _).mpr unread)
  · exact not_refused_of_accepted ((accepted_iff _ _).mpr shorter) (asLong.2 (by decide))

end NfcPolling.LeadingZeros
