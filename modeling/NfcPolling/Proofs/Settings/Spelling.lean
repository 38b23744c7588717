import Mathlib.Data.List.Forall2
import Mathlib.Data.List.TakeWhile
import Mathlib.Data.Nat.Digits.Defs
import NfcPolling.Settings.Value

/-! How a configuration spells its values: a number in base ten or, behind `0x`,
in base sixteen; bytes as pairs of digits between colons; text in quotes. No spelling
but a quoted text holds white space, and none holds the end of a line. -/
namespace NfcPolling.Spelling
open NfcPolling.Settings Bytes

/-- The byte shows this digit of the base; a letter in either case. -/
def Shows (base digit : Nat) (b : UInt8) : Prop :=
  digit < base ∧ (b = ofChar digit.digitChar ∨ b = ofChar digit.digitChar.toUpper)

instance (base digit : Nat) (b : UInt8) : Decidable (Shows base digit b) :=
  inferInstanceAs (Decidable (_ ∧ _))

/-- The digits of a number, the most significant first. Zeros may go in front. -/
inductive Digits (base : Nat) : Nat → Bytes → Prop where
  | single {digit : Nat} {b : UInt8} (shown : Shows base digit b) : Digits base digit [b]
  | further {n digit : Nat} {text : Bytes} {b : UInt8} (front : Digits base n text)
      (shown : Shows base digit b) : Digits base (base * n + digit) (text ++ [b])

/-- Two digits in base sixteen for a byte. -/
def Pair (byte : UInt8) (pair : Bytes) : Prop :=
  ∃ high low, pair = [high, low] ∧ Shows 16 (byte.toNat / 16) high ∧
    Shows 16 (byte.toNat % 16) low

/-- The text is written for the value. What is quoted may hold any byte that does
not end a line, the quote among them. -/
inductive Spells : Value → Bytes → Prop where
  | decimal (number : UInt32) : Spells (.unsigned number) (Bytes.decimal number.toNat)
  | hexadecimal (number : UInt32) {digits : Bytes} (shown : Digits 16 number.toNat digits) :
      Spells (.unsigned number) (ofChar '0' :: ofChar 'x' :: digits)
  | bytes {content : Bytes} {pairs : List Bytes} (filled : content ≠ [])
      (paired : List.Forall₂ Pair content pairs) :
      Spells (.bytes content)
        (ofChar '\x7b' :: ([ofChar ':'].intercalate pairs ++ [ofChar '\x7d']))
  | string {text : Bytes} (filled : text ≠ []) (single : 10 ∉ text) :
      Spells (.string text) (ofChar '\x22' :: (text ++ [ofChar '\x22']))

theorem pieces_eq_splitOn (separator : UInt8) (text : Bytes) :
    pieces separator text = text.splitOn separator := by
  induction text with
  | nil => rfl
  | cons b rest ih =>
    rw [pieces, List.splitOn_cons_eq_if_modifyHead, ih]
    by_cases same : b = separator
    · simp [same]
    · cases split : rest.splitOn separator with
      | nil => exact absurd split (List.splitOn_ne_nil _ _)
      | cons piece more => simp [same]

/-- Pieces that do not hold the separator are found again behind it. -/
theorem pieces_intercalate {separator : UInt8} {parts : List Bytes} (filled : parts ≠ [])
    (apart : ∀ part ∈ parts, separator ∉ part) :
    pieces separator ([separator].intercalate parts) = parts := by
  rw [pieces_eq_splitOn, List.splitOn_intercalate separator apart filled]

theorem piece_apart {separator : UInt8} {text piece : Bytes}
    (member : piece ∈ pieces separator text) : separator ∉ piece := by
  induction text generalizing piece with
  | nil =>
    rw [pieces, List.mem_singleton] at member
    simp [member]
  | cons b rest ih =>
    rw [pieces] at member
    split at member
    · rcases List.mem_cons.mp member with rfl | later
      · exact List.not_mem_nil
      · exact ih later
    · rename_i other
      split at member
      · rw [List.mem_singleton] at member
        simp [member, Ne.symm other]
      · rename_i inner more split
        rcases List.mem_cons.mp member with rfl | later
        · rw [List.mem_cons, not_or]
          exact ⟨Ne.symm other, ih (by simp [split])⟩
        · exact ih (by simp [split, later])

theorem enclosed_between (opening closing : UInt8) (inner : Bytes) :
    Value.enclosed? opening closing (opening :: (inner ++ [closing])) = some inner := by
  simp [Value.enclosed?]

theorem enclosed_otherwise {opening closing first : UInt8} (other : first ≠ opening)
    (rest : Bytes) : Value.enclosed? opening closing (first :: rest) = none := by
  simp [Value.enclosed?, other]

theorem hexValue_shown {base digit : Nat} {b : UInt8} (small : base ≤ 16)
    (shown : Shows base digit b) : hexValue? b = some digit := by
  have both : ∀ d : Fin 16, hexValue? (ofChar d.val.digitChar) = some d.val ∧
      hexValue? (ofChar d.val.digitChar.toUpper) = some d.val := by decide
  obtain ⟨below, rfl | rfl⟩ := shown
  · exact (both ⟨digit, Nat.lt_of_lt_of_le below small⟩).1
  · exact (both ⟨digit, Nat.lt_of_lt_of_le below small⟩).2

theorem digits_append (base : Nat) (text : Bytes) (b : UInt8) :
    Numeral.digits? base (text ++ [b]) =
      (Numeral.digits? base text).bind fun n => (Numeral.digit? base b).map (base * n + ·) := by
  simp [Numeral.digits?, List.foldl_append]

theorem digits_read {base n : Nat} {text : Bytes} (small : base ≤ 16)
    (written : Digits base n text) : Numeral.digits? base text = some n := by
  have digit {d : Nat} {b : UInt8} (shown : Shows base d b) :
      Numeral.digit? base b = some d := by
    simp [Numeral.digit?, hexValue_shown small shown, shown.1]
  induction written with
  | single shown => simp [Numeral.digits?, digit shown]
  | further front shown ih => simp [digits_append, ih, digit shown]

theorem digits_unique {base n m : Nat} {text : Bytes} (small : base ≤ 16)
    (left : Digits base n text) (right : Digits base m text) : n = m :=
  Option.some.inj ((digits_read small left).symm.trans (digits_read small right))

theorem digits_filled {base n : Nat} {text : Bytes} (written : Digits base n text) :
    text ≠ [] := by
  cases written with
  | single shown => simp
  | further front shown => simp

/-- Every byte of a numeral is a digit of its base. -/
theorem digits_below {base n : Nat} {text : Bytes} (small : base ≤ 16)
    (written : Digits base n text) : ∀ b ∈ text, ∃ d < base, hexValue? b = some d := by
  induction written with
  | single shown => simpa using ⟨_, shown.1, hexValue_shown small shown⟩
  | further front shown ih =>
    intro b member
    rw [List.mem_append, List.mem_singleton] at member
    rcases member with inside | rfl
    · exact ih b inside
    · exact ⟨_, shown.1, hexValue_shown small shown⟩

theorem digits_shown {base n : Nat} {text : Bytes} (small : base ≤ 16)
    (written : Digits base n text) : ∀ b ∈ text, ∃ d, hexValue? b = some d := fun b member =>
  (digits_below small written b member).imp fun _ => And.right

/-- A number is written with its digits, in any base. -/
theorem digits_written {base : Nat} (proper : 1 < base) (n : Nat) :
    Digits base n (digits base n) := by
  -- The last digit comes off the end, and what is in front of it is the quotient.
  induction n using Nat.strongRecOn with
  | ind n ih =>
    by_cases small : n < base
    · rw [digits, Nat.toDigits_of_lt_base small]
      exact .single ⟨small, Or.inl rfl⟩
    · have filled : 0 < n := by omega
      have front := ih (n / base) (Nat.div_lt_self filled proper)
      have last : Shows base (n % base) (ofChar (n % base).digitChar) :=
        ⟨Nat.mod_lt n (by omega), Or.inl rfl⟩
      have whole := Digits.further front last
      rw [Nat.div_add_mod, digits] at whole
      rw [digits, Nat.toDigits_of_base_le proper (Nat.le_of_not_lt small), List.map_append]
      exact whole

theorem decimal_digits (n : Nat) : Digits 10 n (decimal n) := digits_written (by decide) n

theorem digits_behind_zero {base n : Nat} {text : Bytes} (positive : 0 < base)
    (written : Digits base n text) : Digits base n (ofChar '0' :: text) := by
  induction written with
  | @single digit b shown =>
    have zero : Digits base 0 [ofChar '0'] := .single ⟨positive, Or.inl rfl⟩
    simpa using Digits.further zero shown
  | further front shown ih => exact .further ih shown

/-- Filling up with zeros does not change the number. -/
theorem digits_padded {base n : Nat} {text : Bytes} (positive : 0 < base) (width : Nat)
    (written : Digits base n text) : Digits base n (padded width text) := by
  rw [padded]
  induction width - text.length with
  | zero => exact written
  | succ count ih => exact digits_behind_zero positive ih

theorem decimal_read (width n : Nat) :
    Numeral.digits? 10 (padded width (decimal n)) = some n :=
  digits_read (by omega) (digits_padded (by omega) width (decimal_digits n))

/-- Only zero itself starts with a zero. -/
theorem decimal_head {n : Nat} (positive : 0 < n) : (decimal n).head? ≠ some (ofChar '0') := by
  have leading : ∀ d : Fin 10, 0 < d.val → ofChar d.val.digitChar ≠ ofChar '0' := by decide
  induction n using Nat.strongRecOn with
  | ind n ih =>
    by_cases small : n < 10
    · rw [decimal, digits, Nat.toDigits_of_lt_base small]
      simpa using leading ⟨n, small⟩ positive
    · have front := ih (n / 10) (by omega) (by omega)
      rw [decimal, digits] at front
      rw [decimal, digits, Nat.toDigits_of_base_le (by omega) (Nat.le_of_not_lt small),
        List.map_append, List.head?_append_of_ne_nil _ (by simp [Nat.toDigits_ne_nil])]
      exact front

theorem digit_above {b : UInt8} {d : Nat} (digit : hexValue? b = some d) : 32 < b.toNat := by
  have zero : (ofChar '0').toNat = 48 := rfl
  have lower : (ofChar 'a').toNat = 97 := rfl
  have upper : (ofChar 'A').toNat = 65 := rfl
  simp only [hexValue?, UInt8.le_iff_toNat_le, zero, lower, upper] at digit
  split at digit
  · omega
  · split at digit
    · omega
    · split at digit
      · omega
      · cases digit

theorem digit_other {b other : UInt8} {d : Nat} (digit : hexValue? b = some d)
    (none : hexValue? other = none) : b ≠ other := by
  rintro rfl
  rw [none] at digit
  cases digit

/-- White space, the end of a line and the end of a text lie below all digits. -/
theorem spaceless {b : UInt8} (above : 32 < b.toNat) :
    b ≠ 0 ∧ b ≠ 10 ∧ isBlank b = false ∧ Numeral.isSpace b = false := by
  have other : ∀ low : UInt8, low.toNat ≤ 32 → b ≠ low := by
    rintro low small rfl
    omega
  have late : ¬ b ≤ 13 := by
    rw [UInt8.le_iff_toNat_le]
    exact fun small => absurd (Nat.lt_of_lt_of_le above small) (by decide)
  simp [isBlank, Numeral.isSpace, other, late, ofChar]

theorem digits_plain {base n : Nat} {text : Bytes} (small : base ≤ 16)
    (written : Digits base n text) : ∀ b ∈ text, 32 < b.toNat := by
  intro b member
  obtain ⟨d, digit⟩ := digits_shown small written b member
  exact digit_above digit

theorem digits_length {base n count : Nat} (positive : 0 < count) (small : n < base ^ count) :
    (digits base n).length ≤ count := by
  rw [digits, List.length_map]
  exact Nat.toDigits_length base n count positive small

theorem padded_length {width : Nat} {text : Bytes} (fits : text.length ≤ width) :
    (padded width text).length = width := by
  rw [padded, List.length_append, List.length_replicate]
  omega

theorem hex_length {n width : Nat} (positive : 0 < width) (small : n < 16 ^ width) :
    (hex width n).length = width :=
  padded_length (digits_length positive small)

theorem hex_plain (width n : Nat) : ∀ b ∈ hex width n, 32 < b.toNat := by
  intro b member
  rw [hex, padded, List.mem_append] at member
  rcases member with zero | shown
  · rw [List.eq_of_mem_replicate zero]
    decide
  · exact digits_plain le_rfl (digits_written (by decide) n) b shown

theorem pair_values {byte : UInt8} {pair : Bytes} (paired : Pair byte pair) :
    ∃ high low, pair = [high, low] ∧ hexValue? high = some (byte.toNat / 16) ∧
      hexValue? low = some (byte.toNat % 16) := by
  obtain ⟨high, low, written, highShown, lowShown⟩ := paired
  exact ⟨high, low, written, hexValue_shown le_rfl highShown, hexValue_shown le_rfl lowShown⟩

theorem pair_read {byte : UInt8} {pair : Bytes} (paired : Pair byte pair) :
    Value.byteGroup? pair = some byte := by
  obtain ⟨high, low, rfl, highValue, lowValue⟩ := pair_values paired
  have nul : low ≠ 0 := digit_other lowValue rfl
  simp only [Value.byteGroup?, highValue, lowValue, nul, Option.bind_some, Option.map_some,
    ↓reduceIte]
  rw [Nat.div_add_mod, UInt8.ofNat_toNat]

theorem pairs_shown {content : Bytes} {pairs : List Bytes}
    (paired : List.Forall₂ Pair content pairs) :
    ∀ pair ∈ pairs, ∀ b ∈ pair, ∃ d, hexValue? b = some d := by
  induction paired with
  | nil => simp
  | cons first rest ih =>
    obtain ⟨high, low, rfl, highValue, lowValue⟩ := pair_values first
    simpa [highValue, lowValue] using ih

theorem mem_intercalate {separator b : UInt8} {parts : List Bytes}
    (member : b ∈ [separator].intercalate parts) :
    b = separator ∨ ∃ part ∈ parts, b ∈ part := by
  induction parts with
  | nil => simp at member
  | cons part rest ih =>
    cases rest with
    | nil => exact Or.inr ⟨part, by simp, by simpa using member⟩
    | cons next more =>
      rw [List.intercalate_cons_cons, List.mem_append, List.mem_append,
        List.mem_singleton] at member
      rcases member with (own | rfl) | later
      · exact Or.inr ⟨part, by simp, own⟩
      · exact Or.inl rfl
      · rcases ih later with same | ⟨other, chosen, inside⟩
        · exact Or.inl same
        · exact Or.inr ⟨other, List.mem_cons_of_mem part chosen, inside⟩

/-- Each byte of a spelling lies above the space, except inside quotes, where only
the end of a line is missing. -/
theorem spelled_plain {value : Value} {text : Bytes} (spelled : Spells value text) :
    (∀ b ∈ text, 32 < b.toNat) ∨
      ∃ inner, text = ofChar '\x22' :: (inner ++ [ofChar '\x22']) ∧ 10 ∉ inner := by
  cases spelled with
  | decimal number => exact Or.inl (digits_plain (by omega) (decimal_digits _))
  | hexadecimal number shown =>
    left
    simpa using ⟨by decide, by decide, digits_plain le_rfl shown⟩
  | @bytes content pairs filled paired =>
    have inner : ∀ b ∈ [ofChar ':'].intercalate pairs, 32 < b.toNat := by
      intro b member
      rcases mem_intercalate member with rfl | ⟨pair, chosen, inside⟩
      · decide
      · obtain ⟨d, digit⟩ := pairs_shown paired pair chosen b inside
        exact digit_above digit
    left
    simpa [or_imp, forall_and] using ⟨by decide, inner, by decide⟩
  | string filled single => exact Or.inr ⟨_, rfl, single⟩

end NfcPolling.Spelling
