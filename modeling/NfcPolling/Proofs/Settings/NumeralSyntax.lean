import Mathlib.Data.List.Induction
import NfcPolling.Proofs.Settings.Spelling

/-! The texts that are read as numbers, as a grammar of its own: digits in one of three
bases or, where the system knows it, in base two, an optional sign, and white space that
must stand in front of a sign. Every text of the grammar is read as the number it denotes,
and no other text that holds no NUL is read as a number. -/
namespace NfcPolling.NumeralSyntax
open NfcPolling.Settings Bytes Spelling

theorem hexValue_shows {b : UInt8} {digit : Nat} (read : hexValue? b = some digit) :
    Shows 16 digit b := by
  have every : ∀ i : Fin 256, ∀ d ∈ hexValue? ⟨⟨i⟩⟩, Shows 16 d ⟨⟨i⟩⟩ := by decide +kernel
  exact every b.toFin digit read

theorem digit_iff {base : Nat} (small : base ≤ 16) (b : UInt8) (digit : Nat) :
    Numeral.digit? base b = some digit ↔ Shows base digit b := by
  rw [Numeral.digit?, Option.filter_eq_some_iff, decide_eq_true_iff]
  constructor
  · rintro ⟨read, below⟩
    exact ⟨below, (hexValue_shows read).2⟩
  · intro shown
    exact ⟨hexValue_shown small shown, shown.1⟩

/-- Digits are read as a number when they are its digits. -/
theorem digits_iff {base : Nat} (small : base ≤ 16) {text : Bytes} (filled : text ≠ []) (n : Nat) :
    Numeral.digits? base text = some n ↔ Digits base n text := by
  refine ⟨fun read => ?_, digits_read small⟩
  -- The reader goes from the front, a numeral is built up at its end.
  induction text using List.reverseRecOn generalizing n with
  | nil => exact absurd rfl filled
  | append_singleton front b ih =>
    rw [digits_append] at read
    obtain ⟨m, before, last⟩ := Option.bind_eq_some_iff.mp read
    obtain ⟨digit, shown, rfl⟩ := Option.map_eq_some_iff.mp last
    rw [digit_iff small] at shown
    by_cases alone : front = []
    · subst alone
      cases before
      simpa using Digits.single shown
    · exact .further (ih alone m before) shown

/-- No mark of a base is a decimal digit. -/
theorem digits_unmarked {base n : Nat} {text : Bytes} (small : base ≤ 10)
    (shown : Digits base n text) : ∀ b ∈ text, ¬ (b = ofChar 'x' ∨ b = ofChar 'X') ∧
      ¬ (b = ofChar 'b' ∨ b = ofChar 'B') := by
  intro b member
  obtain ⟨d, below, digit⟩ := digits_below (by omega) shown b member
  refine ⟨not_or.mpr ⟨digit_other digit rfl, digit_other digit rfl⟩, fun marked => ?_⟩
  have eleven : hexValue? b = some 11 := by rcases marked with rfl | rfl <;> rfl
  obtain rfl : 11 = d := Option.some.inj (eleven.symm.trans digit)
  omega

variable [Dialect]

/-- Digits with what tells their base: sixteen behind `0x`, eight behind a zero,
and ten when the first digit is another one. Two is the base behind `0b`, where it is
known. -/
inductive Written : Nat → Bytes → Prop where
  | hexadecimal {n : Nat} {mark : UInt8} {digits : Bytes}
      (marked : mark = ofChar 'x' ∨ mark = ofChar 'X') (shown : Digits 16 n digits) :
      Written n (ofChar '0' :: mark :: digits)
  | octal {n : Nat} {digits : Bytes} (shown : Digits 8 n (ofChar '0' :: digits)) :
      Written n (ofChar '0' :: digits)
  | decimal {n : Nat} {first : UInt8} {digits : Bytes} (leading : first ≠ ofChar '0')
      (shown : Digits 10 n (first :: digits)) : Written n (first :: digits)
  | binary {n : Nat} {mark : UInt8} {digits : Bytes} (known : Dialect.readsBinary = true)
      (marked : mark = ofChar 'b' ∨ mark = ofChar 'B') (shown : Digits 2 n digits) :
      Written n (ofChar '0' :: mark :: digits)

theorem magnitude_of_written {n : Nat} {text : Bytes} (written : Written n text) :
    Numeral.magnitude? text = some n := by
  cases written with
  | hexadecimal marked shown =>
    simp [Numeral.magnitude?, marked, digits_filled shown, digits_read le_rfl shown]
  | @binary mark digits known marked shown =>
    have other : ¬ (mark = ofChar 'x' ∨ mark = ofChar 'X') := by
      rcases marked with rfl | rfl <;> decide
    simp [Numeral.magnitude?, other, known, marked, digits_filled shown,
      digits_read (by omega) shown]
  | decimal leading shown =>
    simp [Numeral.magnitude?, leading, digits_read (by omega) shown]
  | @octal digits shown =>
    have read := digits_read (by omega) shown
    cases digits with
    | nil => exact read
    | cons second rest =>
      -- Neither mark of another base is a digit of base eight.
      obtain ⟨unmarked, unmarkedTwo⟩ := digits_unmarked (by omega) shown second (by simp)
      rw [Numeral.magnitude?, if_pos rfl]
      simp only [if_neg unmarked, unmarkedTwo, and_false, ↓reduceIte]
      exact read

theorem written_of_magnitude {n : Nat} {text : Bytes} (read : Numeral.magnitude? text = some n) :
    Written n text := by
  cases text with
  | nil => cases read
  | cons first rest =>
    simp only [Numeral.magnitude?] at read
    by_cases leading : first = ofChar '0'
    · subst leading
      rw [if_pos rfl] at read
      cases rest with
      | nil =>
        cases read
        exact .octal (.single (by decide))
      | cons second digits =>
        by_cases marked : second = ofChar 'x' ∨ second = ofChar 'X'
        · simp only [if_pos marked] at read
          by_cases filled : digits = []
          · rw [if_pos filled] at read
            cases read
          · rw [if_neg filled] at read
            exact .hexadecimal marked ((digits_iff le_rfl filled n).mp read)
        · simp only [if_neg marked] at read
          by_cases two : Dialect.readsBinary = true ∧
              (second = ofChar 'b' ∨ second = ofChar 'B')
          · rw [if_pos two] at read
            by_cases filled : digits = []
            · rw [if_pos filled] at read
              cases read
            · rw [if_neg filled] at read
              exact .binary two.1 two.2 ((digits_iff (by omega) filled n).mp read)
          · rw [if_neg two] at read
            exact .octal ((digits_iff (by omega) (by simp) n).mp read)
    · rw [if_neg leading] at read
      exact .decimal leading ((digits_iff (by omega) (by simp) n).mp read)

theorem magnitude_iff (text : Bytes) (n : Nat) :
    Numeral.magnitude? text = some n ↔ Written n text :=
  ⟨written_of_magnitude, magnitude_of_written⟩

/-- Nothing but digits and the mark of base sixteen stands in a numeral: the mark of
base two is a digit of base sixteen. -/
theorem written_bytes {n : Nat} {text : Bytes} (written : Written n text) :
    ∀ b ∈ text, (∃ d, hexValue? b = some d) ∨ b = ofChar 'x' ∨ b = ofChar 'X' := by
  cases written with
  | octal shown => exact fun b member => .inl (digits_shown (by omega) shown b member)
  | decimal leading shown => exact fun b member => .inl (digits_shown (by omega) shown b member)
  | hexadecimal marked shown =>
    intro b member
    rcases List.mem_cons.mp member with rfl | later
    · exact .inl ⟨0, rfl⟩
    · rcases List.mem_cons.mp later with rfl | digit
      · exact .inr marked
      · exact .inl (digits_shown le_rfl shown b digit)
  | binary known marked shown =>
    intro b member
    rcases List.mem_cons.mp member with rfl | later
    · exact .inl ⟨0, rfl⟩
    · rcases List.mem_cons.mp later with rfl | digit
      · rcases marked with rfl | rfl <;> exact .inl ⟨11, rfl⟩
      · exact .inl (digits_shown (by omega) shown b digit)

def Sign (b : UInt8) : Prop := b = ofChar '-' ∨ b = ofChar '+'

omit [Dialect] in
theorem sign_solid {b : UInt8} (sign : Sign b) : Numeral.isSpace b = false := by
  rcases sign with rfl | rfl <;> decide

theorem written_signless {n : Nat} {text : Bytes} (written : Written n text) :
    ∀ b ∈ text, ¬ Sign b := by
  intro b member
  rw [Sign, not_or]
  rcases written_bytes written b member with ⟨d, digit⟩ | rfl | rfl
  · exact ⟨digit_other digit rfl, digit_other digit rfl⟩
  · decide
  · decide

theorem written_plain {n : Nat} {text : Bytes} (written : Written n text) :
    ∀ b ∈ text, 32 < b.toNat := by
  intro b member
  rcases written_bytes written b member with ⟨d, digit⟩ | rfl | rfl
  · exact digit_above digit
  · decide
  · decide

theorem written_decimal (n : Nat) : Written n (decimal n) := by
  by_cases positive : 0 < n
  · have shown := decimal_digits n
    have leading := decimal_head positive
    obtain ⟨first, rest, whole⟩ := List.exists_cons_of_ne_nil (digits_filled shown)
    rw [whole] at shown leading ⊢
    exact .decimal (by simpa using leading) shown
  · obtain rfl : n = 0 := by omega
    exact .octal (.single (by decide))

theorem written_opens {n : Nat} {text : Bytes} (written : Written n text) :
    ∃ first rest, text = first :: rest ∧ ∃ d, hexValue? first = some d := by
  cases written with
  | hexadecimal marked shown => exact ⟨_, _, rfl, 0, rfl⟩
  | binary known marked shown => exact ⟨_, _, rfl, 0, rfl⟩
  | octal shown => exact ⟨_, _, rfl, 0, rfl⟩
  | decimal leading shown => exact ⟨_, _, rfl, digits_shown (by omega) shown _ (by simp)⟩

theorem written_without_nul {n : Nat} {text : Bytes} (written : Written n text) : 0 ∉ text := by
  intro member
  exact absurd (written_plain written 0 member) (by decide)

theorem written_filled {n : Nat} {text : Bytes} (written : Written n text) : text ≠ [] := by
  cases written <;> simp

/-- A numeral of at most 64 bits, with or without a sign, and the number that is
made of it: a minus sign takes the complement to the next power of two. -/
inductive Signed : Nat → Bytes → Prop where
  | bare {n : Nat} {text : Bytes} (written : Written n text) (fits : n ≤ Numeral.maxMagnitude) :
      Signed n text
  | plus {n : Nat} {text : Bytes} (written : Written n text) (fits : n ≤ Numeral.maxMagnitude) :
      Signed n (ofChar '+' :: text)
  | minus {n : Nat} {text : Bytes} (written : Written n text) (fits : n ≤ Numeral.maxMagnitude) :
      Signed ((Numeral.maxMagnitude + 1 - n) % (Numeral.maxMagnitude + 1)) (ofChar '-' :: text)

theorem within_iff (text : Bytes) (n : Nat) :
    ((Numeral.magnitude? text).bind fun m => if m ≤ Numeral.maxMagnitude then some m else none) =
        some n ↔ Written n text ∧ n ≤ Numeral.maxMagnitude := by
  simp only [Option.bind_eq_some_iff, Option.ite_none_right_eq_some, Option.some.injEq,
    magnitude_iff]
  constructor
  · rintro ⟨m, written, fits, rfl⟩
    exact ⟨written, fits⟩
  · rintro ⟨written, fits⟩
    exact ⟨n, written, fits, rfl⟩

theorem signed_iff (text : Bytes) (n : Nat) :
    Numeral.signed? text = some n ↔ Signed n text := by
  constructor
  · intro read
    cases text with
    | nil => cases read
    | cons first rest =>
      simp only [Numeral.signed?] at read
      split at read
      · rename_i minus
        subst minus
        obtain ⟨m, within, rfl⟩ := Option.map_eq_some_iff.mp read
        obtain ⟨written, fits⟩ := (within_iff rest m).mp within
        exact .minus written fits
      · split at read
        · rename_i plus
          subst plus
          obtain ⟨written, fits⟩ := (within_iff rest n).mp read
          exact .plus written fits
        · obtain ⟨written, fits⟩ := (within_iff (first :: rest) n).mp read
          exact .bare written fits
  · intro signed
    cases signed with
    | minus written fits => simp [Numeral.signed?, (within_iff _ _).mpr ⟨written, fits⟩]
    | plus written fits => exact (within_iff _ _).mpr ⟨written, fits⟩
    | bare written fits =>
      cases text with
      | nil => exact absurd rfl (written_filled written)
      | cons first rest =>
        obtain ⟨minus, plus⟩ := not_or.mp (written_signless written first (by simp))
        simp only [Numeral.signed?, if_neg minus, if_neg plus]
        exact (within_iff _ _).mpr ⟨written, fits⟩

/-- A number of 32 bits as it can stand in a text without NUL. Only white space in
front makes room for a sign. -/
inductive Number (number : UInt32) : Bytes → Prop where
  | numeral {text : Bytes} (written : Written number.toNat text) : Number number text
  | spaced {spaces text : Bytes} (filled : spaces ≠ [])
      (blank : ∀ b ∈ spaces, Numeral.isSpace b = true) (signed : Signed number.toNat text) :
      Number number (spaces ++ text)

theorem signed_head {n : Nat} {text : Bytes} (signed : Signed n text) :
    ∃ first rest, text = first :: rest ∧ Numeral.isSpace first = false := by
  cases signed with
  | plus written fits => exact ⟨_, _, rfl, by decide⟩
  | minus written fits => exact ⟨_, _, rfl, by decide⟩
  | bare written fits =>
    obtain ⟨first, rest, rfl⟩ := List.exists_cons_of_ne_nil (written_filled written)
    exact ⟨first, rest, rfl, (spaceless (written_plain written first (by simp))).2.2.2⟩

/-- White space ends where a numeral or its sign begins. -/
theorem dropWhile_spaces {spaces text : Bytes} {n : Nat}
    (blank : ∀ b ∈ spaces, Numeral.isSpace b = true) (signed : Signed n text) :
    (spaces ++ text).dropWhile Numeral.isSpace = text := by
  obtain ⟨first, rest, rfl, solid⟩ := signed_head signed
  rw [List.dropWhile_append_of_pos blank, List.dropWhile_cons_of_neg (by simp [solid])]

omit [Dialect] in
/-- A 32-bit number and its value determine one another. -/
theorem narrowed_iff (n : Nat) (number : UInt32) :
    (if n < UInt32.size then some (UInt32.ofNat n) else none) = some number ↔
      n = number.toNat := by
  rw [Option.ite_none_right_eq_some, Option.some.injEq]
  constructor
  · rintro ⟨small, rfl⟩
    exact (UInt32.toNat_ofNat_of_lt' small).symm
  · rintro rfl
    exact ⟨number.toNat_lt, UInt32.ofNat_toNat⟩

omit [Dialect] in
theorem untilNul_plain {text : Bytes} (plain : 0 ∉ text) : untilNul text = text := by
  rw [untilNul, List.takeWhile_eq_self_iff]
  intro b member
  rw [bne_iff_ne]
  rintro rfl
  exact plain member

omit [Dialect] in
theorem nul_not_mem_untilNul (text : Bytes) : 0 ∉ untilNul text := by
  intro member
  simpa using List.mem_takeWhile_imp member

private theorem read_behind_spaces {first : UInt8} {rest : Bytes} (plain : 0 ∉ first :: rest)
    (number : UInt32) :
    Numeral.read? (first :: rest) = some number ↔
      ¬ Sign first ∧ Signed number.toNat ((first :: rest).dropWhile Numeral.isSpace) := by
  have nul : first ≠ 0 := by
    rintro rfl
    exact plain (by simp)
  rw [Numeral.read?, if_neg nul, untilNul_plain plain, Option.ite_none_left_eq_some]
  refine and_congr_right fun _ => ?_
  simp only [Option.bind_eq_some_iff, narrowed_iff, exists_eq_right, signed_iff]

theorem number_of_read {text : Bytes} (plain : 0 ∉ text) {number : UInt32}
    (read : Numeral.read? text = some number) : Number number text := by
  cases text with
  | nil => cases read
  | cons first rest =>
    obtain ⟨bare, signed⟩ := (read_behind_spaces plain number).mp read
    cases space : Numeral.isSpace first with
    | true =>
      rw [← List.takeWhile_append_dropWhile (p := Numeral.isSpace) (l := first :: rest)]
      exact .spaced (by simp [space]) (fun b member => List.mem_takeWhile_imp member) signed
    | false =>
      rw [List.dropWhile_cons_of_neg (by simp [space])] at signed
      generalize stands : number.toNat = n at signed
      cases signed with
      | bare written => exact .numeral (stands ▸ written)
      | plus => exact absurd (.inr rfl) bare
      | minus => exact absurd (.inl rfl) bare

theorem read_of_number {text : Bytes} (plain : 0 ∉ text) {number : UInt32}
    (is : Number number text) : Numeral.read? text = some number := by
  cases is with
  | numeral written =>
    have fits : number.toNat ≤ Numeral.maxMagnitude :=
      Nat.le_trans (Nat.le_of_lt number.toNat_lt) (by decide)
    have signed := Signed.bare written fits
    obtain ⟨first, rest, rfl, solid⟩ := signed_head signed
    rw [read_behind_spaces plain, List.dropWhile_cons_of_neg (by simp [solid])]
    exact ⟨written_signless written first (by simp), signed⟩
  | @spaced spaces text filled blank signed =>
    obtain ⟨first, more, rfl⟩ := List.exists_cons_of_ne_nil filled
    have behind := dropWhile_spaces blank signed
    rw [List.cons_append] at plain behind ⊢
    rw [read_behind_spaces plain, behind]
    refine ⟨fun sign => ?_, signed⟩
    have space : Numeral.isSpace first = true := blank first (by simp)
    rw [sign_solid sign] at space
    cases space

/-- Without NUL the texts that are read are the numbers. -/
theorem read_plain_iff {text : Bytes} (plain : 0 ∉ text) (number : UInt32) :
    Numeral.read? text = some number ↔ Number number text :=
  ⟨number_of_read plain, read_of_number plain⟩

theorem number_filled {text : Bytes} {number : UInt32} (is : Number number text) : text ≠ [] := by
  cases is with
  | numeral written => exact written_filled written
  | spaced filled => simp [filled]

/-- A text is read as the number that stands in it up to the first NUL. With nothing
in front of the NUL it is read as zero. -/
theorem read_iff (text : Bytes) (number : UInt32) :
    Numeral.read? text = some number ↔
      (text.head? = some 0 ∧ number = 0) ∨ Number number (untilNul text) := by
  have plain := nul_not_mem_untilNul text
  have cut : text.head? ≠ some 0 → Numeral.read? text = Numeral.read? (untilNul text) := by
    intro opens
    cases text with
    | nil => rfl
    | cons first rest =>
      have nul : first ≠ 0 := by simpa using opens
      have whole : untilNul (first :: rest) = first :: untilNul rest := by simp [untilNul, nul]
      rw [whole] at plain ⊢
      rw [Numeral.read?, Numeral.read?, whole, untilNul_plain plain]
  by_cases opens : text.head? = some 0
  · obtain ⟨rest, rfl⟩ := List.head?_eq_some_iff.mp opens
    have none : ¬ Number number (untilNul (0 :: rest)) := fun is => number_filled is rfl
    simp [Numeral.read?, none, eq_comm]
  · rw [cut opens]
    simp only [opens, false_and, false_or]
    exact read_plain_iff plain number

/-- Without NUL and without white space in front the numerals alone are read. -/
theorem read_solid_iff {text : Bytes} (plain : 0 ∉ text)
    (solid : text.head?.any Numeral.isSpace = false) (number : UInt32) :
    Numeral.read? text = some number ↔ Written number.toNat text := by
  refine ⟨fun read => ?_, fun written => read_of_number plain (.numeral written)⟩
  cases number_of_read plain read with
  | numeral written => exact written
  | spaced filled blank signed =>
    obtain ⟨first, more, rfl⟩ := List.exists_cons_of_ne_nil filled
    have space : Numeral.isSpace first = true := blank first (by simp)
    simp [space] at solid

theorem number_opens {text : Bytes} {number : UInt32} (is : Number number text) :
    ∃ first rest, text = first :: rest ∧
      (Numeral.isSpace first = true ∨ ∃ d, hexValue? first = some d) := by
  cases is with
  | spaced filled blank signed =>
    obtain ⟨first, more, rfl⟩ := List.exists_cons_of_ne_nil filled
    exact ⟨first, _, rfl, .inl (blank first (by simp))⟩
  | numeral written =>
    refine (written_opens written).imp fun first => ?_
    exact .imp fun rest opens => ⟨opens.1, .inr opens.2⟩

/-- A text that is read as a number opens with NUL, white space or a digit. -/
theorem read_opens {text : Bytes} {number : UInt32} (read : Numeral.read? text = some number) :
    ∃ first, text.head? = some first ∧
      (first = 0 ∨ Numeral.isSpace first = true ∨ ∃ d, hexValue? first = some d) := by
  rcases (read_iff text number).mp read with ⟨opens, -⟩ | is
  · exact ⟨0, opens, .inl rfl⟩
  · obtain ⟨first, rest, whole, start⟩ := number_opens is
    have before : text = first :: (rest ++ text.dropWhile (· != 0)) := by
      rw [← List.cons_append, ← whole, untilNul, List.takeWhile_append_dropWhile]
    exact ⟨first, by rw [before]; rfl, .inr start⟩

end NfcPolling.NumeralSyntax
