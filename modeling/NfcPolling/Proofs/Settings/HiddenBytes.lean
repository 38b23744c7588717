import NfcPolling.Proofs.Settings.FirstBinding
import NfcPolling.Proofs.Settings.ValueSyntax

/-! What can be hidden in a text that is accepted. A number does not open with a sign,
but white space in front makes room for one, and whatever stands behind a NUL is not
looked at. A file has its blanks trimmed, so that only a vertical tab or a form feed is
left to hide the sign of a value. Among bytes a NUL can take the place of a digit. -/
namespace NfcPolling.HiddenBytes
open NfcPolling.Settings Bytes LineMeaning FirstBinding Spelling NumeralSyntax ValueSyntax

def HasSign (text : Bytes) : Prop := ∃ b ∈ text, Sign b

/-- White space opens the text, and a sign follows it. -/
def SignBehindSpaces (text : Bytes) : Prop :=
  ∃ spaces sign rest, text = spaces ++ sign :: rest ∧ spaces ≠ [] ∧
    (∀ b ∈ spaces, Numeral.isSpace b = true) ∧ Sign sign

def SignBehindNul (text : Bytes) : Prop := HasSign (text.dropWhile (· != 0))

section Hidden
variable [Dialect]

theorem number_sign {text : Bytes} {number : UInt32} (is : Number number text)
    (signed : HasSign text) : SignBehindSpaces text := by
  obtain ⟨b, member, sign⟩ := signed
  cases is with
  | numeral written => exact absurd sign (written_signless written b member)
  | @spaced spaces body filled blank numeral =>
    rcases List.mem_append.mp member with outside | inside
    · have space := blank b outside
      rw [sign_solid sign] at space
      cases space
    · generalize number.toNat = n at numeral
      cases numeral with
      | bare written => exact absurd sign (written_signless written b inside)
      | plus => exact ⟨spaces, _, _, rfl, filled, blank, .inr rfl⟩
      | minus => exact ⟨spaces, _, _, rfl, filled, blank, .inl rfl⟩

/-- There is no third place for a sign. -/
theorem sign_hidden_iff {text : Bytes} {number : UInt32}
    (read : Numeral.read? text = some number) :
    HasSign text ↔ SignBehindSpaces text ∨ SignBehindNul text := by
  have whole : untilNul text ++ text.dropWhile (· != 0) = text := List.takeWhile_append_dropWhile
  constructor
  · rintro ⟨b, member, sign⟩
    rw [← whole, List.mem_append] at member
    rcases member with before | behind
    · rcases (read_iff text number).mp read with ⟨opens, -⟩ | is
      · obtain ⟨rest, rfl⟩ := List.head?_eq_some_iff.mp opens
        simp [untilNul] at before
      · obtain ⟨spaces, signs, rest, cut, hidden⟩ := number_sign is ⟨b, before, sign⟩
        refine .inl ⟨spaces, signs, rest ++ text.dropWhile (· != 0), ?_, hidden⟩
        rw [← List.cons_append, ← List.append_assoc, ← cut, whole]
    · exact .inr ⟨b, behind, sign⟩
  · rintro (⟨spaces, sign, rest, rfl, -, -, signs⟩ | ⟨b, behind, sign⟩)
    · exact ⟨sign, by simp, signs⟩
    · refine ⟨b, ?_, sign⟩
      rw [← whole, List.mem_append]
      exact .inr behind

/-- Behind white space a sign and its numeral are read as what they are. -/
theorem spaced_iff {spaces digits : Bytes} {sign : UInt8} (filled : spaces ≠ [])
    (blank : ∀ b ∈ spaces, Numeral.isSpace b = true) (signs : Sign sign) (number : UInt32) :
    Number number (spaces ++ sign :: digits) ↔ Signed number.toNat (sign :: digits) := by
  refine ⟨fun is => ?_, .spaced filled blank⟩
  have ending : (spaces ++ sign :: digits).dropWhile Numeral.isSpace = sign :: digits := by
    rw [List.dropWhile_append_of_pos blank, List.dropWhile_cons_of_neg]
    simp [sign_solid signs]
  generalize whole : spaces ++ sign :: digits = text at is ending
  cases is with
  | numeral written =>
    exact absurd signs (written_signless written sign (by simp [← whole]))
  | spaced otherFilled otherBlank numeral =>
    rw [dropWhile_spaces otherBlank numeral] at ending
    exact ending ▸ numeral

omit [Dialect] in
/-- Of white space only the vertical tab and the form feed are neither trimmed nor
the end of a line. -/
theorem untrimmed_space {b : UInt8} (space : Numeral.isSpace b = true)
    (untrimmed : isBlank b = false) (inside : b ≠ 10) : b = 11 ∨ b = 12 := by
  simp only [Numeral.isSpace, isBlank, Bool.or_eq_true, Bool.or_eq_false_iff, Bool.and_eq_true,
    beq_iff_eq, beq_eq_false_iff_ne, decide_eq_true_eq, UInt8.le_iff_toNat_le, ne_eq,
    ← UInt8.toNat_inj, UInt8.reduceToNat] at *
  omega

omit [Dialect] in
theorem value_single {text line before after : Bytes} (member : line ∈ pieces 10 text)
    (divided : DividedAt line before after) : 10 ∉ trim after := by
  obtain ⟨front, back, _, _, padded⟩ := trim_pads after
  have single : 10 ∉ line := piece_apart member
  intro inside
  apply single
  rw [divided.whole, padded]
  simp [inside]

omit [Dialect] in
/-- The value of a line opens with one of two bytes when white space opens it. -/
theorem value_opens {text line before after : Bytes} (member : line ∈ pieces 10 text)
    (divided : DividedAt line before after) (hidden : SignBehindSpaces (trim after)) :
    (trim after).head? = some 11 ∨ (trim after).head? = some 12 := by
  obtain ⟨spaces, sign, rest, whole, filled, blank, -⟩ := hidden
  obtain ⟨first, more, rfl⟩ := List.exists_cons_of_ne_nil filled
  rw [List.cons_append] at whole
  have inside : first ≠ 10 := by
    rintro rfl
    exact value_single member divided (by simp [whole])
  rcases untrimmed_space (blank first (by simp)) (trim_opens whole) inside with rfl | rfl
  · exact .inl (by rw [whole]; rfl)
  · exact .inr (by rw [whole]; rfl)

/-- A text that is accepted as a number holds a sign in two cases only: white space
opens the text and the sign comes next, or the sign stands behind a NUL. Without NUL
the first case does arise, with every numeral that makes a number of 32 bits. When a
text of lines binds a key to a number, the first line that binds it has such a value,
and there the white space opens with a vertical tab or a form feed. -/
theorem signs_stay_hidden (text : Bytes) :
    (∀ number, Accepted text (.unsigned number) →
      (HasSign text ↔ SignBehindSpaces text ∨ SignBehindNul text)) ∧
    (∀ spaces sign digits number, text = spaces ++ sign :: digits → spaces ≠ [] →
      (∀ b ∈ spaces, Numeral.isSpace b = true) → Sign sign → 0 ∉ text →
      (Accepted text (.unsigned number) ↔ Signed number.toNat (sign :: digits))) ∧
    ∀ key number, (Table.empty.read text).value.1.find? key = some (.unsigned number) →
      ∃ earlier line later before after, pieces 10 text = earlier ++ line :: later ∧
        (∀ other ∈ earlier, ∀ shadowed, ¬ Binds other key shadowed) ∧ Significant line ∧
        DividedAt line before after ∧ trim before = key ∧
        Accepted (trim after) (.unsigned number) ∧
        (HasSign (trim after) ↔
          (SignBehindSpaces (trim after) ∧
            ((trim after).head? = some 11 ∨ (trim after).head? = some 12)) ∨
          SignBehindNul (trim after)) := by
  refine ⟨?places, ?spaced, ?lines⟩
  case places =>
    intro number accepted
    rw [accepted_iff, read_unsigned_iff] at accepted
    exact sign_hidden_iff accepted
  case spaced =>
    rintro spaces sign digits number rfl filled blank signs plain
    rw [accepted_iff, read_unsigned_iff, ← spaced_iff filled blank signs]
    exact read_plain_iff plain number
  case lines =>
    intro key number bound
    rw [find_read, first_bound_iff] at bound
    obtain ⟨earlier, line, later, split, binds, first⟩ := bound
    obtain ⟨significant, before, after, divided, named, _, valued⟩ := (binds_trim _ _ _).mp binds
    have member : line ∈ pieces 10 text := by simp [split]
    have numeral := (read_unsigned_iff _ _).mp valued
    refine ⟨earlier, line, later, before, after, split, first, significant, divided, named,
      (accepted_iff _ _).mpr valued, ?_⟩
    rw [sign_hidden_iff numeral]
    exact or_congr_left ⟨fun hidden => ⟨hidden, value_opens member divided hidden⟩, And.left⟩

end Hidden

/-- A plus sign between a form feed and a number changes nothing. -/
theorem form_feed_hides_plus :
    let text := ascii "\x0c+5"
    (∀ b ∈ [12], Numeral.isSpace b = true) ∧ 0 ∉ text ∧ Accepted text (.unsigned 5) ∧
      HasSign text := by
  intro text
  have blank : ∀ b ∈ [12], Numeral.isSpace b = true := List.forall_mem_singleton.mpr rfl
  have plain : 0 ∉ text := by decide
  have five : Written 5 [ofChar '5'] := .decimal (by decide) (.single (by decide))
  obtain ⟨places, spaced, _⟩ := signs_stay_hidden text
  have accepted : Accepted text (.unsigned 5) :=
    (spaced [12] (ofChar '+') [ofChar '5'] 5 rfl (by simp) blank (.inr rfl) plain).mpr
      (.plus five (by decide))
  exact ⟨blank, plain, accepted,
    (places 5 accepted).mpr (.inl ⟨[12], _, _, rfl, by simp, blank, .inr rfl⟩)⟩

/-- Behind a vertical tab a number below zero is taken modulo two to the power of 64,
in a value and in a line alike. -/
theorem negative_number_accepted :
    let text := ascii "\x0b-18446744073709551615"
    HasSign text ∧ Accepted text (.unsigned 1) ∧
      (Table.empty.read (ascii "A=" ++ text)).value = (⟨[(ascii "A", .unsigned 1)]⟩, true) := by
  intro text
  have read : Value.read? text = some (.unsigned 1) := by decide
  refine ⟨⟨ofChar '-', by decide, .inl rfl⟩, (accepted_iff _ _).mpr read, ?_⟩
  decide

/-- A text is accepted as the number that stands in front of its first NUL, and as zero
when nothing does. It is accepted as bytes when groups of two digits, or of one digit
and a NUL, stand between braces with single colons; only such a short group brings a
NUL among the bytes. -/
theorem nul_ends_what_is_read [Dialect] (text : Bytes) :
    (∀ number, Accepted text (.unsigned number) ↔
      (text.head? = some 0 ∧ number = 0) ∨ Accepted (untilNul text) (.unsigned number)) ∧
    ∀ content, Accepted text (.bytes content) ↔ content ≠ [] ∧ ∃ groups,
      List.Forall₂ Group content groups ∧
        text = ofChar '\x7b' :: ([ofChar ':'].intercalate groups ++ [ofChar '\x7d']) ∧
        (0 ∈ text ↔ ∃ high, [high, 0] ∈ groups) := by
  refine ⟨?numbers, ?bytes⟩
  case numbers =>
    intro number
    have cut := read_plain_iff (nul_not_mem_untilNul text) number
    simp only [accepted_iff, read_unsigned_iff, cut, read_iff text number]
  case bytes =>
    intro content
    rw [accepted_iff, read_bytes_iff]
    refine and_congr_right fun _ => exists_congr fun groups => and_congr_right fun grouped => ?_
    refine (and_iff_left_of_imp ?_).symm
    rintro rfl
    rw [← nul_grouped_iff grouped]
    simp [ofChar]

/-- The minus sign behind the NUL is not seen, nor is the missing digit in front of it. -/
theorem text_with_nul_accepted :
    let number := ascii "1\x00-"
    let bytes := ascii "\x7b1\x00\x7d"
    0 ∈ number ∧ Accepted number (.unsigned 1) ∧ 0 ∈ bytes ∧ Accepted bytes (.bytes [1]) := by
  intro number bytes
  have numeral : Value.read? number = some (.unsigned 1) := by decide
  have group : Value.read? bytes = some (.bytes [1]) := by decide
  exact ⟨by decide, (accepted_iff _ _).mpr numeral, by decide, (accepted_iff _ _).mpr group⟩

end NfcPolling.HiddenBytes
