import NfcPolling.Proofs.Frame.StoredFields
import NfcPolling.Proofs.Settings.Spelling

/-! The text of an event tells every part of it. Parts are written one behind the other
without quotes, and a type may be any byte, yet each part can be cut off: what is behind
it starts with a space and a letter that no part before it has. -/
namespace NfcPolling.EventTexts
open Bytes Spelling StoredFields

/-- A part with its label, or nothing when the part is not known. -/
def shown (label : Bytes) (text : α → Bytes) : Option α → Bytes
  | none => []
  | some value => label ++ text value

/-- The text from the payload on, and so forth back to the gain. -/
def fromPayload (e : Event) : Bytes :=
  shown (ascii " payload=") hexPairs e.payload ++ ascii " \x7d"

def fromTimestamp (e : Event) : Bytes :=
  shown (ascii " timestamp=0x") (fun value : UInt32 => hex 8 value.toNat) e.timestamp
    ++ fromPayload e

def fromGain (e : Event) : Bytes :=
  shown (ascii " gain=") (fun value : Int8 => signed value.toInt) e.gain ++ fromTimestamp e

theorem render_parts (e : Event) : e.render =
    ofChar '\x7b' :: (shown (ascii " type=") Event.letterText e.type ++ fromGain e) := by
  obtain ⟨type, gain, timestamp, payload⟩ := e
  cases type <;> cases gain <;> cases timestamp <;> cases payload <;>
    simp [Event.render, fromGain, fromTimestamp, fromPayload, shown, ascii]

/-- How the text behind a type can start: with one of the later parts or the brace. -/
def openings : List Bytes := [ascii " ga", ascii " ti", ascii " pa", ascii " \x7d"]

def Opens (openings : List Bytes) (text : Bytes) : Prop := text.take 3 ∈ openings

/-- The text starts with one space and no other. -/
def Spaced (text : Bytes) : Prop :=
  ∃ second rest, text = ofChar ' ' :: second :: rest ∧ second ≠ ofChar ' '

theorem opens_shown {label : Bytes} {text : α → Bytes} {openings : List Bytes} {rest : Bytes}
    (long : 3 ≤ label.length) (opens : Opens openings rest) (part : Option α) :
    Opens (label.take 3 :: openings) (shown label text part ++ rest) := by
  cases part with
  | none => exact List.mem_cons_of_mem _ opens
  | some value =>
    have same : (label ++ text value ++ rest).take 3 = label.take 3 := by
      rw [List.append_assoc, List.take_append_of_le_length long]
    exact List.mem_cons.mpr (.inl same)

theorem opens_end : Opens (openings.drop 3) (ascii " \x7d") := List.mem_singleton.mpr rfl

theorem opens_payload (e : Event) : Opens (openings.drop 2) (fromPayload e) :=
  opens_shown (by decide) opens_end e.payload

theorem opens_timestamp (e : Event) : Opens (openings.drop 1) (fromTimestamp e) :=
  opens_shown (by decide) (opens_payload e) e.timestamp

theorem opens_gain (e : Event) : Opens openings (fromGain e) :=
  opens_shown (by decide) (opens_timestamp e) e.gain

theorem spaced_of_opens {few : List Bytes} (listed : few ⊆ openings) {text : Bytes}
    (opens : Opens few text) : Spaced text := by
  have all : ∀ opening ∈ openings, opening.head? = some (ofChar ' ') ∧
      ∃ second ∈ opening.tail.head?, second ≠ ofChar ' ' := by decide
  obtain ⟨first, second, behind, other⟩ := all _ (listed opens)
  match text with
  | [] => cases first
  | [b] => cases behind
  | b :: c :: rest =>
    cases first
    cases behind
    exact ⟨_, rest, rfl, other⟩

/-- A part that is known does not look like what stands behind a part that is not. -/
theorem part_unique {label : Bytes} {text : α → Bytes} {openings : List Bytes}
    {left right : Bytes} (long : 3 ≤ label.length) (new : label.take 3 ∉ openings)
    (leftOpens : Opens openings left) (rightOpens : Opens openings right)
    (cut : ∀ value other, text value ++ left = text other ++ right →
      value = other ∧ left = right)
    {part other : Option α}
    (same : shown label text part ++ left = shown label text other ++ right) :
    part = other ∧ left = right := by
  have apart : ∀ {rest : Bytes}, Opens openings rest → ∀ value tail,
      rest ≠ label ++ text value ++ tail := by
    rintro rest opens value tail rfl
    rw [Opens, List.append_assoc, List.take_append_of_le_length long] at opens
    exact new opens
  cases part with
  | none =>
    cases other with
    | none => exact ⟨rfl, same⟩
    | some value => exact absurd same (apart leftOpens value right)
  | some value =>
    cases other with
    | none => exact absurd same.symm (apart rightOpens value left)
    | some second =>
      simp only [shown, List.append_assoc, List.append_cancel_left_eq] at same
      obtain ⟨rfl, rest⟩ := cut value second same
      exact ⟨rfl, rest⟩

/-- A text without spaces ends at the first space. -/
theorem cut_at_space {left right tail tail' : Bytes} (plain : ∀ b ∈ left, 32 < b.toNat)
    (plain' : ∀ b ∈ right, 32 < b.toNat)
    (same : left ++ ofChar ' ' :: tail = right ++ ofChar ' ' :: tail') :
    left = right ∧ ofChar ' ' :: tail = ofChar ' ' :: tail' := by
  have upto {text rest : Bytes} (above : ∀ b ∈ text, 32 < b.toNat) :
      (text ++ ofChar ' ' :: rest).takeWhile (32 < ·.toNat) = text := by
    rw [List.takeWhile_append_of_pos (by simpa using above)]
    simp [ofChar]
  have text : left = right := by rw [← upto plain, same, upto plain']
  subst text
  exact ⟨rfl, List.append_cancel_left same⟩

/-- The NUL type writes nothing; what follows it starts with one space only, so it is
not taken for the type that is a space. -/
theorem letter_cut {left right : Bytes}
    (spaced : Spaced left) (spaced' : Spaced right) (letter other : UInt8)
    (same : Event.letterText letter ++ left = Event.letterText other ++ right) :
    letter = other ∧ left = right := by
  obtain ⟨second, rest, rfl, single⟩ := spaced
  obtain ⟨second', rest', rfl, single'⟩ := spaced'
  unfold Event.letterText at same
  by_cases nul : letter = 0 <;> by_cases nul' : other = 0
  · simp only [nul, nul', ↓reduceIte, List.nil_append] at same
    exact ⟨nul.trans nul'.symm, same⟩
  · simp only [nul, nul', ↓reduceIte, List.nil_append, List.singleton_append,
      List.cons.injEq] at same
    exact absurd same.2.1 single
  · simp only [nul, nul', ↓reduceIte, List.nil_append, List.singleton_append,
      List.cons.injEq] at same
    exact absurd same.2.1.symm single'
  · simpa only [nul, nul', ↓reduceIte, List.singleton_append, List.cons.injEq] using same

theorem digits_injective {base n m : Nat} (proper : 1 < base) (small : base ≤ 16)
    (same : digits base n = digits base m) : n = m :=
  digits_unique small (digits_written proper n) (same ▸ digits_written proper m)

theorem decimal_unsigned (n : Nat) (tail : Bytes) : decimal n ≠ ofChar '-' :: tail := by
  intro same
  obtain ⟨d, digit⟩ := digits_shown (by omega) (decimal_digits n) (ofChar '-') (by simp [same])
  cases digit

theorem signed_injective {i j : Int} (same : signed i = signed j) : i = j := by
  match i, j with
  | .ofNat n, .ofNat m => exact congrArg Int.ofNat (digits_injective (by omega) (by omega) same)
  | .ofNat n, .negSucc m => exact absurd same (decimal_unsigned n _)
  | .negSucc n, .ofNat m => exact absurd same.symm (decimal_unsigned m _)
  | .negSucc n, .negSucc m =>
    have digits := digits_injective (by omega) (by omega) (List.cons.inj same).2
    exact congrArg Int.negSucc (Nat.succ.inj digits)

theorem signed_plain (i : Int) : ∀ b ∈ signed i, 32 < b.toNat := by
  have plain (n : Nat) := digits_plain (by omega) (decimal_digits n)
  match i with
  | .ofNat n => exact plain n
  | .negSucc n => exact List.forall_mem_cons.mpr ⟨by decide, plain (n + 1)⟩

theorem hex_injective {width n m : Nat} (same : hex width n = hex width m) : n = m := by
  have written (k : Nat) : Digits 16 k (hex width k) :=
    digits_padded (by omega) width (digits_written (by omega) k)
  exact digits_unique le_rfl (written n) (same ▸ written m)

theorem hex_two {n : Nat} (small : n < 256) :
    hex 2 n = [ofChar (n / 16).digitChar, ofChar (n % 16).digitChar] := by
  by_cases single : n < 16
  · have none : n / 16 = 0 := Nat.div_eq_of_lt single
    simp [hex, digits, Nat.toDigits_of_lt_base single, none, Nat.mod_eq_of_lt single, padded,
      Nat.digitChar]
  · have front : n / 16 < 16 := by omega
    simp [hex, digits, Nat.toDigits_of_base_le (by omega : 1 < 16) (Nat.le_of_not_lt single),
      Nat.toDigits_of_lt_base front, padded]

/-- A byte of a payload is written with two digits. -/
theorem pair_shown (byte : UInt8) : Pair byte ((hex 2 byte.toNat).map toUpper) := by
  have upper : ∀ d : Fin 16, toUpper (ofChar d.val.digitChar) = ofChar d.val.digitChar.toUpper := by
    decide
  have width := byte.toNat_lt
  have high : byte.toNat / 16 < 16 := by omega
  have low : byte.toNat % 16 < 16 := by omega
  refine ⟨_, _, by rw [hex_two width]; rfl, ⟨high, .inr ?_⟩, ⟨low, .inr ?_⟩⟩
  · exact upper ⟨_, high⟩
  · exact upper ⟨_, low⟩

theorem hexPairs_cons (byte : UInt8) (rest : Bytes) :
    hexPairs (byte :: rest) = (hex 2 byte.toNat).map toUpper ++ hexPairs rest :=
  List.flatMap_cons

theorem pair_length (byte : UInt8) : ((hex 2 byte.toNat).map toUpper).length = 2 := by
  obtain ⟨high, low, written, _⟩ := pair_shown byte
  rw [written]
  rfl

theorem hexPairs_length (bytes : Bytes) : (hexPairs bytes).length = 2 * bytes.length := by
  induction bytes with
  | nil => rfl
  | cons byte rest ih =>
    rw [hexPairs_cons, List.length_append, pair_length, ih, List.length_cons]
    omega

theorem hexPairs_injective {left right : Bytes} (same : hexPairs left = hexPairs right) :
    left = right := by
  have lengths : left.length = right.length := by
    have both := congrArg List.length same
    rw [hexPairs_length, hexPairs_length] at both
    omega
  induction left generalizing right with
  | nil => exact (List.length_eq_zero_iff.mp lengths.symm).symm
  | cons byte rest ih =>
    cases right with
    | nil => cases lengths
    | cons other more =>
      rw [hexPairs_cons, hexPairs_cons] at same
      obtain ⟨pair, later⟩ :=
        List.append_inj same ((pair_length byte).trans (pair_length other).symm)
      have read := pair_read (pair_shown byte)
      rw [pair, pair_read (pair_shown other)] at read
      obtain rfl := Option.some.inj read
      rw [ih later (Nat.succ.inj lengths)]

theorem hexPairs_plain (bytes : Bytes) : ∀ b ∈ hexPairs bytes, 32 < b.toNat := by
  intro b member
  obtain ⟨byte, _, inside⟩ := List.mem_flatMap.mp member
  obtain ⟨high, low, written, highValue, lowValue⟩ := pair_values (pair_shown byte)
  rw [written] at inside
  rcases List.mem_pair.mp inside with rfl | rfl
  · exact digit_above highValue
  · exact digit_above lowValue

/-- Texts without spaces that tell their values are cut off by the space behind them. -/
theorem plain_cut {text : α → Bytes} (plain : ∀ value, ∀ b ∈ text value, 32 < b.toNat)
    (tells : ∀ value other, text value = text other → value = other) {left right : Bytes}
    (spaced : Spaced left) (spaced' : Spaced right) (value other : α)
    (same : text value ++ left = text other ++ right) :
    value = other ∧ left = right := by
  obtain ⟨second, rest, rfl, _⟩ := spaced
  obtain ⟨second', rest', rfl, _⟩ := spaced'
  obtain ⟨texts, tails⟩ := cut_at_space (plain value) (plain other) same
  exact ⟨tells value other texts, tails⟩

theorem same_parts {left right : Event} (type : left.type = right.type)
    (gain : left.gain = right.gain) (timestamp : left.timestamp = right.timestamp)
    (payload : left.payload = right.payload) : left = right := by
  cases left
  cases right
  simp only at type gain timestamp payload
  rw [type, gain, timestamp, payload]

/-- Events with the same text are the same. -/
theorem render_injective {left right : Event} (same : left.render = right.render) :
    left = right := by
  rw [render_parts, render_parts] at same
  have gainSpaced (e : Event) := spaced_of_opens (List.Subset.refl _) (opens_gain e)
  have timestampSpaced (e : Event) := spaced_of_opens (List.drop_subset 1 _) (opens_timestamp e)
  have payloadSpaced (e : Event) := spaced_of_opens (List.drop_subset 2 _) (opens_payload e)
  have endSpaced := spaced_of_opens (List.drop_subset 3 _) opens_end
  obtain ⟨type, gains⟩ := part_unique (by decide) (by decide) (opens_gain left) (opens_gain right)
    (letter_cut (gainSpaced left) (gainSpaced right)) (List.cons.inj same).2
  obtain ⟨gain, timestamps⟩ := part_unique (by decide) (by decide) (opens_timestamp left)
    (opens_timestamp right)
    (plain_cut (fun value : Int8 => signed_plain value.toInt)
      (fun _ _ texts => Int8.toInt_inj.mp (signed_injective texts))
      (timestampSpaced left) (timestampSpaced right)) gains
  obtain ⟨timestamp, payloads⟩ := part_unique (by decide) (by decide) (opens_payload left)
    (opens_payload right)
    (plain_cut (fun value : UInt32 => hex_plain 8 value.toNat)
      (fun _ _ texts => UInt32.toNat_inj.mp (hex_injective texts))
      (payloadSpaced left) (payloadSpaced right)) timestamps
  obtain ⟨payload, _⟩ := part_unique (by decide) (by decide) opens_end opens_end
    (plain_cut hexPairs_plain (fun _ _ => hexPairs_injective) endSpaced endSpaced) payloads
  exact same_parts type gain timestamp payload

/-- The same parts are set, and those that are set hold the same values. What is stored
for a part that is not set does not count. -/
structure Agree (left right : Fields) : Prop where
  hasType : left.hasType = right.hasType
  type : left.hasType → left.type = right.type
  hasGain : left.hasGain = right.hasGain
  gain : left.hasGain → left.gain = right.gain
  hasTimestamp : left.hasTimestamp = right.hasTimestamp
  timestamp : left.hasTimestamp → left.timestamp = right.timestamp
  hasPayload : left.hasPayload = right.hasPayload
  payload : left.hasPayload → left.payload = right.payload

theorem part_agrees {part other : Option α} {default : α}
    (known : part.isSome = other.isSome)
    (value : part.isSome → part.getD default = other.getD default) : part = other := by
  cases part with
  | none => exact (Option.isNone_iff_eq_none.mp (by simpa using known.symm)).symm
  | some first =>
    obtain ⟨second, rfl⟩ := Option.isSome_iff_exists.mp known.symm
    exact congrArg some (value rfl)

theorem agree_iff (left right : Event) : Agree (ofEvent left) (ofEvent right) ↔ left = right := by
  constructor
  · intro agree
    exact same_parts (part_agrees agree.hasType agree.type) (part_agrees agree.hasGain agree.gain)
      (part_agrees agree.hasTimestamp agree.timestamp) (part_agrees agree.hasPayload agree.payload)
  · rintro rfl
    exact ⟨rfl, fun _ => rfl, rfl, fun _ => rfl, rfl, fun _ => rfl, rfl, fun _ => rfl⟩

/-- Two events, set up by any changes of new ones, have the same text exactly when the
same parts are set in both and hold the same values there: a NUL type and no type, an
empty payload and none, and a type that is a space are all told apart. -/
theorem text_tells_event (first second : List Event.Change) :
    (Event.empty.applyAll first).render = (Event.empty.applyAll second).render ↔
      Agree (Fields.setAll {} first) (Fields.setAll {} second) := by
  have stored (changes : List Event.Change) :
      Fields.setAll {} changes = ofEvent (Event.empty.applyAll changes) :=
    (ofEvent_applyAll .empty changes).symm
  rw [stored, stored, agree_iff]
  exact ⟨render_injective, congrArg Event.render⟩

/-- A type that is a space looks like the separator in front of the next part. -/
example : Event.render ⟨some 32, none, some 10, some []⟩ =
    ascii "\x7b type=  timestamp=0x0000000a payload= \x7d" := by decide

end NfcPolling.EventTexts
