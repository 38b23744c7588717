import NfcPolling.Proofs.Frame.EventTexts
import NfcPolling.Proofs.Frame.KnownParts
import NfcPolling.Proofs.Journal.DecoderLines
import NfcPolling.Proofs.Settings.NumeralSyntax

/-! The last line that decoding a frame writes. It holds the length of the frame and the
whole text of the event: a payload has at most 250 bytes wherever its record stands, so
the line is never cut, and no byte of it ends a text. Hence it tells the result. -/
namespace NfcPolling.TraceLine
open NfcPolling.Frame NfcPolling.Journal
open Bytes Spelling NumeralSyntax ScanView EventMerge RecordStarts KnownParts EventTexts
open Filtering (written_append)
open DecoderLines (decodedLines decoderLine decoder_line lines_of_decoding)

/-- The message about a decoded event. -/
def traceMessage (length : Nat) (e : Event) : Bytes :=
  ascii "decode: len=" ++ decimal length ++ ascii " event=" ++ e.render

/-- The same message when the text of the event is handed over as a text that ends at its
first NUL. -/
def handedMessage (length : Nat) (e : Event) : Bytes :=
  ascii "decode: len=" ++ decimal length ++ ascii " event=" ++ untilNul e.render

/-- No byte of the text lies below the space. -/
def Printable (text : Bytes) : Prop := ∀ b ∈ text, 32 ≤ b.toNat

instance (text : Bytes) : Decidable (Printable text) :=
  List.decidableBAll (fun b : UInt8 => 32 ≤ b.toNat) text

theorem printable_append {front back : Bytes} (first : Printable front) (second : Printable back) :
    Printable (front ++ back) :=
  List.forall_mem_append.mpr ⟨first, second⟩

theorem printable_plain {text : Bytes} (plain : ∀ b ∈ text, 32 < b.toNat) : Printable text :=
  fun b member => Nat.le_of_lt (plain b member)

theorem printable_without {text : Bytes} (printable : Printable text) {low : UInt8}
    (below : low.toNat < 32) : low ∉ text :=
  fun member => Nat.not_le_of_lt below (printable low member)

theorem printable_shown {label : Bytes} {text : α → Bytes} {part : Option α}
    (front : Printable label) (back : ∀ value, part = some value → Printable (text value)) :
    Printable (shown label text part) := by
  cases part with
  | none => exact List.forall_mem_nil _
  | some value => exact printable_append front (back value rfl)

/-- Only the letter of the type could be a byte that does not print. -/
theorem printable_render {e : Event}
    (typed : ∀ letter, e.type = some letter → 32 ≤ letter.toNat) : Printable e.render := by
  have ending : Printable (fromPayload e) :=
    printable_append (printable_shown (by decide) fun value _ =>
      printable_plain (hexPairs_plain value)) (by decide)
  have later : Printable (fromTimestamp e) :=
    printable_append (printable_shown (by decide) fun value _ =>
      printable_plain (hex_plain 8 value.toNat)) ending
  have middle : Printable (fromGain e) :=
    printable_append (printable_shown (by decide) fun value _ =>
      printable_plain (signed_plain value.toInt)) later
  have letter : ∀ value, e.type = some value → Printable (Event.letterText value) := by
    intro value known
    rw [Event.letterText]
    split
    · exact List.forall_mem_nil _
    · exact List.forall_mem_singleton.mpr (typed value known)
  rw [render_parts]
  exact List.forall_mem_cons.mpr ⟨by decide, printable_append (printable_shown (by decide) letter)
    middle⟩

theorem shown_length (label : Bytes) {text : α → Bytes} {room : Nat} (part : Option α)
    (fits : ∀ value, part = some value → (text value).length ≤ room) :
    (shown label text part).length ≤ label.length + room := by
  cases part with
  | none => exact Nat.zero_le _
  | some value =>
    rw [shown, List.length_append]
    exact Nat.add_le_add_left (fits value rfl) _

theorem letter_length (letter : UInt8) : (Event.letterText letter).length ≤ 1 := by
  rw [Event.letterText]
  split
  · exact Nat.zero_le 1
  · exact le_rfl

/-- A signed byte is written with at most three digits and a sign. -/
theorem gain_length (gain : Int8) : (signed gain.toInt).length ≤ 4 := by
  have low := gain.le_toInt
  have high := gain.toInt_lt
  generalize gain.toInt = value at low high
  have digits {n : Nat} (small : n < 1000) : (decimal n).length ≤ 3 :=
    digits_length (by omega) small
  cases value with
  | ofNat n =>
    rw [Int.ofNat_eq_natCast] at high
    exact Nat.le_succ_of_le (digits (by omega))
  | negSucc n => exact Nat.succ_le_succ (digits (by omega))

/-- All but the payload takes at most fifty bytes, and each byte of the payload two. -/
theorem render_length {e : Event} {room : Nat}
    (fits : ∀ data, e.payload = some data → data.length ≤ room) :
    e.render.length ≤ 50 + 2 * room := by
  have type : _ ≤ 6 + 1 := shown_length (ascii " type=") e.type
    fun letter _ => letter_length letter
  have gain : _ ≤ 6 + 4 := shown_length (ascii " gain=") e.gain
    fun value _ => gain_length value
  have timestamp : _ ≤ 13 + 8 := shown_length (ascii " timestamp=0x") e.timestamp
    fun value _ => Nat.le_of_eq (hex_length (show 0 < 8 by omega) value.toNat_lt)
  have data : ∀ data, e.payload = some data → (hexPairs data).length ≤ 2 * room := by
    intro data known
    rw [hexPairs_length]
    exact Nat.mul_le_mul_left 2 (fits data known)
  have payload : _ ≤ 9 + 2 * room := shown_length (ascii " payload=") e.payload data
  have closing : (ascii " \x7d").length = 2 := rfl
  rw [render_parts, fromGain, fromTimestamp, fromPayload]
  simp only [List.length_cons, List.length_append, closing]
  omega

/-- Length and event can be told apart in the message, and each from itself. -/
theorem message_tells {length other : Nat} {e f : Event}
    (same : traceMessage length e = traceMessage other f) : length = other ∧ e = f := by
  have spaced : ascii " event=" = ofChar ' ' :: ascii "event=" := rfl
  simp only [traceMessage, List.append_assoc, List.append_cancel_left_eq, spaced,
    List.cons_append] at same
  obtain ⟨numerals, texts⟩ := cut_at_space (digits_plain (by omega) (decimal_digits length))
    (digits_plain (by omega) (decimal_digits other)) same
  refine ⟨digits_injective (by omega) (by omega) numerals, render_injective ?_⟩
  exact List.append_cancel_left (List.cons.inj texts).2

/-- What a decoded event holds leaves room for the length of any frame. -/
theorem message_fits {length : Nat} {e : Event} (short : length ≤ maxFrameLength)
    (filled : ∀ data, e.payload = some data → data.length ≤ 250) :
    (traceMessage length e).length ≤ maxMessage := by
  have text : e.render.length ≤ 50 + 2 * 250 := render_length filled
  have numeral : (decimal length).length ≤ 5 :=
    digits_length (by omega) (Nat.lt_of_le_of_lt short (by decide))
  have first : (ascii "decode: len=").length = 12 := rfl
  have second : (ascii " event=").length = 7 := rfl
  simp only [traceMessage, List.length_append, maxMessage, first, second]
  omega

theorem message_printable (length : Nat) {e : Event}
    (typed : ∀ letter, e.type = some letter → 32 ≤ letter.toNat) :
    Printable (traceMessage length e) := by
  have numeral : Printable (decimal length) :=
    printable_plain (digits_plain (by omega) (decimal_digits length))
  exact printable_append (printable_append (printable_append (by decide) numeral) (by decide))
    (printable_render typed)

section Decoded
variable {bytes : Bytes} (long : 5 ≤ bytes.length) (short : bytes.length ≤ maxFrameLength)
  (held : Event)
include long

theorem decoded_letter {letter : UInt8}
    (known : ((present bytes short).decode held).event.type = some letter) : letter ∈ letters := by
  have kept := (decode_written long short held).type
  rw [known] at kept
  obtain ⟨k, wrote⟩ := last_write_from kept
  exact letter_listed (written_part_iff.mp wrote).2

/-- A length byte covers at most 250 bytes of data, with the one behind its end. -/
theorem decoded_payload {data : Bytes}
    (known : ((present bytes short).decode held).event.payload = some data) :
    data.length ≤ 250 := by
  have kept := (decode_written long short held).payload
  rw [known] at kept
  obtain ⟨k, wrote⟩ := last_write_from kept
  obtain ⟨_, piece⟩ := payload_written (written_part_iff.mp wrote).2
  have width := (byteAt bytes (start bytes k)).toNat_lt
  rw [piece, List.extract_eq_take_drop, List.length_take]
  omega

/-- The message about a decoded frame keeps to the limit, and each of its bytes prints. -/
theorem decoded_message :
    let message := traceMessage bytes.length ((present bytes short).decode held).event
    message.length ≤ maxMessage ∧ Printable message := by
  have printing : Printable letters := by decide
  exact ⟨message_fits short fun _ known => decoded_payload long short held known,
    message_printable bytes.length fun letter known =>
      printing letter (decoded_letter long short held known)⟩

/-- The message is written whole. -/
theorem trace_line :
    (Entry.decoder (.decoded bytes.length ((present bytes short).decode held).event)).line =
      some (decoderLine 'D'
        (traceMessage bytes.length ((present bytes short).decode held).event)) := by
  obtain ⟨fits, printable⟩ := decoded_message long short held
  exact decoder_line rfl (List.cons_ne_nil _ _) fits (printable_without printable (by decide))

/-- At a level that admits debugging, the remark on the decoded event is the last one. -/
theorem last_line {levels : Levels} (heard : 3 ≤ levels.decoder) :
    (decodedLines levels held (present bytes short)).getLast? =
      some (decoderLine 'D'
        (traceMessage bytes.length ((present bytes short).decode held).event)) := by
  let e := ((present bytes short).decode held).event
  let earlier := ((scanFrom headerLength (bytes.drop headerLength)).notices).map Entry.decoder
  have notices : ((present bytes short).decode held).notices.map Entry.decoder =
      earlier ++ [.decoder (.decoded bytes.length e)] := by
    simp only [e, decode_present long short held, List.map_append, List.map_singleton]
    rfl
  have admitted : levels.written [.decoder (.decoded bytes.length e)] =
      [.decoder (.decoded bytes.length e)] :=
    List.filter_cons_of_pos (decide_eq_true heard)
  rw [lines_of_decoding, notices, written_append, admitted, List.filterMap_append, List.filterMap_cons_some
    (trace_line long short held), List.filterMap_nil, List.getLast?_concat]

end Decoded

/-- Decoding a frame of at least five bytes at a level that admits debugging ends with a
line that holds the length of the frame and the whole text of the event. It is also the
whole of what is written, at any moment, when label and message go through texts that end
at their first NUL. So the last lines of two such decodings, at whatever levels and over
whatever events, are the same exactly when length and event are. -/
theorem last_line_tells_result {levels : Levels} (heard : 3 ≤ levels.decoder) {bytes : Bytes}
    (long : 5 ≤ bytes.length) (short : bytes.length ≤ maxFrameLength) (held : Event) :
    let e := ((present bytes short).decode held).event
    let last := (decodedLines levels held (present bytes short)).getLast?
    last = some (decoderLine 'D'
        (ascii "decode: len=" ++ decimal bytes.length ++ ascii " event=" ++ e.render)) ∧
      (∀ stamp : Stamp,
        stampedLine stamp .debug Source.decoder.label (handedMessage bytes.length e) =
          last.map fun line => stamp.render ++ [9] ++ line ++ [10]) ∧
      ∀ (others : Levels) (other : Bytes) (short' : other.length ≤ maxFrameLength) (held' : Event),
        3 ≤ others.decoder → 5 ≤ other.length →
        (last = (decodedLines others held' (present other short')).getLast? ↔
          bytes.length = other.length ∧ e = ((present other short').decode held').event) := by
  intro e last
  have whole : last = some (decoderLine 'D' (traceMessage bytes.length e)) :=
    last_line long short held heard
  obtain ⟨fits, printable⟩ := decoded_message long short held
  have nul : 0 ∉ traceMessage bytes.length e := printable_without printable (by decide)
  refine ⟨whole, fun stamp => ?stamped, fun others other short' held' heard' long' => ?told⟩
  case stamped =>
    have text : 0 ∉ e.render := fun member => nul (List.mem_append_right _ member)
    have message : handedMessage bytes.length e = traceMessage bytes.length e := by
      rw [handedMessage, untilNul_plain text, traceMessage]
    have label : untilNul Source.decoder.label = Source.decoder.label := by decide
    have line := trace_line long short held
    rw [stampedLine, message, untilNul_plain nul, label, whole]
    exact congrArg (Option.map _) line
  case told =>
    rw [whole, last_line long' short' held' heard', Option.some.injEq]
    constructor
    · intro same
      exact message_tells (List.append_cancel_left (List.cons.inj same).2)
    · rintro ⟨length, event⟩
      rw [length, event]

/-- Other bytes in the header and other flags leave the last line as it is; a byte of data
where there was an empty payload does not. -/
theorem last_line_of_traced_frames :
    let empty : Bytes := [0, 0, 6, 0, 7, 4, 3, 2, 1, 0xC8]
    let flagged : Bytes := [1, 2, 6, 9, 7, 4, 3, 2, 1, 0xC8]
    let filled : Bytes := [0, 0, 7, 0, 7, 4, 3, 2, 1, 0xC8, 0xAA]
    let last (bytes : Bytes) (short : bytes.length ≤ maxFrameLength) :=
      (decodedLines .verbose .empty (present bytes short)).getLast?
    3 ≤ Levels.verbose.decoder ∧ 5 ≤ empty.length ∧ empty.length ≤ maxFrameLength ∧
      last empty (by decide) = some (ascii
        "D/PlfDecoder decode: len=10 event=\x7b type=U gain=-56 timestamp=0x01020304 payload= \x7d") ∧
      last empty (by decide) = last flagged (by decide) ∧
      last empty (by decide) ≠ last filled (by decide) := by
  intro empty flagged filled last
  obtain ⟨line, _, told⟩ := last_line_tells_result (show 3 ≤ Levels.verbose.decoder by decide)
    (show 5 ≤ empty.length by decide) (by decide) .empty
  have same := (told .verbose flagged (by decide) .empty (by decide) (by decide)).mpr (by cbv)
  have other := mt (told .verbose filled (by decide) .empty (by decide) (by decide)).mp
    fun both => absurd both.1 (by decide)
  exact ⟨by decide, by decide, by decide, line.trans (by cbv), same, other⟩

end NfcPolling.TraceLine
