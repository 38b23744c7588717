import NfcPolling.Proofs.Frame.RecordStarts
import NfcPolling.Proofs.Journal.WrittenLines
import NfcPolling.Proofs.Settings.Spelling

/-! What decoding a frame writes, line by line. The warnings come from accepted records,
in order; the one error there can be comes from the record that ends the reading, after
all warnings. Where the records lie is said by positions alone. -/
namespace NfcPolling.DecoderLines
open NfcPolling.Frame NfcPolling.Journal Transcript
open ScanView RecordStarts WrittenLines Bytes Spelling

/-- The lines that show a rank: those of errors the first, those of warnings the second. -/
def ranked (rank : Nat) (lines : List Bytes) : List Bytes :=
  lines.filter fun line => rankShown line = rank

/-- A line of the decoder, told by its first letter and its message. -/
def decoderLine (letter : Char) (message : Bytes) : Bytes :=
  ofChar letter :: (ascii "/PlfDecoder " ++ message)

def tooLongLine : Bytes :=
  decoderLine 'E' (ascii "decodeRecord: Polling frame data is longer than buffer data length")

def tagMissingLine (c : Nat) : Bytes :=
  decoderLine 'E' (ascii "decodeRecord: Polling frame TLV type missing at " ++ decimal c)

def faultLine : Fault → Bytes
  | .tooLong => tooLongLine
  | .tagMissing c => tagMissingLine c

/-- The record at `c` has a tag without a meaning, or is a field change that does not
reach its state byte. -/
def Remarkable (bytes : Bytes) (c : Nat) : Prop :=
  byteAt bytes (c + 2) ∉ ([0, 1, 2, 3, 7] : Bytes) ∨
    byteAt bytes (c + 2) = 0 ∧ bytes.length < c + 9

instance (bytes : Bytes) (c : Nat) : Decidable (Remarkable bytes c) :=
  inferInstanceAs (Decidable (_ ∨ _))

def stateMissingLine : Bytes :=
  decoderLine 'W' (ascii "decodeType: field change TLV without field state")

def unknownTagLine (tag : UInt8) : Bytes :=
  decoderLine 'W' (ascii "decodeType: Unknown polling loop tag type 0x" ++ hex 2 tag.toNat)

/-- The line for a record that is remarkable. -/
def warningLine (bytes : Bytes) (c : Nat) : Bytes :=
  if byteAt bytes (c + 2) = 0 then stateMissingLine else unknownTagLine (byteAt bytes (c + 2))

/-- Every record that starts in the frame is accepted, and the last one ends with the
frame or one byte behind it. -/
def UsedUp (bytes : Bytes) : Prop :=
  ∃ last, (∀ k, start bytes k < bytes.length → k ≤ last) ∧ Accepted bytes last ∧
    let ending := start bytes last + (byteAt bytes (start bytes last)).toNat + 2
    ending = bytes.length ∨ ending = bytes.length + 1

/-- What the lines of a frame tell when its first `n` records are the accepted ones. An
error is told of the record behind them, a warning of each remarkable one among them. -/
structure Diagnosed (bytes : Bytes) (n : Nat) (lines : List Bytes) : Prop where
  accepted : ∀ k, Accepted bytes k ↔ k < n
  single : (ranked 1 lines).length ≤ 1
  last : ∀ before line after, lines = before ++ line :: after → rankShown line = 1 →
    ranked 2 after = []
  silent : ranked 1 lines = [] ↔ UsedUp bytes
  rejected : ∀ line ∈ ranked 1 lines,
    let c := start bytes n
    c < bytes.length ∧
      (line = tooLongLine ↔ bytes.length < c + (byteAt bytes c).toNat + 1) ∧
      (line ≠ tooLongLine → line = tagMissingLine c ∧ (byteAt bytes c).toNat < 2)
  remarked : ranked 2 lines =
    (((List.range n).map (start bytes)).filter (Remarkable bytes)).map (warningLine bytes)

/-- The lines that decoding one frame writes. -/
def decodedLines (levels : Levels) (held : Event) (frame : Frame) : List Bytes :=
  (decodings levels held [frame]).flatMap linesOf

theorem lines_of_decoding (levels : Levels) (held : Event) (frame : Frame) :
    decodedLines levels held frame =
      (levels.written ((frame.decode held).notices.map Entry.decoder)).filterMap Entry.line := by
  rw [decodedLines, Transcripts.decodings_filtered]
  exact List.append_nil _

/-- A message that fits and holds no newline is written as it is. -/
theorem line_whole (severity : Severity) (label : Bytes) {message : Bytes} (filled : message ≠ [])
    (fits : message.length ≤ maxMessage) (unbroken : 10 ∉ message) :
    line severity label message = some (severity.letter :: ofChar '/' :: (label ++ message)) := by
  have ending : message.getLast? ≠ some 10 := fun last => unbroken (List.mem_of_getLast? last)
  simp only [line, messageBody, filled, List.take_of_length_le fits, ending, ↓reduceIte]
  rfl

theorem decoder_line {notice : Notice} {letter : Char}
    (told : notice.severity.letter = ofChar letter) (filled : notice.text ≠ [])
    (fits : notice.text.length ≤ maxMessage) (unbroken : 10 ∉ notice.text) :
    (Entry.decoder notice).line = some (decoderLine letter notice.text) := by
  have whole := line_whole notice.severity Source.decoder.label filled fits unbroken
  rw [told] at whole
  exact whole

/-- A message that ends in a number is written whole as well. -/
theorem decoder_line_numbered {notice : Notice} {letter : Char} {message numeral : Bytes}
    (text : notice.text = message ++ numeral) (told : notice.severity.letter = ofChar letter)
    (filled : message ≠ []) (fits : message.length + numeral.length ≤ maxMessage)
    (unbroken : 10 ∉ message) (plain : ∀ b ∈ numeral, 32 < b.toNat) :
    (Entry.decoder notice).line = some (decoderLine letter (message ++ numeral)) := by
  rw [← text]
  refine decoder_line told ?_ ?_ ?_
  · simp [text, filled]
  · rwa [text, List.length_append]
  · rw [text, List.mem_append, not_or]
    exact ⟨unbroken, fun inside => (spaceless (plain 10 inside)).2.1 rfl⟩

theorem too_long_line : (Entry.decoder .recordTooLong).line = some tooLongLine :=
  decoder_line rfl (by decide) (by decide) (by decide)

theorem tag_missing_line {c : Nat} (small : c < 10 ^ 5) :
    (Entry.decoder (.tagMissing c)).line = some (tagMissingLine c) := by
  have size : (decimal c).length ≤ 5 := digits_length (by omega) small
  refine decoder_line_numbered rfl rfl (by decide) ?_ (by decide)
    (digits_plain (by omega) (decimal_digits c))
  exact Nat.le_trans (Nat.add_le_add_left size _) (by decide)

theorem state_missing_line : (Entry.decoder .fieldStateMissing).line = some stateMissingLine :=
  decoder_line rfl (by decide) (by decide) (by decide)

theorem unknown_tag_line (tag : UInt8) :
    (Entry.decoder (.unknownTag tag)).line = some (unknownTagLine tag) := by
  have size := hex_length (show 0 < 2 by omega) tag.toNat_lt
  refine decoder_line_numbered rfl rfl (by decide) ?_ (by decide) (hex_plain 2 tag.toNat)
  rw [size]
  decide

theorem fault_line {bytes : Bytes} (short : bytes.length ≤ maxFrameLength) {c : Nat} {fault : Fault}
    (named : faultAt bytes c = some fault) :
    (Entry.decoder fault.notice).line = some (faultLine fault) := by
  rw [faultAt] at named
  split at named
  · cases named
  · split at named
    · cases named
      exact too_long_line
    · cases named
      refine tag_missing_line ?_
      rw [maxFrameLength] at short
      omega

/-- The line of a notice, unless it is a debug remark. -/
def graveLine (notice : Notice) : Option Bytes :=
  if notice.severity = .debug then none else (Entry.decoder notice).line

/-- The lines that are not told for debugging alone. -/
def grave (lines : List Bytes) : List Bytes := lines.filter fun line => rankShown line ≤ 2

/-- Levels that admit warnings admit all grave lines. -/
theorem grave_written {levels : Levels} (heard : 2 ≤ levels.decoder) (notices : List Notice) :
    grave ((levels.written (notices.map Entry.decoder)).filterMap Entry.line) =
      notices.filterMap graveLine := by
  rw [lines_written, grave, List.filter_filter, List.filter_filterMap, List.filterMap_map]
  refine List.filterMap_congr fun notice _ => ?_
  rw [Function.comp_apply, graveLine]
  cases shown : (Entry.decoder notice).line with
  | none => simp
  | some line =>
    have rank : rankShown line = notice.severity.rank.toNat := line_rank shown
    have passed : passes levels line = decide (notice.severity.rank ≤ levels.decoder) :=
      line_passes shown levels
    rw [Option.filter_some, rank, passed]
    cases notice.severity with
    | error =>
      have raised : Severity.error.rank ≤ levels.decoder := UInt8.le_trans (by decide) heard
      rw [decide_eq_true raised]
      rfl
    | warning =>
      have raised : Severity.warning.rank ≤ levels.decoder := heard
      rw [decide_eq_true raised]
      rfl
    | debug => rfl

theorem listed_quiet {tag : UInt8} (listed : tag ∈ ([1, 2, 3, 7] : Bytes)) (length : UInt8)
    (bytes : Bytes) : (observe tag length bytes).notice.bind graveLine = none := by
  simp only [List.mem_cons, List.not_mem_nil, or_false] at listed
  rcases listed with rfl | rfl | rfl | rfl
  · rfl
  · rfl
  · rfl
  · -- Missing data of an unknown technology is only remarked for debugging.
    show (Observation.unknown (if dataOf length bytes = [] then none else _)).notice.bind _ = none
    split <;> rfl

theorem unlisted_line {tag : UInt8} (field : tag ≠ 0) (unlisted : tag ∉ ([1, 2, 3, 7] : Bytes))
    (length : UInt8) (bytes : Bytes) :
    (observe tag length bytes).notice.bind graveLine = some (unknownTagLine tag) := by
  simp only [List.mem_cons, List.not_mem_nil, or_false, not_or] at unlisted
  obtain ⟨typeA, typeB, typeF, unknown⟩ := unlisted
  rw [observe, if_neg field, if_neg typeA, if_neg typeB, if_neg typeF, if_neg unknown]
  exact unknown_tag_line tag

theorem field_line (length : UInt8) (bytes : Bytes) :
    (observe 0 length bytes).notice.bind graveLine =
      if bytes[dataOffset]? = none then some stateMissingLine else none := by
  show (Observation.field bytes[dataOffset]?).notice.bind graveLine = _
  cases bytes[dataOffset]? with
  | none => exact state_missing_line
  | some state => rfl

/-- A readable record leaves a grave line exactly when it is remarkable. -/
theorem record_line (bytes : Bytes) (c : Nat) :
    (recordAt bytes c).observation.notice.bind graveLine =
      if Remarkable bytes c then some (warningLine bytes c) else none := by
  show (observe (byteAt bytes (c + 2)) (byteAt bytes c) (bytes.drop c)).notice.bind graveLine = _
  by_cases field : byteAt bytes (c + 2) = 0
  · have state : (bytes.drop c)[dataOffset]? = none ↔ bytes.length < c + 9 := by
      rw [List.getElem?_drop, List.getElem?_eq_none_iff, dataOffset]
      omega
    have remarkable : Remarkable bytes c ↔ bytes.length < c + 9 := by simp [Remarkable, field]
    simp only [field, field_line, state, remarkable, warningLine, ↓reduceIte]
  · by_cases listed : byteAt bytes (c + 2) ∈ ([1, 2, 3, 7] : Bytes)
    · rw [listed_quiet listed, if_neg]
      exact not_or.mpr ⟨not_not.mpr (List.mem_cons_of_mem 0 listed), fun state => field state.1⟩
    · have unlisted : Remarkable bytes c := .inl (List.not_mem_cons_of_ne_of_not_mem field listed)
      rw [unlisted_line field listed, if_pos unlisted, warningLine, if_neg field]

/-- The grave lines of a frame: a warning for each remarkable record that is accepted,
then the error of the record that ends the reading. -/
theorem grave_lines {levels : Levels} (heard : 2 ≤ levels.decoder) {bytes : Bytes}
    (long : 5 ≤ bytes.length) (short : bytes.length ≤ maxFrameLength) (held : Event) {n : Nat}
    (stops : StopsAt bytes n) :
    grave (decodedLines levels held (present bytes short)) =
      (((List.range n).map (start bytes)).filter (Remarkable bytes)).map (warningLine bytes) ++
        ((faultAt bytes (start bytes n)).map faultLine).toList := by
  have notices := congrArg Decoding.notices (decode_present long short held)
  rw [scan_until stops] at notices
  have remarks : (((List.range n).map fun k => recordAt bytes (start bytes k)).filterMap
      fun r => r.observation.notice).filterMap graveLine =
        (((List.range n).map (start bytes)).filter (Remarkable bytes)).map (warningLine bytes) := by
    rw [List.filterMap_filterMap, List.filterMap_map, ← List.filterMap_eq_map,
      List.filterMap_filter, List.filterMap_map]
    refine List.filterMap_congr fun k _ => ?_
    simp only [Function.comp_apply, record_line, decide_eq_true_eq]
  have ended : ((faultAt bytes (start bytes n)).map Fault.notice).toList.filterMap graveLine =
      ((faultAt bytes (start bytes n)).map faultLine).toList := by
    cases named : faultAt bytes (start bytes n) with
    | none => rfl
    | some fault =>
      have shown : graveLine fault.notice = some (faultLine fault) := by
        rw [← fault_line short named]
        cases fault <;> rfl
      simp [shown]
  rw [lines_of_decoding, grave_written heard, notices, List.filterMap_append, Scan.notices,
    List.filterMap_append, remarks, ended]
  exact List.append_nil _

theorem ranked_grave {rank : Nat} (high : rank ≤ 2) (lines : List Bytes) :
    ranked rank (grave lines) = ranked rank lines := by
  rw [ranked, ranked, grave, List.filter_filter]
  refine List.filter_congr fun line _ => ?_
  by_cases same : rankShown line = rank
  · simp [same, high]
  · simp [same]

theorem ranked_same {rank : Nat} {lines : List Bytes} (all : ∀ line ∈ lines, rankShown line = rank) :
    ranked rank lines = lines :=
  List.filter_eq_self.mpr fun line member => decide_eq_true (all line member)

theorem ranked_other {rank other : Nat} (apart : rank ≠ other) {lines : List Bytes}
    (all : ∀ line ∈ lines, rankShown line = rank) : ranked other lines = [] := by
  refine List.filter_eq_nil_iff.mpr fun line member => ?_
  rw [all line member, decide_eq_true_eq]
  exact apart

/-- Behind an element that only an optional last one can be there is nothing. -/
theorem nothing_behind {front back others : List α} {x : α} {last : Option α}
    (same : front ++ x :: back = others ++ last.toList) (new : x ∉ others) : back = [] := by
  rcases List.eq_nil_or_concat back with empty | ⟨inner, final, rfl⟩
  · exact empty
  · refine absurd ?_ new
    cases last with
    | none =>
      rw [Option.toList_none, List.append_nil] at same
      simp [← same]
    | some y =>
      have whole : (front ++ x :: inner) ++ [final] = others ++ [y] := by simpa using same
      simp [← List.append_inj_left' whole rfl]

section Sorted
variable {lines warned : List Bytes} {last : Option Bytes}
  (sorted : grave lines = warned ++ last.toList) (low : ∀ line ∈ warned, rankShown line = 2)
include sorted low

/-- Behind the line of an error no grave line follows. -/
theorem nothing_grave_behind {before after : List Bytes} {line : Bytes}
    (same : lines = before ++ line :: after) (error : rankShown line = 1) : grave after = [] := by
  have kept : grave (line :: after) = line :: grave after :=
    List.filter_cons_of_pos (by simp [error])
  have split : grave before ++ line :: grave after = warned ++ last.toList := by
    rw [← kept, ← sorted, same]
    exact (List.filter_append _ _).symm
  exact nothing_behind split fun member => absurd ((low line member).symm.trans error) (by decide)

variable (high : ∀ line ∈ last.toList, rankShown line = 1)
include high

theorem errors_sorted : ranked 1 lines = last.toList := by
  rw [← ranked_grave (by decide), sorted, ranked, List.filter_append]
  exact congrArg₂ (· ++ ·) (ranked_other (by decide) low) (ranked_same high)

theorem warnings_sorted : ranked 2 lines = warned := by
  rw [← ranked_grave le_rfl, sorted, ranked, List.filter_append]
  exact (congrArg₂ (· ++ ·) (ranked_same low) (ranked_other (by decide) high)).trans
    (List.append_nil _)

end Sorted

theorem warning_shown (bytes : Bytes) (c : Nat) : rankShown (warningLine bytes c) = 2 := by
  rw [warningLine]
  split <;> rfl

theorem error_shown (fault : Fault) : rankShown (faultLine fault) = 1 := by
  cases fault <;> rfl

theorem lines_apart (c : Nat) : tooLongLine ≠ tagMissingLine c := by
  have long : tooLongLine[41]? = some (ofChar 'd') := rfl
  have missing : (tagMissingLine c)[41]? = some (ofChar 'T') := rfl
  intro same
  rw [same, missing] at long
  exact absurd long (by decide)

theorem used_up_iff {bytes : Bytes} (long : 5 ≤ bytes.length) {n : Nat} (stops : StopsAt bytes n) :
    UsedUp bytes ↔ bytes.length ≤ start bytes n := by
  constructor
  · rintro ⟨last, -, accepted, ending⟩
    have behind := (start_strictMono bytes).monotone ((accepted_iff_before stops last).mp accepted)
    rw [start] at behind
    omega
  · intro beyond
    cases n with
    | zero =>
      have first : start bytes 0 = 2 := rfl
      omega
    | succ last =>
      have reaches := (stops.1 last (Nat.lt_succ_self last)).2.1
      have accepted := (accepted_iff_before stops last).mpr (Nat.lt_succ_self last)
      refine ⟨last, fun k inside => ?_, accepted, ?_⟩
      · have before := (start_strictMono bytes).lt_iff_lt.mp (Nat.lt_of_lt_of_le inside beyond)
        exact Nat.le_of_lt_succ before
      · rw [start] at beyond
        omega

/-- The lines for any frame of at least five bytes are exact at all levels that admit
warnings: at most one error, told of the record that ends the reading and followed by no
warning, and one warning for each remarkable record among the accepted ones, which are
those that are read. -/
theorem diagnostics_exact {levels : Levels} (heard : 2 ≤ levels.decoder) {bytes : Bytes}
    (long : 5 ≤ bytes.length) (short : bytes.length ≤ maxFrameLength) (held : Event) :
    ∃ n, (present bytes short).records.records.map Record.position =
        (List.range n).map (start bytes) ∧
      Diagnosed bytes n (decodedLines levels held (present bytes short)) := by
  obtain ⟨n, stops⟩ := stops_somewhere bytes
  have read : (present bytes short).records.records.map Record.position =
      (List.range n).map (start bytes) := by
    rw [records_present, scan_until stops, List.map_map]
    rfl
  have sorted := grave_lines heard long short held stops
  have low : ∀ line ∈ (((List.range n).map (start bytes)).filter (Remarkable bytes)).map
      (warningLine bytes), rankShown line = 2 := by
    intro line member
    obtain ⟨c, -, rfl⟩ := List.mem_map.mp member
    exact warning_shown bytes c
  have high : ∀ line ∈ ((faultAt bytes (start bytes n)).map faultLine).toList,
      rankShown line = 1 := by
    intro line member
    obtain ⟨fault, -, rfl⟩ := Option.map_eq_some_iff.mp (Option.mem_toList.mp member)
    exact error_shown fault
  have errors := errors_sorted sorted low high
  refine ⟨n, read, accepted_iff_before stops, ?single, ?last, ?silent, ?rejected,
    warnings_sorted sorted low high⟩
  case single =>
    rw [errors]
    exact Option.length_toList_le
  case last =>
    intro before line after same error
    rw [← ranked_grave le_rfl, nothing_grave_behind sorted low same error]
    rfl
  case silent =>
    rw [errors, Option.toList_eq_nil_iff, Option.map_eq_none_iff, no_fault_iff]
    exact (used_up_iff long stops).symm
  case rejected =>
    intro line member c
    rw [errors, Option.mem_toList] at member
    obtain ⟨fault, named, rfl⟩ := Option.map_eq_some_iff.mp member
    obtain ⟨inside, ⟨rfl, beyond⟩ | ⟨rfl, within, tagless⟩⟩ := fault_told stops.2 named
    · exact ⟨inside, iff_of_true rfl beyond, fun other => absurd rfl other⟩
    · exact ⟨inside, iff_of_false (lines_apart c).symm (Nat.not_lt_of_le within),
        fun _ => ⟨rfl, tagless⟩⟩

/-- A record with an unknown tag, then one without a tag. -/
def cutFrame : Bytes := [0, 0, 1, 0, 9, 1, 0]

theorem cut_frame_diagnosed :
    2 ≤ Levels.initial.decoder ∧ 5 ≤ cutFrame.length ∧ cutFrame.length ≤ maxFrameLength ∧
    decodedLines .initial .empty (present cutFrame (by decide)) =
      [ascii "W/PlfDecoder decodeType: Unknown polling loop tag type 0x09",
        ascii "E/PlfDecoder decodeRecord: Polling frame TLV type missing at 5"] ∧
    (present cutFrame (by decide)).records.records.map Record.position = [2] ∧
    Diagnosed cutFrame 1 (decodedLines .initial .empty (present cutFrame (by decide))) := by
  have lines : decodedLines .initial .empty (present cutFrame (by decide)) =
      [ascii "W/PlfDecoder decodeType: Unknown polling loop tag type 0x09",
        ascii "E/PlfDecoder decodeRecord: Polling frame TLV type missing at 5"] := by
    rw [lines_of_decoding]
    cbv
  have heard : 2 ≤ Levels.initial.decoder := by decide
  obtain ⟨n, read, told⟩ :=
    diagnostics_exact heard (show 5 ≤ cutFrame.length by decide) (by decide) .empty
  have first := (told.accepted 0).mp (by decide)
  have second := mt (told.accepted 1).mpr (by decide)
  obtain rfl : n = 1 := by omega
  exact ⟨heard, by decide, by decide, lines, read, told⟩

end NfcPolling.DecoderLines
