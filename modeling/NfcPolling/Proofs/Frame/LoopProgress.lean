import Mathlib.Data.List.Chain
import NfcPolling.Frame.Progress
import NfcPolling.Proofs.Frame.BoundedReads
import NfcPolling.Proofs.Frame.RecordStarts
import NfcPolling.Proofs.Journal.Filtering

/-! Decoding in place is decoding by records, and its loop stays in the frame: every
record that is found moves the position on by two bytes at least and comes to stand one
byte behind the frame at most, so no sum or difference of words wraps around and the calls
are fewer than half the bytes. -/
namespace NfcPolling.LoopProgress
open NfcPolling.Frame NfcPolling.Frame.Progress BoundedReads RecordStarts Filtering
open Journal (Entry Levels Logged Noted)

section Reading
variable {α : Type} {reading : Reading α}

theorem found_some {value : α} (found : reading.found = some value) :
    reading.done = true ∧ reading.value = value := by
  rw [Reading.found] at found
  split at found
  · exact ⟨by assumption, Option.some.inj found⟩
  · cases found

theorem found_none (found : reading.found = none) : reading.done = false := by
  rw [Reading.found] at found
  split at found
  · cases found
  · exact (Bool.not_eq_true _).mp (by assumption)

/-- A part that was read replaces the one before. -/
theorem setRead_found (change : α → Event.Change) (e : Event) :
    setRead change reading e = reading.found.elim e fun value => e.apply (change value) := by
  rw [setRead, Reading.found]
  split <;> rfl

end Reading

section Words
variable {r : Reader}

/-- Inside the frame the difference does not fall below zero. -/
theorem left_toNat (inside : r.position.toNat ≤ r.data.size) :
    (left r).toNat = r.data.size - r.position.toNat := by
  have wide : r.length.toUInt32.toNat = r.data.size := r.whole
  have ordered : r.position ≤ r.length.toUInt32 := by
    rw [UInt32.le_iff_toNat_le, wide]
    exact inside
  rw [left, UInt32.toNat_sub_of_le _ _ ordered, wide]

theorem dataEnd_toNat (length : UInt8) (inside : r.position.toNat ≤ r.data.size) :
    (dataEnd length r).toNat = Observation.dataEnd length (cursorOf r) := by
  have remain := left_toNat inside
  have width := length.toNat_lt
  have first : (UInt32.ofNat timestampOffset).toNat = timestampOffset := rfl
  have covered : (UInt32.ofNat timestampOffset + length.toUInt32).toNat =
      timestampOffset + length.toNat := by
    rw [UInt32.toNat_add, first, UInt8.toNat_toUInt32, timestampOffset]
    omega
  have ending : Observation.dataEnd length (cursorOf r) =
      min (timestampOffset + length.toNat) (r.data.size - r.position.toNat) := rfl
  simp only [dataEnd, gt_iff_lt, UInt32.lt_iff_toNat_lt, covered, remain]
  rw [ending]
  split
  · rw [remain]
    omega
  · rw [covered]
    omega

theorem dataEnd_le_iff (length : UInt8) (inside : r.position.toNat ≤ r.data.size) :
    dataEnd length r ≤ UInt32.ofNat dataOffset ↔
      Observation.dataEnd length (cursorOf r) ≤ dataOffset := by
  rw [UInt32.le_iff_toNat_le, dataEnd_toNat length inside]
  rfl

/-- Data that starts before its end is all there. -/
theorem dataRead_found (length : UInt8) (inside : r.position.toNat ≤ r.data.size)
    (filled : ¬ dataEnd length r ≤ UInt32.ofNat dataOffset) :
    (dataRead length r).done = true ∧
      (cursorOf r).bytes? dataOffset (Observation.dataEnd length (cursorOf r) - dataOffset) =
        some (dataRead length r).value := by
  have ending := dataEnd_toNat length inside
  have upto : Observation.dataEnd length (cursorOf r) ≤ r.data.size - r.position.toNat :=
    Nat.min_le_right _ _
  have first : (UInt32.ofNat dataOffset).toNat = dataOffset := rfl
  have begun : UInt32.ofNat dataOffset ≤ dataEnd length r :=
    UInt32.le_of_lt (UInt32.not_le.mp filled)
  have count : (dataEnd length r - UInt32.ofNat dataOffset).toNat =
      Observation.dataEnd length (cursorOf r) - dataOffset := by
    rw [UInt32.toNat_sub_of_le _ _ begun, ending, first]
  have done : (dataRead length r).done = true := by
    rw [dataEnd_le_iff length inside] at filled
    rw [dataRead, (bytes_reads r _ _ []).done, Reader.isAvailable_iff, count, first]
    omega
  have found := bytes_cursorOf r (UInt32.ofNat dataOffset)
    (dataEnd length r - UInt32.ofNat dataOffset) []
  rw [count, first] at found
  refine ⟨done, ?_⟩
  rw [← found, Reading.found, ← dataRead, if_pos done]

end Words

/-- An event that takes over what an observation says, with the remark on it. -/
def observed (seen : Observation) (e : Event) : Noted Entry Event :=
  ⟨{ e with type := seen.letter.or e.type, payload := seen.payload.or e.payload },
    seen.notice.toList.map .decoder⟩

section Call
variable {p : Progress}

theorem setField_observed :
    Filters (setField p) (observed (.field ((cursorOf p.reader).byte? dataOffset)) p.event) := by
  have state : _ = (cursorOf p.reader).byte? dataOffset :=
    byte_cursorOf p.reader (UInt32.ofNat dataOffset) 0
  rw [← state, setField, Reading.found]
  dsimp only
  split
  · simp only [ne_eq, ite_not]
    exact filters_pure _
  · exact filters_noted _ _

theorem setUnknown_observed (length : UInt8)
    (inside : p.reader.position.toNat ≤ p.reader.data.size) :
    let c := cursorOf p.reader
    let ending := Observation.dataEnd length c
    Filters (setUnknown length p)
      (observed (if ending ≤ dataOffset then .unknown none
        else .unknown (c.bytes? dataOffset (ending - dataOffset))) p.event) := by
  have missing := dataEnd_le_iff length inside
  by_cases short : dataEnd length p.reader ≤ UInt32.ofNat dataOffset
  · simp only [setUnknown, short, missing.mp short, true_or, ↓reduceIte]
    exact filters_noted _ _
  · obtain ⟨done, found⟩ := dataRead_found length inside short
    simp only [setUnknown, short, mt missing.mpr short, done, found, Bool.true_eq_false, or_self,
      ↓reduceIte]
    exact filters_pure _

theorem setType_observed (tag length : UInt8)
    (inside : p.reader.position.toNat ≤ p.reader.data.size) :
    Filters (setType tag length p)
      (observed (Observation.read tag length (cursorOf p.reader)) p.event) := by
  simp only [setType, Observation.read, apply_ite (observed · p.event)]
  refine filters_ite (fun _ => setField_observed) fun _ => ?_
  refine filters_ite (fun _ => filters_pure _) fun _ => ?_
  refine filters_ite (fun _ => filters_pure _) fun _ => ?_
  refine filters_ite (fun _ => filters_pure _) fun _ => ?_
  refine filters_ite (fun _ => ?_) fun _ => filters_noted _ _
  rw [← apply_ite (observed · p.event)]
  exact setUnknown_observed length inside

/-- The parts that are read last replace what the event holds after its type. -/
theorem parts_applied (record : Record) (e : Event) :
    let typed := (observed record.observation e).value
    let gained := record.gain.elim typed fun gain => typed.apply (.gain gain)
    (record.timestamp.elim gained fun timestamp => gained.apply (.timestamp timestamp)) =
      Record.apply e record := by
  obtain ⟨_, _, _, seen, gain, timestamp⟩ := record
  cases gain <;> cases timestamp <;> rfl

/-- A length byte is held against the frame in thirty-two bits, which do not wrap around. -/
theorem beyond_iff (length : UInt8) (inside : p.reader.position.toNat < p.reader.data.size) :
    p.reader.position + length.toUInt32 + 1 > p.reader.length.toUInt32 ↔
      p.reader.position.toNat + length.toNat + 1 > p.reader.data.size := by
  have wide : p.reader.length.toUInt32.toNat = p.reader.data.size := p.reader.whole
  have short := p.reader.length.toNat_lt
  have width := length.toNat_lt
  have one : (1 : UInt32).toNat = 1 := rfl
  rw [p.reader.whole] at short
  rw [gt_iff_lt, UInt32.lt_iff_toNat_lt, wide, UInt32.toNat_add, UInt32.toNat_add,
    UInt8.toNat_toUInt32, one]
  omega

/-- What comes of a call at a fault, or at a record, which is applied to the event and
left behind. -/
def told (p : Progress) : Except Fault Record → Noted Entry (Bool × Progress)
  | .error fault => ⟨(false, p), [.decoder fault.notice]⟩
  | .ok record =>
    ⟨(true, ⟨p.reader.advance (record.length.toUInt32 + UInt32.ofNat lengthOverhead),
      Record.apply p.event record⟩), record.observation.notice.toList.map .decoder⟩

theorem record_told (inside : p.reader.hasRemaining = true) :
    Filters p.readRecord (told p (Record.read (cursorOf p.reader))) := by
  have within := p.reader.hasRemaining_iff.mp inside
  have first : _ = (cursorOf p.reader).byte? 0 := byte_cursorOf p.reader 0 0
  have second : _ = (cursorOf p.reader).byte? tagOffset :=
    byte_cursorOf p.reader (UInt32.ofNat tagOffset) 0
  have gain : _ = (cursorOf p.reader).signed? gainOffset :=
    signed_cursorOf p.reader (UInt32.ofNat gainOffset) 0
  have timestamp : _ = (cursorOf p.reader).word? timestampOffset :=
    word_cursorOf p.reader (UInt32.ofNat timestampOffset) 0
  -- Length byte and tag are the two reads that can end a call; the rest may be missing.
  unfold readRecord Record.read lengthRead
  cases lengthRead : (cursorOf p.reader).byte? 0 with
  | none =>
    have missing := found_none (first.trans lengthRead)
    simp only [missing, true_or, ↓reduceIte]
    exact filters_noted _ _
  | some length =>
    obtain ⟨done, value⟩ := found_some (first.trans lengthRead)
    have bound := beyond_iff length within
    simp only [done, value, Bool.true_eq_false, false_or, bound]
    have position : (cursorOf p.reader).position = p.reader.position.toNat := rfl
    rw [position, length_cursorOf]
    split
    · exact filters_noted _ _
    · cases tagRead : (cursorOf p.reader).byte? tagOffset with
      | none =>
        have missing := found_none (second.trans tagRead)
        simp only [missing, ↓reduceIte]
        exact filters_noted _ _
      | some tag =>
        obtain ⟨tagged, known⟩ := found_some (second.trans tagRead)
        simp only [tagged, known, Bool.true_eq_false, ↓reduceIte, setRead_found, gain, timestamp]
        rw [told, ← parts_applied]
        exact filters_map (setType_observed tag length (Nat.le_of_lt within)) _

end Call

/-- A call with what it would have written at all levels left to the levels. -/
theorem call_told (levels : Levels) {p : Progress} (inside : p.reader.hasRemaining = true) :
    let full := told p (Record.read (cursorOf p.reader))
    p.call levels = ⟨p, full.value.1, full.value.2, levels.written full.notes⟩ := by
  rw [call, record_told inside levels]
  rfl

theorem finish_accepted {levels : Levels} {p : Progress} (inside : p.reader.hasRemaining = true)
    (accepted : (p.call levels).accepted = true) :
    let later := (p.call levels).after.finish levels
    p.finish levels = ⟨later.value, (p.call levels).entries ++ later.notes⟩ := by
  intro later
  rw [show later = (p.call levels).after.finish levels from rfl, finish, calls, dif_pos inside,
    dif_pos accepted, finish]
  cases (p.call levels).after.calls levels with
  | nil => rfl
  | cons next later => rw [List.getLast?_cons_cons, List.getLast?_cons]; rfl

theorem place_iff (r : Reader) :
    r.hasRemaining = true ↔ (cursorOf r).position < (cursorOf r).length :=
  r.hasRemaining_iff

/-- Behind a record the reader stands where the scan goes on. -/
theorem cursorOf_behind (r : Reader) (record : Record) :
    cursorOf (r.advance (record.length.toUInt32 + UInt32.ofNat lengthOverhead)) =
      (cursorOf r).advance record.size := by
  rw [cursorOf_advance, step_toNat, Record.size]

theorem notices_cons (record : Record) (found : Scan) :
    Scan.notices ⟨record :: found.records, found.fault⟩ =
      record.observation.notice.toList ++ found.notices := by
  cases remark : record.observation.notice <;> simp [Scan.notices, remark]

/-- The calls come to the event and the remarks that the records of the frame come to. -/
theorem finish_told (levels : Levels) (p : Progress) :
    let found := scan (cursorOf p.reader)
    (p.finish levels).value.event = found.records.foldl Record.apply p.event ∧
      (p.finish levels).notes = levels.written (found.notices.map .decoder) := by
  -- The loop goes on exactly where the scan does: behind a record.
  induction p using Progress.calls.induct levels with
  | case1 p inside accepted ih =>
    have place := (place_iff p.reader).mp inside
    rw [finish_accepted inside accepted, scan, dif_pos place]
    rw [call_told levels inside] at accepted ih ⊢
    cases read : Record.read (cursorOf p.reader) with
    | error fault => rw [read] at accepted; cases accepted
    | ok record =>
      simp only [read, told, cursorOf_behind] at ih ⊢
      exact ⟨ih.1, by rw [ih.2, notices_cons, List.map_append, written_append]⟩
  | case2 p inside refused =>
    have place := (place_iff p.reader).mp inside
    rw [finish, calls, dif_pos inside, dif_neg refused, scan, dif_pos place]
    rw [call_told levels inside] at refused ⊢
    cases read : Record.read (cursorOf p.reader) with
    | error fault => exact ⟨rfl, List.append_nil _⟩
    | ok record => rw [read] at refused; exact absurd rfl refused
  | case3 p outside =>
    have place := mt (place_iff p.reader).mpr outside
    rw [finish, calls, dif_neg outside, scan, dif_neg place]
    exact ⟨rfl, rfl⟩

theorem cursorOf_start (frame : Frame) :
    cursorOf (Progress.start frame).reader = (Cursor.ofFrame frame).advance headerLength := by
  rw [Progress.start, cursorOf_advance, cursorOf_ofFrame]
  rfl

/-- The outcome of decoding, with its remarks as entries. -/
def entered (decoding : Decoding) : Noted Entry (Bool × Event) :=
  ⟨(decoding.accepted, decoding.event), decoding.notices.map .decoder⟩

/-- The calls for a frame, and the remark on the event that they have come to. -/
theorem present_in_place {bytes : Bytes} (long : minLength ≤ bytes.length)
    (short : bytes.length ≤ maxFrameLength) (held : Event) (levels : Levels) :
    let last := (Progress.start (present bytes short)).finish levels
    (present bytes short).decodeInPlace held levels =
      ⟨(true, last.value.event),
        last.notes ++ levels.written [.decoder (.decoded bytes.length last.value.event)]⟩ := by
  intro last
  rw [decodeInPlace, if_neg (Nat.not_lt.mpr long), Logged.at_bind]
  have closing := filters_noted (.decoder (.decoded bytes.length last.value.event))
    (true, last.value.event) levels
  exact congrArg (fun later => Noted.mk later.value (last.notes ++ later.notes)) closing

/-- Decoding a frame in place is decoding it and holding the remarks against the levels. -/
theorem decode_in_place (frame : Frame) (held : Event) :
    Filters (frame.decodeInPlace held) (entered (frame.decode held)) := by
  cases frame with
  | absent => exact filters_noted _ _
  | present bytes short =>
    by_cases few : bytes.length < minLength
    · rw [decode, decodeInPlace, if_pos few, if_pos few]
      exact filters_noted _ _
    · intro levels
      obtain ⟨event, notes⟩ := finish_told levels (.start (present bytes short))
      rw [cursorOf_start] at event notes
      rw [present_in_place (Nat.not_lt.mp few), decode, if_neg few, event, notes, ← written_append]
      simp only [Noted.atLevels, entered, List.map_append]
      rfl

/-- A call that keeps to some bytes. -/
structure Bounded (bytes : Bytes) (c : Call) : Prop where
  inside : c.before.reader.position.toNat < bytes.length
  lengthRead : (lengthRead c.before.reader).done = true ∧
    (lengthRead c.before.reader).value = byteAt bytes c.before.reader.position.toNat
  /-- The difference of words is exact: the position is not behind the end. -/
  left : (left c.before.reader).toNat = bytes.length - c.before.reader.position.toNat
  dataRead : ∀ length, UInt32.ofNat dataOffset < dataEnd length c.before.reader →
    (dataRead length c.before.reader).done = true
  accepted : c.accepted = true →
    let size := (byteAt bytes c.before.reader.position.toNat).toNat + 2
    2 ≤ size ∧ size ≤ 257 ∧
      c.after.reader.position.toNat = c.before.reader.position.toNat + size ∧
      c.after.reader.position.toNat ≤ bytes.length + 1
  refused : c.accepted = false → c.after = c.before
  unsaturated : c.after.reader.position.toNat < maxPosition

/-- The calls that a loop makes one after the other, while bytes remain and every call finds
a record. -/
structure LoopFrom (levels : Levels) (p : Progress) (calls : List Call) : Prop where
  first : calls.head? = if p.reader.hasRemaining then some (p.call levels) else none
  made : ∀ c ∈ calls, c.before.reader.hasRemaining = true ∧ c = c.before.call levels
  linked : calls.IsChain fun c next => c.accepted = true ∧ next.before = c.after
  last : ∀ c ∈ calls.getLast?, c.accepted = true → c.after.reader.hasRemaining = false

section Step
variable {levels : Levels} {p : Progress} (inside : p.reader.hasRemaining = true)
include inside

theorem lengthRead_byte :
    (lengthRead p.reader).done = true ∧
      (lengthRead p.reader).value = byteAt p.reader.data.toList p.reader.position.toNat := by
  have within := p.reader.hasRemaining_iff.mp inside
  have reads := byte_reads p.reader 0 0
  have done : (lengthRead p.reader).done = true :=
    reads.done.trans ((p.reader.isAvailable_iff 0 1).mpr within)
  have told := reads.told done
  rw [List.getElem?_drop, UInt32.toNat_zero, Nat.add_zero] at told
  exact ⟨done, by rw [byteAt, List.getD_eq_getElem?_getD, told]; rfl⟩

/-- A record that is found reaches at most one byte beyond the frame. -/
theorem accepted_within (accepted : (p.call levels).accepted = true) :
    p.reader.position.toNat + (byteAt p.reader.data.toList p.reader.position.toNat).toNat + 1 ≤
      p.reader.data.size := by
  have within := p.reader.hasRemaining_iff.mp inside
  obtain ⟨_, value⟩ := lengthRead_byte inside
  rw [← value]
  refine Nat.le_of_not_lt fun beyond => ?_
  have refused : (p.call levels).accepted = false := by
    rw [call, readRecord]
    dsimp only
    rw [if_pos (Or.inr ((beyond_iff _ within).mpr beyond))]
    rfl
  rw [refused] at accepted
  cases accepted

theorem call_bounded : Bounded p.reader.data.toList (p.call levels) := by
  have within := p.reader.hasRemaining_iff.mp inside
  have short := p.reader.length.toNat_lt
  rw [p.reader.whole] at short
  have known := lengthRead_byte inside
  have moved (accepted : (p.call levels).accepted = true) :
      (p.call levels).after.reader.position.toNat = p.reader.position.toNat +
        ((byteAt p.reader.data.toList p.reader.position.toNat).toNat + 2) := by
    rw [position_accepted inside accepted, known.2, lengthOverhead]
  have upto (accepted : (p.call levels).accepted = true) :
      (p.call levels).after.reader.position.toNat ≤ p.reader.data.size + 1 := by
    have reaches := accepted_within inside accepted
    rw [moved accepted]
    omega
  constructor
  case inside => exact within
  case lengthRead => exact known
  case left => exact left_toNat (Nat.le_of_lt within)
  case dataRead =>
    exact fun length begun =>
      (dataRead_found length (Nat.le_of_lt within) (UInt32.not_le.mpr begun)).1
  case accepted =>
    intro accepted size
    have width := (byteAt p.reader.data.toList p.reader.position.toNat).toNat_lt
    exact ⟨Nat.le_add_left 2 _, Nat.add_le_add_right (Nat.le_of_lt_succ width) 2,
      moved accepted, upto accepted⟩
  case refused => exact call_refused
  case unsaturated =>
    rw [maxPosition]
    cases accepted : (p.call levels).accepted with
    | true =>
      have upto := upto accepted
      omega
    | false =>
      rw [call_refused accepted]
      omega

end Step

section Run
variable (levels : Levels) (p : Progress)

theorem data_call : (p.call levels).after.reader.data = p.reader.data := by
  cases accepted : (p.call levels).accepted with
  | true => rw [call_accepted accepted, Reader.data_advance]
  | false => rw [call_refused accepted]

theorem calls_bounded : ∀ c ∈ p.calls levels, Bounded p.reader.data.toList c := by
  induction p using Progress.calls.induct levels with
  | case1 p inside accepted ih =>
    rw [data_call] at ih
    rw [calls, dif_pos inside, dif_pos accepted]
    exact List.forall_mem_cons.mpr ⟨call_bounded inside, ih⟩
  | case2 p inside refused =>
    rw [calls, dif_pos inside, dif_neg refused]
    exact List.forall_mem_singleton.mpr (call_bounded inside)
  | case3 p outside =>
    rw [calls, dif_neg outside]
    exact List.forall_mem_nil _

theorem first_call :
    (p.calls levels).head? = if p.reader.hasRemaining then some (p.call levels) else none := by
  rw [calls]
  split
  · split <;> rfl
  · rfl

theorem calls_loop : LoopFrom levels p (p.calls levels) := by
  induction p using Progress.calls.induct levels with
  | case1 p inside accepted ih =>
    have next := first_call levels (p.call levels).after
    refine ⟨first_call levels p, ?made, ?linked, ?last⟩ <;>
      rw [calls, dif_pos inside, dif_pos accepted]
    case made => exact List.forall_mem_cons.mpr ⟨⟨inside, rfl⟩, ih.made⟩
    case linked =>
      refine List.isChain_cons.mpr ⟨fun c head => ⟨accepted, ?_⟩, ih.linked⟩
      rw [next] at head
      split at head
      · rw [← Option.some.inj head, call]
      · cases head
    case last =>
      cases later : (p.call levels).after.calls levels with
      | nil =>
        intro c last _
        rw [← show p.call levels = c from Option.some.inj last]
        cases remains : (p.call levels).after.reader.hasRemaining with
        | false => rfl
        | true =>
          rw [later, if_pos remains] at next
          cases next
      | cons c back =>
        rw [List.getLast?_cons_cons, ← later]
        exact ih.last
  | case2 p inside refused =>
    refine ⟨first_call levels p, ?made, ?linked, ?last⟩ <;>
      rw [calls, dif_pos inside, dif_neg refused]
    case made => exact List.forall_mem_singleton.mpr ⟨inside, rfl⟩
    case linked => exact .singleton _
    case last =>
      intro c last found
      cases last
      exact absurd found refused
  | case3 p outside =>
    refine ⟨first_call levels p, ?made, ?linked, ?last⟩ <;> rw [calls, dif_neg outside]
    case made => exact List.forall_mem_nil _
    case linked => exact .nil
    case last => exact fun c last => nomatch last

/-- Every call but the last uses up two bytes at least, and the last one a byte. -/
theorem calls_few :
    2 * (p.calls levels).length ≤ p.reader.data.size + 1 - p.reader.position.toNat := by
  induction p using Progress.calls.induct levels with
  | case1 p inside accepted ih =>
    have within := p.reader.hasRemaining_iff.mp inside
    have moved := position_accepted inside accepted
    rw [data_call, moved, lengthOverhead] at ih
    rw [calls, dif_pos inside, dif_pos accepted, List.length_cons]
    omega
  | case2 p inside refused =>
    have within := p.reader.hasRemaining_iff.mp inside
    rw [calls, dif_pos inside, dif_neg refused, List.length_singleton]
    omega
  | case3 p outside =>
    rw [calls, dif_neg outside]
    exact Nat.zero_le _

end Run

/-- A call that finds no record ends the loop. -/
theorem refused_last {levels : Levels} {p : Progress} {calls : List Call} (loop : LoopFrom levels p calls)
    {front back : List Call} {c : Call} (parted : calls = front ++ c :: back)
    (refused : c.accepted = false) : back = [] := by
  cases back with
  | nil => rfl
  | cons next back =>
    have linked := loop.linked
    rw [parted, List.isChain_append_cons_cons] at linked
    have accepted := linked.2.1.1
    rw [refused] at accepted
    cases accepted

theorem data_start (frame : Frame) : (Progress.start frame).reader.data.toList = frame.bytes := by
  rw [Progress.start, Reader.data_advance, data_ofFrame]

theorem position_start (frame : Frame) : (Progress.start frame).reader.position.toNat = 2 := by
  rw [Progress.start, Reader.position_advance, position_ofFrame]
  rfl

/-- Decoding a frame of at least five bytes is a loop of calls, each of which begins inside
the frame. What it reads first is there, and so is all data that it asks for. It moves the
position on exactly, by two bytes at least and to one byte behind the frame at most, or it
changes nothing and is the last one. So there are fewer than half as many calls as bytes. At
all levels the calls come to the event that is decoded, and write what the levels admit of
the remarks on it. -/
theorem calls_stay_in_frame {bytes : Bytes} (long : 5 ≤ bytes.length)
    (short : bytes.length ≤ maxFrameLength) (held : Event) (levels : Levels) :
    let start := Progress.start (present bytes short)
    let calls := start.calls levels
    let event := ((calls.getLast?.map Call.after).getD start).event
    let written :=
      calls.flatMap Call.entries ++ levels.written [.decoder (.decoded bytes.length event)]
    (present bytes short).decodeInPlace held levels = ⟨(true, event), written⟩ ∧
      (∃ notices, (present bytes short).decode held = ⟨true, event, notices⟩ ∧
        levels.written (notices.map Entry.decoder) = written) ∧
      LoopFrom levels start calls ∧
      (∀ c ∈ calls, Bounded bytes c) ∧
      (∀ front c back, calls = front ++ c :: back → c.accepted = false → back = []) ∧
      calls.length ≤ (bytes.length - 1) / 2 := by
  intro start calls event written
  have data : start.reader.data.toList = bytes := data_start (present bytes short)
  have bounded := calls_bounded levels start
  have few : 2 * calls.length ≤ start.reader.data.size + 1 - start.reader.position.toNat :=
    calls_few levels start
  have inPlace := present_in_place long short held levels
  have decoded := decode_in_place (present bytes short) held levels
  rw [data] at bounded
  rw [← Array.length_toList, data, position_start (present bytes short)] at few
  have loop := calls_loop levels start
  refine ⟨?_, ?_, loop, bounded, fun front c back => refused_last loop, ?_⟩
  · exact inPlace
  · let decoding := (present bytes short).decode held
    obtain ⟨accepted, same⟩ : decoding.accepted = true ∧ decoding.event = event :=
      Prod.mk.inj (congrArg Noted.value (decoded.symm.trans inPlace))
    exact ⟨decoding.notices, congrArg₂ (Decoding.mk · · decoding.notices) accepted same,
      congrArg Noted.notes (decoded.symm.trans inPlace)⟩
  · omega

/-- A record and one that is cut off are two calls, as many as there can be. -/
theorem calls_in_cut_frame :
    let cut : Bytes := [0, 0, 1, 0, 1, 9]
    let start := Progress.start (present cut (by decide))
    let calls := start.calls .verbose
    5 ≤ cut.length ∧ cut.length ≤ maxFrameLength ∧
      calls.map Call.accepted = [true, false] ∧
      LoopFrom .verbose start calls ∧ (∀ c ∈ calls, Bounded cut c) ∧
      calls.length ≤ (cut.length - 1) / 2 := by
  intro cut start calls
  have both : calls =
      [start.call .verbose, (start.call .verbose).after.call .verbose] := by
    rw [show calls = start.calls .verbose from rfl, Progress.calls, dif_pos (by decide),
      dif_pos (by decide), Progress.calls, dif_pos (by decide), dif_neg (by decide)]
  obtain ⟨_, _, loop, bounded, _, few⟩ :=
    calls_stay_in_frame (show 5 ≤ cut.length by decide) (by decide) .empty .verbose
  refine ⟨by decide, by decide, ?_, loop, bounded, few⟩
  rw [both]
  decide

end NfcPolling.LoopProgress
