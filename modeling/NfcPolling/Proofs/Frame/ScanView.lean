import NfcPolling.Frame.Decode

/-! Scanning a frame is a function of the bytes that remain. The cursor, its
bounds checks and its saturating position are replaced once by plain lists;
every later result about records, faults and events starts from these lists. -/
namespace NfcPolling.ScanView
open NfcPolling.Frame

/-- The bytes from the position of a cursor on. -/
def rest (c : Cursor) : Bytes := c.data.toList.drop c.position

theorem rest_length (c : Cursor) : (rest c).length = c.length - c.position := by
  simp [rest, Cursor.length]

theorem byte_of_rest (c : Cursor) (offset : Nat) : c.byte? offset = (rest c)[offset]? := by
  simp [rest, Cursor.byte?, List.getElem?_drop]

/-- A run of bytes is found exactly when the remaining bytes are long enough.
An empty run may be asked for at any position up to the end. -/
theorem bytes_of_rest (c : Cursor) (offset count : Nat) (inside : c.position ≤ c.length) :
    c.bytes? offset count =
      if offset + count ≤ (rest c).length then some (((rest c).drop offset).take count) else none := by
  have available : c.isAvailable offset count = true ↔ offset + count ≤ (rest c).length := by
    rw [rest_length, Cursor.isAvailable, decide_eq_true_eq]
    omega
  have run : (c.data.extract (c.position + offset) (c.position + offset + count)).toList =
      ((rest c).drop offset).take count := by
    rw [Array.toList_extract, List.extract_eq_take_drop, rest, List.drop_drop]
    congr 1
    omega
  simp only [Cursor.bytes?, available, run]

/-- Moving on inside the frame drops exactly the bytes passed over. -/
theorem rest_advance {c : Cursor} {count : Nat} (inside : c.position < c.length)
    (small : count ≤ maxFrameLength) : rest (c.advance count) = (rest c).drop count := by
  -- The position never reaches the value at which it would stop growing.
  have moved := Cursor.position_advance inside small
  have same : (c.advance count).data = c.data := rfl
  rw [rest, moved, same, rest, List.drop_drop]

/-- The data of a record of unknown technology: what its length byte covers,
as far as bytes remain. -/
def dataOf (length : UInt8) (bytes : Bytes) : Bytes :=
  (bytes.take (timestampOffset + length.toNat)).drop dataOffset

/-- What a record with this tag and length byte says, given the bytes from its
start on. -/
def observe (tag length : UInt8) (bytes : Bytes) : Observation :=
  if tag = 0 then .field bytes[dataOffset]?
  else if tag = 1 then .typeA
  else if tag = 2 then .typeB
  else if tag = 3 then .typeF
  else if tag = 7 then .unknown (if dataOf length bytes = [] then none else some (dataOf length bytes))
  else .unlisted tag

private theorem dataOf_length (length : UInt8) (bytes : Bytes) :
    (dataOf length bytes).length = min (timestampOffset + length.toNat) bytes.length - dataOffset := by
  simp [dataOf]

theorem observation_of_rest (tag length : UInt8) (c : Cursor) (inside : c.position ≤ c.length) :
    Observation.read tag length c = observe tag length (rest c) := by
  have ending : Observation.dataEnd length c =
      min (timestampOffset + length.toNat) (rest c).length := by
    rw [Observation.dataEnd, rest_length]
  have size := dataOf_length length (rest c)
  have empty : dataOf length (rest c) = [] ↔ Observation.dataEnd length c ≤ dataOffset := by
    rw [← List.length_eq_zero_iff, size, ending]
    omega
  have full : ¬ Observation.dataEnd length c ≤ dataOffset →
      c.bytes? dataOffset (Observation.dataEnd length c - dataOffset) =
        some (dataOf length (rest c)) := by
    intro long
    rw [bytes_of_rest c _ _ inside, if_pos (by omega), ending, Option.some.injEq, dataOf,
      List.drop_take, List.take_eq_take_iff, List.length_drop]
    omega
  unfold Observation.read observe
  by_cases short : Observation.dataEnd length c ≤ dataOffset
  · simp only [byte_of_rest, empty, short, ↓reduceIte]
  · simp only [byte_of_rest, empty, short, full short, ↓reduceIte]

/-- The letter for a tag. A field change takes it from its state byte. -/
def letterFor (tag : UInt8) (state : Option UInt8) : Option UInt8 :=
  if tag = 0 then state.map fun b => if b = 0 then Bytes.ofChar 'X' else Bytes.ofChar 'O'
  else if tag = 1 then some (Bytes.ofChar 'A')
  else if tag = 2 then some (Bytes.ofChar 'B')
  else if tag = 3 then some (Bytes.ofChar 'F')
  else if tag = 7 then some (Bytes.ofChar 'U')
  else none

theorem letter_observed (tag length : UInt8) (bytes : Bytes) :
    (observe tag length bytes).letter = letterFor tag bytes[dataOffset]? := by
  unfold observe letterFor
  repeat' split
  all_goals rfl

/-- Only a record of unknown technology has a payload, which missing data leaves empty. -/
theorem payload_observed (tag length : UInt8) (bytes : Bytes) :
    (observe tag length bytes).payload = if tag = 7 then some (dataOf length bytes) else none := by
  unfold observe
  by_cases unknown : tag = 7
  · by_cases empty : dataOf length bytes = []
    · simp [unknown, empty, Observation.payload]
    · simp [unknown, empty, Observation.payload]
  · simp only [unknown, ↓reduceIte]
    repeat' split
    all_goals rfl

/-- The four bytes of a timestamp as a word, when that many bytes remain. -/
def timestampOf (bytes : Bytes) : Option UInt32 :=
  if timestampOffset + 4 ≤ bytes.length then
    some (UInt32.ofNat (Bytes.littleEndian ((bytes.drop timestampOffset).take 4)))
  else none

/-- The record at a position, given its length byte, its tag and all bytes from
its start on. -/
def recordOf (position : Nat) (length tag : UInt8) (bytes : Bytes) : Record where
  position := position
  length := length
  tag := tag
  observation := observe tag length bytes
  gain := bytes[gainOffset]?.map UInt8.toInt8
  timestamp := timestampOf bytes

/-- Reading one record off the remaining bytes. -/
def readFrom (position : Nat) : Bytes → Except Fault Record
  | [] => .error .tooLong
  | length :: tail =>
    if tail.length < length.toNat then .error .tooLong
    else
      match tail[1]? with
      | none => .error (.tagMissing position)
      | some tag => .ok (recordOf position length tag (length :: tail))

/-- Nothing but the position and the remaining bytes decides what is read. -/
theorem read_of_rest (c : Cursor) : Record.read c = readFrom c.position (rest c) := by
  unfold Record.read
  rw [byte_of_rest]
  cases remaining : rest c with
  | nil => rfl
  | cons length tail =>
    have size : tail.length + 1 = c.length - c.position := by
      rw [← rest_length, remaining, List.length_cons]
    have tooLong : c.position + length.toNat + 1 > c.length ↔ tail.length < length.toNat := by
      omega
    have tag : c.byte? tagOffset = tail[1]? := by
      rw [byte_of_rest, remaining]
      rfl
    have timestamp : c.word? timestampOffset = timestampOf (length :: tail) := by
      rw [Cursor.word?, bytes_of_rest c _ _ (by omega), remaining, timestampOf]
      split <;> rfl
    simp only [List.getElem?_cons_zero, tooLong, tag, timestamp, Cursor.signed?, byte_of_rest,
      observation_of_rest _ _ c (by omega), remaining]
    rfl

/-- The records and the fault that a list of bytes holds, the first byte being
at the position. -/
def scanFrom (position : Nat) (bytes : Bytes) : Scan :=
  if _ : bytes = [] then ⟨[], none⟩
  else
    match readFrom position bytes with
    | .error fault => ⟨[], some fault⟩
    | .ok record =>
      let later := scanFrom (position + record.size) (bytes.drop record.size)
      ⟨record :: later.records, later.fault⟩
termination_by bytes.length
decreasing_by
  have grown := record.size_pos
  have bytesLeft := List.length_pos_iff.mpr (by assumption)
  simp only [List.length_drop]
  omega

/-- The scan of a cursor is the scan of the bytes that remain at it. -/
theorem scan_of_rest (c : Cursor) : scan c = scanFrom c.position (rest c) := by
  induction c using scan.induct with
  | case1 c inside fault read =>
    have remains : rest c ≠ [] := by
      rw [← List.length_pos_iff, rest_length]
      omega
    rw [scan, scanFrom, dif_pos inside, dif_neg remains, ← read_of_rest, read]
  | case2 c inside record read ih =>
    have remains : rest c ≠ [] := by
      rw [← List.length_pos_iff, rest_length]
      omega
    have small : record.size ≤ maxFrameLength :=
      Nat.le_trans record.size_le (by decide)
    rw [rest_advance inside small, Cursor.position_advance inside small] at ih
    rw [scan, scanFrom, dif_pos inside, dif_neg remains, ← read_of_rest, read]
    simp only [ih]
  | case3 c outside =>
    have empty : rest c = [] := by
      rw [← List.length_eq_zero_iff, rest_length]
      omega
    rw [scan, scanFrom, dif_neg outside, dif_pos empty]

/-- A record is read exactly when its first three bytes are there and its length
byte reaches at most one byte beyond the frame. -/
theorem read_ok_iff (position : Nat) {bytes : Bytes} {record : Record} :
    readFrom position bytes = .ok record ↔
      ∃ length flags tag body, bytes = length :: flags :: tag :: body ∧
        length.toNat ≤ body.length + 2 ∧ record = recordOf position length tag bytes := by
  constructor
  · intro read
    match bytes with
    | [] => cases read
    | [length] =>
      simp only [readFrom] at read
      split at read <;> cases read
    | [length, flags] =>
      simp only [readFrom] at read
      split at read <;> cases read
    | length :: flags :: tag :: body =>
      simp only [readFrom, List.length_cons, List.getElem?_cons_succ, List.getElem?_cons_zero] at read
      split at read
      · cases read
      · cases read
        exact ⟨length, flags, tag, body, rfl, by omega, rfl⟩
  · rintro ⟨length, flags, tag, body, rfl, fits, rfl⟩
    rw [readFrom, if_neg (by simp only [List.length_cons]; omega)]
    rfl

/-- A record that can be read comes first; the scan goes on right behind it. -/
theorem scan_record (position : Nat) {length : UInt8} (flags tag : UInt8) {body : Bytes}
    (fits : length.toNat ≤ body.length + 2) :
    scanFrom position (length :: flags :: tag :: body) =
      let later := scanFrom (position + (length.toNat + lengthOverhead))
        ((length :: flags :: tag :: body).drop (length.toNat + lengthOverhead))
      ⟨recordOf position length tag (length :: flags :: tag :: body) :: later.records,
        later.fault⟩ := by
  have read : readFrom position (length :: flags :: tag :: body) =
      .ok (recordOf position length tag (length :: flags :: tag :: body)) :=
    (read_ok_iff position).mpr ⟨length, flags, tag, body, rfl, fits, rfl⟩
  rw [scanFrom, dif_neg (List.cons_ne_nil _ _), read]
  rfl

theorem scan_refused {position : Nat} {bytes : Bytes}
    (refused : ∀ record, readFrom position bytes ≠ .ok record) :
    (scanFrom position bytes).records = [] := by
  rw [scanFrom]
  split
  · rfl
  · cases read : readFrom position bytes with
    | error fault => rfl
    | ok record => exact absurd read (refused record)

private theorem observation_remarks {o : Observation} {notice : Notice}
    (remarked : o.notice = some notice) : notice.severity ≠ .error := by
  unfold Observation.notice at remarked
  split at remarked <;> cases remarked
  all_goals exact fun same => nomatch same

/-- Only the fault that ends a scan is remarked as an error. -/
theorem error_is_fault {s : Scan} {notice : Notice} (remarked : notice ∈ s.notices)
    (severe : notice.severity = .error) : ∃ fault, s.fault = some fault ∧ notice = fault.notice := by
  rw [Scan.notices, List.mem_append] at remarked
  rcases remarked with observed | faulty
  · obtain ⟨r, _, remark⟩ := List.mem_filterMap.mp observed
    exact absurd severe (observation_remarks remark)
  · rw [Option.mem_toList, Option.map_eq_some_iff] at faulty
    obtain ⟨fault, ended, same⟩ := faulty
    exact ⟨fault, ended, same.symm⟩

theorem records_present (bytes : Bytes) (short : bytes.length ≤ maxFrameLength) :
    (present bytes short).records = scanFrom headerLength (bytes.drop headerLength) := by
  rw [records, scan_of_rest]
  rfl

/-- A frame of at least five bytes is decoded whatever event was held before. -/
theorem decode_present {bytes : Bytes} (long : minLength ≤ bytes.length)
    (short : bytes.length ≤ maxFrameLength) (held : Event) :
    (present bytes short).decode held =
      let found := scanFrom headerLength (bytes.drop headerLength)
      ⟨true, found.event, found.notices ++ [.decoded bytes.length found.event]⟩ := by
  rw [decode, if_neg (by omega), records_present]
  rfl

end NfcPolling.ScanView
