import NfcPolling.Proofs.Frame.EventMerge

/-! Complete records are told the same whatever follows them, up to the one byte
behind its end that a record may read. Hence decoding distributes over a run of
complete records and an arbitrary tail, truncated or meaningless tails included. -/
namespace NfcPolling.CompleteRecords
open NfcPolling.Frame ScanView EventMerge

/-- A record with all its bytes: the length byte counts the tag and what follows it. -/
structure Complete where
  length : UInt8
  flags : UInt8
  tag : UInt8
  body : Bytes
  whole : length.toNat = body.length + 1

/-- The bytes of a complete record, two more than its length byte says. -/
def bytesOf (r : Complete) : Bytes := r.length :: r.flags :: r.tag :: r.body

theorem bytes_length (r : Complete) : (bytesOf r).length = r.length.toNat + 2 := by
  simp [bytesOf, r.whole]

/-- The data of a record, the byte that comes next in the frame included. -/
def dataBefore (r : Complete) (tail : Bytes) : Bytes := r.body.drop 5 ++ tail.take 1

/-- What a complete record says in front of a tail. -/
def saidBefore (r : Complete) (tail : Bytes) : Event where
  type := letterFor r.tag (dataBefore r tail).head?
  gain := r.body[4]?.map UInt8.toInt8
  timestamp := some (UInt32.ofNat (Bytes.littleEndian (r.body.take 4)))
  payload := if r.tag = 7 then some (dataBefore r tail) else none

private theorem data_read (r : Complete) (tail : Bytes) (reaches : 6 ≤ r.length.toNat) :
    dataOf r.length (bytesOf r ++ tail) = dataBefore r tail := by
  have size := bytes_length r
  have taken : (bytesOf r ++ tail).take (3 + r.length.toNat) = bytesOf r ++ tail.take 1 := by
    rw [List.take_append, List.take_of_length_le (by omega), size]
    congr 2
    omega
  rw [dataOf, timestampOffset, dataOffset, taken, List.drop_append_of_le_length (by omega)]
  rfl

private theorem first_data (r : Complete) (tail : Bytes) (reaches : 6 ≤ r.length.toNat) :
    (bytesOf r ++ tail)[dataOffset]? = (dataBefore r tail).head? := by
  have enough : 5 ≤ r.body.length := by
    have whole := r.whole
    omega
  have front : (bytesOf r ++ tail)[dataOffset]? = (r.body.drop 5 ++ tail).head? := by
    rw [← List.drop_append_of_le_length enough, List.head?_drop]
    rfl
  rw [front, dataBefore]
  cases r.body.drop 5 with
  | nil => cases tail <;> rfl
  | cons => rfl

/-- A complete record with a timestamp and a gain says nothing but what its own
bytes and the next one hold. -/
theorem news_complete (r : Complete) (tail : Bytes) (position : Nat)
    (reaches : 6 ≤ r.length.toNat) :
    news (recordOf position r.length r.tag (bytesOf r ++ tail)) = saidBefore r tail := by
  have enough : 5 ≤ r.body.length := by
    have whole := r.whole
    omega
  have timestamp : timestampOf (bytesOf r ++ tail) = (saidBefore r tail).timestamp := by
    rw [timestampOf, timestampOffset, if_pos (by simp [bytesOf]; omega)]
    have run : ((bytesOf r ++ tail).drop 3).take 4 = r.body.take 4 :=
      List.take_append_of_le_length (by omega)
    rw [run, saidBefore]
  have gain : (bytesOf r ++ tail)[gainOffset]? = r.body[4]? := by
    change (r.body ++ tail)[4]? = r.body[4]?
    exact List.getElem?_append_left (by omega)
  rw [news, recordOf, letter_observed, payload_observed, timestamp, gain,
    first_data r tail reaches, data_read r tail reaches]
  rfl

theorem scan_complete (position : Nat) (r : Complete) (tail : Bytes) :
    scanFrom position (bytesOf r ++ tail) =
      let later := scanFrom (position + (r.length.toNat + lengthOverhead)) tail
      ⟨recordOf position r.length r.tag (bytesOf r ++ tail) :: later.records, later.fault⟩ := by
  have fits : r.length.toNat ≤ (r.body ++ tail).length + 2 := by
    rw [r.whole, List.length_append]
    omega
  have behind : (r.length :: r.flags :: r.tag :: (r.body ++ tail)).drop
      (r.length.toNat + lengthOverhead) = tail :=
    List.drop_left' (bytes_length r)
  have step := scan_record position r.flags r.tag fits
  rw [behind] at step
  exact step

theorem told_complete (r : Complete) (tail : Bytes) (reaches : 6 ≤ r.length.toNat) :
    told (bytesOf r ++ tail) = saidBefore r tail :: told tail := by
  rw [told, scan_complete, List.map_cons, told_anywhere, news_complete r tail 0 reaches]

/-- All bytes of a run of complete records. -/
def bytesOfAll (records : List Complete) : Bytes := records.flatMap bytesOf

/-- What a record says does not depend on the tail when it has no payload and,
for a field change, holds its own state byte. -/
theorem said_independent (r : Complete) (stated : r.tag = 0 → 7 ≤ r.length.toNat)
    (closed : r.tag ≠ 7) (tail other : Bytes) : saidBefore r tail = saidBefore r other := by
  have letter : letterFor r.tag (dataBefore r tail).head? =
      letterFor r.tag (dataBefore r other).head? := by
    by_cases field : r.tag = 0
    · have held : r.body.drop 5 ≠ [] := by
        have long := stated field
        have whole := r.whole
        rw [← List.length_pos_iff, List.length_drop]
        omega
      obtain ⟨state, others, shape⟩ := List.exists_cons_of_ne_nil held
      rw [dataBefore, dataBefore, shape]
      rfl
    · simp only [letterFor, field, ↓reduceIte]
  rw [saidBefore, saidBefore, letter, if_neg closed, if_neg closed]

/-- A run of complete records is told alike in front of every tail, and what the
tail tells follows. -/
theorem told_append (records : List Complete) (reach : ∀ r ∈ records, 6 ≤ r.length.toNat)
    (stated : ∀ r ∈ records, r.tag = 0 → 7 ≤ r.length.toNat)
    (closed : ∀ r ∈ records.getLast?, r.tag ≠ 7) (tail : Bytes) :
    told (bytesOfAll records ++ tail) = told (bytesOfAll records) ++ told tail := by
  induction records with
  | nil => simp [bytesOfAll, told_short]
  | cons r more ih =>
    have reaches := reach r (by simp)
    have ownState := stated r (by simp)
    have front : bytesOfAll (r :: more) = bytesOf r ++ bytesOfAll more := rfl
    have lastClosed : ∀ s ∈ more.getLast?, s.tag ≠ 7 := by
      intro s last
      apply closed s
      cases more with
      | nil => cases last
      | cons next others => exact last
    have rest := ih (fun s member => reach s (by simp [member]))
      (fun s member => stated s (by simp [member])) lastClosed
    -- A record that is not the last has its successor's first byte behind it either
    -- way; the last one has no payload that could run over its end.
    have same : saidBefore r (bytesOfAll more ++ tail) = saidBefore r (bytesOfAll more) := by
      cases more with
      | nil => exact said_independent r ownState (closed r (by simp)) _ _
      | cons s others => rfl
    rw [front, List.append_assoc, told_complete r _ reaches, told_complete r _ reaches, same, rest]
    rfl

theorem short_front {header body tail : Bytes} {limit : Nat}
    (short : (header ++ body ++ tail).length ≤ limit) : (header ++ body).length ≤ limit := by
  rw [List.length_append] at short
  omega

theorem short_back {header body tail : Bytes} {limit : Nat}
    (short : (header ++ body ++ tail).length ≤ limit) : (header ++ tail).length ≤ limit := by
  simp only [List.length_append] at short ⊢
  omega

/-- A frame of complete records with any tail decodes to the event of the records
alone, covered by whatever the tail says when it is a frame body of its own. A
tail too short for that changes nothing. So no tail loses or alters a part that
it does not itself set. -/
theorem decode_append (first second : UInt8) {records : List Complete} (nonempty : records ≠ [])
    (reach : ∀ r ∈ records, 6 ≤ r.length.toNat)
    (stated : ∀ r ∈ records, r.tag = 0 → 7 ≤ r.length.toNat)
    (closed : (records.getLast nonempty).tag ≠ 7) (tail : Bytes)
    (short : ([first, second] ++ bytesOfAll records ++ tail).length ≤ maxFrameLength)
    (held : Event) :
    let front := (present ([first, second] ++ bytesOfAll records) (short_front short)).decode held
    let back := (present ([first, second] ++ tail) (short_back short)).decode held
    let joined := (present ([first, second] ++ bytesOfAll records ++ tail) short).decode held
    front.accepted = true ∧ joined.accepted = true ∧
      (3 ≤ tail.length → back.accepted = true ∧ joined.event = overlay front.event back.event) ∧
      (tail.length < 3 → joined.event = front.event) := by
  have size : 8 ≤ (bytesOfAll records).length := by
    obtain ⟨r, others, rfl⟩ := List.exists_cons_of_ne_nil nonempty
    have reaches := reach r (by simp)
    simp only [bytesOfAll, List.flatMap_cons, List.length_append, bytes_length]
    omega
  have lastClosed : ∀ r ∈ records.getLast?, r.tag ≠ 7 := by
    intro r last
    rw [List.getLast?_eq_some_getLast nonempty, Option.mem_some_iff] at last
    exact last ▸ closed
  have split := told_append records reach stated lastClosed tail
  have frontLong : 5 ≤ ([first, second] ++ bytesOfAll records).length := by
    rw [List.length_append]
    omega
  have joinedLong : 5 ≤ ([first, second] ++ bytesOfAll records ++ tail).length := by
    rw [List.length_append]
    omega
  obtain ⟨frontAccepted, frontEvent⟩ := decode_told frontLong (short_front short) held
  obtain ⟨joinedAccepted, joinedEvent⟩ := decode_told joinedLong short held
  refine ⟨frontAccepted, joinedAccepted, fun enough => ?_, fun few => ?_⟩
  · have backLong : 5 ≤ ([first, second] ++ tail).length := by
      rw [List.length_append, List.length_cons, List.length_singleton]
      omega
    obtain ⟨backAccepted, backEvent⟩ := decode_told backLong (short_back short) held
    refine ⟨backAccepted, ?_⟩
    rw [joinedEvent, frontEvent, backEvent, ← merge_append]
    exact congrArg merge split
  · rw [told_short few, List.append_nil] at split
    rw [joinedEvent, frontEvent]
    exact congrArg merge split

/-- A record of unknown technology, whose payload runs into the next record, and
a field change. -/
def unknownThenField : List Complete :=
  [⟨7, 0, 7, [1, 0, 0, 0, 5, 170], rfl⟩, ⟨7, 0, 0, [2, 0, 0, 0, 6, 1], rfl⟩]

/-- The tail starts with a record that is read although its timestamp is missing,
and ends inside the next one. -/
theorem decode_append_cut_tail :
    unknownThenField ≠ [] ∧ (∀ r ∈ unknownThenField, 6 ≤ r.length.toNat) ∧
    (∀ r ∈ unknownThenField, r.tag = 0 → 7 ≤ r.length.toNat) ∧
    (unknownThenField.getLast (by simp [unknownThenField])).tag ≠ 7 ∧
    ([0, 0] ++ bytesOfAll unknownThenField ++ [1, 0, 7, 9]).length ≤ maxFrameLength ∧
    ((present ([0, 0] ++ bytesOfAll unknownThenField ++ [1, 0, 7, 9]) (by decide)).decode
        .empty).event =
      overlay ((present ([0, 0] ++ bytesOfAll unknownThenField) (by decide)).decode .empty).event
        ((present ([0, 0] ++ [1, 0, 7, 9]) (by decide)).decode .empty).event := by
  have nonempty : unknownThenField ≠ [] := by simp [unknownThenField]
  have reach : ∀ r ∈ unknownThenField, 6 ≤ r.length.toNat := by decide
  have stated : ∀ r ∈ unknownThenField, r.tag = 0 → 7 ≤ r.length.toNat := by decide
  have closed : (unknownThenField.getLast nonempty).tag ≠ 7 := by simp [unknownThenField]
  have joined := decode_append 0 0 nonempty reach stated closed [1, 0, 7, 9] (by decide) .empty
  exact ⟨nonempty, reach, stated, closed, by decide, (joined.2.2.1 (by decide)).2⟩

end NfcPolling.CompleteRecords
