import NfcPolling.Frame.Encode
import NfcPolling.Proofs.Frame.CompleteRecords

/-! Frames written record by record decode to what was written, the last write
of each part standing. The law is not a plain inverse: a record of unknown
technology and a field change without data read the length byte of the record
that follows, and the statement says so for every position in the frame. -/
namespace NfcPolling.WrittenFrames
open NfcPolling.Frame ScanView EventMerge CompleteRecords

/-- The draft with all of these records, in order. -/
def draftOf (contents : List Content) : Draft := contents.foldl Draft.record .empty

private theorem bytes_of_foldl (draft : Draft) (contents : List Content) :
    (contents.foldl Draft.record draft).bytes = draft.bytes ++ contents.flatMap Content.encode := by
  induction contents generalizing draft with
  | nil => simp
  | cons first more ih =>
    rw [List.foldl_cons, ih, List.flatMap_cons, ← List.append_assoc]
    rfl

theorem draft_bytes (contents : List Content) :
    (draftOf contents).bytes = [0, 0] ++ contents.flatMap Content.encode :=
  bytes_of_foldl .empty contents

/-- A draft that fits sixteen bits becomes a frame with all of its bytes. -/
theorem frame_of_draft (draft : Draft) (short : draft.bytes.length ≤ maxFrameLength) :
    draft.frame = present draft.bytes short := by
  have width : (UInt16.ofNat draft.bytes.length).toNat = draft.bytes.length :=
    UInt16.toNat_ofNat_of_lt' (Nat.lt_succ_of_le short)
  simp only [Draft.frame, ofData, width, List.take_length]

private theorem draft_body (contents : List Content) :
    (draftOf contents).bytes.drop headerLength = contents.flatMap Content.encode := by
  rw [draft_bytes]
  rfl

private theorem draft_long {contents : List Content} (nonempty : contents ≠ []) :
    5 ≤ (draftOf contents).bytes.length := by
  obtain ⟨first, more, rfl⟩ := List.exists_cons_of_ne_nil nonempty
  simp only [draft_bytes, List.flatMap_cons, List.length_append, Content.encode,
    Bytes.length_toLittleEndian, List.length_cons]
  omega

/-- A draft with a record in it is decoded, to what its records tell. -/
theorem decode_draft {contents : List Content} (nonempty : contents ≠ [])
    (short : (draftOf contents).bytes.length ≤ maxFrameLength) (held : Event) :
    ((draftOf contents).frame.decode held).accepted = true ∧
      ((draftOf contents).frame.decode held).event =
        merge (told (contents.flatMap Content.encode)) := by
  rw [frame_of_draft _ short, ← draft_body]
  exact decode_told (draft_long nonempty) short held

theorem length_written {content : Content} (small : content.data.length ≤ 249) :
    content.lengthByte.toNat = 6 + content.data.length :=
  UInt8.toNat_ofNat_of_lt' (by simp only [UInt8.size]; omega)

/-- A record whose data leaves room in the length byte is complete. -/
def completeOf (content : Content) (small : content.data.length ≤ 249) : Complete where
  length := content.lengthByte
  flags := 0
  tag := content.tag
  body := Bytes.toLittleEndian 4 content.timestamp.toNat ++ content.gain.toUInt8 :: content.data
  whole := by
    rw [length_written small, List.length_append, Bytes.length_toLittleEndian, List.length_cons]
    omega

theorem bytes_complete (content : Content) (small : content.data.length ≤ 249) :
    bytesOf (completeOf content small) = content.encode := by
  simp [bytesOf, completeOf, Content.encode]

/-- What a written record says in front of the next one, if there is one. -/
def saidOf (content : Content) (next : Option Content) : Event where
  type := letterFor content.tag (content.data ++ next.toList.map Content.lengthByte).head?
  gain := some content.gain
  timestamp := some content.timestamp
  payload :=
    if content.tag = 7 then some (content.data ++ next.toList.map Content.lengthByte) else none

theorem said_written (content : Content) (small : content.data.length ≤ 249)
    {tail : Bytes} {next : Option Content}
    (follows : tail.take 1 = next.toList.map Content.lengthByte) :
    saidBefore (completeOf content small) tail = saidOf content next := by
  have word := Bytes.length_toLittleEndian 4 content.timestamp.toNat
  have body : (completeOf content small).body =
    Bytes.toLittleEndian 4 content.timestamp.toNat ++ content.gain.toUInt8 :: content.data := rfl
  have data : dataBefore (completeOf content small) tail =
      content.data ++ next.toList.map Content.lengthByte := by
    rw [dataBefore, follows, body, List.drop_append, word, List.drop_of_length_le (by omega)]
    rfl
  have gain : (completeOf content small).body[4]?.map UInt8.toInt8 = some content.gain := by
    rw [body, List.getElem?_append_right (by omega), word]
    exact congrArg some (Int8.toInt8_toUInt8 content.gain)
  have timestamp : UInt32.ofNat (Bytes.littleEndian ((completeOf content small).body.take 4)) =
      content.timestamp := by
    have bound := content.timestamp.toNat_lt
    rw [body, List.take_left' word, Bytes.littleEndian_toLittleEndian, Nat.mod_eq_of_lt (by omega),
      UInt32.ofNat_toNat]
  rw [saidBefore, data, gain, timestamp]
  rfl

private theorem next_length (contents : List Content) :
    (contents.flatMap Content.encode).take 1 = contents[0]?.toList.map Content.lengthByte := by
  cases contents <;> rfl

/-- Written records are told one by one, each with a look at the next. -/
theorem told_written {contents : List Content}
    (small : ∀ content ∈ contents, content.data.length ≤ 249) (i : Nat) :
    (told (contents.flatMap Content.encode))[i]? =
      contents[i]?.map fun content => saidOf content contents[i + 1]? := by
  induction contents generalizing i with
  | nil => simp [told_short]
  | cons first more ih =>
    have firstSmall := small first (by simp)
    have reaches : 6 ≤ (completeOf first firstSmall).length.toNat := by
      rw [completeOf, length_written firstSmall]
      omega
    rw [List.flatMap_cons, ← bytes_complete first firstSmall, told_complete _ _ reaches,
      said_written first firstSmall (next_length more)]
    cases i with
    | zero => rfl
    | succ i => exact ih (fun content member => small content (by simp [member])) i

theorem written_without_fault {contents : List Content}
    (small : ∀ content ∈ contents, content.data.length ≤ 249) (position : Nat) :
    (scanFrom position (contents.flatMap Content.encode)).fault = none := by
  induction contents generalizing position with
  | nil =>
    rw [scanFrom]
    rfl
  | cons first more ih =>
    rw [List.flatMap_cons, ← bytes_complete first (small first (by simp)), scan_complete]
    exact ih (fun content member => small content (by simp [member])) _

/-- The payload that the `i`-th written record leaves: its data and, when another
record follows, that one's length byte. -/
def payloadWritten (contents : List Content) (i : Nat) : Option Bytes :=
  contents[i]?.bind fun content =>
    if content.tag = 7 then
      some (content.data ++
        contents[i + 1]?.elim [] fun next => [UInt8.ofNat (6 + next.data.length)])
    else none

/-- The letter that the `i`-th written record leaves. A field change without data
still means that the field is on when another record follows. -/
def letterWritten (contents : List Content) (i : Nat) : Option UInt8 :=
  contents[i]?.bind fun content =>
    if content.tag = 1 then some (Bytes.ofChar 'A')
    else if content.tag = 2 then some (Bytes.ofChar 'B')
    else if content.tag = 3 then some (Bytes.ofChar 'F')
    else if content.tag = 7 then some (Bytes.ofChar 'U')
    else if content.tag = 0 then
      match content.data with
      | state :: _ => some (if state = 0 then Bytes.ofChar 'X' else Bytes.ofChar 'O')
      | [] => if i + 1 < contents.length then some (Bytes.ofChar 'O') else none
    else none

private theorem payload_said {contents : List Content} (i : Nat) :
    ((contents[i]?.map fun content => saidOf content contents[i + 1]?).bind Event.payload) =
      payloadWritten contents i := by
  rw [payloadWritten]
  cases contents[i]? with
  | none => rfl
  | some content => cases contents[i + 1]? <;> rfl

private theorem letter_said {contents : List Content}
    (small : ∀ content ∈ contents, content.data.length ≤ 249) (i : Nat) :
    ((contents[i]?.map fun content => saidOf content contents[i + 1]?).bind Event.type) =
      letterWritten contents i := by
  rw [letterWritten]
  cases contents[i]? with
  | none => rfl
  | some content =>
    simp only [Option.map_some, Option.bind_some, saidOf, letterFor]
    by_cases field : content.tag = 0
    · simp only [field, ↓reduceIte, show (0 : UInt8) ≠ 1 by decide, show (0 : UInt8) ≠ 2 by decide,
        show (0 : UInt8) ≠ 3 by decide, show (0 : UInt8) ≠ 7 by decide]
      cases content.data with
      | cons state others => rfl
      | nil =>
        by_cases follows : i + 1 < contents.length
        · have member := List.getElem_mem follows
          have written : (contents[i + 1]).lengthByte ≠ 0 := by
            intro zero
            have size := length_written (small _ member)
            rw [zero] at size
            simp at size
            omega
          simp [follows, written]
        · simp [follows]
    · simp only [field, ↓reduceIte]

private theorem last_written {contents : List Content} (nonempty : contents ≠ [])
    {part : Event → Option α} {value : Content → α}
    (sure : ∀ content next, part (saidOf content next) = some (value content)) :
    LastWrite (fun i => (contents[i]?.map fun content => saidOf content contents[i + 1]?).bind part)
      (some (value (contents.getLast nonempty))) := by
  have last : contents[contents.length - 1]? = some (contents.getLast nonempty) := by
    rw [← List.getLast?_eq_getElem?, List.getLast?_eq_some_getLast nonempty]
  refine ⟨contents.length - 1, ?_, fun later after => ?_⟩
  · simp only [last, Option.map_some, Option.bind_some, sure]
  · have beyond : contents[later]? = none := List.getElem?_eq_none (by omega)
    simp only [beyond, Option.map_none, Option.bind_none]

/-- Decoding a frame of written records gives the last record's gain and
timestamp, the last payload and the last letter, and remarks no error. -/
theorem decode_written_records {contents : List Content} (nonempty : contents ≠ [])
    (small : ∀ content ∈ contents, content.data.length ≤ 249)
    (short : (draftOf contents).bytes.length ≤ maxFrameLength) (held : Event) :
    let decoding := (draftOf contents).frame.decode held
    decoding.accepted = true ∧ (∀ notice ∈ decoding.notices, notice.severity ≠ .error) ∧
      decoding.event.gain = some (contents.getLast nonempty).gain ∧
      decoding.event.timestamp = some (contents.getLast nonempty).timestamp ∧
      LastWrite (payloadWritten contents) decoding.event.payload ∧
      LastWrite (letterWritten contents) decoding.event.type := by
  obtain ⟨accepted, event⟩ := decode_draft nonempty short held
  have kept := merge_keeps_last (told (contents.flatMap Content.encode))
  simp only [told_written small, ← event] at kept
  refine ⟨accepted, ?_, ?_, ?_, ?_, ?_⟩
  · intro notice remarked severe
    rw [frame_of_draft _ short, decode_present (draft_long nonempty) short held] at remarked
    rcases List.mem_append.mp remarked with scanned | final
    · obtain ⟨fault, ended, _⟩ := error_is_fault scanned severe
      rw [draft_body, written_without_fault small] at ended
      cases ended
    · rw [List.mem_singleton.mp final] at severe
      cases severe
  · exact last_write_unique kept.gain (last_written nonempty fun _ _ => rfl)
  · exact last_write_unique kept.timestamp (last_written nonempty fun _ _ => rfl)
  · have payload := kept.payload
    simp only [payload_said] at payload
    exact payload
  · have letter := kept.type
    simp only [letter_said small] at letter
    exact letter

/-- A payload that the next length byte lengthens, a field change whose state is
the next length byte, and a last record that leaves only gain and timestamp. -/
def runningOver : List Content :=
  [⟨7, -3, 1, [10, 11]⟩, ⟨0, 4, 2, []⟩, ⟨9, -128, 4294967295, [1]⟩]

theorem decode_records_running_over :
    runningOver ≠ [] ∧ (∀ content ∈ runningOver, content.data.length ≤ 249) ∧
    (draftOf runningOver).bytes.length ≤ maxFrameLength ∧
    ((draftOf runningOver).frame.decode .empty).event.gain = some (-128) ∧
    LastWrite (payloadWritten runningOver) (some [10, 11, 6]) ∧
    LastWrite (letterWritten runningOver) (some (Bytes.ofChar 'O')) := by
  have nonempty : runningOver ≠ [] := by simp [runningOver]
  have small : ∀ content ∈ runningOver, content.data.length ≤ 249 := by decide
  have short : (draftOf runningOver).bytes.length ≤ maxFrameLength := by decide
  obtain ⟨_, _, gain, _, payload, letter⟩ := decode_written_records nonempty small short .empty
  have event : ((draftOf runningOver).frame.decode .empty).event =
      ⟨some (Bytes.ofChar 'O'), some (-128), some 4294967295, some [10, 11, 6]⟩ := by cbv
  rw [event] at payload letter
  exact ⟨nonempty, small, short, gain, payload, letter⟩

end NfcPolling.WrittenFrames
