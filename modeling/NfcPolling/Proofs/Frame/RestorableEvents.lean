import NfcPolling.Proofs.Frame.WrittenFrames

/-! Which events survive being written as one record and decoded again: those
that know their type, gain and timestamp and whose payload is exactly what the
record of their type can carry. The other direction needs an argument about data
too long for the length byte, where the decoder reads the data itself as records. -/
namespace NfcPolling.RestorableEvents
open NfcPolling.Frame ScanView EventMerge CompleteRecords WrittenFrames

/-- The type is one for which there is a tag other than that of an unknown technology. -/
def HasOwnTag (e : Event) : Prop := ∃ letter ∈ Bytes.ascii "OXABF", e.type = some letter

/-- All that a record stores is known, and the payload is there exactly when the
record has room for one, no longer than the length byte can say. -/
def Restorable (e : Event) : Prop :=
  e.type.isSome ∧ e.gain.isSome ∧ e.timestamp.isSome ∧
    ((e.type = some (Bytes.ofChar 'U') ∧ ∃ data, e.payload = some data ∧ data.length ≤ 249) ∨
      (HasOwnTag e ∧ e.payload = none))

/-- A record written for a type with a tag of its own gives the type back and no payload. -/
theorem own_tag_said {e : Event} (own : HasOwnTag e) :
    (Content.ofEvent e).data.length ≤ 249 ∧
      saidOf (.ofEvent e) none = ⟨e.type, some (e.gain.getD 0), some (e.timestamp.getD 0), none⟩ := by
  obtain ⟨letter, member, typed⟩ := own
  obtain ⟨type, gain, timestamp, payload⟩ := e
  obtain rfl : type = some letter := typed
  have letters : letter = Bytes.ofChar 'O' ∨ letter = Bytes.ofChar 'X' ∨
      letter = Bytes.ofChar 'A' ∨ letter = Bytes.ofChar 'B' ∨ letter = Bytes.ofChar 'F' := by
    simpa [Bytes.ascii] using member
  rcases letters with rfl | rfl | rfl | rfl | rfl
  all_goals exact ⟨Nat.le_of_ble_eq_true rfl, rfl⟩

/-- Any other event is written as one of unknown technology, with its payload as data. -/
theorem unknown_content {e : Event} (unknown : ¬ HasOwnTag e) :
    Content.ofEvent e = ⟨7, e.gain.getD 0, e.timestamp.getD 0, e.payload.getD []⟩ := by
  obtain ⟨type, gain, timestamp, payload⟩ := e
  cases type with
  | none => rfl
  | some letter =>
    have other : ∀ tagged ∈ Bytes.ascii "OXABF", letter ≠ tagged := by
      rintro tagged member rfl
      exact unknown ⟨letter, member, rfl⟩
    simp [Bytes.ascii] at other
    simp [Content.ofEvent, other]

private theorem unknown_said {e : Event} (unknown : ¬ HasOwnTag e) :
    saidOf (.ofEvent e) none = ⟨some (Bytes.ofChar 'U'), some (e.gain.getD 0),
      some (e.timestamp.getD 0), some (e.payload.getD [])⟩ := by
  rw [unknown_content unknown]
  simp [saidOf, letterFor]

/-- An event is decoded to what its record alone tells, complete or not. -/
theorem decode_event {e : Event} (short : (Content.ofEvent e).data.length ≤ 255) (held : Event) :
    ((Draft.empty.event e).frame.decode held).accepted = true ∧
      ((Draft.empty.event e).frame.decode held).event =
        merge (told (Content.ofEvent e).encode) := by
  have fits : (draftOf [Content.ofEvent e]).bytes.length ≤ maxFrameLength := by
    simp only [draft_bytes, List.flatMap_cons, List.flatMap_nil, List.length_append,
      Content.encode, Bytes.length_toLittleEndian, List.length_cons, List.length_nil, maxFrameLength]
    omega
  have decoded := decode_draft (List.cons_ne_nil (Content.ofEvent e) []) fits held
  simp only [List.flatMap_cons, List.flatMap_nil, List.append_nil] at decoded
  exact decoded

/-- A record that is complete gives back all that it was written from. -/
theorem complete_merged {content : Content} (small : content.data.length ≤ 249) :
    merge (told content.encode) = saidOf content none := by
  have smallAll : ∀ other ∈ [content], other.data.length ≤ 249 := by simpa using small
  have alone : told ([content].flatMap Content.encode) = [saidOf content none] := by
    apply List.ext_getElem?
    intro i
    rw [told_written smallAll]
    cases i <;> rfl
  rw [List.flatMap_cons, List.flatMap_nil, List.append_nil] at alone
  rw [alone, merge_singleton]

private theorem data_bound (length : UInt8) (bytes : Bytes) :
    (dataOf length bytes).length ≤ bytes.length - dataOffset ∧
      (dataOf length bytes).length ≤ timestampOffset + length.toNat - dataOffset := by
  simp only [dataOf, List.length_drop, List.length_take]
  omega

private theorem news_payload {position : Nat} {length tag : UInt8} {bytes data : Bytes}
    (payload : (news (recordOf position length tag bytes)).payload = some data) :
    data = dataOf length bytes := by
  rw [news, recordOf, payload_observed] at payload
  split at payload
  · exact (Option.some.inj payload).symm
  · cases payload

/-- No payload is longer than the bytes behind the first eight. -/
theorem told_payload_bound (bytes : Bytes) {e : Event} (member : e ∈ told bytes) {data : Bytes}
    (payload : e.payload = some data) : data.length ≤ bytes.length - dataOffset := by
  induction size : bytes.length using Nat.strongRecOn generalizing bytes with
  | ind n ih =>
    rcases told_cases bytes with nothing | ⟨length, flags, tag, body, shape, step⟩
    · rw [nothing] at member
      cases member
    · rw [step] at member
      rcases List.mem_cons.mp member with rfl | later
      · rw [news_payload payload, ← size]
        exact (data_bound length bytes).1
      · have positive : 0 < bytes.length := by simp [shape]
        have smaller : (bytes.drop (length.toNat + lengthOverhead)).length < n := by
          rw [List.length_drop, lengthOverhead]
          omega
        have bound := ih _ smaller _ later rfl
        omega

/-- Data that overruns the length byte never comes back. -/
theorem overrun_lost {content : Content} (long : 250 ≤ content.data.length)
    (short : content.data.length ≤ 255) :
    (merge (told content.encode)).payload ≠ some content.data := by
  intro kept
  obtain ⟨e, member, payload⟩ := payload_from kept
  have wrapped : content.lengthByte.toNat = content.data.length - 250 := by
    rw [Content.lengthByte, UInt8.toNat_ofNat']
    omega
  have size : content.encode.length = 8 + content.data.length := by
    simp [Content.encode, Bytes.length_toLittleEndian]
    omega
  rcases told_cases content.encode with nothing | ⟨length, flags, tag, body, shape, step⟩
  · rw [nothing] at member
    cases member
  · have first : content.lengthByte = length := (List.cons.inj shape).1
    rw [step] at member
    rcases List.mem_cons.mp member with rfl | later
    -- The record itself claims at most five bytes, so its own payload is empty.
    · have bound := (data_bound length content.encode).2
      rw [← news_payload payload, ← first, wrapped, timestampOffset, dataOffset] at bound
      omega
    -- What is read behind it starts at least two bytes later and is too short.
    · have bound := told_payload_bound _ later payload
      rw [List.length_drop, size, lengthOverhead, dataOffset] at bound
      omega

private theorem own_not_unknown {e : Event} (own : HasOwnTag e) :
    e.type ≠ some (Bytes.ofChar 'U') := by
  obtain ⟨letter, member, typed⟩ := own
  rw [typed]
  rintro same
  rw [Option.some.inj same] at member
  exact absurd member (by decide)

private theorem known_iff {value : Option α} {fallback : α} :
    some (value.getD fallback) = value ↔ value.isSome := by
  cases value <;> simp

private theorem own_restored {e : Event} (own : HasOwnTag e) :
    ⟨e.type, some (e.gain.getD 0), some (e.timestamp.getD 0), none⟩ = e ↔ Restorable e := by
  have typed : e.type.isSome := by
    obtain ⟨letter, _, typed⟩ := own
    rw [typed]
    rfl
  have known : Restorable e ↔ e.gain.isSome ∧ e.timestamp.isSome ∧ e.payload = none := by
    simp only [Restorable, typed, own_not_unknown own, own, true_and, false_and, false_or]
  obtain ⟨type, gain, timestamp, payload⟩ := e
  rw [known, Event.mk.injEq, known_iff, known_iff]
  simp only [true_and, eq_comm]

private theorem unknown_restored {e : Event} (unknown : ¬ HasOwnTag e)
    (small : (e.payload.getD []).length ≤ 249) :
    ⟨some (Bytes.ofChar 'U'), some (e.gain.getD 0), some (e.timestamp.getD 0),
      some (e.payload.getD [])⟩ = e ↔ Restorable e := by
  obtain ⟨type, gain, timestamp, payload⟩ := e
  rw [Event.mk.injEq, known_iff, known_iff, known_iff]
  constructor
  · rintro ⟨rfl, gained, timed, held⟩
    obtain ⟨data, rfl⟩ := Option.isSome_iff_exists.mp held
    exact ⟨rfl, gained, timed, Or.inl ⟨rfl, data, rfl, small⟩⟩
  · rintro ⟨_, gained, timed, ⟨rfl, data, rfl, _⟩ | ⟨own, _⟩⟩
    · exact ⟨rfl, gained, timed, rfl⟩
    · exact absurd own unknown

/-- What a complete record gives back is the event exactly when it is restorable. -/
theorem complete_restored {e : Event} (small : (Content.ofEvent e).data.length ≤ 249) :
    saidOf (.ofEvent e) none = e ↔ Restorable e := by
  by_cases own : HasOwnTag e
  · rw [(own_tag_said own).2]
    exact own_restored own
  · rw [unknown_content own] at small
    rw [unknown_said own]
    exact unknown_restored own small

/-- Data that overruns the length byte is the payload of an event that is not restorable. -/
theorem overrun_payload {e : Event} (long : 250 ≤ (Content.ofEvent e).data.length) :
    e.payload = some (Content.ofEvent e).data ∧ ¬ Restorable e := by
  have unknown : ¬ HasOwnTag e := fun own => by
    have small := (own_tag_said own).1
    omega
  rw [unknown_content unknown] at long ⊢
  cases payload : e.payload with
  | none =>
    rw [payload] at long
    exact absurd long (Nat.not_succ_le_zero 249)
  | some data =>
    rw [payload] at long
    refine ⟨rfl, ?_⟩
    rintro ⟨_, _, _, ⟨_, held, same, room⟩ | ⟨own, _⟩⟩
    · rw [payload] at same
      rw [← Option.some.inj same] at room
      exact absurd long (Nat.not_le_of_lt (Nat.lt_succ_of_le room))
    · exact unknown own

private theorem data_short {e : Event}
    (bounded : ¬ HasOwnTag e → ∀ data, e.payload = some data → data.length ≤ 255) :
    (Content.ofEvent e).data.length ≤ 255 := by
  by_cases own : HasOwnTag e
  · exact Nat.le_trans (own_tag_said own).1 (by decide)
  · rw [unknown_content own]
    cases payload : e.payload with
    | none => exact Nat.zero_le _
    | some data => exact bounded own data payload

/-- Writing an event and decoding it again always succeeds, gives the event back
exactly when it is restorable, and never gives back 250 or more bytes of payload. -/
theorem decode_event_eq_iff (e held : Event)
    (bounded : ¬ HasOwnTag e → ∀ data, e.payload = some data → data.length ≤ 255) :
    let decoding := (Draft.empty.event e).frame.decode held
    decoding.accepted = true ∧ (decoding.event = e ↔ Restorable e) ∧
      (e.type = some (Bytes.ofChar 'U') → ∀ data, e.payload = some data → 250 ≤ data.length →
        decoding.event.payload ≠ some data) := by
  have short := data_short bounded
  obtain ⟨accepted, event⟩ := decode_event short held
  refine ⟨accepted, ?_⟩
  -- Either the record is complete, or its length byte has wrapped around.
  rcases Nat.lt_or_ge (Content.ofEvent e).data.length 250 with small | long
  · have small := Nat.le_of_lt_succ small
    rw [event, complete_merged small]
    refine ⟨complete_restored small, fun unknown data payload overrun => ?_⟩
    rw [unknown_content fun own => own_not_unknown own unknown, payload] at small
    exact absurd small (Nat.not_le_of_lt overrun)
  · obtain ⟨payload, lossy⟩ := overrun_payload long
    have lost := overrun_lost long short
    rw [← event, ← payload] at lost
    refine ⟨⟨fun same => ?_, fun restorable => absurd restorable lossy⟩, fun _ data same _ => ?_⟩
    · exact absurd (congrArg Event.payload same) lost
    · rw [← same]
      exact lost

/-- One byte of payload more than the length byte can say. Read as records, the
payload holds many complete ones. -/
def overlong : Event :=
  ⟨some (Bytes.ofChar 'U'), some (-1), some 7, some (List.replicate 250 6)⟩

theorem overlong_not_restored :
    (¬ HasOwnTag overlong → ∀ data, overlong.payload = some data → data.length ≤ 255) ∧
    ((Draft.empty.event overlong).frame.decode .empty).accepted = true ∧
    ((Draft.empty.event overlong).frame.decode .empty).event ≠ overlong ∧
    ((Draft.empty.event overlong).frame.decode .empty).event.payload ≠
      some (List.replicate 250 6) := by
  have bounded : ¬ HasOwnTag overlong → ∀ data, overlong.payload = some data →
      data.length ≤ 255 := by
    intro _ data payload
    rw [← Option.some.inj payload, List.length_replicate]
    decide
  obtain ⟨accepted, _, lost⟩ := decode_event_eq_iff overlong .empty bounded
  have differs := lost rfl (List.replicate 250 6) rfl
    (Nat.le_of_eq List.length_replicate.symm)
  exact ⟨bounded, accepted, fun same => differs (by rw [same]; rfl), differs⟩

end NfcPolling.RestorableEvents
