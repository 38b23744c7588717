import NfcPolling.Proofs.Frame.RecordStarts
import NfcPolling.Proofs.Frame.StoredFields

/-! Which parts a decoded event knows. Gain and timestamp are known when the first record
is accepted and the frame reaches that far, since no later record reaches further back; a
payload never comes without a type and is a piece of the frame. -/
namespace NfcPolling.KnownParts
open NfcPolling.Frame ScanView EventMerge RecordStarts StoredFields

/-- Something is kept exactly when something was written. -/
theorem last_write_known {writes : Nat → Option α} {kept : Option α} (last : LastWrite writes kept) :
    kept.isSome ↔ ∃ k, (writes k).isSome := by
  cases kept with
  | none => simp [show ∀ k, writes k = none from last]
  | some value =>
    obtain ⟨k, wrote, -⟩ := last
    exact ⟨fun _ => ⟨k, by rw [wrote]; rfl⟩, fun _ => rfl⟩

theorem last_write_from {writes : Nat → Option α} {value : α} (last : LastWrite writes (some value)) :
    ∃ k, writes k = some value :=
  last.imp fun _ => And.left

section Frame
variable {bytes : Bytes}

theorem written_part_iff {part : Event → Option α} {k : Nat} {value : α} :
    (written bytes k).bind part = some value ↔
      Accepted bytes k ∧ part (writtenAt bytes (start bytes k)) = some value := by
  rw [written]
  by_cases accepted : Accepted bytes k
  · simp [accepted]
  · simp [accepted]

/-- A payload is data behind the eighth byte of a record with the tag of an unknown
technology, which writes a type as well. -/
theorem payload_written {c : Nat} {data : Bytes} (payload : (writtenAt bytes c).payload = some data) :
    letterAt bytes c = some (Bytes.ofChar 'U') ∧
      data = bytes.extract (c + 8) (min (c + 3 + (byteAt bytes c).toNat) bytes.length) := by
  obtain ⟨tag, same⟩ := Option.ite_none_right_eq_some.mp payload
  refine ⟨?_, (Option.some.inj same).symm⟩
  rw [letterAt, tag]
  rfl

theorem piece_of_frame {c : Nat} (behind : 2 ≤ c) {data : Bytes} (filled : data ≠ [])
    (piece : data = bytes.extract (c + 8) (min (c + 3 + (byteAt bytes c).toNat) bytes.length)) :
    data.length ≤ min 250 (bytes.length - 10) ∧
      ∃ i, 10 ≤ i ∧ i + data.length ≤ bytes.length ∧ data = bytes.extract i (i + data.length) := by
  have width := (byteAt bytes c).toNat_lt
  have size : data.length =
      min (min (c + 3 + (byteAt bytes c).toNat) bytes.length - (c + 8)) (bytes.length - (c + 8)) := by
    rw [piece, List.extract_eq_take_drop, List.length_take, List.length_drop]
  have positive := List.length_pos_iff.mpr filled
  refine ⟨by omega, c + 8, by omega, by omega, ?_⟩
  have ending : min (c + 3 + (byteAt bytes c).toNat) bytes.length = c + 8 + data.length := by omega
  rwa [ending] at piece

variable (long : 5 ≤ bytes.length)
include long

theorem first_readable_iff : Readable bytes 2 ↔ (byteAt bytes 2).toNat ≤ bytes.length - 3 := by
  rw [Readable]
  omega

/-- A part that every record writes when the frame reaches so far behind its start is
known when that holds of the first record and it is accepted. -/
theorem part_known_iff {part : Event → Option α} {offset : Nat} {kept : Option α}
    (last : LastWrite (fun k => (written bytes k).bind part) kept)
    (reaches : ∀ c, (part (writtenAt bytes c)).isSome ↔ c + offset ≤ bytes.length) :
    kept.isSome ↔ 2 + offset ≤ bytes.length ∧ (byteAt bytes 2).toNat ≤ bytes.length - 3 := by
  rw [last_write_known last, ← first_readable_iff long]
  simp only [Option.isSome_iff_exists, written_part_iff] at reaches ⊢
  constructor
  · rintro ⟨k, value, accepted, wrote⟩
    have within := (reaches _).mp ⟨value, wrote⟩
    have grown := start_grows bytes k
    exact ⟨by omega, accepted 0 (Nat.zero_le k)⟩
  · rintro ⟨within, readable⟩
    obtain ⟨value, wrote⟩ := (reaches 2).mpr within
    refine ⟨0, value, fun j upto => ?_, wrote⟩
    obtain rfl := Nat.le_zero.mp upto
    exact readable

/-- Without a first record nothing is known. -/
theorem nothing_known (unread : bytes.length - 3 < (byteAt bytes 2).toNat) {e : Event}
    (kept : KeepsLast (written bytes) e) : e = .empty := by
  have silent : written bytes = fun _ => none := by
    funext k
    rw [written, if_neg]
    intro accepted
    have first := (first_readable_iff long).mp (accepted 0 (Nat.zero_le k))
    omega
  rw [silent] at kept
  exact keeps_last_unique kept ⟨fun _ => rfl, fun _ => rfl, fun _ => rfl, fun _ => rfl⟩

end Frame

/-- The letters of the types that a frame can tell. -/
def letters : Bytes := Bytes.ascii "OXABFU"

theorem letter_listed {bytes : Bytes} {c : Nat} {letter : UInt8}
    (told : letterAt bytes c = some letter) : letter ∈ letters := by
  unfold letterAt at told
  repeat' split at told
  all_goals cases told
  all_goals decide

/-- What a decoded event knows, of a frame of at least five bytes with any content. Gain
and timestamp depend on the length of the frame and on the first length byte alone, and
without a first record nothing is known. A payload comes with a type; when there is
something in it, it is a piece of the frame behind the first ten bytes. Where an event is
kept as flags beside values, every value without its flag is the default, whatever was
stored before. -/
theorem known_parts {bytes : Bytes} (long : 5 ≤ bytes.length)
    (short : bytes.length ≤ maxFrameLength) (held : Event) :
    let e := ((present bytes short).decode held).event
    (e.timestamp.isSome ↔
      9 ≤ bytes.length ∧ (byteAt bytes 2).toNat ≤ bytes.length - 3) ∧
    (e.gain.isSome ↔ 10 ≤ bytes.length ∧ (byteAt bytes 2).toNat ≤ bytes.length - 3) ∧
    (e.gain.isSome → e.timestamp.isSome) ∧
    (bytes.length - 3 < (byteAt bytes 2).toNat → e = .empty) ∧
    (e.payload.isSome → e.type.isSome) ∧
    (∀ letter, e.type = some letter → letter ∈ letters) ∧
    (∀ data, e.payload = some data → data ≠ [] →
      data.length ≤ min 250 (bytes.length - 10) ∧
        ∃ i, 10 ≤ i ∧ i + data.length ≤ bytes.length ∧
          data = bytes.extract i (i + data.length)) ∧
    ∀ stored : Fields, stored.setAll (changesIn (present bytes short)) = ofEvent e ∧
      Settled (stored.setAll (changesIn (present bytes short))) := by
  intro e
  have kept : KeepsLast (written bytes) e := decode_written long short held
  have timestamp : e.timestamp.isSome ↔ _ :=
    part_known_iff long kept.timestamp fun _ => Option.isSome_ite
  have gain : e.gain.isSome ↔ _ := part_known_iff long kept.gain fun _ => Option.isSome_ite
  refine ⟨timestamp, gain, fun known => ?_, fun unread => nothing_known long unread kept, ?typed,
    ?listed, ?piece, fun stored => ?_⟩
  · have reached := gain.mp known
    exact timestamp.mpr ⟨by omega, reached.2⟩
  case typed =>
    intro known
    obtain ⟨data, some⟩ := Option.isSome_iff_exists.mp known
    obtain ⟨k, wrote⟩ := last_write_from (some ▸ kept.payload)
    obtain ⟨accepted, payload⟩ := written_part_iff.mp wrote
    have lettered : (writtenAt bytes (start bytes k)).type = _ := (payload_written payload).1
    rw [last_write_known kept.type]
    exact ⟨k, Option.isSome_iff_exists.mpr ⟨_, written_part_iff.mpr ⟨accepted, lettered⟩⟩⟩
  case listed =>
    intro letter known
    obtain ⟨k, wrote⟩ := last_write_from (known ▸ kept.type)
    exact letter_listed (written_part_iff.mp wrote).2
  case piece =>
    intro data known filled
    obtain ⟨k, wrote⟩ := last_write_from (known ▸ kept.payload)
    have payload := payload_written (written_part_iff.mp wrote).2
    have grown := start_grows bytes k
    exact piece_of_frame (by omega) filled payload.2
  · rw [stored_decode long short held stored]
    exact ⟨rfl, settled_ofEvent e⟩

/-- A frame of unknown technology whose length byte reaches one byte beyond its end. -/
def cutFrame : Bytes := [0, 0, 10, 0, 7, 1, 0, 0, 0, 200, 170, 187, 9]

theorem known_in_cut_frame :
    let e := ((present cutFrame (by decide)).decode .empty).event
    5 ≤ cutFrame.length ∧ cutFrame.length ≤ maxFrameLength ∧ e.timestamp.isSome ∧ e.gain.isSome ∧
    e.payload = some [170, 187, 9] ∧ e.type.isSome ∧
    (∃ i, 10 ≤ i ∧ i + 3 ≤ cutFrame.length ∧ [170, 187, 9] = cutFrame.extract i (i + 3)) ∧
    Settled (Fields.setAll ⟨true, 65, false, 3, true, 4, false, [5]⟩
      (changesIn (present cutFrame (by decide)))) := by
  have payload : ((present cutFrame (by decide)).decode .empty).event.payload =
      some [170, 187, 9] := by cbv
  obtain ⟨timestamp, gain, _, _, typed, _, piece, stored⟩ :=
    known_parts (show 5 ≤ cutFrame.length by decide) (by decide) .empty
  exact ⟨by decide, by decide, timestamp.mpr (by decide), gain.mpr (by decide), payload,
    typed (by rw [payload]; rfl), (piece _ payload (by simp)).2, (stored _).2⟩

end NfcPolling.KnownParts
