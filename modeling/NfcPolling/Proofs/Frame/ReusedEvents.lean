import NfcPolling.Proofs.Frame.EventMerge
import NfcPolling.Proofs.Frame.StoredFields

/-! One event that many frames are decoded over, one after the other. A frame that is
dropped leaves it as it is, any other frame replaces all of it, so in the end it is the
event of the last frame that was accepted, whatever came before. -/
namespace NfcPolling.ReusedEvents
open NfcPolling.Frame ScanView EventMerge StoredFields

/-- There is no data, or there are fewer than five bytes of it. -/
def Dropped : Frame → Prop
  | absent _ => True
  | present bytes _ => bytes.length < 5

instance : DecidablePred Dropped
  | absent _ => inferInstanceAs (Decidable True)
  | present bytes _ => inferInstanceAs (Decidable (bytes.length < 5))

/-- The event after all the frames. -/
def after (held : Event) (frames : List Frame) : Event :=
  frames.foldl (fun e frame => (frame.decode e).event) held

/-- What is stored in place after a frame: nothing is touched for a dropped one, and
the fields are set one by one for any other. -/
def fill (stored : Fields) (frame : Frame) : Fields :=
  if Dropped frame then stored else stored.setAll (changesIn frame)

/-- The event of a frame on its own, when it is accepted. -/
def alone (frame : Frame) : Option Event :=
  if (frame.decode .empty).accepted then some (frame.decode .empty).event else none

/-- A frame is either dropped, or forgets the event that it is decoded over. -/
theorem decode_cases (frame : Frame) :
    (Dropped frame ∧ alone frame = none ∧
        ∀ held, (frame.decode held).accepted = false ∧ (frame.decode held).event = held) ∨
      ∃ e, ¬ Dropped frame ∧ alone frame = some e ∧
        (∀ held, (frame.decode held).accepted = true ∧ (frame.decode held).event = e) ∧
        ∀ stored : Fields, stored.setAll (changesIn frame) = ofEvent e := by
  cases frame with
  | absent claimed => exact .inl ⟨trivial, rfl, fun _ => ⟨rfl, rfl⟩⟩
  | present bytes short =>
    by_cases long : minLength ≤ bytes.length
    · have decoded (held : Event) := decode_present long short held
      refine .inr ⟨_, Nat.not_lt_of_le long, ?_, ?_, stored_decode long short .empty⟩
      · rw [alone, decoded]
        rfl
      · intro held
        rw [decoded, decoded]
        exact ⟨rfl, rfl⟩
    · have few : bytes.length < 5 := Nat.lt_of_not_le long
      have dropped (held : Event) : (present bytes short).decode held =
          ⟨false, held, [.tooShort bytes.length]⟩ := if_pos few
      refine .inl ⟨few, ?_, fun held => ?_⟩
      · rw [alone, dropped]
        rfl
      · rw [dropped]
        exact ⟨rfl, rfl⟩

/-- A call sees the event that the frames before it have left. -/
theorem call_at (held : Event) (frames : List Frame) (k : Nat) :
    (decodeAll held frames)[k]? =
      frames[k]?.map fun frame => frame.decode (after held (frames.take k)) := by
  induction frames generalizing held k with
  | nil => rfl
  | cons first rest ih =>
    cases k with
    | zero => rfl
    | succ k => exact ih (first.decode held).event k

theorem length_decodeAll (held : Event) (frames : List Frame) :
    (decodeAll held frames).length = frames.length := by
  induction frames generalizing held with
  | nil => rfl
  | cons first rest ih => exact congrArg Nat.succ (ih _)

theorem after_concat (held : Event) (earlier : List Frame) (last : Frame) :
    after held (earlier ++ [last]) = (last.decode (after held earlier)).event :=
  List.foldl_append

/-- The last accepted frame decides the event and all that is stored for it. -/
theorem after_last_write (frames : List Frame) :
    ∃ kept, LastWrite (fun k : Nat => frames[k]?.bind alone) kept ∧
      (∀ held, after held frames = kept.getD held) ∧
      ∀ stored, frames.foldl fill stored = (kept.map ofEvent).getD stored := by
  -- The frame at the end is dropped and changes nothing, or is accepted and decides.
  induction frames using List.reverseRecOn with
  | nil => exact ⟨none, fun _ => rfl, fun _ => rfl, fun _ => rfl⟩
  | append_singleton earlier last ih =>
    obtain ⟨kept, written, event, inPlace⟩ := ih
    refine ⟨_, last_write_concat last written, ?_, ?_⟩
    · intro held
      rw [after_concat]
      rcases decode_cases last with ⟨_, silent, dropped⟩ | ⟨e, _, told, accepted, _⟩
      · rw [(dropped _).2, silent, event]
        rfl
      · rw [(accepted _).2, told]
        rfl
    · intro stored
      rw [List.foldl_append, List.foldl_cons, List.foldl_nil, fill]
      rcases decode_cases last with ⟨few, silent, _⟩ | ⟨e, enough, told, _, filled⟩
      · rw [if_pos few, silent, inPlace]
        rfl
      · rw [if_neg enough, told, filled]
        rfl

/-- Frames of any kind are decoded in turn over one event. A call answers false exactly
when its frame has no data or fewer than five bytes, and then leaves the event as it was.
In the end the event is the one that the last accepted frame gives on its own, and the
first event if none was accepted; the same holds of the fields in which an event is
stored, whatever was in them. -/
theorem last_accepted_frame_remains (frames : List Frame) :
    ∃ kept, LastWrite (fun k : Nat => frames[k]?.bind alone) kept ∧
      (∀ stored, frames.foldl fill stored = (kept.map ofEvent).getD stored) ∧
      ∀ held, after held frames = kept.getD held ∧
        (decodeAll held frames).length = frames.length ∧
        ∀ k frame, frames[k]? = some frame → ∃ call,
          (decodeAll held frames)[k]? = some call ∧
          (call.accepted = false ↔ Dropped frame) ∧
          (call.accepted = false → call.event = after held (frames.take k)) ∧
          call.event = after held (frames.take (k + 1)) := by
  obtain ⟨kept, written, event, inPlace⟩ := after_last_write frames
  refine ⟨kept, written, inPlace, fun held => ⟨event held, length_decodeAll held frames, ?_⟩⟩
  intro k frame here
  let call := frame.decode (after held (frames.take k))
  have called : (decodeAll held frames)[k]? = some call := by
    rw [call_at, here]
    rfl
  have left : call.event = after held (frames.take (k + 1)) := by
    rw [List.take_add_one, here, Option.toList_some, after_concat]
  refine ⟨call, called, ?_, ?_, left⟩
  · rcases decode_cases frame with ⟨few, _, dropped⟩ | ⟨e, enough, _, accepted, _⟩
    · exact iff_of_true (dropped _).1 few
    · exact iff_of_false (by simp [call, (accepted _).1]) enough
  · intro refused
    rcases decode_cases frame with ⟨_, _, dropped⟩ | ⟨e, _, _, accepted, _⟩
    · exact (dropped _).2
    · exact absurd refused (by simp [call, (accepted _).1])

/-- A frame that tells every part, one that tells the type alone, and between and behind
them frames that are dropped. -/
def mixedFrames : List Frame :=
  [.present [0, 0, 10, 0, 7, 1, 0, 0, 0, 200, 170, 187, 9] (by decide), .absent 13,
    .present [0, 0, 2, 0] (by decide), .present [0, 0, 2, 0, 1] (by decide), .absent 0,
    .present [] (by decide)]

/-- Of the parts that were known before only what the last accepted frame tells is left. -/
theorem type_alone_remains :
    let held : Event := ⟨some 88, some (-3), some 7, some [1, 2]⟩
    let typed : Event := ⟨some 65, none, none, none⟩
    after held (mixedFrames.take 1) ≠ typed ∧ after held mixedFrames = typed ∧
      (∃ call, (decodeAll held mixedFrames)[1]? = some call ∧ call.accepted = false ∧
        call.event = after held (mixedFrames.take 1)) ∧
      mixedFrames.foldl fill ⟨true, 88, false, 5, true, 7, true, [1, 2]⟩ =
        ⟨true, 65, false, 0, false, 0, false, []⟩ := by
  intro held typed
  obtain ⟨kept, written, inPlace, run⟩ := last_accepted_frame_remains mixedFrames
  have last : LastWrite (fun k : Nat => mixedFrames[k]?.bind alone) (some typed) := by
    refine ⟨3, by cbv, fun k later => ?_⟩
    obtain rfl | rfl | beyond : k = 4 ∨ k = 5 ∨ mixedFrames.length ≤ k := by
      have count : mixedFrames.length = 6 := rfl
      omega
    · cbv
    · cbv
    · exact congrArg (·.bind alone) (List.getElem?_eq_none beyond)
  obtain rfl := last_write_unique written last
  obtain ⟨event, _, calls⟩ := run held
  obtain ⟨call, called, refused, untouched, _⟩ := calls 1 (.absent 13) rfl
  have missing : call.accepted = false := refused.mpr trivial
  exact ⟨by cbv; decide, event, ⟨call, called, missing, untouched missing⟩, inPlace _⟩

end NfcPolling.ReusedEvents
