import NfcPolling.Proofs.Service.Deliveries

/-! All entry points tell the same of the same frame. A listener, a registered
callback and a vendor notification that carries the frame come to the event that
decoding gives, exactly once, or to nothing where the frame is too short. -/
namespace NfcPolling.EntryPoints
open NfcPolling.Service Deliveries

/-- A call that shows an event: flags and values of all parts, no payload pointer
for an empty payload, and else its bytes with their number. -/
structure Shows (call : Call) (e : Event) : Prop where
  hasType : call.hasType = e.type.isSome
  type : call.type = e.type.getD 0
  hasGain : call.hasGain = e.gain.isSome
  gain : call.gain = e.gain.getD 0
  hasTimestamp : call.hasTimestamp = e.timestamp.isSome
  timestamp : call.timestamp = e.timestamp.getD 0
  hasPayload : call.hasPayload = e.payload.isSome
  pointer : call.payload = none ↔ e.payload.getD [] = []
  payload : call.payload.getD [] = e.payload.getD []
  payloadLength : call.payloadLength = (e.payload.getD []).length

theorem call_shows_event (e : Event) : Shows (.ofEvent e) e where
  hasType := rfl
  type := rfl
  hasGain := rfl
  gain := rfl
  hasTimestamp := rfl
  timestamp := rfl
  hasPayload := rfl
  pointer := by
    by_cases empty : e.payload.getD [] = []
    · simp [Call.ofEvent, empty]
    · simp [Call.ofEvent, empty]
  payload := by
    by_cases empty : e.payload.getD [] = []
    · simp [Call.ofEvent, empty]
    · simp [Call.ofEvent, empty]
  payloadLength := rfl

/-- Narrowing the length loses nothing that a frame can have. -/
theorem handed_frame (data : Option Bytes) :
    frameOf ⟨data, UInt32.ofNat (data.getD []).length⟩ =
      Frame.ofData data (UInt16.ofNat (data.getD []).length) := by
  simp [frameOf]

section Handed
variable {data : Option Bytes} (short : (data.getD []).length ≤ maxFrameLength)
include short

private theorem handed_length :
    (UInt32.ofNat (data.getD []).length).toNat = (data.getD []).length :=
  UInt32.toNat_ofNat_of_lt' (Nat.lt_of_le_of_lt short (by decide))

/-- Data with its own length is never refused. -/
theorem handed_proper : ¬ Refused ⟨data, UInt32.ofNat (data.getD []).length⟩ := by
  rintro (long | ⟨rfl, claimed⟩)
  · rw [handed_length short] at long
    exact Nat.not_lt_of_le short long
  · exact claimed rfl

theorem handed_bytes :
    (Frame.ofData data (UInt16.ofNat (data.getD []).length)).bytes = data.getD [] := by
  rw [← handed_frame, bytes_of_parcel (handed_proper short), handed_length short,
    List.take_length]

/-- A callback that only takes note hears of a submitted frame once, when it is
decoded, and is shown the decoded event. -/
theorem recorded_once {hub : Hub} {callback : Callback}
    (listens : hub.listener = some callback) (records : callback = .first ∨ callback = .second) :
    let decoding := (Frame.ofData data (UInt16.ofNat (data.getD []).length)).decode .empty
    let outcome := (hub.submit ⟨data, UInt32.ofNat (data.getD []).length⟩).value
    outcome.result = (if decoding.accepted then 1 else 0) ∧
      (decoding.accepted = true →
        ∃ call, outcome.reports = [.call callback call] ∧ Shows call decoding.event) ∧
      (decoding.accepted = false → outcome.reports = []) := by
  intro decoding outcome
  have submitted : outcome = _ := value_submitWith (some Hub.resubmit) hub _
  have called (event : Event) :
      (hub.call (some Hub.resubmit) callback event).value =
        (hub, [.call callback (.ofEvent event)]) := by
    rcases records with rfl | rfl
    · rfl
    · rfl
  rw [if_neg (handed_proper short), handed_frame, heard, listens] at submitted
  have decoded : decoding.accepted = true ↔ _ := accepted_iff _ _
  by_cases long : 5 ≤ (Frame.ofData data (UInt16.ofNat (data.getD []).length)).bytes.length
  · have accepted := decoded.mpr long
    simp only [long, called, Option.isSome_some, true_and, ↓reduceIte] at submitted
    rw [submitted, accepted]
    refine ⟨rfl, fun _ => ⟨_, rfl, call_shows_event _⟩, fun dropped => ?_⟩
    cases dropped
  · have dropped := mt decoded.mp long
    simp only [long, and_false, ↓reduceIte] at submitted
    rw [Bool.not_eq_true] at dropped
    rw [submitted, dropped]
    refine ⟨rfl, fun accepted => ?_, fun _ => rfl⟩
    cases accepted

/-- A notification is heard like the frame it carries when it is about polling,
and otherwise not at all. -/
theorem notification_heard (hub : Hub) (event : UInt8) :
    (hub.notify event ⟨data, UInt32.ofNat (data.getD []).length⟩).value.reports =
      if AboutPolling event (data.getD []).length (data.getD []) then
        (hub.submit ⟨data, UInt32.ofNat (data.getD []).length⟩).value.reports
      else [] := by
  rw [Hub.submit, value_notify, value_submitWith, if_neg (handed_proper short),
    if_neg (handed_proper short), handed_frame, handed_bytes short]
  split <;> rfl

end Handed

/-- All entries agree on a frame with its own length: a listener gets the decoded
event once or nothing, a registered callback a call that shows it, and a vendor
notification delivers the same when it is about polling, and else nothing. -/
theorem entry_points_agree [Settings.Dialect] {data : Option Bytes}
    (short : (data.getD []).length ≤ maxFrameLength) :
    let bytes := data.getD []
    let frame := Frame.ofData data (UInt16.ofNat bytes.length)
    let parcel : Parcel := ⟨data, UInt32.ofNat bytes.length⟩
    let decoding := frame.decode .empty
    let delivery := (Delivery.ofFrame frame).value
    frame.bytes = bytes ∧
      delivery.accepted = decoding.accepted ∧
      delivery.events = (if decoding.accepted then [decoding.event] else []) ∧
      (∀ (s : Session) (callback : Callback), s.hub.listener = some callback →
        callback = .first ∨ callback = .second →
          let outcome := (s.step (.hub (.submit parcel))).2
          outcome.answer = .number (if decoding.accepted then 1 else 0) ∧
            (decoding.accepted = true →
              ∃ call, outcome.reports = [.call callback call] ∧ Shows call decoding.event) ∧
            (decoding.accepted = false → outcome.reports = [])) ∧
      (∀ event, (Delivery.ofVendor event frame).value.events =
        if AboutPolling event bytes.length bytes then delivery.events else []) ∧
      ∀ (s : Session) (event : UInt8), (s.step (.hub (.notify event parcel))).2.reports =
        if AboutPolling event bytes.length bytes then
          (s.step (.hub (.submit parcel))).2.reports
        else [] := by
  intro bytes frame parcel decoding delivery
  refine ⟨handed_bytes short, rfl, rfl, ?_, fun event => ?_, fun s event => ?_⟩
  · intro s callback listens records
    obtain ⟨result, calls⟩ := recorded_once short listens records
    exact ⟨congrArg Answer.number result, calls⟩
  · rw [value_ofVendor, handed_bytes short]
    split <;> rfl
  · exact notification_heard short s.hub event

/-- A frame of unknown technology whose flags byte makes it a polling notification. -/
def flaggedFrame : Option Bytes := some [0, 0, 8, 3, 7, 17, 0, 0, 0, 254, 202, 254]

theorem entry_points_agree_on_flagged_frame :
    let s := Session.initial.after [.hub (.assign 1 (some .second)), .hub (.register (some 1))]
    (flaggedFrame.getD []).length ≤ maxFrameLength ∧ s.hub.listener = some .second ∧
      ∃ call, (s.step (.hub (.notify 0xcc ⟨flaggedFrame, 12⟩))).2.reports =
          [.call .second call] ∧
        Shows call ⟨some (Bytes.ofChar 'U'), some (-2), some 17, some [202, 254]⟩ := by
  intro s
  have short : (flaggedFrame.getD []).length ≤ maxFrameLength := by decide
  have listens : s.hub.listener = some .second := by decide
  obtain ⟨_, _, _, submitted, _, notified⟩ := entry_points_agree short
  obtain ⟨call, reports, shown⟩ := (submitted s .second listens (Or.inr rfl)).2.1 (by cbv)
  have event : ((Frame.ofData flaggedFrame (UInt16.ofNat 12)).decode .empty).event =
      ⟨some (Bytes.ofChar 'U'), some (-2), some 17, some [202, 254]⟩ := by cbv
  have heard := notified s 0xcc
  rw [if_pos (by decide), reports] at heard
  exact ⟨short, listens, call, heard, event ▸ shown⟩

end NfcPolling.EntryPoints
