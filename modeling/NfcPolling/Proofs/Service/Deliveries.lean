import NfcPolling.Frame.Decode
import NfcPolling.Service.Session

/-! What the arrival of a frame leads to, on every way into the service: whether
it is refused, decoded or dropped, and who hears of it. Each function on the way
has one lemma here; later results cite these and no longer look inside. -/
namespace NfcPolling.Deliveries
open NfcPolling.Frame NfcPolling.Service

/-- Only the number of bytes decides whether a frame is decoded. -/
theorem accepted_iff (frame : Frame) (held : Event) :
    (frame.decode held).accepted = true ↔ 5 ≤ frame.bytes.length := by
  cases frame with
  | absent claimed => simp [decode, Frame.bytes]
  | present bytes short =>
    by_cases dropped : bytes.length < minLength
    · simp only [decode, dropped, ↓reduceIte, Frame.bytes, Bool.false_eq_true, false_iff]
      exact Nat.not_le_of_lt dropped
    · simp only [decode, dropped, ↓reduceIte, Frame.bytes, true_iff]
      exact Nat.le_of_not_lt dropped

/-- A frame that is decoded is one event for a listener, any other frame none. -/
theorem value_ofFrame (frame : Frame) :
    (Delivery.ofFrame frame).value =
      if 5 ≤ frame.bytes.length then ⟨true, [(frame.decode .empty).event]⟩ else ⟨false, []⟩ := by
  by_cases long : 5 ≤ frame.bytes.length
  · have accepted := (accepted_iff frame .empty).mpr long
    simp only [Delivery.ofFrame, accepted, long, ↓reduceIte]
  · have dropped := mt (accepted_iff frame .empty).mp long
    simp only [Bool.not_eq_true] at dropped
    simp only [Delivery.ofFrame, dropped, long, Bool.false_eq_true, ↓reduceIte]

/-- The event byte names the own group, and the byte that tells the subject lies
within the length and says that it is polling. -/
def AboutPolling (event : UInt8) (length : Nat) (bytes : Bytes) : Prop :=
  event &&& 0x3f = 0x0c ∧ 4 ≤ length ∧ bytes[3]? = some 3

instance (event : UInt8) (length : Nat) (bytes : Bytes) :
    Decidable (AboutPolling event length bytes) :=
  inferInstanceAs (Decidable (_ ∧ _))

theorem subject_polling_iff (event : UInt8) (frame : Frame) :
    Subject.of event frame = .polling ↔ AboutPolling event frame.bytes.length frame.bytes := by
  unfold Subject.of
  by_cases own : event &&& Subject.identifierMask = Subject.ownIdentifier
  · have opcode : 4 ≤ frame.bytes.length ∧ frame.bytes[3]? = some 3 ↔
        frame.bytes[Subject.opcodeOffset]? = some Subject.pollingOpcode := by
      constructor
      · exact And.right
      · intro told
        exact ⟨(List.getElem?_eq_some_iff.mp told).1, told⟩
    rw [if_neg (not_not_intro own), AboutPolling, opcode]
    cases told : frame.bytes[Subject.opcodeOffset]? with
    | none => simp
    | some byte =>
      by_cases polling : byte = Subject.pollingOpcode
      · simp only [polling, ↓reduceIte, and_true, true_iff]
        exact own
      · simp [polling]
  · rw [if_pos own]
    simp only [reduceCtorEq, false_iff]
    exact fun about => own about.1

/-- A notification that is about polling counts as handled and is delivered like
its frame; no other one delivers anything. -/
theorem value_ofVendor (event : UInt8) (frame : Frame) :
    (Delivery.ofVendor event frame).value =
      if AboutPolling event frame.bytes.length frame.bytes then
        ⟨true, (Delivery.ofFrame frame).value.events⟩
      else ⟨false, []⟩ := by
  rw [Delivery.ofVendor]
  by_cases about : AboutPolling event frame.bytes.length frame.bytes
  · rw [(subject_polling_iff event frame).mpr about, if_pos about]
  · have other := mt (subject_polling_iff event frame).mp about
    rw [if_neg about]
    cases subject : Subject.of event frame with
    | polling => exact absurd subject other
    | foreign identifier => rfl
    | missing => rfl
    | other opcode => rfl

/-- What a caller is told to be no proper frame: a length of more than sixteen
bits, or a length without data. -/
def Refused (parcel : Parcel) : Prop :=
  maxFrameLength < parcel.length.toNat ∨ parcel.data = none ∧ parcel.length ≠ 0

instance (parcel : Parcel) : Decidable (Refused parcel) :=
  inferInstanceAs (Decidable (_ ∨ _))

/-- The frame in a parcel that is not refused. -/
def frameOf (parcel : Parcel) : Frame := Frame.ofData parcel.data parcel.length.toUInt16

theorem frame_of_parcel (parcel : Parcel) :
    parcel.frame? = if Refused parcel then none else some (frameOf parcel) := by
  have valid : parcel.isValid = true ↔ ¬ Refused parcel := by
    cases missing : parcel.data with
    | none =>
      simp only [Parcel.isValid, Refused, missing, Option.isSome_none,
        Bool.false_or, Bool.and_eq_true, decide_eq_true_eq, not_or, Nat.not_lt, true_and,
        Decidable.not_not, and_comm]
    | some bytes =>
      simp only [Parcel.isValid, Refused, missing, Option.isSome_some,
        Bool.true_or, Bool.true_and, decide_eq_true_eq, reduceCtorEq, false_and, or_false,
        Nat.not_lt]
  unfold Parcel.frame? frameOf
  by_cases refused : Refused parcel
  · rw [if_pos refused, if_neg (mt valid.mp (not_not_intro refused))]
  · rw [if_neg refused, if_pos (valid.mpr refused)]

/-- The data holds as many bytes as the length says, where the length can be a
frame's at all; a longer one is refused unread. -/
def Backed (parcel : Parcel) : Prop :=
  ∀ bytes, parcel.data = some bytes → parcel.length.toNat ≤ maxFrameLength →
    parcel.length.toNat ≤ bytes.length

theorem bytes_of_parcel {parcel : Parcel} (proper : ¬ Refused parcel) :
    (frameOf parcel).bytes = (parcel.data.getD []).take parcel.length.toNat := by
  simp only [Refused, not_or, Nat.not_lt, not_and, Decidable.not_not] at proper
  have width : parcel.length.toUInt16.toNat = parcel.length.toNat := by
    rw [UInt32.toNat_toUInt16]
    exact Nat.mod_eq_of_lt (Nat.lt_succ_of_le proper.1)
  cases data : parcel.data with
  | none => simp [frameOf, data, Frame.ofData, Frame.bytes]
  | some bytes => simp [frameOf, data, Frame.ofData, Frame.bytes, width]

theorem length_of_parcel {parcel : Parcel} (backed : Backed parcel) (proper : ¬ Refused parcel) :
    (frameOf parcel).bytes.length = parcel.length.toNat := by
  rw [bytes_of_parcel proper, List.length_take, Nat.min_eq_left]
  simp only [Refused, not_or, Nat.not_lt, not_and, Decidable.not_not] at proper
  cases data : parcel.data with
  | none => simp [proper.2 data]
  | some bytes => exact backed bytes data proper.1

/-- Of a longer buffer only the bytes within the length are looked at. -/
theorem about_parcel_iff {parcel : Parcel} (backed : Backed parcel) (proper : ¬ Refused parcel)
    (event : UInt8) :
    AboutPolling event (frameOf parcel).bytes.length (frameOf parcel).bytes ↔
      AboutPolling event parcel.length.toNat (parcel.data.getD []) := by
  rw [length_of_parcel backed proper, bytes_of_parcel proper, AboutPolling, AboutPolling]
  refine and_congr_right fun _ => and_congr_right fun enough => ?_
  rw [List.getElem?_take_of_lt enough]

section Hearing
variable (resubmit : Option (Hub → Journal.Noted Journal.Entry Hub.Outcome)) (hub : Hub)

/-- What the listener of the moment makes of a frame: if there is a listener and
the frame is decoded, it is called with the event. -/
def heard (frame : Frame) : Hub × List Report :=
  match hub.listener with
  | none => (hub, [])
  | some callback =>
    if 5 ≤ frame.bytes.length then
      (hub.call resubmit callback (frame.decode .empty).event).value
    else (hub, [])

theorem value_deliver (frame : Frame) :
    (hub.deliver resubmit hub.listener (Delivery.ofFrame frame).value.events).value =
      heard resubmit hub frame := by
  rw [value_ofFrame, heard]
  cases hub.listener with
  | none => split <;> rfl
  | some callback =>
    split
    · simp [Hub.deliver]
    · rfl

/-- Submitting a frame is refused, or says whether a listener was there to hear
the event. -/
theorem value_submitWith (parcel : Parcel) :
    (hub.submitWith resubmit parcel).value =
      if Refused parcel then ⟨hub, -1, []⟩
      else
        let (next, reports) := heard resubmit hub (frameOf parcel)
        ⟨next, if hub.listener.isSome ∧ 5 ≤ (frameOf parcel).bytes.length then 1 else 0,
          reports⟩ := by
  rw [Hub.submitWith, frame_of_parcel]
  by_cases refused : Refused parcel
  · simp only [refused, ↓reduceIte]
  · have delivered := value_deliver resubmit hub (frameOf parcel)
    simp only [refused, ↓reduceIte]
    cases listener : hub.listener with
    | none => simp [heard, listener]
    | some callback =>
      rw [listener] at delivered
      simp only [Journal.Noted.value_bind, delivered, Option.isSome_some, true_and]
      rw [value_ofFrame]
      split <;> rfl

end Hearing

/-- Submitting a vendor notification is refused, or says whether it is about
polling, whoever hears of it. -/
theorem value_notify (hub : Hub) (event : UInt8) (parcel : Parcel) :
    (hub.notify event parcel).value =
      if Refused parcel then ⟨hub, -1, []⟩
      else if AboutPolling event (frameOf parcel).bytes.length (frameOf parcel).bytes then
        let (next, reports) := heard (some Hub.resubmit) hub (frameOf parcel)
        ⟨next, 1, reports⟩
      else ⟨hub, 0, []⟩ := by
  rw [Hub.notify, frame_of_parcel]
  by_cases refused : Refused parcel
  · simp only [refused, ↓reduceIte]
  · simp only [refused, ↓reduceIte, Journal.Noted.value_bind, value_ofVendor]
    split
    · simp only [value_deliver]
      rfl
    · rfl

end NfcPolling.Deliveries
