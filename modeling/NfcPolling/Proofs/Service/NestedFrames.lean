import NfcPolling.Proofs.Service.EntryPoints

/-! Frames that a callback submits while it is called. Such a frame is told inside
the call and gets the result it would get alone. The frame that led to the call,
its result and the whole session stay what they are without it, whatever the two
frames hold and on whichever way the outer one came in. -/
namespace NfcPolling.NestedFrames
open NfcPolling.Service Deliveries EntryPoints

/-- The event that bytes decode to from nothing. -/
def eventOf (bytes : Bytes) : Event :=
  ((Frame.ofData (some bytes) (UInt16.ofNat bytes.length)).decode .empty).event

/-- Only the bytes of a frame matter for the event it is decoded to. -/
theorem decoded_event {frame : Frame} (long : 5 ≤ frame.bytes.length) :
    (frame.decode .empty).event = eventOf frame.bytes := by
  cases frame with
  | absent claimed => exact absurd long (by simp [Frame.bytes])
  | present bytes short =>
    have width : (UInt16.ofNat bytes.length).toNat = bytes.length :=
      UInt16.toNat_ofNat_of_lt' (Nat.lt_succ_of_le short)
    simp only [eventOf, Frame.bytes, Frame.ofData, width, List.take_length]

/-- The prepared bytes as a callback hands them over: no more of them than a 32-bit
length can say. -/
def nested (hub : Hub) : Bytes := hub.prepared.take (hub.prepared.length % UInt32.size)

theorem nested_whole {hub : Hub} (sized : hub.prepared.length < UInt32.size) :
    nested hub = hub.prepared := by
  rw [nested, Nat.mod_eq_of_lt sized, List.take_length]

/-- Bytes that are neither too few nor too many for a frame that is decoded. -/
def Fits (bytes : Bytes) : Prop := 5 ≤ bytes.length ∧ bytes.length ≤ 65535

instance (bytes : Bytes) : Decidable (Fits bytes) := inferInstanceAs (Decidable (_ ∧ _))

/-- What submitting bytes comes to where somebody listens. -/
def resultOf (bytes : Bytes) : Int :=
  if Fits bytes then 1 else if bytes.length < 5 then 0 else -1

section Nested
variable (hub : Hub)

private theorem handed_over :
    (Parcel.ofBytes hub.prepared).length.toNat = (nested hub).length ∧
      ((Parcel.ofBytes hub.prepared).data.getD []).take (nested hub).length = nested hub := by
  have counted : (nested hub).length = hub.prepared.length % UInt32.size := by
    rw [nested, List.length_take]
    exact Nat.min_eq_left (Nat.mod_le _ _)
  by_cases none : hub.prepared = []
  · simp [Parcel.ofBytes, nested, none]
  · simp only [Parcel.ofBytes, none, ↓reduceIte, Option.getD_some, counted]
    exact ⟨UInt32.toNat_ofNat, rfl⟩

theorem nested_refused_iff :
    Refused (.ofBytes hub.prepared) ↔ maxFrameLength < (nested hub).length := by
  rw [Refused, (handed_over hub).1]
  refine or_iff_left ?_
  rintro ⟨missing, claimed⟩
  by_cases none : hub.prepared = []
  · simp [Parcel.ofBytes, none] at claimed
  · simp [Parcel.ofBytes, none] at missing

theorem nested_bytes (proper : ¬ Refused (.ofBytes hub.prepared)) :
    (frameOf (.ofBytes hub.prepared)).bytes = nested hub := by
  obtain ⟨counted, taken⟩ := handed_over hub
  rw [bytes_of_parcel proper, counted, taken]

/-- The calls that the nested frame leads to: one if it fits. -/
def nestedCalls : List Report :=
  if Fits (nested hub) then [.call .resubmitting (.ofEvent (eventOf (nested hub)))] else []

variable {hub} (own : hub.listener = some .resubmitting)
include own

/-- Inside the call no further frame is submitted, and the hub is left alone. -/
theorem value_resubmit :
    hub.resubmit.value = ⟨hub, resultOf (nested hub), nestedCalls hub⟩ := by
  rw [Hub.resubmit, value_submitWith, resultOf, nestedCalls]
  by_cases refused : Refused (.ofBytes hub.prepared)
  · have exceeds := (nested_refused_iff hub).mp refused
    have misfit : ¬ Fits (nested hub) := fun fits => Nat.not_le_of_lt exceeds fits.2
    have enough : ¬ (nested hub).length < 5 :=
      Nat.not_lt_of_le (Nat.le_trans (by decide) (Nat.le_of_lt exceeds))
    simp only [refused, misfit, enough, ↓reduceIte]
  · have within := Nat.le_of_not_lt (mt (nested_refused_iff hub).mpr refused)
    have bytes := nested_bytes hub refused
    by_cases short : (nested hub).length < 5
    · have misfit : ¬ Fits (nested hub) := fun fits => Nat.not_lt_of_le fits.1 short
      have dropped := Nat.not_le_of_lt short
      simp only [refused, misfit, heard, own, bytes, short, dropped, and_false, ↓reduceIte]
    · have long := Nat.le_of_not_lt short
      have fits : Fits (nested hub) := ⟨long, within⟩
      have event := decoded_event (bytes.symm ▸ long)
      simp only [refused, fits, heard, own, bytes, long, Hub.call, event, Option.isSome_some,
        and_self, ↓reduceIte]

/-- A frame that is decoded is told first, then what the nested one leads to. -/
theorem heard_nested {frame : Frame} (long : 5 ≤ frame.bytes.length) :
    heard (some Hub.resubmit) hub frame =
      (hub, .call .resubmitting (.ofEvent (eventOf frame.bytes)) ::
        (nestedCalls hub ++ [.resubmitted (resultOf (nested hub))])) := by
  simp only [heard, own, long, ↓reduceIte, Hub.call, value_resubmit own, decoded_event long,
    List.cons_append]

end Nested

/-- A step that brings a frame to the listener: the frame is submitted, or stands in a
notification about polling; it is not refused and long enough to be decoded. -/
structure Brings (next : Session.Step) (parcel : Parcel) : Prop where
  entry : next = .hub (.submit parcel) ∨
    ∃ event, AboutPolling event parcel.length.toNat (parcel.data.getD []) ∧
      next = .hub (.notify event parcel)
  backed : Backed parcel
  proper : ¬ Refused parcel
  long : 5 ≤ parcel.length.toNat

/-- The bytes within the length of a parcel. -/
def bytesOf (parcel : Parcel) : Bytes := (parcel.data.getD []).take parcel.length.toNat

section Outer
variable [Settings.Dialect] {s : Session} (own : s.hub.listener = some .resubmitting)
include own

/-- Both ways in come to the same, and leave nothing behind. -/
theorem step_nested {next : Session.Step} {parcel : Parcel} (brings : Brings next parcel) :
    (s.step next).1 = s ∧ (s.step next).2.answer = .number 1 ∧
      (s.step next).2.reports = .call .resubmitting (.ofEvent (eventOf (bytesOf parcel))) ::
        (nestedCalls s.hub ++ [.resubmitted (resultOf (nested s.hub))]) := by
  obtain ⟨entry, backed, proper, long⟩ := brings
  have bytes : (frameOf parcel).bytes = bytesOf parcel := bytes_of_parcel proper
  have decoded : 5 ≤ (frameOf parcel).bytes.length := by
    rw [length_of_parcel backed proper]
    exact long
  have told := heard_nested own decoded
  rw [bytes] at told
  rcases entry with rfl | ⟨event, about, rfl⟩
  · have submitted := value_submitWith (some Hub.resubmit) s.hub parcel
    simp only [proper, told, own, decoded, Option.isSome_some, true_and, ↓reduceIte] at submitted
    simp only [Session.step, Hub.step, Hub.submit, Journal.Noted.value_bind,
      Journal.Noted.value_pure, submitted, true_and]
  · have notified := value_notify s.hub event parcel
    simp only [proper, told, (about_parcel_iff backed proper event).mpr about,
      ↓reduceIte] at notified
    simp only [Session.step, Hub.step, Journal.Noted.value_bind, Journal.Noted.value_pure,
      notified, true_and]

/-- However many frames are brought, each is told as if it were the only one. -/
theorem run_nested {steps : List Session.Step}
    (brought : ∀ next ∈ steps, ∃ parcel, Brings next parcel) :
    s.after steps = s ∧ s.run steps = steps.map fun next => (s.step next).2 := by
  induction steps with
  | nil => exact ⟨rfl, rfl⟩
  | cons next rest ih =>
    obtain ⟨parcel, brings⟩ := brought next (by simp)
    have same := (step_nested own brings).1
    obtain ⟨stays, told⟩ := ih fun other member => brought other (by simp [member])
    constructor
    · change ((s.step next).1).after rest = s
      rw [same, stays]
    · rw [Session.run, same, told, List.map_cons]

end Outer

/-- Where the registered callback submits a frame, every step that brings a frame is
told by a call that shows the decoded event, then by a call for the nested frame if
that one has 5 to 65535 bytes, and then by the nested result: one in that case, zero
for fewer bytes and minus one for more. The step itself answers one and leaves the
session as it was. Whatever can be handed over is handed over whole. -/
theorem nested_frame_undisturbing [Settings.Dialect] {s : Session}
    (own : s.hub.listener = some .resubmitting)
    {next : Session.Step} {parcel : Parcel} (brings : Brings next parcel) :
    let inside := nested s.hub
    ∃ outer inner, Shows outer (eventOf (bytesOf parcel)) ∧ Shows inner (eventOf inside) ∧
      (s.step next).2.reports =
        .call .resubmitting outer ::
          ((if Fits inside then [.call .resubmitting inner] else []) ++
            [.resubmitted (if Fits inside then 1 else if inside.length < 5 then 0 else -1)]) ∧
      (s.step next).2.answer = .number 1 ∧
      (s.step next).1 = s ∧
      (s.hub.prepared.length < UInt32.size → inside = s.hub.prepared) := by
  intro inside
  obtain ⟨same, answer, reports⟩ := step_nested own brings
  exact ⟨_, _, call_shows_event _, call_shows_event _, reports, answer, same, nested_whole⟩

/-- The nested frame is as good as the outer one, which stands in a notification. -/
theorem nested_frame_in_notification :
    let steps : List Session.Step := [.hub (.assign 2 (some .resubmitting)),
      .hub (.prepare [0, 0, 1, 0, 2]), .hub (.register (some 2))]
    let s := Session.initial.after steps
    let next : Session.Step := .hub (.notify 0x4c ⟨some [0, 0, 0, 3, 1], 5⟩)
    s.hub.listener = some .resubmitting ∧ Brings next ⟨some [0, 0, 0, 3, 1], 5⟩ ∧
      (∃ outer inner, Shows outer { type := some (Bytes.ofChar 'A') } ∧
        Shows inner { type := some (Bytes.ofChar 'B') } ∧
        (s.step next).2.reports =
          [.call .resubmitting outer, .call .resubmitting inner, .resubmitted 1]) ∧
      (s.step next).2.answer = .number 1 ∧ (s.step next).1 = s := by
  intro steps s next
  have own : s.hub.listener = some .resubmitting := by decide
  have brings : Brings next ⟨some [0, 0, 0, 3, 1], 5⟩ := by
    refine ⟨.inr ⟨0x4c, by decide, rfl⟩, ?_, by decide, by decide⟩
    intro bytes data _
    rw [← Option.some.inj data]
    decide
  obtain ⟨outer, inner, shownOuter, shownInner, reports, answer, same, _⟩ :=
    nested_frame_undisturbing own brings
  have outerEvent : eventOf (bytesOf ⟨some [0, 0, 0, 3, 1], 5⟩) =
      { type := some (Bytes.ofChar 'A') } := by cbv
  have innerEvent : eventOf (nested s.hub) = { type := some (Bytes.ofChar 'B') } := by cbv
  rw [outerEvent] at shownOuter
  rw [innerEvent] at shownInner
  exact ⟨own, brings, ⟨outer, inner, shownOuter, shownInner, reports⟩, answer, same⟩

end NfcPolling.NestedFrames
