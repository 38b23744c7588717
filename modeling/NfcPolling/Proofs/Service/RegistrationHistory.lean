import Mathlib.Data.List.Induction
import NfcPolling.Proofs.Service.Deliveries

/-! Who hears of a frame, told from what has happened before and nothing else:
the slot registered last, unless the registration was ended since, and what was
last put into that slot. Results and calls of every later frame follow from it,
over all interleavings of the steps of a session. -/
namespace NfcPolling.RegistrationHistory
open NfcPolling.Service Deliveries

/-- A step together with what the caller learned from it. -/
abbrev Moment := Session.Step × Session.Outcome

/-- A whole run of a new service. -/
def history [Settings.Dialect] (steps : List Session.Step) : List Moment :=
  steps.zip (Session.initial.run steps)

/-- Was the callback called that ends the registration? -/
def withdrew (reports : List Report) : Bool :=
  reports.any fun
    | .call .withdrawing _ => true
    | _ => false

/-- What a moment did to the registration, if anything: a slot takes the place of
the one before, and no slot at all ends the registration. -/
def registration : Moment → Option (Option (Fin 4))
  | (.hub (.register slot), _) => some slot
  | (.hub .deregister, _) | (.stop, _) => some none
  | (_, outcome) => if withdrew outcome.reports then some none else none

/-- What a moment put into a slot, if anything. -/
def assigned (slot : Fin 4) : Moment → Option (Option Callback)
  | (.hub (.assign other callback), _) => if other = slot then some callback else none
  | _ => none

/-- The slot of the most recent registration, unless it was ended since. -/
def registered (past : List Moment) : Option (Fin 4) :=
  (past.filterMap registration).getLast?.join

/-- What was most recently put into a slot. -/
def stored (past : List Moment) (slot : Fin 4) : Option Callback :=
  (past.filterMap (assigned slot)).getLast?.join

/-- The callback that hears of a frame after all this. -/
def listening (past : List Moment) : Option Callback := (registered past).bind (stored past)

/-- The callbacks called on behalf of the caller, in order. What a resubmitting
callback brings about is reported inside, up to the result it is given. -/
def outermost : (inside : Bool) → List Report → List Callback
  | _, [] => []
  | _, .resubmitted _ :: rest => outermost false rest
  | true, .call _ _ :: rest => outermost true rest
  | false, .call callback _ :: rest =>
    callback :: outermost (callback = .resubmitting) rest

theorem history_append_singleton [Settings.Dialect] (steps : List Session.Step)
    (next : Session.Step) :
    history (steps ++ [next]) =
      history steps ++ [(next, ((Session.initial.after steps).step next).2)] := by
  rw [history, Session.run_append, List.zip_append (Session.length_run _ _).symm]
  rfl

private theorem latest_append {f : Moment → Option (Option α)} (past : List Moment)
    (moment : Moment) :
    ((past ++ [moment]).filterMap f).getLast?.join =
      (f moment).getD (past.filterMap f).getLast?.join := by
  rw [List.filterMap_append]
  cases wrote : f moment with
  | none => simp [wrote]
  | some value => simp [wrote]

/-- A callback that resubmits is the listener of the frame it submits, so that
frame is heard by nobody else and changes nothing. -/
theorem resubmission_heard {hub : Hub} (own : hub.listener = some .resubmitting) :
    hub.resubmit.value.hub = hub ∧
      ∀ report ∈ hub.resubmit.value.reports, ∃ call, report = .call .resubmitting call := by
  rw [Hub.resubmit, value_submitWith]
  by_cases refused : Refused (.ofBytes hub.prepared)
  · simp [refused]
  · simp only [refused, ↓reduceIte, heard, own]
    split
    · simp [Hub.call]
    · simp

/-- Hearing of a frame leaves the hub alone unless the callback ends the
registration, and then does no more than that. -/
theorem hub_heard (hub : Hub) (frame : Frame) :
    let (next, reports) := heard (some Hub.resubmit) hub frame
    next = if withdrew reports then hub.deregister else hub := by
  rw [heard]
  cases listener : hub.listener with
  | none => rfl
  | some callback =>
    by_cases long : 5 ≤ frame.bytes.length
    · simp only [long, ↓reduceIte]
      cases callback with
      | first => rfl
      | second => rfl
      | withdrawing => rfl
      | resubmitting =>
        obtain ⟨same, inner⟩ := resubmission_heard listener
        have kept : withdrew hub.resubmit.value.reports = false := by
          rw [withdrew, List.any_eq_false]
          intro report member
          obtain ⟨call, rfl⟩ := inner report member
          simp
        rw [withdrew] at kept
        simp [Hub.call, withdrew, kept, same]
    · simp only [long, ↓reduceIte]
      rfl

private theorem outermost_inside (inner : List Report)
    (calls : ∀ report ∈ inner, ∃ callback call, report = .call callback call)
    (result : Int) (rest : List Report) :
    outermost true (inner ++ .resubmitted result :: rest) = outermost false rest := by
  induction inner with
  | nil => rfl
  | cons report more ih =>
    obtain ⟨callback, call, rfl⟩ := calls report (by simp)
    exact ih fun other member => calls other (by simp [member])

/-- A frame that is decoded is one call to the listener of the moment, whatever
that callback submits in turn; any other frame is none. -/
theorem outermost_heard (hub : Hub) (frame : Frame) :
    outermost false (heard (some Hub.resubmit) hub frame).2 =
      if 5 ≤ frame.bytes.length then hub.listener.toList else [] := by
  rw [heard]
  cases listener : hub.listener with
  | none => simp [outermost]
  | some callback =>
    by_cases long : 5 ≤ frame.bytes.length
    · simp only [long, ↓reduceIte, Option.toList_some]
      cases callback with
      | first => rfl
      | second => rfl
      | withdrawing => rfl
      | resubmitting =>
        have calls : ∀ report ∈ hub.resubmit.value.reports,
            ∃ callback call, report = .call callback call := by
          intro report member
          obtain ⟨call, same⟩ := (resubmission_heard listener).2 report member
          exact ⟨.resubmitting, call, same⟩
        have inside := outermost_inside _ calls hub.resubmit.value.result []
        simp only [Hub.call, List.cons_append, outermost, decide_true, inside]
    · simp only [long, ↓reduceIte, outermost]

/-- Where nobody is called the hub stays as it is. -/
theorem unheard_keeps {hub : Hub} {frame : Frame}
    (silent : outermost false (heard (some Hub.resubmit) hub frame).2 = []) :
    heard (some Hub.resubmit) hub frame = (hub, []) := by
  rw [outermost_heard] at silent
  rw [heard]
  cases listener : hub.listener with
  | none => rfl
  | some callback =>
    by_cases long : 5 ≤ frame.bytes.length
    · simp [long, listener] at silent
    · simp only [long, ↓reduceIte]

private theorem hub_of_submit (hub : Hub) (parcel : Parcel) :
    (hub.submit parcel).value.hub =
      if withdrew (hub.submit parcel).value.reports then hub.deregister else hub := by
  rw [Hub.submit, value_submitWith]
  by_cases refused : Refused parcel
  · simp only [refused, ↓reduceIte]
    rfl
  · simp only [refused, ↓reduceIte]
    exact hub_heard hub (frameOf parcel)

private theorem hub_of_notify (hub : Hub) (event : UInt8) (parcel : Parcel) :
    (hub.notify event parcel).value.hub =
      if withdrew (hub.notify event parcel).value.reports then hub.deregister else hub := by
  rw [value_notify]
  by_cases refused : Refused parcel
  · simp only [refused, ↓reduceIte]
    rfl
  · simp only [refused, ↓reduceIte]
    split
    · exact hub_heard hub (frameOf parcel)
    · rfl

section Session
variable [Settings.Dialect]

theorem registered_step (s : Session) (next : Session.Step) :
    (s.step next).1.hub.registered =
      (registration (next, (s.step next).2)).getD s.hub.registered := by
  cases next with
  | stop => rfl
  | configuration step => rfl
  | hub step =>
    cases step with
    | assign slot callback => rfl
    | prepare frame => rfl
    | register slot => rfl
    | deregister => rfl
    | submit parcel =>
      change (s.hub.submit parcel).value.hub.registered =
        (if withdrew (s.hub.submit parcel).value.reports then some none else none).getD _
      rw [hub_of_submit]
      split <;> rfl
    | notify event parcel =>
      change (s.hub.notify event parcel).value.hub.registered =
        (if withdrew (s.hub.notify event parcel).value.reports then some none else none).getD _
      rw [hub_of_notify]
      split <;> rfl

theorem slots_step (s : Session) (next : Session.Step) (slot : Fin 4) :
    (s.step next).1.hub.slots.get slot =
      (assigned slot (next, (s.step next).2)).getD (s.hub.slots.get slot) := by
  cases next with
  | stop => rfl
  | configuration step => rfl
  | hub step =>
    cases step with
    | assign other callback =>
      change (s.hub.slots.set other callback)[slot] =
        (if other = slot then some callback else none).getD s.hub.slots[slot]
      by_cases same : other = slot
      · subst same
        simp
      · have apart : (other : Nat) ≠ slot := fun equal => same (Fin.ext equal)
        simp [same, Vector.getElem_set_ne, apart]
    | prepare frame => rfl
    | register slot => rfl
    | deregister => rfl
    | submit parcel =>
      change (s.hub.submit parcel).value.hub.slots.get slot = s.hub.slots.get slot
      rw [hub_of_submit]
      split <;> rfl
    | notify event parcel =>
      change (s.hub.notify event parcel).value.hub.slots.get slot = s.hub.slots.get slot
      rw [hub_of_notify]
      split <;> rfl

/-- After any run the hub holds what the history says. -/
theorem hub_follows_history (steps : List Session.Step) :
    (Session.initial.after steps).hub.registered = registered (history steps) ∧
      ∀ slot : Fin 4,
        (Session.initial.after steps).hub.slots.get slot = stored (history steps) slot := by
  -- One step is added at the end, which either writes or leaves what stood before.
  induction steps using List.reverseRecOn with
  | nil =>
    refine ⟨rfl, fun slot => ?_⟩
    change (Vector.replicate 4 none)[slot] = none
    simp
  | append_singleton earlier next ih =>
    obtain ⟨registration, contents⟩ := ih
    rw [history_append_singleton, Session.after_append]
    change ((Session.initial.after earlier).step next).1.hub.registered = _ ∧
      ∀ slot : Fin 4, ((Session.initial.after earlier).step next).1.hub.slots.get slot = _
    constructor
    · rw [registered_step, registration]
      exact (latest_append _ _).symm
    · intro slot
      rw [slots_step, contents slot]
      exact (latest_append _ _).symm

theorem listener_follows_history (steps : List Session.Step) :
    (Session.initial.after steps).hub.listener = listening (history steps) := by
  obtain ⟨registration, contents⟩ := hub_follows_history steps
  rw [Hub.listener, registration, listening]
  cases registered (history steps) with
  | none => rfl
  | some slot => exact contents slot

/-- A submitted frame is refused, or reaches the callback that the history names
and says whether it did. -/
theorem submit_follows_history (steps : List Session.Step) {parcel : Parcel}
    (backed : Backed parcel) :
    let outcome := ((Session.initial.after steps).hub.submit parcel).value
    outcome.result =
        (if Refused parcel then -1
        else if (listening (history steps)).isSome ∧ 5 ≤ parcel.length.toNat then 1 else 0) ∧
      outermost false outcome.reports =
        (if outcome.result = 1 then (listening (history steps)).toList else []) ∧
      (outermost false outcome.reports = [] →
        outcome.hub = (Session.initial.after steps).hub) := by
  have listener := listener_follows_history steps
  rw [Hub.submit, value_submitWith]
  by_cases refused : Refused parcel
  · simp [refused, outermost]
  · simp only [refused, ↓reduceIte, listener, length_of_parcel backed refused]
    refine ⟨trivial, ?_, fun silent => ?_⟩
    · rw [outermost_heard, listener, length_of_parcel backed refused]
      cases listening (history steps) <;> simp
    · rw [unheard_keeps silent]

/-- A vendor notification is refused, or says whether it is about polling. The
callback that the history names hears of it when it also carries a frame. -/
theorem notify_follows_history (steps : List Session.Step) (event : UInt8) {parcel : Parcel}
    (backed : Backed parcel) :
    let outcome := ((Session.initial.after steps).hub.notify event parcel).value
    outcome.result =
        (if Refused parcel then -1
        else if AboutPolling event parcel.length.toNat (parcel.data.getD []) then 1 else 0) ∧
      outermost false outcome.reports =
        (if outcome.result = 1 ∧ 5 ≤ parcel.length.toNat then
          (listening (history steps)).toList
        else []) ∧
      (outermost false outcome.reports = [] →
        outcome.hub = (Session.initial.after steps).hub) := by
  have listener := listener_follows_history steps
  rw [value_notify]
  by_cases refused : Refused parcel
  · simp [refused, outermost]
  · simp only [refused, ↓reduceIte, about_parcel_iff backed refused]
    by_cases about : AboutPolling event parcel.length.toNat (parcel.data.getD [])
    · simp only [about, ↓reduceIte, true_and]
      refine ⟨?_, fun silent => ?_⟩
      · rw [outermost_heard, listener, length_of_parcel backed refused]
      · rw [unheard_keeps silent]
    · simp [about, outermost]

/-- Frames follow the registration through every session. Both entries refuse the
same parcels; a submitted frame otherwise says whether it was long enough and
somebody was registered, a notification whether it is about polling. There is at
most one call, to the callback registered at that moment, and a step without a
call leaves everything as it was. -/
theorem frames_follow_registration (steps : List Session.Step) (event : UInt8) {parcel : Parcel}
    (backed : Backed parcel) :
    let s := Session.initial.after steps
    let named := listening (history steps)
    let submitted := s.step (.hub (.submit parcel))
    let notified := s.step (.hub (.notify event parcel))
    submitted.2.answer = .number
        (if Refused parcel then -1
        else if named.isSome ∧ 5 ≤ parcel.length.toNat then 1 else 0) ∧
      notified.2.answer = .number
        (if Refused parcel then -1
        else if AboutPolling event parcel.length.toNat (parcel.data.getD []) then 1 else 0) ∧
      outermost false submitted.2.reports =
        (if submitted.2.answer = .number 1 then named.toList else []) ∧
      outermost false notified.2.reports =
        (if notified.2.answer = .number 1 ∧ 5 ≤ parcel.length.toNat then named.toList else []) ∧
      (outermost false submitted.2.reports = [] → submitted.1 = s) ∧
      (outermost false notified.2.reports = [] → notified.1 = s) := by
  intro s named submitted notified
  have one (result : Int) : result = 1 ↔ Answer.number result = .number 1 := by
    rw [Answer.number.injEq]
  obtain ⟨submitResult, submitCalls, submitKeeps⟩ := submit_follows_history steps backed
  obtain ⟨notifyResult, notifyCalls, notifyKeeps⟩ := notify_follows_history steps event backed
  refine ⟨congrArg Answer.number submitResult, congrArg Answer.number notifyResult, ?_, ?_,
    fun silent => ?_, fun silent => ?_⟩
  · exact submitCalls.trans (if_congr (one _) rfl rfl)
  · exact notifyCalls.trans (if_congr (and_congr_left' (one _)) rfl rfl)
  · exact congrArg (fun hub => { s with hub := hub }) (submitKeeps silent)
  · exact congrArg (fun hub => { s with hub := hub }) (notifyKeeps silent)

end Session

/-- The first registration ends with the frame that is heard. The slot is then
registered anew, and only afterwards given the callback that hears of the next. -/
def refilledSlot : List Session.Step :=
  [.hub (.assign 0 (some .withdrawing)), .hub (.register (some 0)),
    .hub (.submit ⟨some [0, 0, 1, 0, 1], 5⟩), .hub (.register (some 0)),
    .hub (.assign 0 (some .resubmitting)), .hub (.prepare [0, 0, 1, 0, 2])]

theorem frames_follow_refilled_slot :
    let parcel : Parcel := ⟨some [0, 0, 0, 3, 1], 5⟩
    let notified := (Session.initial.after refilledSlot).step (.hub (.notify 0x4c parcel))
    Backed parcel ∧ listening (history refilledSlot) = some .resubmitting ∧
      notified.2.answer = .number 1 ∧ outermost false notified.2.reports = [.resubmitting] := by
  intro parcel notified
  have backed : Backed parcel := by
    intro bytes data _
    rw [← Option.some.inj data]
    decide
  have named : listening (history refilledSlot) = some .resubmitting := by decide +kernel
  obtain ⟨_, answer, _, calls, _⟩ := frames_follow_registration refilledSlot 0x4c backed
  rw [if_neg (by decide), if_pos (by decide)] at answer
  rw [answer, named] at calls
  exact ⟨backed, named, answer, calls⟩

end NfcPolling.RegistrationHistory
