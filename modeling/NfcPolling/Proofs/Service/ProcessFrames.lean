import NfcPolling.Proofs.Journal.Transcripts
import NfcPolling.Service.Process

/-! A process has two sides, that of the callbacks and that of the configuration. Whatever
is done about callbacks and frames takes the first side along as the hub does, callbacks
that enter the service again included, and leaves the other as it is. -/
namespace NfcPolling.ProcessFrames
open NfcPolling.Service Process Settings Journal Filtering Transcripts

variable {α β : Type}

/-- The callback side of a process. -/
def hub (p : Process) : Hub := ⟨p.slots, p.registered, p.prepared⟩

/-- The process with its callback side replaced. -/
def withHub (p : Process) (hub : Hub) : Process :=
  { p with slots := hub.slots, registered := hub.registered, prepared := hub.prepared }

/-- The other side, with the table when it is loaded. -/
def configuration (p : Process) : Configuration :=
  ⟨p.surroundings, if p.loaded then some p.config else none, ⟨p.levels, p.debugging⟩⟩

def session (p : Process) : Session := ⟨hub p, configuration p⟩

theorem unloaded_iff {p : Process} : (configuration p).loaded = none ↔ p.loaded = false := by
  cases loaded : p.loaded <;> simp [configuration, loaded]

theorem loaded_iff {p : Process} {table : Table} :
    (configuration p).loaded = some table ↔ p.loaded = true ∧ p.config = table := by
  cases loaded : p.loaded <;> simp [configuration, loaded]

@[simp] theorem hub_withHub (p : Process) (held : Hub) : hub (withHub p held) = held := rfl

@[simp] theorem configuration_withHub (p : Process) (held : Hub) :
    configuration (withHub p held) = configuration p := rfl

@[simp] theorem levels_withHub (p : Process) (held : Hub) :
    (withHub p held).levels = p.levels := rfl

@[simp] theorem withHub_hub (p : Process) : withHub p (hub p) = p := rfl

/-- What happens on the callback side: the hub afterwards, a result and what was seen. -/
abbrev Side (α : Type) : Type := Hub → Noted Entry (Hub × α × List Report)

/-- The action does to its process what is done to the hub, and nothing else. Its result
and what is seen depend on the hub alone; the levels decide what is written. -/
def Follows (action : Act α) (side : Side α) : Prop :=
  ∀ p, action p = ⟨(side (hub p)).value.2.1, withHub p (side (hub p)).value.1,
    p.levels.written (side (hub p)).notes, (side (hub p)).value.2.2⟩

theorem Follows.of_same {action : Act α} {side other : Side α} (follows : Follows action side)
    (same : ∀ held, side held = other held) : Follows action other := by
  intro p
  rw [follows p, same]

theorem follows_pure (a : α) : Follows (pure a) fun held => pure (held, a, []) := fun _ => rfl

theorem follows_bind {first : Act α} {side : Side α} {next : α → Act β} {later : α → Side β}
    (earlier : Follows first side) (rest : ∀ a, Follows (next a) (later a)) :
    Follows (first >>= next) fun held => do
      let (between, a, reports) ← side held
      let (final, b, more) ← later a between
      return (final, b, reports ++ more) := by
  intro p
  rw [Act.at_bind, earlier p]
  simp only [rest _ _, hub_withHub, levels_withHub, Noted.value_bind, Noted.notes_bind,
    Noted.value_pure, Noted.notes_pure, List.append_nil, written_append]
  rfl

theorem follows_logged {logged : Logged α} {full : Noted Entry α} (filters : Filters logged full) :
    Follows (Act.logged logged) fun held => do return (held, ← full, []) := by
  intro p
  rw [Act.logged, filters p.levels]
  simp [Noted.atLevels]

theorem follows_remark (notice : Service.Notice) :
    Follows (Act.logged (remark notice)) fun held => ⟨(held, (), []), [.api notice]⟩ :=
  follows_logged (filters_note (.api notice))

theorem follows_report (report : Report) :
    Follows (Act.report report) fun held => pure (held, (), [report]) := fun _ => rfl

theorem follows_setCallback (slot : Option (Fin 4)) :
    Follows (setCallback slot) fun held => pure ({ held with registered := slot }, (), []) :=
  fun _ => rfl

theorem follows_getCallback :
    Follows getCallback fun held => pure (held, held.listener, []) := fun _ => rfl

/-- Submitting, as something that happens on the callback side. -/
def submitting (submit : Hub → Noted Entry Hub.Outcome) : Side Int := fun held => do
  let outcome ← submit held
  return (outcome.hub, outcome.result, outcome.reports)

/-- A callback can submit in both or in neither. -/
def Again (again : Option (Act Int)) (resubmit : Option (Hub → Noted Entry Hub.Outcome)) : Prop :=
  Option.Rel (fun action submit => Follows action (submitting submit)) again resubmit

section Frames
variable {again : Option (Act Int)} {resubmit : Option (Hub → Noted Entry Hub.Outcome)}
  (alike : Again again resubmit)
include alike

theorem call_follows (callback : Callback) (event : Event) :
    Follows (call again callback event) fun held => do
      let (final, reports) ← held.call resubmit callback event
      return (final, (), reports) := by
  have seen := follows_report (.call callback (.ofEvent event))
  cases callback with
  | first => exact follows_bind seen fun _ => follows_pure ()
  | second => exact follows_bind seen fun _ => follows_pure ()
  | withdrawing => exact follows_bind seen fun _ => follows_setCallback none
  | resubmitting =>
    cases alike with
    | none => exact follows_bind seen fun _ => follows_pure ()
    | some submits =>
      have inner := follows_bind submits fun result => follows_report (.resubmitted result)
      refine (follows_bind seen fun _ => inner).of_same fun held => ?_
      simp [submitting, Hub.call, bind, pure]

theorem hear_follows (listener : Option Callback) (event : Event) :
    Follows (hear again listener event) fun held => do
      let (final, reports) ← held.deliver resubmit listener [event]
      return (final, (), reports) := by
  cases listener with
  | none => exact follows_remark _
  | some callback =>
    refine (call_follows alike callback event).of_same fun held => ?_
    simp [Hub.deliver, bind, pure]

theorem notifyFrame_follows (listener : Option Callback) (frame : Frame) :
    Follows (notifyFrame again listener frame) fun held => do
      let delivery ← Delivery.ofFrame frame
      let (final, reports) ← held.deliver resubmit listener delivery.events
      return (final, delivery.accepted, reports) := by
  have decoded := follows_logged (LoopProgress.decode_in_place frame .empty)
  have heard : ∀ outcome : Bool × Event,
      Follows (do
          if outcome.1 then hear again listener outcome.2
          return outcome.1) fun held => do
        let events := if outcome.1 then [outcome.2] else []
        let (final, reports) ← held.deliver resubmit listener events
        return (final, outcome.1, reports) := by
    rintro ⟨accepted, event⟩
    cases accepted with
    | false => exact follows_pure false
    | true =>
      refine (follows_bind (hear_follows alike listener event) fun _ => follows_pure true).of_same
        fun held => ?_
      simp [bind, pure]
  refine (follows_bind decoded heard).of_same fun held => ?_
  simp [Delivery.ofFrame, LoopProgress.entered, bind, pure]

theorem notifyVendor_follows (listener : Option Callback) (event : UInt8) (frame : Frame) :
    Follows (notifyVendor again listener event frame) fun held => do
      let delivery ← Delivery.ofVendor event frame
      let (final, reports) ← held.deliver resubmit listener delivery.events
      return (final, delivery.accepted, reports) := by
  have quiet (notice : Service.Notice) : Follows (do Act.logged (remark notice); return false)
      fun held => ⟨(held, false, []), [.api notice]⟩ :=
    follows_bind (follows_remark notice) fun _ => follows_pure false
  unfold notifyVendor Delivery.ofVendor
  cases Subject.of event frame with
  | foreign identifier => exact quiet _
  | missing => exact quiet _
  | other opcode => exact quiet _
  | polling =>
    have dropped : ∀ accepted : Bool,
        Follows (do
            if !accepted then Act.logged (remark .frameDropped)
            return true) fun held =>
          ⟨(held, true, []), if accepted then [] else [.api .frameDropped]⟩ := by
      intro accepted
      cases accepted with
      | false => exact follows_bind (follows_remark _) fun _ => follows_pure true
      | true => exact follows_pure true
    refine (follows_bind (notifyFrame_follows alike listener frame) dropped).of_same fun held => ?_
    -- A frame that is dropped has no event, so its remark may come before the delivery.
    cases accepted : (Delivery.ofFrame frame).value.accepted with
    | false =>
      have unheard : (Delivery.ofFrame frame).value.events = [] :=
        if_neg (Bool.eq_false_iff.mp accepted)
      simp [accepted, unheard, Hub.deliver, bind, pure]
    | true => simp [accepted, bind, pure]

theorem offer_follows (listener : Option Callback) (frame : Frame) :
    Follows (offer again listener frame) fun held =>
      match listener with
      | none => ⟨(held, 0, []), [.api .unheardFrame]⟩
      | some callback => do
        let delivery ← Delivery.ofFrame frame
        let (final, reports) ← held.deliver resubmit (some callback) delivery.events
        return (final, if delivery.accepted then 1 else 0, reports) := by
  cases listener with
  | none => exact follows_bind (follows_remark _) fun _ => follows_pure 0
  | some callback =>
    refine (follows_bind (notifyFrame_follows alike (some callback) frame) fun accepted =>
      follows_pure (if accepted then 1 else 0)).of_same fun held => ?_
    simp [bind, pure]

theorem submitWith_follows (parcel : Parcel) :
    Follows (submitWith again parcel) (submitting (·.submitWith resubmit parcel)) := by
  unfold submitWith submitting Hub.submitWith
  cases parcel.frame? with
  | none => exact follows_bind (follows_remark _) fun _ => follows_pure (-1)
  | some frame =>
    refine (follows_bind follows_getCallback fun listener =>
      offer_follows alike listener frame).of_same fun held => ?_
    cases listener : held.listener <;> simp [listener, bind, pure]

end Frames

theorem resubmit_follows : Follows Process.resubmit (submitting Hub.resubmit) := by
  intro p
  have alone : Again none none := .none
  exact submitWith_follows alone (.ofBytes p.prepared) p

theorem again_resubmit : Again (some Process.resubmit) (some Hub.resubmit) :=
  .some resubmit_follows

theorem submit_follows (parcel : Parcel) :
    Follows (Process.submit parcel) (submitting (·.submit parcel)) :=
  submitWith_follows again_resubmit parcel

theorem notify_follows (event : UInt8) (parcel : Parcel) :
    Follows (Process.notify event parcel) (submitting (·.notify event parcel)) := by
  unfold Process.notify submitting Hub.notify
  cases parcel.frame? with
  | none => exact follows_bind (follows_remark _) fun _ => follows_pure (-1)
  | some frame =>
    have handled (listener : Option Callback) :=
      follows_bind (notifyVendor_follows again_resubmit listener event frame) fun accepted =>
        follows_pure (if accepted then (1 : Int) else 0)
    refine (follows_bind follows_getCallback handled).of_same fun held => ?_
    simp [bind, pure]

/-- What a step about callbacks and frames comes to is what it comes to for the hub. -/
theorem act_follows [Dialect] (step : Hub.Step) :
    Follows (act (.hub step)) fun held => held.step step := by
  cases step with
  | assign slot callback =>
    intro p
    have inside : p.slots.setIfInBounds slot callback = p.slots.set slot callback := by
      ext i bound
      rw [Vector.getElem_setIfInBounds, Vector.getElem_set]
    simp only [act, Act.at_bind, Act.change, inside]
    rfl
  | prepare frame => exact fun _ => rfl
  | register slot => exact fun _ => rfl
  | deregister => exact fun _ => rfl
  | submit parcel =>
    refine (follows_bind (submit_follows parcel) fun result =>
      follows_pure (Answer.number result)).of_same fun held => ?_
    simp [submitting, Hub.step, bind, pure]
  | notify event parcel =>
    refine (follows_bind (notify_follows event parcel) fun result =>
      follows_pure (Answer.number result)).of_same fun held => ?_
    simp [submitting, Hub.step, bind, pure]

end NfcPolling.ProcessFrames
