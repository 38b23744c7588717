import NfcPolling.Proofs.Service.SeparatePaths

/-! Stopping the service and starting it again is as good as a new process. Levels,
debugging, the loaded configuration and the registration are those of a service
that is started for the first time where the same files are. -/
namespace NfcPolling.Restart
open NfcPolling.Service Process Settings Journal ProcessFrames ProcessSteps SeparatePaths

/-- Submitting a frame while nothing is registered leaves the hub alone. The result
and what is remarked depend on the frame only. -/
theorem submit_unregistered (parcel : Parcel) :
    ∃ result notes, ∀ hub : Hub, hub.registered = none →
      hub.submit parcel = ⟨⟨hub, result, []⟩, notes⟩ := by
  cases given : parcel.frame? with
  | none =>
    refine ⟨-1, [.api (.invalidFrame parcel.length.toNat)], fun hub _ => ?_⟩
    rw [Hub.submit, Hub.submitWith, given]
  | some frame =>
    refine ⟨0, [.api .unheardFrame], fun hub free => ?_⟩
    rw [Hub.submit, Hub.submitWith, given, Hub.listener, free]
    rfl

theorem deliver_unheard (resubmit : Option (Hub → Noted Entry Hub.Outcome)) (events : List Event)
    (hub : Hub) :
    hub.deliver resubmit none events = ⟨(hub, []), events.map fun _ => .api .unheardEvent⟩ := by
  induction events with
  | nil => rfl
  | cons event rest ih =>
    simp [Hub.deliver, bind, pure, ih]

theorem notify_unregistered (event : UInt8) (parcel : Parcel) :
    ∃ result notes, ∀ hub : Hub, hub.registered = none →
      hub.notify event parcel = ⟨⟨hub, result, []⟩, notes⟩ := by
  cases given : parcel.frame? with
  | none =>
    refine ⟨-1, [.api (.invalidNotification parcel.length.toNat)], fun hub _ => ?_⟩
    rw [Hub.notify, given]
  | some frame =>
    let delivery := Delivery.ofVendor event frame
    refine ⟨if delivery.value.accepted then 1 else 0,
      delivery.notes ++ delivery.value.events.map fun _ => .api .unheardEvent, fun hub free => ?_⟩
    simp [Hub.notify, given, Hub.listener, free, deliver_unheard, bind, pure, delivery]

/-- Does the step register a slot? -/
def registers : Session.Step → Bool
  | .hub (.register (some _)) => true
  | _ => false

/-- A hub without a registration stays without one and shows nothing of its slots
and its prepared frame, until a slot is registered. -/
theorem step_unregistered {step : Hub.Step} (other : registers (.hub step) = false) :
    ∃ shown notes, ∀ hub : Hub, hub.registered = none →
      (hub.step step).value.1.registered = none ∧ (hub.step step).value.2 = shown ∧
        (hub.step step).notes = notes := by
  -- What is shown is named before the hub is, so that it cannot depend on the hub.
  cases step with
  | assign slot callback => exact ⟨_, _, fun hub free => ⟨free, rfl, rfl⟩⟩
  | prepare frame => exact ⟨_, _, fun hub free => ⟨free, rfl, rfl⟩⟩
  | deregister => exact ⟨_, _, fun hub free => ⟨rfl, rfl, rfl⟩⟩
  | register slot =>
    cases slot with
    | none => exact ⟨_, _, fun hub free => ⟨rfl, rfl, rfl⟩⟩
    | some slot => cases other
  | submit parcel =>
    obtain ⟨result, notes, told⟩ := submit_unregistered parcel
    refine ⟨(.number result, []), notes, fun hub free => ?_⟩
    simp [Hub.step, told hub free, free]
  | notify event parcel =>
    obtain ⟨result, notes, told⟩ := notify_unregistered event parcel
    refine ⟨(.number result, []), notes, fun hub free => ?_⟩
    simp [Hub.step, told hub free, free]

/-- Nothing is registered in either session, and the configuration sides are equal. -/
structure Alike (s t : Session) : Prop where
  configuration : s.configuration = t.configuration
  left : s.hub.registered = none
  right : t.hub.registered = none

theorem step_alike [Dialect] {s t : Session} (alike : Alike s t) {next : Session.Step}
    (other : registers next = false) :
    (s.step next).2 = (t.step next).2 ∧ Alike (s.step next).1 (t.step next).1 := by
  obtain ⟨same, left, right⟩ := alike
  cases next with
  | hub step =>
    obtain ⟨shown, notes, told⟩ := step_unregistered other
    obtain ⟨leftFree, leftShown, leftNotes⟩ := told s.hub left
    obtain ⟨rightFree, rightShown, rightNotes⟩ := told t.hub right
    refine ⟨?_, same, leftFree, rightFree⟩
    simp only [Session.step, leftShown, rightShown, leftNotes, rightNotes, same]
  | configuration step =>
    refine ⟨?_, ?_, left, right⟩
    · simp only [Session.step, same]
    · simp only [Session.step, same]
  | stop =>
    refine ⟨?_, congrArg Configuration.forget same, rfl, rfl⟩
    simp only [Session.step, same]

/-- Until a slot is registered the two sessions cannot be told apart. -/
theorem run_alike [Dialect] {s t : Session} (alike : Alike s t) {later : List Session.Step}
    (other : ∀ step ∈ later, registers step = false) : s.run later = t.run later := by
  induction later generalizing s t with
  | nil => rfl
  | cons next rest ih =>
    obtain ⟨shown, still⟩ := step_alike alike (other next (by simp))
    rw [Session.run, Session.run, shown,
      ih still fun step member => other step (List.mem_cons_of_mem next member)]

section Starting
variable [Dialect] {p : Process}

/-- The service was started where these files are, and nothing is registered. -/
structure StartedIn (s : Surroundings) (p : Process) : Prop where
  configured : configuration p = ⟨s, some s.load.value, s.load.value.verbosity.value⟩
  free : p.registered = none

/-- Where nothing is loaded, the surroundings alone decide what starting the service sets. -/
theorem start_unloaded (settled : Settled p) (unloaded : p.loaded = false)
    (free : p.registered = none) :
    StartedIn p.surroundings (p.after [.configuration .start]) := by
  have configures := act_configures settled .start
  have kept : ∀ q : Process, hub q = hub p → q.registered = none :=
    fun q same => (congrArg Hub.registered same).trans free
  rw [after_cons, after_nil]
  refine ⟨configures.after.trans ?_, kept _ configures.hub⟩
  rw [configuration, unloaded]
  rfl

theorem stop_unloads (p : Process) :
    let stopped := (p.step .stop).1
    stopped.loaded = false ∧ stopped.surroundings = p.surroundings ∧ stopped.registered = none := by
  rw [Process.step, stop_done]
  exact ⟨rfl, rfl, rfl⟩

theorem restart_started (settled : Settled p) :
    StartedIn p.surroundings (p.after [.stop, .configuration .start]) := by
  obtain ⟨unloaded, around, free⟩ := stop_unloads p
  rw [after_cons, ← around]
  exact start_unloaded (step_matches settled .stop).settled unloaded free

theorem first_started (s : Surroundings) : StartedIn s ((fresh s).after [.configuration .start]) :=
  start_unloaded (settled_fresh s) rfl rfl

/-- Whatever a run of a process left behind, stopping the service and starting it gives
the levels, the debug flag, the bindings and the registration that starting it gives in a
fresh process in the same surroundings: what the file there says, and no callback. Every
later step about the configuration comes to the same, and until a slot is registered
every later step does. -/
theorem restart_is_first_start (surroundings : Surroundings) (steps : List Session.Step) :
    let p := (fresh surroundings).after steps
    let restarted := p.after [.stop, .configuration .start]
    let started := (fresh p.surroundings).after [.configuration .start]
    let table := p.surroundings.load.value
    (restarted.levels = started.levels ∧ restarted.debugging = started.debugging ∧
      restarted.loaded = started.loaded ∧ restarted.config = started.config ∧
      restarted.registered = started.registered) ∧
    (started.loaded = true ∧ started.config = table ∧ started.registered = none ∧
      table.verbosity.value = ⟨started.levels, started.debugging⟩) ∧
    (∀ later, seen aboutConfiguration id restarted later =
      seen aboutConfiguration id started later) ∧
    ∀ later, (∀ step ∈ later, registers step = false) →
      restarted.run later = started.run later := by
  intro p restarted started table
  have settled : Settled p := settled_after (settled_fresh surroundings) steps
  have settledAgain : Settled restarted := settled_after settled _
  have settledFirst : Settled started := settled_after (settled_fresh p.surroundings) _
  have again : StartedIn p.surroundings restarted := restart_started settled
  have first : StartedIn p.surroundings started := first_started p.surroundings
  -- From here on it does not matter how the two processes came about.
  clear_value restarted started
  have same : configuration restarted = configuration started :=
    again.configured.trans first.configured.symm
  have levels : restarted.levels = started.levels := congrArg (·.verbosity.levels) same
  have debugging : restarted.debugging = started.debugging := congrArg (·.verbosity.debugging) same
  obtain ⟨reloaded, reread⟩ := loaded_iff.mp (congrArg Configuration.loaded again.configured)
  obtain ⟨loaded, config⟩ := loaded_iff.mp (congrArg Configuration.loaded first.configured)
  refine ⟨⟨levels, debugging, reloaded.trans loaded.symm, reread.trans config.symm,
    again.free.trans first.free.symm⟩, ⟨loaded, config, first.free, ?_⟩, ?asked, ?alike⟩
  · exact (congrArg Configuration.verbosity first.configured).symm
  case asked =>
    intro later
    exact seen_alike configuration_decides settledAgain settledFirst same later
  case alike =>
    intro later other
    have alike : Alike (session restarted) (session started) := ⟨same, again.free, first.free⟩
    rw [run_session settledAgain, run_session settledFirst]
    exact run_alike alike other

end Starting

/-- Everything that can be left behind: levels, debugging, a table, a registration,
a callback in its slot, a prepared frame, and a file that says something else now. -/
def leftBehind : List Session.Step :=
  let directory := Bytes.ascii "/tmp/conf"
  let path := Bytes.ascii "/tmp/conf/libnfc-plf.conf"
  [.configuration (.change (.makeDirectory directory)),
    .configuration (.setDirectory (some directory)),
    .configuration (.change (.write path (Bytes.ascii "NFC_DEBUG_ENABLED=1\nA=1"))),
    .configuration .start, .configuration (.setLevels ⟨9, 8, 7, 6⟩),
    .hub (.assign (Fin.last 3) (some .resubmitting)), .hub (.prepare [0, 0, 1, 0, 2]),
    .hub (.register (some (Fin.last 3))),
    .configuration (.change (.write path (Bytes.ascii "PLFLOG_API_LOGLEVEL=3\nB=2")))]

theorem restart_forgets_everything :
    let restarted := ((fresh Surroundings.initial).after leftBehind).after
      [.stop, .configuration .start]
    let frame : Session.Step := .hub (.submit ⟨some [0, 0, 1, 0, 1], 5⟩)
    registers frame = false ∧ restarted.levels = ⟨2, 2, 3, 2⟩ ∧ restarted.debugging = false ∧
      (restarted.run [.configuration (.has (Bytes.ascii "A")), frame]).map (·.answer) =
        [.flag false, .number 0] := by
  intro restarted frame
  have other : registers frame = false := rfl
  obtain ⟨⟨levels, debugging, _⟩, _, _, alike⟩ :=
    restart_is_first_start Surroundings.initial leftBehind
  have both : ∀ step ∈ [.configuration (.has (Bytes.ascii "A")), frame],
      registers step = false := by
    decide
  refine ⟨other, ?_, ?_, ?_⟩
  · rw [levels]
    decide +kernel
  · rw [debugging]
    decide +kernel
  · rw [alike _ both]
    decide +kernel

end NfcPolling.Restart
