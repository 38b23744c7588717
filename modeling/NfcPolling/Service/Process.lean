import NfcPolling.Service.Session
import NfcPolling.Settings.InPlace

/-! The service inside one process. All that it keeps lies in one record, which every
entry point is given and may change at any moment, and the levels of that moment decide
what is written. Callbacks run in the middle of an entry point and may enter another. -/
namespace NfcPolling.Service

open Journal (Entry Levels Logged)
open Settings (Dialect FileKind Surroundings Table Verbosity)

/-- What surrounds the process, and what the service keeps. -/
structure Process where
  surroundings : Surroundings
  /-- The bindings of the configuration. -/
  config : Table
  /-- Was the configuration loaded since it was last cleared? -/
  loaded : Bool
  levels : Levels
  debugging : Bool
  slots : Vector (Option Callback) 4
  registered : Option (Fin 4)
  prepared : Bytes
  deriving DecidableEq, Repr

/-- What an action came to, and the process behind it. -/
structure Done (α : Type) where
  value : α
  process : Process
  /-- The entries that were written. -/
  entries : List Entry
  reports : List Report
  deriving DecidableEq, Repr

/-- Something that is done in a process. -/
abbrev Act (α : Type) : Type := Process → Done α

namespace Act

variable {α β : Type}

instance : Monad Act where
  pure value := fun p => ⟨value, p, [], []⟩
  bind first next := fun p =>
    let earlier := first p
    let later := next earlier.value earlier.process
    ⟨later.value, later.process, earlier.entries ++ later.entries,
      earlier.reports ++ later.reports⟩

@[simp] theorem at_pure (a : α) (p : Process) : (pure a : Act α) p = ⟨a, p, [], []⟩ := rfl

theorem at_bind (first : Act α) (next : α → Act β) (p : Process) :
    (first >>= next) p =
      let earlier := first p
      let later := next earlier.value earlier.process
      ⟨later.value, later.process, earlier.entries ++ later.entries,
        earlier.reports ++ later.reports⟩ := rfl

theorem bind_assoc {γ : Type} (first : Act α) (second : α → Act β) (third : β → Act γ) :
    first >>= second >>= third = first >>= fun a => second a >>= third := by
  funext p
  simp only [at_bind, List.append_assoc]

/-- What is done behind something whose outcome is known. -/
theorem bind_done {first : Act α} {p q : Process} {a : α} {entries : List Entry}
    {reports : List Report} (done : first p = ⟨a, q, entries, reports⟩) (next : α → Act β) :
    (first >>= next) p =
      ⟨(next a q).value, (next a q).process, entries ++ (next a q).entries,
        reports ++ (next a q).reports⟩ := by
  rw [at_bind, done]

def look : Act Process := fun p => ⟨p, p, [], []⟩

def change (f : Process → Process) : Act Unit := fun p => ⟨(), f p, [], []⟩

def report (report : Report) : Act Unit := fun p => ⟨(), p, [], [report]⟩

/-- Writes at the levels of the moment. -/
def logged (f : Logged α) : Act α := fun p => ⟨(f p.levels).value, p, (f p.levels).notes, []⟩

end Act

namespace Process

open Act

/-- A process in which the service has not been used. -/
def fresh (surroundings : Surroundings) : Process where
  surroundings := surroundings
  config := .empty
  loaded := false
  levels := Levels.initial
  debugging := false
  slots := Vector.replicate 4 none
  registered := none
  prepared := []

/-! ## Callbacks and frames -/

/-- The callback in the slot that is registered. -/
def getCallback : Act (Option Callback) := do
  let p ← look
  return p.registered.bind fun slot => p.slots.get slot

def setCallback (slot : Option (Fin 4)) : Act Unit := change fun p => { p with registered := slot }

/-- A callback runs. `again` submits the prepared frame, where that is possible. -/
def call (again : Option (Act Int)) (callback : Callback) (event : Event) : Act Unit := do
  report (.call callback (.ofEvent event))
  match callback, again with
  | .withdrawing, _ => setCallback none
  | .resubmitting, some submit => report (.resubmitted (← submit))
  | _, _ => return ()

/-- The callback that was found when the frame arrived hears the event. -/
def hear (again : Option (Act Int)) (listener : Option Callback) (event : Event) : Act Unit :=
  match listener with
  | none => logged (remark .unheardEvent)
  | some callback => call again callback event

def notifyFrame (again : Option (Act Int)) (listener : Option Callback) (frame : Frame) :
    Act Bool := do
  let (accepted, event) ← logged (frame.decodeInPlace .empty)
  if accepted then hear again listener event
  return accepted

def notifyVendor (again : Option (Act Int)) (listener : Option Callback) (event : UInt8)
    (frame : Frame) : Act Bool :=
  match Subject.of event frame with
  | .foreign identifier => do
    logged (remark (.foreignNotification identifier))
    return false
  | .missing => do
    logged (remark (.notificationTooShort frame.length))
    return false
  | .other opcode => do
    logged (remark (.unknownNotification opcode))
    return false
  | .polling => do
    let accepted ← notifyFrame again listener frame
    if !accepted then logged (remark .frameDropped)
    return true

/-- What a frame comes to for the callback that was found. -/
def offer (again : Option (Act Int)) (listener : Option Callback) (frame : Frame) : Act Int :=
  match listener with
  | none => do
    logged (remark .unheardFrame)
    return 0
  | some callback => return if ← notifyFrame again (some callback) frame then 1 else 0

def submitWith (again : Option (Act Int)) (parcel : Parcel) : Act Int :=
  match parcel.frame? with
  | none => do
    logged (remark (.invalidFrame parcel.length.toNat))
    return -1
  | some frame => do offer again (← getCallback) frame

/-- Submits the prepared frame from inside a callback. -/
def resubmit : Act Int := do submitWith none (.ofBytes (← look).prepared)

def submit (parcel : Parcel) : Act Int := submitWith (some resubmit) parcel

def notify (event : UInt8) (parcel : Parcel) : Act Int :=
  match parcel.frame? with
  | none => do
    logged (remark (.invalidNotification parcel.length.toNat))
    return -1
  | some frame => do
    let listener ← getCallback
    return if ← notifyVendor (some resubmit) listener event frame then 1 else 0

/-! ## Configuration and levels -/

variable [Dialect]

/-- Reads a file into the bindings that are held. -/
def parseFile (path : Bytes) : Act Bool := do
  let p ← look
  let (config, valid) ← logged (p.config.loadInPlace p.surroundings.files path)
  change fun p => { p with config := config }
  return valid

def loadConfig : Act Unit := do
  logged (Settings.remark .loadBegins)
  change fun p => { p with loaded := true }
  match ← logged ((← look).surroundings.locateInPlace .configuration) with
  | none => logged (Settings.remark .noFile)
  | some path =>
    if !(← parseFile path) then logged (Settings.remark (.invalidEntries path))
    logged (Settings.remark .loadEnds)

/-- Loads the configuration if it is not loaded. -/
def access : Act Unit := do
  if !(← look).loaded then loadConfig

def hasKey (key : Bytes) : Act Bool := do
  access
  return (← look).config.has key

def getUnsigned (key : Bytes) : Act UInt32 := do
  access
  logged ((← look).config.unsignedInPlace key)

/-- The number of a key when it is bound. -/
def getSetting (key : Bytes) : Act (Option UInt32) := do
  if ← hasKey key then return some (← getUnsigned key) else return none

def clear : Act Unit := change fun p => { p with config := .empty, loaded := false }

/-- Sets debugging and the global level. -/
def setGlobalLevel : Act UInt8 := do
  let debugSetting ← getSetting Verbosity.debugKey
  change fun p => { p with debugging := debugSetting.getD 0 ≠ 0 }
  let globalSetting ← getSetting Verbosity.globalKey
  let level := Verbosity.globalLevel (← look).debugging globalSetting
  change fun p => { p with levels.global := level }
  return level

/-- Sets the level of one source. -/
def setSourceLevel (source : Journal.Source) (level : UInt8) : Act Unit := do
  let setting ← getSetting (Verbosity.sourceKey source)
  change fun p =>
    { p with levels := p.levels.put source (Verbosity.sourceLevel level setting) }

def readLevels : Act Unit := do
  let level ← setGlobalLevel
  setSourceLevel .decoder level
  setSourceLevel .api level
  setSourceLevel .config level
  logged (remark (.verbosity (← look).levels))

def start : Act Int := do
  readLevels
  logged (remark .starting)
  return 0

def stop : Act Int := do
  logged (remark .stopping)
  setCallback none
  clear
  return 0

/-! ## Steps -/

/-- What is done in a step, and its answer. -/
def act : Session.Step → Act Answer
  | .hub step =>
    match step with
    | .assign slot callback => do
      change fun p => { p with slots := p.slots.setIfInBounds slot callback }
      return .nothing
    | .prepare frame => do
      change fun p => { p with prepared := frame }
      return .nothing
    | .register slot => do
      setCallback slot
      return .nothing
    | .deregister => do
      setCallback none
      return .nothing
    | .submit parcel => return .number (← submit parcel)
    | .notify event parcel => return .number (← notify event parcel)
  | .configuration step =>
    match step with
    | .change step => do
      change fun p => { p with surroundings.files := p.surroundings.files.apply step }
      return .nothing
    | .setDirectory directory => do
      change fun p => { p with surroundings.directory := directory }
      return .nothing
    | .setLevels levels => do
      change fun p => { p with levels := levels }
      return .nothing
    | .start => return .number (← start)
    | .readLevels => do
      readLevels
      return .nothing
    | .has key => return .flag (← hasKey key)
    | .unsigned key none => return .number (← getUnsigned key).toNat
    | .unsigned key (some default) =>
      return .number ((← getSetting key).getD default).toNat
    | .forget => do
      clear
      return .nothing
    | .locate kind =>
      return .text ((← logged ((← look).surroundings.locateInPlace kind)).getD [])
  | .stop => return .number (← stop)

def step (p : Process) (next : Session.Step) : Process × Session.Outcome :=
  let done := act next p
  let verbosity : Verbosity := ⟨done.process.levels, done.process.debugging⟩
  (done.process, ⟨done.value, done.reports, done.entries, verbosity⟩)

def after (p : Process) (steps : List Session.Step) : Process :=
  steps.foldl (fun p next => (p.step next).1) p

/-- What the caller learns from each of the steps. -/
def run (p : Process) : List Session.Step → List Session.Outcome
  | [] => []
  | next :: rest => (p.step next).2 :: (p.step next).1.run rest

@[simp] theorem after_nil (p : Process) : p.after [] = p := rfl

@[simp] theorem after_cons (p : Process) (next : Session.Step) (rest : List Session.Step) :
    p.after (next :: rest) = (p.step next).1.after rest := rfl

@[simp] theorem after_append (p : Process) (earlier later : List Session.Step) :
    p.after (earlier ++ later) = (p.after earlier).after later := List.foldl_append

theorem run_append (p : Process) (earlier later : List Session.Step) :
    p.run (earlier ++ later) = p.run earlier ++ (p.after earlier).run later := by
  induction earlier generalizing p with
  | nil => rfl
  | cons next rest ih => exact congrArg (_ :: ·) (ih (p.step next).1)

end Process

end NfcPolling.Service
