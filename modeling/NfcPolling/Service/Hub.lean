import NfcPolling.Service.Notification

/-! The callback side of the service. A caller keeps callbacks in slots and
registers one slot; what the slot holds when a frame arrives is what hears of
it. A callback may withdraw the registration or submit a frame of its own while
it runs, and frames submitted that way lead to no further ones. -/
namespace NfcPolling.Service

open Journal (Entry Noted)

/-- What a callback does when it hears an event. -/
inductive Callback where
  | first
  /-- Takes note of the event, too; told apart by name only. -/
  | second
  /-- Takes note of the event and ends the registration. -/
  | withdrawing
  /-- Takes note of the event and submits the prepared frame. -/
  | resubmitting
  deriving DecidableEq, Repr

/-- An event as a callback is given it: a part that is not known is zero, and an
empty payload is no payload at all. -/
structure Call where
  hasType : Bool
  type : UInt8
  hasGain : Bool
  gain : Int8
  hasTimestamp : Bool
  timestamp : UInt32
  hasPayload : Bool
  payload : Option Bytes
  payloadLength : Nat
  deriving DecidableEq, Repr

def Call.ofEvent (e : Event) : Call where
  hasType := e.type.isSome
  type := e.type.getD 0
  hasGain := e.gain.isSome
  gain := e.gain.getD 0
  hasTimestamp := e.timestamp.isSome
  timestamp := e.timestamp.getD 0
  hasPayload := e.payload.isSome
  payload := if e.payload.getD [] = [] then none else some (e.payload.getD [])
  payloadLength := (e.payload.getD []).length

/-- What a caller sees while its step runs. -/
inductive Report where
  | call (callback : Callback) (call : Call)
  /-- The result of the frame that a callback submitted. -/
  | resubmitted (result : Int)
  deriving DecidableEq, Repr

/-- Data as a caller hands it over: perhaps none, with a length of its own. -/
structure Parcel where
  data : Option Bytes
  length : UInt32
  deriving DecidableEq, Repr

namespace Parcel

/-- The parcel of a byte string; an empty one is handed over as no data. -/
def ofBytes (bytes : Bytes) : Parcel :=
  if bytes = [] then ⟨none, 0⟩ else ⟨some bytes, UInt32.ofNat bytes.length⟩

/-- Missing data must have length zero, and no length may exceed sixteen bits. -/
def isValid (parcel : Parcel) : Bool :=
  (parcel.data.isSome || parcel.length = 0) && parcel.length.toNat ≤ maxFrameLength

def frame? (parcel : Parcel) : Option Frame :=
  if parcel.isValid then some (Frame.ofData parcel.data parcel.length.toUInt16) else none

end Parcel

structure Hub where
  slots : Vector (Option Callback) 4
  registered : Option (Fin 4)
  prepared : Bytes
  deriving DecidableEq, Repr

namespace Hub

/-- Empty slots, and none of them registered. -/
def initial : Hub := ⟨Vector.replicate 4 none, none, []⟩

/-- The callback that hears of a frame that arrives now. -/
def listener (hub : Hub) : Option Callback := hub.registered.bind fun slot => hub.slots[slot]

def deregister (hub : Hub) : Hub := { hub with registered := none }

/-- What came of a step: the hub afterwards, the result and what was seen. -/
structure Outcome where
  hub : Hub
  result : Int
  reports : List Report
  deriving DecidableEq, Repr

/-- A callback hears an event. `resubmit` is what submitting the prepared frame
does, where that is possible. -/
def call (resubmit : Option (Hub → Noted Entry Outcome)) (hub : Hub) (callback : Callback)
    (event : Event) : Noted Entry (Hub × List Report) :=
  let seen := Report.call callback (.ofEvent event)
  match callback, resubmit with
  | .withdrawing, _ => ⟨(hub.deregister, [seen]), []⟩
  | .resubmitting, some submit =>
    let inner := submit hub
    ⟨(inner.value.hub, seen :: inner.value.reports ++ [.resubmitted inner.value.result]),
      inner.notes⟩
  | _, _ => ⟨(hub, [seen]), []⟩

/-- The listener, if there is one, hears the events in order. -/
def deliver (resubmit : Option (Hub → Noted Entry Outcome)) (listener : Option Callback)
    (hub : Hub) : List Event → Noted Entry (Hub × List Report)
  | [] => pure (hub, [])
  | event :: rest => do
    let (next, reports) ←
      match listener with
      | none => ⟨(hub, []), [.api .unheardEvent]⟩
      | some callback => hub.call resubmit callback event
    let (final, more) ← next.deliver resubmit listener rest
    return (final, reports ++ more)

/-- Submits a frame: minus one if there is no proper one, one if it was decoded
and delivered, zero otherwise. The listener is the one at the start. -/
def submitWith (resubmit : Option (Hub → Noted Entry Outcome)) (hub : Hub) (parcel : Parcel) :
    Noted Entry Outcome :=
  match parcel.frame? with
  | none => ⟨⟨hub, -1, []⟩, [.api (.invalidFrame parcel.length.toNat)]⟩
  | some frame =>
    match hub.listener with
    | none => ⟨⟨hub, 0, []⟩, [.api .unheardFrame]⟩
    | some callback => do
      let delivery ← Delivery.ofFrame frame
      let (next, reports) ← hub.deliver resubmit (some callback) delivery.events
      return ⟨next, if delivery.accepted then 1 else 0, reports⟩

/-- Submits the prepared frame from inside a callback. -/
def resubmit (hub : Hub) : Noted Entry Outcome := hub.submitWith none (.ofBytes hub.prepared)

def submit (hub : Hub) (parcel : Parcel) : Noted Entry Outcome :=
  hub.submitWith (some resubmit) parcel

/-- Submits a vendor notification: minus one if there is no proper one, one if it
is about polling, zero otherwise. It is handled even if nobody listens. -/
def notify (hub : Hub) (event : UInt8) (parcel : Parcel) : Noted Entry Outcome :=
  match parcel.frame? with
  | none => ⟨⟨hub, -1, []⟩, [.api (.invalidNotification parcel.length.toNat)]⟩
  | some frame => do
    let delivery ← Delivery.ofVendor event frame
    let (next, reports) ← hub.deliver (some resubmit) hub.listener delivery.events
    return ⟨next, if delivery.accepted then 1 else 0, reports⟩

inductive Step where
  /-- Puts a callback, or none, into a slot. -/
  | assign (slot : Fin 4) (callback : Option Callback)
  /-- Prepares the frame that callbacks submit. -/
  | prepare (frame : Bytes)
  /-- Registers a slot in place of the one before; no slot ends the registration. -/
  | register (slot : Option (Fin 4))
  | deregister
  | submit (parcel : Parcel)
  | notify (event : UInt8) (parcel : Parcel)
  deriving DecidableEq, Repr

/-- What a step comes to. Only frames and notifications have a result. -/
def step (hub : Hub) : Step → Noted Entry (Hub × Answer × List Report)
  | .assign slot callback =>
    return ({ hub with slots := hub.slots.set slot callback }, .nothing, [])
  | .prepare frame => return ({ hub with prepared := frame }, .nothing, [])
  | .register slot => return ({ hub with registered := slot }, .nothing, [])
  | .deregister => return (hub.deregister, .nothing, [])
  | .submit parcel => do
    let outcome ← hub.submit parcel
    return (outcome.hub, .number outcome.result, outcome.reports)
  | .notify event parcel => do
    let outcome ← hub.notify event parcel
    return (outcome.hub, .number outcome.result, outcome.reports)

end Hub

end NfcPolling.Service
