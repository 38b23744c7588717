import NfcPolling.Frame.Progress

/-! Frames and the vendor notifications that carry them, as a listener receives
them. Every frame that can be decoded is delivered once; a vendor notification
counts as handled when it is about polling, even if its frame is dropped. -/
namespace NfcPolling.Service

open Journal (Entry Logged Noted)

/-- What a vendor notification is about. -/
inductive Subject where
  /-- The identifier belongs to another group. -/
  | foreign (identifier : UInt8)
  /-- The byte that would tell is missing. -/
  | missing
  | polling
  | other (opcode : UInt8)
  deriving DecidableEq, Repr

namespace Subject

/-- The bits of an event byte that identify the group. -/
def identifierMask : UInt8 := 0x3f

/-- The identifier of the group that is listened to. -/
def ownIdentifier : UInt8 := 0x0c

/-- Where a notification says what it is about. -/
def opcodeOffset : Nat := 3

def pollingOpcode : UInt8 := 3

/-- The subject of a notification. The group is looked at before the data. -/
def of (event : UInt8) (frame : Frame) : Subject :=
  if event &&& identifierMask ≠ ownIdentifier then foreign (event &&& identifierMask)
  else
    match frame.bytes[opcodeOffset]? with
    | none => missing
    | some opcode => if opcode = pollingOpcode then polling else other opcode

end Subject

/-- Something that arrives from the controller. -/
inductive Arrival where
  | frame (frame : Frame)
  | vendor (event : UInt8) (frame : Frame)
  deriving DecidableEq, Repr

structure Delivery where
  /-- Was a frame decoded, or a vendor notification handled? -/
  accepted : Bool
  /-- The events that the listener received. -/
  events : List Event
  deriving DecidableEq, Repr

namespace Delivery

/-- Decodes a frame from nothing and delivers the event. -/
def ofFrame (frame : Frame) : Noted Entry Delivery :=
  let decoding := frame.decode .empty
  ⟨⟨decoding.accepted, if decoding.accepted then [decoding.event] else []⟩,
    decoding.notices.map .decoder⟩

def ofVendor (event : UInt8) (frame : Frame) : Noted Entry Delivery :=
  match Subject.of event frame with
  | .foreign identifier => ⟨⟨false, []⟩, [.api (.foreignNotification identifier)]⟩
  | .missing => ⟨⟨false, []⟩, [.api (.notificationTooShort frame.length)]⟩
  | .other opcode => ⟨⟨false, []⟩, [.api (.unknownNotification opcode)]⟩
  | .polling =>
    let delivery := ofFrame frame
    ⟨⟨true, delivery.value.events⟩,
      delivery.notes ++ if delivery.value.accepted then [] else [.api .frameDropped]⟩

def ofArrival : Arrival → Noted Entry Delivery
  | .frame frame => ofFrame frame
  | .vendor event frame => ofVendor event frame

end Delivery

/-- Writes what the service has to say. -/
def remark (notice : Notice) : Logged Unit := .note (.api notice)

namespace Delivery

/-- Decodes a frame in place and delivers the event. -/
def ofFrameInPlace (frame : Frame) : Logged Delivery := do
  let (accepted, event) ← frame.decodeInPlace .empty
  return ⟨accepted, if accepted then [event] else []⟩

def ofVendorInPlace (event : UInt8) (frame : Frame) : Logged Delivery :=
  match Subject.of event frame with
  | .foreign identifier => do
    remark (.foreignNotification identifier)
    return ⟨false, []⟩
  | .missing => do
    remark (.notificationTooShort frame.length)
    return ⟨false, []⟩
  | .other opcode => do
    remark (.unknownNotification opcode)
    return ⟨false, []⟩
  | .polling => do
    let delivery ← ofFrameInPlace frame
    if !delivery.accepted then remark .frameDropped
    return ⟨true, delivery.events⟩

def ofArrivalInPlace : Arrival → Logged Delivery
  | .frame frame => ofFrameInPlace frame
  | .vendor event frame => ofVendorInPlace event frame

end Delivery

end NfcPolling.Service
