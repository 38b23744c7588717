import NfcPolling.Frame.Decode
import NfcPolling.Frame.Reader
import NfcPolling.Journal.Entry

/-! Decoding in place. A reader goes through the frame in machine words, and each
call for a record sets parts of one event and writes its remarks at the levels in
force. A call that finds no record is the last one; so is a call behind which no
byte remains. -/
namespace NfcPolling.Frame

open Journal (Entry Levels Logged)

/-- How far the frame has been read, and what is known by then. -/
structure Progress where
  reader : Reader
  event : Event
  deriving DecidableEq, Repr

/-- One call for a record, whether it found one, and what it wrote. -/
structure Call where
  before : Progress
  accepted : Bool
  after : Progress
  entries : List Entry
  deriving DecidableEq, Repr

/-- Writes what the decoder has to say. -/
def remark (notice : Notice) : Logged Unit := .note (.decoder notice)

namespace Progress

/-- The length byte, which is read first. -/
def lengthRead (r : Reader) : Reading UInt8 := r.readByte 0 0

/-- What is left of the frame, as a difference of words. -/
def left (r : Reader) : UInt32 := r.length.toUInt32 - r.position

/-- The end of the data of a record: what its length byte covers from the timestamp
on, or what is left. -/
def dataEnd (length : UInt8) (r : Reader) : UInt32 :=
  let covered := UInt32.ofNat timestampOffset + length.toUInt32
  if covered > left r then left r else covered

def dataRead (length : UInt8) (r : Reader) : Reading Bytes :=
  r.readBytes (UInt32.ofNat dataOffset) (dataEnd length r - UInt32.ofNat dataOffset) []

/-- Sets the type from the state of the field, unless that byte is missing. -/
def setField (p : Progress) : Logged Event :=
  let state := p.reader.readByte (UInt32.ofNat dataOffset) 0
  if state.done then
    let letter := if state.value ≠ 0 then Bytes.ofChar 'O' else Bytes.ofChar 'X'
    return p.event.apply (.type letter)
  else do
    remark .fieldStateMissing
    return p.event

/-- Sets the type of a frame of unknown technology, and its payload. -/
def setUnknown (length : UInt8) (p : Progress) : Logged Event :=
  let typed := p.event.apply (.type (Bytes.ofChar 'U'))
  let data := dataRead length p.reader
  if dataEnd length p.reader ≤ UInt32.ofNat dataOffset ∨ data.done = false then do
    remark .dataMissing
    return typed.apply (.payload [])
  else return typed.apply (.payload data.value)

def setType (tag length : UInt8) (p : Progress) : Logged Event :=
  if tag = 0 then setField p
  else if tag = 1 then return p.event.apply (.type (Bytes.ofChar 'A'))
  else if tag = 2 then return p.event.apply (.type (Bytes.ofChar 'B'))
  else if tag = 3 then return p.event.apply (.type (Bytes.ofChar 'F'))
  else if tag = 7 then setUnknown length p
  else do
    remark (.unknownTag tag)
    return p.event

/-- Sets a part of the event, when its bytes could be read. -/
def setRead {α : Type} (change : α → Event.Change) (reading : Reading α) (e : Event) : Event :=
  if reading.done then e.apply (change reading.value) else e

/-- Reads one record and moves on behind it, and says whether there was one. Nothing is
set before the record is known to have a length byte that fits, and a tag. -/
def readRecord (p : Progress) : Logged (Bool × Progress) :=
  let length := lengthRead p.reader
  if length.done = false ∨
      p.reader.position + length.value.toUInt32 + 1 > p.reader.length.toUInt32 then do
    remark .recordTooLong
    return (false, p)
  else
    let tag := p.reader.readByte (UInt32.ofNat tagOffset) 0
    if tag.done = false then do
      remark (.tagMissing p.reader.position.toNat)
      return (false, p)
    else do
      let typed ← setType tag.value length.value p
      let gained := setRead .gain (p.reader.readSigned (UInt32.ofNat gainOffset) 0) typed
      let timed :=
        setRead .timestamp (p.reader.readWord (UInt32.ofNat timestampOffset) 0) gained
      let moved := p.reader.advance (length.value.toUInt32 + UInt32.ofNat lengthOverhead)
      return (true, ⟨moved, timed⟩)

def call (levels : Levels) (p : Progress) : Call :=
  let outcome := p.readRecord levels
  ⟨p, outcome.value.1, outcome.value.2, outcome.notes⟩

variable {levels : Levels} {p : Progress}

theorem call_refused (refused : (p.call levels).accepted = false) :
    (p.call levels).after = p := by
  unfold call readRecord at refused ⊢
  dsimp only at refused ⊢
  split at refused
  · rw [if_pos (by assumption)]
    rfl
  · split at refused
    · rw [if_neg (by assumption), if_pos (by assumption)]
      rfl
    · cases refused

theorem call_accepted (accepted : (p.call levels).accepted = true) :
    (p.call levels).after.reader =
      p.reader.advance ((lengthRead p.reader).value.toUInt32 + UInt32.ofNat lengthOverhead) := by
  unfold call readRecord at accepted ⊢
  dsimp only at accepted ⊢
  split at accepted
  · cases accepted
  · split at accepted
    · cases accepted
    · rw [if_neg (by assumption), if_neg (by assumption)]
      rfl

/-- Two words that are as small as a length byte allows do not wrap around. -/
theorem step_toNat (length : UInt8) :
    (length.toUInt32 + UInt32.ofNat lengthOverhead).toNat = length.toNat + lengthOverhead := by
  have width := length.toNat_lt
  have overhead : (UInt32.ofNat lengthOverhead).toNat = lengthOverhead := rfl
  rw [UInt32.toNat_add, UInt8.toNat_toUInt32, overhead, lengthOverhead]
  omega

/-- Inside the frame the position grows by all that the record takes up. -/
theorem position_accepted (inside : p.reader.hasRemaining = true)
    (accepted : (p.call levels).accepted = true) :
    (p.call levels).after.reader.position.toNat =
      p.reader.position.toNat + ((lengthRead p.reader).value.toNat + lengthOverhead) := by
  have within := p.reader.hasRemaining_iff.mp inside
  have short := p.reader.length.toNat_lt
  have width := (lengthRead p.reader).value.toNat_lt
  rw [← p.reader.whole] at within
  rw [call_accepted accepted, Reader.position_advance, step_toNat, maxPosition, lengthOverhead]
  omega

/-- All calls, in order, while bytes remain and every call finds a record. -/
def calls (levels : Levels) (p : Progress) : List Call :=
  if _ : p.reader.hasRemaining = true then
    if _ : (p.call levels).accepted = true then
      p.call levels :: (p.call levels).after.calls levels
    else [p.call levels]
  else []
termination_by p.reader.data.size - p.reader.position.toNat
decreasing_by
  have moved := position_accepted (by assumption) (by assumption)
  have within := p.reader.hasRemaining_iff.mp (by assumption)
  have same : (p.call levels).after.reader.data = p.reader.data := by
    rw [call_accepted (by assumption), Reader.data_advance]
  rw [moved, same, lengthOverhead]
  omega

/-- What is there when the last call has returned, and all that the calls wrote. -/
def finish (p : Progress) : Logged Progress := fun levels =>
  let made := p.calls levels
  ⟨(made.getLast?.map Call.after).getD p, made.flatMap Call.entries⟩

/-- A new event, and the frame behind its header. -/
def start (frame : Frame) : Progress :=
  ⟨(Reader.ofFrame frame).advance (UInt32.ofNat headerLength), .empty⟩

end Progress

/-- Decodes a frame in place over an event that is already held, and says whether the
frame was long enough. -/
def decodeInPlace (frame : Frame) (held : Event) : Logged (Bool × Event) :=
  match frame with
  | absent _ => do
    remark (.tooShort frame.length)
    return (false, held)
  | present bytes _ =>
    if bytes.length < minLength then do
      remark (.tooShort frame.length)
      return (false, held)
    else do
      let last ← (Progress.start frame).finish
      remark (.decoded frame.length last.event)
      return (true, last.event)

end NfcPolling.Frame
