import NfcPolling.Frame.Cursor
import NfcPolling.Frame.Notice

/-! One record of a polling frame: a length byte, a flags byte that means
nothing here, a tag, a four-byte timestamp, a gain byte and data. A record is
read at a cursor; what its own length leaves out is still read from the bytes
that follow, as far as the frame goes. -/
namespace NfcPolling.Frame

/-- The bytes of a frame before its first record. -/
def headerLength : Nat := 2

def tagOffset : Nat := 2

def timestampOffset : Nat := 3

def gainOffset : Nat := 7

def dataOffset : Nat := 8

/-- The bytes of a record that its length byte does not count. -/
def lengthOverhead : Nat := 2

/-- What the tag of a record says was seen, with the data that belongs to it. -/
inductive Observation where
  /-- The field went on (a nonzero byte) or off, unless the byte is missing. -/
  | field (state : Option UInt8)
  | typeA
  | typeB
  | typeF
  /-- A frame of unknown technology with its bytes, when there are any. -/
  | unknown (data : Option Bytes)
  | unlisted (tag : UInt8)
  deriving DecidableEq, Repr

namespace Observation

/-- The end of the data of a record, counted from the record's start: the length
byte counts from the timestamp on, and the frame may end earlier. -/
def dataEnd (length : UInt8) (c : Cursor) : Nat :=
  min (timestampOffset + length.toNat) (c.length - c.position)

/-- What a record with this tag and length byte says at the cursor. -/
def read (tag length : UInt8) (c : Cursor) : Observation :=
  if tag = 0 then field (c.byte? dataOffset)
  else if tag = 1 then typeA
  else if tag = 2 then typeB
  else if tag = 3 then typeF
  else if tag = 7 then
    if dataEnd length c ≤ dataOffset then unknown none
    else unknown (c.bytes? dataOffset (dataEnd length c - dataOffset))
  else unlisted tag

/-- The letter of the event type, when the observation settles it. -/
def letter : Observation → Option UInt8
  | field state => state.map fun b => if b = 0 then Bytes.ofChar 'X' else Bytes.ofChar 'O'
  | typeA => some (Bytes.ofChar 'A')
  | typeB => some (Bytes.ofChar 'B')
  | typeF => some (Bytes.ofChar 'F')
  | unknown _ => some (Bytes.ofChar 'U')
  | unlisted _ => none

/-- The payload, which only a frame of unknown technology has; missing data is
an empty payload. -/
def payload : Observation → Option Bytes
  | unknown data => some (data.getD [])
  | _ => none

def notice : Observation → Option Notice
  | field none => some .fieldStateMissing
  | unknown none => some .dataMissing
  | unlisted tag => some (.unknownTag tag)
  | _ => none

end Observation

structure Record where
  position : Nat
  length : UInt8
  tag : UInt8
  observation : Observation
  /-- The gain, when the frame reaches that far. -/
  gain : Option Int8
  /-- The timestamp, when the frame reaches that far. -/
  timestamp : Option UInt32
  deriving DecidableEq, Repr

/-- Why no record could be read at a position. -/
inductive Fault where
  | tooLong
  | tagMissing (position : Nat)
  deriving DecidableEq, Repr

def Fault.notice : Fault → Notice
  | tooLong => .recordTooLong
  | tagMissing position => .tagMissing position

namespace Record

/-- The record at the cursor. Its length byte must not reach more than one byte
beyond the frame, and its tag must be there. -/
def read (c : Cursor) : Except Fault Record :=
  match c.byte? 0 with
  | none => .error .tooLong
  | some length =>
    if c.position + length.toNat + 1 > c.length then .error .tooLong
    else
      match c.byte? tagOffset with
      | none => .error (.tagMissing c.position)
      | some tag =>
        .ok {
          position := c.position
          length := length
          tag := tag
          observation := Observation.read tag length c
          gain := c.signed? gainOffset
          timestamp := c.word? timestampOffset }

/-- The bytes that the record takes up in the frame. -/
def size (r : Record) : Nat := r.length.toNat + lengthOverhead

/-- What the record knows replaces what was known; the rest is kept. -/
def apply (e : Event) (r : Record) : Event where
  type := r.observation.letter.or e.type
  gain := r.gain.or e.gain
  timestamp := r.timestamp.or e.timestamp
  payload := r.observation.payload.or e.payload

theorem size_le (r : Record) : r.size ≤ 257 := by
  have width := r.length.toNat_lt
  simp only [size, lengthOverhead]
  omega

theorem size_pos (r : Record) : 0 < r.size := by
  simp [size, lengthOverhead]

end Record

end NfcPolling.Frame
