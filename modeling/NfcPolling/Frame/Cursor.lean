import NfcPolling.Frame.Basic

/-! A read position in the bytes of a frame. Every read states an offset from
the position and answers only when all of its bytes lie inside the frame, so a
position past the end merely finds nothing. -/
namespace NfcPolling

/-- The last position a cursor can reach: positions are 32-bit numbers. -/
def maxPosition : Nat := 4294967295

/-- A position in the bytes of a frame; it may lie past their end. -/
structure Cursor where
  /-- All bytes of the frame, those before the position included. -/
  data : Array UInt8
  /-- No frame is longer than its sixteen-bit length can say. -/
  short : data.size ≤ maxFrameLength
  /-- The index that offset zero stands for. -/
  position : Nat
  deriving DecidableEq, Repr

namespace Cursor

def ofFrame (frame : Frame) : Cursor :=
  ⟨frame.bytes.toArray, by simpa using frame.bytes_length_le, 0⟩

/-- The number of bytes in the frame, wherever the position is. -/
def length (c : Cursor) : Nat := c.data.size

def hasRemaining (c : Cursor) : Bool := c.position < c.length

/-- Do `count` bytes at the offset all lie inside the frame? The sum is exact,
so no offset wraps around to the start. -/
def isAvailable (c : Cursor) (offset count : Nat) : Bool :=
  c.position + offset + count ≤ c.length

def byte? (c : Cursor) (offset : Nat) : Option UInt8 := c.data[c.position + offset]?

/-- The byte at the offset as a number from -128 to 127. -/
def signed? (c : Cursor) (offset : Nat) : Option Int8 := (c.byte? offset).map UInt8.toInt8

/-- The `count` bytes at the offset; none at all are found anywhere up to the end. -/
def bytes? (c : Cursor) (offset count : Nat) : Option Bytes :=
  if c.isAvailable offset count then
    let start := c.position + offset
    some (c.data.extract start (start + count)).toList
  else none

/-- The word at the offset, least significant byte first. -/
def word? (c : Cursor) (offset : Nat) : Option UInt32 :=
  (c.bytes? offset 4).map fun bytes => UInt32.ofNat (Bytes.littleEndian bytes)

/-- The position moved on by `count`, at most to the last position there is. -/
def advance (c : Cursor) (count : Nat) : Cursor :=
  { c with position := min (c.position + count) maxPosition }

@[simp] theorem length_advance (c : Cursor) (count : Nat) : (c.advance count).length = c.length :=
  rfl

theorem length_le (c : Cursor) : c.length ≤ maxFrameLength := c.short

/-- Inside a frame the position is never held back, so it grows by the full count. -/
theorem position_advance {c : Cursor} {count : Nat} (inside : c.position < c.length)
    (small : count ≤ maxFrameLength) : (c.advance count).position = c.position + count := by
  have bound := c.length_le
  simp only [advance, maxPosition, maxFrameLength] at *
  omega

inductive Probe where
  | advance (count : UInt32)
  | available (offset count : UInt32)
  | byte (offset : UInt32)
  | signed (offset : UInt32)
  | word (offset : UInt32)
  | bytes (offset count : UInt32)
  deriving DecidableEq, Repr

/-- What a probe answers. A failed read answers `none`. -/
inductive Found where
  | moved
  | available (yes : Bool)
  | byte (value : Option UInt8)
  | signed (value : Option Int8)
  | word (value : Option UInt32)
  | bytes (value : Option Bytes)
  deriving DecidableEq, Repr

/-- Only a move changes the cursor. -/
def probe (c : Cursor) : Probe → Cursor × Found
  | .advance count => (c.advance count.toNat, .moved)
  | .available offset count => (c, .available (c.isAvailable offset.toNat count.toNat))
  | .byte offset => (c, .byte (c.byte? offset.toNat))
  | .signed offset => (c, .signed (c.signed? offset.toNat))
  | .word offset => (c, .word (c.word? offset.toNat))
  | .bytes offset count => (c, .bytes (c.bytes? offset.toNat count.toNat))

def probes (c : Cursor) : List Probe → List (Cursor × Found)
  | [] => []
  | p :: rest => c.probe p :: (c.probe p).1.probes rest

end Cursor

end NfcPolling
