import NfcPolling.Bytes

/-! A polling frame as it is handed over: either no data at all, with whatever
length the sender claimed for it, or a byte string whose length fits sixteen
bits. -/
namespace NfcPolling

def maxFrameLength : Nat := 65535

/-- A frame that may be missing. -/
inductive Frame where
  /-- No data; only the claimed length is known. -/
  | absent (claimed : UInt16)
  | present (bytes : Bytes) (short : bytes.length ≤ maxFrameLength)
  deriving DecidableEq, Repr

namespace Frame

/-- The first `length` bytes of the data, when there is any. -/
def ofData (data : Option Bytes) (length : UInt16) : Frame :=
  match data with
  | none => absent length
  | some bytes =>
    present (bytes.take length.toNat) (by
      have width := length.toNat_lt
      simp only [List.length_take, maxFrameLength]
      omega)

/-- The bytes that can be read; a missing frame has none. -/
def bytes : Frame → Bytes
  | absent _ => []
  | present bytes _ => bytes

/-- The length that was handed over with the frame. -/
def length : Frame → Nat
  | absent claimed => claimed.toNat
  | present bytes _ => bytes.length

theorem bytes_length_le (frame : Frame) : frame.bytes.length ≤ maxFrameLength := by
  cases frame with
  | absent claimed => exact Nat.zero_le _
  | present bytes short => exact short

end Frame

end NfcPolling
