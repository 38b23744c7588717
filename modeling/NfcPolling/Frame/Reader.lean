import NfcPolling.Frame.Cursor

/-! A frame read in machine words. Its length has sixteen bits and the position
thirty-two; a sum that is held against the length has sixty-four, so it does not
wrap around. A read writes over a value that the caller holds. The bytes
themselves are looked up unchecked; the value is made of what was looked up and of
nothing else, and every index is noted. -/
namespace NfcPolling

/-- What has come of a read. -/
structure Reading (α : Type) where
  done : Bool
  /-- What the caller holds afterwards. -/
  value : α
  /-- The indices at which bytes of the frame were looked up. -/
  looked : List Nat
  deriving DecidableEq, Repr

namespace Reading

variable {α : Type}

def refused (held : α) : Reading α := ⟨false, held, []⟩

/-- The value that was read, when one was. -/
def found (reading : Reading α) : Option α := if reading.done then some reading.value else none

end Reading

/-- A cursor in machine words. -/
structure Reader where
  data : Array UInt8
  length : UInt16
  whole : length.toNat = data.size
  position : UInt32
  deriving DecidableEq, Repr

namespace Reader

variable {α : Type}

/-- A missing frame has no length, whatever was claimed for it. -/
def ofFrame : Frame → Reader
  | .absent _ => ⟨#[], 0, rfl, 0⟩
  | .present bytes short =>
    ⟨bytes.toArray, UInt16.ofNat bytes.length,
      UInt16.toNat_ofNat_of_lt (Nat.lt_succ_of_le short), 0⟩

def hasRemaining (r : Reader) : Bool := r.position < r.length.toUInt32

def isAvailable (r : Reader) (offset count : UInt32) : Bool :=
  r.position.toUInt64 + offset.toUInt64 + count.toUInt64 ≤ r.length.toUInt64

/-- Looks up so many bytes from an index on, if they are available at the offset,
and makes a value of them. -/
def read (r : Reader) (offset count : UInt32) (start : Nat) (make : Bytes → α) (held : α) :
    Reading α :=
  if r.isAvailable offset count then
    let looked := List.range' start count.toNat
    ⟨true, make (looked.map fun i => r.data.getD i 0), looked⟩
  else .refused held

/-- The index of a single byte is a sum of thirty-two bits. -/
def readByte (r : Reader) (offset : UInt32) (held : UInt8) : Reading UInt8 :=
  r.read offset 1 (r.position + offset).toNat (List.headD · 0) held

def readSigned (r : Reader) (offset : UInt32) (held : Int8) : Reading Int8 :=
  let raw := r.readByte offset 0
  ⟨raw.done, if raw.done then raw.value.toInt8 else held, raw.looked⟩

/-- Several bytes are looked up behind an address, which does not wrap around. -/
def address (r : Reader) (offset : UInt32) : Nat := r.position.toNat + offset.toNat

/-- Four bytes as a word, least significant first. -/
def wordOf : Bytes → UInt32
  | [a, b, c, d] =>
    a.toUInt32 + (b.toUInt32 <<< 8) + (c.toUInt32 <<< 16) + (d.toUInt32 <<< 24)
  | _ => 0

def readWord (r : Reader) (offset : UInt32) (held : UInt32) : Reading UInt32 :=
  r.read offset 4 (r.address offset) wordOf held

def readBytes (r : Reader) (offset count : UInt32) (held : Bytes) : Reading Bytes :=
  r.read offset count (r.address offset) id held

/-- The position stops at the last number that it can be. -/
def advance (r : Reader) (count : UInt32) : Reader :=
  let next := r.position.toUInt64 + count.toUInt64
  { r with position := if next > 4294967295 then 4294967295 else next.toUInt32 }

def advanceAll (r : Reader) (counts : List UInt32) : Reader := counts.foldl advance r

@[simp] theorem data_advance (r : Reader) (count : UInt32) : (r.advance count).data = r.data := rfl

theorem hasRemaining_iff (r : Reader) :
    r.hasRemaining = true ↔ r.position.toNat < r.data.size := by
  rw [hasRemaining, decide_eq_true_eq, UInt32.lt_iff_toNat_lt, ← r.whole]
  rfl

theorem isAvailable_iff (r : Reader) (offset count : UInt32) :
    r.isAvailable offset count = true ↔
      r.position.toNat + offset.toNat + count.toNat ≤ r.data.size := by
  have place := r.position.toNat_lt
  have first := offset.toNat_lt
  have second := count.toNat_lt
  rw [isAvailable, decide_eq_true_eq, UInt64.le_iff_toNat_le, ← r.whole]
  simp only [UInt64.toNat_add, UInt32.toNat_toUInt64, UInt16.toNat_toUInt64]
  omega

/-- Whatever is added, the position is the exact sum or the last number there is. -/
theorem position_advance (r : Reader) (count : UInt32) :
    (r.advance count).position.toNat = min (r.position.toNat + count.toNat) maxPosition := by
  have place := r.position.toNat_lt
  have moved := count.toNat_lt
  have sum : (r.position.toUInt64 + count.toUInt64).toNat = r.position.toNat + count.toNat := by
    simp only [UInt64.toNat_add, UInt32.toNat_toUInt64]
    omega
  have last : (4294967295 : UInt64).toNat = maxPosition := rfl
  simp only [advance, gt_iff_lt, UInt64.lt_iff_toNat_lt, sum, last]
  by_cases beyond : maxPosition < r.position.toNat + count.toNat
  · rw [if_pos beyond, Nat.min_eq_right (Nat.le_of_lt beyond)]
    rfl
  · rw [if_neg beyond, UInt64.toNat_toUInt32, sum, Nat.min_eq_left (Nat.le_of_not_lt beyond)]
    rw [maxPosition] at beyond
    omega

/-- The answer to what a cursor can be asked. -/
def probe (r : Reader) : Cursor.Probe → Reader × Cursor.Found
  | .advance count => (r.advance count, .moved)
  | .available offset count => (r, .available (r.isAvailable offset count))
  | .byte offset => (r, .byte (r.readByte offset 0).found)
  | .signed offset => (r, .signed (r.readSigned offset 0).found)
  | .word offset => (r, .word (r.readWord offset 0).found)
  | .bytes offset count => (r, .bytes (r.readBytes offset count []).found)

def probes (r : Reader) : List Cursor.Probe → List (Reader × Cursor.Found)
  | [] => []
  | p :: rest => r.probe p :: (r.probe p).1.probes rest

end Reader

end NfcPolling
