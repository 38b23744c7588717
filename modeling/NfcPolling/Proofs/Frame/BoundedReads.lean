import Mathlib.Algebra.Ring.Nat
import NfcPolling.Frame.Reader
import NfcPolling.Proofs.Frame.ScanView

/-! Reading in machine words is reading from the list of the bytes that are left. No sum of
position, offset and count wraps around, a position that has stopped growing finds what the
exact one would find, and no byte outside the frame is looked up. -/
namespace NfcPolling.BoundedReads
open ScanView

/-- A byte in two's complement. -/
def twosComplement (b : UInt8) : Int := if b.toNat < 128 then b.toNat else b.toNat - 256

/-- A read of so many bytes at an offset. It is done when they are available, looks up these
bytes and no others, and hands over what `tells` says; otherwise it changes nothing. -/
structure Reads (r : Reader) (offset count : UInt32) (held : α) (tells : α → Prop)
    (reading : Reading α) : Prop where
  done : reading.done = r.isAvailable offset count
  told : reading.done = true → tells reading.value
  kept : reading.done = false → reading.value = held
  looked : reading.looked =
    if reading.done then List.range' (r.position.toNat + offset.toNat) count.toNat else []
  inside : ∀ i ∈ reading.looked, i < r.data.size

/-- The reader stands at a place in some bytes, and whatever it is asked it answers from the
bytes behind that place. -/
structure ReadsRest (bytes : Bytes) (place : Nat) (r : Reader) : Prop where
  data : r.data.toList = bytes
  position : r.position.toNat = place
  remaining : r.hasRemaining = r.isAvailable 0 1
  available : ∀ offset count, r.isAvailable offset count = true ↔
    place + offset.toNat + count.toNat ≤ bytes.length
  byte : ∀ offset held, Reads r offset 1 held
    (fun b => (bytes.drop place)[offset.toNat]? = some b) (r.readByte offset held)
  signed : ∀ offset held, Reads r offset 1 held
    (fun n => (bytes.drop place)[offset.toNat]?.map twosComplement = some n.toInt)
    (r.readSigned offset held)
  word : ∀ offset held, Reads r offset 4 held
    (fun w => w.toNat = Bytes.littleEndian (((bytes.drop place).drop offset.toNat).take 4))
    (r.readWord offset held)
  run : ∀ offset count held, Reads r offset count held
    (fun data => data = ((bytes.drop place).drop offset.toNat).take count.toNat)
    (r.readBytes offset count held)

/-- Saturating along the way is saturating once, at the end. -/
theorem position_advanceAll (r : Reader) (counts : List UInt32) :
    (r.advanceAll counts).position.toNat =
      min (r.position.toNat + (counts.map UInt32.toNat).sum) maxPosition := by
  induction counts generalizing r with
  | nil =>
    have place : r.position.toNat < maxPosition + 1 := r.position.toNat_lt
    simp only [Reader.advanceAll, List.foldl_nil, List.map_nil, List.sum_nil]
    omega
  | cons count rest ih =>
    have step := Reader.position_advance r count
    have later := ih (r.advance count)
    rw [step] at later
    rw [Reader.advanceAll, List.foldl_cons, ← Reader.advanceAll, later, List.map_cons,
      List.sum_cons]
    omega

theorem data_advanceAll (r : Reader) (counts : List UInt32) :
    (r.advanceAll counts).data = r.data := by
  induction counts generalizing r with
  | nil => rfl
  | cons count rest ih => exact ih (r.advance count)

section Reader
variable (r : Reader) (offset : UInt32)

/-- The bytes that are looked up are a run of those behind the position. -/
theorem looked_run {count : UInt32} (available : r.isAvailable offset count = true) :
    (List.range' (r.position.toNat + offset.toNat) count.toNat).map (fun i => r.data.getD i 0) =
      ((r.data.toList.drop r.position.toNat).drop offset.toNat).take count.toNat := by
  have fits := (r.isAvailable_iff offset count).mp available
  refine List.ext_getElem? fun k => ?_
  by_cases within : k < count.toNat
  · have there : r.position.toNat + offset.toNat + k < r.data.size := by omega
    rw [List.getElem?_take_of_lt within, List.getElem?_drop, List.getElem?_drop, ← Nat.add_assoc,
      List.getElem?_map, List.getElem?_range' within, Array.getElem?_toList]
    simp [there]
  · rw [List.getElem?_eq_none (by simpa using within), List.getElem?_eq_none]
    rw [List.length_take]
    omega

/-- A sum of thirty-two bits is exact where a byte is available. -/
theorem index_exact (available : r.isAvailable offset 1 = true) :
    (r.position + offset).toNat = r.position.toNat + offset.toNat := by
  have fits := (r.isAvailable_iff offset 1).mp available
  have width := r.length.toNat_lt
  rw [← r.whole] at fits
  rw [UInt32.toNat_add]
  omega

/-- What holds of the bytes at the exact index holds of a read. -/
theorem read_reads {count : UInt32} {start : Nat} {make : Bytes → α} (held : α)
    {tells : α → Prop}
    (exact : r.isAvailable offset count = true → start = r.position.toNat + offset.toNat)
    (told : r.isAvailable offset count = true →
      tells (make (((r.data.toList.drop r.position.toNat).drop offset.toNat).take count.toNat))) :
    Reads r offset count held tells (r.read offset count start make held) := by
  rw [Reader.read]
  by_cases available : r.isAvailable offset count = true
  · have fits := (r.isAvailable_iff offset count).mp available
    rw [if_pos available, exact available]
    dsimp only
    rw [looked_run r offset available]
    refine ⟨available.symm, fun _ => told available, fun refused => (nomatch refused), rfl, ?_⟩
    intro i member
    have upto := (List.mem_range'_1.mp member).2
    omega
  · rw [if_neg available]
    exact ⟨(Bool.not_eq_true _).mp available ▸ rfl, fun done => (nomatch done), fun _ => rfl, rfl,
      fun i member => (nomatch member)⟩

theorem byte_reads (held : UInt8) :
    Reads r offset 1 held (fun b => (r.data.toList.drop r.position.toNat)[offset.toNat]? = some b)
      (r.readByte offset held) := by
  refine read_reads r offset held (index_exact r offset) fun available => ?_
  have fits := (r.isAvailable_iff offset 1).mp available
  have one : (1 : UInt32).toNat = 1 := rfl
  have there : offset.toNat < (r.data.toList.drop r.position.toNat).length := by
    rw [List.length_drop, Array.length_toList]
    omega
  rw [one, List.drop_eq_getElem_cons there, List.getElem?_eq_getElem there]
  rfl

theorem toInt8_twosComplement (b : UInt8) : b.toInt8.toInt = twosComplement b := by
  have width := b.toNat_lt
  rw [twosComplement, ← Int8.toInt_toBitVec, UInt8.toBitVec_toInt8, BitVec.toInt]
  simp only [UInt8.toNat_toBitVec]
  omega

theorem signed_reads (held : Int8) :
    Reads r offset 1 held
      (fun n => (r.data.toList.drop r.position.toNat)[offset.toNat]?.map twosComplement = some n.toInt)
      (r.readSigned offset held) := by
  obtain ⟨done, told, _, looked, inside⟩ := byte_reads r offset 0
  refine ⟨done, fun read => ?_, fun refused => ?_, looked, inside⟩
  · have value : (r.readSigned offset held).value = (r.readByte offset 0).value.toInt8 := if_pos read
    rw [told read, value, toInt8_twosComplement]
    rfl
  · have untouched : (r.readByte offset 0).done = false := refused
    simp [Reader.readSigned, untouched]

/-- The four shifted bytes do not meet, so their sum in thirty-two bits is exact. -/
theorem wordOf_toNat {bytes : Bytes} (four : bytes.length = 4) :
    (Reader.wordOf bytes).toNat = Bytes.littleEndian bytes := by
  match bytes, four with
  | [a, b, c, d], _ =>
    have first := a.toNat_lt
    have second := b.toNat_lt
    have third := c.toNat_lt
    have fourth := d.toNat_lt
    have shifted {byte : UInt8} {places : UInt32} {factor : Nat}
        (power : 2 ^ (places.toNat % 32) = factor) (fits : 256 * factor ≤ 2 ^ 32) :
        (byte.toUInt32 <<< places).toNat = byte.toNat * factor := by
      have width := byte.toNat_lt
      have small : byte.toNat * factor < 2 ^ 32 :=
        Nat.lt_of_lt_of_le (Nat.mul_lt_mul_of_pos_right width (power ▸ Nat.two_pow_pos _)) fits
      rw [UInt32.toNat_shiftLeft, UInt8.toNat_toUInt32, Nat.shiftLeft_eq, power,
        Nat.mod_eq_of_lt small]
    have one : (b.toUInt32 <<< 8).toNat = b.toNat * 0x100 := shifted (by decide) (by decide)
    have two : (c.toUInt32 <<< 16).toNat = c.toNat * 0x10000 := shifted (by decide) (by decide)
    have three : (d.toUInt32 <<< 24).toNat = d.toNat * 0x1000000 := shifted (by decide) (by decide)
    rw [Reader.wordOf]
    simp only [Bytes.littleEndian, UInt32.toNat_add, UInt8.toNat_toUInt32, one, two, three]
    omega

theorem word_reads (held : UInt32) :
    Reads r offset 4 held
      (fun w => w.toNat =
        Bytes.littleEndian (((r.data.toList.drop r.position.toNat).drop offset.toNat).take 4))
      (r.readWord offset held) := by
  refine read_reads r offset held (fun _ => rfl) fun available => wordOf_toNat ?_
  have fits := (r.isAvailable_iff offset 4).mp available
  have four : (4 : UInt32).toNat = 4 := rfl
  rw [List.length_take, List.length_drop, List.length_drop, Array.length_toList]
  omega

theorem bytes_reads (count : UInt32) (held : Bytes) :
    Reads r offset count held
      (fun data => data = ((r.data.toList.drop r.position.toNat).drop offset.toNat).take count.toNat)
      (r.readBytes offset count held) :=
  read_reads r offset held (fun _ => rfl) fun _ => rfl

end Reader

theorem reads_rest (r : Reader) : ReadsRest r.data.toList r.position.toNat r where
  data := rfl
  position := rfl
  remaining := by
    rw [Bool.eq_iff_iff, Reader.hasRemaining_iff, Reader.isAvailable_iff]
    rfl
  available := r.isAvailable_iff
  byte := byte_reads r
  signed := signed_reads r
  word := word_reads r
  run := bytes_reads r

/-- The same place in the frame, in numbers that have no width. -/
def cursorOf (r : Reader) : Cursor where
  data := r.data
  short := by
    have width := r.length.toNat_lt
    rw [← r.whole, maxFrameLength]
    omega
  position := r.position.toNat

section Cursor
variable (r : Reader)

theorem length_cursorOf : (cursorOf r).length = r.data.size := rfl

theorem rest_cursorOf : rest (cursorOf r) = r.data.toList.drop r.position.toNat := rfl

theorem cursorOf_advance (count : UInt32) :
    cursorOf (r.advance count) = (cursorOf r).advance count.toNat := by
  rw [cursorOf, Cursor.advance, Cursor.mk.injEq]
  exact ⟨rfl, Reader.position_advance r count⟩

theorem available_cursorOf (offset count : UInt32) :
    (cursorOf r).isAvailable offset.toNat count.toNat = r.isAvailable offset count := by
  rw [Bool.eq_iff_iff, Reader.isAvailable_iff, Cursor.isAvailable, decide_eq_true_eq]
  rfl

/-- A value that a read tells is found, and where it cannot tell one nothing is found. -/
theorem found_reads {offset count : UInt32} {held : α} {tells : α → Prop} {reading : Reading α}
    (reads : Reads r offset count held tells reading) {expected : Option α}
    (known : r.isAvailable offset count = true → ∀ value, tells value → expected = some value)
    (unknown : r.isAvailable offset count = false → expected = none) :
    reading.found = expected := by
  rw [Reading.found]
  by_cases done : reading.done = true
  · rw [if_pos done, known (reads.done ▸ done) _ (reads.told done)]
  · rw [if_neg done, unknown (reads.done ▸ (Bool.not_eq_true _).mp done)]

theorem byte_cursorOf (offset : UInt32) (held : UInt8) :
    (r.readByte offset held).found = (cursorOf r).byte? offset.toNat := by
  rw [byte_of_rest, rest_cursorOf]
  refine found_reads r (byte_reads r offset held) (fun _ _ told => told) fun unavailable => ?_
  have beyond := mt (r.isAvailable_iff offset 1).mpr (Bool.not_eq_true _ ▸ unavailable)
  have one : (1 : UInt32).toNat = 1 := rfl
  rw [List.getElem?_eq_none_iff, List.length_drop, Array.length_toList]
  omega

theorem signed_cursorOf (offset : UInt32) (held : Int8) :
    (r.readSigned offset held).found = (cursorOf r).signed? offset.toNat := by
  have raw := byte_cursorOf r offset 0
  rw [Cursor.signed?, ← raw]
  unfold Reading.found Reader.readSigned
  cases done : (r.readByte offset 0).done with
  | true => simp [done]
  | false => simp

theorem bytes_cursorOf (offset count : UInt32) (held : Bytes) :
    (r.readBytes offset count held).found = (cursorOf r).bytes? offset.toNat count.toNat := by
  rw [Cursor.bytes?, available_cursorOf]
  refine found_reads r (bytes_reads r offset count held) (fun available data told => ?_)
    fun unavailable => by rw [unavailable]; rfl
  have run : ((cursorOf r).data.extract (r.position.toNat + offset.toNat)
      (r.position.toNat + offset.toNat + count.toNat)).toList = data := by
    rw [told, Array.toList_extract, List.extract_eq_take_drop, List.drop_drop,
      Nat.add_sub_cancel_left]
    rfl
  rw [if_pos available]
  exact congrArg some run

theorem word_cursorOf (offset : UInt32) (held : UInt32) :
    (r.readWord offset held).found = (cursorOf r).word? offset.toNat := by
  have count : (4 : UInt32).toNat = 4 := rfl
  have bytes := bytes_cursorOf r offset 4 []
  have run := bytes_reads r offset 4 []
  rw [count] at bytes run
  rw [Cursor.word?, ← bytes]
  refine found_reads r (word_reads r offset held) (fun available w told => ?_) fun unavailable => ?_
  · have done : (r.readBytes offset 4 []).done = true := run.done.trans available
    rw [Reading.found, if_pos done, run.told done, Option.map_some, ← told, UInt32.ofNat_toNat]
  · have refused : (r.readBytes offset 4 []).done = false := run.done.trans unavailable
    rw [Reading.found, refused]
    rfl

theorem probe_cursorOf (p : Cursor.Probe) :
    (cursorOf r).probe p = (cursorOf (r.probe p).1, (r.probe p).2) := by
  cases p with
  | advance count => exact congrArg (·, _) (cursorOf_advance r count).symm
  | available offset count =>
    exact congrArg (fun yes => (_, Cursor.Found.available yes)) (available_cursorOf r offset count)
  | byte offset =>
    exact congrArg (fun value => (_, Cursor.Found.byte value)) (byte_cursorOf r offset 0).symm
  | signed offset =>
    exact congrArg (fun value => (_, Cursor.Found.signed value)) (signed_cursorOf r offset 0).symm
  | word offset =>
    exact congrArg (fun value => (_, Cursor.Found.word value)) (word_cursorOf r offset 0).symm
  | bytes offset count =>
    exact congrArg (fun value => (_, Cursor.Found.bytes value))
      (bytes_cursorOf r offset count []).symm

theorem probes_cursorOf (probes : List Cursor.Probe) :
    (cursorOf r).probes probes = (r.probes probes).map fun (r, found) => (cursorOf r, found) := by
  induction probes generalizing r with
  | nil => rfl
  | cons p rest ih => rw [Cursor.probes, Reader.probes, List.map_cons, probe_cursorOf, ih]

end Cursor

theorem data_ofFrame (frame : Frame) : (Reader.ofFrame frame).data.toList = frame.bytes := by
  cases frame <;> rfl

theorem position_ofFrame (frame : Frame) : (Reader.ofFrame frame).position = 0 := by
  cases frame <;> rfl

theorem cursorOf_ofFrame (frame : Frame) :
    cursorOf (Reader.ofFrame frame) = Cursor.ofFrame frame := by
  cases frame <;> rfl

/-- However a reader is moved through a frame, or through none at all, it stands at the sum
of the counts or at the last position there is, and answers from the bytes behind it. A
cursor that is asked the same gives the same answers. -/
theorem reader_follows_rest (frame : Frame) :
    (∀ counts : List UInt32, ReadsRest frame.bytes
      (min (2 ^ 32 - 1) (counts.map UInt32.toNat).sum)
      ((Reader.ofFrame frame).advanceAll counts)) ∧
    ∀ probes, (Cursor.ofFrame frame).probes probes =
      ((Reader.ofFrame frame).probes probes).map fun (r, found) => (cursorOf r, found) := by
  constructor
  · intro counts
    have rest := reads_rest ((Reader.ofFrame frame).advanceAll counts)
    have position := position_advanceAll (Reader.ofFrame frame) counts
    rw [position_ofFrame, UInt32.toNat_zero, Nat.zero_add, Nat.min_comm] at position
    rw [data_advanceAll, data_ofFrame, position] at rest
    exact rest
  · intro probes
    rw [← cursorOf_ofFrame]
    exact probes_cursorOf _ probes

/-- Sums that would wrap around to the start of the frame find nothing. -/
example :
    let r := (Reader.ofFrame (.present [1, 2] (by decide))).advanceAll [0xFFFFFFFF, 3]
    r.position = 0xFFFFFFFF ∧ r.readByte 1 7 = .refused 7 ∧ r.isAvailable 0xFFFFFFFF 4 = false := by
  decide

end NfcPolling.BoundedReads
