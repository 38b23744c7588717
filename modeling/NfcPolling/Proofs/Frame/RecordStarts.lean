import Mathlib.Data.Nat.Find
import Mathlib.Order.Monotone.Basic
import NfcPolling.Proofs.Frame.EventMerge

/-! The decoded event of any frame, said by positions alone: where the records
start, which of them are accepted, and which bytes each of them reads. Records
may overlap and may read bytes of later ones; the last accepted record that
writes a part decides it. No reading or scanning occurs in the definitions. -/
namespace NfcPolling.RecordStarts
open NfcPolling.Frame ScanView EventMerge

/-- The byte at an index. Beyond the end, where nothing is ever read, it is zero. -/
def byteAt (bytes : Bytes) (i : Nat) : UInt8 := bytes.getD i 0

/-- The records start behind the header, each as far behind the one before as
that one's length byte says, plus two. -/
def start (bytes : Bytes) : Nat → Nat
  | 0 => 2
  | k + 1 => start bytes k + (byteAt bytes (start bytes k)).toNat + 2

/-- There is a length byte, it reaches at most one byte beyond the frame, and
there is a tag. -/
def Readable (bytes : Bytes) (c : Nat) : Prop :=
  c < bytes.length ∧ c + (byteAt bytes c).toNat + 1 ≤ bytes.length ∧ c + 3 ≤ bytes.length

instance (bytes : Bytes) (c : Nat) : Decidable (Readable bytes c) :=
  inferInstanceAs (Decidable (_ ∧ _))

/-- A record is accepted when it and all records before it are readable. -/
def Accepted (bytes : Bytes) (k : Nat) : Prop := ∀ j ≤ k, Readable bytes (start bytes j)

instance (bytes : Bytes) (k : Nat) : Decidable (Accepted bytes k) :=
  inferInstanceAs (Decidable (∀ j ≤ k, Readable bytes (start bytes j)))

/-- The four bytes at an index as a number, least significant first. -/
def wordAt (bytes : Bytes) (i : Nat) : UInt32 :=
  UInt32.ofNat ((byteAt bytes i).toNat + 0x100 * (byteAt bytes (i + 1)).toNat
    + 0x10000 * (byteAt bytes (i + 2)).toNat + 0x1000000 * (byteAt bytes (i + 3)).toNat)

/-- The letter that the record at `c` writes: that of its tag, where a field
change needs its state byte to be there. -/
def letterAt (bytes : Bytes) (c : Nat) : Option UInt8 :=
  if byteAt bytes (c + 2) = 1 then some (Bytes.ofChar 'A')
  else if byteAt bytes (c + 2) = 2 then some (Bytes.ofChar 'B')
  else if byteAt bytes (c + 2) = 3 then some (Bytes.ofChar 'F')
  else if byteAt bytes (c + 2) = 7 then some (Bytes.ofChar 'U')
  else if byteAt bytes (c + 2) = 0 ∧ c + 9 ≤ bytes.length then
    some (if byteAt bytes (c + 8) = 0 then Bytes.ofChar 'X' else Bytes.ofChar 'O')
  else none

/-- All that the record at `c` writes. A payload ends one byte behind what the
length byte covers or with the frame, and may be empty. -/
def writtenAt (bytes : Bytes) (c : Nat) : Event where
  type := letterAt bytes c
  gain := if c + 8 ≤ bytes.length then some (byteAt bytes (c + 7)).toInt8 else none
  timestamp := if c + 7 ≤ bytes.length then some (wordAt bytes (c + 3)) else none
  payload :=
    if byteAt bytes (c + 2) = 7 then
      some (bytes.extract (c + 8) (min (c + 3 + (byteAt bytes c).toNat) bytes.length))
    else none

/-- What each accepted record writes, by its number. -/
def written (bytes : Bytes) (k : Nat) : Option Event :=
  if Accepted bytes k then some (writtenAt bytes (start bytes k)) else none

private theorem byte_in_range {bytes : Bytes} {i : Nat} (inside : i < bytes.length) :
    bytes[i]? = some (byteAt bytes i) := by
  rw [byteAt, List.getD_eq_getElem?_getD, List.getElem?_eq_getElem inside]
  rfl

private theorem byte_behind (bytes : Bytes) (c i : Nat) :
    (bytes.drop c)[i]? = if c + i + 1 ≤ bytes.length then some (byteAt bytes (c + i)) else none := by
  rw [List.getElem?_drop]
  split
  · rename_i inside
    exact byte_in_range inside
  · rename_i outside
    exact List.getElem?_eq_none (by omega)

private theorem drop_byte {bytes : Bytes} {c : Nat} (inside : c < bytes.length) :
    bytes.drop c = byteAt bytes c :: bytes.drop (c + 1) := by
  rw [List.drop_eq_getElem_cons inside]
  congr 1
  have same := byte_in_range inside
  rw [List.getElem?_eq_getElem inside] at same
  exact Option.some.inj same

private theorem drop_record {bytes : Bytes} {c : Nat} (inside : c + 3 ≤ bytes.length) :
    bytes.drop c =
      byteAt bytes c :: byteAt bytes (c + 1) :: byteAt bytes (c + 2) :: bytes.drop (c + 3) := by
  rw [drop_byte (show c < bytes.length by omega),
    drop_byte (show c + 1 < bytes.length by omega),
    drop_byte (show c + 1 + 1 < bytes.length by omega)]

private theorem letter_written (bytes : Bytes) (c : Nat) :
    letterFor (byteAt bytes (c + 2)) (bytes.drop c)[dataOffset]? = letterAt bytes c := by
  rw [byte_behind, letterFor, letterAt]
  by_cases field : byteAt bytes (c + 2) = 0
  · by_cases present : c + 9 ≤ bytes.length
    · simp [field, dataOffset, present]
    · simp [field, dataOffset, present]
  · simp [field]

private theorem gain_written (bytes : Bytes) (c : Nat) :
    (bytes.drop c)[gainOffset]?.map UInt8.toInt8 = (writtenAt bytes c).gain := by
  rw [byte_behind, writtenAt, gainOffset]
  split <;> rfl

private theorem timestamp_written (bytes : Bytes) (c : Nat) :
    timestampOf (bytes.drop c) = (writtenAt bytes c).timestamp := by
  rw [timestampOf, writtenAt, timestampOffset, List.length_drop, List.drop_drop]
  by_cases inside : c + 7 ≤ bytes.length
  · have run : (bytes.drop (c + 3)).take 4 = [byteAt bytes (c + 3), byteAt bytes (c + 3 + 1),
        byteAt bytes (c + 3 + 2), byteAt bytes (c + 3 + 3)] := by
      rw [drop_byte (show c + 3 < bytes.length by omega),
        drop_byte (show c + 3 + 1 < bytes.length by omega),
        drop_byte (show c + 3 + 1 + 1 < bytes.length by omega),
        drop_byte (show c + 3 + 1 + 1 + 1 < bytes.length by omega)]
      rfl
    rw [if_pos (by omega), if_pos inside, run, wordAt]
    simp only [Bytes.littleEndian]
    congr 2
    omega
  · rw [if_neg (by omega), if_neg inside]

private theorem data_written (bytes : Bytes) (c : Nat) :
    dataOf (byteAt bytes c) (bytes.drop c) =
      bytes.extract (c + 8) (min (c + 3 + (byteAt bytes c).toNat) bytes.length) := by
  rw [dataOf, List.drop_take, List.drop_drop, List.extract_eq_take_drop, dataOffset,
    timestampOffset, List.take_eq_take_iff, List.length_drop]
  omega

theorem news_written (bytes : Bytes) (c position : Nat) :
    news (recordOf position (byteAt bytes c) (byteAt bytes (c + 2)) (bytes.drop c)) =
      writtenAt bytes c := by
  rw [news, recordOf, letter_observed, payload_observed, letter_written, gain_written,
    timestamp_written, data_written]
  rfl

/-- The record at an index, told from the bytes there. -/
def recordAt (bytes : Bytes) (c : Nat) : Record :=
  recordOf c (byteAt bytes c) (byteAt bytes (c + 2)) (bytes.drop c)

/-- Why the reading ends at an index. Where the frame is used up nothing is wrong. -/
def faultAt (bytes : Bytes) (c : Nat) : Option Fault :=
  if bytes.length ≤ c then none
  else if bytes.length < c + (byteAt bytes c).toNat + 1 then some .tooLong
  else some (.tagMissing c)

/-- Where a record is readable it comes first, and the scan goes on behind it. -/
theorem scan_readable {bytes : Bytes} {c : Nat} (readable : Readable bytes c) :
    scanFrom c (bytes.drop c) =
      let later := scanFrom (c + (byteAt bytes c).toNat + 2)
        (bytes.drop (c + (byteAt bytes c).toNat + 2))
      ⟨recordAt bytes c :: later.records, later.fault⟩ := by
  obtain ⟨_, reaches, tagged⟩ := readable
  have shape := drop_record tagged
  have fits : (byteAt bytes c).toNat ≤ (bytes.drop (c + 3)).length + 2 := by
    rw [List.length_drop]
    omega
  have step := scan_record c (byteAt bytes (c + 1)) (byteAt bytes (c + 2)) fits
  rw [← shape, List.drop_drop] at step
  exact step

private theorem read_unreadable {bytes : Bytes} {c : Nat} (inside : c < bytes.length)
    (unreadable : ¬ Readable bytes c) :
    ∃ fault, readFrom c (bytes.drop c) = .error fault ∧ faultAt bytes c = some fault := by
  have size : (bytes.drop (c + 1)).length = bytes.length - (c + 1) := List.length_drop
  rw [drop_byte inside, readFrom, faultAt, if_neg (Nat.not_le_of_lt inside)]
  by_cases long : bytes.length < c + (byteAt bytes c).toNat + 1
  · rw [if_pos (by omega), if_pos long]
    exact ⟨_, rfl, rfl⟩
  · have tagless : (bytes.drop (c + 1))[1]? = none := by
      refine List.getElem?_eq_none (Nat.le_of_not_lt fun tagged => unreadable ?_)
      exact ⟨inside, by omega, by omega⟩
    rw [if_neg (by omega), if_neg long, tagless]
    exact ⟨_, rfl, rfl⟩

theorem scan_unreadable {bytes : Bytes} {c : Nat} (unreadable : ¬ Readable bytes c) :
    scanFrom c (bytes.drop c) = ⟨[], faultAt bytes c⟩ := by
  by_cases inside : c < bytes.length
  · obtain ⟨fault, read, named⟩ := read_unreadable inside unreadable
    have remains : bytes.drop c ≠ [] := by
      rw [drop_byte inside]
      exact List.cons_ne_nil _ _
    rw [scanFrom, dif_neg remains, read, named]
  · have outside := Nat.le_of_not_lt inside
    rw [List.drop_of_length_le outside, scanFrom, faultAt, if_pos outside]
    rfl

theorem no_fault_iff (bytes : Bytes) (c : Nat) : faultAt bytes c = none ↔ bytes.length ≤ c := by
  rw [faultAt]
  split
  · simp [*]
  · split <;> simp [*]

/-- A reading that ends inside the frame has come to a record that is too long, or to one
whose length byte is below two and whose tag is missing. -/
theorem fault_told {bytes : Bytes} {c : Nat} {fault : Fault} (unreadable : ¬ Readable bytes c)
    (named : faultAt bytes c = some fault) :
    c < bytes.length ∧
      (fault = .tooLong ∧ bytes.length < c + (byteAt bytes c).toNat + 1 ∨
        fault = .tagMissing c ∧ c + (byteAt bytes c).toNat + 1 ≤ bytes.length ∧
          (byteAt bytes c).toNat < 2) := by
  rw [Readable] at unreadable
  rw [faultAt] at named
  split at named
  · cases named
  · split at named
    · cases named
      exact ⟨by omega, .inl ⟨rfl, by assumption⟩⟩
    · cases named
      exact ⟨by omega, .inr ⟨rfl, by omega, by omega⟩⟩

/-- The records before the `n`-th are readable, and it is not. -/
def StopsAt (bytes : Bytes) (n : Nat) : Prop :=
  (∀ k < n, Readable bytes (start bytes k)) ∧ ¬ Readable bytes (start bytes n)

theorem start_grows (bytes : Bytes) (k : Nat) : 2 * k + 2 ≤ start bytes k := by
  induction k with
  | zero => exact le_rfl
  | succ k ih =>
    rw [start]
    omega

theorem start_strictMono (bytes : Bytes) : StrictMono (start bytes) :=
  strictMono_nat_of_lt_succ fun k => by
    rw [start]
    omega

theorem stops_somewhere (bytes : Bytes) : ∃ n, StopsAt bytes n := by
  have beyond : ∃ n, ¬ Readable bytes (start bytes n) := by
    refine ⟨bytes.length, fun readable => ?_⟩
    have inside := readable.1
    have grown := start_grows bytes bytes.length
    omega
  exact ⟨Nat.find beyond, fun k before => not_not.mp (Nat.find_min beyond before),
    Nat.find_spec beyond⟩

theorem accepted_iff_before {bytes : Bytes} {n : Nat} (stops : StopsAt bytes n) (k : Nat) :
    Accepted bytes k ↔ k < n := by
  refine ⟨fun accepted => Nat.lt_of_not_le fun late => stops.2 (accepted n late), fun before j le =>
    stops.1 j (Nat.lt_of_le_of_lt le before)⟩

/-- From any start on, the scan finds the readable records and the fault of the first
that is not readable. -/
theorem scan_from_start {bytes : Bytes} {n k : Nat}
    (readable : ∀ j < n, Readable bytes (start bytes (k + j)))
    (ends : ¬ Readable bytes (start bytes (k + n))) :
    scanFrom (start bytes k) (bytes.drop (start bytes k)) =
      ⟨(List.range n).map fun j => recordAt bytes (start bytes (k + j)),
        faultAt bytes (start bytes (k + n))⟩ := by
  -- By the number of records: one is read at the start, the others from the next start.
  induction n generalizing k with
  | zero => exact scan_unreadable ends
  | succ n ih =>
    have others : ∀ j < n, Readable bytes (start bytes (k + 1 + j)) := by
      intro j before
      rw [Nat.add_right_comm]
      exact readable (j + 1) (Nat.succ_lt_succ before)
    have later := ih others (by rwa [Nat.add_right_comm])
    have first := scan_readable (readable 0 (Nat.succ_pos n))
    have next : start bytes k + (byteAt bytes (start bytes k)).toNat + 2 = start bytes (k + 1) := rfl
    have behind : ∀ j, k + 1 + j = k + (j + 1) := fun j => by omega
    rw [Nat.add_zero, next, later] at first
    rw [first, List.range_succ_eq_map, List.map_cons, List.map_map]
    simp only [behind]
    rfl

/-- All that is read of a frame, by the number of records that are readable. -/
theorem scan_until {bytes : Bytes} {n : Nat} (stops : StopsAt bytes n) :
    scanFrom headerLength (bytes.drop headerLength) =
      ⟨(List.range n).map fun k => recordAt bytes (start bytes k),
        faultAt bytes (start bytes n)⟩ := by
  have readable : ∀ j < n, Readable bytes (start bytes (0 + j)) := by
    simpa only [Nat.zero_add] using stops.1
  have ends : ¬ Readable bytes (start bytes (0 + n)) := by
    simpa only [Nat.zero_add] using stops.2
  have found := scan_from_start readable ends
  simp only [Nat.zero_add] at found
  exact found

/-- The accepted records of a frame, by number, with what each of them says. -/
theorem told_accepted (bytes : Bytes) (k : Nat) :
    (told (bytes.drop headerLength))[k]? = written bytes k := by
  obtain ⟨n, stops⟩ := stops_somewhere bytes
  rw [← told_anywhere headerLength, scan_until stops, written, List.getElem?_map]
  by_cases before : k < n
  · rw [if_pos ((accepted_iff_before stops k).mpr before)]
    simp [before, recordAt, news_written]
  · rw [if_neg (mt (accepted_iff_before stops k).mp before)]
    simp [before]

/-- Every part of a decoded event was written last by the accepted records. -/
theorem decode_written {bytes : Bytes} (long : 5 ≤ bytes.length)
    (short : bytes.length ≤ maxFrameLength) (held : Event) :
    KeepsLast (written bytes) ((present bytes short).decode held).event := by
  have kept := merge_keeps_last (told (bytes.drop headerLength))
  simp only [told_accepted] at kept
  rw [(decode_told long short held).2]
  exact kept

/-- Decoding any frame of at least five bytes succeeds, and the event is the one
whose every part was written last by the accepted records, whatever was held. -/
theorem decode_keeps_last_writes (bytes : Bytes) (long : 5 ≤ bytes.length)
    (short : bytes.length ≤ maxFrameLength) (held : Event) :
    ((present bytes short).decode held).accepted = true ∧
      ∀ e, ((present bytes short).decode held).event = e ↔ KeepsLast (written bytes) e := by
  obtain ⟨accepted, event⟩ := decode_told long short held
  refine ⟨accepted, fun e => ?_⟩
  have kept := merge_keeps_last (told (bytes.drop headerLength))
  simp only [told_accepted] at kept
  rw [event]
  constructor
  · rintro rfl
    exact kept
  · exact fun other => keeps_last_unique kept other

/-- Three records that overlap: the first says it is one byte long, so the second
starts at its timestamp and the third at the second one's gain. -/
theorem overlapping_records_keep_last_writes :
    5 ≤ [0, 0, 1, 0, 7, 2, 0, 1, 9, 0, 7, 5].length ∧
    [0, 0, 1, 0, 7, 2, 0, 1, 9, 0, 7, 5].length ≤ maxFrameLength ∧
    ((present [0, 0, 1, 0, 7, 2, 0, 1, 9, 0, 7, 5] (by decide)).decode .empty).accepted = true ∧
    KeepsLast (written [0, 0, 1, 0, 7, 2, 0, 1, 9, 0, 7, 5])
      ⟨some (Bytes.ofChar 'A'), some 0, some 84344841, some []⟩ := by
  have decoded := decode_keeps_last_writes [0, 0, 1, 0, 7, 2, 0, 1, 9, 0, 7, 5] (by decide)
    (by decide) .empty
  refine ⟨by decide, by decide, decoded.1, (decoded.2 _).mp ?_⟩
  cbv

end NfcPolling.RecordStarts
