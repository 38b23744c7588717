import NfcPolling.Proofs.Frame.RecordStarts
import NfcPolling.Proofs.Journal.Transcripts
import NfcPolling.Proofs.Service.Deliveries

/-! Bytes of a frame that no decoding can depend on. What is decoded is settled by the
bytes that the records look at, and frames that agree on those are decoded alike. No
record looks at the header, at its own flags, or at the flags of a record behind it as
long as it is long enough to end before them. -/
namespace NfcPolling.UnreadBytes
open NfcPolling.Frame RecordStarts ScanView Service Deliveries Transcript

/-- The record at `c` looks at its length byte, at all that its length byte covers behind
the flags, and at timestamp, gain and field state even where that is less. -/
def LooksAt (bytes : Bytes) (c i : Nat) : Prop :=
  i = c ∨ (c + 2 ≤ i ∧ i < max (c + 9) (c + 3 + (byteAt bytes c).toNat))

/-- A record starts there inside the frame, behind accepted records only. It may itself
be the one that is not accepted. -/
def Reached (bytes : Bytes) (k : Nat) : Prop :=
  (∀ j < k, Readable bytes (start bytes j)) ∧ start bytes k < bytes.length

/-- The header, and the flags of each record that is reached over records with a length
byte of at least six. -/
inductive Ignored (bytes : Bytes) : Nat → Prop where
  | header {i : Nat} (before : i < 2) : Ignored bytes i
  | flags {k : Nat} (reached : Reached bytes k)
      (long : ∀ j < k, 6 ≤ (byteAt bytes (start bytes j)).toNat) : Ignored bytes (start bytes k + 1)

section Local
variable {x y : Bytes}

theorem byte_local {i : Nat} (same : y[i]? = x[i]?) : byteAt y i = byteAt x i := by
  rw [byteAt, byteAt, List.getD_eq_getElem?_getD, List.getD_eq_getElem?_getD, same]

theorem run_local {c count : Nat} (same : ∀ i < count, y[c + i]? = x[c + i]?) :
    (y.drop c).take count = (x.drop c).take count := by
  apply List.ext_getElem?
  intro i
  by_cases within : i < count
  · rw [List.getElem?_take_of_lt within, List.getElem?_take_of_lt within, List.getElem?_drop,
      List.getElem?_drop, same i within]
  · rw [List.getElem?_take_eq_none (Nat.le_of_not_lt within),
      List.getElem?_take_eq_none (Nat.le_of_not_lt within)]

variable (size : y.length = x.length)
include size

/-- A record is told by the bytes it looks at and by the length of the frame. -/
theorem record_local {c : Nat} (same : ∀ i, LooksAt x c i → y[i]? = x[i]?) :
    recordAt y c = recordAt x c := by
  have length : byteAt y c = byteAt x c := byte_local (same c (.inl rfl))
  have near : ∀ i, 2 ≤ i → i < 9 → y[c + i]? = x[c + i]? := fun i low high =>
    same (c + i) (.inr ⟨by omega, by omega⟩)
  have tag : byteAt y (c + 2) = byteAt x (c + 2) := byte_local (near 2 (by omega) (by omega))
  have offset : ∀ i, 2 ≤ i → i < 9 → (y.drop c)[i]? = (x.drop c)[i]? := by
    intro i low high
    rw [List.getElem?_drop, List.getElem?_drop, near i low high]
  have timestamp : timestampOf (y.drop c) = timestampOf (x.drop c) := by
    have run : ((y.drop c).drop timestampOffset).take 4 = ((x.drop c).drop timestampOffset).take 4 := by
      rw [List.drop_drop, List.drop_drop]
      refine run_local fun i within => ?_
      rw [Nat.add_assoc, timestampOffset]
      exact near (3 + i) (by omega) (by omega)
    rw [timestampOf, timestampOf, run, List.length_drop, List.length_drop, size]
  have data : dataOf (byteAt x c) (y.drop c) = dataOf (byteAt x c) (x.drop c) := by
    rw [dataOf, dataOf, List.drop_take, List.drop_take, List.drop_drop, List.drop_drop]
    refine run_local fun i within => ?_
    rw [timestampOffset, dataOffset] at within
    exact same _ (.inr ⟨by rw [dataOffset]; omega, by rw [dataOffset]; omega⟩)
  rw [recordAt, recordAt, length, tag, recordOf, recordOf, observe, observe,
    offset dataOffset (by decide) (by decide), offset gainOffset (by decide) (by decide),
    timestamp, data]

/-- Whether a record is readable, and what is wrong if not, is told by its length byte. -/
theorem reading_local {c : Nat} (same : c < x.length → y[c]? = x[c]?) :
    (Readable y c ↔ Readable x c) ∧ faultAt y c = faultAt x c := by
  by_cases inside : c < x.length
  · have length : byteAt y c = byteAt x c := byte_local (same inside)
    rw [Readable, Readable, faultAt, faultAt, length, size]
    exact ⟨Iff.rfl, rfl⟩
  · have outside := Nat.le_of_not_lt inside
    rw [Readable, Readable, faultAt, faultAt, size, if_pos outside, if_pos outside]
    exact ⟨⟨fun readable => absurd readable.1 inside, fun readable => absurd readable.1 inside⟩, rfl⟩

/-- Frames of one length are scanned alike when they agree on all that the records of
one of them look at. -/
theorem scan_local
    (same : ∀ k, Reached x k → ∀ i, LooksAt x (start x k) i → y[i]? = x[i]?) :
    scanFrom headerLength (y.drop headerLength) = scanFrom headerLength (x.drop headerLength) := by
  obtain ⟨n, stops⟩ := stops_somewhere x
  have reached : ∀ k ≤ n, start x k < x.length → Reached x k := fun k upto inside =>
    ⟨fun j before => stops.1 j (Nat.lt_of_lt_of_le before upto), inside⟩
  have starts : ∀ k ≤ n, start y k = start x k := by
    intro k
    induction k with
    | zero => exact fun _ => rfl
    | succ k ih =>
      intro upto
      have here := ih (Nat.le_of_succ_le upto)
      have inside := (stops.1 k upto).1
      have length := byte_local (same k (reached k (Nat.le_of_succ_le upto) inside) _ (.inl rfl))
      rw [start, start, here, length]
  have reading : ∀ k ≤ n, (Readable y (start y k) ↔ Readable x (start x k)) ∧
      faultAt y (start y k) = faultAt x (start x k) := by
    intro k upto
    rw [starts k upto]
    exact reading_local size fun inside => same k (reached k upto inside) _ (.inl rfl)
  have stopsToo : StopsAt y n :=
    ⟨fun k before => (reading k (Nat.le_of_lt before)).1.mpr (stops.1 k before),
      mt (reading n le_rfl).1.mp stops.2⟩
  rw [scan_until stops, scan_until stopsToo, (reading n le_rfl).2]
  congr 1
  refine List.map_congr_left fun k member => ?_
  have before := List.mem_range.mp member
  rw [starts k (Nat.le_of_lt before)]
  exact record_local size (same k (reached k (Nat.le_of_lt before) (stops.1 k before).1))

end Local

/-- No record looks at an ignored byte. -/
theorem ignored_not_looked_at {bytes : Bytes} {k i : Nat} (looks : LooksAt bytes (start bytes k) i) :
    ¬ Ignored bytes i := by
  intro ignored
  cases ignored with
  | header before =>
    have grown := start_grows bytes k
    rcases looks with rfl | looks
    · omega
    · omega
  | @flags l reached long =>
    rcases Nat.lt_trichotomy k l with before | rfl | after
    · -- A record in front ends before the flags, with the one byte that it reads too much.
      have next := (start_strictMono bytes).monotone before
      have covered := long k before
      rw [start] at next
      rcases looks with same | ⟨low, high⟩
      · omega
      · omega
    · rcases looks with same | ⟨low, high⟩
      · omega
      · omega
    · have next := (start_strictMono bytes).monotone after
      rw [start] at next
      rcases looks with same | ⟨low, high⟩
      · omega
      · omega

/-- Frames of one length that differ in ignored bytes only are decoded alike. -/
theorem decode_ignored {x y : Bytes} (long : 5 ≤ x.length) (short : x.length ≤ maxFrameLength)
    (size : y.length = x.length) (same : ∀ i, ¬ Ignored x i → y[i]? = x[i]?) (held : Event) :
    (present y (size ▸ short)).decode held = (present x short).decode held := by
  have scans := scan_local size fun k _ i looks => same i (ignored_not_looked_at looks)
  have longToo : minLength ≤ y.length := size ▸ long
  rw [decode_present longToo (size ▸ short) held, decode_present long short held, scans, size]

/-- What an ignored byte holds changes neither result nor event nor remarks, and so no
line at any levels. The header and the flags of the first record are ignored in every
frame; a vendor notification about polling delivers the event of its frame whatever
stands in place of the byte that says what it is about. -/
theorem ignored_bytes_change_nothing {x : Bytes} (long : 5 ≤ x.length)
    (short : x.length ≤ maxFrameLength) :
    (∀ (y : Bytes) (size : y.length = x.length), (∀ i, ¬ Ignored x i → y[i]? = x[i]?) →
      (∀ held, (present y (size ▸ short)).decode held = (present x short).decode held) ∧
      ∀ levels held,
        decodings levels held [present y (size ▸ short)] = decodings levels held [present x short]) ∧
    ∀ (y : Bytes) (size : y.length = x.length),
      (∀ i, i ≠ 0 → i ≠ 1 → i ≠ 3 → y[i]? = x[i]?) →
        (∀ held, (present y (size ▸ short)).decode held = (present x short).decode held) ∧
        ∀ event, (Delivery.ofVendor event (present y (size ▸ short))).value.events =
          if AboutPolling event y.length y then [((present x short).decode .empty).event] else [] := by
  refine ⟨?ignored, ?always⟩
  case ignored =>
    intro y size same
    have alike := decode_ignored long short size same
    refine ⟨alike, fun levels held => ?_⟩
    simp only [Transcripts.decodings_filtered, decodeAll, alike]
  case always =>
    intro y size same
    have third : Ignored x 3 := .flags (k := 0) ⟨by simp, by simp [start]; omega⟩ (by simp)
    have alike := decode_ignored long short size fun i noticed => by
      refine same i ?_ ?_ ?_
      · rintro rfl
        exact noticed (.header (by omega))
      · rintro rfl
        exact noticed (.header (by omega))
      · rintro rfl
        exact noticed third
    refine ⟨alike, fun event => ?_⟩
    have longToo : 5 ≤ (present y (size ▸ short)).bytes.length := by
      change 5 ≤ y.length
      omega
    rw [value_ofVendor, value_ofFrame, if_pos longToo, alike]
    split
    · rename_i about
      exact (if_pos about).symm
    · rename_i other
      exact (if_neg other).symm

/-- Two records, the first of which is complete. -/
def bareFrame : Bytes := [0, 0, 7, 0, 1, 9, 8, 7, 6, 250, 0, 2, 0, 3]

/-- The same records with other bytes in the header and in both flags. -/
def markedFrame : Bytes := [5, 5, 7, 3, 1, 9, 8, 7, 6, 250, 0, 2, 77, 3]

theorem marks_change_nothing :
    5 ≤ bareFrame.length ∧ bareFrame.length ≤ maxFrameLength ∧
    markedFrame.length = bareFrame.length ∧
    (∀ i, ¬ Ignored bareFrame i → markedFrame[i]? = bareFrame[i]?) ∧
    (present markedFrame (by decide)).decode .empty = (present bareFrame (by decide)).decode .empty := by
  have size : markedFrame.length = bareFrame.length := rfl
  have first : Ignored bareFrame 3 := .flags (k := 0) ⟨by decide, by decide⟩ (by decide)
  have second : Ignored bareFrame 12 := .flags (k := 1) ⟨by decide, by decide⟩ (by decide)
  have same : ∀ i, ¬ Ignored bareFrame i → markedFrame[i]? = bareFrame[i]? := by
    intro i noticed
    match i with
    | 0 | 1 => exact absurd (.header (by omega)) noticed
    | 3 => exact absurd first noticed
    | 12 => exact absurd second noticed
    | 2 | 4 | 5 | 6 | 7 | 8 | 9 | 10 | 11 | 13 => rfl
    | i + 14 => rfl
  have changed := ignored_bytes_change_nothing (x := bareFrame) (by decide) (by decide)
  exact ⟨by decide, by decide, size, same, (changed.1 markedFrame size same).1 .empty⟩

/-- Behind a record with a length byte below six the next flags are a byte of its
timestamp. -/
example :
    ((present [0, 0, 1, 0, 1, 4, 0, 9, 0, 0] (by decide)).decode .empty).event.timestamp.map
        UInt32.toNat = some 589828 ∧
    ((present [0, 0, 1, 0, 1, 4, 1, 9, 0, 0] (by decide)).decode .empty).event.timestamp.map
        UInt32.toNat = some 590084 := by
  cbv

end NfcPolling.UnreadBytes
