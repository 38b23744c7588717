import Mathlib.Data.List.Induction
import NfcPolling.Proofs.Frame.ScanView

/-! A decoded event keeps, part by part, what the last record said. Each record
contributes an event of its own; contributions are laid one over the other, and
which of them survives in a part is a statement about indices alone. -/
namespace NfcPolling.EventMerge
open NfcPolling.Frame ScanView

/-- A later event covers an earlier one wherever it knows anything. -/
def overlay (earlier later : Event) : Event where
  type := later.type.or earlier.type
  gain := later.gain.or earlier.gain
  timestamp := later.timestamp.or earlier.timestamp
  payload := later.payload.or earlier.payload

theorem overlay_assoc (first second third : Event) :
    overlay (overlay first second) third = overlay first (overlay second third) := by
  simp only [overlay, Option.or_assoc]

@[simp] theorem empty_overlay (e : Event) : overlay .empty e = e := by
  cases e
  simp [overlay, Event.empty]

/-- Contributions in order, each laid over those before it. -/
def merge (contributions : List Event) : Event := contributions.foldl overlay .empty

private theorem foldl_overlay (start : Event) (contributions : List Event) :
    contributions.foldl overlay start = overlay start (merge contributions) := by
  induction contributions generalizing start with
  | nil => simp [merge, overlay, Event.empty]
  | cons first more ih =>
    have whole : merge (first :: more) = overlay first (merge more) := by
      rw [merge, List.foldl_cons, empty_overlay, ih]
    rw [List.foldl_cons, ih, overlay_assoc, whole]

theorem merge_append (earlier later : List Event) :
    merge (earlier ++ later) = overlay (merge earlier) (merge later) := by
  rw [merge, List.foldl_append, foldl_overlay]
  rfl

@[simp] theorem merge_singleton (e : Event) : merge [e] = e := empty_overlay e

/-- The value kept is that of the last index that writes one, and nothing is
kept only when no index ever writes. -/
def LastWrite (written : Nat → Option α) : Option α → Prop
  | none => ∀ k, written k = none
  | some value => ∃ k, written k = some value ∧ ∀ later, k < later → written later = none

theorem last_write_unique {written : Nat → Option α} {first second : Option α}
    (left : LastWrite written first) (right : LastWrite written second) : first = second := by
  cases first with
  | none =>
    cases second with
    | none => rfl
    | some value =>
      obtain ⟨k, wrote, _⟩ := right
      rw [left k] at wrote
      cases wrote
  | some value =>
    obtain ⟨k, wrote, silent⟩ := left
    cases second with
    | none =>
      rw [right k] at wrote
      cases wrote
    | some other =>
      obtain ⟨l, wroteOther, silentOther⟩ := right
      rcases Nat.lt_trichotomy k l with before | same | after
      · rw [silent l before] at wroteOther
        cases wroteOther
      · rw [← wrote, ← wroteOther, same]
      · rw [silentOther k after] at wrote
        cases wrote

/-- One more contribution at the end is the last write if it writes, and leaves the
last write where it was if it does not. -/
theorem last_write_concat {part : α → Option β} {earlier : List α} {kept : Option β} (last : α)
    (stands : LastWrite (fun k : Nat => earlier[k]?.bind part) kept) :
    LastWrite (fun k : Nat => (earlier ++ [last])[k]?.bind part) ((part last).or kept) := by
  have beyond : ∀ k : Nat, earlier.length < k → (earlier ++ [last])[k]? = none := by
    intro k after
    rw [List.getElem?_eq_none]
    simp only [List.length_append, List.length_singleton]
    omega
  cases wrote : part last with
  | some value =>
    refine ⟨earlier.length, by simp [wrote], ?_⟩
    intro later after
    simp [beyond later after]
  | none =>
    -- The new contribution is silent here, so the earlier last write stands.
    have same : ∀ k : Nat, (earlier ++ [last])[k]?.bind part = earlier[k]?.bind part := by
      intro k
      rcases Nat.lt_trichotomy k earlier.length with before | here | after
      · rw [List.getElem?_append_left before]
      · subst here
        simp [wrote]
      · rw [beyond k after, List.getElem?_eq_none (Nat.le_of_lt after)]
    simpa only [same, Option.none_or] using stands

/-- What a part of merged contributions holds was written by the last
contribution that knows the part. -/
theorem merge_last_write {part : Event → Option α} (silent : part .empty = none)
    (covers : ∀ earlier later, part (overlay earlier later) = (part later).or (part earlier))
    (contributions : List Event) :
    LastWrite (fun k : Nat => contributions[k]?.bind part) (part (merge contributions)) := by
  -- One contribution is added at the end, the place where a new last write can appear.
  induction contributions using List.reverseRecOn with
  | nil =>
    rw [show merge [] = .empty from rfl, silent]
    intro k
    rfl
  | append_singleton earlier last ih =>
    rw [merge_append, merge_singleton, covers]
    exact last_write_concat last ih

theorem payload_from {contributions : List Event} {data : Bytes}
    (kept : (merge contributions).payload = some data) :
    ∃ e ∈ contributions, e.payload = some data := by
  have written : LastWrite (fun k : Nat => contributions[k]?.bind Event.payload)
      (merge contributions).payload := merge_last_write rfl (fun _ _ => rfl) contributions
  rw [kept] at written
  obtain ⟨k, wrote, _⟩ := written
  obtain ⟨e, found, payload⟩ := Option.bind_eq_some_iff.mp wrote
  exact ⟨e, List.mem_of_getElem? found, payload⟩

/-- An event holds in every part the last write of the contributions, which are
given by index and may end anywhere. -/
structure KeepsLast (contributions : Nat → Option Event) (e : Event) : Prop where
  type : LastWrite (fun k => (contributions k).bind Event.type) e.type
  gain : LastWrite (fun k => (contributions k).bind Event.gain) e.gain
  timestamp : LastWrite (fun k => (contributions k).bind Event.timestamp) e.timestamp
  payload : LastWrite (fun k => (contributions k).bind Event.payload) e.payload

theorem keeps_last_unique {contributions : Nat → Option Event} {first second : Event}
    (left : KeepsLast contributions first) (right : KeepsLast contributions second) :
    first = second := by
  cases first
  cases second
  rw [Event.mk.injEq]
  exact ⟨last_write_unique left.type right.type, last_write_unique left.gain right.gain,
    last_write_unique left.timestamp right.timestamp,
    last_write_unique left.payload right.payload⟩

theorem merge_keeps_last (contributions : List Event) :
    KeepsLast (fun k : Nat => contributions[k]?) (merge contributions) where
  type := merge_last_write rfl (fun _ _ => rfl) contributions
  gain := merge_last_write rfl (fun _ _ => rfl) contributions
  timestamp := merge_last_write rfl (fun _ _ => rfl) contributions
  payload := merge_last_write rfl (fun _ _ => rfl) contributions

/-- What a record alone says. -/
def news (r : Record) : Event where
  type := r.observation.letter
  gain := r.gain
  timestamp := r.timestamp
  payload := r.observation.payload

theorem event_eq_merge (s : Scan) : s.event = merge (s.records.map news) := by
  rw [merge, List.foldl_map]
  rfl

/-- What the records in some bytes say, one after the other. -/
def told (bytes : Bytes) : List Event := (scanFrom 0 bytes).records.map news

/-- Where in a frame the bytes stand does not change what is told. -/
theorem told_anywhere (position : Nat) (bytes : Bytes) :
    (scanFrom position bytes).records.map news = told bytes := by
  suffices shifted : ∀ other, (scanFrom position bytes).records.map news =
      (scanFrom other bytes).records.map news from shifted 0
  -- Both scans read the same record and move on by its size; only the positions
  -- they note differ, and no news holds a position.
  induction position, bytes using scanFrom.induct with
  | case1 position =>
    intro other
    rw [scanFrom, scanFrom]
    rfl
  | case2 position bytes remains fault read =>
    intro other
    have refused : ∀ place record, readFrom place bytes ≠ .ok record := by
      intro place record readThere
      obtain ⟨length, flags, tag, body, shape, fits, _⟩ := (read_ok_iff place).mp readThere
      have readHere := (read_ok_iff position).mpr ⟨length, flags, tag, body, shape, fits, rfl⟩
      rw [read] at readHere
      cases readHere
    rw [scan_refused (refused position), scan_refused (refused other)]
  | case3 position bytes remains record read ih =>
    intro other
    obtain ⟨length, flags, tag, body, rfl, fits, rfl⟩ := (read_ok_iff position).mp read
    rw [scan_record position flags tag fits, scan_record other flags tag fits]
    exact congrArg (_ :: ·) (ih _)

theorem told_record {length : UInt8} (flags tag : UInt8) {body : Bytes}
    (fits : length.toNat ≤ body.length + 2) :
    told (length :: flags :: tag :: body) =
      news (recordOf 0 length tag (length :: flags :: tag :: body)) ::
        told ((length :: flags :: tag :: body).drop (length.toNat + lengthOverhead)) := by
  rw [told, scan_record 0 flags tag fits, List.map_cons, told_anywhere]

/-- Bytes tell nothing, or first what their first record says and then what is
told behind it. -/
theorem told_cases (bytes : Bytes) :
    told bytes = [] ∨ ∃ length flags tag body, bytes = length :: flags :: tag :: body ∧
      told bytes = news (recordOf 0 length tag bytes) ::
        told (bytes.drop (length.toNat + lengthOverhead)) := by
  by_cases found : ∃ record, readFrom 0 bytes = .ok record
  · obtain ⟨record, read⟩ := found
    obtain ⟨length, flags, tag, body, rfl, fits, _⟩ := (read_ok_iff 0).mp read
    exact Or.inr ⟨length, flags, tag, body, rfl, told_record flags tag fits⟩
  · have refused : ∀ record, readFrom 0 bytes ≠ .ok record := fun record read =>
      found ⟨record, read⟩
    exact Or.inl (by rw [told, scan_refused refused, List.map_nil])

/-- Fewer bytes than a record needs for its tag tell nothing. -/
theorem told_short {bytes : Bytes} (short : bytes.length < 3) : told bytes = [] := by
  rcases told_cases bytes with nothing | ⟨length, flags, tag, body, rfl, _⟩
  · exact nothing
  · simp only [List.length_cons] at short
    omega

/-- The event of a frame of at least five bytes is what its bytes behind the
header tell. -/
theorem decode_told {bytes : Bytes} (long : 5 ≤ bytes.length)
    (short : bytes.length ≤ maxFrameLength) (held : Event) :
    ((present bytes short).decode held).accepted = true ∧
      ((present bytes short).decode held).event = merge (told (bytes.drop headerLength)) := by
  rw [decode_present long short held]
  refine ⟨rfl, ?_⟩
  rw [← told_anywhere headerLength, ← event_eq_merge]

end NfcPolling.EventMerge
