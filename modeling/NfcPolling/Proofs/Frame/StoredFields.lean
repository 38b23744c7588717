import NfcPolling.Proofs.Frame.ScanView

/-! An event kept as flags beside values that are always there. Decoding clears what is
stored and then sets fields one by one, so that nothing stored before can show through:
a field whose flag is not set holds its default. -/
namespace NfcPolling.StoredFields
open NfcPolling.Frame ScanView

/-- For each part of an event whether it is set, and the value that is stored for it. -/
structure Fields where
  hasType : Bool := false
  type : UInt8 := 0
  hasGain : Bool := false
  gain : Int8 := 0
  hasTimestamp : Bool := false
  timestamp : UInt32 := 0
  hasPayload : Bool := false
  payload : Bytes := []
  deriving DecidableEq

/-- Setting a field stores the value and sets the flag; clearing stores all defaults. -/
def Fields.set (fields : Fields) : Event.Change → Fields
  | .type letter => { fields with hasType := true, type := letter }
  | .gain value => { fields with hasGain := true, gain := value }
  | .timestamp value => { fields with hasTimestamp := true, timestamp := value }
  | .payload bytes => { fields with hasPayload := true, payload := bytes }
  | .clear => {}

def Fields.setAll (fields : Fields) (changes : List Event.Change) : Fields :=
  changes.foldl Fields.set fields

/-- No value stands without its flag. -/
structure Settled (fields : Fields) : Prop where
  type : fields.hasType = false → fields.type = 0
  gain : fields.hasGain = false → fields.gain = 0
  timestamp : fields.hasTimestamp = false → fields.timestamp = 0
  payload : fields.hasPayload = false → fields.payload = []

def ofEvent (e : Event) : Fields where
  hasType := e.type.isSome
  type := e.type.getD 0
  hasGain := e.gain.isSome
  gain := e.gain.getD 0
  hasTimestamp := e.timestamp.isSome
  timestamp := e.timestamp.getD 0
  hasPayload := e.payload.isSome
  payload := e.payload.getD []

private theorem unset_default {part : Option α} (unset : part.isSome = false) (default : α) :
    part.getD default = default := by
  rw [Option.isSome_eq_false_iff, Option.isNone_iff_eq_none] at unset
  rw [unset]
  rfl

theorem settled_ofEvent (e : Event) : Settled (ofEvent e) where
  type unset := unset_default unset 0
  gain unset := unset_default unset 0
  timestamp unset := unset_default unset 0
  payload unset := unset_default unset []

theorem ofEvent_applyAll (e : Event) (changes : List Event.Change) :
    ofEvent (e.applyAll changes) = (ofEvent e).setAll changes := by
  induction changes generalizing e with
  | nil => rfl
  | cons change rest ih =>
    have first : ofEvent (e.apply change) = (ofEvent e).set change := by
      cases change <;> rfl
    have later := ih (e.apply change)
    rw [first] at later
    exact later

/-- The fields that a record sets, in the order in which it sets them. -/
def changesOf (r : Record) : List Event.Change :=
  (r.observation.letter.map Event.Change.type).toList
    ++ (r.observation.payload.map Event.Change.payload).toList
    ++ (r.gain.map Event.Change.gain).toList
    ++ (r.timestamp.map Event.Change.timestamp).toList

theorem apply_changes (e : Event) (r : Record) : Record.apply e r = e.applyAll (changesOf r) := by
  rw [Record.apply, changesOf]
  cases r.observation.letter <;> cases r.observation.payload <;> cases r.gain <;>
    cases r.timestamp <;> rfl

/-- All that decoding a frame does to what is stored: it is cleared, and then every
record sets its fields. -/
def changesIn (frame : Frame) : List Event.Change :=
  .clear :: frame.records.records.flatMap changesOf

private theorem foldl_changes (e : Event) (records : List Record) :
    records.foldl Record.apply e = e.applyAll (records.flatMap changesOf) := by
  induction records generalizing e with
  | nil => rfl
  | cons r rest ih =>
    rw [List.foldl_cons, ih, apply_changes, List.flatMap_cons, Event.applyAll, Event.applyAll,
      Event.applyAll, List.foldl_append]

/-- Whatever was stored, what is stored after decoding is the decoded event. -/
theorem stored_decode {bytes : Bytes} (long : minLength ≤ bytes.length)
    (short : bytes.length ≤ maxFrameLength) (held : Event) (fields : Fields) :
    fields.setAll (changesIn (present bytes short)) =
      ofEvent ((present bytes short).decode held).event := by
  have event : ((present bytes short).decode held).event =
      Event.empty.applyAll ((present bytes short).records.records.flatMap changesOf) := by
    rw [decode, if_neg (Nat.not_lt_of_le long)]
    exact foldl_changes .empty _
  rw [event, ofEvent_applyAll]
  rfl

end NfcPolling.StoredFields
