import NfcPolling.Settings.Line

/-! The bindings of a configuration. A key keeps the first value it is given;
every later line for it is rejected, whatever its value, and a rejected line
binds nothing. -/
namespace NfcPolling.Settings

open Journal (Noted)

variable [Dialect]

/-- Bound keys with their values, in the order in which they were bound. -/
structure Table where
  bindings : List (Bytes × Value)
  deriving DecidableEq, Repr

namespace Table

def empty : Table := ⟨[]⟩

def isEmpty (t : Table) : Bool := t.bindings.isEmpty

def find? (t : Table) (key : Bytes) : Option Value := t.bindings.lookup key

def has (t : Table) (key : Bytes) : Bool := (t.find? key).isSome

/-- The table with one more binding at its end. -/
def bind (t : Table) (key : Bytes) (value : Value) : Table := ⟨t.bindings ++ [(key, value)]⟩

/-- What became of a line. -/
inductive Verdict where
  | ignored
  | kept (key text : Bytes)
  | rejected (fault : LineFault)
  | duplicate (key : Bytes)
  deriving DecidableEq, Repr

namespace Verdict

/-- Rejected lines and duplicates make a text invalid. -/
def isValid : Verdict → Bool
  | ignored | kept _ _ => true
  | rejected _ | duplicate _ => false

def notice : Verdict → Option Notice
  | ignored => none
  | kept key text => some (.bound key text)
  | rejected fault => some fault.notice
  | duplicate key => some (.duplicateKey key)

end Verdict

/-- The table after a line, and what became of the line. -/
def add (t : Table) : Line → Table × Verdict
  | .ignored => (t, .ignored)
  | .rejected fault => (t, .rejected fault)
  | .binding key text value =>
    if t.has key then (t, .duplicate key) else (t.bind key value, .kept key text)

/-- The table after lines in order, and what became of each of them. -/
def addAll (t : Table) : List Line → Table × List Verdict
  | [] => (t, [])
  | line :: rest =>
    let (next, verdict) := t.add line
    let (final, verdicts) := next.addAll rest
    (final, verdict :: verdicts)

/-- The table after a text, and whether all of its lines were valid. -/
def read (t : Table) (text : Bytes) : Noted Notice (Table × Bool) :=
  let (next, verdicts) := t.addAll (lines text)
  ⟨(next, verdicts.all Verdict.isValid), verdicts.filterMap Verdict.notice⟩

/-- The value of a key; without a binding it is the initial value. -/
def value (t : Table) (key : Bytes) : Noted Notice Value :=
  match t.find? key with
  | some value => ⟨value, []⟩
  | none => ⟨.initial, [.unknownKey key]⟩

/-- The number bound to a key, or zero. -/
def unsigned (t : Table) (key : Bytes) : Noted Notice UInt32 := t.value key >>= Value.asUnsigned

/-- The text bound to a key, or the empty text. -/
def string (t : Table) (key : Bytes) : Noted Notice Bytes := t.value key >>= Value.asString

/-- The bytes bound to a key, or none. -/
def bytes (t : Table) (key : Bytes) : Noted Notice Bytes := t.value key >>= Value.asBytes

/-- The number of a key when it is bound, whether to a number or not. -/
def unsigned? (t : Table) (key : Bytes) : Noted Notice (Option UInt32) :=
  if t.has key then some <$> t.unsigned key else pure none

end Table

end NfcPolling.Settings
