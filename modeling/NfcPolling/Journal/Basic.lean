import NfcPolling.Bytes

/-! How grave a journal entry is, which part of the library made it, and the
four levels that decide which entries are written. A level only ever removes
entries; the global one removes none by itself.

A value comes together with the remarks made while computing it. Computations are
chained so that the remarks of the earlier one come first; what is remarked
never changes the value. -/
namespace NfcPolling.Journal

inductive Severity where
  | error
  | warning
  | debug
  deriving DecidableEq, Repr

namespace Severity

/-- The lowest level at which entries of this severity are written. -/
def rank : Severity → UInt8
  | error => 1
  | warning => 2
  | debug => 3

def letter : Severity → UInt8
  | error => Bytes.ofChar 'E'
  | warning => Bytes.ofChar 'W'
  | debug => Bytes.ofChar 'D'

/-- The severity in the low three bits of a mask; a value without a meaning of
its own counts as debug. -/
def ofMask (mask : UInt32) : Severity :=
  if mask &&& 7 = 1 then error else if mask &&& 7 = 2 then warning else debug

end Severity

/-- The part of the library that an entry comes from. -/
inductive Source where
  | decoder
  | api
  | config
  deriving DecidableEq, Repr

/-- The label that lines of the source carry, with the space that ends it. -/
def Source.label : Source → Bytes
  | .decoder => Bytes.ascii "PlfDecoder "
  | .api => Bytes.ascii "PlfApi "
  | .config => Bytes.ascii "PlfConfig "

/-- One level for everything and one for each source. -/
structure Levels where
  global : UInt8
  decoder : UInt8
  api : UInt8
  config : UInt8
  deriving DecidableEq, Repr

namespace Levels

/-- Before any configuration is read, errors and warnings are written. -/
def initial : Levels := ⟨2, 2, 2, 2⟩

/-- Everything is written. -/
def verbose : Levels := ⟨3, 3, 3, 3⟩

/-- The level that the entries of a source are held against. -/
def of (levels : Levels) : Source → UInt8
  | .decoder => levels.decoder
  | .api => levels.api
  | .config => levels.config

/-- The levels with that of one source replaced. -/
def put (levels : Levels) (source : Source) (level : UInt8) : Levels :=
  match source with
  | .decoder => { levels with decoder := level }
  | .api => { levels with api := level }
  | .config => { levels with config := level }

/-- Is an entry of this source and severity written? -/
def admits (levels : Levels) (source : Source) (severity : Severity) : Bool :=
  severity.rank ≤ levels.of source

end Levels

/-- A value and the remarks on it, oldest first. -/
structure Noted (ν α : Type) where
  value : α
  notes : List ν := []
  deriving DecidableEq, Repr

namespace Noted

variable {ν α β : Type}

def note (n : ν) : Noted ν Unit := ⟨(), [n]⟩

instance : Monad (Noted ν) where
  pure value := ⟨value, []⟩
  bind first next := ⟨(next first.value).value, first.notes ++ (next first.value).notes⟩

@[simp] theorem value_pure (a : α) : (pure a : Noted ν α).value = a := rfl

@[simp] theorem notes_pure (a : α) : (pure a : Noted ν α).notes = [] := rfl

@[simp] theorem notes_note (n : ν) : (note n).notes = [n] := rfl

@[simp] theorem value_bind (first : Noted ν α) (next : α → Noted ν β) :
    (first >>= next).value = (next first.value).value := rfl

@[simp] theorem notes_bind (first : Noted ν α) (next : α → Noted ν β) :
    (first >>= next).notes = first.notes ++ (next first.value).notes := rfl

end Noted

end NfcPolling.Journal
