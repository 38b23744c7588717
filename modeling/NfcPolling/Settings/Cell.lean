import NfcPolling.Settings.Value

/-! The place in which a value is kept: a field for each type, and a kind that says
which of them counts. Storing a value writes its own field and the kind only, so the
other fields still hold what was stored in them earlier. -/
namespace NfcPolling.Settings

open Journal (Noted)

variable [Dialect]

/-- The types a value can have. -/
inductive Kind where
  | unsigned
  | string
  | bytes
  deriving DecidableEq, Repr

structure Cell where
  kind : Kind
  number : UInt32
  text : Bytes
  content : Bytes
  deriving DecidableEq, Repr

namespace Cell

/-- A new cell holds nothing in the fields that do not count. -/
def new : Value → Cell
  | .unsigned number => ⟨.unsigned, number, [], []⟩
  | .string text => ⟨.string, 0, text, []⟩
  | .bytes content => ⟨.bytes, 0, [], content⟩

def initial : Cell := new .initial

/-- The value in the field that counts. -/
def value (cell : Cell) : Value :=
  match cell.kind with
  | .unsigned => .unsigned cell.number
  | .string => .string cell.text
  | .bytes => .bytes cell.content

/-- Stores what a text denotes, and says whether it denotes anything. Quotes are
looked for before braces and those before a number. -/
def parse (cell : Cell) (text : Bytes) : Cell × Bool :=
  match Value.enclosed? (Bytes.ofChar '\x22') (Bytes.ofChar '\x22') text with
  | some quoted =>
    if quoted = [] then (cell, false)
    else ({ cell with kind := .string, text := quoted }, true)
  | none =>
    match Value.enclosed? (Bytes.ofChar '\x7b') (Bytes.ofChar '\x7d') text with
    | some groups =>
      match Value.byteGroups? groups with
      | none => (cell, false)
      | some content => ({ cell with kind := .bytes, content := content }, true)
    | none =>
      match Numeral.read? text with
      | none => (cell, false)
      | some number => ({ cell with kind := .unsigned, number := number }, true)

/-- The cell after a change, and whether the change took place. A replaced cell keeps
none of its fields. -/
def change (cell : Cell) : Value.Change → Cell × Bool
  | .parse text => cell.parse text
  | .replace value => (new value, true)

def after (cell : Cell) (changes : List Value.Change) : Cell :=
  changes.foldl (fun held next => (held.change next).1) cell

/-- The outcome of each change, and the cell after it. -/
def run (cell : Cell) : List Value.Change → List (Bool × Cell)
  | [] => []
  | next :: rest => ((cell.change next).2, (cell.change next).1) :: (cell.change next).1.run rest

def asUnsigned (cell : Cell) : Noted Notice UInt32 :=
  if cell.kind = .unsigned then ⟨cell.number, []⟩ else ⟨0, [.notUnsigned]⟩

def asString (cell : Cell) : Noted Notice Bytes :=
  if cell.kind = .string then ⟨cell.text, []⟩ else ⟨[], [.notString]⟩

def asBytes (cell : Cell) : Noted Notice Bytes :=
  if cell.kind = .bytes then ⟨cell.content, []⟩ else ⟨[], [.notBytes]⟩

/-- All three readings in order, as of the value that is held. -/
def readings (cell : Cell) : Noted Notice Value.Readings := do
  let number ← cell.asUnsigned
  let text ← cell.asString
  let content ← cell.asBytes
  return ⟨number, text, content⟩

end Cell

end NfcPolling.Settings
