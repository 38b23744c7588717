import NfcPolling.Settings.Value

/-! One line of a configuration: nothing of interest, a binding of a key to a
value, or a fault. Blanks around the line, the key and the value are dropped. -/
namespace NfcPolling.Settings

variable [Dialect]

/-- Why a line does not bind a key. -/
inductive LineFault where
  | missingEquals (line : Bytes)
  | emptyKey (line : Bytes)
  | invalidValue (key text : Bytes)
  deriving DecidableEq, Repr

def LineFault.notice : LineFault → Notice
  | missingEquals line => .missingEquals line
  | emptyKey line => .emptyKey line
  | invalidValue key text => .invalidValue key text

inductive Line where
  /-- A blank line or a comment. -/
  | ignored
  | rejected (fault : LineFault)
  /-- A key, the text of its value and the value. -/
  | binding (key text : Bytes) (value : Value)
  deriving DecidableEq, Repr

namespace Line

/-- Reads a line whose outer blanks are gone. It is ignored when it is empty or
starts with a number sign or NUL. The first equals sign ends the key; of two
faults the missing sign comes before the empty key and that before the value. -/
def ofTrimmed (line : Bytes) : Line :=
  match line with
  | [] => ignored
  | first :: _ =>
    if first = Bytes.ofChar '#' ∨ first = 0 then ignored
    else
      let notEquals (b : UInt8) : Bool := b != Bytes.ofChar '='
      match line.dropWhile notEquals with
      | [] => rejected (.missingEquals line)
      | _ :: after =>
        let key := Bytes.trim (line.takeWhile notEquals)
        let text := Bytes.trim after
        if key = [] then rejected (.emptyKey line)
        else
          match Value.read? text with
          | none => rejected (.invalidValue key text)
          | some value => binding key text value

def read (line : Bytes) : Line := ofTrimmed (Bytes.trim line)

end Line

/-- The lines of a text: what stands between its newlines. -/
def lines (text : Bytes) : List Line := (Bytes.pieces 10 text).map Line.read

end NfcPolling.Settings
