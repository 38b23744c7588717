import NfcPolling.Journal.Basic
import NfcPolling.Settings.Notice
import NfcPolling.Settings.Numeral

/-! The values of a configuration: a number, a text in double quotes, or bytes
in braces as pairs of hexadecimal digits between colons. A value that is asked
for as something else answers with that type's zero and says so. -/
namespace NfcPolling.Settings

open Journal (Noted)

variable [Dialect]

inductive Value where
  | unsigned (number : UInt32)
  | string (text : Bytes)
  | bytes (content : Bytes)
  deriving DecidableEq, Repr

namespace Value

/-- The value of something that is not configured. -/
def initial : Value := unsigned 0

/-- The text between an opening first byte and a closing last byte, which must
not be the same byte of the text. -/
def enclosed? (opening closing : UInt8) (text : Bytes) : Option Bytes :=
  match text with
  | [] => none
  | first :: rest =>
    if first = opening ∧ rest.getLast? = some closing then some rest.dropLast else none

/-- The byte that a group of two characters denotes: two hexadecimal digits, or
one of them before a NUL. -/
def byteGroup? : Bytes → Option UInt8
  | [high, low] =>
    (Bytes.hexValue? high).bind fun h =>
      if low = 0 then some (UInt8.ofNat h)
      else (Bytes.hexValue? low).map fun l => UInt8.ofNat (16 * h + l)
  | _ => none

/-- The bytes of the groups between the colons, all of which must denote one. -/
def byteGroups? (text : Bytes) : Option Bytes :=
  (Bytes.pieces (Bytes.ofChar ':') text).mapM byteGroup?

/-- The value that a text denotes. Quotes and braces decide the type before
what they enclose is looked at; a quoted text is not empty. -/
def read? (text : Bytes) : Option Value :=
  match enclosed? (Bytes.ofChar '\x22') (Bytes.ofChar '\x22') text with
  | some quoted => if quoted = [] then none else some (string quoted)
  | none =>
    match enclosed? (Bytes.ofChar '\x7b') (Bytes.ofChar '\x7d') text with
    | some groups => (byteGroups? groups).map bytes
    | none => (Numeral.read? text).map unsigned

def asUnsigned : Value → Noted Notice UInt32
  | unsigned number => ⟨number, []⟩
  | _ => ⟨0, [.notUnsigned]⟩

def asString : Value → Noted Notice Bytes
  | string text => ⟨text, []⟩
  | _ => ⟨[], [.notString]⟩

def asBytes : Value → Noted Notice Bytes
  | bytes content => ⟨content, []⟩
  | _ => ⟨[], [.notBytes]⟩

inductive Change where
  | parse (text : Bytes)
  | replace (value : Value)
  deriving DecidableEq, Repr

/-- Does the change take place? Only text that denotes no value is refused. -/
def Change.succeeds : Change → Bool
  | .parse text => (read? text).isSome
  | .replace _ => true

/-- The value after a change; a refused one leaves it alone. -/
def apply (held : Value) : Change → Value
  | .parse text => (read? text).getD held
  | .replace value => value

/-- The three readings of a value, in the order in which they are taken. -/
structure Readings where
  unsigned : UInt32
  string : Bytes
  bytes : Bytes
  deriving DecidableEq, Repr

/-- All three readings; the two of another type are remarked on. -/
def readings (value : Value) : Noted Notice Readings := do
  let number ← value.asUnsigned
  let text ← value.asString
  let content ← value.asBytes
  return ⟨number, text, content⟩

end Value

end NfcPolling.Settings
