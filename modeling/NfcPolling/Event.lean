import NfcPolling.Bytes

/-! A polling event: what a listening device learns about the field around it.
Each of its four parts may be known or not, and the one-line text of an event
names exactly the parts that are known. -/
namespace NfcPolling

/-- What is known about one or more polling records. The type is one of the
letters that `Frame` gives out when it comes from a frame; an event built part
by part may carry any byte. -/
structure Event where
  /-- The kind of polling seen, as a letter. -/
  type : Option UInt8 := none
  gain : Option Int8 := none
  /-- The time of the record, in the controller's own units. -/
  timestamp : Option UInt32 := none
  /-- The bytes of a polling frame of unknown technology. -/
  payload : Option Bytes := none
  deriving DecidableEq, Repr

namespace Event

def empty : Event := {}

def isEmpty (e : Event) : Bool :=
  e.type.isNone && e.gain.isNone && e.timestamp.isNone && e.payload.isNone

inductive Change where
  | type (letter : UInt8)
  | gain (value : Int8)
  | timestamp (value : UInt32)
  | payload (bytes : Bytes)
  | clear
  deriving DecidableEq, Repr

/-- Setting a part overwrites it and leaves the others; clearing forgets all. -/
def apply (e : Event) : Change → Event
  | .type letter => { e with type := some letter }
  | .gain value => { e with gain := some value }
  | .timestamp value => { e with timestamp := some value }
  | .payload bytes => { e with payload := some bytes }
  | .clear => empty

def applyAll (e : Event) (changes : List Change) : Event := changes.foldl apply e

/-- The event before the changes and after each of them. -/
def history (e : Event) : List Change → List Event
  | [] => [e]
  | change :: rest => e :: (e.apply change).history rest

/-- The letter of a type; the NUL type is written as nothing. -/
def letterText (letter : UInt8) : Bytes := if letter = 0 then [] else [letter]

/-- The known parts between braces, in the order type, gain, timestamp,
payload, each after one space. -/
def render (e : Event) : Bytes :=
  Bytes.ascii "\x7b"
    ++ (e.type.elim [] fun letter => Bytes.ascii " type=" ++ letterText letter)
    ++ (e.gain.elim [] fun value => Bytes.ascii " gain=" ++ Bytes.signed value.toInt)
    ++ (e.timestamp.elim [] fun value => Bytes.ascii " timestamp=0x" ++ Bytes.hex 8 value.toNat)
    ++ (e.payload.elim [] fun bytes => Bytes.ascii " payload=" ++ Bytes.hexPairs bytes)
    ++ Bytes.ascii " \x7d"

end Event

end NfcPolling
