import NfcPolling.Bytes

/-! Unsigned numbers as a configuration writes them: decimal, octal after a
leading zero, and hexadecimal after `0x`. The system's own reader is used, and one
that goes beyond its standard reads binary after `0b` as well. White space may come
first and may be followed by a sign, but the text must not start with the sign
itself. -/
namespace NfcPolling.Settings

/-- What the system's own reader of numbers decides. -/
class Dialect where
  /-- Are digits behind `0b` read in base two? The standard that the library is built to
  has no such numerals; newer systems may read them all the same. -/
  readsBinary : Bool

/-- The reader of the standard knows three bases. -/
instance : Dialect := ⟨false⟩

namespace Numeral

variable [Dialect]

/-- A space or one of the five control characters from tab to carriage return. -/
def isSpace (b : UInt8) : Bool := b == Bytes.ofChar ' ' || (9 ≤ b && b ≤ 13)

/-- The value of a digit, if the base has it. -/
def digit? (base : Nat) (b : UInt8) : Option Nat :=
  (Bytes.hexValue? b).filter (· < base)

/-- The number that digits denote, most significant first; none if one of them
is no digit of the base. No digits denote zero. -/
def digits? (base : Nat) (text : Bytes) : Option Nat :=
  text.foldl (fun number b => number.bind fun n => (digit? base b).map (base * n + ·)) (some 0)

/-- The number that a text without white space and sign denotes. The base is
told from its first characters: `0x` or `0b` and at least one digit, a zero, or
any other digit. -/
def magnitude? (text : Bytes) : Option Nat :=
  match text with
  | [] => none
  | first :: rest =>
    if first = Bytes.ofChar '0' then
      match rest with
      | [] => some 0
      | second :: digits =>
        if second = Bytes.ofChar 'x' ∨ second = Bytes.ofChar 'X' then
          if digits = [] then none else digits? 16 digits
        else if Dialect.readsBinary = true ∧ (second = Bytes.ofChar 'b' ∨ second = Bytes.ofChar 'B')
        then
          if digits = [] then none else digits? 2 digits
        else digits? 8 rest
    else digits? 10 text

/-- The largest magnitude that can be read: all 64 bits are set. -/
def maxMagnitude : Nat := 18446744073709551615

/-- A number after an optional sign. A magnitude of more than 64 bits is
refused; a minus sign takes the complement to the next power of two. -/
def signed? (text : Bytes) : Option Nat :=
  let within (n : Nat) : Option Nat := if n ≤ maxMagnitude then some n else none
  match text with
  | [] => none
  | first :: rest =>
    if first = Bytes.ofChar '-' then
      ((magnitude? rest).bind within).map fun n => (maxMagnitude + 1 - n) % (maxMagnitude + 1)
    else if first = Bytes.ofChar '+' then (magnitude? rest).bind within
    else (magnitude? text).bind within

/-- The 32-bit number that a text denotes up to its first NUL. Empty text and
text that starts with a sign denote none; text that starts with NUL is zero. -/
def read? (text : Bytes) : Option UInt32 :=
  match text with
  | [] => none
  | first :: _ =>
    if first = 0 then some 0
    else if first = Bytes.ofChar '-' ∨ first = Bytes.ofChar '+' then none
    else
      (signed? ((Bytes.untilNul text).dropWhile isSpace)).bind fun n =>
        if n < UInt32.size then some (UInt32.ofNat n) else none

end Numeral

end NfcPolling.Settings
