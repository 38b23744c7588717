/-! Byte strings and the few ways this library writes and cuts them: ASCII
literals, decimal and hexadecimal numbers, text up to its first NUL, text
without the blanks around it, and text divided at a separator. What a step of a
run answers is a byte string, a number, a truth value or nothing. -/
namespace NfcPolling

/-- A byte string. Text is kept as its bytes; nothing here assumes an encoding. -/
abbrev Bytes := List UInt8

namespace Bytes

def ofChar (c : Char) : UInt8 := UInt8.ofNat c.toNat

/-- The bytes of a literal that holds ASCII characters only. -/
def ascii (text : String) : Bytes := text.toList.map ofChar

/-- The digits of a number in a base up to sixteen, letters in lower case. -/
def digits (base n : Nat) : Bytes := (Nat.toDigits base n).map ofChar

/-- A number in base ten, without leading zeros. -/
def decimal (n : Nat) : Bytes := digits 10 n

/-- A signed number in base ten: a minus sign comes before a negative one. -/
def signed : Int → Bytes
  | .ofNat n => decimal n
  | .negSucc n => ofChar '-' :: decimal (n + 1)

/-- At least `width` bytes: zeros go in front of a shorter text. -/
def padded (width : Nat) (text : Bytes) : Bytes :=
  List.replicate (width - text.length) (ofChar '0') ++ text

def hex (width n : Nat) : Bytes := padded width (digits 16 n)

/-- The upper-case letter of a lower-case one; any other byte is kept. -/
def toUpper (b : UInt8) : UInt8 :=
  if ofChar 'a' ≤ b ∧ b ≤ ofChar 'z' then b - 32 else b

def hexPairs (bytes : Bytes) : Bytes :=
  bytes.flatMap fun b => (hex 2 b.toNat).map toUpper

def hexValue? (b : UInt8) : Option Nat :=
  if ofChar '0' ≤ b ∧ b ≤ ofChar '9' then some (b.toNat - 48)
  else if ofChar 'a' ≤ b ∧ b ≤ ofChar 'f' then some (b.toNat - 87)
  else if ofChar 'A' ≤ b ∧ b ≤ ofChar 'F' then some (b.toNat - 55)
  else none

/-- The text before the first NUL, the whole text when it holds none. -/
def untilNul (text : Bytes) : Bytes := text.takeWhile (· != 0)

/-- A space, a tab or a carriage return. -/
def isBlank (b : UInt8) : Bool := b == ofChar ' ' || b == 9 || b == 13

def trim (text : Bytes) : Bytes :=
  ((text.dropWhile isBlank).reverse.dropWhile isBlank).reverse

/-- The pieces between the separators: one more than there are separators, so
empty text is one empty piece. -/
def pieces (separator : UInt8) : Bytes → List Bytes
  | [] => [[]]
  | b :: rest =>
    if b = separator then [] :: pieces separator rest
    else
      match pieces separator rest with
      | [] => [[b]]
      | piece :: more => (b :: piece) :: more

/-- The number that a byte string denotes with its least significant byte first. -/
def littleEndian : Bytes → Nat
  | [] => 0
  | b :: rest => b.toNat + 256 * littleEndian rest

/-- The last `count` base-256 digits of a number as bytes, least significant first. -/
def toLittleEndian : (count n : Nat) → Bytes
  | 0, _ => []
  | count + 1, n => UInt8.ofNat n :: toLittleEndian count (n / 256)

theorem length_toLittleEndian (count n : Nat) : (toLittleEndian count n).length = count := by
  induction count generalizing n with
  | zero => rfl
  | succ count ih => simp [toLittleEndian, ih]

/-- Reading back what was written gives the number up to its width. -/
theorem littleEndian_toLittleEndian (count n : Nat) :
    littleEndian (toLittleEndian count n) = n % (1 <<< (8 * count)) := by
  induction count generalizing n with
  | zero => simp [toLittleEndian, littleEndian, Nat.mod_one]
  | succ count ih =>
    have width : 1 <<< (8 * (count + 1)) = 256 * (1 <<< (8 * count)) := by
      rw [Nat.mul_succ, Nat.shiftLeft_add, Nat.shiftLeft_eq _ 8, Nat.mul_comm]
    have split : n % (1 <<< (8 * (count + 1))) = n % 256 + 256 * (n / 256 % (1 <<< (8 * count))) := by
      rw [width, Nat.mod_mul]
    simp [toLittleEndian, littleEndian, ih, split]

end Bytes

/-- The answer of a step, by its type. -/
inductive Answer where
  | nothing
  | flag (yes : Bool)
  | number (value : Int)
  | text (value : Bytes)
  | octets (value : Bytes)
  deriving DecidableEq, Repr

end NfcPolling
