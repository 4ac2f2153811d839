import Inlay.SourceMap.Basic
import Inlay.Word

/-!
Integers in base 64 with a variable number of digits.

A digit carries five bits of a magnitude, the lowest first, and a sixth bit that announces a
further digit.  The lowest bit of the magnitude is the sign.  A value has at most twelve digits,
which leaves 59 bits for its absolute value.
-/

namespace Inlay
namespace Vlq

/-! ## Digits -/

def digit? (c : Char) : Option Nat :=
  if 'A' ≤ c && c ≤ 'Z' then some (c.toNat - 'A'.toNat)
  else if 'a' ≤ c && c ≤ 'z' then some (c.toNat - 'a'.toNat + 26)
  else if '0' ≤ c && c ≤ '9' then some (c.toNat - '0'.toNat + 52)
  else if c = '+' then some 62
  else if c = '/' then some 63
  else none

/-- The digit of base 64 with a value below 64. -/
def digit (n : Nat) : Char :=
  if n < 26 then Char.ofNat ('A'.toNat + n)
  else if n < 52 then Char.ofNat ('a'.toNat + (n - 26))
  else if n < 62 then Char.ofNat ('0'.toNat + (n - 52))
  else if n = 62 then '+'
  else '/'

/-- The first byte of a character in UTF-8. -/
def leadByte (c : Char) : UInt8 :=
  let n := c.toNat
  if n < 0x80 then n.toUInt8
  else if n < 0x800 then (0xC0 + n / 0x40).toUInt8
  else if n < 0x10000 then (0xE0 + n / 0x1000).toUInt8
  else (0xF0 + n / 0x40000).toUInt8

/-! ## Magnitudes and signs -/

/-- The integer that a magnitude with its sign bit stands for. -/
def toInt (magnitude : Nat) : Int :=
  if magnitude % 2 = 1 then -((magnitude / 2 : Nat) : Int) else ((magnitude / 2 : Nat) : Int)

/-- The magnitude of an integer with its sign bit. -/
def ofInt (value : Int) : Nat :=
  if value < 0 then 2 * value.natAbs + 1 else 2 * value.natAbs

/-! ## Values -/

/-- The greatest number of bits by which a digit may be moved. -/
def shiftLimit : Nat := 55

/-- Reads the rest of a magnitude: `sum` are the bits so far and `shift` is their number. -/
def readMagnitude (sum shift : Nat) : List Char → Except MapError (Nat × List Char)
  | [] => .error .truncatedValue
  | c :: cs =>
    match digit? c with
    | none => .error (.invalidCharacter (leadByte c))
    | some d =>
      let total := sum + d % 32 * twoTo shift
      if d < 32 then .ok (total, cs)
      else if shiftLimit < shift + 5 then .error .overflow
      else readMagnitude total (shift + 5) cs

/-- Reads one value off the front of a text, and gives what follows it. -/
def read (cs : List Char) : Except MapError (Int × List Char) :=
  match readMagnitude 0 0 cs with
  | .ok (magnitude, rest) => .ok (toInt magnitude, rest)
  | .error e => .error e

/-- The digits of a magnitude, the lowest first. -/
def writeMagnitude (n : Nat) : List Char :=
  if n < 32 then [digit n] else digit (32 + n % 32) :: writeMagnitude (n / 32)
termination_by n
decreasing_by omega

def write (value : Int) : List Char := writeMagnitude (ofInt value)

/-- Reading a sign off a magnitude undoes writing it. -/
theorem toInt_ofInt (value : Int) : toInt (ofInt value) = value := by
  unfold toInt ofInt
  split <;> split <;> omega

end Vlq
end Inlay
