import Inlay.Word

/-!
Binary floating point numbers of 64 bits, as exact data.

A finite number is a sign, a significand below `2 ^ 53` and an exponent of two.  Every operation
is an exact quotient of natural numbers followed by one rounding, `ofRatio?`, which takes the
nearest number and of two equally near ones the one with the even significand.
-/

namespace Inlay

/-- A finite number: `± significand * 2 ^ exponent`.  The form is normal: the significand has 53
bits unless the exponent is the least one, `-1074`. -/
structure Binary64 where
  negative : Bool
  significand : Nat
  exponent : Int
deriving Repr, DecidableEq, Inhabited

namespace Binary64

/-- The least exponent of two, that of the numbers nearest to zero. -/
def leastExponent : Int := -1074

/-- Two to the power 52: the value of the leading bit of a significand with 53 bits. -/
def hiddenBit : Nat := 4503599627370496

def greatestExponent : Int := 971

/-- The quotient rounded to the nearest natural number, a tie to the even one. -/
def divNearest (num den : Nat) : Nat :=
  let quotient := num / den
  let rest := 2 * (num % den)
  if rest < den then quotient
  else if den < rest then quotient + 1
  else if quotient % 2 = 0 then quotient else quotient + 1

/-- The ratio `num / den` divided by a power of two, as a ratio. -/
def scaled (num den : Nat) (exponent : Int) : Nat × Nat :=
  match exponent with
  | .ofNat e => (num, den * twoTo e)
  | .negSucc e => (num * twoTo (e + 1), den)

/-- The exponent at which a positive ratio has a significand of 53 bits, or the least one. -/
def exponentOf (num den : Nat) : Int :=
  let guess : Int := (Nat.log2 num : Int) - (Nat.log2 den : Int) - 52
  let (n, d) := scaled num den guess
  -- The guess is exact or one too large.
  let exact := if n < d * hiddenBit then guess - 1 else guess
  max exact leastExponent

/-- The number nearest to `± num / den`, or nothing when it is too large. -/
def ofRatio? (negative : Bool) (num den : Nat) : Option Binary64 :=
  if num = 0 then some ⟨negative, 0, leastExponent⟩
  else
    let exponent := exponentOf num den
    let (n, d) := scaled num den exponent
    let significand := divNearest n d
    -- Rounding up may give a significand of 54 bits, which is then a power of two.
    let rounded : Binary64 :=
      if significand = 2 * hiddenBit then ⟨negative, hiddenBit, exponent + 1⟩
      else ⟨negative, significand, exponent⟩
    if greatestExponent < rounded.exponent then none else some rounded

/-- The absolute value as a ratio. -/
def magnitude (x : Binary64) : Nat × Nat :=
  match x.exponent with
  | .ofNat e => (x.significand * twoTo e, 1)
  | .negSucc e => (x.significand, twoTo (e + 1))

def isZero (x : Binary64) : Bool := x.significand = 0

/-- The product, rounded once. -/
def mul? (x y : Binary64) : Option Binary64 :=
  let (a, b) := x.magnitude
  let (c, d) := y.magnitude
  ofRatio? (x.negative != y.negative) (a * c) (b * d)

/-- The quotient, rounded once; nothing for a divisor of zero. -/
def div? (x y : Binary64) : Option Binary64 :=
  let (a, b) := x.magnitude
  let (c, d) := y.magnitude
  if c = 0 then none else ofRatio? (x.negative != y.negative) (a * d) (b * c)

def ofNat? (n : Nat) : Option Binary64 := ofRatio? false n 1

def neg (x : Binary64) : Binary64 := { x with negative := !x.negative }

end Binary64
end Inlay
