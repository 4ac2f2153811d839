import Inlay.Decimal.Binary64

/-!
The shortest decimal notation that reads back.

The real numbers that round to a given number form an interval around it, whose ends belong to
it when the significand is even.  For one digit, two digits, and so on, the two decimals with that
many digits next to the number are tested; the first count with a decimal inside the interval
wins, and of two decimals inside it the nearer one.
-/

namespace Inlay
namespace Decimal

/-- A decimal: `digits * 10 ^ exponent`. -/
structure Digits where
  digits : Nat
  exponent : Int
deriving Repr, DecidableEq, Inhabited

def length (n : Nat) : Nat := (Nat.toDigits 10 n).length

/-- The interval of the reals that round to a positive number, over one denominator: the lower
end, the number, the upper end. -/
structure Interval where
  lower : Nat
  value : Nat
  upper : Nat
  denominator : Nat
  closed : Bool

/-- The interval of a number.  Below a power of two the numbers lie twice as dense, so the lower
end is nearer there. -/
def intervalOf (x : Binary64) : Interval :=
  let narrow := x.significand = Binary64.hiddenBit && Binary64.leastExponent < x.exponent
  let value := 4 * x.significand
  let lower := if narrow then value - 1 else value - 2
  let upper := value + 2
  let (up, down) : Nat × Nat :=
    match x.exponent - 2 with
    | .ofNat e => (twoTo e, 1)
    | .negSucc e => (1, twoTo (e + 1))
  ⟨lower * up, value * up, upper * up, down, x.significand % 2 = 0⟩

/-- The exponent of ten of the leading digit of `num / den`, for a ratio below one: the number of
places until a digit appears, with `fuel` places to look at. -/
def leadingPlace (num den : Nat) : Nat → Int
  | 0 => 0
  | fuel + 1 => if den ≤ num then 0 else leadingPlace (num * 10) den fuel - 1

def leadingExponent (num den : Nat) : Int :=
  if den ≤ num then (length (num / den) : Int) - 1 else leadingPlace num den (length den + 1)

/-- The ratio `num / den` divided by a power of ten, as a ratio. -/
def scaledByTen (num den : Nat) (exponent : Int) : Nat × Nat :=
  match exponent with
  | .ofNat e => (num, den * tenTo e)
  | .negSucc e => (num * tenTo (e + 1), den)

/-- Whether `digits * 10 ^ exponent` lies in an interval. -/
def Interval.holds (i : Interval) (digits : Nat) (exponent : Int) : Bool :=
  let (lower, den) := scaledByTen i.lower i.denominator exponent
  let (upper, _) := scaledByTen i.upper i.denominator exponent
  if i.closed then lower ≤ digits * den && digits * den ≤ upper
  else lower < digits * den && digits * den < upper

/-- The decimal with the given exponent that lies in an interval and is nearest to its number, if
there is one.  A tie goes to the even digit. -/
def Interval.nearest? (i : Interval) (exponent : Int) : Option Nat :=
  let (num, den) := scaledByTen i.value i.denominator exponent
  let below := num / den
  let rest := 2 * (num % den)
  let pick := if rest < den || (rest = den && below % 2 = 0) then below else below + 1
  let other := if pick = below then below + 1 else below
  if i.holds pick exponent then some pick
  else if i.holds other exponent then some other
  else none

/-- Moves trailing zeros of the digits into the exponent. -/
def Digits.trimZeros (d : Digits) : Nat → Digits
  | 0 => d
  | fuel + 1 =>
    if d.digits ≠ 0 ∧ d.digits % 10 = 0 then trimZeros ⟨d.digits / 10, d.exponent + 1⟩ fuel else d

/-- The first digit count from `count` on, among `fuel` of them, with a decimal in the interval. -/
def firstHit (i : Interval) (leading : Int) (count : Nat) : Nat → Digits
  | 0 => ⟨0, 0⟩
  | fuel + 1 =>
    let exponent := leading - count + 1
    match i.nearest? exponent with
    | some digits => ⟨digits, exponent⟩
    | none => firstHit i leading (count + 1) fuel

/-- The shortest decimal that reads back as the magnitude of a number.  Seventeen digits always
suffice. -/
def shortest (x : Binary64) : Digits :=
  if x.isZero then ⟨0, 0⟩
  else
    let i := intervalOf x
    (firstHit i (leadingExponent i.value i.denominator) 1 17).trimZeros 20

end Decimal
end Inlay
