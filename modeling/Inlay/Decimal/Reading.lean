import Inlay.Decimal.Binary64

/-!
Reading decimal notation in limited precision.

The digits of a number are collected in one natural number below `2 ^ 64`.  A digit that no
longer fits ends the collection: what follows it in front of the point only counts as a place,
and what follows it behind the point is dropped.  The collected number is rounded to 64 bits and
then multiplied or divided by a rounded power of ten, so a long notation may come out one unit
beside the nearest number.
-/

namespace Inlay
namespace Decimal

/-- Collects digits in front of the point: the number so far, and how many digits no longer
fitted. -/
def collectWhole (sum : Nat) : List Nat → Nat × Nat
  | [] => (sum, 0)
  | d :: ds =>
    if sum * 10 + d < word64Limit then collectWhole (sum * 10 + d) ds else (sum, ds.length + 1)

/-- Collects digits behind the point: the number so far, and how many digits went into it. -/
def collectFraction (sum : Nat) : List Nat → Nat × Nat
  | [] => (sum, 0)
  | d :: ds =>
    if sum * 10 + d < word64Limit then
      let (total, taken) := collectFraction (sum * 10 + d) ds
      (total, taken + 1)
    else (sum, 0)

/-- The greatest power of ten that a number of 64 bits can hold. -/
def greatestPower : Nat := 308

/-- A number divided by a power of ten, rounded once. -/
def divideByTen (x : Binary64) (power : Nat) : Option Binary64 :=
  (Binary64.ofNat? (tenTo power)).bind x.div?

/-- A number divided several times by the greatest power of ten; zero stays zero. -/
def divideOften (x : Binary64) : Nat → Option Binary64
  | 0 => some x
  | steps + 1 =>
    if x.isZero then some x
    else (divideByTen x greatestPower).bind fun smaller => divideOften smaller steps

/-- A number multiplied or divided by a power of ten, with every step rounded.  Nothing when the
result is too large.  A large negative power is taken in several steps. -/
def scaleByTen (x : Binary64) (exponent : Int) : Option Binary64 :=
  if 0 ≤ exponent then
    if x.isZero then some x
    else if greatestPower < exponent then none
    else (Binary64.ofNat? (tenTo exponent.natAbs)).bind x.mul?
  else
    let steps := (exponent.natAbs - 1) / greatestPower
    (divideOften x steps).bind fun smaller =>
      divideByTen smaller (exponent.natAbs - steps * greatestPower)

/-- The number with the given digits in front of and behind the point, times a power of ten. -/
def ofDigits? (negative : Bool) (whole fraction : List Nat) (exponent : Int) : Option Binary64 :=
  let (front, dropped) := collectWhole 0 whole
  let (sum, taken) := collectFraction front fraction
  match Binary64.ofNat? sum with
  | none => none
  | some rounded =>
    (scaleByTen rounded (exponent + dropped - taken)).map fun x =>
      if negative then x.neg else x

end Decimal
end Inlay
