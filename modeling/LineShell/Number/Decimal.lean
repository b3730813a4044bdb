import LineShell.Number.Binary

namespace LineShell
namespace Number

/-!
A decimal is a whole number times a power of ten.  Decimals are read as the
nearest number, and a number is written as the decimal with the fewest digits
that reads back as it.
-/

/-- The value of `digits` times ten to the power of `exponent`. -/
structure Decimal where
  digits : Nat
  exponent : Int
  deriving DecidableEq, Repr

namespace Decimal

/-- Bounds the exponents that are computed with.  A decimal with a greater one
is infinite, and one whose exponent lies further below zero than its digits can
make up for is zero. -/
def exponentLimit : Int := 400

/-- The magnitude of the number nearest to a decimal. -/
def magnitude (decimal : Decimal) : Nat :=
  if decimal.digits = 0 then 0
  else if exponentLimit < decimal.exponent then infinityMagnitude
  else if decimal.exponent < -(exponentLimit + decimal.digits.log2) then 0
  else
    nearestMagnitude (decimal.digits * Nat.pow 10 decimal.exponent.toNat)
      (Nat.pow 10 (-decimal.exponent).toNat)

end Decimal

def fraction (magnitude : Nat) : Nat × Nat :=
  let (mantissa, exponent) := unpack magnitude
  (mantissa * Nat.pow 2 exponent.toNat, Nat.pow 2 (-exponent).toNat)

/-- The greatest multiple of a power of ten that is at most the fraction. -/
def decimalFloor (numerator denominator : Nat) (exponent : Int) : Decimal :=
  { digits :=
      numerator * Nat.pow 10 (-exponent).toNat / (denominator * Nat.pow 10 exponent.toNat)
    exponent }

/-- Whether a fraction lies nearer to the decimal than to the next one with the
same exponent. -/
def isNearer (numerator denominator : Nat) (lower : Decimal) : Bool :=
  2 * numerator * Nat.pow 10 (-lower.exponent).toNat
    < (2 * lower.digits + 1) * denominator * Nat.pow 10 lower.exponent.toNat

/-- The decimal with the given exponent that reads as the magnitude.  If the
neighbours on both sides do, it is the nearer one, and the upper one when both
are as near. -/
def decimalAt? (magnitude : Nat) (exponent : Int) : Option Decimal :=
  let (numerator, denominator) := fraction magnitude
  let lower := decimalFloor numerator denominator exponent
  let upper := { lower with digits := lower.digits + 1 }
  if lower.magnitude = magnitude then
    if upper.magnitude = magnitude && !isNearer numerator denominator lower then some upper
    else some lower
  else if upper.magnitude = magnitude then some upper
  else none

/-- Looks for a decimal that reads as the magnitude, with exponents from
`leastExponent + steps` downwards.  The last exponent makes every magnitude a
decimal. -/
def shortestFrom (magnitude steps : Nat) : Decimal :=
  match steps with
  | 0 =>
      let (numerator, denominator) := fraction magnitude
      decimalFloor numerator denominator leastExponent
  | steps + 1 =>
      match decimalAt? magnitude (leastExponent + (steps + 1)) with
      | some decimal => decimal
      | none => shortestFrom magnitude steps

/-- The exponent of a power of ten above a finite magnitude.  The factor is the
logarithm of two to the base ten, rounded up. -/
def decimalExponent (magnitude : Nat) : Int :=
  let (mantissa, exponent) := unpack magnitude
  (mantissa.log2 + exponent + 1) * 30103 / 100000 + 1

/-- The decimal with the fewest digits that reads as the magnitude. -/
def shortest (magnitude : Nat) : Decimal :=
  shortestFrom magnitude (decimalExponent magnitude - leastExponent).toNat

end Number
end LineShell
