namespace LineShell
namespace Number

/-!
Numbers are binary floating-point numbers of 64 bits.  Apart from its sign, a
finite one is a whole number times a power of two, and both can be read off its
bits; in the other direction every fraction has a nearest number.  Magnitudes
are the bits without the sign, which are ordered as the numbers are.
-/

def fractionBits : Nat := 52

/-- The number of values of the fraction field. -/
def fractionSize : Nat := Nat.pow 2 fractionBits

def signWeight : Nat := Nat.pow 2 63

/-- The exponent of the smallest positive number, a power of two. -/
def leastExponent : Int := -1074

/-- The magnitude of the infinities; greater ones are not numbers. -/
def infinityMagnitude : Nat := 2047 * fractionSize

/-- What a number is: a finite one has a sign, a whole mantissa and the exponent
of a power of two. -/
inductive Form where
  | nan
  | infinite (negative : Bool)
  | finite (negative : Bool) (mantissa : Nat) (exponent : Int)
  deriving DecidableEq, Repr

/-- The mantissa and the exponent that a finite magnitude stands for. -/
def unpack (magnitude : Nat) : Nat × Int :=
  let field := magnitude / fractionSize
  let fraction := magnitude % fractionSize
  if field = 0 then (fraction, leastExponent)
  else (fractionSize + fraction, leastExponent + field - 1)

/-- The bits of a number without its sign. -/
def magnitude (number : Float) : Nat :=
  number.toBits.toNat % signWeight

/-- Whether the sign of a number is negative, which that of a zero may be. -/
def isNegative (number : Float) : Bool :=
  signWeight ≤ number.toBits.toNat

def ofMagnitude (negative : Bool) (magnitude : Nat) : Float :=
  Float.ofBits (UInt64.ofNat (if negative then signWeight + magnitude else magnitude))

def form (number : Float) : Form :=
  let bits := magnitude number
  if infinityMagnitude < bits then .nan
  else if bits = infinityMagnitude then .infinite (isNegative number)
  else
    let (mantissa, exponent) := unpack bits
    .finite (isNegative number) mantissa exponent

def nan : Float :=
  ofMagnitude false (infinityMagnitude + fractionSize / 2)

def infinity (negative : Bool) : Float :=
  ofMagnitude negative infinityMagnitude

/-- A quotient rounded to the nearest whole number; of two nearest ones the
even one is taken. -/
def roundQuotient (numerator denominator : Nat) : Nat :=
  let quotient := numerator / denominator
  let remainder := numerator % denominator
  if 2 * remainder < denominator then quotient
  else if denominator < 2 * remainder then quotient + 1
  else quotient + quotient % 2

/-- The fraction `numerator / denominator` divided by a power of two, as a
fraction again. -/
def divideByPower (numerator denominator : Nat) (exponent : Int) : Nat × Nat :=
  (numerator * Nat.pow 2 (-exponent).toNat, denominator * Nat.pow 2 exponent.toNat)

/-- The exponent of the greatest power of two that is at most the fraction. -/
def leadingExponent (numerator denominator : Nat) : Int :=
  let guess : Int := numerator.log2 - denominator.log2
  let (scaled, unit) := divideByPower numerator denominator guess
  if unit ≤ scaled then guess else guess - 1

/-- The magnitude of the number nearest to a fraction; of two nearest ones the
one with the even mantissa is taken, and a fraction beyond all numbers goes to
infinity. -/
def nearestMagnitude (numerator denominator : Nat) : Nat :=
  if numerator = 0 then 0
  else
    let exponent := max (leadingExponent numerator denominator - fractionBits) leastExponent
    let (scaled, unit) := divideByPower numerator denominator exponent
    min ((exponent - leastExponent).toNat * fractionSize + roundQuotient scaled unit)
      infinityMagnitude

/-- The number nearest to a whole number. -/
def ofInt (value : Int) : Float :=
  ofMagnitude (value < 0) (nearestMagnitude value.natAbs 1)

end Number
end LineShell
