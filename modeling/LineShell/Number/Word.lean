import LineShell.Number.Binary

namespace LineShell
namespace Number

/-!
A number becomes a word of 32 bits by arithmetic on numbers.  Its fraction is cut
off, the multiples of the number of words are taken away until it is neither
negative nor too great, and what is left is cast to a word whose bits are then
read with a sign.
-/

/-- The number nearest to a whole number times a power of two. -/
def scale (negative : Bool) (mantissa : Nat) (exponent : Int) : Float :=
  ofMagnitude negative
    (nearestMagnitude (mantissa * Nat.pow 2 exponent.toNat) (Nat.pow 2 (-exponent).toNat))

/-- A number without its fraction.  The sign stays, also that of a zero. -/
def cut (number : Float) : Float :=
  match form number with
  | .finite negative mantissa exponent =>
      scale negative (mantissa * Nat.pow 2 exponent.toNat / Nat.pow 2 (-exponent).toNat) 0
  | _ => number

/-- What a number is beyond the multiples of a modulus, with the sign of the
number. -/
def remainder (number modulus : Float) : Float :=
  match form number, form modulus with
  | .finite negative mantissa exponent, .finite _ size place =>
      let unit := min exponent place
      if size = 0 then nan
      else
        scale negative
          (mantissa * Nat.pow 2 (exponent - unit).toNat % (size * Nat.pow 2 (place - unit).toNat))
          unit
  | .finite .., .infinite _ => number
  | _, _ => nan

/-- What a number is beyond the multiples of a modulus, and not negative unless
it is a zero. -/
def leastRemainder (number modulus : Float) : Float :=
  let rest := remainder number modulus
  if rest < ofInt 0 then rest + modulus.abs else rest

/-- How many words of 32 bits there are. -/
def wordCount : Nat := Nat.pow 2 32

/-- A number without its fraction and reduced to the range of unsigned words. -/
def wrap (number : Float) : Float :=
  leastRemainder (cut number) (ofInt wordCount)

/-- A number cut to a whole number and wrapped to a signed word of 32 bits; those
that are not finite count as zero. -/
def toInt32 (number : Float) : Int32 :=
  if number.isFinite then (wrap number).toUInt32.toInt32 else 0

end Number
end LineShell
