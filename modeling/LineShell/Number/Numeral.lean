import LineShell.Number.Decimal
import LineShell.Text.Basic
import LineShell.Text.Blank

namespace LineShell
namespace Number

/-!
The text of numbers.  Written, a number has an exponent with a sign if it is very
great or very small, and none otherwise.  Read, a text is trimmed; an empty one is
zero, and the word for an infinity has one spelling.  The reader of numbers knows
more words than this, so it is only given texts that are made of the characters of
numerals.
-/

/-- The digits of a whole number in base ten. -/
def digitChars (value : Nat) : List Char :=
  Nat.toDigits 10 value

def digitsValue (digits : List Char) : Nat :=
  digits.foldl (fun value digit => value * 10 + (digit.toNat - '0'.toNat)) 0

def signed (negative : Bool) (chars : List Char) : List Char :=
  if negative then '-' :: chars else chars

namespace Decimal

/-- Writes a decimal without an exponent. -/
def positional (decimal : Decimal) : List Char :=
  let digits := digitChars decimal.digits
  let places := (-decimal.exponent).toNat
  if places = 0 then digits ++ List.replicate decimal.exponent.toNat '0'
  else if places < digits.length then
    digits.take (digits.length - places) ++ '.' :: digits.drop (digits.length - places)
  else '0' :: '.' :: List.replicate (places - digits.length) '0' ++ digits

/-- The exponent of the first digit. -/
def leading (decimal : Decimal) : Int :=
  decimal.exponent + (digitChars decimal.digits).length - 1

/-- The digits, with a point after the first one if there are more. -/
def mantissa (decimal : Decimal) : List Char :=
  let digits := digitChars decimal.digits
  digits.take 1 ++ (if digits.length ≤ 1 then [] else ['.']) ++ digits.drop 1

/-- Writes a decimal with an exponent. -/
def scientific (decimal : Decimal) : List Char :=
  decimal.mantissa ++ 'e' :: signed (decimal.leading < 0) (digitChars decimal.leading.natAbs)

/-- The number nearest to a decimal. -/
def toNumber (decimal : Decimal) : Float :=
  ofMagnitude false decimal.magnitude

end Decimal

/-- Writes a plus before an exponent that has no sign. -/
def markExponent (chars : List Char) : List Char :=
  match Text.splitOnce 'e' chars with
  | some (mantissa, exponent) =>
      if exponent.head? = some '-' then chars else mantissa ++ 'e' :: '+' :: exponent
  | none => chars

/-- The least number that is written without an exponent, apart from zero. -/
def positionalFrom : Float :=
  Decimal.toNumber { digits := 1, exponent := -6 }

/-- The numbers below this one are written without an exponent. -/
def positionalBelow : Float :=
  Decimal.toNumber { digits := 1, exponent := 21 }

/-- The text of a number.  A zero has no sign. -/
def render (number : Float) : String :=
  String.ofList <|
    match form number with
    | .nan => "NaN".toList
    | .infinite negative => signed negative "Infinity".toList
    | .finite negative mantissa _ =>
        if mantissa = 0 then ['0']
        else
          let decimal := shortest (magnitude number)
          if positionalFrom ≤ number.abs ∧ number.abs < positionalBelow then
            signed negative decimal.positional
          else markExponent (signed negative decimal.scientific)

/-- A numeral: a sign, digits before and after the point, and an exponent. -/
structure Numeral where
  negative : Bool
  whole : List Char
  places : List Char
  exponent : Int
  deriving DecidableEq, Repr

namespace Numeral

/-- Takes an optional sign; the first part says whether it is negative. -/
def takeSign (chars : List Char) : Bool × List Char :=
  match chars with
  | first :: rest =>
      if first = '-' then (true, rest) else if first = '+' then (false, rest) else (false, chars)
  | [] => (false, [])

/-- Reads the exponent that ends a numeral.  None at all stands for zero. -/
def exponent? (chars : List Char) : Option Int :=
  match chars with
  | [] => some 0
  | mark :: rest =>
      if mark = 'e' ∨ mark = 'E' then
        let (negative, digits) := takeSign rest
        if digits.isEmpty || !digits.all Char.isDigit then none
        else if negative then some (-digitsValue digits)
        else some (digitsValue digits)
      else none

/-- Takes the digits after an optional point. -/
def takePlaces (chars : List Char) : List Char × List Char :=
  match chars with
  | first :: rest =>
      if first = '.' then (rest.takeWhile Char.isDigit, rest.dropWhile Char.isDigit)
      else ([], chars)
  | [] => ([], [])

/-- Reads a numeral: an optional sign, digits with an optional point before,
among or after them, and an optional exponent. -/
def ofChars? (chars : List Char) : Option Numeral :=
  let (negative, unsigned) := takeSign chars
  let whole := unsigned.takeWhile Char.isDigit
  let (places, rest) := takePlaces (unsigned.dropWhile Char.isDigit)
  if whole.isEmpty && places.isEmpty then none
  else (exponent? rest).map fun exponent => { negative, whole, places, exponent }

def isNumeralPart (char : Char) : Bool :=
  char.isDigit || "+-.eE".toList.contains char

/-- The decimal that a numeral stands for, apart from its sign. -/
def decimal (numeral : Numeral) : Decimal :=
  { digits := digitsValue (numeral.whole ++ numeral.places)
    exponent := numeral.exponent - numeral.places.length }

def toNumber (numeral : Numeral) : Float :=
  ofMagnitude numeral.negative numeral.decimal.magnitude

end Numeral

/-- The number that a word stands for, in small or capital letters. -/
def word? (negative : Bool) (word : List Char) : Option Float :=
  let letters := word.map Char.toLower
  if letters = "inf".toList ∨ letters = "infinity".toList then some (infinity negative)
  else if letters = "nan".toList then some nan
  else none

theorem word?_eq_none {negative : Bool} {word : List Char}
    (plain : ∀ first, word.head? = some first -> first.toLower ≠ 'i' ∧ first.toLower ≠ 'n') :
    word? negative word = none := by
  cases word with
  | nil => rfl
  | cons first rest =>
      obtain ⟨notI, notN⟩ := plain first rfl
      simp only [word?, List.map_cons]
      rw [if_neg, if_neg]
      · exact fun same => notN (List.cons.inj same).1
      · rintro (same | same)
        · exact notI (List.cons.inj same).1
        · exact notI (List.cons.inj same).1

/-- Reads a number, which is written as a word or as a numeral. -/
def parse? (chars : List Char) : Option Float :=
  let (negative, unsigned) := Numeral.takeSign chars
  (word? negative unsigned).or ((Numeral.ofChars? chars).map Numeral.toNumber)

theorem Numeral.toLower_of_isNumeralPart {char : Char} (part : isNumeralPart char = true) :
    char.toLower ≠ 'i' ∧ char.toLower ≠ 'n' := by
  rw [isNumeralPart, Bool.or_eq_true, List.contains_iff_mem] at part
  rcases part with isDigit | isMark
  · rw [Char.isDigit, Bool.and_eq_true, decide_eq_true_eq, decide_eq_true_eq] at isDigit
    have unchanged : char.toLower = char := by
      apply dif_neg
      rintro ⟨upper, _⟩
      exact absurd (UInt32.le_trans upper isDigit.2) (by decide)
    rw [unchanged]
    constructor
    · rintro rfl
      exact absurd isDigit.2 (by decide)
    · rintro rfl
      exact absurd isDigit.2 (by decide)
  · have marks : ∀ mark ∈ "+-.eE".toList, (mark.toLower ≠ 'i' && mark.toLower ≠ 'n') = true :=
      List.all_eq_true.mp (by decide)
    have apart := marks char isMark
    rwa [Bool.and_eq_true, decide_eq_true_eq, decide_eq_true_eq] at apart

/-- No word begins like a numeral. -/
theorem parse?_of_isNumeralPart {chars : List Char}
    (part : ∀ first, (Numeral.takeSign chars).2.head? = some first ->
      Numeral.isNumeralPart first = true) :
    parse? chars = (Numeral.ofChars? chars).map Numeral.toNumber := by
  have noWord (negative : Bool) : word? negative (Numeral.takeSign chars).2 = none :=
    word?_eq_none fun first isFirst => Numeral.toLower_of_isNumeralPart (part first isFirst)
  rw [parse?]
  change (word? _ (Numeral.takeSign chars).2).or _ = _
  rw [noWord, Option.none_or]

/-- Reads the text of a number.  Of the words only one is let through, in one
spelling; all else has to be made of the characters of numerals. -/
def ofText (text : String) : Float :=
  let chars := Text.trim text.toList
  if chars = [] then ofMagnitude false 0
  else if chars = "Infinity".toList ∨ chars = "+Infinity".toList then infinity false
  else if chars = "-Infinity".toList then infinity true
  else if chars.all Numeral.isNumeralPart then (parse? chars).getD nan
  else nan

end Number
end LineShell
