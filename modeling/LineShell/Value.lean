import LineShell.Number.Numeral
import LineShell.Number.Word
import LineShell.Operator

namespace LineShell

/-!
Values are numbers, texts, booleans and lists of values.  Operators coerce
their operands: a sum with a text or a list joins texts, other arithmetic takes
numbers, and bitwise operators take words of 32 bits.
-/

/-- The values that expressions have and variables hold. -/
inductive Value where
  | number (value : Float)
  | text (value : String)
  | boolean (value : Bool)
  | list (items : List Value)

namespace Value

/-- The empty text, which is what a variable without a value reads as. -/
def empty : Value := .text ""

mutual

/-- The text of a value.  The items of a list are separated by commas. -/
def render : Value -> String
  | .number value => Number.render value
  | .text value => value
  | .boolean true => "true"
  | .boolean false => "false"
  | .list items => String.intercalate "," (renderItems items)

def renderItems : List Value -> List String
  | [] => []
  | item :: items => item.render :: renderItems items

end

/-- Whether storing the value removes the variable. -/
def isUnset : Value -> Bool
  | .text value => value = ""
  | _ => false

/-- Whether a sum with this value joins texts. -/
def isTextual : Value -> Bool
  | .text _ | .list _ => true
  | .number _ | .boolean _ => false

/-- The number that a value counts as. -/
def toNumber : Value -> Float
  | .number value => value
  | .boolean value => Number.ofInt (if value then 1 else 0)
  | .text value => Number.ofText value
  | .list items => Number.ofText (render (.list items))

/-- The word of 32 bits that a value counts as. -/
def toInt32 (value : Value) : Int32 :=
  Number.toInt32 value.toNumber

def isTruthy : Value -> Bool
  | .number value =>
      match Number.form value with
      | .nan => false
      | .infinite _ => true
      | .finite _ mantissa _ => mantissa ≠ 0
  | .text value => value ≠ ""
  | .boolean value => value
  | .list _ => true

def ofInt32 (word : Int32) : Value :=
  .number (Number.ofInt word.toInt)

/-- The low five bits of a word, which are what a shift goes by. -/
def shiftAmount (value : Value) : Int32 :=
  value.toInt32 &&& 31

end Value

namespace BinaryOperator

def apply (operator : BinaryOperator) (left right : Value) : Value :=
  match operator with
  | .add =>
      if left.isTextual || right.isTextual then .text (left.render ++ right.render)
      else .number (left.toNumber + right.toNumber)
  | .subtract => .number (left.toNumber - right.toNumber)
  | .multiply => .number (left.toNumber * right.toNumber)
  | .divide => .number (left.toNumber / right.toNumber)
  | .bitOr => .ofInt32 (left.toInt32 ||| right.toInt32)
  | .bitAnd => .ofInt32 (left.toInt32 &&& right.toInt32)
  | .bitXor => .ofInt32 (left.toInt32 ^^^ right.toInt32)
  | .shiftLeft => .ofInt32 (left.toInt32 <<< right.shiftAmount)
  | .shiftRight => .ofInt32 (left.toInt32 >>> right.shiftAmount)

end BinaryOperator
end LineShell
