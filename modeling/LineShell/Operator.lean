namespace LineShell

/-!
The operators of expressions and the symbols they are written with.
-/

/-- Operators with two operands. -/
inductive BinaryOperator where
  | add
  | subtract
  | multiply
  | divide
  | bitOr
  | bitAnd
  | bitXor
  | shiftLeft
  | shiftRight
  deriving DecidableEq, Repr

namespace BinaryOperator

def symbol : BinaryOperator -> String
  | .add => "+"
  | .subtract => "-"
  | .multiply => "*"
  | .divide => "/"
  | .bitOr => "|"
  | .bitAnd => "&"
  | .bitXor => "^"
  | .shiftLeft => "<<"
  | .shiftRight => ">>"

def all : List BinaryOperator :=
  [.add, .subtract, .multiply, .divide, .bitOr, .bitAnd, .bitXor, .shiftLeft, .shiftRight]

def ofSymbol? (symbol : String) : Option BinaryOperator :=
  all.find? fun operator => operator.symbol = symbol

@[simp]
theorem ofSymbol?_symbol (operator : BinaryOperator) :
    ofSymbol? operator.symbol = some operator := by
  cases operator <;> decide

end BinaryOperator

/-- Operators with one operand. -/
inductive UnaryOperator where
  | negate
  | bitNot
  | not
  | increment
  | decrement
  deriving DecidableEq, Repr

namespace UnaryOperator

def symbol : UnaryOperator -> String
  | .negate => "-"
  | .bitNot => "~"
  | .not => "!"
  | .increment => "++"
  | .decrement => "--"

def all : List UnaryOperator :=
  [.negate, .bitNot, .not, .increment, .decrement]

def ofSymbol? (symbol : String) : Option UnaryOperator :=
  all.find? fun operator => operator.symbol = symbol

@[simp]
theorem ofSymbol?_symbol (operator : UnaryOperator) :
    ofSymbol? operator.symbol = some operator := by
  cases operator <;> decide

/-- Whether an operator changes the variable that it is applied to. -/
def isStep : UnaryOperator -> Bool
  | .increment | .decrement => true
  | .negate | .bitNot | .not => false

end UnaryOperator
end LineShell
