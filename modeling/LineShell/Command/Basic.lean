import LineShell.Operator
import LineShell.Token.Basic

namespace LineShell

/-!
A line is a sequence of commands.  The arguments of a command may hold
expressions, and an expression may call a command for its value, so the two
are defined together.
-/

/-- What a command does.  Assignments and expressions that stand alone are
commands too. -/
inductive Action where
  | help
  | echo
  | clear
  | user
  | stack
  | motd
  | cd
  | test
  | confirm
  | license
  | assign
  | evaluate
  deriving DecidableEq, Repr

/-- Where an operator with one operand stands. -/
inductive Placement where
  | before
  | after
  deriving DecidableEq, Repr

mutual

inductive Expr where
  | number (value : Float)
  | text (value : String)
  | word (value : String)
  | boolean (value : Bool)
  | var (name : String)
  | binary (operator : BinaryOperator) (left right : Expr)
  | unary (operator : UnaryOperator) (placement : Placement) (operand : Expr)
  | call (command : Command)
  | array (items : List Expr)

inductive Argument where
  | expression (value : Expr)
  | word (value : String)
  | text (value : String)
  | path (value : String)
  | flag (value : String)

/-- A command with the name it was called by, and the span of the line that it
was read from. -/
structure Command where
  name : String
  action : Action
  parameters : List Argument
  span : Span

end

namespace Argument

/-- The text of an argument that is not an expression. -/
def text? : Argument -> Option String
  | .expression _ => none
  | .word value | .text value | .path value | .flag value => some value

end Argument

namespace Command

def text? (parameters : List Argument) (index : Nat) : Option String :=
  parameters[index]?.bind Argument.text?

end Command
end LineShell
