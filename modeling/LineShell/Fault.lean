import LineShell.Token.Basic

namespace LineShell

/-!
A fault says why a line was rejected or why a command stopped.  Causes are
data; their wording is in one place.
-/

/-- What is wrong with the tokens of a line. -/
inductive Misfit where
  | unexpectedEnd
  | unexpected (kind : Token.Kind) (text : String) (expected : String)
  | trailing (kind : Token.Kind) (text : String)
  | tooDeep
  | unknownOperator (symbol : String)
  | invalidNumber (text : String)
  | unknownFlag (flag : String)
  | unknownVerb
  deriving DecidableEq, Repr

/-- Why a command could not be carried out. -/
inductive Refusal where
  | emptyUser
  | missingArgument (position : Nat)
  | notAnExpression (position : Nat)
  | unknownVerb
  | stepNeedsVariable (symbol : String)
  | callsTooDeep
  | questionInExpression (command : String)
  | questionPending
  deriving DecidableEq, Repr

/-- The reason why a line has no effect, or no further effect.  The offset is
the place in the line that the reason points at. -/
inductive Fault where
  | lexical (char : Char) (offset : Nat)
  | grammatical (misfit : Misfit) (offset : Nat)
  | unknownCommand (name : String) (offset : Nat)
  | execution (refusal : Refusal)
  deriving DecidableEq, Repr

/-- The verbs that the variable command knows, as one message for both the
grammar and the handler. -/
def unknownVerbMessage : String :=
  "First argument must be one of: set, get, list, or flush"

namespace Misfit

def message : Misfit -> String
  | .unexpectedEnd => "Unexpected end of input"
  | .unexpected kind text expected =>
      "Unexpected " ++ kind.name ++ " `" ++ text ++ "`, expected " ++ expected
  | .trailing kind text => "Expected end of input, got " ++ kind.name ++ " `" ++ text ++ "`"
  | .tooDeep => "Expression is nested too deeply"
  | .unknownOperator symbol => "Unknown operator `" ++ symbol ++ "`"
  | .invalidNumber text => "Invalid number `" ++ text ++ "`"
  | .unknownFlag flag => "Unknown flag `" ++ flag ++ "` for clear"
  | .unknownVerb => unknownVerbMessage

end Misfit

namespace Refusal

def message : Refusal -> String
  | .emptyUser => "First argument of user cannot be empty"
  | .missingArgument position => "Missing argument " ++ position.repr
  | .notAnExpression position => "Argument " ++ position.repr ++ " must be an expression"
  | .unknownVerb => unknownVerbMessage
  | .stepNeedsVariable symbol => "`" ++ symbol ++ "` can only be applied to a variable"
  | .callsTooDeep => "Nested commands are too deep"
  | .questionInExpression command =>
      "`" ++ command ++ "` asks for confirmation and cannot be used inside an expression"
  | .questionPending => "a confirmation is already pending"

end Refusal

namespace Fault

def offset? : Fault -> Option Nat
  | .lexical _ offset => some offset
  | .grammatical _ offset => some offset
  | .unknownCommand _ offset => some offset
  | .execution _ => none

def message : Fault -> String
  | .lexical char offset =>
      "ERR_LEX: Invalid symbol `" ++ String.ofList [char] ++ "` at position " ++ offset.repr
  | .grammatical misfit offset =>
      "ERR_SYNTAX: " ++ misfit.message ++ " at position " ++ offset.repr
  | .unknownCommand name _ =>
      "ERR_UNKNOWN_COMMAND: Unknown command: " ++ name
        ++ "\ntry using the help command to get help"
  | .execution refusal => "ERR_EXEC: " ++ refusal.message

end Fault
end LineShell
