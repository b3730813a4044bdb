import LineShell.Launch.Files
import LineShell.Text.Typed

namespace LineShell
namespace Launch

/-!
What is typed is taken in line by line, until the input ends or a line cannot
be taken in.
-/

/-- Why a line that was typed cannot be taken in. -/
inductive InputFailure where
  | unreadable (failure : ReadFailure)
  | cutCharacter
  deriving DecidableEq, Repr

/-- A line as it was typed, with what backspaces took back removed. -/
def typedLine (bytes : List UInt8) : Except InputFailure String :=
  match decode bytes with
  | .error failure => .error (.unreadable failure)
  | .ok text =>
      match Text.Typed.resolve? text.toList with
      | some chars => .ok (String.ofList chars)
      | none => .error .cutCharacter

def lineFailure? : Except InputFailure String -> Option InputFailure
  | .ok _ => none
  | .error failure => some failure

/-- The lines of an input before the first one that cannot be taken in, and why
it cannot. -/
def typedLines (input : List UInt8) : List String × Option InputFailure :=
  let lines := (Text.linesBy 10 13 input).map typedLine
  let taken := lines.takeWhile fun line => (lineFailure? line).isNone
  (taken.filterMap Except.toOption, (lines.filterMap lineFailure?).head?)

end Launch
end LineShell
