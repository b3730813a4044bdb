import LineShell.Token.Cursor

namespace LineShell

/-!
A parser reads the tokens of one line with one token of lookahead.  A parser
that fails leaves the tokens it has eaten eaten, and gives none of the levels
back that it has entered, so its state is kept beside the fault.
-/

/-- What a line says that has no effect. -/
inductive Warning where
  | noFilesystem
  deriving DecidableEq, Repr

namespace Warning

def message : Warning -> String
  | .noFilesystem => "The filesystem hasn't been implemented yet"

end Warning

namespace Parser

/-- How far the reading of a line has come.  After the upcoming tokens the line
either has ended at the byte `limit`, or goes on there with text that is no
token. -/
structure State where
  lookahead : Token
  upcoming : List Token
  fault? : Option Fault
  limit : Nat
  /-- The end of the token that was eaten last. -/
  lastEnd : Nat
  /-- The number of levels that are entered and not yet left. -/
  depth : Nat
  warnings : List Warning
  deriving DecidableEq, Repr

end Parser

/-- A step of reading a line. -/
abbrev Parser := EStateM Fault Parser.State

namespace Parser

/-- The number of levels that a line may enter.  Parentheses, operators with
one operand, arrays and commands are levels, and so is each operand after the
first in a chain of operators. -/
def maxDepth : Nat := 256

namespace State

/-- The number of tokens behind the lookahead. -/
def remaining (state : State) : Nat :=
  state.upcoming.length

/-- Whether nothing stands between the lookahead and the token before it. -/
def isAdjacent (state : State) : Bool :=
  state.lookahead.span.start = state.lastEnd

end State

def start (line : String) : Except Fault State :=
  let reading := (Token.Cursor.start line).read
  match reading.tokens, reading.fault with
  | lookahead :: upcoming, fault? =>
      .ok
        { lookahead, upcoming, fault?, limit := reading.cursor.offset
          lastEnd := lookahead.span.start, depth := 0, warnings := [] }
  | [], some fault => .error fault
  | [], none => .error (.grammatical .unexpectedEnd reading.cursor.offset)

/-- Fails at the lookahead. -/
def reject {α : Type} (misfit : Misfit) : Parser α := fun state =>
  .error (.grammatical misfit state.lookahead.span.start) state

/-- Makes the given token the lookahead, and returns the one before. -/
def shift (next : Token) (upcoming : List Token) : Parser Token := fun state =>
  .ok state.lookahead
    { state with lookahead := next, upcoming, lastEnd := state.lookahead.span.stop }

/-- The token that marks the end of a line once that end is reached. -/
def endToken (limit : Nat) : Token :=
  { kind := .endOfLine, text := "", span := { start := limit, stop := limit } }

/-- Eats the lookahead, whatever it is.  Behind the end of a line is the end of
the line again. -/
def advance : Parser Token := fun state =>
  match state.upcoming, state.fault? with
  | next :: upcoming, _ => shift next upcoming state
  | [], none => shift (endToken state.limit) [] state
  | [], some fault => .error fault state

/-- Eats the lookahead if it is of one of the given kinds. -/
def eatAny (kinds : List Token.Kind) : Parser Token := fun state =>
  let token := state.lookahead
  if token.kind ∈ kinds then advance state
  else if token.kind.isTerminator then reject .unexpectedEnd state
  else
    let expected := String.intercalate " | " (kinds.map Token.Kind.name)
    reject (.unexpected token.kind token.text expected) state

/-- Eats the lookahead if it is of the given kind. -/
def eat (kind : Token.Kind) : Parser Token :=
  eatAny [kind]

def enter : Parser Unit := fun state =>
  let deeper := { state with depth := state.depth + 1 }
  if deeper.depth ≤ maxDepth then .ok () deeper else reject .tooDeep deeper

def leave (levels : Nat) : Parser Unit :=
  modify fun state => { state with depth := state.depth - levels }

def warn (warning : Warning) : Parser Unit :=
  modify fun state => { state with warnings := state.warnings ++ [warning] }

/-- Reads something one level deeper. -/
def nested {α : Type} (inner : Parser α) : Parser α := do
  enter
  let value ← inner
  leave 1
  return value

/-- The span from the given byte to the end of the token that was eaten last. -/
def spanFrom (start : Nat) : Parser Span := do
  return { start, stop := (← get).lastEnd }

/-- Checks that a statement ends here. -/
def expectTerminator : Parser Unit := fun state =>
  let token := state.lookahead
  if token.kind.isTerminator then .ok () state
  else reject (.trailing token.kind token.text) state

/-- Repeats a step while the test holds.  Every round has to get nearer to the
end of the tokens; one that does not is the last. -/
def repeatWhile {α : Type} (test : State -> Bool) (body : α -> Parser α) (value : α) :
    Parser α := fun state =>
  if test state then
    match body value state with
    | .ok value after =>
        if after.remaining < state.remaining then repeatWhile test body value after
        else .ok value after
    | .error fault after => .error fault after
  else .ok value state
termination_by state => state.remaining

end Parser
end LineShell
