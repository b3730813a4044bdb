import LineShell.Parser.Expr

namespace LineShell
namespace Parser

/-!
A line is a sequence of statements between semicolons.  A statement calls a
command by its name, writes a variable, or steps one.
-/

/-- The assignment of an expression to a name that was eaten. -/
def assign (name : Token) (value : Expr) : Parser Command := do
  let span ← spanFrom name.span.start
  let parameters := [.word name.text, .expression value]
  return { name := name.text, action := .assign, parameters, span }

/-- Reads what follows the name of a variable: a value to assign, `++` or `--`,
or an operator and a value to combine it with.  An assignment without a value
assigns the empty text. -/
def assignment (name : Token) : Parser Command := do
  let token := (← get).lookahead
  let unknown := Fault.unknownCommand name.text name.span.start
  match token.kind with
  | .equals =>
      discard advance
      if (← get).lookahead.kind.isTerminator then assign name (.text "")
      else assign name (← expression)
  | .unary =>
      if token.isStep then
        let operator ← unaryOperator
        if (← get).lookahead.kind.isTerminator then
          let span ← spanFrom name.span.start
          let step := Expr.unary operator .after (.var name.text)
          return { name := name.text, action := .evaluate, parameters := [.expression step], span }
        else throw unknown
      else throw unknown
  | .additive | .multiplicative | .bitwise =>
      let operator ← binaryOperator
      if (← get).lookahead.kind = .equals then
        discard advance
        assign name (.binary operator (.var name.text) (← expression))
      else throw unknown
  | _ => throw unknown

/-- The name of the variable that a step is applied to. -/
def stepTarget : Expr -> String
  | .unary _ _ (.var name) => name
  | _ => ""

def statement : Parser Command := do
  let token := (← get).lookahead
  let unknown := Fault.unknownCommand token.text token.span.start
  match token.kind with
  | .word =>
      let name ← advance
      match Builtin.find? name.text with
      | some builtin => commandAfter expression builtin name
      | none => assignment name
  | .dollar =>
      discard advance
      assignment (← eat .word)
  | .unary =>
      if token.isStep then
        let step ← unary primary expression
        let span ← spanFrom token.span.start
        let name := stepTarget step
        return { name, action := .evaluate, parameters := [.expression step], span }
      else throw unknown
  | .semicolon | .endOfLine => reject .unexpectedEnd
  | _ => throw unknown

/-- Reads a semicolon and the statement after it, which is added to the commands
before, the latest first.  A path is no statement and only gives a warning. -/
def furtherStatement (commands : List Command) : Parser (List Command) := do
  discard advance
  if (← get).lookahead.kind = .path then
    discard advance
    warn .noFilesystem
    expectTerminator
    return commands
  else
    let command ← statement
    expectTerminator
    return command :: commands

def line : Parser (List Command) := do
  let first ← statement
  expectTerminator
  let commands ←
    repeatWhile (fun state => state.lookahead.kind = .semicolon) furtherStatement [first]
  discard <| eat .endOfLine
  return commands.reverse

end Parser

namespace Command

def parseLine (line : String) : Except Fault (List Command) := do
  match Parser.line (← Parser.start line) with
  | .ok commands _ => .ok commands
  | .error fault _ => .error fault

end Command
end LineShell
