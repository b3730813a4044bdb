import LineShell.Command.Builtin
import LineShell.Number.Numeral
import LineShell.Parser.Basic
import LineShell.Text.Quoted

namespace LineShell
namespace Parser

/-!
Expressions are chains of operators on three levels, of which the bitwise one
binds tightest, over primary expressions.  What nests deeper is read by a
parser that is passed in, so that each parser below is built from the one for
the next level.
-/

/-- The text of a token, without quotes if it is a string. -/
def plainText (token : Token) : String :=
  if token.kind = .string then Text.Quoted.decode token.text else token.text

def binaryOperator : Parser BinaryOperator := do
  let token ← advance
  match BinaryOperator.ofSymbol? token.text with
  | some operator => return operator
  | none => throw (.grammatical (.unknownOperator token.text) token.span.start)

def unaryOperator : Parser UnaryOperator := do
  let token ← eat .unary
  match UnaryOperator.ofSymbol? token.text with
  | some operator => return operator
  | none => throw (.grammatical (.unknownOperator token.text) token.span.start)

/-- Reads a dollar sign and the name of a variable. -/
def variableName : Parser String := do
  discard <| eat .dollar
  let name ← eatAny [.word, .number, .boolean]
  return name.text

def literal : Parser Expr := do
  let token := (← get).lookahead
  match token.kind with
  | .number =>
      discard advance
      match Number.parse? token.text.toList with
      | some value => return .number value
      | none => throw (.grammatical (.invalidNumber token.text) token.span.start)
  | .string => return .text (plainText (← advance))
  | .word => return .word (← advance).text
  | .boolean => return .boolean ((← advance).text = "true")
  | .semicolon | .endOfLine => reject .unexpectedEnd
  | kind => reject (.unexpected kind token.text "variable, string, or word")

/-- Reads a chain of operands of one level, with the operators of the level
between them.  The chain leans to the left. -/
def chain (level : Token.Kind) (operand : Parser Expr) : Parser Expr := do
  let first ← operand
  let (value, levels) ←
    repeatWhile (fun state => state.lookahead.kind = level)
      (fun (left, levels) => do
        let operator ← binaryOperator
        enter
        let right ← operand
        return (Expr.binary operator left right, levels + 1))
      (first, 0)
  leave levels
  return value

/-- Reads an expression, given how its primary expressions are read. -/
def expressionOver (primary : Parser Expr) : Parser Expr :=
  chain .additive (chain .multiplicative (chain .bitwise primary))

/-- Reads expressions in brackets, separated by commas; the last one may have a
comma after it. -/
def array (expression : Parser Expr) : Parser Expr := do
  discard <| eat .leftBracket
  enter
  let items ←
    repeatWhile (fun state => state.lookahead.kind ≠ .rightBracket)
      (fun items => do
        let item ← expression
        if (← get).lookahead.kind ≠ .rightBracket then
          discard <| eat .comma
        return item :: items)
      []
  leave 1
  discard <| eat .rightBracket
  return .array items.reverse

def helpArguments : Parser (List Argument) := do
  if (← get).lookahead.kind = .word then
    let name ← advance
    if (Builtin.find? name.text).isSome then return [.word name.text]
    else throw (.unknownCommand name.text name.span.start)
  else return []

/-- Whether a token can start a flag. -/
def isDash (token : Token) : Bool :=
  token.isSymbol .additive "-" || token.isSymbol .unary "--"

/-- Reads the flag that asks for the banner. -/
def clearArguments : Parser (List Argument) := do
  if isDash (← get).lookahead then
    let dash ← advance
    let flag ← eat .word
    if flag.text = "m" ∨ flag.text = "motd" then return [.flag flag.text]
    else throw (.grammatical (.unknownFlag (dash.text ++ flag.text)) dash.span.start)
  else return []

def userArguments : Parser (List Argument) := do
  let name ← eatAny [.string, .word]
  return [.text (plainText name)]

/-- Reads the name of a variable, with or without a dollar sign. -/
def stackVariable : Parser String := do
  if (← get).lookahead.kind = .dollar then
    discard advance
  return (← eat .word).text

/-- Reads what to do with the variables. -/
def stackArguments (expression : Parser Expr) : Parser (List Argument) := do
  let verb ← eat .word
  if verb.text = "set" then
    let name ← stackVariable
    let value ← expression
    return [.word verb.text, .word name, .expression value]
  else if verb.text = "get" then
    let name ← stackVariable
    return [.word verb.text, .word name]
  else if verb.text = "list" ∨ verb.text = "flush" then return [.word verb.text]
  else throw (.grammatical .unknownVerb verb.span.start)

/-- The kinds of token that can start a path without quotes. -/
def pathKinds : List Token.Kind :=
  [.path, .word, .dot, .number]

/-- Whether a token can go on a path. -/
def isPathPiece (token : Token) : Bool :=
  token.kind ∈ pathKinds || token.isSymbol .multiplicative "/" || token.isSymbol .additive "-"

/-- Reads the pieces of a path that follow each other without a gap, after the
text of the first one. -/
def pathFrom (first : String) : Parser String :=
  repeatWhile (fun state => state.isAdjacent && isPathPiece state.lookahead)
    (fun path => return path ++ (← advance).text)
    first

def cdArguments : Parser (List Argument) := do
  let token := (← get).lookahead
  if token.kind.isTerminator then return []
  else if token.kind = .string then return [.path (plainText (← advance))]
  else
    let first ← if token.isSymbol .unary "~" then advance else eatAny pathKinds
    return [.path (← pathFrom first.text)]

def arguments (expression : Parser Expr) (action : Action) : Parser (List Argument) :=
  match action with
  | .help => helpArguments
  | .echo => return [.expression (← expression)]
  | .clear => clearArguments
  | .user => userArguments
  | .stack => stackArguments expression
  | .cd => cdArguments
  | .motd | .test | .confirm | .license | .assign | .evaluate => return []

/-- Reads the rest of a command whose name was eaten. -/
def commandAfter (expression : Parser Expr) (builtin : Builtin) (name : Token) :
    Parser Command := do
  let parameters ← nested (arguments expression builtin.action)
  let span ← spanFrom name.span.start
  return { name := name.text, action := builtin.action, parameters, span }

/-- Reads an operator with its operand, a variable, an array, the call of a
command, or a literal, given how the primary and the full expressions inside
are read. -/
def unary (primary expression : Parser Expr) : Parser Expr := do
  let token := (← get).lookahead
  match token.kind with
  | .unary =>
      let operator ← unaryOperator
      let operand ←
        nested (if operator.isStep then return .var (← variableName) else primary)
      return .unary operator .before operand
  | .dollar =>
      let operand := Expr.var (← variableName)
      if (← get).lookahead.isStep then
        return .unary (← unaryOperator) .after operand
      else return operand
  | .leftBracket => array expression
  | .additive =>
      if token.text = "-" then
        discard advance
        return .unary .negate .before (← nested primary)
      else literal
  | .word =>
      match Builtin.find? token.text with
      | some builtin =>
          let name ← advance
          return .call (← commandAfter expression builtin name)
      | none => literal
  | _ => literal

/-- Reads a primary expression, given how the primary expressions one level
deeper are read. -/
def primaryOver (inner : Parser Expr) : Parser Expr := do
  if (← get).lookahead.kind = .leftParen then
    discard <| eat .leftParen
    let value ← nested (expressionOver inner)
    discard <| eat .rightParen
    return value
  else unary inner (expressionOver inner)

/-- Reads a primary expression that nests at most the given number of levels.
A parser for more than `maxDepth` levels never runs out of them, since each one
is entered first. -/
def primaryWithin (levels : Nat) : Parser Expr :=
  match levels with
  | 0 => reject .tooDeep
  | levels + 1 => primaryOver (primaryWithin levels)

def primary : Parser Expr :=
  primaryWithin (maxDepth + 1)

def expression : Parser Expr :=
  expressionOver primary

end Parser
end LineShell
