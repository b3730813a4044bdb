namespace LineShell

/-!
A line is cut into tokens.  Every token has a kind, the text it covers, and the
span of that text in the line, counted in bytes.
-/

/-- A stretch of a line, from the byte at `start` up to the byte at `stop`. -/
structure Span where
  start : Nat
  stop : Nat
  deriving DecidableEq, Repr

namespace Token

/-- The kinds of token.  The four operator kinds are the ones that the grammar
tells apart; their symbols are listed in `symbols`. -/
inductive Kind where
  | string
  | leftParen
  | rightParen
  | leftBrace
  | rightBrace
  | leftBracket
  | rightBracket
  | equals
  | semicolon
  | colon
  | comma
  | dot
  | question
  | dollar
  | additive
  | multiplicative
  | bitwise
  | unary
  | path
  | number
  | word
  | boolean
  | endOfLine
  deriving DecidableEq, Repr

namespace Kind

/-- The name of a kind, as error messages give it. -/
def name : Kind -> String
  | .string => "string"
  | .leftParen => "("
  | .rightParen => ")"
  | .leftBrace => "\x7b"
  | .rightBrace => "\x7d"
  | .leftBracket => "["
  | .rightBracket => "]"
  | .equals => "="
  | .semicolon => ";"
  | .colon => ":"
  | .comma => ","
  | .dot => "."
  | .question => "?"
  | .dollar => "$"
  | .additive => "additiveOperator"
  | .multiplicative => "multiplicativeOperator"
  | .bitwise => "bitwiseOperator"
  | .unary => "unaryOperator"
  | .path => "path"
  | .number => "number"
  | .word => "word"
  | .boolean => "boolean"
  | .endOfLine => "EoL"

def all : List Kind :=
  [.string, .leftParen, .rightParen, .leftBrace, .rightBrace, .leftBracket, .rightBracket,
   .equals, .semicolon, .colon, .comma, .dot, .question, .dollar, .additive, .multiplicative,
   .bitwise, .unary, .path, .number, .word, .boolean, .endOfLine]

def ofName? (name : String) : Option Kind :=
  all.find? fun kind => kind.name = name

@[simp]
theorem ofName?_name (kind : Kind) : ofName? kind.name = some kind := by
  cases kind <;> decide

/-- Whether a token of this kind ends a statement. -/
def isTerminator (kind : Kind) : Bool :=
  kind = .semicolon || kind = .endOfLine

end Kind
end Token

structure Token where
  kind : Token.Kind
  text : String
  span : Span
  deriving DecidableEq, Repr

namespace Token

/-- A token in angle brackets, with its kind before its text. -/
def render (token : Token) : String :=
  "<" ++ token.kind.name ++ ":" ++ token.text ++ ">"

/-- Whether a token is the given symbol of the given kind. -/
def isSymbol (token : Token) (kind : Kind) (symbol : String) : Bool :=
  token.kind = kind && token.text = symbol

/-- Whether a token is `++` or `--`. -/
def isStep (token : Token) : Bool :=
  token.isSymbol .unary "++" || token.isSymbol .unary "--"

end Token
end LineShell
