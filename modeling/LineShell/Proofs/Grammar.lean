import LineShell.Parser.Expr
import Mathlib.Data.List.Chain

namespace LineShell
namespace Grammar

/-!
# The grammar of expressions

The grammar says which sequences of tokens are expressions, and which tree each
of them stands for.  It has a stratum for each level of operators:

* an additive expression is multiplicative ones with additive operators between
  them,
* a multiplicative expression is bitwise ones with multiplicative operators
  between them,
* a bitwise expression is primary ones with bitwise operators between them, and
* a primary expression is an additive one in parentheses, or a unary one.

Every rule relates the tokens that it covers to what they stand for.  A rule
that refers to expressions takes the relation for them as a parameter, so that
the strata are closed into one grammar only by `Primary`.
-/

/-! ## Chains of operators -/

/-- Whether a token is an operator of a level. -/
def IsOperator (level : Token.Kind) (operator : BinaryOperator) (sign : Token) : Prop :=
  sign.kind = level ∧ sign.text = operator.symbol

/-- Operands with operators of one level between them.  The chain leans to the
left: what stands before an operator is its left operand as a whole. -/
inductive Chain (level : Token.Kind) (operand : List Token -> Expr -> Prop) :
    List Token -> Expr -> Prop
  | first {tokens value} :
      operand tokens value ->
      Chain level operand tokens value
  | further {tokens left operator sign more right} :
      Chain level operand tokens left ->
      IsOperator level operator sign ->
      operand more right ->
      Chain level operand (tokens ++ sign :: more) (.binary operator left right)

/-! ## Arrays -/

/-- Items with commas between them; the last one may have a comma after it. -/
inductive Items (item : List Token -> Expr -> Prop) : List Token -> List Expr -> Prop
  | none : Items item [] []
  | last {tokens value} :
      item tokens value ->
      Items item tokens [value]
  | more {tokens value comma rest values} :
      item tokens value ->
      comma.kind = .comma ->
      Items item rest values ->
      Items item (tokens ++ comma :: rest) (value :: values)

/-! ## The arguments of commands -/

/-- The target of `stack set` and `stack get`: a word, with or without a dollar
sign before it. -/
inductive Target : List Token -> String -> Prop
  | plain {name} :
      name.kind = .word ->
      Target [name] name.text
  | marked {dollar name} :
      dollar.kind = .dollar ->
      name.kind = .word ->
      Target [dollar, name] name.text

/-- Whether a token begins where the one before it ends. -/
def Adjoins (earlier later : Token) : Prop :=
  later.span.start = earlier.span.stop

/-- What may stand behind the name of a command, for each action. -/
inductive Arguments (expression : List Token -> Expr -> Prop) :
    Action -> List Token -> List Argument -> Prop
  | help : Arguments expression .help [] []
  | helpWith {name} :
      name.kind = .word ->
      name.text ∈ Builtin.names ->
      Arguments expression .help [name] [.word name.text]
  | echo {tokens value} :
      expression tokens value ->
      Arguments expression .echo tokens [.expression value]
  | clear : Arguments expression .clear [] []
  | clearWith {dash flag} :
      Parser.isDash dash ->
      flag.kind = .word ->
      flag.text ∈ ["m", "motd"] ->
      Arguments expression .clear [dash, flag] [.flag flag.text]
  | user {name} :
      name.kind ∈ [.string, .word] ->
      Arguments expression .user [name] [.text (Parser.plainText name)]
  | stackSet {verb target name tokens value} :
      verb.kind = .word ->
      verb.text = "set" ->
      Target target name ->
      expression tokens value ->
      Arguments expression .stack (verb :: target ++ tokens)
        [.word verb.text, .word name, .expression value]
  | stackGet {verb target name} :
      verb.kind = .word ->
      verb.text = "get" ->
      Target target name ->
      Arguments expression .stack (verb :: target) [.word verb.text, .word name]
  | stackAll {verb} :
      verb.kind = .word ->
      verb.text ∈ ["list", "flush"] ->
      Arguments expression .stack [verb] [.word verb.text]
  | cdHome : Arguments expression .cd [] []
  | cdQuoted {name} :
      name.kind = .string ->
      Arguments expression .cd [name] [.path (Parser.plainText name)]
  | cdPieces {first pieces} :
      first.isSymbol .unary "~" ∨ first.kind ∈ Parser.pathKinds ->
      (∀ piece ∈ pieces, Parser.isPathPiece piece) ->
      List.IsChain Adjoins (first :: pieces) ->
      Arguments expression .cd (first :: pieces)
        [.path (String.join ((first :: pieces).map Token.text))]
  | bare {action} :
      action ∈ [.motd, .test, .confirm, .license, .assign, .evaluate] ->
      Arguments expression action [] []

/-! ## Expressions without an operator of two operands at their top -/

/-- A variable is a dollar sign and a name. -/
inductive Variable : List Token -> String -> Prop
  | named {dollar name} :
      dollar.kind = .dollar ->
      name.kind ∈ [.word, .number, .boolean] ->
      Variable [dollar, name] name.text

/-- Whether a token is an operator that changes a variable. -/
def IsStep (operator : UnaryOperator) (sign : Token) : Prop :=
  operator.isStep ∧ sign.kind = .unary ∧ sign.text = operator.symbol

/-- Whether a token is an operator for the primary expression behind it.  The
minus sign is the one operator among them that has two operands elsewhere. -/
def IsSign (operator : UnaryOperator) (sign : Token) : Prop :=
  ¬operator.isStep ∧ sign.text = operator.symbol
    ∧ (sign.kind = .unary ∨ operator = .negate ∧ sign.kind = .additive)

/-- The span from the start of a token to the end of the last token. -/
def spanOf (first : Token) (others : List Token) : Span :=
  { start := first.span.start, stop := (others.getLastD first).span.stop }

/-- Operators with one operand, variables, arrays, calls, and literals.  A word
is a literal only if it is not the name of a command. -/
inductive Unary (primary expression : List Token -> Expr -> Prop) : List Token -> Expr -> Prop
  | stepBefore {operator sign tokens name} :
      IsStep operator sign ->
      Variable tokens name ->
      Unary primary expression (sign :: tokens) (.unary operator .before (.var name))
  | signed {operator sign tokens value} :
      IsSign operator sign ->
      primary tokens value ->
      Unary primary expression (sign :: tokens) (.unary operator .before value)
  | reference {tokens name} :
      Variable tokens name ->
      Unary primary expression tokens (.var name)
  | stepAfter {tokens name operator sign} :
      Variable tokens name ->
      IsStep operator sign ->
      Unary primary expression (tokens ++ [sign]) (.unary operator .after (.var name))
  | array {opening tokens values closing} :
      opening.kind = .leftBracket ->
      Items expression tokens values ->
      closing.kind = .rightBracket ->
      Unary primary expression (opening :: tokens ++ [closing]) (.array values)
  | call {name builtin tokens parameters} :
      name.kind = .word ->
      Builtin.find? name.text = some builtin ->
      Arguments expression builtin.action tokens parameters ->
      Unary primary expression (name :: tokens)
        (.call
          { name := name.text, action := builtin.action, parameters
            span := spanOf name tokens })
  | number {token value} :
      token.kind = .number ->
      Number.parse? token.text.toList = some value ->
      Unary primary expression [token] (.number value)
  | text {token} :
      token.kind = .string ->
      Unary primary expression [token] (.text (Text.Quoted.decode token.text))
  | word {token} :
      token.kind = .word ->
      Builtin.find? token.text = none ->
      Unary primary expression [token] (.word token.text)
  | boolean {token} :
      token.kind = .boolean ->
      Unary primary expression [token] (.boolean (token.text = "true"))

/-- Primary expressions, and with them the whole grammar. -/
inductive Primary : List Token -> Expr -> Prop
  | parenthesized {opening tokens value closing} :
      opening.kind = .leftParen ->
      Chain .additive (Chain .multiplicative (Chain .bitwise Primary)) tokens value ->
      closing.kind = .rightParen ->
      Primary (opening :: tokens ++ [closing]) value
  | unary {tokens value} :
      Unary Primary (Chain .additive (Chain .multiplicative (Chain .bitwise Primary)))
        tokens value ->
      Primary tokens value

/-- Primary expressions with bitwise operators between them. -/
def Bitwise : List Token -> Expr -> Prop :=
  Chain .bitwise Primary

def Multiplicative : List Token -> Expr -> Prop :=
  Chain .multiplicative Bitwise

def Additive : List Token -> Expr -> Prop :=
  Chain .additive Multiplicative

/-! ## No rule covers nothing -/

theorem Chain.ne_nil {level : Token.Kind} {operand : List Token -> Expr -> Prop}
    (solid : ∀ tokens value, operand tokens value -> tokens ≠ []) (tokens : List Token)
    (value : Expr) (chain : Chain level operand tokens value) : tokens ≠ [] := by
  cases chain with
  | first isOperand => exact solid _ _ isOperand
  | further _ _ _ => exact List.append_ne_nil_of_right_ne_nil _ (List.cons_ne_nil _ _)

theorem Unary.ne_nil {primary expression : List Token -> Expr -> Prop} {tokens : List Token}
    {value : Expr} (unary : Unary primary expression tokens value) : tokens ≠ [] := by
  cases unary with
  | reference isVariable =>
      cases isVariable
      exact List.cons_ne_nil _ _
  | stepAfter isVariable _ =>
      cases isVariable
      exact List.cons_ne_nil _ _
  | _ => exact List.cons_ne_nil _ _

theorem Primary.ne_nil (tokens : List Token) (value : Expr) (primary : Primary tokens value) :
    tokens ≠ [] := by
  cases primary with
  | parenthesized _ _ _ => exact List.cons_ne_nil _ _
  | unary isUnary => exact isUnary.ne_nil

end Grammar
end LineShell
