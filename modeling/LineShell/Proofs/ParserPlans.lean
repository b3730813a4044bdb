import LineShell.Proofs.LocalReading
import LineShell.Proofs.Plans

namespace LineShell

/-!
# The plans of the parsers

Every parser that enters levels, repeats a round or calls for other expressions
has a plan of the same form: the same steps in the same order, with its loops,
its levels and its calls in the open.  What only eats tokens stays a simple step.
A plan is for its parser whatever way of reading primary expressions is put in,
so the two agree at every depth of nesting.
-/

open Steps

namespace Parser
namespace Plan

variable {α : Type}

/-! ## Expressions -/

/-- One more operator and operand of a chain. -/
def operand (inner : Plan Expr) (chained : Expr × Nat) : Plan (Expr × Nat) :=
  .andThen (.step binaryOperator) fun operator => .andThen .enter fun _ =>
    .andThen inner fun right => .give (.binary operator chained.1 right, chained.2 + 1)

/-- Reads a chain of operands of one level. -/
def chain (level : Token.Kind) (inner : Plan Expr) : Plan Expr :=
  .andThen inner fun first =>
    .andThen
      (.loop .operands (fun state => state.lookahead.kind = level) (operand inner) (first, 0))
      fun chained => .andThen (.leave chained.2) fun _ => .give chained.1

def expression : Plan Expr :=
  chain .additive (chain .multiplicative (chain .bitwise .call))

/-- One more item of an array, in front of the ones before it. -/
def item (items : List Expr) : Plan (List Expr) :=
  .andThen expression fun item => .step (separated (item :: items))

def array : Plan Expr :=
  .andThen (.step (discard (eat .leftBracket))) fun _ =>
    .andThen
      (nested (.loop .items (fun state => state.lookahead.kind ≠ .rightBracket) item []))
      fun items => .step do
        discard <| eat .rightBracket
        return .array items.reverse

/-- Reads what follows a verb other than the one that takes a value. -/
def plainVerb (verb : Token) : Parser (List Argument) := do
  if verb.text = "get" then
    let name ← stackVariable
    return [.word verb.text, .word name]
  else if verb.text = "list" ∨ verb.text = "flush" then return [.word verb.text]
  else throw (.grammatical .unknownVerb verb.span.start)

def stackArguments : Plan (List Argument) :=
  .andThen (.step (eat .word)) fun verb =>
    if verb.text = "set" then
      .andThen (.step stackVariable) fun name => .andThen expression fun value =>
        .give [.word verb.text, .word name, .expression value]
    else .step (plainVerb verb)

/-- One more piece of a path. -/
def piece (path : String) : Plan String :=
  .step do return path ++ (← advance).text

/-- Reads the rest of a path after its first piece. -/
def pathAfter (first : Token) : Plan (List Argument) :=
  .andThen
    (.loop .pieces (fun state => state.isAdjacent && isPathPiece state.lookahead) piece first.text)
    fun path => .give [.path path]

def cdArguments : Plan (List Argument) :=
  .look fun state =>
    if state.lookahead.kind.isTerminator then .give []
    else if state.lookahead.kind = .string then
      .step do return [.path (plainText (← advance))]
    else if state.lookahead.isSymbol .unary "~" then .andThen (.step advance) pathAfter
    else .andThen (.step (eatAny pathKinds)) pathAfter

def arguments (action : Action) : Plan (List Argument) :=
  match action with
  | .help => .step helpArguments
  | .echo => .andThen expression fun value => .give [.expression value]
  | .clear => .step clearArguments
  | .user => .step userArguments
  | .stack => stackArguments
  | .cd => cdArguments
  | .motd | .test | .confirm | .license | .assign | .evaluate => .give []

def commandAfter (builtin : Builtin) (name : Token) : Plan Command :=
  .andThen (nested (arguments builtin.action)) fun parameters => .step do
    let span ← spanFrom name.span.start
    return { name := name.text, action := builtin.action, parameters, span }

/-- Reads a variable, which may have a step behind it. -/
def reference : Parser Expr := do
  let operand := Expr.var (← variableName)
  if (← get).lookahead.isStep then
    return .unary (← unaryOperator) .after operand
  else return operand

def operation : Plan Expr :=
  .andThen (.step unaryOperator) fun operator =>
    .andThen
      (nested (if operator.isStep then .step do return .var (← variableName) else .call))
      fun operand => .give (.unary operator .before operand)

/-- Reads a primary expression without parentheses. -/
def unary : Plan Expr :=
  .mark .unary (.look fun state =>
    match state.lookahead.kind with
    | .unary => operation
    | .dollar => .step reference
    | .leftBracket => array
    | .additive =>
        if state.lookahead.text = "-" then
          .andThen (.step (discard advance)) fun _ => .andThen (nested .call) fun operand =>
            .give (.unary .negate .before operand)
        else .step literal
    | .word =>
        match Builtin.find? state.lookahead.text with
        | some builtin =>
            .andThen (.step advance) fun name => .andThen (commandAfter builtin name) fun command =>
              .give (.call command)
        | none => .step literal
    | _ => .step literal)

def primary : Plan Expr :=
  .look fun state =>
    if state.lookahead.kind = .leftParen then
      .andThen (.step (discard (eat .leftParen))) fun _ => .andThen (nested expression) fun value =>
        .step do
          discard <| eat .rightParen
          return value
    else unary

section Parsers

variable (inner : Parser Expr)

theorem parser_ite {condition : Prop} [Decidable condition] (first second : Plan α) :
    (if condition then first else second).parser inner
      = if condition then first.parser inner else second.parser inner :=
  apply_ite (parser inner) condition first second

theorem parser_nested (plan : Plan α) :
    (nested plan).parser inner = Parser.nested (plan.parser inner) := rfl

theorem parser_expression : expression.parser inner = expressionOver inner := rfl

theorem parser_array : array.parser inner = Parser.array (expressionOver inner) := by
  rw [array_eq]
  rfl

theorem parser_stackArguments :
    stackArguments.parser inner = Parser.stackArguments (expressionOver inner) := by
  simp only [stackArguments, parser_give, parser_step, parser_andThen, parser_ite]
  rfl

theorem parser_cdArguments : cdArguments.parser inner = Parser.cdArguments := by
  funext state
  simp only [cdArguments, parser_give, parser_step, parser_look, parser_andThen, parser_ite]
  rfl

theorem parser_arguments (action : Action) :
    (arguments action).parser inner = Parser.arguments (expressionOver inner) action := by
  cases action with
  | stack => exact parser_stackArguments inner
  | cd => exact parser_cdArguments inner
  | help | echo | clear | user => rfl
  | motd | test | confirm | license | assign | evaluate => rfl

theorem parser_commandAfter (builtin : Builtin) (name : Token) :
    (commandAfter builtin name).parser inner
      = Parser.commandAfter (expressionOver inner) builtin name := by
  rw [commandAfter, parser_andThen, parser_nested, parser_arguments]
  rfl

theorem parser_operation :
    operation.parser inner = (do
      let operator ← unaryOperator
      let operand ←
        Parser.nested (if operator.isStep then return .var (← variableName) else inner)
      return .unary operator .before operand) := by
  simp only [operation, parser_give, parser_step, parser_andThen, parser_call, parser_nested,
    parser_ite]

theorem parser_unary : unary.parser inner = Parser.unary inner (expressionOver inner) := by
  funext state
  simp only [unary, parser_look, parser_mark, Parser.unary, get_bind]
  cases kind : state.lookahead.kind
  case unary => exact congrFun (parser_operation inner) state
  case leftBracket => exact congrFun (parser_array inner) state
  case additive =>
    simp only [parser_ite]
    rfl
  case word =>
    cases Builtin.find? state.lookahead.text with
    | none => rfl
    | some builtin => simp only [parser_give, parser_step, parser_andThen, parser_commandAfter]
  all_goals rfl

theorem parser_primary : primary.parser inner = primaryOver inner := by
  funext state
  simp only [primary, parser_step, parser_look, parser_andThen, parser_ite, parser_unary,
    parser_nested]
  rfl

theorem parser_primaryWithin (levels : Nat) :
    primary.parser (primaryWithin levels) = primaryWithin (levels + 1) :=
  parser_primary _

end Parsers

/-! ## Lines -/

/-- Reads the rest of a statement that steps a variable, behind its sign. -/
def stepped (name : Token) (operator : UnaryOperator) : Parser Command := do
  if (← get).lookahead.kind.isTerminator then
    let span ← spanFrom name.span.start
    let step := Expr.unary operator .after (.var name.text)
    return { name := name.text, action := .evaluate, parameters := [.expression step], span }
  else throw (.unknownCommand name.text name.span.start)

/-- Reads what stands behind an equals sign. -/
def assigned (name : Token) : Plan Command :=
  .look fun state =>
    if state.lookahead.kind.isTerminator then .step (assign name (.text ""))
    else .andThen expression fun value => .step (assign name value)

/-- Reads an operator, an equals sign and a value to combine a variable with. -/
def combination (name : Token) : Plan Command :=
  .andThen (.step binaryOperator) fun operator => .look fun state =>
    if state.lookahead.kind = .equals then
      .andThen (.step (discard advance)) fun _ => .andThen expression fun value =>
        .step (assign name (.binary operator (.var name.text) value))
    else .step (throw (.unknownCommand name.text name.span.start))

/-- Reads what follows the name of a variable. -/
def assignment (name : Token) : Plan Command :=
  .look fun state =>
    match state.lookahead.kind with
    | .equals => .andThen (.step (discard advance)) fun _ => assigned name
    | .unary =>
        if state.lookahead.isStep then .step do stepped name (← unaryOperator)
        else .step (throw (.unknownCommand name.text name.span.start))
    | .additive | .multiplicative | .bitwise => combination name
    | _ => .step (throw (.unknownCommand name.text name.span.start))

/-- Reads a statement that starts with the name of a command or a variable. -/
def named (name : Token) : Plan Command :=
  match Builtin.find? name.text with
  | some builtin => commandAfter builtin name
  | none => assignment name

def statement : Plan Command :=
  .look fun state =>
    match state.lookahead.kind with
    | .word => .andThen (.step advance) named
    | .dollar =>
        .andThen (.step (discard advance)) fun _ => .andThen (.step (eat .word)) assignment
    | .unary =>
        if state.lookahead.isStep then
          .andThen unary fun step => .step do
            let span ← spanFrom state.lookahead.span.start
            let name := stepTarget step
            return { name, action := .evaluate, parameters := [.expression step], span }
        else .step (throw (.unknownCommand state.lookahead.text state.lookahead.span.start))
    | .semicolon | .endOfLine => .step (reject .unexpectedEnd)
    | _ => .step (throw (.unknownCommand state.lookahead.text state.lookahead.span.start))

def furtherStatement (commands : List Command) : Plan (List Command) :=
  .andThen (.step (discard advance)) fun _ => .look fun state =>
    if state.lookahead.kind = .path then
      .step do
        discard advance
        warn .noFilesystem
        expectTerminator
        return commands
    else
      .andThen statement fun command => .step do
        expectTerminator
        return command :: commands

def line : Plan (List Command) :=
  .andThen statement fun first => .andThen (.step expectTerminator) fun _ =>
    .andThen
      (.loop .statements (fun state => state.lookahead.kind = .semicolon) furtherStatement [first])
      fun commands => .step do
        discard <| eat .endOfLine
        return commands.reverse

theorem parser_assigned (name : Token) :
    (assigned name).parser Parser.primary = (do
      if (← get).lookahead.kind.isTerminator then assign name (.text "")
      else assign name (← Parser.expression)) := by
  funext state
  simp only [assigned, parser_step, parser_look, parser_andThen, parser_ite, parser_expression]
  rfl

theorem parser_combination (name : Token) :
    (combination name).parser Parser.primary = Parser.combination name := by
  simp only [combination, parser_step, parser_look, parser_andThen, parser_ite, parser_expression]
  rfl

theorem parser_assignment (name : Token) :
    (assignment name).parser Parser.primary = Parser.assignment name := by
  funext state
  simp only [assignment, parser_look, Parser.assignment, get_bind]
  cases kind : state.lookahead.kind
  case equals => simp only [parser_step, parser_andThen, parser_assigned]
  case unary =>
    simp only [parser_ite]
    rfl
  case additive | multiplicative | bitwise => exact congrFun (parser_combination name) state
  all_goals rfl

theorem parser_statement : statement.parser Parser.primary = Parser.statement := by
  funext state
  simp only [statement, parser_look, Parser.statement, get_bind]
  cases kind : state.lookahead.kind
  case word =>
    refine congrFun (bind_congr fun name => ?_) state
    rw [named]
    cases Builtin.find? name.text with
    | none => exact parser_assignment name
    | some builtin => exact parser_commandAfter _ builtin name
  case dollar => simp only [parser_step, parser_andThen, parser_assignment]
  case unary =>
    simp only [parser_ite, parser_step, parser_andThen, parser_unary]
    rfl
  all_goals rfl

theorem parser_furtherStatement (commands : List Command) :
    (furtherStatement commands).parser Parser.primary = Parser.furtherStatement commands := by
  simp only [furtherStatement, parser_step, parser_look, parser_andThen, parser_ite,
    parser_statement]
  rfl

theorem parser_line : line.parser Parser.primary = Parser.line := by
  simp only [line, parser_step, parser_andThen, parser_loop, parser_statement,
    parser_furtherStatement]
  rfl

end Plan
end Parser
end LineShell
