import LineShell.Command.Basic
import LineShell.Fault
import LineShell.Token.Basic

namespace LineShell

/-!
# The same text at another place

Tokens, faults and commands remember where in the line they come from.  Moving
a text to another place changes these positions and nothing else.  Relocation
applies a map of positions everywhere at once, to the commands that are nested
in expressions as well.
-/

namespace Span

/-- Moves both ends of a span. -/
def relocate (place : Nat -> Nat) (span : Span) : Span :=
  { start := place span.start, stop := place span.stop }

@[simp]
theorem relocate_id (span : Span) : span.relocate id = span := rfl

end Span

namespace Token

def relocate (place : Nat -> Nat) (token : Token) : Token :=
  { token with span := token.span.relocate place }

@[simp]
theorem relocate_id (token : Token) : token.relocate id = token := rfl

end Token

namespace Fault

/-- Moves the place that a fault points at. -/
def relocate (place : Nat -> Nat) : Fault -> Fault
  | .lexical char offset => .lexical char (place offset)
  | .grammatical misfit offset => .grammatical misfit (place offset)
  | .unknownCommand name offset => .unknownCommand name (place offset)
  | .execution refusal => .execution refusal

@[simp]
theorem relocate_id (fault : Fault) : fault.relocate id = fault := by
  cases fault <;> rfl

end Fault

mutual

/-- Moves the commands in an expression. -/
def Expr.relocate (place : Nat -> Nat) : Expr -> Expr
  | .number value => .number value
  | .text value => .text value
  | .word value => .word value
  | .boolean value => .boolean value
  | .var name => .var name
  | .binary operator left right => .binary operator (left.relocate place) (right.relocate place)
  | .unary operator placement operand => .unary operator placement (operand.relocate place)
  | .call command => .call (command.relocate place)
  | .array items => .array (Expr.relocateAll place items)

def Expr.relocateAll (place : Nat -> Nat) : List Expr -> List Expr
  | [] => []
  | item :: items => item.relocate place :: Expr.relocateAll place items

def Argument.relocate (place : Nat -> Nat) : Argument -> Argument
  | .expression value => .expression (value.relocate place)
  | .word value => .word value
  | .text value => .text value
  | .path value => .path value
  | .flag value => .flag value

def Argument.relocateAll (place : Nat -> Nat) : List Argument -> List Argument
  | [] => []
  | argument :: arguments => argument.relocate place :: Argument.relocateAll place arguments

/-- Moves a command and the commands in its arguments. -/
def Command.relocate (place : Nat -> Nat) : Command -> Command
  | { name, action, parameters, span } =>
      { name, action, parameters := Argument.relocateAll place parameters
        span := span.relocate place }

end

@[simp]
theorem Expr.relocateAll_eq_map (place : Nat -> Nat) (items : List Expr) :
    Expr.relocateAll place items = items.map (Expr.relocate place) := by
  induction items with
  | nil => rw [Expr.relocateAll, List.map_nil]
  | cons item items ih => rw [Expr.relocateAll, List.map_cons, ih]

@[simp]
theorem Argument.relocateAll_eq_map (place : Nat -> Nat) (arguments : List Argument) :
    Argument.relocateAll place arguments = arguments.map (Argument.relocate place) := by
  induction arguments with
  | nil => rw [Argument.relocateAll, List.map_nil]
  | cons argument arguments ih => rw [Argument.relocateAll, List.map_cons, ih]

mutual

/-- Moving nothing changes no expression. -/
theorem Expr.relocate_id : (expression : Expr) -> expression.relocate id = expression
  | .number _ | .text _ | .word _ | .boolean _ | .var _ => by rw [Expr.relocate]
  | .binary _ left right => by rw [Expr.relocate, left.relocate_id, right.relocate_id]
  | .unary _ _ operand => by rw [Expr.relocate, operand.relocate_id]
  | .call command => by rw [Expr.relocate, command.relocate_id]
  | .array items => by rw [Expr.relocate, Expr.relocateAll_id items]

theorem Expr.relocateAll_id : (items : List Expr) -> Expr.relocateAll id items = items
  | [] => by rw [Expr.relocateAll]
  | item :: items => by rw [Expr.relocateAll, item.relocate_id, Expr.relocateAll_id items]

theorem Argument.relocate_id : (argument : Argument) -> argument.relocate id = argument
  | .expression value => by rw [Argument.relocate, value.relocate_id]
  | .word _ | .text _ | .path _ | .flag _ => by rw [Argument.relocate]

theorem Argument.relocateAll_id :
    (arguments : List Argument) -> Argument.relocateAll id arguments = arguments
  | [] => by rw [Argument.relocateAll]
  | argument :: arguments => by
      rw [Argument.relocateAll, argument.relocate_id, Argument.relocateAll_id arguments]

/-- Moving nothing changes no command. -/
theorem Command.relocate_id : (command : Command) -> command.relocate id = command
  | { name, action, parameters, span } => by
      rw [Command.relocate, Argument.relocateAll_id parameters, Span.relocate_id]

end

mutual

/-- Moving twice is moving once. -/
theorem Expr.relocate_relocate (place next : Nat -> Nat) :
    (expression : Expr) ->
      (expression.relocate place).relocate next = expression.relocate (next ∘ place)
  | .number _ | .text _ | .word _ | .boolean _ | .var _ => by
      rw [Expr.relocate, Expr.relocate, Expr.relocate]
  | .binary _ left right => by
      rw [Expr.relocate, Expr.relocate, Expr.relocate, left.relocate_relocate,
        right.relocate_relocate]
  | .unary _ _ operand => by
      rw [Expr.relocate, Expr.relocate, Expr.relocate, operand.relocate_relocate]
  | .call command => by
      rw [Expr.relocate, Expr.relocate, Expr.relocate, command.relocate_relocate]
  | .array items => by
      rw [Expr.relocate, Expr.relocate, Expr.relocate,
        Expr.relocateAll_relocateAll place next items]

theorem Expr.relocateAll_relocateAll (place next : Nat -> Nat) :
    (items : List Expr) ->
      Expr.relocateAll next (Expr.relocateAll place items) = Expr.relocateAll (next ∘ place) items
  | [] => by rw [Expr.relocateAll, Expr.relocateAll, Expr.relocateAll]
  | item :: items => by
      rw [Expr.relocateAll, Expr.relocateAll, Expr.relocateAll, item.relocate_relocate,
        Expr.relocateAll_relocateAll place next items]

theorem Argument.relocate_relocate (place next : Nat -> Nat) :
    (argument : Argument) ->
      (argument.relocate place).relocate next = argument.relocate (next ∘ place)
  | .expression value => by
      rw [Argument.relocate, Argument.relocate, Argument.relocate, value.relocate_relocate]
  | .word _ | .text _ | .path _ | .flag _ => by
      rw [Argument.relocate, Argument.relocate, Argument.relocate]

theorem Argument.relocateAll_relocateAll (place next : Nat -> Nat) :
    (arguments : List Argument) ->
      Argument.relocateAll next (Argument.relocateAll place arguments)
        = Argument.relocateAll (next ∘ place) arguments
  | [] => by rw [Argument.relocateAll, Argument.relocateAll, Argument.relocateAll]
  | argument :: arguments => by
      rw [Argument.relocateAll, Argument.relocateAll, Argument.relocateAll,
        argument.relocate_relocate, Argument.relocateAll_relocateAll place next arguments]

theorem Command.relocate_relocate (place next : Nat -> Nat) :
    (command : Command) ->
      (command.relocate place).relocate next = command.relocate (next ∘ place)
  | { name, action, parameters, span } => by
      rw [Command.relocate, Command.relocate, Command.relocate,
        Argument.relocateAll_relocateAll place next parameters]
      rfl

end

@[simp]
theorem Command.map_relocate_id (commands : List Command) :
    commands.map (Command.relocate id) = commands := by
  rw [funext Command.relocate_id, List.map_id']

end LineShell
