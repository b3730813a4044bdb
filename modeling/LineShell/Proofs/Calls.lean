import LineShell.Proofs.Grammar
import LineShell.Proofs.Height

namespace LineShell

/-!
# Calls inside of commands

A command may call others in its expressions, and these may call others again.
The calls of a command that are not inside of another call are its direct calls,
from left to right.

Each of them was read from tokens of its own, which stand one behind the other
among the tokens of the command.  To trace commands to tokens is to tell for
each of them which tokens are its own, and to trace its direct calls to these.
What the rules of the grammar cover can be traced if what they are made of can.
-/

mutual

/-- The direct calls of an expression, from left to right. -/
def Expr.calls : Expr -> List Command
  | .number _ | .text _ | .word _ | .boolean _ | .var _ => []
  | .binary _ left right => left.calls ++ right.calls
  | .unary _ _ operand => operand.calls
  | .call command => [command]
  | .array items => Expr.callsOf items

def Expr.callsOf : List Expr -> List Command
  | [] => []
  | item :: items => item.calls ++ Expr.callsOf items

end

def Argument.calls : Argument -> List Command
  | .expression value => value.calls
  | .word _ | .text _ | .path _ | .flag _ => []

/-- The direct calls of a command, from left to right. -/
def Command.calls (command : Command) : List Command :=
  command.parameters.flatMap Argument.calls

/-- A command is among the given ones, or called inside one of them. -/
def Command.Occurs (commands : List Command) (command : Command) : Prop :=
  command ∈ commands ∨ ∃ outer ∈ commands, .call command ∈ outer.expressions

theorem Command.Occurs.append_left {commands : List Command} {command : Command}
    (occurs : Command.Occurs commands command) (more : List Command) :
    Command.Occurs (commands ++ more) command := by
  rcases occurs with member | ⟨outer, member, called⟩
  · exact .inl (List.mem_append_left more member)
  · exact .inr ⟨outer, List.mem_append_left more member, called⟩

theorem Command.Occurs.append_right {commands : List Command} {command : Command}
    (occurs : Command.Occurs commands command) (more : List Command) :
    Command.Occurs (more ++ commands) command := by
  rcases occurs with member | ⟨outer, member, called⟩
  · exact .inl (List.mem_append_right more member)
  · exact .inr ⟨outer, List.mem_append_right more member, called⟩

mutual

/-- What is called inside an expression is a direct call, or called inside
one. -/
theorem Expr.occurs_calls {command : Command} :
    (expression : Expr) -> .call command ∈ expression.parts ->
      Command.Occurs expression.calls command
  | .number _, member | .text _, member | .word _, member | .boolean _, member
  | .var _, member => by
      rw [Expr.parts, List.mem_singleton] at member
      cases member
  | .binary _ left right, member => by
      rw [Expr.parts, List.mem_cons, List.mem_append] at member
      rw [Expr.calls]
      rcases member with same | inLeft | inRight
      · cases same
      · exact (left.occurs_calls inLeft).append_left _
      · exact (right.occurs_calls inRight).append_right _
  | .unary _ _ operand, member => by
      rw [Expr.parts, List.mem_cons] at member
      rw [Expr.calls]
      rcases member with same | inside
      · cases same
      · exact operand.occurs_calls inside
  | .call inner, member => by
      rw [Expr.parts, List.mem_cons] at member
      rw [Expr.calls]
      rcases member with same | inside
      · cases same
        exact .inl List.mem_cons_self
      · exact .inr ⟨inner, List.mem_cons_self, inside⟩
  | .array items, member => by
      rw [Expr.parts, List.mem_cons] at member
      rw [Expr.calls]
      rcases member with same | inside
      · cases same
      · exact Expr.occurs_callsOf items inside

theorem Expr.occurs_callsOf {command : Command} :
    (items : List Expr) -> .call command ∈ Expr.partsOf items ->
      Command.Occurs (Expr.callsOf items) command
  | [], member => by cases member
  | item :: items, member => by
      rw [Expr.partsOf, List.mem_append] at member
      rw [Expr.callsOf]
      rcases member with first | others
      · exact (item.occurs_calls first).append_left _
      · exact (Expr.occurs_callsOf items others).append_right _

end

theorem Argument.occurs_calls {command : Command} (arguments : List Argument)
    (member : .call command ∈ Argument.allExpressions arguments) :
    Command.Occurs (arguments.flatMap Argument.calls) command := by
  induction arguments with
  | nil => cases member
  | cons argument arguments ih =>
      rw [Argument.allExpressions, List.mem_append] at member
      rw [List.flatMap_cons]
      rcases member with first | others
      · cases argument with
        | expression value => exact (value.occurs_calls first).append_left _
        | _ => cases first
      · exact (ih others).append_right _

/-- What is called inside a command is a direct call, or called inside one. -/
theorem Command.occurs_calls {command inner : Command}
    (called : .call inner ∈ command.expressions) : Command.Occurs command.calls inner := by
  rcases command with ⟨name, action, parameters, span⟩
  exact Argument.occurs_calls parameters called

/-! ## Traces -/

/-- The commands are traced to tokens: each of them has tokens of its own that
are as asked, one behind the other, and its direct calls are traced to these. -/
inductive Traces (holds : List Token -> Command -> Prop) : List Token -> List Command -> Prop
  | none {tokens : List Token} : Traces holds tokens []
  | more {before own rest : List Token} {command : Command} {commands : List Command} :
      holds own command ->
      Traces holds own command.calls ->
      Traces holds rest commands ->
      Traces holds (before ++ own ++ rest) (command :: commands)

namespace Traces

variable {holds : List Token -> Command -> Prop} {tokens others : List Token}
  {commands more : List Command}

theorem single {command : Command} (held : holds tokens command)
    (inside : Traces holds tokens command.calls) : Traces holds tokens [command] := by
  have traced : Traces holds ([] ++ tokens ++ []) [command] := .more held inside .none
  rwa [List.nil_append, List.append_nil] at traced

theorem behind (front : List Token) (traces : Traces holds tokens commands) :
    Traces holds (front ++ tokens) commands := by
  cases traces with
  | none => exact .none
  | more held inside rest =>
      rw [← List.append_assoc, ← List.append_assoc]
      exact .more held inside rest

theorem append (first : Traces holds tokens commands) (second : Traces holds others more) :
    Traces holds (tokens ++ others) (commands ++ more) := by
  induction first with
  | none => exact second.behind _
  | more held inside _ _ ih =>
      rw [List.append_assoc]
      exact .more held inside ih

theorem before (traces : Traces holds tokens commands) (back : List Token) :
    Traces holds (tokens ++ back) commands := by
  have traced : Traces holds (tokens ++ back) (commands ++ []) := traces.append .none
  rwa [List.append_nil] at traced

/-- Every command that occurs among traced ones has tokens of its own among
theirs. -/
theorem occurs (traces : Traces holds tokens commands) {command : Command}
    (occurs : Command.Occurs commands command) :
    ∃ own, own <:+: tokens ∧ holds own command ∧ Traces holds own command.calls := by
  induction traces with
  | none =>
      rcases occurs with member | ⟨_, member, _⟩
      · cases member
      · cases member
  | @more before own rest first commands held inside _ ihInside ihRest =>
      -- The tokens of what is inside are among the first command's own.
      have here : own <:+: before ++ own ++ rest := ⟨before, rest, rfl⟩
      have there : rest <:+: before ++ own ++ rest := (List.suffix_append _ _).isInfix
      rcases occurs with member | ⟨outer, member, called⟩
      · rcases List.mem_cons.mp member with rfl | later
        · exact ⟨own, here, held, inside⟩
        · rcases ihRest (.inl later) with ⟨found, within, traced⟩
          exact ⟨found, within.trans there, traced⟩
      · rcases List.mem_cons.mp member with rfl | later
        · rcases ihInside (Command.occurs_calls called) with ⟨found, within, traced⟩
          exact ⟨found, within.trans here, traced⟩
        · rcases ihRest (.inr ⟨outer, later, called⟩) with ⟨found, within, traced⟩
          exact ⟨found, within.trans there, traced⟩

end Traces

/-! ## The grammar -/

namespace Grammar

variable {holds : List Token -> Command -> Prop} {rule : List Token -> Expr -> Prop}
  (inside : ∀ tokens value, rule tokens value -> Traces holds tokens value.calls)
include inside

theorem Chain.traces {level : Token.Kind} {tokens : List Token} {value : Expr}
    (chain : Chain level rule tokens value) : Traces holds tokens value.calls := by
  induction chain with
  | first isOperand => exact inside _ _ isOperand
  | @further tokens left operator sign more right _ _ isOperand ih =>
      rw [Expr.calls]
      exact ih.append ((inside _ _ isOperand).behind [sign])

theorem Items.traces {tokens : List Token} {values : List Expr}
    (items : Items rule tokens values) : Traces holds tokens (Expr.callsOf values) := by
  induction items with
  | none => exact .none
  | last isItem =>
      rw [Expr.callsOf, Expr.callsOf, List.append_nil]
      exact inside _ _ isItem
  | @more tokens value comma rest values isItem _ _ ih =>
      rw [Expr.callsOf]
      exact (inside _ _ isItem).append (ih.behind [comma])

theorem Arguments.traces {action : Action} {tokens : List Token} {parameters : List Argument}
    (arguments : Arguments rule action tokens parameters) :
    Traces holds tokens (parameters.flatMap Argument.calls) := by
  cases arguments with
  | echo isValue =>
      simp only [List.flatMap_singleton, Argument.calls]
      exact inside _ _ isValue
  | stackSet _ _ _ isValue =>
      simp only [List.flatMap_cons, List.flatMap_nil, Argument.calls, List.nil_append,
        List.append_nil]
      exact (inside _ _ isValue).behind _
  | _ => exact .none

end Grammar
end LineShell
