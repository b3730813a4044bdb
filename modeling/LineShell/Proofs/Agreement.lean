import LineShell.Proofs.Execution
import LineShell.Proofs.QuietLines

namespace LineShell

/-!
# What commands cannot see

Commands read the variables, the user, the directories and the banner.  They do
not read the journal, how lines are taken in, whether a question waits, or from
which part of a line they were read.  Sessions that differ in these respects
only stay so, and commands that differ in their places do the same.
-/

open Steps

namespace Session

/-- A session without the parts that no command reads. -/
def core (session : Session) : Session :=
  { session with
    journal := .empty
    pending? := none
    terminal := { session.terminal with echo := true, mode := .command, canType := true } }

/-- Two sessions that no command can tell apart. -/
def Agrees (one two : Session) : Prop :=
  one.core = two.core

namespace Agrees

variable {one two three : Session}

theorem trans (first : one.Agrees two) (second : two.Agrees three) : one.Agrees three :=
  Eq.trans first second

theorem symm (same : one.Agrees two) : two.Agrees one :=
  Eq.symm same

theorem bound (same : one.Agrees two) (bindings : Bindings) :
    Agrees { one with bindings } { two with bindings } := by
  have changed := congrArg (fun session : Session => { session with bindings }) same
  exact changed

theorem called (same : one.Agrees two) (callDepth : Nat) :
    Agrees { one with callDepth } { two with callDepth } := by
  have changed := congrArg (fun session : Session => { session with callDepth }) same
  exact changed

theorem moved (same : one.Agrees two) (target? : Option String) :
    (one.withDirectory target?).Agrees (two.withDirectory target?) :=
  congrArg (withDirectory target?) same

theorem renamed (same : one.Agrees two) (name : String) :
    (one.withUser name).Agrees (two.withUser name) := by
  have user : one.terminal.user = two.terminal.user :=
    congrArg (fun session => session.terminal.user) same
  simp only [withUser, user]
  split
  · exact same
  · exact congrArg
      (fun session : Session => { session with terminal := session.terminal.setUser name }) same

end Agrees

theorem Speaks.agrees {session after : Session} (speaks : session.Speaks after) :
    after.Agrees session := by
  induction speaks with
  | refl => rfl
  | note _ _ _ ih | setEcho _ _ ih | setMode _ _ ih | setCanType _ _ ih => exact ih

theorem rehearsed_speaks (session : Session) : session.Speaks (session.rehearsed runScript) :=
  ((Speaks.refl.setEcho false).trans (runScript_speaks _)).setEcho true

/-- Commands keep two sessions alike, and leave the question of the first one
as it is. -/
theorem kept_agrees (pending? : Option Pending) :
    Kept runScript fun one two => one.Agrees two ∧ one.pending? = pending? where
  bindings related := congrArg (fun session => session.bindings) related.1
  callDepth related := congrArg (fun session => session.callDepth) related.1
  banner related := congrArg (fun session => session.terminal.banner) related.1
  directory related := congrArg (fun session => session.terminal.workingDirectory) related.1
  noted related _ := related
  cleared related := related
  bound related bindings := ⟨related.1.bound bindings, related.2⟩
  called related callDepth := ⟨related.1.called callDepth, related.2⟩
  renamed {one two} related name := by
    refine ⟨related.1.renamed name, ?_⟩
    simp only [withUser]
    split
    · exact related.2
    · exact related.2
  moved related target? := ⟨related.1.moved target?, related.2⟩
  rehearsed {one two} related :=
    ⟨((rehearsed_speaks one).agrees.trans related.1).trans (rehearsed_speaks two).agrees.symm,
      (rehearsed_speaks one).pending_eq.trans related.2⟩

end Session

/-! ## Places -/

theorem Argument.text?_relocate (place : Nat -> Nat) (argument : Argument) :
    (argument.relocate place).text? = argument.text? := by
  cases argument <;> rfl

theorem Command.text?_relocateAll (place : Nat -> Nat) (parameters : List Argument)
    (index : Nat) :
    Command.text? (Argument.relocateAll place parameters) index
      = Command.text? parameters index := by
  rw [Argument.relocateAll_eq_map, Command.text?, Command.text?, List.getElem?_map]
  cases parameters[index]? with
  | none => rfl
  | some argument => exact argument.text?_relocate place

namespace SessionM

theorem stepOperand_relocate (place : Nat -> Nat) (operator : UnaryOperator) (change : Int)
    (placement : Placement) (operand : Expr) :
    stepOperand operator change placement (operand.relocate place)
      = stepOperand operator change placement operand := by
  cases operand <;> simp only [Expr.relocate, stepOperand]

mutual

theorem evaluateWith_relocate (script : Session -> Session) (place : Nat -> Nat) :
    (expression : Expr) ->
      evaluateWith script (expression.relocate place) = evaluateWith script expression
  | .number _ | .text _ | .word _ | .boolean _ | .var _ => by rw [Expr.relocate]
  | .binary operator left right => by
      rw [Expr.relocate, evaluateWith, evaluateWith, evaluateWith_relocate script place left,
        evaluateWith_relocate script place right]
  | .unary operator placement operand => by
      have inside := evaluateWith_relocate script place operand
      cases operator <;> simp only [Expr.relocate, evaluateWith, inside, stepOperand_relocate]
  | .call command => by
      rw [Expr.relocate, evaluateWith, evaluateWith, executeWith_relocate script place true command]
      cases command
      rfl
  | .array items => by
      rw [Expr.relocate, evaluateWith, evaluateWith, evaluateAll_relocate script place items]

theorem evaluateAll_relocate (script : Session -> Session) (place : Nat -> Nat) :
    (items : List Expr) ->
      evaluateAll script (Expr.relocateAll place items) = evaluateAll script items
  | [] => by rw [Expr.relocateAll]
  | item :: items => by
      rw [Expr.relocateAll, evaluateAll, evaluateAll, evaluateWith_relocate script place item,
        evaluateAll_relocate script place items]

theorem evaluateArgument_relocate (script : Session -> Session) (place : Nat -> Nat)
    (position skip : Nat) :
    (arguments : List Argument) ->
      evaluateArgument script position skip (Argument.relocateAll place arguments)
        = evaluateArgument script position skip arguments
  | [] => by rw [Argument.relocateAll]
  | argument :: arguments => by
      cases skip with
      | zero =>
          cases argument with
          | expression value =>
              simp only [Argument.relocateAll, Argument.relocate, evaluateArgument]
              exact evaluateWith_relocate script place value
          | _ => simp only [Argument.relocateAll, Argument.relocate, evaluateArgument]
      | succ skip =>
          simp only [Argument.relocateAll, evaluateArgument]
          exact evaluateArgument_relocate script place position skip arguments

/-- What a command does does not depend on its place in the line. -/
theorem executeWith_relocate (script : Session -> Session) (place : Nat -> Nat) (piping : Bool) :
    (command : Command) ->
      executeWith script piping (command.relocate place) = executeWith script piping command
  | { name := _, action, parameters, span := _ } => by
      have evaluated := fun position skip =>
        evaluateArgument_relocate script place position skip parameters
      cases action <;>
        simp only [Command.relocate, executeWith, evaluated, help, clear, changeUser,
          changeDirectory, inspectVariables, requiredText, Command.text?_relocateAll]

end

end SessionM
end LineShell
