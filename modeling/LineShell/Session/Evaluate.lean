import LineShell.Command.Builtin
import LineShell.Session.Basic

namespace LineShell
namespace SessionM

/-!
Expressions are evaluated from left to right.  They may step variables and call
commands; a command that is called hands its output back instead of showing it.
One command runs a script of lines, so the evaluator is given what that script
does to a session.
-/

/-- The number of commands that may be called inside each other. -/
def maxCallDepth : Nat := 64

/-- Runs something inside the call of a command. -/
def calling {α : Type} (inner : SessionM α) : SessionM α := fun session =>
  if maxCallDepth ≤ session.callDepth then refuse .callsTooDeep session
  else
    match inner { session with callDepth := session.callDepth + 1 } with
    | .ok value after => .ok value { after with callDepth := after.callDepth - 1 }
    | .error fault after => .error fault { after with callDepth := after.callDepth - 1 }

/-- The value of a call, which must not be a question. -/
def valueOf (command : String) : Outcome -> SessionM Value
  | .value value => return value
  | .ask _ => refuse (.questionInExpression command)

/-- Writes a variable and hands its value back. -/
def store (name : String) (value : Value) : SessionM Outcome := do
  modify fun session => { session with bindings := session.bindings.set name value }
  return .value value

/-- Adds a number to a variable.  The value is the new number if the operator
stands before the variable, and the old one otherwise. -/
def step (change : Int) (placement : Placement) (name : String) : SessionM Value := do
  let old := ((← get).bindings.get name).toNumber
  let new := old + Number.ofInt change
  discard <| store name (.number new)
  match placement with
  | .before => return .number new
  | .after => return .number old

/-- Steps an operand that is a variable. -/
def stepOperand (operator : UnaryOperator) (change : Int) (placement : Placement) :
    Expr -> SessionM Value
  | .var name => step change placement name
  | _ => refuse (.stepNeedsVariable operator.symbol)

def requiredText (parameters : List Argument) (index : Nat) : SessionM String :=
  match Command.text? parameters index with
  | some text => return text
  | none => refuse (.missingArgument (index + 1))

/-- Lists the commands, or explains one. -/
def help (piping : Bool) (parameters : List Argument) : SessionM Outcome :=
  match Command.text? parameters 0 with
  | none =>
      emit piping <| .text <|
        "List of all available commands:\n  " ++ String.intercalate "\n  " Builtin.names
          ++ "\n\nUse help <command> to learn more about a specific command\n"
  | some name =>
      match Builtin.find? name with
      | some builtin =>
          emit piping (.text (builtin.help?.getD "[no documentation]" ++ "\n"))
      | none => throw (.unknownCommand name 0)

/-- Clears the journal.  Any argument asks for the banner. -/
def clear (parameters : List Argument) : SessionM Outcome := do
  modify fun session => { session with journal := session.journal.clear }
  if (Command.text? parameters 0).isSome then
    modify Session.showBanner
  return .value .empty

def changeUser (parameters : List Argument) : SessionM Outcome := do
  let name := (Command.text? parameters 0).getD ""
  if name = "" then refuse .emptyUser
  else
    modify fun session =>
      if session.terminal.user = name then session
      else { session with terminal := session.terminal.setUser name }
    return .value (.text name)

def changeDirectory (parameters : List Argument) : SessionM Outcome := do
  modify fun session =>
    { session with
      terminal := session.terminal.changeDirectory (Command.text? parameters 0) }
  return .value (.text (← get).terminal.workingDirectory)

/-- Reads, lists or removes variables. -/
def inspectVariables (piping : Bool) (parameters : List Argument) : SessionM Outcome := do
  let verb := Command.text? parameters 0
  if verb = some "get" then
    let name ← requiredText parameters 1
    emit piping ((← get).bindings.get name)
  else if verb = some "list" then
    let bindings := (← get).bindings
    if piping then return .value (.text bindings.summary)
    else
      bindings.table.forM log
      return .value .empty
  else if verb = some "flush" then
    modify fun session => { session with bindings := .empty }
    return .value .empty
  else refuse .unknownVerb

/-- Runs the script without showing its lines. -/
def rehearse (script : Session -> Session) : SessionM Outcome := do
  modify fun session => (script (session.setEcho false)).setEcho true
  return .value .empty

mutual

/-- The value of an expression. -/
def evaluateWith (script : Session -> Session) : Expr -> SessionM Value
  | .number value => return .number value
  | .text value => return .text value
  | .word value => return .text value
  | .boolean value => return .boolean value
  | .var name => return (← get).bindings.get name
  | .binary operator left right => do
      let left ← evaluateWith script left
      let right ← evaluateWith script right
      return operator.apply left right
  | .unary operator placement operand =>
      match operator with
      | .increment => stepOperand operator 1 placement operand
      | .decrement => stepOperand operator (-1) placement operand
      | .negate => return .number (-(← evaluateWith script operand).toNumber)
      | .bitNot => return .ofInt32 (~~~(← evaluateWith script operand).toInt32)
      | .not => return .boolean (!(← evaluateWith script operand).isTruthy)
  | .call command => do
      let outcome ← calling (executeWith script true command)
      valueOf command.name outcome
  | .array items => return .list (← evaluateAll script items)

def evaluateAll (script : Session -> Session) : List Expr -> SessionM (List Value)
  | [] => return []
  | item :: items => do
      let value ← evaluateWith script item
      let values ← evaluateAll script items
      return value :: values

/-- The value of the argument that stands after `skip` others, and has to be an
expression.  The position is the one that a refusal names. -/
def evaluateArgument (script : Session -> Session) (position : Nat) (skip : Nat) :
    List Argument -> SessionM Value
  | [] => refuse (.notAnExpression position)
  | argument :: arguments =>
      match skip with
      | 0 =>
          match argument with
          | .expression value => evaluateWith script value
          | _ => refuse (.notAnExpression position)
      | skip + 1 => evaluateArgument script position skip arguments

/-- Carries out a command. -/
def executeWith (script : Session -> Session) (piping : Bool) : Command -> SessionM Outcome
  | { name := _, action, parameters, span := _ } =>
      match action with
      | .help => help piping parameters
      | .echo => do emit piping (← evaluateArgument script 1 0 parameters)
      | .clear => clear parameters
      | .user => changeUser parameters
      | .stack =>
          if Command.text? parameters 0 = some "set" then do
            let name ← requiredText parameters 1
            store name (← evaluateArgument script 3 2 parameters)
          else inspectVariables piping parameters
      | .motd => do emit piping (.text (← get).terminal.banner)
      | .cd => changeDirectory parameters
      | .test => rehearse script
      | .confirm => return .ask .sample
      | .license => return .ask .license
      | .assign => do
          let name ← requiredText parameters 0
          store name (← evaluateArgument script 2 1 parameters)
      | .evaluate => return .value (← evaluateArgument script 1 0 parameters)

end

end SessionM
end LineShell
