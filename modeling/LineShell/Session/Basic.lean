import LineShell.Command.Basic
import LineShell.Fault
import LineShell.Journal
import LineShell.Question
import LineShell.Terminal
import LineShell.Bindings

namespace LineShell

/-!
A session is what lines act on: the variables, the journal, the terminal, and
the question that waits for an answer.
-/

/-- A question that waits for its answer, with the commands of its line that
are still to run. -/
structure Pending where
  question : Question
  remaining : List Command

structure Session where
  terminal : Terminal
  bindings : Bindings
  journal : Journal
  pending? : Option Pending
  /-- How many commands are being called inside each other. -/
  callDepth : Nat

/-- A step of a session.  One that fails keeps what it has done so far. -/
abbrev SessionM := EStateM Fault Session

/-- What a command comes to: a value, or a question to ask first. -/
inductive Outcome where
  | value (value : Value)
  | ask (question : Question)

namespace Session

def start (settings : Settings) : Session :=
  { terminal := .ofSettings settings, bindings := .empty, journal := .empty, pending? := none
    callDepth := 0 }

def note (session : Session) (severity : Severity) (message : String) : Session :=
  { session with journal := session.journal.add severity message }

def report (session : Session) (fault : Fault) : Session :=
  session.note .error fault.message

def showBanner (session : Session) : Session :=
  session.note .info session.terminal.banner

/-- Turns the showing of lines on or off. -/
def setEcho (session : Session) (echo : Bool) : Session :=
  { session with terminal := { session.terminal with echo } }

def setCanType (session : Session) (canType : Bool) : Session :=
  { session with terminal := { session.terminal with canType } }

def setMode (session : Session) (mode : InputMode) : Session :=
  { session with terminal := { session.terminal with mode } }

def isAwaiting (session : Session) : Bool :=
  session.pending?.isSome

def prompt (session : Session) : String :=
  match session.terminal.mode with
  | .command => session.terminal.prompt
  | .answer => "> "

end Session

namespace SessionM

def log (message : String) : SessionM Unit :=
  modify fun session => session.note .info message

/-- Fails because a command cannot be carried out. -/
def refuse {α : Type} (refusal : Refusal) : SessionM α :=
  throw (.execution refusal)

/-- Shows a line before it runs, if lines are to be shown. -/
def showLine (line : String) : SessionM Unit := do
  if (← get).terminal.echo then
    log ("> " ++ line)

/-- Hands a value back, and shows it unless it goes into an expression. -/
def emit (piping : Bool) (value : Value) : SessionM Outcome := do
  unless piping do
    log value.render
  return .value value

end SessionM
end LineShell
