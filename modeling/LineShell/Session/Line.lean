import LineShell.Parser.Line
import LineShell.Session.Evaluate

namespace LineShell
namespace SessionM

/-!
A line runs its commands in order and stops at the first fault.  A command that
asks a question suspends its line: the next line is the answer, and after a
valid one the commands that were left run.
-/

def await (pending : Pending) : SessionM Unit :=
  modify fun session =>
    { ((session.setMode .answer).setEcho true).setCanType true with pending? := some pending }

/-- Asks a question and keeps the commands that are left, unless another
question waits. -/
def ask (question : Question) (remaining : List Command) : SessionM Unit := do
  if (← get).isAwaiting then refuse .questionPending
  else
    log (question.wording ++ " [y/n]")
    await { question, remaining }

def runCommandsWith (script : Session -> Session) : List Command -> SessionM Unit
  | [] => return
  | command :: remaining => do
      match ← executeWith script false command with
      | .value _ => runCommandsWith script remaining
      | .ask question => ask question remaining

/-- Runs a line.  Spaces before it are dropped, and a blank line does nothing.
Warnings are shown also for a line that is rejected. -/
def runLineWith (script : Session -> Session) (line : String) : SessionM Unit := do
  let chars := Text.skipSpaces line.toList
  if chars.all Text.isBlank then return
  else
    let line := String.ofList chars
    showLine line
    match Parser.start line with
    | .error fault => throw fault
    | .ok state =>
        let result := Parser.line state
        let warnings :=
          match result with
          | .ok _ after | .error _ after => after.warnings
        warnings.forM fun warning => modify fun session => session.note .warning warning.message
        match result with
        | .ok commands _ => runCommandsWith script commands
        | .error fault _ => throw fault

end SessionM

namespace Session

/-- Does a step; a fault goes to the journal. -/
def settle (session : Session) (step : SessionM Unit) : Session :=
  match step session with
  | .ok _ after => after
  | .error fault after => after.report fault

/-- The lines that try out a few commands. -/
def scriptLines : List String :=
  ["echo \"these commands are synthetic user inputs!\"",
   "motd",
   "help",
   "echo \"2 + 2 = \" + (2 + 2)"]

/-- Runs the lines that try out a few commands.  None of them runs the script
again, so nothing depends on what stands for it here. -/
def runScript (session : Session) : Session :=
  scriptLines.foldl (fun session line => session.settle (SessionM.runLineWith id line)) session

end Session

namespace SessionM

def evaluate (expression : Expr) : SessionM Value :=
  evaluateWith Session.runScript expression

def execute (piping : Bool) (command : Command) : SessionM Outcome :=
  executeWith Session.runScript piping command

def runCommands (commands : List Command) : SessionM Unit :=
  runCommandsWith Session.runScript commands

def runLine (line : String) : SessionM Unit :=
  runLineWith Session.runScript line

/-- Takes the answer to a question.  A line that is no answer leaves the
question as it was. -/
def answer (pending : Pending) (line : String) : SessionM Unit := do
  showLine line
  modify fun session => ((session.setMode .command).setEcho false).setCanType false
  match pending.question.onAnswer? line with
  | none =>
      log "value must be one of y or n!"
      await pending
  | some lines =>
      lines.forM fun line => modify fun session => session.settle (runLine line)
      modify fun session => session.setEcho true
      runCommands pending.remaining

end SessionM

namespace Session

/-- Takes in a line: the answer to the question that waits, or commands. -/
def submit (session : Session) (line : String) : Session :=
  let session := session.setCanType false
  let after :=
    match session.pending? with
    | some pending =>
        { session with pending? := none }.settle (SessionM.answer pending line)
    | none => session.settle (SessionM.runLine line)
  after.setCanType true

end Session
end LineShell
