import LineShell.Session.Line

namespace LineShell
namespace Launch

/-!
A transcript is a session with what was written out for it.  After each line
the entries of the journal that were not seen before are written.
-/

/-- The text written to one of the two outputs. -/
structure Written where
  out : String := ""
  err : String := ""
  deriving DecidableEq, Repr

namespace Written

/-- Writes an entry of the journal, followed by a newline. -/
def add (written : Written) (entry : Entry) : Written :=
  match entry.severity with
  | .info => { written with out := written.out ++ entry.message ++ "\n" }
  | .warning => { written with err := written.err ++ "warning: " ++ entry.message ++ "\n" }
  | .error => { written with err := written.err ++ entry.message ++ "\n" }

end Written

/-- A session, how much of its journal was seen, whether an error was among it,
and what was written. -/
structure Transcript where
  session : Session
  cursor : Nat
  epoch : Nat
  sawError : Bool
  written : Written

namespace Transcript

def start (settings : Settings) : Transcript :=
  { session := .start settings, cursor := 0, epoch := 0, sawError := false, written := {} }

/-- Writes the entries of the journal that were not seen before. -/
def flush (transcript : Transcript) : Transcript :=
  let journal := transcript.session.journal
  let entries := journal.unseen transcript.epoch transcript.cursor
  { transcript with
    cursor := journal.size
    epoch := journal.epoch
    sawError := transcript.sawError || entries.any (·.severity = .error)
    written := entries.foldl Written.add transcript.written }

/-- Takes in a line and writes what it leads to. -/
def submit (transcript : Transcript) (line : String) : Transcript :=
  { transcript with session := transcript.session.submit line }.flush

/-- Turns the showing of lines off. -/
def mute (transcript : Transcript) : Transcript :=
  { transcript with session := transcript.session.setEcho false }

/-- Takes in a line of a text that is run as a whole.  Only answers are shown. -/
def runLine (transcript : Transcript) (line : String) : Transcript :=
  (if transcript.session.isAwaiting then transcript else transcript.mute).submit line

/-- Runs a text line by line. -/
def runText (transcript : Transcript) (text : String) : Transcript :=
  ((Text.lines text.toList).map String.ofList).foldl runLine transcript

/-- Takes in a line that was typed, and need not be shown again. -/
def typeLine (transcript : Transcript) (line : String) : Transcript :=
  transcript.mute.submit line

def typeLines (transcript : Transcript) (lines : List String) : Transcript :=
  lines.foldl typeLine transcript

def greet (transcript : Transcript) (wanted : Bool) : Transcript :=
  (if wanted then { transcript with session := transcript.session.showBanner }
   else transcript).flush

/-- The exit code: one if an error was seen. -/
def exitCode (transcript : Transcript) : Nat :=
  if transcript.sawError then 1 else 0

end Transcript
end Launch
end LineShell
