import LineShell.Launch.Input
import LineShell.Launch.Options
import LineShell.Launch.Transcript

namespace LineShell
namespace Launch

/-!
The program as a function of its arguments, the files it can read and its
input.  It runs a text given as an option, or a file, or else what is typed.
-/

/-- What the program leaves behind. -/
structure Report where
  code : Nat
  written : Written
  deriving DecidableEq, Repr

def versionText : String := "termish 0.1.0"

def usageText : String :=
  String.intercalate "\n"
    ["Usage: termish [OPTIONS] [FILE]",
     "",
     "Arguments:",
     "  [FILE]  Script file to execute, one line per command line",
     "",
     "Options:",
     "  -c, --command <STRING>  Execute command string",
     "      --user <NAME>       Session user name",
     "      --device <NAME>     Device name shown in the prompt",
     "      --no-motd           Do not print the banner when an interactive session starts",
     "  -v, --verbose           Log interpreter diagnostics to stderr",
     "  -h, --help              Print help",
     "  -V, --version           Print version"]

/-- The report of a program that starts no session. -/
def Halt.report : Halt -> Report
  | .usage => { code := 2, written := { err := usageText ++ "\n" } }
  | .help => { code := 0, written := { out := usageText ++ "\n" } }
  | .version => { code := 0, written := { out := versionText ++ "\n" } }

/-- The report of a session that has ended. -/
def Transcript.report (transcript : Transcript) : Report :=
  { code := transcript.exitCode, written := transcript.written }

/-- The report of a session that ends because something could not be done. -/
def Transcript.fail (transcript : Transcript) (reason : String) : Report :=
  let written := transcript.written
  { code := 1, written := { written with err := written.err ++ "termish: " ++ reason ++ "\n" } }

/-- The exit code of a program that cannot go on. -/
def brokenCode : Nat := 101

/-- The report of a session whose input cannot be taken in.  If it cannot be
read, the reason and its cause have the same wording. -/
def Transcript.failInput (transcript : Transcript) : InputFailure -> Report
  | .unreadable failure => transcript.fail (failure.message ++ ": " ++ failure.message)
  | .cutCharacter =>
      { transcript.fail "a backspace cannot cut a character in two" with code := brokenCode }

/-- Takes in what is typed, up to a line that cannot be taken in. -/
def Transcript.typeInput (transcript : Transcript) (input : List UInt8) :
    Transcript × Option InputFailure :=
  let (lines, failure?) := typedLines input
  (transcript.typeLines lines, failure?)

def runInput (transcript : Transcript) (input : List UInt8) : Report :=
  match transcript.typeInput input with
  | (after, none) => after.report
  | (after, some failure) => after.failInput failure

def runFile (transcript : Transcript) (name : String) (content : Except ReadFailure (List UInt8)) :
    Report :=
  match content >>= decode with
  | .ok text => (transcript.runText text).report
  | .error failure => transcript.fail ("cannot read " ++ name ++ ": " ++ failure.message)

def runOptions (options : Options) (files : String -> Except ReadFailure (List UInt8))
    (input : List UInt8) : Report :=
  let transcript := Transcript.start options.settings
  match options.command?, options.file? with
  | some text, _ => (transcript.runText text).report
  | none, some name => runFile transcript name (files name)
  | none, none => runInput (transcript.greet !options.noBanner) input

def run (arguments : List String) (files : String -> Except ReadFailure (List UInt8))
    (input : List UInt8) : Report :=
  match Options.read arguments with
  | .ok options => runOptions options files input
  | .error halt => halt.report

end Launch
end LineShell
