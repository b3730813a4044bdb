import LineShell.Launch.Program

namespace LineShell
namespace Launch

/-!
The program at the command line.  Everything it decides is in `Launch.run`; here
arguments, files and input are fetched and the results are written.
-/

/-- Writes what a program has to say. -/
def Written.flush (written : Written) : IO Unit := do
  IO.print written.out
  (← IO.getStdout).flush
  IO.eprint written.err

/-- Writes a report and gives its exit code. -/
def Report.finish (report : Report) : IO UInt32 := do
  report.written.flush
  return report.code.toUInt32

/-- The failure with the given code of the operating system, which may be given
as a negative number. -/
def ReadFailure.ofCode (code : UInt32) : ReadFailure :=
  let code := if code < 0x80000000 then code else 0 - code
  if code = 13 then .denied
  else if code = 20 then .notADirectory
  else if code = 21 then .isDirectory
  else if code = 36 then .nameTooLong
  else .missing

def ReadFailure.ofError : IO.Error -> ReadFailure
  | .permissionDenied _ code _ => .ofCode code
  | .inappropriateType _ code _ => .ofCode code
  | .invalidArgument _ code _ => .ofCode code
  | .otherError code _ => .ofCode code
  | _ => .missing

/-- The bytes of a file, or why it cannot be read. -/
def fetch (name : String) : IO (Except ReadFailure (List UInt8)) := do
  try
    return .ok (← IO.FS.readBinFile name).toList
  catch error =>
    return .error (.ofError error)

/-- The bytes of an input up to its end, after those that were read before. -/
partial def fetchInput (input : IO.FS.Stream) (before : ByteArray) : IO (List UInt8) := do
  let bytes ← input.read 65536
  if bytes.isEmpty then return before.toList
  else fetchInput input (before ++ bytes)

/-- Takes in lines as they are typed at a terminal, until the input ends. -/
partial def converse (input : IO.FS.Stream) (transcript : Transcript) : IO Report := do
  transcript.written.flush
  let transcript := { transcript with written := {} }
  IO.print transcript.session.prompt
  (← IO.getStdout).flush
  let line ← input.getLine
  if line.isEmpty then return transcript.report
  else
    match transcript.typeInput line.toUTF8.toList with
    | (after, none) => converse input after
    | (after, some failure) => return after.failInput failure

/-- Takes in what is typed, or the whole input if nobody types. -/
def takeInput (transcript : Transcript) : IO Report := do
  let input ← IO.getStdin
  if ← input.isTty then converse input transcript
  else return runInput transcript (← fetchInput input ByteArray.empty)

def program (arguments : List String) : IO UInt32 := do
  match Options.read arguments with
  | .error halt => halt.report.finish
  | .ok options =>
      match options.command?, options.file? with
      | none, none =>
          let transcript := (Transcript.start options.settings).greet !options.noBanner
          (← takeInput transcript).finish
      | _, file? =>
          let content ← fetch (file?.getD "")
          (runOptions options (fun _ => content) []).finish

end Launch
end LineShell

def main (arguments : List String) : IO UInt32 :=
  LineShell.Launch.program arguments
