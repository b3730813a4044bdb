import LineShell.Terminal

namespace LineShell
namespace Launch

/-!
The options that the program is started with.  Options are read from left to
right; the first one that asks for something else than a session, or that is
wrong, decides.
-/

inductive Switch where
  | command
  | user
  | device
  | noBanner
  | verbose
  | help
  | version
  deriving DecidableEq, Repr

namespace Switch

def takesValue : Switch -> Bool
  | .command | .user | .device => true
  | .noBanner | .verbose | .help | .version => false

def ofName? (name : List Char) : Option Switch :=
  [("command", command), ("user", user), ("device", device), ("no-motd", noBanner),
    ("verbose", verbose), ("help", help), ("version", version)].lookup (String.ofList name)

def ofLetter? (letter : Char) : Option Switch :=
  [('c', command), ('v', verbose), ('h', help), ('V', version)].lookup letter

end Switch

/-- Why no session is started. -/
inductive Halt where
  | usage
  | help
  | version
  deriving DecidableEq, Repr

/-- What the options ask for. -/
structure Options where
  command? : Option String := none
  file? : Option String := none
  user? : Option String := none
  device? : Option String := none
  noBanner : Bool := false
  verbose : Bool := false
  deriving DecidableEq, Repr

namespace Options

/-- Keeps a value that may be given only once. -/
def once (old? : Option String) (value : String) : Except Halt (Option String) :=
  if old?.isSome then .error .usage else .ok (some value)

/-- Takes an option with its value.  No option may be given twice. -/
def take (options : Options) (switch : Switch) (value : String) : Except Halt Options :=
  match switch with
  | .command => do return { options with command? := ← once options.command? value }
  | .user => do return { options with user? := ← once options.user? value }
  | .device => do return { options with device? := ← once options.device? value }
  | .noBanner => if options.noBanner then .error .usage else .ok { options with noBanner := true }
  | .verbose => if options.verbose then .error .usage else .ok { options with verbose := true }
  | .help => .error .help
  | .version => .error .version

def takeFile (options : Options) (file : String) : Except Halt Options := do
  return { options with file? := ← once options.file? file }

/-- Whether an argument is an option, so that it cannot be a value. -/
def isOption (argument : String) : Bool :=
  match argument.toList with
  | '-' :: _ :: _ => true
  | _ => false

/-- Takes a cluster of letters.  The value of an option may follow its letter in
the same argument, with or without an equals sign; a letter at the end that
still needs a value is handed back. -/
def takeLetters (options : Options) : List Char -> Except Halt (Options × Option Switch)
  | [] => .ok (options, none)
  | letter :: rest =>
      match Switch.ofLetter? letter with
      | none => .error .usage
      | some switch =>
          if switch.takesValue then
            match rest with
            | [] => .ok (options, some switch)
            | first :: after => do
                let value := if first = '=' then after else rest
                return (← options.take switch (String.ofList value), none)
          else do
            let options ← options.take switch ""
            takeLetters options rest

/-- Takes a long name, which may have a value after an equals sign; one that
still needs a value is handed back. -/
def takeName (options : Options) (chars : List Char) : Except Halt (Options × Option Switch) :=
  match Switch.ofName? (chars.takeWhile (· ≠ '=')) with
  | none => .error .usage
  | some switch =>
      match chars.dropWhile (· ≠ '='), switch.takesValue with
      | _ :: value, true => do return (← options.take switch (String.ofList value), none)
      | _ :: _, false => .error .usage
      | [], true => .ok (options, some switch)
      | [], false => do return (← options.take switch "", none)

/-- Takes one argument; an option that still needs a value is handed back. -/
def takeArgument (options : Options) (argument : String) :
    Except Halt (Options × Option Switch) :=
  match argument.toList with
  | '-' :: '-' :: name => options.takeName name
  | '-' :: letter :: letters => options.takeLetters (letter :: letters)
  | _ => do return (← options.takeFile argument, none)

/-- Reads arguments after others.  While an option waits for its value, the next
argument must be that value; after two dashes that stand alone, every argument
is the name of a file. -/
def readFrom (options : Options) (waiting : Option Switch) :
    List String -> Except Halt Options
  | [] => if waiting.isSome then .error .usage else .ok options
  | argument :: arguments =>
      match waiting with
      | some switch =>
          if isOption argument then .error .usage
          else do
            let options ← options.take switch argument
            readFrom options none arguments
      | none =>
          if argument = "--" then arguments.foldlM takeFile options
          else do
            let (options, waiting) ← options.takeArgument argument
            readFrom options waiting arguments

def read (arguments : List String) : Except Halt Options :=
  readFrom {} none arguments

def settings (options : Options) : Settings :=
  let default : Settings := {}
  { default with
    user := options.user?.getD default.user
    device := options.device?.getD default.device }

end Options
end Launch
end LineShell
