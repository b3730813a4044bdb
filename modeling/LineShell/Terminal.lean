import LineShell.Path

namespace LineShell

/-!
The terminal is what a session knows of its surroundings: who uses it, on which
device, in which directory, and how lines are taken in.
-/

/-- The settings that a session starts with. -/
structure Settings where
  user : String := "user"
  device : String := "termish"
  workingDirectory : String := "~"
  /-- The directory that holds the home directories. -/
  homeRoot : String := "/home"
  banner : String := "Welcome to termish!\nType `help` to list the available commands."
  deriving DecidableEq, Repr

/-- What the next line is for: commands, or the answer to a question. -/
inductive InputMode where
  | command
  | answer
  deriving DecidableEq, Repr

/-- The surroundings of a session. -/
structure Terminal where
  user : String
  device : String
  workingDirectory : String
  /-- The home directory, if one is known. -/
  home? : Option String
  /-- Whether lines are shown in the journal before they run. -/
  echo : Bool
  mode : InputMode
  /-- Whether a line may be typed. -/
  canType : Bool
  banner : String
  homeRoot : String
  deriving DecidableEq, Repr

namespace Terminal

def homeOf (homeRoot user : String) : String :=
  String.ofList (Path.trimSlashes homeRoot.toList) ++ "/" ++ user

/-- Changes the user, and with the user the home directory. -/
def setUser (terminal : Terminal) (user : String) : Terminal :=
  { terminal with user, home? := some (homeOf terminal.homeRoot user) }

def ofSettings (settings : Settings) : Terminal :=
  setUser
    { user := "", device := settings.device, workingDirectory := settings.workingDirectory
      home? := none, echo := true, mode := .command, canType := true, banner := settings.banner
      homeRoot := settings.homeRoot }
    settings.user

/-- The home directory, which is the root if none is known. -/
def home (terminal : Terminal) : String :=
  terminal.home?.getD "/"

/-- Goes to a directory; without a target, home. -/
def changeDirectory (terminal : Terminal) (target? : Option String) : Terminal :=
  { terminal with
    workingDirectory :=
      match target? with
      | some target => Path.resolve terminal.workingDirectory terminal.home target
      | none => "~" }

def prompt (terminal : Terminal) : String :=
  terminal.user ++ "@" ++ terminal.device ++ ":" ++ terminal.workingDirectory ++ "$ "

end Terminal
end LineShell
