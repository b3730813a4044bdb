import LineShell.Command.Basic

namespace LineShell

/-!
The commands that a name can call.
-/

/-- A command that has a name, with the line that explains it. -/
structure Builtin where
  name : String
  action : Action
  help? : Option String
  deriving DecidableEq, Repr

namespace Builtin

/-- All named commands, in the order in which they are listed to the user. -/
def all : List Builtin :=
  [{ name := "help", action := .help
     help? := some ("the ever helpful help command, helps you get some of that sweet help "
       ++ "when you need it") },
   { name := "echo", action := .echo, help? := some "prints the value to the log" },
   { name := "clear", action := .clear
     help? := some "clears the log, `clear -motd` prints the motd again afterwards" },
   { name := "user", action := .user, help? := some "changes the username" },
   { name := "stack", action := .stack
     help? := some ("provides basic functionality that allows the user to read and write "
       ++ "to the variable stack") },
   { name := "motd", action := .motd, help? := some "print the motd" },
   { name := "cd", action := .cd
     help? := some "changes the working directory, `cd` alone goes home" },
   { name := "test", action := .test, help? := some "runs a few synthetic commands" },
   { name := "yn", action := .confirm, help? := some "asks an example yes or no question" },
   { name := "maybe", action := .confirm, help? := none },
   { name := "license", action := .license
     help? := some "prints the license, after asking nicely" }]

def find? (name : String) : Option Builtin :=
  all.find? fun builtin => builtin.name = name

def names : List String :=
  all.map Builtin.name

end Builtin
end LineShell
