import LineShell.Text.Basic

namespace LineShell
namespace Launch

/-!
Files are named by paths through directories.  A path is followed from the
working directory, or from the root if it starts with a slash.
-/

/-- Why a file could not be read. -/
inductive ReadFailure where
  | missing
  | denied
  | notADirectory
  | isDirectory
  | nameTooLong
  | notText
  deriving DecidableEq, Repr

namespace ReadFailure

def message : ReadFailure -> String
  | .missing => "No such file or directory (os error 2)"
  | .denied => "Permission denied (os error 13)"
  | .notADirectory => "Not a directory (os error 20)"
  | .isDirectory => "Is a directory (os error 21)"
  | .nameTooLong => "File name too long (os error 36)"
  | .notText => "stream did not contain valid UTF-8"

end ReadFailure

/-- Bytes as a text. -/
def decode (bytes : List UInt8) : Except ReadFailure String :=
  match String.fromUTF8? (ByteArray.mk bytes.toArray) with
  | some text => .ok text
  | none => .error .notText

/-- What a name stands for. -/
inductive Node where
  | file (content : List UInt8)
  | directory (entries : List (String × Node))

namespace Node

/-- Puts a file at a path, with the directories that lead to it. -/
def insert (path : List String) (content : List UInt8) (node : Node) : Node :=
  match path with
  | [] => .file content
  | name :: path =>
      match node with
      | .file other => .file other
      | .directory entries =>
          let inner := ((entries.lookup name).getD (.directory [])).insert path content
          .directory ((name, inner) :: entries.filter fun entry => entry.1 ≠ name)

end Node

/-- The greatest number of bytes in a name. -/
def maxNameSize : Nat := 255

/-- The greatest number of bytes in a path. -/
def maxPathSize : Nat := 4095

def pathNames (path : String) : List String :=
  (Text.splitOn '/' path.toList).map String.ofList

/-- A place among the files: what is there, and the directories that lead to it,
the root last. -/
structure Place where
  node : Node
  above : List Node

namespace Place

def root (place : Place) : Place :=
  { node := place.above.getLastD place.node, above := [] }

/-- Goes up to the directory above.  The root has none. -/
def up (place : Place) : Place :=
  match place.above with
  | [] => place
  | node :: above => { node, above }

/-- Follows one name of a path, for which the place has to be a directory. -/
def follow (place : Place) (name : String) : Except ReadFailure Place :=
  match place.node with
  | .file _ => .error .notADirectory
  | .directory entries =>
      if name = "" ∨ name = "." then .ok place
      else if name = ".." then .ok place.up
      else if maxNameSize < name.utf8ByteSize then .error .nameTooLong
      else
        match entries.lookup name with
        | some node => .ok { node, above := place.node :: place.above }
        | none => .error .missing

/-- The place that a path leads to. -/
def find (place : Place) (path : String) : Except ReadFailure Place :=
  if path = "" then .error .missing
  else if maxPathSize < path.utf8ByteSize then .error .nameTooLong
  else
    let start := if path.toList.head? = some '/' then place.root else place
    (pathNames path).foldlM follow start

/-- The bytes of the file that a path leads to. -/
def read (place : Place) (path : String) : Except ReadFailure (List UInt8) := do
  match (← place.find path).node with
  | .file content => .ok content
  | .directory _ => .error .isDirectory

end Place
end Launch
end LineShell
