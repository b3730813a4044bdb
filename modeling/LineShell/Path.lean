import LineShell.Text.Basic

namespace LineShell
namespace Path

/-!
Paths are segments between slashes.  A path is resolved against a working
directory; what lies inside the home directory is written from `~`.
-/

/-- Removes the slashes at the end. -/
def trimSlashes (chars : List Char) : List Char :=
  (chars.reverse.dropWhile (· = '/')).reverse

/-- Writes out a leading `~`. -/
def expand (home path : List Char) : List Char :=
  if path = ['~'] then home
  else
    match ['~', '/'].isPrefixOf? path with
    | some rest => home ++ '/' :: rest
    | none => path

/-- Follows one segment: an empty one and `.` stay, `..` goes up, and any other
goes down.  The segments passed are kept with the last one first. -/
def follow (passed : List (List Char)) (segment : List Char) : List (List Char) :=
  if segment = [] ∨ segment = ['.'] then passed
  else if segment = ['.', '.'] then passed.tail
  else segment :: passed

/-- The segments from the root that a path leads through. -/
def segments (path : List Char) : List (List Char) :=
  ((Text.splitOn '/' path).foldl follow []).reverse

/-- The path from the root with the given segments. -/
def absolute (segments : List (List Char)) : List Char :=
  '/' :: List.intercalate ['/'] segments

/-- Writes a path from the root with `~` in place of the home directory. -/
def abbreviate (home path : List Char) : List Char :=
  let home := trimSlashes home
  if path = home then ['~']
  else
    match home.isPrefixOf? path with
    | some rest => if rest.head? = some '/' then '~' :: rest else path
    | none => path

/-- The path that a target leads to from a working directory, before `~` is put
in place of the home directory. -/
def join (workingDirectory home target : List Char) : List Char :=
  let target := expand home target
  if target.head? = some '/' then target else expand home workingDirectory ++ '/' :: target

def resolve (workingDirectory home target : String) : String :=
  String.ofList <|
    abbreviate home.toList <|
      absolute (segments (join workingDirectory.toList home.toList target.toList))

end Path
end LineShell
