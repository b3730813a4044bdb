import LineShell.Text.Basic
import LineShell.Value

namespace LineShell

/-!
Variables keep the order in which they came into being.  Writing to one that is
there keeps its place; writing the empty text removes it.
-/

/-- The variables of a session, the oldest first. -/
structure Bindings where
  entries : List (String × Value)

namespace Bindings

def empty : Bindings :=
  { entries := [] }

/-- Replaces the value of a name in its place, or adds the name at the end. -/
def put (name : String) (value : Value) : List (String × Value) -> List (String × Value)
  | [] => [(name, value)]
  | entry :: entries =>
      if entry.1 = name then (name, value) :: entries else entry :: put name value entries

def set (bindings : Bindings) (name : String) (value : Value) : Bindings :=
  if value.isUnset then { entries := bindings.entries.filter fun entry => entry.1 ≠ name }
  else { entries := put name value bindings.entries }

/-- Reads a variable; one that is not there reads as the empty text. -/
def get (bindings : Bindings) (name : String) : Value :=
  (bindings.entries.lookup name).getD .empty

def contains (bindings : Bindings) (name : String) : Bool :=
  (bindings.entries.lookup name).isSome

theorem lookup_put (name other : String) (value : Value) (entries : List (String × Value)) :
    (put name value entries).lookup other
      = if other = name then some value else entries.lookup other := by
  induction entries with
  | nil =>
      simp only [put, List.lookup_cons, List.lookup_nil]
      split <;> simp_all
  | cons entry entries ih =>
      simp only [put]
      split <;> grind

theorem lookup_filter_ne (name other : String) (entries : List (String × Value)) :
    (entries.filter fun entry => entry.1 ≠ name).lookup other
      = if other = name then none else entries.lookup other := by
  induction entries with
  | nil => simp only [List.filter_nil, List.lookup_nil, ite_self]
  | cons entry entries ih => grind

/-- Writing a variable is read back, also where it removes the variable, and
leaves the values of the others alone. -/
theorem get_set (bindings : Bindings) (name other : String) (value : Value) :
    (bindings.set name value).get other
      = if other = name then value else bindings.get other := by
  simp only [set, get]
  split
  · rename_i unset
    have isEmpty : value = .empty := by
      cases value <;> simp_all [Value.isUnset, Value.empty]
    simp only [lookup_filter_ne, isEmpty]
    split <;> rfl
  · simp only [lookup_put]
    split <;> rfl

def size (bindings : Bindings) : Nat :=
  bindings.entries.length

def isEmpty (bindings : Bindings) : Bool :=
  bindings.entries.isEmpty

/-- The width of the column of names in the table of variables.  Widths are
counted in bytes. -/
def columnWidth (bindings : Bindings) : Nat :=
  (bindings.entries.map fun entry => entry.1.utf8ByteSize + 4).foldl max 16

def row (width : Nat) (entry : String × Value) : String :=
  "- " ++ entry.1 ++ Text.spaces (width - entry.1.utf8ByteSize) ++ entry.2.render

/-- The table of variables: a header, a row for each variable, and an empty
line. -/
def table (bindings : Bindings) : List String :=
  let width := bindings.columnWidth
  ("name" ++ Text.spaces (width - 4) ++ "value") :: bindings.entries.map (row width) ++ [""]

/-- All variables in one text, as names and values. -/
def summary (bindings : Bindings) : String :=
  String.intercalate "&" (bindings.entries.map fun entry => entry.1 ++ "=" ++ entry.2.render)

end Bindings
end LineShell
