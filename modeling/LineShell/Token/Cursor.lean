import LineShell.Fault
import LineShell.Text.Basic
import LineShell.Text.Blank
import LineShell.Token.Scan

namespace LineShell
namespace Token

/-!
A cursor walks over a line token by token.  Spaces between tokens are skipped;
a rest of the line that is wholly blank is the end of the line, and stays it.
-/

/-- A place in a line: the characters still to read, and the number of bytes
before them. -/
structure Cursor where
  rest : List Char
  offset : Nat
  deriving DecidableEq, Repr

namespace Cursor

def skipSpaces (cursor : Cursor) : Cursor :=
  { rest := Text.skipSpaces cursor.rest
    offset := cursor.offset + run (· = ' ') cursor.rest }

/-- The cursor at the first token of a line. -/
def start (line : String) : Cursor :=
  skipSpaces { rest := line.toList, offset := 0 }

/-- The kind of the next token and the number of its characters. -/
def ahead (cursor : Cursor) : Except Fault (Kind × Nat) :=
  if cursor.rest.all Text.isBlank then .ok (.endOfLine, cursor.rest.length)
  else
    match scan? cursor.rest with
    | some found => .ok found
    | none => .error (.lexical (cursor.rest.headD ' ') cursor.offset)

/-- The token made of the next characters. -/
def token (cursor : Cursor) (kind : Kind) (length : Nat) : Token :=
  let chars := cursor.rest.take length
  { kind, text := String.ofList chars
    span := { start := cursor.offset, stop := cursor.offset + Text.byteSize chars } }

/-- Moves past a token and the spaces after it. -/
def advance (cursor : Cursor) (length : Nat) : Cursor :=
  skipSpaces
    { rest := cursor.rest.drop length
      offset := cursor.offset + Text.byteSize (cursor.rest.take length) }

def peek (cursor : Cursor) : Except Fault Token :=
  cursor.ahead.map fun (kind, length) => cursor.token kind length

def next (cursor : Cursor) : Except Fault (Token × Cursor) :=
  cursor.ahead.map fun (kind, length) => (cursor.token kind length, cursor.advance length)

/-- How reading a line to its end came out: the tokens read, the cursor where
reading stopped, and the fault that stopped it before the end of the line. -/
structure Reading where
  tokens : List Token
  cursor : Cursor
  fault : Option Fault

theorem advance_shorter {cursor : Cursor} {kind : Kind} {length : Nat}
    (found : cursor.ahead = .ok (kind, length)) (going : kind ≠ .endOfLine) :
    (cursor.advance length).rest.length < cursor.rest.length := by
  simp only [ahead] at found
  split at found
  · simp only [Except.ok.injEq, Prod.mk.injEq] at found
    exact absurd found.1.symm going
  · rename_i notBlank
    have nonempty : 0 < cursor.rest.length := by
      cases shape : cursor.rest with
      | nil => simp only [shape, List.all_nil, not_true] at notBlank
      | cons => simp only [List.length_cons]; omega
    split at found
    · rename_i scanned
      obtain rfl := Except.ok.inj found
      have positive := scan?_pos scanned
      have skipped := (List.dropWhile_sublist (l := cursor.rest.drop length) (· = ' ')).length_le
      simp only [List.length_drop] at skipped
      simp only [advance, skipSpaces, Text.skipSpaces]
      omega
    · cases found

/-- Reads tokens up to the end of the line, which is the last of them, or up to
a fault.  The tokens in `taken` were read before, the latest first. -/
def readFrom (taken : List Token) (cursor : Cursor) : Reading :=
  match found : cursor.ahead with
  | .error fault => { tokens := taken.reverse, cursor, fault := some fault }
  | .ok (kind, length) =>
      let taken := cursor.token kind length :: taken
      if going : kind = .endOfLine then
        { tokens := taken.reverse, cursor := cursor.advance length, fault := none }
      else
        have := advance_shorter found going
        readFrom taken (cursor.advance length)
termination_by cursor.rest.length

def read (cursor : Cursor) : Reading :=
  cursor.readFrom []

end Cursor
end Token
end LineShell
