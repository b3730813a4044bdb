import LineShell.Text.Basic

namespace LineShell
namespace Text
namespace Quoted

/-!
Quoted text stands between double quotes.  Inside, a backslash makes the
character after it stand for itself.
-/

/-- Writes a backslash before every backslash, and then before every quote.  The
other way round, the backslashes before quotes would be doubled too. -/
def escape (chars : List Char) : List Char :=
  replace '"' ['\\', '"'] (replace '\\' ['\\', '\\'] chars)

/-- Resolves backslashes; one that ends the text stands for itself. -/
def unescape (chars : List Char) : List Char :=
  match chars with
  | [] => []
  | char :: rest =>
      if char = '\\' then
        match rest with
        | [] => ['\\']
        | escaped :: rest => escaped :: unescape rest
      else char :: unescape rest

/-- The text between quotes, if the characters are quoted. -/
def inner? (chars : List Char) : Option (List Char) :=
  match chars with
  | first :: rest =>
      if first = '"' ∧ rest.getLast? = some '"' then some rest.dropLast else none
  | [] => none

/-- Reads a quoted text; a text without its two quotes is returned as it is. -/
def decode (text : String) : String :=
  match inner? text.toList with
  | some chars => String.ofList (unescape chars)
  | none => text

/-- Writes a text between quotes, so that `decode` gives it back. -/
def encode (text : String) : String :=
  String.ofList ('"' :: escape text.toList ++ ['"'])

/-- The second pass leaves alone what the first one has written, so both together
write each character once. -/
theorem escape_eq_flatMap (chars : List Char) :
    escape chars
      = chars.flatMap fun char => if char = '"' ∨ char = '\\' then ['\\', char] else [char] := by
  rw [escape, replace, replace, List.flatMap_assoc]
  congr 1
  funext char
  by_cases backslash : char = '\\'
  · rw [if_pos backslash, if_pos (.inr backslash), backslash]
    rfl
  · rw [if_neg backslash, List.flatMap_singleton]
    by_cases quote : char = '"'
    · rw [if_pos quote, if_pos (.inl quote), quote]
    · rw [if_neg quote, if_neg (not_or.mpr ⟨quote, backslash⟩)]

theorem escape_cons (char : Char) (rest : List Char) :
    escape (char :: rest)
      = (if char = '"' ∨ char = '\\' then ['\\', char] else [char]) ++ escape rest := by
  rw [escape_eq_flatMap, List.flatMap_cons, ← escape_eq_flatMap]

theorem unescape_escape (chars : List Char) : unescape (escape chars) = chars := by
  induction chars with
  | nil => rfl
  | cons char rest ih =>
      rw [escape_cons]
      split
      · simp only [List.cons_append, List.nil_append, unescape, if_true, ih]
      · rename_i plain
        have notBackslash : char ≠ '\\' := fun equal => plain (Or.inr equal)
        rw [List.cons_append, List.nil_append, unescape.eq_def]
        simp only [notBackslash, if_false, ih]

theorem inner?_quoted (chars : List Char) : inner? ('"' :: (chars ++ ['"'])) = some chars := by
  simp only [inner?, List.getLast?_append, List.getLast?_singleton, Option.some_or, and_self,
    if_true, List.dropLast_concat]

/-- Writing a text between quotes loses nothing of it. -/
theorem decode_encode (text : String) : decode (encode text) = text := by
  simp only [decode, encode, String.toList_ofList, List.cons_append, inner?_quoted,
    unescape_escape, String.ofList_toList]

end Quoted
end Text
end LineShell
