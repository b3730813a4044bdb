import LineShell.Token.Basic

namespace LineShell
namespace Token

/-!
The token at the start of a text is the longest one that any kind allows.  At
most one kind allows a text of a given length, except that `true` and `false`
are also words; there the boolean wins.
-/

/-- The symbols and their kinds.  Where one symbol starts another, the longer
one stands first. -/
def symbols : List (String × Kind) :=
  [("++", .unary), ("--", .unary), ("<<", .bitwise), (">>", .bitwise),
   ("(", .leftParen), (")", .rightParen), ("\x7b", .leftBrace), ("\x7d", .rightBrace),
   ("[", .leftBracket), ("]", .rightBracket), ("=", .equals), (";", .semicolon), (":", .colon),
   (",", .comma), (".", .dot), ("?", .question), ("$", .dollar), ("+", .additive),
   ("-", .additive), ("*", .multiplicative), ("/", .multiplicative), ("|", .bitwise),
   ("&", .bitwise), ("^", .bitwise), ("~", .unary), ("!", .unary)]

def isWordStart (char : Char) : Bool :=
  char.isAlpha || char = '_'

def isWordPart (char : Char) : Bool :=
  char.isAlphanum || char = '_'

/-- Whether a character can follow the slash that starts a path from the root. -/
def isPathStart (char : Char) : Bool :=
  char.isAlpha || char = '_' || char = '.' || char = '~'

def isPathPart (char : Char) : Bool :=
  char.isAlphanum || char = '_' || char = '.' || char = '~' || char = '/' || char = '-'

/-- The number of characters before the first one that fails the test. -/
def run (test : Char -> Bool) (chars : List Char) : Nat :=
  (chars.takeWhile test).length

/-- The number of characters up to and with the quote that closes a string,
added to `count`.  A backslash hides the character after it, which must not be
a newline. -/
def closingQuote? (count : Nat) (chars : List Char) : Option Nat :=
  match chars with
  | [] => none
  | char :: rest =>
      if char = '"' then some (count + 1)
      else if char = '\\' then
        match rest with
        | [] => none
        | escaped :: rest => if escaped = '\n' then none else closingQuote? (count + 2) rest
      else closingQuote? (count + 1) rest

/-- The length of a number: digits, and after a point more digits. -/
def numberLength (chars : List Char) : Nat :=
  let whole := run Char.isDigit chars
  match chars.drop whole with
  | '.' :: fraction =>
      let places := run Char.isDigit fraction
      if places = 0 then whole else whole + 1 + places
  | _ => whole

/-- The length of a path.  A path starts with `~/`, with `./`, with a slash
before a name, or is `..`, alone or before a slash. -/
def pathLength? (chars : List Char) : Option Nat :=
  match chars with
  | first :: second :: rest =>
      if first = '/' then
        if isPathStart second then some (2 + run isPathPart rest) else none
      else if second = '/' then
        if first = '~' ∨ first = '.' then some (2 + run isPathPart rest) else none
      else if first = '.' ∧ second = '.' then
        match rest with
        | third :: rest => if third = '/' then some (3 + run isPathPart rest) else some 2
        | [] => some 2
      else none
  | _ => none

/-- The length and kind of the longest symbol. -/
def symbol? (chars : List Char) : Option (Kind × Nat) :=
  (symbols.find? fun (symbol, _) => symbol.toList.isPrefixOf chars).map fun (symbol, kind) =>
    (kind, symbol.length)

/-- The kind of a text that has the form of a word. -/
def wordKind (chars : List Char) : Kind :=
  if chars = "true".toList ∨ chars = "false".toList then .boolean else .word

/-- The kind of the token at the start of a text, and the number of its
characters. -/
def scan? (chars : List Char) : Option (Kind × Nat) :=
  match chars with
  | [] => none
  | first :: rest =>
      if first = '"' then (closingQuote? 1 rest).map fun length => (.string, length)
      else if first.isDigit then some (.number, numberLength chars)
      else if isWordStart first then
        let length := run isWordPart chars
        some (wordKind (chars.take length), length)
      else
        match pathLength? chars with
        | some length => some (.path, length)
        | none => symbol? chars

theorem run_pos {test : Char -> Bool} {first : Char} {rest : List Char}
    (passes : test first = true) : 0 < run test (first :: rest) := by
  simp only [run, List.takeWhile_cons, passes, if_true, List.length_cons]
  omega

theorem closingQuote?_gt {count length : Nat} {chars : List Char}
    (found : closingQuote? count chars = some length) : count < length := by
  fun_induction closingQuote? count chars with
  | case2 => simp only [Option.some.injEq] at found; omega
  | case5 count escaped rest _ _ ih => exact Nat.lt_of_le_of_lt (by omega) (ih found)
  | case6 count char rest _ _ ih => exact Nat.lt_of_le_of_lt (by omega) (ih found)
  | _ => cases found

theorem numberLength_pos {first : Char} {rest : List Char} (digit : first.isDigit = true) :
    0 < numberLength (first :: rest) := by
  have positive : 0 < run Char.isDigit (first :: rest) := run_pos digit
  simp only [numberLength]
  split
  · split <;> omega
  · exact positive

theorem pathLength?_pos {chars : List Char} {length : Nat}
    (found : pathLength? chars = some length) : 0 < length := by
  revert found
  fun_cases pathLength? chars <;> simp <;> omega

theorem symbol?_pos {chars : List Char} {kind : Kind} {length : Nat}
    (found : symbol? chars = some (kind, length)) : 0 < length := by
  have nonempty : ∀ entry ∈ symbols, 0 < entry.1.length := by decide
  simp only [symbol?, Option.map_eq_some_iff, Prod.mk.injEq] at found
  obtain ⟨entry, member, -, rfl⟩ := found
  exact nonempty entry (List.mem_of_find?_eq_some member)

/-- A token that the scanner finds has at least one character. -/
theorem scan?_pos {chars : List Char} {kind : Kind} {length : Nat}
    (found : scan? chars = some (kind, length)) : 0 < length := by
  revert found
  fun_cases scan? chars with
  | case1 => simp
  | case2 rest =>
      intro found
      simp only [Option.map_eq_some_iff, Prod.mk.injEq] at found
      obtain ⟨closing, found, -, rfl⟩ := found
      exact Nat.lt_of_le_of_lt (Nat.zero_le 1) (closingQuote?_gt found)
  | case3 first rest _ digit =>
      intro found
      simp only [Option.some.injEq, Prod.mk.injEq] at found
      exact found.2 ▸ numberLength_pos digit
  | case4 first rest _ _ start =>
      intro found
      have part : isWordPart first = true := by
        simp only [isWordStart, Bool.or_eq_true, isWordPart, Char.isAlphanum] at start ⊢
        exact start.imp_left Or.inl
      simp only [Option.some.injEq, Prod.mk.injEq] at found
      exact found.2 ▸ run_pos part
  | case5 first rest _ _ _ length path =>
      intro found
      simp only [path, Option.some.injEq, Prod.mk.injEq] at found
      exact found.2 ▸ pathLength?_pos path
  | case6 first rest _ _ _ noPath =>
      intro found
      simp only [noPath] at found
      exact symbol?_pos found

end Token
end LineShell
