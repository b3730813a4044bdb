namespace LineShell
namespace Text

/-!
Blank characters are those with the Unicode property `White_Space`.  Control
separators (U+001C to U+001F), the zero width space and the byte order mark do
not have it.
-/

/-- Inclusive ranges of the code points with the property `White_Space`. -/
def blankRanges : List (Nat × Nat) :=
  [(0x0009, 0x000D), (0x0020, 0x0020), (0x0085, 0x0085), (0x00A0, 0x00A0), (0x1680, 0x1680),
   (0x2000, 0x200A), (0x2028, 0x2029), (0x202F, 0x202F), (0x205F, 0x205F), (0x3000, 0x3000)]

def isBlank (char : Char) : Bool :=
  blankRanges.any fun (first, last) => first ≤ char.toNat && char.toNat ≤ last

/-- Removes the blank characters at both ends. -/
def trim (chars : List Char) : List Char :=
  ((chars.dropWhile isBlank).reverse.dropWhile isBlank).reverse

/-- Removes the spaces (U+0020 only) at the start. -/
def skipSpaces (chars : List Char) : List Char :=
  chars.dropWhile (· = ' ')

end Text
end LineShell
