namespace LineShell
namespace Text

/-!
Text is read as a list of characters.  Positions in a line are counted in the
bytes of its UTF-8 form, so every width below is a sum of character sizes.
-/

/-- The number of bytes that the characters take in UTF-8. -/
def byteSize (chars : List Char) : Nat :=
  chars.foldr (fun char size => char.utf8Size + size) 0

@[simp]
theorem byteSize_nil : byteSize [] = 0 := rfl

@[simp]
theorem byteSize_cons (first : Char) (rest : List Char) :
    byteSize (first :: rest) = first.utf8Size + byteSize rest := rfl

@[simp]
theorem byteSize_append (left right : List Char) :
    byteSize (left ++ right) = byteSize left + byteSize right := by
  induction left with
  | nil => rw [List.nil_append, byteSize_nil, Nat.zero_add]
  | cons first rest ih => rw [List.cons_append, byteSize_cons, byteSize_cons, ih, Nat.add_assoc]

theorem byteSize_eq (chars : List Char) :
    byteSize chars = (String.ofList chars).utf8ByteSize := by
  induction chars with
  | nil => rfl
  | cons first rest ih =>
      have split : String.ofList (first :: rest)
          = String.singleton first ++ String.ofList rest := by
        apply String.toList_inj.mp
        simp
      rw [byteSize_cons, ih, split, String.utf8ByteSize_append]
      simp

theorem byteSize_toList (text : String) : byteSize text.toList = text.utf8ByteSize := by
  rw [byteSize_eq, String.ofList_toList]

theorem byteSize_pos {chars : List Char} (nonempty : chars ≠ []) : 0 < byteSize chars := by
  cases chars with
  | nil => exact absurd rfl nonempty
  | cons first rest => exact Nat.add_pos_left first.utf8Size_pos _

/-- The pieces between occurrences of the separator; there is one more piece
than there are separators. -/
def splitOn {α : Type} [DecidableEq α] (separator : α) (items : List α) : List (List α) :=
  items.foldr
    (fun item pieces =>
      if item = separator then [] :: pieces else (item :: pieces.headD []) :: pieces.tail)
    [[]]

/-- The items before and after the first occurrence of the separator. -/
def splitOnce {α : Type} [DecidableEq α] (separator : α) (items : List α) :
    Option (List α × List α) :=
  match items.dropWhile (· ≠ separator) with
  | [] => none
  | _ :: rest => some (items.takeWhile (· ≠ separator), rest)

theorem splitOnce_append {α : Type} [DecidableEq α] {separator : α} {before : List α}
    (absent : separator ∉ before) (rest : List α) :
    splitOnce separator (before ++ separator :: rest) = some (before, rest) := by
  have apart : ∀ item ∈ before, decide (item ≠ separator) = true := by
    intro item member
    apply decide_eq_true
    rintro rfl
    exact absent member
  have front : (before ++ separator :: rest).takeWhile (· ≠ separator) = before := by
    rw [List.takeWhile_append_of_pos apart]
    simp
  have back : (before ++ separator :: rest).dropWhile (· ≠ separator) = separator :: rest := by
    rw [List.dropWhile_append_of_pos apart]
    simp
  rw [splitOnce, back, front]

/-- Puts other characters in the place of every occurrence of a character. -/
def replace (char : Char) (replacement : List Char) (chars : List Char) : List Char :=
  chars.flatMap fun other => if other = char then replacement else [other]

/-- Removes one item from the end, if it is the given one. -/
def dropEnd {α : Type} [DecidableEq α] (item : α) (items : List α) : List α :=
  if items.getLast? = some item then items.dropLast else items

/-- The lines of a text in any alphabet.  A newline ends a line and takes a
carriage return before it along; a last line without a newline is kept as it
stands, unless it is empty. -/
def linesBy {α : Type} [DecidableEq α] (newline carriageReturn : α) (items : List α) :
    List (List α) :=
  let pieces := splitOn newline items
  let last := pieces.getLastD []
  pieces.dropLast.map (dropEnd carriageReturn) ++ if last.isEmpty then [] else [last]

def lines (chars : List Char) : List (List Char) :=
  linesBy '\n' '\r' chars

def spaces (count : Nat) : String :=
  String.ofList (List.replicate count ' ')

end Text
end LineShell
