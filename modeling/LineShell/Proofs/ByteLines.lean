import Mathlib.Data.List.Induction
import LineShell.Launch.Input
import LineShell.Proofs.Resolution

namespace LineShell

/-!
# The lines of a text and of its bytes

What is typed comes as bytes, and is divided into lines before anything is known
of its characters.  That gives the lines of the text, because the bytes of a
newline and of a carriage return occur in the bytes of no other character.  So a
text without backspaces is taken in line by line as it stands.
-/

namespace Text

variable {α β : Type} [DecidableEq α] [DecidableEq β]

/-- The item is written as the mark, which occurs in the writing of no other
item. -/
structure IsMark (spell : α -> List β) (item : α) (mark : β) : Prop where
  spell_eq : spell item = [mark]
  not_mem : ∀ other, other ≠ item -> mark ∉ spell other

theorem splitOn_append_of_not_mem {separator : α} {front : List α} (absent : separator ∉ front)
    (back : List α) :
    splitOn separator (front ++ back)
      = (front ++ (splitOn separator back).headD []) :: (splitOn separator back).tail := by
  induction front with
  | nil =>
      rcases exists_splitOn separator back with ⟨first, others, pieces⟩
      rw [List.nil_append, pieces]
      rfl
  | cons item front ih =>
      rw [List.mem_cons, not_or] at absent
      rw [List.cons_append, splitOn_cons, if_neg (Ne.symm absent.1), ih absent.2]
      rfl

theorem dropEnd_concat (item : α) (front : List α) : dropEnd item (front ++ [item]) = front := by
  rw [dropEnd, List.getLast?_concat, if_pos rfl, List.dropLast_concat]

theorem dropEnd_append_of_not_mem {item : α} {back : List α} (absent : item ∉ back)
    (nonempty : back ≠ []) (front : List α) : dropEnd item (front ++ back) = front ++ back := by
  rw [dropEnd, List.getLast?_append_of_ne_nil front nonempty, if_neg]
  intro last
  exact absent (List.mem_of_getLast? last)

theorem mem_of_mem_splitOn {separator item : α} {items piece : List α}
    (member : piece ∈ splitOn separator items) (inside : item ∈ piece) : item ∈ items := by
  induction items generalizing piece with
  | nil =>
      rw [List.mem_singleton.mp member] at inside
      exact inside
  | cons head items ih =>
      rcases exists_splitOn separator items with ⟨first, others, pieces⟩
      rw [splitOn_cons, pieces] at member
      rw [pieces] at ih
      split at member
      · rcases List.mem_cons.mp member with rfl | later
        · cases inside
        · exact List.mem_cons_of_mem _ (ih later inside)
      · rcases List.mem_cons.mp member with rfl | later
        · rcases List.mem_cons.mp inside with rfl | behind
          · exact List.mem_cons_self
          · exact List.mem_cons_of_mem _ (ih List.mem_cons_self behind)
        · exact List.mem_cons_of_mem _ (ih (List.mem_cons_of_mem _ later) inside)

theorem mem_of_mem_dropEnd {item other : α} {items : List α} (member : other ∈ dropEnd item items) :
    other ∈ items := by
  rw [dropEnd] at member
  split at member
  · exact (List.dropLast_sublist items).mem member
  · exact member

/-- What stands in a line stands in the text. -/
theorem mem_of_mem_linesBy {newline carriageReturn item : α} {items line : List α}
    (member : line ∈ linesBy newline carriageReturn items) (inside : item ∈ line) :
    item ∈ items := by
  simp only [linesBy, List.mem_append, List.mem_map] at member
  rcases member with ⟨piece, among, rfl⟩ | ending
  · exact mem_of_mem_splitOn ((List.dropLast_sublist _).mem among) (mem_of_mem_dropEnd inside)
  · split at ending
    · cases ending
    · rcases exists_splitOn newline items with ⟨first, others, pieces⟩
      have last : (splitOn newline items).getLastD [] ∈ splitOn newline items := by
        rw [pieces, List.getLastD_eq_getLast?,
          List.getLast?_eq_some_getLast (List.cons_ne_nil first others)]
        exact List.getLast_mem _
      rw [List.mem_singleton.mp ending] at inside
      exact mem_of_mem_splitOn last inside

section Spelling

variable {spell : α -> List β} {newline carriageReturn : α} {newlineMark returnMark : β}

theorem splitOn_flatMap (separates : IsMark spell newline newlineMark) (items : List α) :
    splitOn newlineMark (items.flatMap spell)
      = (splitOn newline items).map (List.flatMap spell) := by
  induction items with
  | nil => rfl
  | cons item items ih =>
      rw [List.flatMap_cons, splitOn_cons]
      split
      · rename_i same
        rw [same, separates.spell_eq, List.singleton_append, splitOn_cons, if_pos rfl, ih]
        rfl
      · rename_i different
        rw [splitOn_append_of_not_mem (separates.not_mem item different), ih, List.map_cons,
          List.flatMap_cons, List.map_tail]
        cases splitOn newline items with
        | nil => rfl
        | cons first others => rfl

variable (spelled : ∀ item, spell item ≠ [])
include spelled

theorem dropEnd_flatMap (returns : IsMark spell carriageReturn returnMark) (items : List α) :
    dropEnd returnMark (items.flatMap spell) = (dropEnd carriageReturn items).flatMap spell := by
  induction items using List.reverseRecOn with
  | nil => rfl
  | append_singleton front last _ =>
      rw [List.flatMap_append, List.flatMap_singleton]
      by_cases same : last = carriageReturn
      · rw [same, returns.spell_eq, dropEnd_concat, dropEnd_concat]
      · have plain : carriageReturn ∉ [last] := by simpa using Ne.symm same
        rw [dropEnd_append_of_not_mem (returns.not_mem last same) (spelled last),
          dropEnd_append_of_not_mem plain (List.cons_ne_nil _ _), List.flatMap_append,
          List.flatMap_singleton]

omit [DecidableEq α] [DecidableEq β] in
theorem flatMap_isEmpty (items : List α) : (items.flatMap spell).isEmpty = items.isEmpty := by
  cases items with
  | nil => rfl
  | cons item items =>
      have first := spelled item
      simp [List.flatMap_cons, first]

/-- The lines of a text that is spelled out are its lines, spelled out. -/
theorem linesBy_flatMap (separates : IsMark spell newline newlineMark)
    (returns : IsMark spell carriageReturn returnMark) (items : List α) :
    linesBy newlineMark returnMark (items.flatMap spell)
      = (linesBy newline carriageReturn items).map (List.flatMap spell) := by
  simp only [linesBy, splitOn_flatMap separates]
  have ended : ((splitOn newline items).map (List.flatMap spell)).getLastD []
      = ((splitOn newline items).getLastD []).flatMap spell :=
    List.getLastD_map (f := List.flatMap spell) (a := [])
  rw [ended, flatMap_isEmpty spelled, List.map_append, List.map_dropLast, List.map_map,
    ← List.map_dropLast, List.map_map]
  congr 1
  · apply List.map_congr_left
    intro piece _
    exact dropEnd_flatMap spelled returns piece
  · split
    · rfl
    · rfl

end Spelling
end Text

/-! ## Bytes -/

namespace Launch

open Text

/-- A byte below 128 stands for the character with its number and occurs in the
bytes of no other. -/
theorem toNat_of_mem_utf8EncodeChar {char : Char} {byte : UInt8} (small : byte.toNat < 128)
    (member : byte ∈ String.utf8EncodeChar char) : char.toNat = byte.toNat := by
  have large : ∀ value, 128 ≤ value -> value < 256 -> byte ≠ UInt8.ofNat value := by
    intro value low high same
    rw [same, UInt8.toNat_ofNat'] at small
    omega
  simp only [String.utf8EncodeChar] at member
  split at member
  · rename_i single
    rw [List.mem_singleton] at member
    rw [member, UInt8.toNat_ofNat']
    exact (Nat.mod_eq_of_lt (Nat.lt_of_le_of_lt single (by decide))).symm
  · -- All bytes of a longer character are 128 or more.
    exfalso
    split at member
    · rcases List.mem_pair.mp member with same | same
      · exact large _ (by omega) (by omega) same
      · exact large _ (by omega) (by omega) same
    · split at member
      · simp only [List.mem_cons, List.not_mem_nil, or_false] at member
        rcases member with same | same | same
        · exact large _ (by omega) (by omega) same
        · exact large _ (by omega) (by omega) same
        · exact large _ (by omega) (by omega) same
      · simp only [List.mem_cons, List.not_mem_nil, or_false] at member
        rcases member with same | same | same | same
        · exact large _ (by omega) (by omega) same
        · exact large _ (by omega) (by omega) same
        · exact large _ (by omega) (by omega) same
        · exact large _ (by omega) (by omega) same

theorem isMark_of_ascii {char : Char} {byte : UInt8}
    (spelled : String.utf8EncodeChar char = [byte]) (small : byte.toNat < 128) :
    IsMark String.utf8EncodeChar char byte where
  spell_eq := spelled
  not_mem other different member := by
    have own := toNat_of_mem_utf8EncodeChar small (spelled ▸ List.mem_singleton_self byte)
    exact different (Char.toNat_inj.mp ((toNat_of_mem_utf8EncodeChar small member).trans own.symm))

theorem linesBy_utf8 (chars : List Char) :
    linesBy 10 13 (chars.flatMap String.utf8EncodeChar)
      = (lines chars).map (List.flatMap String.utf8EncodeChar) := by
  apply linesBy_flatMap
  · intro char
    exact List.ne_nil_of_length_pos (by rw [String.length_utf8EncodeChar]; exact char.utf8Size_pos)
  · exact isMark_of_ascii (by decide) (by decide)
  · exact isMark_of_ascii (by decide) (by decide)

/-- The bytes of a text are read as the text. -/
theorem decode_utf8 (chars : List Char) :
    decode (chars.flatMap String.utf8EncodeChar) = .ok (String.ofList chars) := by
  have bytes : ByteArray.mk (chars.flatMap String.utf8EncodeChar).toArray = chars.utf8Encode := by
    rw [List.utf8Encode, ← List.data_toByteArray]
  rw [decode, bytes, String.fromUTF8?, dif_pos ⟨chars, rfl⟩]
  rfl

/-- A line without backspaces is taken in as it stands. -/
theorem typedLine_utf8 {chars : List Char} (plain : backspace ∉ chars) :
    typedLine (chars.flatMap String.utf8EncodeChar) = .ok (String.ofList chars) := by
  rw [typedLine, decode_utf8]
  simp only [String.toList_ofList, Typed.resolve?, if_neg plain]

/-- The bytes of a text. -/
theorem utf8_toList (text : String) :
    text.toUTF8.data.toList = text.toList.flatMap String.utf8EncodeChar := by
  rw [String.toUTF8_eq_toByteArray, ← String.utf8Encode_toList, List.utf8Encode,
    List.data_toByteArray]

/-- If every line can be taken in, all are. -/
theorem typedLines_of_ok {input : List UInt8} {lines : List String}
    (taken : (linesBy 10 13 input).map typedLine = lines.map .ok) :
    typedLines input = (lines, none) := by
  rw [typedLines, taken]
  clear taken
  induction lines with
  | nil => rfl
  | cons line lines ih =>
      have accepted : lineFailure? (.ok line) = none := rfl
      have found : (Except.ok line : Except InputFailure String).toOption = some line := rfl
      rw [Prod.mk.injEq] at ih ⊢
      simp only [List.map_cons, List.takeWhile_cons, List.filterMap_cons, accepted,
        Option.isNone_none, if_true, found, ih, and_self]

/-- A text without backspaces that is typed is taken in line by line, and nothing
is left over. -/
theorem typedLines_utf8 {text : String} (plain : backspace ∉ text.toList) :
    typedLines text.toUTF8.data.toList = ((lines text.toList).map String.ofList, none) := by
  apply typedLines_of_ok
  rw [utf8_toList, linesBy_utf8, List.map_map, List.map_map]
  apply List.map_congr_left
  intro line member
  exact typedLine_utf8 fun inside => plain (mem_of_mem_linesBy member inside)

end Launch
end LineShell
