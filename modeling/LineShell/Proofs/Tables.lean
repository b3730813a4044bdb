import LineShell.Session.Line
import LineShell.Proofs.Steps
import LineShell.Proofs.Tiling
import Mathlib.Order.Bounds.Basic

namespace LineShell

/-!
# The table of variables

The table has a column of names and a column of values.  The width of the first
column is counted in bytes, as are the names that are set into it, so the values
stand under each other however many bytes the characters of a name take.  Between
a name and its value there is room for some spaces, and where these cannot be
mistaken for a part of the name or of the value, the table can be read back.
-/

namespace Bindings

/-! ## The width of a column -/

theorem foldl_max_isGreatest (sizes : List Nat) (least : Nat) :
    IsGreatest {size | size = least ∨ size ∈ sizes} (sizes.foldl max least) := by
  induction sizes generalizing least with
  | nil =>
      constructor
      · exact .inl rfl
      · rintro size (rfl | member)
        · exact Nat.le_refl _
        · exact absurd member List.not_mem_nil
  | cons first others ih =>
      rw [List.foldl_cons]
      rcases ih (max least first) with ⟨reached, bounds⟩
      constructor
      · rcases reached with started | later
        · rw [started]
          rcases Nat.le_total least first with shorter | longer
          · rw [Nat.max_eq_right shorter]
            exact .inr List.mem_cons_self
          · rw [Nat.max_eq_left longer]
            exact .inl rfl
        · exact .inr (List.mem_cons_of_mem first later)
      · have started : max least first ≤ others.foldl max (max least first) := bounds (.inl rfl)
        rintro size (rfl | member)
        · exact (Nat.le_max_left _ _).trans started
        · rcases List.mem_cons.mp member with rfl | later
          · exact (Nat.le_max_right _ _).trans started
          · exact bounds (.inr later)

/-- The column is as wide as the longest name with four spaces, and no narrower
than 16 bytes. -/
theorem columnWidth_isGreatest (bindings : Bindings) :
    IsGreatest {size | size = 16 ∨ ∃ entry ∈ bindings.entries, entry.1.utf8ByteSize + 4 = size}
      bindings.columnWidth := by
  have greatest := foldl_max_isGreatest
    (bindings.entries.map fun entry => entry.1.utf8ByteSize + 4) 16
  simp only [List.mem_map] at greatest
  exact greatest

theorem le_columnWidth (bindings : Bindings) : 16 ≤ bindings.columnWidth :=
  (columnWidth_isGreatest bindings).2 (.inl rfl)

theorem name_le_columnWidth {bindings : Bindings} {entry : String × Value}
    (member : entry ∈ bindings.entries) : entry.1.utf8ByteSize + 4 ≤ bindings.columnWidth :=
  (columnWidth_isGreatest bindings).2 (.inr ⟨entry, member, rfl⟩)

/-! ## Columns -/

/-- A line with two columns: the second one starts at a byte, and at least four
spaces stand before it. -/
def Columns (left right : String) (place : Nat) (line : String) : Prop :=
  ∃ gap, 4 ≤ gap ∧ line = left ++ Text.spaces gap ++ right
    ∧ (left ++ Text.spaces gap).utf8ByteSize = place

theorem utf8ByteSize_spaces (count : Nat) : (Text.spaces count).utf8ByteSize = count := by
  rw [Text.spaces, ← Text.byteSize_eq, Text.byteSize_replicate_space]

theorem columns_pad {left : String} (right : String) {place : Nat}
    (room : left.utf8ByteSize + 4 ≤ place) :
    Columns left right place
      (left ++ Text.spaces (place - left.utf8ByteSize) ++ right) := by
  refine ⟨place - left.utf8ByteSize, by omega, rfl, ?_⟩
  rw [String.utf8ByteSize_append, utf8ByteSize_spaces]
  omega

theorem columns_row {width : Nat} {entry : String × Value}
    (room : entry.1.utf8ByteSize + 4 ≤ width) :
    Columns ("- " ++ entry.1) entry.2.render (width + 2) (row width entry) := by
  have dash : ("- " ++ entry.1).utf8ByteSize = 2 + entry.1.utf8ByteSize :=
    String.utf8ByteSize_append
  have roomBehind : ("- " ++ entry.1).utf8ByteSize + 4 ≤ width + 2 := by omega
  have padded := columns_pad entry.2.render roomBehind
  have gap : width + 2 - ("- " ++ entry.1).utf8ByteSize = width - entry.1.utf8ByteSize := by omega
  rw [gap] at padded
  exact padded

/-! ## Reading a table -/

/-- Reads a row of a table: a name up to the first space, and a value from the
first character behind the spaces. -/
def readRow (line : String) : String × String :=
  let chars := line.toList.drop 2
  (String.ofList (chars.takeWhile (· ≠ ' ')),
    String.ofList ((chars.dropWhile (· ≠ ' ')).dropWhile (· = ' ')))

/-- Reads the rows of a table, which stand between its header and its last line. -/
def readTable (lines : List String) : List (String × String) :=
  lines.tail.dropLast.map readRow

/-- A variable that can be read off its row: its name has no spaces, and the text
of its value does not begin with one. -/
structure Readable (entry : String × Value) : Prop where
  name : ' ' ∉ entry.1.toList
  value : entry.2.render.toList.head? ≠ some ' '

theorem readRow_columns {name value line : String} {place : Nat} (named : ' ' ∉ name.toList)
    (visible : value.toList.head? ≠ some ' ') (columns : Columns ("- " ++ name) value place line) :
    readRow line = (name, value) := by
  rcases columns with ⟨gap, room, rfl, _⟩
  have spaces : (Text.spaces gap).toList = List.replicate gap ' ' := String.toList_ofList
  have text : (("- " ++ name ++ Text.spaces gap ++ value).toList).drop 2
      = name.toList ++ (List.replicate gap ' ' ++ value.toList) := by
    rw [String.toList_append, String.toList_append, String.toList_append, spaces,
      List.append_assoc, List.append_assoc]
    rfl
  have inName : ∀ char ∈ name.toList, decide (char ≠ ' ') = true := by
    intro char member
    apply decide_eq_true
    rintro rfl
    exact named member
  have inGap : ∀ char ∈ List.replicate gap ' ', decide (char = ' ') = true :=
    fun char member => decide_eq_true (List.eq_of_mem_replicate member)
  have stops : (List.replicate gap ' ' ++ value.toList).takeWhile (· ≠ ' ') = []
      ∧ (List.replicate gap ' ' ++ value.toList).dropWhile (· ≠ ' ')
        = List.replicate gap ' ' ++ value.toList := by
    obtain ⟨more, rfl⟩ : ∃ more, gap = more + 1 := ⟨gap - 1, by omega⟩
    exact ⟨rfl, rfl⟩
  have shown : value.toList.dropWhile (· = ' ') = value.toList := by
    cases shape : value.toList with
    | nil => rfl
    | cons first others =>
        apply List.dropWhile_cons_of_neg
        intro space
        rw [shape, of_decide_eq_true space] at visible
        exact visible rfl
  rw [readRow, text, List.takeWhile_append_of_pos inName, List.dropWhile_append_of_pos inName,
    stops.1, stops.2, List.dropWhile_append_of_pos inGap, shown, List.append_nil, String.ofList_toList,
    String.ofList_toList]

theorem readTable_table {bindings : Bindings}
    (readable : ∀ entry ∈ bindings.entries, Readable entry) :
    readTable bindings.table = bindings.entries.map fun entry => (entry.1, entry.2.render) := by
  rw [readTable, table, List.cons_append, List.tail_cons, List.dropLast_concat, List.map_map]
  apply List.map_congr_left
  intro entry member
  have isReadable := readable entry member
  exact readRow_columns isReadable.name isReadable.value (columns_row (name_le_columnWidth member))

end Bindings

/-! ## Commands that show and remove variables -/

namespace SessionM

/-- A command that lists the variables, or removes them, by its first argument. -/
def IsStack (verb : String) (command : Command) : Prop :=
  command.action = .stack ∧ Command.text? command.parameters 0 = some verb

theorem execute_stack {verb : String} {command : Command} (isStack : IsStack verb command)
    (other : verb ≠ "set") (piping : Bool) :
    execute piping command = inspectVariables piping command.parameters := by
  rcases command with ⟨name, action, parameters, span⟩
  rcases isStack with ⟨rfl, isVerb⟩
  rw [execute, executeWith]
  dsimp only at isVerb ⊢
  rw [isVerb, if_neg fun same => other (Option.some.inj same)]

theorem execute_flush {command : Command} (isFlush : IsStack "flush" command) (piping : Bool)
    (session : Session) :
    execute piping command session = .ok (.value .empty) { session with bindings := .empty } := by
  rw [execute_stack isFlush (by decide), inspectVariables, isFlush.2]
  rfl

theorem forM_log (messages : List String) (session : Session) :
    messages.forM log session
      = .ok () (messages.foldl (fun session message => session.note .info message) session) := by
  induction messages generalizing session with
  | nil => rfl
  | cons first others ih => exact ih (session.note .info first)

/-- Listing the variables logs the lines of their table. -/
theorem execute_list {command : Command} (isList : IsStack "list" command) (session : Session) :
    execute false command session
      = .ok (.value .empty)
          (session.bindings.table.foldl (fun session message => session.note .info message)
            session) := by
  rw [execute_stack isList (by decide), inspectVariables, isList.2]
  exact Steps.bind_of_ok (forM_log session.bindings.table session) _

end SessionM

namespace Bindings

/-- The table of variables is a header, a row for each variable and an empty line.
Its values stand under each other, at a byte that leaves room for the longest name,
so that what is taken off the width is never more than it; and it can be read back,
unless spaces in names or at the start of values get in the way.  Once the variables
are removed, whatever they were, listing them logs a table without rows. -/
theorem table_aligned :
    (∀ bindings : Bindings,
      let width := bindings.columnWidth
      IsGreatest {size | size = 16 ∨ ∃ entry ∈ bindings.entries, entry.1.utf8ByteSize + 4 = size}
          width
        ∧ (∃ header rows, bindings.table = header :: rows ++ [""]
          ∧ Columns "name" "value" width header
          ∧ List.Forall₂
              (fun entry row => Columns ("- " ++ entry.1) entry.2.render (width + 2) row)
              bindings.entries rows)
        ∧ 4 ≤ width
        ∧ (∀ entry ∈ bindings.entries, entry.1.utf8ByteSize ≤ width)
        ∧ ((∀ entry ∈ bindings.entries, Readable entry) ->
            readTable bindings.table
              = bindings.entries.map fun entry => (entry.1, entry.2.render)))
    ∧ ∀ (session : Session) (piping : Bool) (flush list : Command),
        SessionM.IsStack "flush" flush -> SessionM.IsStack "list" list ->
          (SessionM.execute piping flush >>= fun _ => SessionM.execute false list) session
            = .ok (.value .empty)
                (({ session with bindings := .empty }.note .info "name            value").note
                  .info "") := by
  constructor
  · intro bindings width
    have wide := le_columnWidth bindings
    have header : "name".utf8ByteSize = 4 := rfl
    refine ⟨columnWidth_isGreatest bindings, ?_, by omega, ?_, readTable_table⟩
    · refine ⟨_, _, rfl, columns_pad _ (by omega), ?_⟩
      rw [List.forall₂_map_right_iff, List.forall₂_same]
      exact fun entry member => columns_row (name_le_columnWidth member)
    · intro entry member
      have fits := name_le_columnWidth member
      omega
  · intro session piping flush list isFlush isList
    rw [Steps.bind_of_ok (SessionM.execute_flush isFlush piping session),
      SessionM.execute_list isList]
    rfl

theorem table_aligned_umlaut :
    let bindings : Bindings := { entries := [("größe", .text "a  b"), ("x", .list [])] }
    let flush : Command :=
      { name := "stack", action := .stack, parameters := [.word "flush"], span := ⟨0, 11⟩ }
    let list : Command :=
      { name := "stack", action := .stack, parameters := [.word "list"], span := ⟨13, 23⟩ }
    (∀ entry ∈ bindings.entries, Readable entry)
      ∧ readTable bindings.table = [("größe", "a  b"), ("x", "")]
      ∧ SessionM.IsStack "flush" flush ∧ SessionM.IsStack "list" list
      ∧ (SessionM.execute false flush >>= fun _ => SessionM.execute false list)
          { Session.start {} with bindings }
        = .ok (.value .empty)
            (((Session.start {}).note .info "name            value").note .info "") := by
  intro bindings flush list
  have readable : ∀ entry ∈ bindings.entries, Readable entry := by
    intro entry member
    rcases List.mem_cons.mp member with rfl | member
    · exact ⟨by decide, by decide⟩
    · rw [List.mem_singleton.mp member]
      exact ⟨by decide, by decide⟩
  rcases table_aligned with ⟨tables, listings⟩
  rcases tables bindings with ⟨_, _, _, _, reads⟩
  have isFlush : SessionM.IsStack "flush" flush := ⟨rfl, rfl⟩
  have isList : SessionM.IsStack "list" list := ⟨rfl, rfl⟩
  exact ⟨readable, reads readable, isFlush, isList, listings _ false flush list isFlush isList⟩

end Bindings
end LineShell
