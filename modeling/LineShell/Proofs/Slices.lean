import LineShell.Proofs.Accounting
import LineShell.Proofs.AlignedLines

namespace LineShell

/-!
# The text of a command

The span of a command names the text that the command was read from.  Read on its
own, this text has the same tokens as in the line, and then the line ends; so it
is read as the same command.  Only a write to a variable that has the name of a
command is not, since the dollar sign before the name is not on its span.
-/

namespace Token

/-! ## The front of a text -/

section Fronts

variable {rest front text : List Char} {kind : Kind} {length : Nat}

theorem IsNext.of_front (next : IsNext rest kind text) (isFront : front <+: rest)
    (fits : text <+: front) : IsNext front kind text where
  starts := fits
  nonempty := next.nonempty
  mem_pattern := next.mem_pattern
  longest := fun other otherKind starts => next.longest other otherKind (starts.trans isFront)
  preferred := next.preferred

/-- The next token stays the next one if the text is cut off behind it. -/
theorem scan?_front (found : scan? rest = some (kind, length)) (isFront : front <+: rest)
    (fits : rest.take length <+: front) : scan? front = some (kind, length) := by
  have scanned := scan?_of_isNext ((isNext_of_scan? found).of_front isFront fits)
  rwa [List.length_take_of_le (scan?_le found)] at scanned

theorem scan?_dollar (more : List Char) : scan? ('$' :: more) = some (.dollar, 1) := by
  have noPath : pathLength? ('$' :: more) = none := by
    cases more with
    | nil => rfl
    | cons second rest => simp [pathLength?]
  have symbol : symbol? ('$' :: more) = some (.dollar, 1) := rfl
  rw [scan?.eq_def]
  simp only [noPath, symbol]
  rfl

/-- A text does not begin with a space. -/
def Visible (chars : List Char) : Prop :=
  ∃ first others, chars = first :: others ∧ first ≠ ' '

theorem visible_of_scan? {found : Kind × Nat} (scanned : scan? rest = some found) :
    Visible rest := by
  cases rest with
  | nil => cases scanned
  | cons first others =>
      refine ⟨first, others, rfl, ?_⟩
      rintro rfl
      cases isBlank_of_scan? scanned

end Fronts

namespace Cursor

theorem skipSpaces_of_visible {spaces front : List Char} (blank : ∀ char ∈ spaces, char = ' ')
    (visible : Visible front) (offset : Nat) :
    skipSpaces ⟨spaces ++ front, offset⟩ = ⟨front, offset + spaces.length⟩ := by
  rcases visible with ⟨first, others, rfl, seen⟩
  have passes : ∀ char ∈ spaces, decide (char = ' ') = true :=
    fun char member => decide_eq_true (blank char member)
  rw [skipSpaces, Text.skipSpaces, run, List.dropWhile_append_of_pos passes,
    List.takeWhile_append_of_pos passes, List.dropWhile_cons_of_neg (by simpa using seen),
    List.takeWhile_cons_of_neg (by simpa using seen), List.append_nil]

variable {cursor : Cursor}

/-- The first token that is read, and what is read behind it. -/
theorem next_of_read {first : Token} {others : List Token}
    (shape : cursor.read.tokens = first :: others) (going : first.kind ≠ .endOfLine) :
    ∃ kind length, cursor.ahead = .ok (kind, length) ∧ kind ≠ .endOfLine
      ∧ first = cursor.token kind length ∧ (cursor.advance length).read.tokens = others := by
  cases found : cursor.ahead with
  | error fault =>
      rw [read_of_fault found] at shape
      cases shape
  | ok next =>
      rcases next with ⟨kind, length⟩
      by_cases ending : kind = .endOfLine
      · subst ending
        rw [read_of_end found] at shape
        cases shape
        exact absurd rfl going
      · rw [read_of_token found ending] at shape
        rcases List.cons.inj shape with ⟨rfl, rest⟩
        exact ⟨kind, length, rfl, ending, rfl, rest⟩

/-- Tokens inside a line are read from a place inside of it. -/
theorem IsAt.of_append {line : String} (stands : cursor.IsAt line) {front back : List Token}
    (shape : cursor.read.tokens = front ++ back)
    (going : ∀ token ∈ front, token.kind ≠ .endOfLine) :
    ∃ inner : Cursor, inner.IsAt line ∧ inner.read.tokens = back := by
  induction front generalizing cursor with
  | nil => exact ⟨cursor, stands, shape⟩
  | cons first others ih =>
      rcases next_of_read shape (going first List.mem_cons_self) with
        ⟨kind, length, _, _, _, rest⟩
      exact ih (stands.advance length) rest fun token member =>
        going token (List.mem_cons_of_mem _ member)

/-- Behind the tokens of a cut off text the line ends. -/
theorem read_nil (offset : Nat) :
    read ⟨[], offset⟩
      = { tokens := [Parser.endToken offset], cursor := ⟨[], offset⟩, fault := none } :=
  read_of_end (ahead_of_blank rfl)

/-- A cursor over the front of a text goes past a token as the one over the whole
text does. -/
theorem front_step {kind : Kind} {length : Nat} {tail : List Char}
    (scanned : scan? cursor.rest = some (kind, length))
    (isFront : cursor.rest.take length ++ tail <+: cursor.rest) :
    ahead ⟨cursor.rest.take length ++ tail, cursor.offset⟩ = .ok (kind, length)
      ∧ token ⟨cursor.rest.take length ++ tail, cursor.offset⟩ kind length
        = cursor.token kind length
      ∧ advance ⟨cursor.rest.take length ++ tail, cursor.offset⟩ length
        = skipSpaces ⟨tail, cursor.offset + Text.byteSize (cursor.rest.take length)⟩ := by
  have size : (cursor.rest.take length).length = length := List.length_take_of_le (scan?_le scanned)
  refine ⟨ahead_of_scan? (scan?_front scanned isFront (List.prefix_append _ _)), ?_, ?_⟩
  · simp only [token, List.take_left' size]
  · simp only [advance, List.take_left' size, List.drop_left' size]

/-- The text of tokens that are read from a place is read as these tokens also
if nothing else follows. -/
theorem exists_front {first : Token} {others back : List Token}
    (shape : cursor.read.tokens = first :: others ++ back)
    (going : ∀ token ∈ first :: others, token.kind ≠ .endOfLine) :
    ∃ front, front <+: cursor.rest ∧ Visible front
      ∧ Grammar.spanOf first others
        = { start := cursor.offset, stop := cursor.offset + Text.byteSize front }
      ∧ ∃ ending, ending.kind = .endOfLine
        ∧ (read ⟨front, cursor.offset⟩).tokens = first :: others ++ [ending]
        ∧ (read ⟨front, cursor.offset⟩).fault = none := by
  induction others generalizing first cursor with
  | nil =>
      rcases next_of_read shape (going first List.mem_cons_self) with
        ⟨kind, length, found, isToken, rfl, _⟩
      have isFront : cursor.rest.take length ++ [] <+: cursor.rest := by
        rw [List.append_nil]
        exact List.take_prefix length _
      rcases front_step (scan?_of_ahead found isToken) isFront with ⟨again, same, further⟩
      have nothing : skipSpaces ⟨[], cursor.offset + Text.byteSize (cursor.rest.take length)⟩
          = ⟨[], cursor.offset + Text.byteSize (cursor.rest.take length)⟩ := rfl
      rw [nothing] at further
      refine ⟨_, isFront, visible_of_scan? (scan?_of_ahead again isToken), ?_,
        Parser.endToken (cursor.offset + Text.byteSize (cursor.rest.take length)), rfl, ?_, ?_⟩
      · rw [List.append_nil]
        rfl
      · rw [read_of_token again isToken, same, further, read_nil]
        rfl
      · rw [read_of_token again isToken, further, read_nil]
  | cons next others ih =>
      rcases next_of_read shape (going first List.mem_cons_self) with
        ⟨kind, length, found, isToken, rfl, rest⟩
      rcases ih rest (fun token member => going token (List.mem_cons_of_mem _ member)) with
        ⟨front, ⟨back, isFront⟩, visible, span, ending, ends, tokens, whole⟩
      -- The spaces behind the token belong to the front.
      let spaces := (cursor.rest.drop length).takeWhile fun char => decide (char = ' ')
      have blank : ∀ char ∈ spaces, char = ' ' := by
        intro char member
        have passes := List.mem_takeWhile_imp member
        exact of_decide_eq_true passes
      have parts : cursor.rest.drop length = spaces ++ front ++ back := by
        rw [List.append_assoc, isFront]
        exact List.takeWhile_append_dropWhile.symm
      have isPrefix : cursor.rest.take length ++ (spaces ++ front) <+: cursor.rest := by
        refine ⟨back, ?_⟩
        rw [List.append_assoc, ← parts, List.take_append_drop]
      rcases front_step (scan?_of_ahead found isToken) isPrefix with ⟨again, same, further⟩
      have behind : advance ⟨cursor.rest.take length ++ (spaces ++ front), cursor.offset⟩ length
          = ⟨front, (cursor.advance length).offset⟩ := by
        rw [further, skipSpaces_of_visible blank visible]
        rfl
      have seen := visible_of_scan? (scan?_of_ahead again isToken)
      refine ⟨_, isPrefix, seen, ?_, ending, ends, ?_, ?_⟩
      · have size : Text.byteSize spaces = spaces.length := by
          rw [List.eq_replicate_of_mem blank, Text.byteSize_replicate_space, List.length_replicate]
        have place : (cursor.advance length).offset
            = cursor.offset + Text.byteSize (cursor.rest.take length) + spaces.length := rfl
        have stop := congrArg Span.stop span
        simp only [Grammar.spanOf, place] at stop
        simp only [Grammar.spanOf, List.getLastD_cons, stop, Text.byteSize_append, size, token,
          Span.mk.injEq, true_and]
        omega
      · rw [read_of_token again isToken, same, behind, tokens]
        rfl
      · rw [read_of_token again isToken, behind]
        exact whole

def dollarAt (offset : Nat) : Token :=
  { kind := .dollar, text := "$", span := { start := offset, stop := offset + 1 } }

theorem read_dollar {front : List Char} (visible : Visible front) (place : Nat) :
    read ⟨'$' :: front, place⟩
      = { tokens := dollarAt place :: (read ⟨front, place + 1⟩).tokens
          cursor := (read ⟨front, place + 1⟩).cursor
          fault := (read ⟨front, place + 1⟩).fault } := by
  have found : ahead ⟨'$' :: front, place⟩ = .ok (.dollar, 1) := ahead_of_scan? (scan?_dollar front)
  have further : advance ⟨'$' :: front, place⟩ 1 = ⟨front, place + 1⟩ :=
    skipSpaces_of_visible (fun _ member => absurd member List.not_mem_nil) visible _
  rw [read_of_token found Kind.noConfusion, further]
  rfl

/-- A text behind spaces is read from its own place. -/
theorem start_of_visible {front : List Char} (visible : Visible front) (distance : Nat) :
    start (Text.spaces distance ++ String.ofList front) = ⟨front, distance⟩ := by
  have blank : ∀ char ∈ List.replicate distance ' ', char = ' ' :=
    fun _ member => List.eq_of_mem_replicate member
  have skipped := skipSpaces_of_visible blank visible 0
  rw [List.length_replicate, Nat.zero_add] at skipped
  rw [start, String.toList_append, Text.spaces, String.toList_ofList, String.toList_ofList, skipped]

end Cursor
end Token

namespace Parser

/-! ## Texts of one command -/

open Steps

theorem ensures_true {α : Type} (result : EStateM.Result Fault State α) :
    Ensures (fun _ _ => True) (fun _ _ => True) result := by
  cases result <;> trivial

/-- A round of the loop leaves the commands before it alone. -/
theorem suffix_furtherStatement (commands : List Command) (state : State) :
    Ensures (fun next _ => commands <:+ next) (fun _ _ => True)
      (furtherStatement commands state) := by
  rw [furtherStatement_eq, discard_bind]
  apply Ensures.bind (ensures_true _)
  intro _ between _
  rw [afterSemicolon, get_bind]
  split
  · rw [discard_bind]
    apply Ensures.bind (ensures_true _)
    intro _ behind _
    rw [warn, modify_bind]
    apply Ensures.bind (ensures_true _)
    intro _ _ _
    exact List.suffix_refl commands
  · apply Ensures.bind (ensures_true _)
    intro command behind _
    apply Ensures.bind (ensures_true _)
    intro _ _ _
    exact List.suffix_cons command commands

/-- A line whose first statement fails has the fault of that statement. -/
theorem line_of_error {state after : State} {fault : Fault}
    (failed : statement state = .error fault after) : line state = .error fault after := by
  rw [line_eq, bind_of_error failed]

/-- The first command of a line is its first statement. -/
theorem head_of_line {state after : State} {commands : List Command}
    (ran : line state = .ok commands after) :
    ∃ first between others, statement state = .ok first between ∧ commands = first :: others := by
  rw [line_eq] at ran
  cases stated : statement state with
  | error fault failed =>
      rw [bind_of_error stated] at ran
      cases ran
  | ok first between =>
      rw [bind_of_ok stated] at ran
      have reads : Ensures (fun commands _ => ∃ others, commands = first :: others)
          (fun _ _ => True) ((expectTerminator >>= fun _ => lineAfter [first]) between) := by
        apply Ensures.bind (ensures_true _)
        intro _ behind _
        have loop : Ensures (fun commands _ => [first] <:+ commands) (fun _ _ => True)
            (statementLoop [first] behind) := by
          apply repeatWhile_ensures _ (List.suffix_refl [first])
          intro commands state _ kept
          apply (suffix_furtherStatement commands state).mono
          · exact fun next _ grows => kept.trans grows
          · exact fun _ _ _ => trivial
        apply Ensures.bind loop
        rintro _ last ⟨more, rfl⟩
        rw [discard_bind]
        apply Ensures.bind (ensures_true _)
        intro _ _ _
        exact ⟨more.reverse, List.reverse_concat⟩
      rw [ran] at reads
      rcases reads with ⟨others, same⟩
      exact ⟨first, between, others, rfl, same⟩

/-- A line that begins with the name of a command calls it first. -/
theorem action_of_line {state after : State} {name : Token} {others : List Token}
    {builtin : Builtin} {command : Command} {more : List Command} (isWord : name.kind = .word)
    (found : Builtin.find? name.text = some builtin) (some : others ≠ [])
    (tokens : state.tokens = name :: others) (ran : line state = .ok (command :: more) after) :
    command.action = builtin.action := by
  rcases head_of_line ran with ⟨first, between, _, stated, same⟩
  rcases List.cons.inj same with ⟨rfl, _⟩
  rcases List.exists_cons_of_ne_nil some with ⟨next, rest, rfl⟩
  rw [opens_call isWord found state next rest tokens] at stated
  have called := obeysAt_commandAfter local_expression.obeys builtin
    (show (state.behind next rest name.span.stop).lastEnd = name.span.stop from rfl)
  rw [ObeysAt, stated] at called
  rcases called with ⟨_, _, parameters, _, rfl⟩
  rfl

end Parser

namespace Command

theorem relocate_action (place : Nat -> Nat) (command : Command) :
    (command.relocate place).action = command.action := by
  rcases command with ⟨name, action, parameters, span⟩
  rw [relocate]

/-- A text behind spaces is read as it is read alone, with the places moved. -/
theorem parseLine_behind {front : List Char} (visible : Token.Visible front) (place : Nat) :
    (∀ commands, parseLine (String.ofList front) = .ok commands ->
        parseLine (Text.spaces place ++ String.ofList front)
          = .ok (commands.map (Command.relocate (· + place))))
      ∧ ∀ fault, parseLine (String.ofList front) = .error fault ->
        parseLine (Text.spaces place ++ String.ofList front)
          = .error (fault.relocate (· + place)) := by
  have alone := Token.Cursor.start_of_visible visible 0
  rw [show Text.spaces 0 = "" from rfl, String.empty_append] at alone
  have moved : Token.Cursor.start (Text.spaces place ++ String.ofList front)
      = (Token.Cursor.start (String.ofList front)).moved place := by
    rw [alone, Token.Cursor.start_of_visible visible place, Token.Cursor.moved, Nat.zero_add]
  rcases parseLine_moved moved with ⟨onCommands, onFault⟩
  exact ⟨fun commands parsed => (onCommands commands parsed).1, onFault⟩

section Alone

variable {front : List Char} {place : Nat} {own : List Token} {ending : Token}
  (visible : Token.Visible front)
  (tokens : (Token.Cursor.read ⟨front, place⟩).tokens = own ++ [ending])
  (whole : (Token.Cursor.read ⟨front, place⟩).fault = none)
include visible tokens whole

/-- The parser starts before the tokens of a text that stands behind spaces. -/
theorem start_behind :
    ∃ state, Parser.start (Text.spaces place ++ String.ofList front) = .ok state
      ∧ state.tokens = own ++ [ending] ∧ state.fault? = none ∧ state.depth = 0 := by
  obtain ⟨first, others, shape⟩ : ∃ first others, own ++ [ending] = first :: others :=
    List.exists_cons_of_ne_nil (List.append_ne_nil_of_right_ne_nil _ (List.cons_ne_nil _ _))
  rw [← Token.Cursor.start_of_visible visible place] at tokens whole
  rcases Parser.start_of_tokens (tokens.trans shape) with
    ⟨state, begun, lookahead, upcoming, fault, _, depth⟩
  refine ⟨state, begun, ?_, fault.trans whole, depth⟩
  rw [Parser.State.tokens, lookahead, upcoming, shape]

/-- A text whose tokens can be read as a command is read as this command, from
its own start. -/
theorem parseLine_of_readable (ends : ending.kind = .endOfLine) {command : Command}
    (readable : Parser.Readable own command) :
    parseLine (String.ofList front) = .ok [command.relocate (· - place)] := by
  rcases start_behind visible tokens whole with ⟨state, begun, shape, fault, depth⟩
  rcases readable state ending ends shape fault depth with ⟨after, ran⟩
  have parsed := parseLine_of_ok begun ran
  rcases parseLine_behind visible place with ⟨onCommands, onFault⟩
  cases alone : parseLine (String.ofList front) with
  | error fault =>
      rw [onFault fault alone] at parsed
      cases parsed
  | ok commands =>
      rw [onCommands commands alone] at parsed
      rcases List.map_eq_singleton_iff.mp (Except.ok.inj parsed) with ⟨found, rfl, rfl⟩
      have back : (fun byte => byte - place) ∘ (fun byte => byte + place) = id :=
        funext fun byte => Nat.add_sub_cancel byte place
      rw [Command.relocate_relocate, back, Command.relocate_id]

/-- A text that begins with the name of a command is read as a call of it. -/
theorem parseLine_ne_of_word {name : Token} {others : List Token} {builtin : Builtin}
    (shape : own = name :: others) (isWord : name.kind = .word)
    (found : Builtin.find? name.text = some builtin) {command : Command}
    (other : command.action ≠ builtin.action) (shift : Nat -> Nat) :
    parseLine (String.ofList front) ≠ .ok [command.relocate shift] := by
  intro alone
  have parsed := (parseLine_behind visible place).1 _ alone
  rcases start_behind visible tokens whole with ⟨state, begun, same, _, _⟩
  rcases run_of_parseLine parsed with ⟨again, after, begunAgain, ran⟩
  rw [begun] at begunAgain
  cases begunAgain
  rw [shape, List.cons_append] at same
  have action := Parser.action_of_line isWord found
    (List.append_ne_nil_of_right_ne_nil _ (List.cons_ne_nil _ _)) same ran
  rw [relocate_action, relocate_action] at action
  exact other action

end Alone

/-- Every command that occurs in a line has a text of its own. -/
theorem exists_source {line : String} {commands : List Command}
    (parsed : parseLine line = .ok commands) {command : Command}
    (occurs : Occurs commands command) :
    ∃ mark own front ending, Parser.Source mark own command
      ∧ (mark ≠ [] -> 0 < command.span.start)
      ∧ command.span.slice line = String.ofList front ∧ Token.Visible front
      ∧ ending.kind = .endOfLine
      ∧ (Token.Cursor.read ⟨front, command.span.start⟩).tokens = own ++ [ending]
      ∧ (Token.Cursor.read ⟨front, command.span.start⟩).fault = none := by
  rcases segments_of_parseLine parsed with
    ⟨_, _, tokens, last, _, _, shape, _, going, segments, laid⟩
  rcases segments.occurs occurs with ⟨mark, own, ⟨before, behind, within⟩, source, _⟩
  rcases source.span with ⟨first, others, rfl, span⟩
  have read : (Token.Cursor.start line).read.tokens
      = (before ++ mark) ++ (first :: others ++ (behind ++ [last])) := by
    rw [shape, ← within]
    simp only [List.append_assoc]
  have owned : first :: others <:+: mark ++ first :: others := (List.suffix_append _ _).isInfix
  have inside : mark ++ first :: others <:+: tokens := ⟨before, behind, within⟩
  have goingBefore : ∀ token ∈ before ++ mark, token.kind ≠ .endOfLine := by
    intro token member
    apply going
    rw [← within, ← List.append_assoc, List.append_assoc]
    exact List.mem_append_left _ member
  rcases (Token.Cursor.isAt_start line).of_append read goingBefore with ⟨cursor, stands, rest⟩
  rcases cursor.exists_front rest (fun token member =>
    going token ((owned.trans inside).subset member)) with
    ⟨front, ⟨after, isFront⟩, visible, same, ending, found⟩
  rw [← span] at same
  have place : command.span.start = cursor.offset := by rw [same]
  refine ⟨mark, first :: others, front, ending, source, ?_, ?_, visible, place ▸ found⟩
  · intro marked
    rcases List.exists_mem_of_ne_nil mark marked with ⟨token, member⟩
    have marking := laid.of_infix inside
    have order := (List.pairwise_append.mp marking.ordered).2.2 token member first
      List.mem_cons_self
    have solid := (marking.isPart token (List.mem_append_left _ member)).solid
    have begins : command.span.start = first.span.start := by
      rw [span]
      rfl
    omega
  · rcases stands with ⟨front, parts, offset⟩
    rw [← isFront, ← List.append_assoc] at parts
    rw [same]
    exact Span.Holds.slice_eq ⟨front, after, parts, by rw [offset]⟩

/-- The text on the span of a command is read as this command, moved to the start
of the text, and as nothing else; unless the command writes a variable that has
the name of a command.  Then that text is not read as this command, but it is if
a dollar sign is put before it. -/
theorem parseLine_slice {line : String} {commands : List Command}
    (parsed : parseLine line = .ok commands) {command : Command}
    (occurs : Occurs commands command) :
    (parseLine (command.span.slice line) = .ok [command.relocate (· - command.span.start)]
        ↔ command.isMarked = false)
      ∧ (command.isMarked = true ->
        parseLine ("$" ++ command.span.slice line)
          = .ok [command.relocate (· - (command.span.start - 1))]) := by
  rcases exists_source parsed occurs with
    ⟨mark, own, front, ending, source, later, text, visible, ends, tokens, whole⟩
  rw [text]
  refine ⟨⟨fun alone => ?_, fun unmarked => ?_⟩, fun isMarked => ?_⟩
  · cases isMarked : command.isMarked with
    | false => rfl
    | true =>
        rcases source.marked isMarked with ⟨_, name, others, shape, isWord, named, _⟩
        rcases Bool.and_eq_true_iff.mp isMarked with ⟨isWrite, taken⟩
        rcases Option.isSome_iff_exists.mp taken with ⟨builtin, found⟩
        have other : command.action ≠ builtin.action := by
          intro same
          have plain := Command.isWrite_of_action (same ▸ Parser.action_of_find? found)
          rw [isWrite] at plain
          cases plain
        rw [← named] at found
        exact absurd alone (parseLine_ne_of_word visible tokens whole shape isWord found other _)
  · exact parseLine_of_readable visible tokens whole ends (source.alone unmarked)
  · rcases source.marked isMarked with ⟨marked, _, _, _, _, _, readable⟩
    have behind : command.span.start - 1 + 1 = command.span.start :=
      Nat.sub_add_cancel (later marked)
    have read := Token.Cursor.read_dollar visible (command.span.start - 1)
    rw [behind] at read
    have text : "$" ++ String.ofList front = String.ofList ('$' :: front) := by
      rw [show "$" = String.ofList ['$'] from rfl, ← String.ofList_append]
      rfl
    rw [text]
    apply parseLine_of_readable (Token.visible_of_scan? (Token.scan?_dollar front)) _ _ ends
      (readable (Token.Cursor.dollarAt (command.span.start - 1)) rfl)
    · rw [read, tokens]
      rfl
    · rw [read]
      exact whole

theorem parseLine_slice_call :
    let line := "$echo=motd"
    let motd : Command := { name := "motd", action := .motd, parameters := [], span := ⟨6, 10⟩ }
    let write : Command :=
      { name := "echo", action := .assign
        parameters := [.word "echo", .expression (.call motd)], span := ⟨1, 10⟩ }
    parseLine line = .ok [write]
      ∧ Occurs [write] motd ∧ motd.isMarked = false
      ∧ parseLine (motd.span.slice line) = .ok [motd.relocate (· - 6)]
      ∧ Occurs [write] write ∧ write.isMarked = true
      ∧ parseLine ("$" ++ write.span.slice line) = .ok [write.relocate (· - 0)] := by
  intro line motd write
  have parsed : parseLine line = .ok [write] := by
    dsimp only [line, write, motd]
    with_unfolding_all rfl
  have inner : Occurs [write] motd := by
    refine .inr ⟨write, List.mem_cons_self, ?_⟩
    simp [write, expressions, Argument.allExpressions, Argument.expressions, Expr.parts]
  have outer : Occurs [write] write := .inl List.mem_cons_self
  have marked : write.isMarked = true := by decide
  exact ⟨parsed, inner, rfl, (parseLine_slice parsed inner).1.mpr rfl, outer, marked,
    (parseLine_slice parsed outer).2 marked⟩

/-- The text on the span of a write is read as a call if the variable has the name
of a command. -/
theorem parseLine_slice_write :
    let line := "$echo=motd"
    ∃ write, parseLine line = .ok [write] ∧ write.span.slice line = "echo=motd"
      ∧ parseLine (write.span.slice line) ≠ .ok [write.relocate (· - write.span.start)] := by
  intro line
  let motd : Command := { name := "motd", action := .motd, parameters := [], span := ⟨6, 10⟩ }
  let write : Command :=
    { name := "echo", action := .assign
      parameters := [.word "echo", .expression (.call motd)], span := ⟨1, 10⟩ }
  have parsed : parseLine line = .ok [write] := by
    dsimp only [line, write, motd]
    with_unfolding_all rfl
  have text : write.span.slice line = "echo=motd" := by decide +kernel
  have failed : parseLine "echo=motd"
      = .error (.grammatical (.unexpected .equals "=" "variable, string, or word") 4) := by
    with_unfolding_all rfl
  refine ⟨write, parsed, text, ?_⟩
  rw [text, failed]
  intro same
  cases same

end Command
end LineShell
