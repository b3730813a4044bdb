import LineShell.Proofs.Fitting
import LineShell.Proofs.Slices

namespace LineShell

/-!
# Where a line is rejected

A line that is rejected is rejected at a token, or at the character at which it
cannot be cut into tokens any further.  Up to there the line is in order: its text
up to that place has exactly the tokens that stand before it.

The parser itself could also point behind the end of the line, where the end comes
again and again.  But it eats the end of the line only when it has read everything
else, so where that end is said to be does not matter to the faults that it finds.
-/

open Steps

/-! ## The text before a token -/

theorem Text.byteSize_of_spaces {spaces : List Char} (blank : ∀ char ∈ spaces, char = ' ') :
    byteSize spaces = spaces.length := by
  rw [List.eq_replicate_of_mem blank, byteSize_replicate_space, List.length_replicate]

namespace Token.Cursor

/-- What is skipped are spaces. -/
theorem exists_spaces (cursor : Cursor) :
    ∃ spaces, (∀ char ∈ spaces, char = ' ') ∧ cursor.rest = spaces ++ cursor.skipSpaces.rest
      ∧ cursor.skipSpaces.offset = cursor.offset + spaces.length := by
  refine ⟨cursor.rest.takeWhile fun char => decide (char = ' '), ?_,
    List.takeWhile_append_dropWhile.symm, rfl⟩
  intro char member
  have passes := List.mem_takeWhile_imp member
  exact of_decide_eq_true passes

theorem skipSpaces_of_spaces {spaces : List Char} (blank : ∀ char ∈ spaces, char = ' ')
    (offset : Nat) : skipSpaces ⟨spaces, offset⟩ = ⟨[], offset + spaces.length⟩ := by
  have passes : ∀ char ∈ spaces, decide (char = ' ') = true :=
    fun char member => decide_eq_true (blank char member)
  rw [skipSpaces, Text.skipSpaces, run, List.takeWhile_eq_self_iff.mpr passes,
    List.dropWhile_eq_nil_iff.mpr passes]

/-- The tokens of a text are those of its front up to a place and those that are
read from this place on. -/
theorem exists_split (cursor : Cursor) {front back : List Token}
    (shape : cursor.skipSpaces.read.tokens = front ++ back)
    (going : ∀ token ∈ front, token.kind ≠ .endOfLine) :
    ∃ (chars : List Char) (inner : Cursor), cursor.rest = chars ++ inner.rest
      ∧ inner.offset = cursor.offset + Text.byteSize chars
      ∧ inner.read.tokens = back ∧ inner.read.fault = cursor.skipSpaces.read.fault
      ∧ inner.read.cursor = cursor.skipSpaces.read.cursor
      ∧ (skipSpaces ⟨chars, cursor.offset⟩).read.tokens
        = front ++ [Parser.endToken inner.offset]
      ∧ (skipSpaces ⟨chars, cursor.offset⟩).read.fault = none := by
  induction front generalizing cursor with
  | nil =>
      rcases cursor.exists_spaces with ⟨spaces, blank, parts, place⟩
      refine ⟨spaces, cursor.skipSpaces, parts, ?_, shape, rfl, rfl, ?_, ?_⟩
      · rw [place, Text.byteSize_of_spaces blank]
      · rw [skipSpaces_of_spaces blank, read_nil, place]
        rfl
      · rw [skipSpaces_of_spaces blank, read_nil]
  | cons first others ih =>
      rcases cursor.exists_spaces with ⟨spaces, blank, parts, place⟩
      rcases next_of_read shape (going first List.mem_cons_self) with
        ⟨kind, length, found, isToken, rfl, behind⟩
      rcases ih _ behind fun token member => going token (List.mem_cons_of_mem _ member) with
        ⟨chars, inner, rest, offset, tokens, fault, stop, frontTokens, whole⟩
      -- The text up to the place is the spaces, the first token and what is before the others.
      let word := cursor.skipSpaces.rest.take length
      have isFront : word ++ chars <+: cursor.skipSpaces.rest := by
        refine ⟨inner.rest, ?_⟩
        rw [List.append_assoc, ← rest, List.take_append_drop]
      rcases front_step (scan?_of_ahead found isToken) isFront with ⟨again, same, further⟩
      have begins : skipSpaces ⟨spaces ++ (word ++ chars), cursor.offset⟩
          = ⟨word ++ chars, cursor.skipSpaces.offset⟩ := by
        rw [place]
        exact skipSpaces_of_visible blank (visible_of_scan? (scan?_of_ahead again isToken)) _
      refine ⟨spaces ++ (word ++ chars), inner, ?_, ?_, tokens, ?_, ?_, ?_, ?_⟩
      · rw [parts, List.append_assoc, List.append_assoc, ← rest, List.take_append_drop]
      · have behindWord : inner.offset
            = cursor.skipSpaces.offset + Text.byteSize word + Text.byteSize chars := offset
        rw [behindWord, place, Text.byteSize_append, Text.byteSize_append,
          Text.byteSize_of_spaces blank]
        omega
      · rw [fault, read_of_token found isToken]
        rfl
      · rw [stop, read_of_token found isToken]
        rfl
      · rw [begins, read_of_token again isToken, same, further, List.cons_append]
        exact congrArg (_ :: ·) frontTokens
      · rw [begins, read_of_token again isToken, further]
        exact whole

/-- A line can be cut before any of its tokens, and where it cannot be cut into
tokens any further.  Its text before that place has exactly the tokens before it. -/
theorem exists_before {line : String} {front back : List Token}
    (shape : (start line).read.tokens = front ++ back)
    (going : ∀ token ∈ front, token.kind ≠ .endOfLine) :
    ∃ inner : Cursor, inner.IsAt line ∧ inner.read.tokens = back
      ∧ inner.read.fault = (start line).read.fault
      ∧ inner.read.cursor = (start line).read.cursor
      ∧ (∀ token ∈ front, token.span.stop ≤ inner.offset)
      ∧ (start (Span.slice line { start := 0, stop := inner.offset })).read.tokens
        = front ++ [Parser.endToken inner.offset]
      ∧ (start (Span.slice line { start := 0, stop := inner.offset })).read.fault = none := by
  rcases exists_split ⟨line.toList, 0⟩ shape going with
    ⟨chars, inner, parts, place, tokens, fault, stop, frontTokens, whole⟩
  have placed : inner.offset = Text.byteSize chars := place.trans (Nat.zero_add _)
  have holds : Span.Holds line { start := 0, stop := inner.offset } chars := by
    refine ⟨[], inner.rest, parts, ?_⟩
    rw [placed, Text.byteSize_nil, Nat.zero_add]
  have begins : start (Span.slice line { start := 0, stop := inner.offset })
      = skipSpaces ⟨chars, 0⟩ := by
    rw [holds.slice_eq, start, String.toList_ofList]
  have tiles := (isAt_start (Span.slice line { start := 0, stop := inner.offset })).tiles_read
    (gap_start _)
  rw [begins, frontTokens] at tiles
  rw [← begins] at frontTokens whole
  refine ⟨inner, ⟨chars, parts, placed⟩, tokens, fault, stop, ?_, frontTokens, whole⟩
  intro token member
  exact (List.pairwise_append.mp tiles.1.pairwise).2.2 token member _ List.mem_cons_self

/-- Only the last token of a line can be its end. -/
theorem EndsProperly.going {front others : List Token} {token : Token} {fault : Option Fault}
    (ends : EndsProperly (front ++ token :: others) fault) :
    ∀ earlier ∈ front, earlier.kind ≠ .endOfLine := by
  cases fault with
  | some fault => exact fun earlier member => ends earlier (List.mem_append_left _ member)
  | none =>
      rcases ends with ⟨before, last, shape, _, going⟩
      have isPrefix : front <+: before := by
        have sizes := congrArg List.length shape
        simp only [List.length_append, List.length_cons, List.length_nil] at sizes
        apply List.prefix_of_prefix_length_le ⟨_, shape⟩ (List.prefix_append _ _)
        omega
      exact fun earlier member => going earlier (isPrefix.subset member)

theorem start_of_read {cursor : Cursor} {first : Token} {others : List Token}
    (shape : cursor.read.tokens = first :: others) : first.span.start = cursor.offset := by
  have peeked := peek_of_read shape
  rw [peek] at peeked
  cases found : cursor.ahead with
  | error fault =>
      rw [found] at peeked
      cases peeked
  | ok next =>
      rw [found] at peeked
      cases peeked
      rfl

/-- Where nothing can be read, the next token fails. -/
theorem peek_of_fault {cursor : Cursor} {fault : Fault} (nothing : cursor.read.tokens = [])
    (failed : cursor.read.fault = some fault) :
    cursor.read.cursor = cursor ∧ cursor.peek = .error fault := by
  cases found : cursor.ahead with
  | error other =>
      rw [read_of_fault found] at failed ⊢
      cases failed
      rw [peek, found]
      exact ⟨rfl, rfl⟩
  | ok next =>
      rcases next with ⟨kind, length⟩
      by_cases ending : kind = .endOfLine
      · subst ending
        rw [read_of_end found] at nothing
        cases nothing
      · rw [read_of_token found ending] at nothing
        cases nothing

end Token.Cursor

/-! ## Faults of the parser -/

namespace Parser

/-- The byte at which the line is said to end does not matter to the fault that is
found in it. -/
theorem line_of_limit {text : String} {state last : State} {fault : Fault}
    (begun : start text = .ok state) (failed : line state = .error fault last) (limit : Nat) :
    ∃ ended, line { state with limit } = .error fault ended := by
  rcases Pairing.exists_moved (Token.Cursor.start text) 0 with
    ⟨pairing, closed, place, still, fault_eq, fault_eq', stream⟩
  have unmoved : (Token.Cursor.start text).moved 0 = Token.Cursor.start text := rfl
  rcases tokens_of_start begun with ⟨tokens, faults, _⟩
  rw [unmoved, ← faults] at fault_eq'
  rw [unmoved, ← tokens] at stream
  rw [← faults] at fault_eq
  have stands : pairing.At { depth := state.depth, size := state.remaining } state
      { state with limit } :=
    { stream, fault_eq, fault_eq', depth_eq := rfl, depth_eq' := rfl, near := Nat.le_refl _
      lastEnd := by rw [place, still]; rfl }
  have related := Pairing.related_line closed stands
  rw [failed] at related
  cases ran : line { state with limit } with
  | ok commands ended =>
      rw [ran] at related
      cases related
  | error other ended =>
      rw [ran] at related
      have same := Pairing.fault_of_alike still related
      rw [place] at same
      exact ⟨ended, by rw [same]; exact congrArg (EStateM.Result.error · ended) fault.relocate_id⟩

theorem offset_of_causes {limit : Nat} {fault : Fault} (causes : (endToken limit).Causes fault) :
    fault.offset? = some limit := by
  cases fault with
  | grammatical misfit offset => exact congrArg some causes
  | unknownCommand name offset => exact congrArg some causes.2
  | lexical | execution => cases causes

/-- A line is rejected for the fault that its tokens end with, or for one of the
tokens. -/
theorem cause_of_parseLine {text : String} {fault : Fault}
    (failed : Command.parseLine text = .error fault) :
    (Token.Cursor.start text).read.fault = some fault
      ∨ ∃ token ∈ (Token.Cursor.start text).read.tokens, token.Causes fault := by
  have proper := Token.Cursor.read_endsProperly (Token.Cursor.start text)
  cases begun : start text with
  | error other =>
      rw [Command.parseLine_of_fault begun] at failed
      cases failed
      left
      rw [start] at begun
      split at begun
      · cases begun
      · rename_i ended
        cases begun
        exact ended
      · rename_i nothing whole
        rw [nothing, whole] at proper
        rcases proper with ⟨before, last, shape, _⟩
        exact absurd shape.symm (List.append_ne_nil_of_right_ne_nil _ (List.cons_ne_nil _ _))
  | ok state =>
      rcases tokens_of_start begun with ⟨tokens, faults, _⟩
      have rejected : ∃ last, line state = .error fault last := by
        cases ran : line state with
        | ok commands last =>
            rw [Command.parseLine_of_ok begun ran] at failed
            cases failed
        | error other last =>
            rw [Command.parseLine_of_error begun ran] at failed
            cases failed
            exact ⟨last, rfl⟩
      rcases rejected with ⟨last, ran⟩
      -- Wherever the line is said to end, the fault lies in what is there to read.
      have held : ∀ limit, (Token.Cursor.start text).read.fault = some fault
          ∨ (∃ token ∈ (Token.Cursor.start text).read.tokens, token.Causes fault)
          ∨ fault.offset? = some limit := by
        intro limit
        have yielded := yields_line { state with limit } (State.draws_supply _)
        rcases line_of_limit begun ran limit with ⟨ended, ranToo⟩
        rw [ranToo] at yielded
        rw [← tokens, ← faults]
        rcases yielded with ended | ⟨token, member, causes⟩
        · exact .inl ended
        · rcases List.mem_append.mp member with inLine | isEnd
          · exact .inr (.inl ⟨token, inLine, causes⟩)
          · rw [List.mem_singleton.mp isEnd] at causes
            exact .inr (.inr (offset_of_causes causes))
      rcases held 0 with ended | caused | here
      · exact .inl ended
      · exact .inr caused
      · rcases held 1 with ended | caused | there
        · exact .inl ended
        · exact .inr caused
        · rw [here] at there
          cases there

end Parser

namespace Command

open Token.Cursor (start)

/-- A line that is rejected is rejected at a place within it, between characters, and
its text before that place has exactly the tokens that stand before it.  At the place
either stands a character at which the line cannot be cut into tokens any further,
and which the message names, or a token of the line, possibly its end; and a command
that is not known has the text of that token for its name. -/
theorem parseLine_rejected {line : String} {fault : Fault}
    (failed : parseLine line = .error fault) :
    ∃ offset front back, fault.offset? = some offset ∧ offset ≤ line.utf8ByteSize
      ∧ String.Pos.Raw.IsValid line ⟨offset⟩
      ∧ (start line).read.tokens = front ++ back
      ∧ (∀ token ∈ front, token.span.stop ≤ offset)
      ∧ (start (Span.slice line { start := 0, stop := offset })).read.tokens
        = front ++ [Parser.endToken offset]
      ∧ (start (Span.slice line { start := 0, stop := offset })).read.fault = none
      ∧ ((∃ char, fault = .lexical char offset ∧ back = []
          ∧ (start line).read.cursor.offset = offset
          ∧ (start line).read.cursor.peek = .error fault
          ∧ char = String.Pos.Raw.get line ⟨offset⟩
          ∧ fault.message = "ERR_LEX: Invalid symbol `" ++ String.ofList [char]
            ++ "` at position " ++ offset.repr)
        ∨ ∃ token others, back = token :: others ∧ token.span.start = offset
          ∧ ((∃ misfit, fault = .grammatical misfit offset)
            ∨ fault = .unknownCommand token.text offset)) := by
  have proper := Token.Cursor.read_endsProperly (start line)
  rcases Parser.cause_of_parseLine failed with ended | ⟨token, member, causes⟩
  · rw [ended] at proper
    rcases Token.Cursor.exists_before (List.append_nil _).symm proper with
      ⟨inner, stands, nothing, faults, stop, order, frontTokens, whole⟩
    rw [ended] at faults
    rcases Token.Cursor.peek_of_fault nothing faults with ⟨stays, peeked⟩
    rcases Token.Cursor.fault_of_read ended with ⟨char, others, rest, rfl⟩
    rw [← stop, stays] at rest peeked ⊢
    refine ⟨inner.offset, _, [], rfl, ?_, stands.isValid, (List.append_nil _).symm, order,
      frontTokens, whole, .inl ⟨char, rfl, rfl, rfl, peeked, (stands.get_eq rest).symm, rfl⟩⟩
    rw [stands.size_eq]
    exact Nat.le_add_right _ _
  · rcases List.append_of_mem member with ⟨front, others, shape⟩
    rw [shape] at proper
    rcases Token.Cursor.exists_before shape proper.going with
      ⟨inner, stands, tokens, _, _, order, frontTokens, whole⟩
    have place := Token.Cursor.start_of_read tokens
    have within : inner.offset ≤ line.utf8ByteSize := by
      rw [stands.size_eq]
      exact Nat.le_add_right _ _
    refine ⟨inner.offset, front, token :: others, ?_, within, stands.isValid, shape, order,
      frontTokens, whole, .inr ⟨token, others, rfl, place, ?_⟩⟩
    · cases fault with
      | grammatical misfit offset => rw [Fault.offset?, causes, place]
      | unknownCommand name offset => rw [Fault.offset?, causes.2, place]
      | lexical | execution => cases causes
    · cases fault with
      | grammatical misfit offset => exact .inl ⟨misfit, by rw [causes, place]⟩
      | unknownCommand name offset => exact .inr (by rw [causes.1, causes.2, place])
      | lexical | execution => cases causes

theorem parseLine_rejected_trailing :
    let line := "x = \"é\" 2"
    parseLine line = .error (.grammatical (.trailing .number "2") 9)
      ∧ String.Pos.Raw.IsValid line ⟨9⟩
      ∧ ∃ front token others, (start line).read.tokens = front ++ token :: others
        ∧ token.span.start = 9
        ∧ (start (Span.slice line { start := 0, stop := 9 })).read.tokens
          = front ++ [Parser.endToken 9] := by
  intro line
  have found :
      (((parseLine line).map fun _ => none).tryCatch fun fault => .ok (some fault)).toOption
        = some (some (.grammatical (.trailing .number "2") 9)) := by decide +kernel
  have failed : parseLine line = .error (.grammatical (.trailing .number "2") 9) := by
    cases parsed : parseLine line with
    | ok commands =>
        rw [parsed] at found
        cases found
    | error fault =>
        rw [parsed] at found
        rw [Option.some.inj (Option.some.inj found)]
  rcases parseLine_rejected failed with
    ⟨offset, front, back, place, _, valid, shape, _, frontTokens, _, kinds⟩
  cases place
  rcases kinds with ⟨char, lexical, _⟩ | ⟨token, others, rfl, starts, _⟩
  · cases lexical
  · exact ⟨failed, valid, front, token, others, shape, starts, frontTokens⟩

end Command
end LineShell
