import LineShell.Proofs.AlignedParsing
import LineShell.Proofs.Reading

namespace LineShell
namespace Parser

/-!
# Lines are read alike

A line is read statement by statement.  Behind a semicolon that both lines have
the next statement is again one that both have, so the lines are read alike as
far as they are shared.  If they also end together, so are the whole lines.
-/

open Steps

/-- The parser starts at the first token of a line, on no level. -/
theorem start_of_tokens {line : String} {first : Token} {others : List Token}
    (shape : (Token.Cursor.start line).read.tokens = first :: others) :
    ∃ state, start line = .ok state ∧ state.lookahead = first ∧ state.upcoming = others
      ∧ state.fault? = (Token.Cursor.start line).read.fault
      ∧ state.lastEnd = first.span.start ∧ state.depth = 0 := by
  simp only [start, shape]
  exact ⟨_, rfl, rfl, rfl, rfl, rfl, rfl⟩

theorem start_of_fault {line : String} {fault : Fault}
    (none : (Token.Cursor.start line).read.tokens = [])
    (failing : (Token.Cursor.start line).read.fault = some fault) :
    start line = .error fault := by
  simp only [start, none, failing]

namespace Pairing

variable {pairing : Pairing} {frame : Frame} {state state' : State}

/-- Faults that are the same up to their places. -/
def FaultsAlike (pairing : Pairing) (fault : Fault) (_ : State) (fault' : Fault) (_ : State) :
    Prop :=
  pairing.Alike Fault.relocate fault fault'

theorem fault_of_alike (still : pairing.place' = id) {fault fault' : Fault}
    (alike : pairing.Alike Fault.relocate fault fault') :
    fault' = fault.relocate pairing.place := by
  rw [Alike, still, Fault.relocate_id] at alike
  exact alike.symm

/-- The commands of two lines are alike, apart from commands that only the
second line had before. -/
def Continues (pairing : Pairing) (extra : List Command) (commands commands' : List Command) :
    Prop :=
  commands.map (Command.relocate pairing.place) ++ extra
    = commands'.map (Command.relocate pairing.place')

theorem Continues.cons {extra commands commands' : List Command} {command command' : Command}
    (alike : pairing.Alike Command.relocate command command')
    (continues : pairing.Continues extra commands commands') :
    pairing.Continues extra (command :: commands) (command' :: commands') := by
  simp only [Alike, Continues, List.map_cons, List.cons_append] at alike continues ⊢
  rw [alike, continues]

theorem Continues.single {command command' : Command}
    (alike : pairing.Alike Command.relocate command command') :
    pairing.Continues [] [command] [command'] := by
  have nothing : pairing.Continues [] [] [] := rfl
  exact nothing.cons alike

/-! ## One more statement -/

theorem matches_warn (warning : Warning) (stands : pairing.At frame state state') :
    pairing.Matches frame (fun _ _ => True) (warn warning state) (warn warning state') :=
  ⟨trivial, { stands with }⟩

/-- The statement behind a semicolon is read alike. -/
theorem mirrors_afterSemicolon {extra commands commands' : List Command}
    (continues : pairing.Continues extra commands commands') :
    pairing.Mirrors (pairing.Continues extra) (afterSemicolon commands)
      (afterSemicolon commands') := by
  intro frame state state' stands
  simp only [afterSemicolon, get_bind]
  apply matches_ite (stands.kind_iff rfl)
  · intro path
    apply matches_discard (matches_advance_of_going stands (by rw [path]; rfl))
    intro after after' there
    apply matches_bind (matches_warn _ there)
    intro _ _ warned warned' _ there
    apply matches_bind (mirrors_expectTerminator _ _ _ there)
    intro _ _ ended ended' _ there
    exact matches_pure continues there
  · intro _
    apply matches_bind (mirrors_statement _ _ _ stands)
    intro command command' after after' alike there
    apply matches_bind (mirrors_expectTerminator _ _ _ there)
    intro _ _ ended ended' _ there
    exact matches_pure (continues.cons alike) there

/-- What stands behind a semicolon is read alike, and ends nearer to the end of
the line. -/
theorem related_furtherStatement {extra commands commands' : List Command}
    (stands : pairing.At frame state state')
    (shared : pairing.Shared state.lookahead state'.lookahead)
    (behind : pairing.Stream state.upcoming state'.upcoming)
    (continues : pairing.Continues extra commands commands') :
    Related (fun value after value' after' =>
        (pairing.Continues extra value value' ∧ pairing.At frame after after')
          ∧ after.remaining < state.remaining)
      pairing.FaultsAlike (furtherStatement commands state)
      (furtherStatement commands' state') := by
  rw [furtherStatement_eq, furtherStatement_eq, discard_bind, discard_bind]
  rcases behind.shape with ⟨next, more, next', more', shape, shape'⟩
    | ⟨last, last', fault, fault', known, known', alike⟩
  · rw [bind_of_ok (advance_of_upcoming shape), bind_of_ok (advance_of_upcoming shape')]
    have length : state.remaining = more.length + 1 := by
      rw [State.remaining, shape, List.length_cons]
    have near := stands.near
    rw [shape, shape'] at behind
    have between : pairing.At { frame with size := more.length }
        { state with lookahead := next, upcoming := more, lastEnd := state.lookahead.span.stop }
        { state' with lookahead := next', upcoming := more'
                      lastEnd := state'.lookahead.span.stop } :=
      { stands with stream := behind, near := Nat.le_refl _, lastEnd := shared.stop }
    apply Related.mono (mirrors_afterSemicolon continues _ _ _ between)
    · intro value after value' after' met
      have nearer : after.remaining ≤ more.length := met.2.near
      exact ⟨⟨met.1, met.2.loosen (by omega)⟩, by omega⟩
    · intro fault after fault' after' alike
      exact alike
  · rw [bind_of_error (advance_of_fault last (stands.fault_eq.trans known)),
      bind_of_error (advance_of_fault last' (stands.fault_eq'.trans known'))]
    exact alike

/-! ## Lines that end together -/

/-- Two lines end together: both with the end of the line, or both with a fault. -/
def Closed (pairing : Pairing) : Prop :=
  (∃ last last', pairing.tail = [last] ∧ pairing.tail' = [last'] ∧ last.kind = .endOfLine
      ∧ last'.kind = .endOfLine ∧ pairing.fault? = none ∧ pairing.fault'? = none)
    ∨ (pairing.tail = [] ∧ pairing.tail' = [])

/-- On lines that end together every token is shared, but for the ends of the
lines. -/
theorem At.shared_or_end (stands : pairing.At frame state state') (closed : pairing.Closed) :
    (pairing.Shared state.lookahead state'.lookahead ∧ state.lookahead.kind ≠ .endOfLine
        ∧ pairing.Stream state.upcoming state'.upcoming)
      ∨ (state.lookahead.kind = .endOfLine ∧ state'.lookahead.kind = .endOfLine
        ∧ state.upcoming = [] ∧ state'.upcoming = [] ∧ state.fault? = none
        ∧ state'.fault? = none) := by
  rcases stands.stream.first with shared | ⟨-, -, -, same, same'⟩
  · exact Or.inl shared
  · rcases closed with ⟨last, last', tail, tail', ends, ends', whole, whole'⟩ | ⟨tail, -⟩
    · rw [tail] at same
      rw [tail'] at same'
      rcases List.cons.inj same with ⟨rfl, none⟩
      rcases List.cons.inj same' with ⟨rfl, none'⟩
      exact Or.inr ⟨ends, ends', none, none', stands.fault_eq.trans whole,
        stands.fault_eq'.trans whole'⟩
    · rw [tail] at same
      cases same

theorem At.kind_eq (stands : pairing.At frame state state') (closed : pairing.Closed) :
    state.lookahead.kind = state'.lookahead.kind := by
  rcases stands.shared_or_end closed with ⟨shared, -⟩ | ⟨ends, ends', -⟩
  · exact shared.kind_eq
  · rw [ends, ends']

theorem mirrors_statementLoop (closed : pairing.Closed) {extra commands commands' : List Command}
    (continues : pairing.Continues extra commands commands') :
    pairing.Mirrors (pairing.Continues extra) (statementLoop commands)
      (statementLoop commands') := by
  apply mirrors_repeatWhile
  · intro frame state state' stands
    rw [stands.kind_eq closed]
  · intro commands commands' continues frame state state' stands goes
    rcases stands.shared_or_end closed with ⟨shared, -, behind⟩ | ⟨ends, -⟩
    · apply Related.mono (related_furtherStatement stands shared behind continues)
      · intro value after value' after' met
        exact met.1
      · intro fault after fault' after' alike
        exact alike
    · rw [ends] at goes
      cases goes
  · exact continues

/-- The end of the line is eaten on both lines, and only if there is one. -/
theorem related_eatEnding (closed : pairing.Closed) (stands : pairing.At frame state state') :
    Related (fun _ _ _ _ => pairing.fault? = none) pairing.FaultsAlike (eat .endOfLine state)
      (eat .endOfLine state') := by
  rcases stands.shared_or_end closed with ⟨shared, going, -⟩
    | ⟨ends, ends', none, none', whole, whole'⟩
  · have unwanted : state.lookahead.kind ∉ [Token.Kind.endOfLine] := by
      rw [List.mem_singleton]
      exact going
    have unwanted' : state'.lookahead.kind ∉ [Token.Kind.endOfLine] := by
      rw [← shared.kind_eq]
      exact unwanted
    have sameEnd := stands.isTerminator_eq
    cases ends : state.lookahead.kind.isTerminator
    · rw [ends] at sameEnd
      rw [eat, eatAny_of_other unwanted ends, eatAny_of_other unwanted' sameEnd.symm,
        shared.kind_eq, shared.text_eq]
      exact congrArg (Fault.grammatical _) stands.start
    · rw [ends] at sameEnd
      rw [eat, eatAny_of_terminator unwanted ends, eatAny_of_terminator unwanted' sameEnd.symm]
      exact congrArg (Fault.grammatical _) stands.start
  · rw [eat, eatAny_of_mem (by rw [ends]; decide), eatAny_of_mem (by rw [ends']; decide),
      advance_of_end none whole, advance_of_end none' whole']
    exact stands.fault_eq.symm.trans whole

/-- The rest of a line is read alike. -/
theorem related_lineAfter (closed : pairing.Closed) {extra commands commands' : List Command}
    (continues : pairing.Continues extra commands commands')
    (stands : pairing.At frame state state') :
    Related (fun value _ value' _ => extra.reverse ++ value.map (Command.relocate pairing.place)
          = value'.map (Command.relocate pairing.place')
        ∧ pairing.fault? = none)
      pairing.FaultsAlike (lineAfter commands state) (lineAfter commands' state') := by
  apply Related.bind (mirrors_statementLoop closed continues _ _ _ stands)
  rintro all after all' after' ⟨continues, there⟩
  rw [discard_bind, discard_bind]
  apply Related.bind (related_eatEnding closed there)
  intro _ ended _ ended' whole
  refine ⟨?_, whole⟩
  rw [List.map_reverse, List.map_reverse, ← List.reverse_append, continues]

/-- Lines that end together are read alike. -/
theorem related_line (closed : pairing.Closed) (stands : pairing.At frame state state') :
    Related (fun value _ value' _ => value.map (Command.relocate pairing.place)
          = value'.map (Command.relocate pairing.place')
        ∧ pairing.fault? = none)
      pairing.FaultsAlike (line state) (line state') := by
  rw [line_eq]
  apply Related.bind (mirrors_statement _ _ _ stands)
  rintro first after first' after' ⟨alike, there⟩
  apply Related.bind (mirrors_expectTerminator _ _ _ there)
  rintro _ ended _ ended' ⟨-, there⟩
  exact related_lineAfter closed (Continues.single alike) there

/-! ## The start of a line -/

/-- Tokens that are moved, in front of the two tails. -/
theorem stream_moved (still : pairing.place' = id) (distinct : Function.Injective pairing.place)
    {tokens : List Token} (going : ∀ token ∈ tokens, token.kind ≠ .endOfLine) :
    pairing.Stream (tokens ++ pairing.tail)
      (tokens.map (Token.relocate pairing.place) ++ pairing.tail') := by
  induction tokens with
  | nil => exact Stream.tail rfl rfl
  | cons token tokens ih =>
      have exact : pairing.Exact := by
        refine ⟨distinct, ?_⟩
        rw [still]
        exact Function.injective_id
      have alike : pairing.Alike Token.relocate token (token.relocate pairing.place) := by
        rw [Alike, still, Token.relocate_id]
      apply Stream.token ⟨alike, fun _ => exact⟩
      · exact going token List.mem_cons_self
      · apply ih
        intro other member
        exact going other (List.mem_cons_of_mem _ member)

/-- The parsers of two lines with the same tokens start side by side, or find
the same fault at the start. -/
theorem start_cases {line line' : String}
    (stream : pairing.Stream (Token.Cursor.start line).read.tokens
      (Token.Cursor.start line').read.tokens)
    (fault_eq : (Token.Cursor.start line).read.fault = pairing.fault?)
    (fault_eq' : (Token.Cursor.start line').read.fault = pairing.fault'?) :
    (∃ state state', start line = .ok state ∧ start line' = .ok state'
        ∧ pairing.At { depth := 0, size := state.remaining } state state')
      ∨ ∃ fault fault', start line = .error fault ∧ start line' = .error fault'
        ∧ pairing.Alike Fault.relocate fault fault' := by
  rcases stream.shape with ⟨next, more, next', more', shape, shape'⟩
    | ⟨none, none', fault, fault', known, known', alike⟩
  · left
    rw [shape, shape'] at stream
    simp only [start, shape, shape', fault_eq, fault_eq']
    exact ⟨_, _, rfl, rfl, stream, rfl, rfl, rfl, rfl, Nat.le_refl _, stream.start⟩
  · right
    exact ⟨fault, fault', start_of_fault none (fault_eq.trans known),
      start_of_fault none' (fault_eq'.trans known'), alike⟩

/-- The pairing of a text with the same text further to the right. -/
theorem exists_moved (cursor : Token.Cursor) (distance : Nat) : ∃ pairing : Pairing,
    pairing.Closed ∧ pairing.place = (· + distance) ∧ pairing.place' = id
      ∧ cursor.read.fault = pairing.fault? ∧ (cursor.moved distance).read.fault = pairing.fault'?
      ∧ pairing.Stream cursor.read.tokens (cursor.moved distance).read.tokens := by
  have distinct : Function.Injective (· + distance) := fun _ _ => Nat.add_right_cancel
  have ends := cursor.read_endsProperly
  rcases cursor.read_moved distance with ⟨tokens, fault⟩
  rw [tokens, fault]
  cases known : cursor.read.fault with
  | none =>
      rw [known] at ends
      rcases ends with ⟨before, last, shape, ending, others⟩
      have terminates : last.kind.isTerminator = true := by
        rw [ending]
        rfl
      let pairing : Pairing :=
        { place := (· + distance), place' := id, tail := [last]
          tail' := [last.relocate (· + distance)], fault? := none, fault'? := none
          ends := .terminator terminates terminates rfl }
      have closed : pairing.Closed := Or.inl ⟨last, _, rfl, rfl, ending, ending, rfl, rfl⟩
      have stream : pairing.Stream (before ++ [last])
          (before.map (Token.relocate (· + distance)) ++ [last.relocate (· + distance)]) :=
        stream_moved rfl distinct others
      refine ⟨pairing, closed, rfl, rfl, rfl, rfl, ?_⟩
      rw [shape, List.map_append]
      exact stream
  | some fault =>
      rw [known] at ends
      let pairing : Pairing :=
        { place := (· + distance), place' := id, tail := [], tail' := [], fault? := some fault
          fault'? := some (fault.relocate (· + distance))
          ends := .fault rfl rfl (Fault.relocate_id _).symm }
      have stream : pairing.Stream (cursor.read.tokens ++ [])
          (cursor.read.tokens.map (Token.relocate (· + distance)) ++ []) :=
        stream_moved rfl distinct ends
      rw [List.append_nil, List.append_nil] at stream
      exact ⟨pairing, Or.inr ⟨rfl, rfl⟩, rfl, rfl, rfl, rfl, stream⟩

end Pairing
end Parser

namespace Command

/-- A line whose text is moved is read alike, with the places moved. -/
theorem parseLine_moved {line line' : String} {distance : Nat}
    (moved : Token.Cursor.start line' = (Token.Cursor.start line).moved distance) :
    (∀ commands, parseLine line = .ok commands ->
        parseLine line' = .ok (commands.map (Command.relocate (· + distance)))
          ∧ (Token.Cursor.start line).read.fault = none)
      ∧ ∀ fault, parseLine line = .error fault ->
        parseLine line' = .error (fault.relocate (· + distance)) := by
  rcases Parser.Pairing.exists_moved (Token.Cursor.start line) distance
    with ⟨pairing, closed, place, place', fault, fault', stream⟩
  rw [← moved] at fault' stream
  rcases Parser.Pairing.start_cases stream fault fault'
    with ⟨state, state', begun, begun', stands⟩ | ⟨fault, fault', begun, begun', alike⟩
  · have related := Parser.Pairing.related_line closed stands
    cases ran : Parser.line state <;> cases ran' : Parser.line state' <;> rw [ran, ran'] at related
    · rcases related with ⟨same, whole⟩
      rw [place, place', Command.map_relocate_id] at same
      rw [parseLine_of_ok begun ran, parseLine_of_ok begun' ran']
      apply Steps.outcomes_of_ok
      exact ⟨congrArg Except.ok same.symm, fault.trans whole⟩
    · cases related
    · cases related
    · rw [parseLine_of_error begun ran, parseLine_of_error begun' ran']
      apply Steps.outcomes_of_error
      rw [Parser.Pairing.fault_of_alike place' related, place]
  · rw [parseLine_of_fault begun, parseLine_of_fault begun']
    apply Steps.outcomes_of_error
    rw [Parser.Pairing.fault_of_alike place' alike, place]

end Command
end LineShell
