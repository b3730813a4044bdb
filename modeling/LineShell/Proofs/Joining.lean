import LineShell.Proofs.AlignedLines

namespace LineShell
namespace Parser

/-!
# Lines that are joined with a semicolon

Two lines with a semicolon between them are read as the first line and then the
second one.  The first line is read side by side with the joined line, up to
where the one ends and the other has the semicolon.  From there on the second
line is read side by side with what is left of the joined line.  Nothing that
the parser remembers of the first line changes how the second one is read.
-/

open Steps

namespace Pairing

variable {pairing : Pairing} {frame : Frame} {state state' : State}

/-! ## The first line -/

/-- A line that is read to its end leaves the other line before its tail. -/
theorem lineAfter_shared {last : Token} (tail : pairing.tail = [last])
    (ends : last.kind = .endOfLine) {commands commands' : List Command}
    (continues : pairing.Continues [] commands commands') (stands : pairing.At frame state state')
    {all : List Command} {after : State} (ran : lineAfter commands state = .ok all after) :
    ∃ read read' between between', lineAfter commands' state' = lineAfter read' between'
      ∧ pairing.Continues [] read read' ∧ all = read.reverse
      ∧ pairing.At frame between between' ∧ between'.tokens = pairing.tail' := by
  -- The size of what is left bounds the number of statements still to read.
  induction size : state.remaining using Nat.strongRecOn
    generalizing commands commands' state state' with
  | ind size ih =>
      rcases stands.stream.first with ⟨shared, going, behind⟩ | ⟨-, -, -, same, same'⟩
      · by_cases goes : state.lookahead.kind = .semicolon
        · have goes' : state'.lookahead.kind = .semicolon := by
            rw [← shared.kind_eq]
            exact goes
          have round := related_furtherStatement stands shared behind continues
          cases further : furtherStatement commands state <;>
            cases further' : furtherStatement commands' state' <;> rw [further, further'] at round
          · rename_i next later next' later'
            rcases round with ⟨⟨continues, there⟩, nearer⟩
            rw [lineAfter_of_ok goes further nearer] at ran
            rw [lineAfter_of_ok goes' further' ((stands.pace there).mp nearer)]
            exact ih later.remaining (by omega) continues there ran rfl
          · cases round
          · cases round
          · rw [lineAfter_of_error goes further] at ran
            cases ran
        · have unwanted : state.lookahead.kind ∉ [Token.Kind.endOfLine] := by
            rw [List.mem_singleton]
            exact going
          have plain : state.lookahead.kind.isTerminator = false := by
            simp [Token.Kind.isTerminator, goes, going]
          rw [lineAfter_of_stop goes, discard_bind, eat,
            bind_of_error (eatAny_of_other unwanted plain)] at ran
          cases ran
      · rw [tail] at same
        have ending : state.lookahead.kind = .endOfLine := by
          rw [(List.cons.inj same).1]
          exact ends
        rw [lineAfter_of_stop (by rw [ending]; decide), discard_bind] at ran
        have whole : all = commands.reverse := by
          cases eaten : eat .endOfLine state with
          | ok token ended =>
              rw [bind_of_ok eaten] at ran
              cases ran
              rfl
          | error fault ended =>
              rw [bind_of_error eaten] at ran
              cases ran
        exact ⟨commands, commands', state, state', rfl, continues, whole, stands, same'⟩

theorem line_shared {last : Token} (tail : pairing.tail = [last]) (ends : last.kind = .endOfLine)
    (stands : pairing.At frame state state') {all : List Command} {after : State}
    (ran : line state = .ok all after) :
    ∃ read read' between between', line state' = lineAfter read' between'
      ∧ pairing.Continues [] read read' ∧ all = read.reverse
      ∧ pairing.At frame between between' ∧ between'.tokens = pairing.tail' := by
  rw [line_eq] at ran ⊢
  have first := mirrors_statement _ _ _ stands
  cases stated : statement state <;> cases stated' : statement state' <;>
    rw [stated, stated'] at first
  · rename_i command between command' between'
    rcases first with ⟨alike, there⟩
    have terminated := mirrors_expectTerminator _ _ _ there
    rw [bind_of_ok stated] at ran
    rw [bind_of_ok stated']
    cases expected : expectTerminator between <;> cases expected' : expectTerminator between' <;>
      rw [expected, expected'] at terminated
    · rw [bind_of_ok expected] at ran
      rw [bind_of_ok expected']
      exact lineAfter_shared tail ends (Continues.single alike) terminated.2 ran
    · cases terminated
    · cases terminated
    · rw [bind_of_error expected] at ran
      cases ran
  · cases first
  · cases first
  · rw [bind_of_error stated] at ran
    cases ran

end Pairing

/-! ## Where a statement starts -/

/-- Two results are the same, but for the states beside their faults. -/
def SameResult {α : Type} : EStateM.Result Fault State α -> EStateM.Result Fault State α -> Prop :=
  Related (fun value after value' after' => value = value' ∧ after = after')
    (fun fault _ fault' _ => fault = fault')

theorem sameResult_refl {α : Type} (result : EStateM.Result Fault State α) :
    SameResult result result := by
  cases result with
  | ok value after => exact ⟨rfl, rfl⟩
  | error fault after => exact rfl

theorem sameResult_bind {α β : Type} {step : Parser α} {state state' : State}
    (first : SameResult (step state) (step state')) (next : α -> Parser β) :
    SameResult ((step >>= next) state) ((step >>= next) state') := by
  apply Related.bind first
  rintro value after _ _ ⟨rfl, rfl⟩
  exact sameResult_refl _

theorem sameResult_discard {α β : Type} {step : Parser α} {state state' : State}
    (first : SameResult (step state) (step state')) (next : Unit -> Parser β) :
    SameResult ((discard step >>= next) state) ((discard step >>= next) state') := by
  rw [discard_bind, discard_bind]
  exact sameResult_bind first _

/-- Eating a token forgets where the token before it ended. -/
theorem sameResult_advance (state : State) (lastEnd : Nat) :
    SameResult (advance state) (advance { state with lastEnd }) := by
  cases upcoming : state.upcoming with
  | nil =>
      cases fault : state.fault? with
      | none =>
          simp only [advance, upcoming, fault, shift]
          exact ⟨rfl, rfl⟩
      | some fault =>
          simp only [advance, upcoming, fault]
          rfl
  | cons next more =>
      simp only [advance, upcoming, shift]
      exact ⟨rfl, rfl⟩

theorem sameResult_eat (kind : Token.Kind) (state : State) (lastEnd : Nat) :
    SameResult (eat kind state) (eat kind { state with lastEnd }) := by
  simp only [eat, eatAny]
  by_cases wanted : state.lookahead.kind ∈ [kind]
  · simp only [wanted, if_true]
    exact sameResult_advance state lastEnd
  · simp only [wanted, if_false]
    split <;> rfl

/-- A statement starts with a token that it eats, so it does not matter where
the token before it ended. -/
theorem sameResult_statement (state : State) (lastEnd : Nat) :
    SameResult (statement state) (statement { state with lastEnd }) := by
  simp only [statement, get_bind]
  cases kind : state.lookahead.kind with
  | word => exact sameResult_bind (sameResult_advance state lastEnd) _
  | dollar => exact sameResult_discard (sameResult_advance state lastEnd) _
  | unary =>
      by_cases step : state.lookahead.isStep = true
      · simp only [step, if_true]
        apply sameResult_bind
        simp only [unary, get_bind, kind]
        apply sameResult_bind
        exact sameResult_bind (sameResult_eat .unary state lastEnd) _
      · simp only [step, Bool.false_eq_true, if_false]
        rfl
  | _ => rfl

/-! ## The second line -/

namespace Pairing

variable {pairing : Pairing} {frame : Frame} {state : State}

theorem matches_of_sameResult {α β : Type} {onValues : α -> β -> Prop}
    {result : EStateM.Result Fault State α} {result' result'' : EStateM.Result Fault State β}
    (matched : pairing.Matches frame onValues result result') (same : SameResult result' result'') :
    pairing.Matches frame onValues result result'' := by
  cases result' with
  | ok value' after' =>
      cases result'' with
      | ok value after =>
          rcases same with ⟨rfl, rfl⟩
          exact matched
      | error => cases same
  | error fault' after' =>
      cases result'' with
      | ok => cases same
      | error fault after =>
          obtain rfl : fault' = fault := same
          cases result with
          | ok => cases matched
          | error => exact matched

/-- A line is read alike from its start and behind a semicolon. -/
theorem related_behindSemicolon (closed : pairing.Closed) {joint : State} {next : Token}
    {more : List Token} (semicolon : joint.lookahead.kind = .semicolon)
    (upcoming : joint.upcoming = next :: more) (tight : frame.size = state.remaining)
    (stands : pairing.At frame state
      { joint with lookahead := next, upcoming := more, lastEnd := next.span.start })
    (noPath : state.lookahead.kind ≠ .path) (commands : List Command) :
    Related (fun value _ value' _ =>
        (commands.map (Command.relocate pairing.place')).reverse
            ++ value.map (Command.relocate pairing.place)
          = value'.map (Command.relocate pairing.place')
        ∧ pairing.fault? = none)
      pairing.FaultsAlike (line state) (lineAfter commands joint) := by
  have noPath' : next.kind ≠ .path := fun path => noPath ((stands.kind_iff rfl).mpr path)
  have further : furtherStatement commands joint
      = (do
        let command ← statement
        expectTerminator
        return command :: commands : Parser (List Command))
        { joint with lookahead := next, upcoming := more
                     lastEnd := joint.lookahead.span.stop } := by
    rw [furtherStatement_eq, discard_bind, bind_of_ok (advance_of_upcoming upcoming)]
    simp only [afterSemicolon, get_bind, noPath', if_false]
  have first := matches_of_sameResult (mirrors_statement _ _ _ stands)
    (sameResult_statement _ joint.lookahead.span.stop)
  rw [line_eq]
  cases stated : statement state <;> cases stated' : statement _ <;> rw [stated, stated'] at first
  · rename_i command after command' after'
    rcases first with ⟨alike, there⟩
    have terminated := mirrors_expectTerminator _ _ _ there
    rw [bind_of_ok stated]
    rw [bind_of_ok stated'] at further
    cases expected : expectTerminator after <;> cases expected' : expectTerminator after' <;>
      rw [expected, expected'] at terminated
    · rename_i ended _ ended'
      rw [bind_of_ok expected]
      rw [bind_of_ok expected', pure_apply] at further
      have nearer : ended'.remaining < joint.remaining := by
        have before := stands.stream.length
        have behind := terminated.2.stream.length
        have near := terminated.2.near
        rw [tight] at near
        simp only [State.tokens, State.remaining, List.length_cons] at before behind near ⊢
        rw [upcoming, List.length_cons]
        omega
      rw [lineAfter_of_ok semicolon further nearer]
      have continues : pairing.Continues (commands.map (Command.relocate pairing.place'))
          [command] (command' :: commands) := by
        have alike : command.relocate pairing.place = command'.relocate pairing.place' := alike
        rw [Continues, List.map_cons, List.map_cons, alike]
        rfl
      exact related_lineAfter closed continues terminated.2
    · cases terminated
    · cases terminated
    · rw [bind_of_error expected]
      rw [bind_of_error expected'] at further
      rw [lineAfter_of_error semicolon further]
      exact terminated
  · cases first
  · cases first
  · rw [bind_of_error stated]
    rw [bind_of_error stated'] at further
    rw [lineAfter_of_error semicolon further]
    exact first

end Pairing
end Parser

/-! ## The joined line -/

namespace Token.Cursor

theorem start_joined (line other : String) :
    start (line ++ ";" ++ other) = (start line).joined other.toList := by
  have chars : (line ++ ";" ++ other).toList = line.toList ++ ';' :: other.toList := by simp
  rw [start, chars]
  exact skipSpaces_followed (by decide) ⟨line.toList, 0⟩ other.toList

theorem byteSize_start (line : String) :
    (start line).offset + Text.byteSize (start line).rest = line.utf8ByteSize := by
  have spaces := byteSize_skipSpaces line.toList
  rw [← Text.byteSize_toList]
  simp only [start, skipSpaces]
  omega

/-- Behind a semicolon a line starts as it does alone, further to the right. -/
theorem skipSpaces_start (line : String) (offset : Nat) :
    skipSpaces ⟨line.toList, offset⟩ = (start line).moved offset := by
  rw [start, ← skipSpaces_moved, moved, Nat.zero_add]

end Token.Cursor

namespace Command

open Token.Cursor (EndsInSpaces)

/-- Once the first of two joined lines is read, the parser stands before the
semicolon and the second one, and nothing else has changed. -/
theorem exists_joint {line : String} {commands : List Command}
    (parsed : parseLine line = .ok commands) (ends : EndsInSpaces line.toList) (other : String) :
    ∃ begun joint, Parser.start (line ++ ";" ++ other) = .ok begun
      ∧ Parser.line begun = Parser.lineAfter commands.reverse joint
      ∧ joint.lookahead.kind = .semicolon
      ∧ joint.upcoming
        = ((Token.Cursor.start other).moved (line.utf8ByteSize + 1)).read.tokens
      ∧ joint.fault? = ((Token.Cursor.start other).moved (line.utf8ByteSize + 1)).read.fault
      ∧ joint.depth = 0 := by
  have unmoved : Token.Cursor.start line = (Token.Cursor.start line).moved 0 := rfl
  have whole := ((parseLine_moved unmoved).1 commands parsed).2
  rcases Token.Cursor.read_joined (Token.Cursor.start line) other.toList
    (Token.Cursor.skipSpaces_skipSpaces _) (Token.Cursor.endsInSpaces_skipSpaces ends) whole
    with ⟨before, last, offset, tokens, place, ending, start, others, joinedTokens, joinedFault⟩
  rw [Token.Cursor.byteSize_start] at place
  subst place
  rw [← Token.Cursor.start_joined, Token.Cursor.skipSpaces_start] at joinedTokens joinedFault
  have terminates : last.kind.isTerminator = true := by
    rw [ending]
    rfl
  let pairing : Parser.Pairing :=
    { place := id, place' := id, tail := [last]
      tail' := Token.Cursor.semicolonAt line.utf8ByteSize
        :: ((Token.Cursor.start other).moved (line.utf8ByteSize + 1)).read.tokens
      fault? := none
      fault'? := ((Token.Cursor.start other).moved (line.utf8ByteSize + 1)).read.fault
      ends := .terminator terminates rfl start }
  have stream : pairing.Stream (Token.Cursor.start line).read.tokens
      (Token.Cursor.start (line ++ ";" ++ other)).read.tokens := by
    have shared : pairing.Stream (before ++ pairing.tail)
        (before.map (Token.relocate id) ++ pairing.tail') :=
      Parser.Pairing.stream_moved rfl Function.injective_id others
    rw [funext Token.relocate_id, List.map_id'] at shared
    rw [tokens, joinedTokens]
    exact shared
  rcases Parser.Pairing.start_cases stream whole joinedFault
    with ⟨state, begun, started, started', stands⟩ | ⟨fault, fault', failed, -⟩
  · cases ran : Parser.line state with
    | error fault after =>
        rw [parseLine_of_error started ran] at parsed
        cases parsed
    | ok all after =>
        rw [parseLine_of_ok started ran] at parsed
        cases parsed
        rcases Parser.Pairing.line_shared rfl ending stands ran
          with ⟨read, read', between, joint, same, continues, reversed, there, before⟩
        have sameRead : read = read' := by
          simp only [Parser.Pairing.Continues, pairing, map_relocate_id,
            List.append_nil] at continues
          exact continues
        refine ⟨begun, joint, started', ?_, ?_, ?_, there.fault_eq', there.depth_eq'⟩
        · rw [same, reversed, List.reverse_reverse, sameRead]
        · rw [(List.cons.inj before).1]
          rfl
        · exact (List.cons.inj before).2
  · rw [parseLine_of_fault failed] at parsed
    cases parsed

/-- A line and another one behind a semicolon are read as the commands of the
first and, further to the right, those of the second; a fault in the second one
is found where it is then. -/
theorem parseLine_joined {line other : String} {commands : List Command}
    (parsed : parseLine line = .ok commands) (ends : EndsInSpaces line.toList)
    (noPath : ∀ token, (Token.Cursor.start other).peek = .ok token -> token.kind ≠ .path) :
    (∀ others, parseLine other = .ok others -> parseLine (line ++ ";" ++ other)
        = .ok (commands ++ others.map (Command.relocate (· + (line.utf8ByteSize + 1)))))
      ∧ ∀ fault, parseLine other = .error fault -> parseLine (line ++ ";" ++ other)
        = .error (fault.relocate (· + (line.utf8ByteSize + 1))) := by
  rcases exists_joint parsed ends other
    with ⟨begun, joint, started, same, semicolon, upcoming, fault, depth⟩
  rcases Parser.Pairing.exists_moved (Token.Cursor.start other) (line.utf8ByteSize + 1)
    with ⟨pairing, closed, place, place', known, known', stream⟩
  rcases stream.shape with ⟨next, more, next', more', shape, shape'⟩
    | ⟨none, none', first, first', failing, failing', alike⟩
  · rcases Parser.start_of_tokens shape
      with ⟨state, begun', lookahead, behind, unread, lastEnd, level⟩
    have stands : pairing.At { depth := 0, size := state.remaining } state
        { joint with lookahead := next', upcoming := more', lastEnd := next'.span.start } := by
      refine ⟨?_, unread.trans known, fault.trans known', level, depth, Nat.le_refl _, ?_⟩
      · rw [Parser.State.tokens, lookahead, behind, ← shape, Parser.State.tokens, ← shape']
        exact stream
      · rw [shape, shape'] at stream
        rw [lastEnd]
        exact stream.start
    have visible : state.lookahead.kind ≠ .path := by
      rw [lookahead]
      exact noPath next (Token.Cursor.peek_of_read shape)
    have related := Parser.Pairing.related_behindSemicolon closed semicolon
      (upcoming.trans shape') rfl stands visible commands.reverse
    cases ran : Parser.line state <;> cases ran' : Parser.lineAfter commands.reverse joint <;>
      rw [ran, ran'] at related
    · rw [parseLine_of_ok begun' ran, parseLine_of_ok started (same.trans ran')]
      apply Steps.outcomes_of_ok
      rcases related with ⟨equal, -⟩
      rw [place, place', map_relocate_id, map_relocate_id, List.reverse_reverse] at equal
      rw [← equal]
    · cases related
    · cases related
    · rw [parseLine_of_error begun' ran, parseLine_of_error started (same.trans ran')]
      apply Steps.outcomes_of_error
      rw [Parser.Pairing.fault_of_alike place' related, place]
  · have failed := Parser.start_of_fault none (known.trans failing)
    have eaten : Parser.advance joint = .error first' joint :=
      Parser.advance_of_fault (upcoming.trans none') ((fault.trans known').trans failing')
    have further : Parser.furtherStatement commands.reverse joint = .error first' joint := by
      rw [Parser.furtherStatement_eq, Steps.discard_bind, Steps.bind_of_error eaten]
    have ran := same.trans (Parser.lineAfter_of_error semicolon further)
    rw [parseLine_of_fault failed, parseLine_of_error started ran]
    apply Steps.outcomes_of_error
    rw [Parser.Pairing.fault_of_alike place' alike, place]

theorem parseLine_joined_motd :
    let motd : Command := { name := "motd", action := .motd, parameters := [], span := ⟨0, 4⟩ }
    let echo : Command :=
      { name := "echo", action := .echo, parameters := [.expression (.var "x")], span := ⟨1, 8⟩ }
    parseLine "motd " = .ok [motd] ∧ EndsInSpaces "motd ".toList
      ∧ parseLine " echo $x" = .ok [echo]
      ∧ parseLine ("motd " ++ ";" ++ " echo $x")
        = .ok ([motd] ++ [echo].map (Command.relocate (· + ("motd ".utf8ByteSize + 1))))
      ∧ parseLine " what" = .error (.unknownCommand "what" 1)
      ∧ parseLine ("motd " ++ ";" ++ " what")
        = .error (.unknownCommand "what" (1 + ("motd ".utf8ByteSize + 1))) := by
  intro motd echo
  have parsed : parseLine "motd " = .ok [motd] := by
    dsimp only [motd]
    with_unfolding_all rfl
  have ends : EndsInSpaces "motd ".toList := by decide
  have echoed : parseLine " echo $x" = .ok [echo] := by
    dsimp only [echo]
    with_unfolding_all rfl
  have failed : parseLine " what" = .error (.unknownCommand "what" 1) := by
    with_unfolding_all rfl
  have startsWithEcho : (Token.Cursor.start " echo $x").peek = .ok ⟨.word, "echo", ⟨1, 5⟩⟩ := by
    with_unfolding_all rfl
  have startsWithWhat : (Token.Cursor.start " what").peek = .ok ⟨.word, "what", ⟨1, 5⟩⟩ := by
    with_unfolding_all rfl
  refine ⟨parsed, ends, echoed, ?_, failed, ?_⟩
  · refine (parseLine_joined parsed ends ?_).1 _ echoed
    intro token found
    rw [startsWithEcho] at found
    cases found
    decide
  · refine (parseLine_joined parsed ends ?_).2 _ failed
    intro token found
    rw [startsWithWhat] at found
    cases found
    decide

end Command
end LineShell
