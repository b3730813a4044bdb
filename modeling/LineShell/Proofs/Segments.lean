import LineShell.Proofs.Sources

namespace LineShell

/-!
# Statements between semicolons

The semicolons of a line divide its tokens into segments, and each segment is a
statement.  A statement gives one command, or a warning if it is a path, so no
statement is lost and none is made up.  No token of a command is a semicolon, so
a command never reaches into the next segment.
-/

open Steps

theorem Token.Cursor.EndsProperly.of_append {front back : List Token} {fault : Option Fault}
    (ends : EndsProperly (front ++ back) fault) (some : back ≠ []) : EndsProperly back fault := by
  cases fault with
  | none =>
      rcases ends with ⟨before, last, shape, ending, others⟩
      obtain ⟨most, final, rfl⟩ : ∃ most final, back = most ++ [final] :=
        ⟨_, _, (List.dropLast_append_getLast some).symm⟩
      rw [← List.append_assoc] at shape
      rcases List.append_inj' shape rfl with ⟨rfl, same⟩
      cases same
      exact ⟨most, last, rfl, ending, fun token member =>
        others token (List.mem_append_right front member)⟩
  | some fault => exact fun token member => ends token (List.mem_append_right front member)

/-- Nothing stands behind the end of a line. -/
theorem Token.Cursor.EndsProperly.eq_nil {first : Token} {others : List Token}
    {fault : Option Fault} (ends : EndsProperly (first :: others) fault)
    (ending : first.kind = .endOfLine) : others = [] := by
  cases fault with
  | some fault => exact absurd ending (ends first List.mem_cons_self)
  | none =>
      rcases ends with ⟨before, last, shape, _, going⟩
      cases before with
      | nil => exact (List.cons.inj shape).2
      | cons token more =>
          rw [(List.cons.inj shape).1] at ending
          exact absurd ending (going token List.mem_cons_self)

namespace Parser

/-! ## Segments -/

/-- The tokens of a line before its end, with the commands that its segments are
read as, and the warnings. -/
inductive Segments : List Token -> List Command -> List Warning -> Prop
  | first {tokens command} :
      (∀ token ∈ tokens, token.kind.isTerminator = false) ->
      Stated tokens command ->
      Segments tokens [command] []
  | further {tokens commands warnings semicolon more command} :
      Segments tokens commands warnings ->
      semicolon.kind = .semicolon ->
      (∀ token ∈ more, token.kind.isTerminator = false) ->
      Stated more command ->
      Segments (tokens ++ semicolon :: more) (commands ++ [command]) warnings
  | path {tokens commands warnings semicolon path} :
      Segments tokens commands warnings ->
      semicolon.kind = .semicolon ->
      path.kind = .path ->
      Segments (tokens ++ [semicolon, path]) commands (warnings ++ [.noFilesystem])

/-- Between two states segments are read, as the given commands, the latest
first. -/
structure Progress (whole : State) (commands : List Command) (state : State) : Prop where
  segments : ∃ tokens, whole.tokens = tokens ++ state.tokens
    ∧ Segments tokens commands.reverse state.warnings
  fault : state.fault? = whole.fault?

section Reading

variable {whole state : State} {commands : List Command}

theorem ensures_expectTerminator (state : State) :
    Ensures (fun _ after => after = state) (fun _ _ => True) (expectTerminator state) := by
  rw [expectTerminator]
  split
  · rfl
  · trivial

theorem ensures_eatEnding (state : State) :
    Ensures (fun _ after => state.lookahead.kind = .endOfLine ∧ after.warnings = state.warnings)
      (fun _ _ => True) (eat .endOfLine state) := by
  rw [eat]
  by_cases ends : state.lookahead.kind = .endOfLine
  · rw [eatAny_of_mem (List.mem_singleton.mpr ends)]
    cases ran : advance state with
    | error fault after => trivial
    | ok token after => exact ⟨ends, (advance_keeps ran).2⟩
  · have unwanted : state.lookahead.kind ∉ [Token.Kind.endOfLine] := by simpa using ends
    cases stops : state.lookahead.kind.isTerminator with
    | true =>
        rw [eatAny_of_terminator unwanted stops]
        trivial
    | false =>
        rw [eatAny_of_other unwanted stops]
        trivial

/-- What is read behind a semicolon is one more segment. -/
theorem Progress.afterSemicolon {semicolon : Token} {read : List Token}
    (proper : Token.Cursor.EndsProperly state.tokens state.fault?)
    (tokens : whole.tokens = read ++ semicolon :: state.tokens)
    (segments : Segments read commands.reverse state.warnings)
    (isSemicolon : semicolon.kind = .semicolon) (fault : state.fault? = whole.fault?) :
    Ensures (Progress whole) (fun _ _ => True) (Parser.afterSemicolon commands state) := by
  rw [Parser.afterSemicolon, get_bind]
  split
  · next isPath =>
    rw [discard_bind]
    apply Ensures.bind (obeysAt_and (obeysAt_advance_of_kind isPath rfl)
      (localAt_advance_of_kind isPath rfl))
    rintro _ after ⟨_, eats, ⟨rfl, rfl⟩, unwarned, _⟩
    rw [warn, modify_bind]
    apply Ensures.bind (ensures_expectTerminator _)
    rintro _ _ rfl
    refine ⟨⟨read ++ [semicolon, state.lookahead], ?_, ?_⟩, eats.fault.trans fault⟩
    · rw [tokens, eats.tokens_eq proper]
      simp only [List.append_assoc, List.cons_append, List.nil_append]
      rfl
    · rw [unwarned]
      exact .path segments isSemicolon isPath
  · apply Ensures.bind (obeysAt_statement state)
    rintro command after ⟨eaten, eats, unwarned, stated⟩
    apply Ensures.bind (ensures_expectTerminator after)
    rintro _ _ rfl
    refine ⟨⟨read ++ semicolon :: eaten, ?_, ?_⟩, eats.fault.trans fault⟩
    · rw [tokens, eats.tokens_eq proper]
      simp only [List.append_assoc, List.cons_append]
    · rw [List.reverse_cons, unwarned]
      exact .further segments isSemicolon eats.going stated

/-- A round of the loop reads one more segment. -/
theorem Progress.furtherStatement (proper : Token.Cursor.EndsProperly whole.tokens whole.fault?)
    (progress : Progress whole commands state) (isSemicolon : state.lookahead.kind = .semicolon) :
    Ensures (Progress whole) (fun _ _ => True) (Parser.furtherStatement commands state) := by
  rcases progress with ⟨⟨read, tokens, segments⟩, fault⟩
  rw [furtherStatement_eq, discard_bind]
  cases upcoming : state.upcoming with
  | cons next others =>
      rw [bind_of_ok (advance_of_upcoming upcoming)]
      have here : state.tokens = state.lookahead :: next :: others := by
        rw [State.tokens, upcoming]
      rw [here] at tokens
      refine Progress.afterSemicolon ?_ tokens segments isSemicolon fault
      rw [tokens, List.append_cons, ← fault] at proper
      exact proper.of_append (List.cons_ne_nil _ _)
  | nil =>
      cases failed : state.fault? with
      | some other =>
          rw [bind_of_error (advance_of_fault upcoming failed)]
          trivial
      | none =>
          -- The last token of a line without a fault is its end.
          have here : state.tokens = [state.lookahead] := by rw [State.tokens, upcoming]
          rw [tokens, here, ← fault, failed] at proper
          rcases proper with ⟨before, last, shape, ending, _⟩
          rcases List.append_inj' shape rfl with ⟨_, same⟩
          cases same
          rw [isSemicolon] at ending
          cases ending

/-- A line that is read is made of segments up to its end. -/
theorem line_segments (proper : Token.Cursor.EndsProperly state.tokens state.fault?)
    (fresh : state.warnings = []) {after : State} (ran : line state = .ok commands after) :
    ∃ tokens ending, state.tokens = tokens ++ [ending] ∧ ending.kind = .endOfLine
      ∧ Segments tokens commands after.warnings := by
  have reads : Ensures
      (fun commands after => ∃ tokens ending, state.tokens = tokens ++ [ending]
        ∧ ending.kind = .endOfLine ∧ Segments tokens commands after.warnings)
      (fun _ _ => True) (line state) := by
    rw [line_eq]
    apply Ensures.bind (obeysAt_statement state)
    rintro first between ⟨eaten, eats, unwarned, stated⟩
    apply Ensures.bind (ensures_expectTerminator between)
    rintro _ between rfl
    have begun : Progress state [first] between := by
      refine ⟨⟨eaten, eats.tokens_eq proper, ?_⟩, eats.fault⟩
      rw [unwarned, fresh]
      exact .first eats.going stated
    have loop : Ensures (Progress state) (fun _ _ => True) (statementLoop [first] between) :=
      repeatWhile_ensures (fun commands _ goes progress =>
        progress.furtherStatement proper (of_decide_eq_true goes)) begun
    apply Ensures.bind loop
    rintro commands last ⟨⟨tokens, shape, segments⟩, fault⟩
    rw [discard_bind]
    apply Ensures.bind (ensures_eatEnding last)
    rintro _ behind ⟨ends, kept⟩
    rw [shape] at proper
    have nothing := (proper.of_append (List.cons_ne_nil _ _)).eq_nil ends
    refine ⟨tokens, last.lookahead, ?_, ends, kept ▸ segments⟩
    rw [shape, State.tokens, nothing]
  rw [ran] at reads
  exact reads

end Reading

namespace Segments

variable {line : String} {tokens : List Token} {commands : List Command} {warnings : List Warning}

/-- Every segment gives a command or a warning. -/
theorem length_add_length (segments : Segments tokens commands warnings) :
    commands.length + warnings.length
      = (tokens.filter fun token => token.kind = .semicolon).length + 1 := by
  -- No token of a statement counts.
  have none : ∀ {statement : List Token},
      (∀ token ∈ statement, token.kind.isTerminator = false) ->
      statement.filter (fun token => decide (token.kind = .semicolon)) = [] := by
    intro statement going
    apply List.filter_eq_nil_iff.mpr
    intro token member isSemicolon
    have goes := going token member
    rw [of_decide_eq_true isSemicolon] at goes
    cases goes
  induction segments with
  | first going _ =>
      rw [none going]
      rfl
  | further _ isSemicolon going _ ih =>
      simp only [List.filter_append, List.filter_cons, isSemicolon, none going, decide_true,
        if_true, List.length_append, List.length_cons, List.length_nil]
      omega
  | path _ isSemicolon isPath ih =>
      simp only [List.filter_append, List.filter_cons, isSemicolon, isPath, decide_true, if_true,
        reduceCtorEq, decide_false, Bool.false_eq_true, if_false, List.filter_nil,
        List.length_append, List.length_cons, List.length_nil]
      omega

/-- Every command is the statement of a segment. -/
theorem stated (segments : Segments tokens commands warnings) {command : Command}
    (member : command ∈ commands) :
    ∃ part, part <:+: tokens ∧ Stated part command
      ∧ ∀ token ∈ part, token.kind.isTerminator = false := by
  induction segments with
  | @first part _ going isStated =>
      rw [List.mem_singleton] at member
      subst member
      exact ⟨part, List.infix_refl part, isStated, going⟩
  | @further tokens _ _ semicolon more _ _ _ going isStated ih =>
      rcases List.mem_append.mp member with earlier | last
      · rcases ih earlier with ⟨part, within, found⟩
        exact ⟨part, within.trans (List.prefix_append _ _).isInfix, found⟩
      · rw [List.mem_singleton] at last
        subst last
        refine ⟨more, ?_, isStated, going⟩
        exact ((List.suffix_cons semicolon more).trans (List.suffix_append tokens _)).isInfix
  | path _ _ _ ih =>
      rcases ih member with ⟨part, within, found⟩
      exact ⟨part, within.trans (List.prefix_append _ _).isInfix, found⟩

/-- Every command that occurs in a line was read from tokens of its own. -/
theorem occurs (segments : Segments tokens commands warnings) {command : Command}
    (occurs : Command.Occurs commands command) :
    ∃ mark own, mark ++ own <:+: tokens ∧ Source mark own command
      ∧ Traces (Source []) own command.calls := by
  rcases occurs with member | ⟨outer, member, called⟩
  · rcases segments.stated member with ⟨_, within, ⟨mark, own, rfl, source, traces⟩, _⟩
    exact ⟨mark, own, within, source, traces⟩
  · rcases segments.stated member with ⟨_, within, ⟨mark, outermost, rfl, _, traces⟩, _⟩
    rcases traces.occurs (Command.occurs_calls called) with ⟨own, inside, source, inner⟩
    exact ⟨[], own, (inside.trans (List.suffix_append mark _).isInfix).trans within, source, inner⟩

end Segments
end Parser

end LineShell
