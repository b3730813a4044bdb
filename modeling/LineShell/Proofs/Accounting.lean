import LineShell.Proofs.Segments
import LineShell.Proofs.Tiling

namespace LineShell

/-!
# The places of commands

The tokens of a line stand on it one behind the other, and the span of a command
goes from the first of its tokens to the last.  So the order of tokens becomes
the order of spans: a command stands between semicolons, and a call stands
inside the command that makes it.  What `cd` glues together out of tokens that
adjoin each other is the text of the line, since the tokens have the texts of
their places.
-/

/-! ## The places of tokens -/

/-- A stretch of a line that is not empty. -/
structure Span.IsPart (line : String) (span : Span) : Prop extends IsWithin line span where
  solid : span.start < span.stop

namespace Token

/-- Tokens with a text that stand on a line one behind the other. -/
structure Laid (line : String) (tokens : List Token) : Prop where
  ordered : tokens.Pairwise fun earlier later => earlier.span.stop ≤ later.span.start
  isPart : ∀ token ∈ tokens, token.span.IsPart line
  text_eq : ∀ token ∈ tokens, token.text = token.span.slice line

section Laying

variable {line : String} {start stop : Nat} {tokens : List Token}

theorem Laid.of_infix {part : List Token} (laid : Laid line tokens) (within : part <:+: tokens) :
    Laid line part where
  ordered := laid.ordered.sublist within.sublist
  isPart := fun token member => laid.isPart token (within.subset member)
  text_eq := fun token member => laid.text_eq token (within.subset member)

/-- The tokens of a line before its end. -/
theorem laid_of_read {ending : Token}
    (shape : (Cursor.start line).read.tokens = tokens ++ [ending])
    (going : ∀ token ∈ tokens, token.kind ≠ .endOfLine) : Laid line tokens := by
  have tiles := ((Cursor.isAt_start line).tiles_read (Cursor.gap_start line)).1
  have places := tiles.text_eq
  have ordered := tiles.pairwise
  have nonempty : ∀ token ∈ (Cursor.start line).read.tokens, token.kind ≠ .endOfLine ->
      token.text ≠ "" := fun _ member => Cursor.text_ne_empty_of_mem_read member
  rw [shape] at places ordered nonempty
  have member : ∀ token ∈ tokens, token ∈ tokens ++ [ending] :=
    fun _ member => List.mem_append_left _ member
  refine ⟨(List.pairwise_append.mp ordered).1, ?_, fun token isToken =>
    (places token (member token isToken)).2⟩
  intro token isToken
  rcases places token (member token isToken) with ⟨within, text_eq⟩
  refine { within with solid := Nat.lt_of_not_le fun empty => ?_ }
  apply nonempty token (member token isToken) (going token isToken)
  rw [text_eq, Span.slice, String.Pos.Raw.extract, if_pos empty]

end Laying

/-- The span goes from the first of the tokens to the last of them. -/
structure Spans (tokens : List Token) (span : Span) : Prop where
  start : ∃ token ∈ tokens, span.start = token.span.start
  stop : ∃ token ∈ tokens, span.stop = token.span.stop
  around : ∀ token ∈ tokens, span.start ≤ token.span.start ∧ token.span.stop ≤ span.stop

namespace Spans

variable {line : String} {tokens part : List Token} {span inner : Span}

theorem of_spanOf {first : Token} {others : List Token} (laid : Laid line (first :: others)) :
    Spans (first :: others) (Grammar.spanOf first others) := by
  obtain ⟨most, last, shape⟩ : ∃ most last, first :: others = most ++ [last] :=
    ⟨_, _, (List.dropLast_append_getLast (List.cons_ne_nil first others)).symm⟩
  have final : others.getLastD first = last := by
    have ends := congrArg List.getLast? shape
    rw [List.getLast?_concat, List.getLast?_cons, ← List.getLastD_eq_getLast?] at ends
    exact Option.some.inj ends
  have solid : ∀ token ∈ first :: others, token.span.start < token.span.stop :=
    fun token member => (laid.isPart token member).solid
  rw [Grammar.spanOf, final]
  refine ⟨⟨first, List.mem_cons_self, rfl⟩, ⟨last, ?_, rfl⟩, fun token member => ⟨?_, ?_⟩⟩
  · rw [shape]
    exact List.mem_append_right most List.mem_cons_self
  · rcases List.mem_cons.mp member with rfl | later
    · exact Nat.le_refl _
    · have order := (List.pairwise_cons.mp laid.ordered).1 token later
      have positive := solid first List.mem_cons_self
      simp only
      omega
  · have ordered := laid.ordered
    rw [shape] at member ordered solid
    rcases List.mem_append.mp member with earlier | isLast
    · have order := (List.pairwise_append.mp ordered).2.2 token earlier last List.mem_cons_self
      have positive := solid last (List.mem_append_right most List.mem_cons_self)
      simp only
      omega
    · rw [List.mem_singleton.mp isLast]

theorem isPart (spans : Spans tokens span) (laid : Laid line tokens) : span.IsPart line := by
  rcases spans.start with ⟨first, isFirst, start⟩
  rcases spans.stop with ⟨last, isLast, stop⟩
  have solid : span.start < span.stop := by
    have positive := (laid.isPart first isFirst).solid
    have ends := (spans.around first isFirst).2
    omega
  exact
    { start_le_stop := solid.le
      start_valid := start ▸ (laid.isPart first isFirst).start_valid
      stop_valid := stop ▸ (laid.isPart last isLast).stop_valid
      solid }

theorem inside (spans : Spans tokens span) (innerSpans : Spans part inner)
    (within : part <:+: tokens) : span.start ≤ inner.start ∧ inner.stop ≤ span.stop := by
  rcases innerSpans.start with ⟨first, isFirst, start⟩
  rcases innerSpans.stop with ⟨last, isLast, stop⟩
  rw [start, stop]
  exact ⟨(spans.around first (within.subset isFirst)).1,
    (spans.around last (within.subset isLast)).2⟩

theorem stop_le (spans : Spans tokens span) {bound : Nat}
    (before : ∀ token ∈ tokens, token.span.stop ≤ bound) : span.stop ≤ bound := by
  rcases spans.stop with ⟨last, isLast, stop⟩
  exact stop ▸ before last isLast

theorem le_start (spans : Spans tokens span) {bound : Nat}
    (behind : ∀ token ∈ tokens, bound ≤ token.span.start) : bound ≤ span.start := by
  rcases spans.start with ⟨first, isFirst, start⟩
  exact start ▸ behind first isFirst

end Spans

/-- The text of tokens that adjoin each other is the text on their stretch. -/
theorem Laid.join_eq {line : String} {first : Token} {pieces : List Token}
    (laid : Laid line (first :: pieces)) (adjoin : List.IsChain Grammar.Adjoins (first :: pieces)) :
    String.join ((first :: pieces).map Token.text)
      = (Grammar.spanOf first pieces).slice line := by
  induction pieces generalizing first with
  | nil =>
      rw [List.map_singleton, laid.text_eq first List.mem_cons_self, String.join_cons,
        String.join_nil, String.append_empty]
      rfl
  | cons next pieces ih =>
      rcases List.isChain_cons_cons.mp adjoin with ⟨meets, others⟩
      have rest : Laid line (next :: pieces) := laid.of_infix (List.suffix_cons _ _).isInfix
      have within := ((Spans.of_spanOf rest).isPart rest).toIsWithin
      rw [List.map_cons, String.join_cons, ih rest others, laid.text_eq first List.mem_cons_self]
      rw [Grammar.spanOf, meets] at within ⊢
      rw [Grammar.spanOf, List.getLastD_cons]
      exact Span.slice_append (laid.isPart first List.mem_cons_self).toIsWithin within

end Token

/-! ## Commands and their calls -/

namespace Parser

variable {line : String} {mark own tokens : List Token} {command inner : Command}
  {commands : List Command} {warnings : List Warning}

theorem Source.spans (source : Source mark own command) (laid : Token.Laid line own) :
    Token.Spans own command.span := by
  rcases source.span with ⟨first, others, rfl, same⟩
  rw [same]
  exact .of_spanOf laid

/-- What is called inside a command lies inside its span. -/
theorem Source.inside (source : Source mark own command)
    (traces : Traces (Source []) own command.calls) (laid : Token.Laid line own)
    (called : .call inner ∈ command.expressions) :
    inner.span.IsPart line
      ∧ command.span.start ≤ inner.span.start ∧ inner.span.stop ≤ command.span.stop := by
  rcases traces.occurs (Command.occurs_calls called) with ⟨part, within, innerSource, _⟩
  have innerLaid := laid.of_infix within
  have innerSpans := innerSource.spans innerLaid
  exact ⟨innerSpans.isPart innerLaid, (source.spans laid).inside innerSpans within⟩

/-- Traced commands stand in order. -/
theorem pairwise_of_traces (traces : Traces (Source []) tokens commands)
    (laid : Token.Laid line tokens) :
    commands.Pairwise fun earlier later => earlier.span.stop ≤ later.span.start := by
  induction traces with
  | none => exact .nil
  | @more before own rest command commands source inside others _ ih =>
      have here : own <:+: before ++ own ++ rest := ⟨before, rest, rfl⟩
      have there : rest <:+: before ++ own ++ rest := (List.suffix_append _ _).isInfix
      apply List.Pairwise.cons _ (ih (laid.of_infix there))
      intro later member
      rcases others.occurs (.inl member) with ⟨part, within, laterSource, _⟩
      apply (source.spans (laid.of_infix here)).stop_le
      intro token isOwn
      apply (laterSource.spans (laid.of_infix (within.trans there))).le_start
      intro other isOther
      exact (List.pairwise_append.mp laid.ordered).2.2 token (List.mem_append_right before isOwn)
        other (within.subset isOther)

/-- What `cd` is given by the tokens behind its name, if its command stops at the
given place. -/
def pathArguments (line : String) (stop : Nat) : List Token -> List Argument
  | [] => []
  | first :: _ =>
      let text := if first.kind = .string then plainText first
        else Span.slice line { start := first.span.start, stop }
      [.path text]

/-- The path of `cd` is the text behind its name, unless it stands in quotes. -/
theorem Source.path_eq (source : Source mark own command) (laid : Token.Laid line own)
    (isCd : command.action = .cd) :
    ∃ name arguments, own = name :: arguments ∧ command.span = Grammar.spanOf name arguments
      ∧ command.parameters = pathArguments line command.span.stop arguments := by
  rcases source.span with ⟨name, arguments, rfl, span⟩
  rcases source.path isCd with ⟨_, _, same, path⟩
  cases same
  refine ⟨name, arguments, rfl, span, ?_⟩
  generalize command.parameters = parameters at path ⊢
  cases path with
  | cdHome => rfl
  | cdQuoted isString =>
      simp only [pathArguments, isString, if_true]
  | @cdPieces first pieces begins _ adjoin =>
      have bare : first.kind ≠ .string := by
        rcases begins with isTilde | among
        · rw [of_decide_eq_true (Bool.and_eq_true_iff.mp isTilde).1]
          decide
        · intro isString
          rw [isString] at among
          revert among
          decide
      have rest := laid.of_infix (List.suffix_cons name _).isInfix
      simp only [pathArguments, bare, if_false]
      rw [rest.join_eq adjoin, span, Grammar.spanOf, Grammar.spanOf, List.getLastD_cons]
  | bare among => exact absurd among (by decide)

theorem Stated.spans (stated : Stated tokens command) (laid : Token.Laid line tokens) :
    ∃ own, own <:+: tokens ∧ Token.Spans own command.span := by
  rcases stated with ⟨mark, own, rfl, source, _⟩
  have within : own <:+: mark ++ own := (List.suffix_append mark own).isInfix
  exact ⟨own, within, source.spans (laid.of_infix within)⟩

namespace Segments

/-- A semicolon stands before a command or behind it. -/
theorem apart (segments : Segments tokens commands warnings) (laid : Token.Laid line tokens)
    (member : command ∈ commands) {semicolon : Token} (among : semicolon ∈ tokens)
    (isSemicolon : semicolon.kind = .semicolon) :
    semicolon.span.stop ≤ command.span.start ∨ command.span.stop ≤ semicolon.span.start := by
  rcases segments.stated member with ⟨part, ⟨before, after, rfl⟩, stated, going⟩
  rcases stated.spans (laid.of_infix ⟨before, after, rfl⟩) with ⟨own, within, spans⟩
  rcases List.pairwise_append.mp laid.ordered with ⟨ordered, _, behind⟩
  rcases List.mem_append.mp among with front | later
  · rcases List.mem_append.mp front with earlier | inside
    · left
      apply spans.le_start
      intro token isOwn
      exact (List.pairwise_append.mp ordered).2.2 semicolon earlier token (within.subset isOwn)
    · have goes := going semicolon inside
      rw [isSemicolon] at goes
      cases goes
  · right
    apply spans.stop_le
    intro token isOwn
    exact behind token (List.mem_append_right before (within.subset isOwn)) semicolon later

/-- Between two commands stands a semicolon. -/
theorem pairwise (segments : Segments tokens commands warnings)
    (laid : Token.Laid line tokens) :
    commands.Pairwise fun earlier later => ∃ semicolon ∈ tokens, semicolon.kind = .semicolon
      ∧ earlier.span.stop ≤ semicolon.span.start ∧ semicolon.span.stop ≤ later.span.start := by
  induction segments with
  | first _ _ => exact List.pairwise_singleton _ _
  | @further tokens commands _ semicolon more last segments isSemicolon _ stated ih =>
      have front : tokens <:+: tokens ++ semicolon :: more := (List.prefix_append _ _).isInfix
      have back : more <:+: tokens ++ semicolon :: more :=
        ((List.suffix_cons semicolon more).trans (List.suffix_append tokens _)).isInfix
      rcases List.pairwise_append.mp laid.ordered with ⟨_, ordered, before⟩
      refine List.pairwise_append.mpr ⟨?_, List.pairwise_singleton _ _, ?_⟩
      · apply (ih (laid.of_infix front)).imp
        rintro earlier later ⟨between, among, found⟩
        exact ⟨between, List.mem_append_left _ among, found⟩
      · intro earlier member later isLast
        rw [List.mem_singleton] at isLast
        subst isLast
        refine ⟨semicolon, List.mem_append_right _ List.mem_cons_self, isSemicolon, ?_, ?_⟩
        · rcases segments.stated member with ⟨part, inside, isStated, _⟩
          rcases isStated.spans (laid.of_infix (inside.trans front)) with ⟨own, within, spans⟩
          apply spans.stop_le
          intro token isOwn
          exact before token (inside.subset (within.subset isOwn)) semicolon List.mem_cons_self
        · rcases stated.spans (laid.of_infix back) with ⟨own, within, spans⟩
          apply spans.le_start
          intro token isOwn
          exact (List.pairwise_cons.mp ordered).1 token (within.subset isOwn)
  | path _ _ _ ih =>
      apply (ih (laid.of_infix (List.prefix_append _ _).isInfix)).imp
      rintro earlier later ⟨between, among, found⟩
      exact ⟨between, List.mem_append_left _ among, found⟩

end Segments
end Parser

/-! ## Whole lines -/

theorem Parser.tokens_of_start {line : String} {state : Parser.State}
    (begun : Parser.start line = .ok state) :
    state.tokens = (Token.Cursor.start line).read.tokens
      ∧ state.fault? = (Token.Cursor.start line).read.fault ∧ state.warnings = [] := by
  rw [start] at begun
  split at begun
  · next shape =>
    cases begun
    exact ⟨shape.symm, rfl, rfl⟩
  · cases begun
  · cases begun

namespace Command

variable {line : String} {commands : List Command}

theorem run_of_parseLine (parsed : parseLine line = .ok commands) :
    ∃ state after, Parser.start line = .ok state ∧ Parser.line state = .ok commands after := by
  cases begun : Parser.start line with
  | error fault =>
      rw [parseLine_of_fault begun] at parsed
      cases parsed
  | ok state =>
      cases ran : Parser.line state with
      | error fault after =>
          rw [parseLine_of_error begun ran] at parsed
          cases parsed
      | ok found after =>
          rw [parseLine_of_ok begun ran] at parsed
          cases parsed
          exact ⟨state, after, rfl, ran⟩

/-- A line that has commands is made of segments, whose tokens stand on it one
behind the other. -/
theorem segments_of_parseLine (parsed : parseLine line = .ok commands) :
    ∃ state after tokens ending, Parser.start line = .ok state
      ∧ Parser.line state = .ok commands after
      ∧ (Token.Cursor.start line).read.tokens = tokens ++ [ending] ∧ ending.kind = .endOfLine
      ∧ (∀ token ∈ tokens, token.kind ≠ .endOfLine)
      ∧ Parser.Segments tokens commands after.warnings ∧ Token.Laid line tokens := by
  rcases run_of_parseLine parsed with ⟨state, after, begun, ran⟩
  rcases Parser.tokens_of_start begun with ⟨read, fault, fresh⟩
  have proper := Parser.endsProperly_of_start begun
  rcases Parser.line_segments proper fresh ran with ⟨tokens, ending, shape, ends, segments⟩
  have going : ∀ token ∈ tokens, token.kind ≠ .endOfLine := by
    intro token member isEnding
    obtain ⟨front, back, rfl⟩ := List.append_of_mem member
    rw [shape, List.append_assoc] at proper
    have nothing := (proper.of_append (List.cons_ne_nil _ _)).eq_nil isEnding
    exact absurd nothing (List.append_ne_nil_of_right_ne_nil _ (List.cons_ne_nil _ _))
  rw [read] at shape
  exact ⟨state, after, tokens, ending, begun, ran, shape, ends, going, segments,
    Token.laid_of_read shape going⟩

/-- The statements of a line are accounted for.  Each of them is a command or a
warning, and there is one more of them than there are semicolons.  The commands
stand in order, each on a part of the line that no semicolon is on, with a
semicolon between any two of them.  What is called inside a command stands
inside of it, and calls that stand beside each other stand in order.  Where `cd`
leads is the text from its first argument up to its end, unless that is quoted. -/
theorem parseLine_accounts (parsed : parseLine line = .ok commands) :
    let tokens := (Token.Cursor.start line).read.tokens
    let semicolons := tokens.filter fun token => token.kind = .semicolon
    ∃ state after, Parser.start line = .ok state ∧ Parser.line state = .ok commands after
      ∧ commands.length + after.warnings.length = semicolons.length + 1
      ∧ (∀ command ∈ commands, command.span.IsPart line
        ∧ ∀ semicolon ∈ semicolons, semicolon.span.stop ≤ command.span.start
          ∨ command.span.stop ≤ semicolon.span.start)
      ∧ commands.Pairwise (fun earlier later => earlier.span.stop < later.span.start
        ∧ ∃ semicolon ∈ semicolons, earlier.span.stop ≤ semicolon.span.start
          ∧ semicolon.span.stop ≤ later.span.start)
      ∧ ∀ command, Occurs commands command ->
          (∀ inner, .call inner ∈ command.expressions -> inner.span.IsPart line
            ∧ command.span.start ≤ inner.span.start ∧ inner.span.stop ≤ command.span.stop)
          ∧ command.calls.Pairwise (fun earlier later => earlier.span.stop ≤ later.span.start)
          ∧ (command.action = .cd -> ∃ name arguments, name :: arguments <:+: tokens
            ∧ command.span = Grammar.spanOf name arguments
            ∧ command.parameters = Parser.pathArguments line command.span.stop arguments) := by
  intro all semicolons
  rcases segments_of_parseLine parsed with
    ⟨state, after, tokens, ending, begun, ran, shape, ends, _, segments, laid⟩
  have same : semicolons = tokens.filter fun token => token.kind = .semicolon := by
    simp only [semicolons, all, shape, List.filter_append, List.filter_cons, ends, reduceCtorEq,
      decide_false, Bool.false_eq_true, if_false, List.filter_nil, List.append_nil]
  have among : ∀ semicolon, semicolon ∈ semicolons
      ↔ semicolon ∈ tokens ∧ semicolon.kind = .semicolon := by
    intro semicolon
    rw [same, List.mem_filter, decide_eq_true_iff]
  refine ⟨state, after, begun, ran, same ▸ segments.length_add_length, ?_, ?_, ?_⟩
  · intro command member
    constructor
    · rcases segments.stated member with ⟨part, within, stated, _⟩
      rcases stated.spans (laid.of_infix within) with ⟨own, inside, spans⟩
      exact spans.isPart (laid.of_infix (inside.trans within))
    · intro semicolon isSemicolon
      rcases (among semicolon).mp isSemicolon with ⟨inside, kind⟩
      exact segments.apart laid member inside kind
  · apply (segments.pairwise laid).imp
    rintro earlier later ⟨semicolon, inside, kind, before, behind⟩
    have solid := (laid.isPart semicolon inside).solid
    exact ⟨by omega, semicolon, (among semicolon).mpr ⟨inside, kind⟩, before, behind⟩
  · intro command occurs
    rcases segments.occurs occurs with ⟨mark, own, within, source, traces⟩
    have inside : own <:+: tokens := (List.suffix_append mark own).isInfix.trans within
    have ownLaid := laid.of_infix inside
    refine ⟨fun inner called => source.inside traces ownLaid called,
      Parser.pairwise_of_traces traces ownLaid, fun isCd => ?_⟩
    rcases source.path_eq ownLaid isCd with ⟨name, arguments, rfl, span, path⟩
    refine ⟨name, arguments, ?_, span, path⟩
    rw [show all = tokens ++ [ending] from shape]
    exact inside.trans (List.prefix_append _ _).isInfix

theorem parseLine_accounts_glued :
    let line := "x=[help echo,motd];/etc;cd a/b-c"
    ∃ commands, parseLine line = .ok commands
      ∧ commands.map Command.span = [⟨0, 18⟩, ⟨24, 32⟩]
      ∧ (commands.flatMap Command.calls).map Command.span = [⟨3, 12⟩, ⟨13, 17⟩]
      ∧ (∃ state after, Parser.start line = .ok state
        ∧ Parser.line state = .ok commands after ∧ after.warnings.length = 1)
      ∧ ∃ command ∈ commands, command.action = .cd ∧ text? command.parameters 0 = some "a/b-c"
        ∧ ∃ name arguments, command.span = Grammar.spanOf name arguments
          ∧ command.parameters = Parser.pathArguments line command.span.stop arguments := by
  intro line
  have accepted :
      (match parseLine line with
      | .ok commands =>
          decide (commands.map Command.span = [⟨0, 18⟩, ⟨24, 32⟩]
            ∧ (commands.flatMap Command.calls).map Command.span = [⟨3, 12⟩, ⟨13, 17⟩]
            ∧ ∃ command ∈ commands, command.action = .cd
              ∧ text? command.parameters 0 = some "a/b-c")
      | .error _ => false) = true := by
    decide +kernel
  have two : ((Token.Cursor.start line).read.tokens.filter
      fun token => token.kind = .semicolon).length = 2 := by
    decide +kernel
  cases parsed : parseLine line with
  | error fault =>
      rw [parsed] at accepted
      cases accepted
  | ok commands =>
      rw [parsed] at accepted
      rcases of_decide_eq_true accepted with ⟨spans, calls, command, member, isCd, text⟩
      rcases parseLine_accounts parsed with ⟨state, after, begun, ran, count, _, _, each⟩
      have length : commands.length = 2 := by
        have lengths := congrArg List.length spans
        rwa [List.length_map] at lengths
      rw [two, length] at count
      rcases (each command (.inl member)).2.2 isCd with ⟨name, arguments, _, span, path⟩
      exact ⟨commands, rfl, spans, calls, ⟨state, after, begun, ran, Nat.add_left_cancel count⟩,
        command, member, isCd, text, name, arguments, span, path⟩

end Command
end LineShell
