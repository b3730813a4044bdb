import LineShell.Proofs.Accounting
import LineShell.Proofs.OpenLevels

namespace LineShell

/-!
# Every loop gets nearer to the end of the line

Whatever reads an expression, an argument or a statement eats at least one
token, and never one that ends a statement.  Every token before the end of a
line has a text, so each token that is eaten moves the lookahead on.  No loop of
the parser goes round twice in front of the same token, and no primary
expression is begun twice in front of the same token.  The tokens of the line
therefore bound how often each of them can happen, and the parser comes to an
end on every line, also on one whose brackets are never closed.
-/

open Steps

/-- Each token of a line begins behind the beginning of the one before. -/
theorem Token.Cursor.start_lt_start (line : String) :
    (start line).read.tokens.Pairwise fun earlier later =>
      earlier.kind ≠ .endOfLine -> earlier.span.start < later.span.start := by
  have tiles := ((isAt_start line).tiles_read (gap_start line)).1
  apply tiles.pairwise.imp_of_mem
  intro earlier later isEarlier _ ordered going
  obtain ⟨_, text_eq⟩ := tiles.text_eq earlier isEarlier
  apply Nat.lt_of_lt_of_le _ ordered
  apply Nat.lt_of_not_le
  intro empty
  apply text_ne_empty_of_mem_read isEarlier going
  rw [text_eq, Span.slice, String.Pos.Raw.extract, if_pos empty]

/-- An argument is made of tokens. -/
theorem Grammar.Arguments.ne_nil {rule : List Token -> Expr -> Prop} {action : Action}
    {tokens : List Token} {parameters : List Argument}
    (solid : ∀ tokens value, rule tokens value -> tokens ≠ [])
    (derived : Grammar.Arguments rule action tokens parameters) (some : parameters ≠ []) :
    tokens ≠ [] := by
  cases derived with
  | help | clear | cdHome => exact absurd rfl some
  | bare _ => exact absurd rfl some
  | echo isValue => exact solid _ _ isValue
  | helpWith | clearWith | user | stackSet | stackGet | stackAll | cdQuoted | cdPieces =>
      exact List.cons_ne_nil _ _

namespace Parser

/-! ## States that are reached -/

/-- A state that is reached on a line, by calls or inside of one. -/
inductive Reached (text : String) : State -> Prop
  | begun {state} : start text = .ok state -> Reached text state
  | eaten {state token after} :
      Reached text state ->
      advance state = .ok token after ->
      Reached text after
  | counted {state} (depth : Nat) (warnings : List Warning) :
      Reached text state ->
      Reached text { state with depth, warnings }
  | called {state} (call : Call) : Reached text state -> Reached text (call.perform state)

section Reaching

variable {text : String} {state after : State} {token : Token}

theorem passes_of_advance (proper : state.IsProper) (ran : advance state = .ok token after) :
    state.Passes false after := by
  have steady := Call.steady_asking [state.lookahead.kind] state proper
  rw [eatAny_of_mem List.mem_cons_self, ran] at steady
  exact steady.1.1

theorem Reached.passes (reached : Reached text state) :
    ∃ begun, start text = .ok begun ∧ begun.IsProper ∧ begun.Passes false state := by
  induction reached with
  | begun starts => exact ⟨_, starts, endsProperly_of_start starts, .refl _⟩
  | eaten _ ran ih =>
      obtain ⟨begun, starts, proper, passes⟩ := ih
      exact ⟨begun, starts, proper, passes.trans (passes_of_advance (passes.isProper proper) ran)⟩
  | counted depth warnings _ ih =>
      obtain ⟨begun, starts, proper, passes⟩ := ih
      exact ⟨begun, starts, proper, passes.trans (.of_same rfl rfl rfl)⟩
  | called call _ ih =>
      obtain ⟨begun, starts, proper, passes⟩ := ih
      exact ⟨begun, starts, proper, passes.trans (call.passes_perform (passes.isProper proper))⟩

theorem Reached.isProper (reached : Reached text state) : state.IsProper := by
  obtain ⟨begun, _, proper, passes⟩ := reached.passes
  exact passes.isProper proper

theorem Reached.length_le (reached : Reached text state) :
    state.tokens.length ≤ (Token.Cursor.start text).read.tokens.length := by
  obtain ⟨begun, starts, _, passes⟩ := reached.passes
  rw [← (tokens_of_start starts).1]
  exact Nat.succ_le_succ passes.remaining_le

/-- What is eaten is the lookahead, and unless it is the end of the line, the
next token takes its place. -/
theorem tokens_of_advance (proper : state.IsProper) (ran : advance state = .ok token after)
    (going : token.kind ≠ .endOfLine) : state.tokens = token :: after.tokens := by
  cases upcoming : state.upcoming with
  | cons following others =>
      rw [advance_of_upcoming upcoming] at ran
      cases ran
      rw [State.tokens, upcoming]
      rfl
  | nil =>
      cases ending : state.fault? with
      | some fault =>
          rw [advance_of_fault upcoming ending] at ran
          cases ran
      | none =>
          rw [advance_of_end upcoming ending] at ran
          cases ran
          exact absurd (proper.kind_of_last upcoming ending) going

/-- Eating a token moves the lookahead on. -/
theorem Reached.start_lt_start (reached : Reached text state)
    (ran : advance state = .ok token after) (going : token.kind ≠ .endOfLine) :
    state.lookahead.span.start < after.lookahead.span.start := by
  obtain ⟨begun, starts, _, passes⟩ := reached.passes
  have shape := tokens_of_advance reached.isProper ran going
  rcases passes.tokens with ⟨eaten, front, _⟩ | ⟨_, _, ending⟩
  · have ordered := Token.Cursor.start_lt_start text
    rw [← (tokens_of_start starts).1, front, shape] at ordered
    have others := (List.pairwise_append.mp ordered).2.1
    rw [(List.cons.inj shape).1]
    exact (List.pairwise_cons.mp others).1 after.lookahead List.mem_cons_self going
  · rw [ending] at shape
    cases (List.cons.inj shape).2

end Reaching

/-! ## What is eaten -/

section Eating

variable {α : Type} {eats : Bool} {state : State}

/-- In a state a step eats tokens that end neither a statement nor the line,
also if it fails.  If it comes to a value as asked, it eats at least one. -/
def EatsOn (asked : α -> Prop) (step : Parser α) (state : State) : Prop :=
  Ensures
    (fun value after => ∃ eaten, state.tokens = eaten ++ after.tokens
      ∧ (asked value -> eaten ≠ [])
      ∧ ∀ token ∈ eaten, token.kind ≠ .endOfLine ∧ token.kind ≠ .semicolon)
    (fun _ after => ∃ eaten, state.tokens = eaten ++ after.tokens
      ∧ ∀ token ∈ eaten, token.kind ≠ .endOfLine ∧ token.kind ≠ .semicolon)
    (step state)

theorem kind_ne_of_going {token : Token} (goes : token.kind.isTerminator = false) :
    token.kind ≠ .endOfLine ∧ token.kind ≠ .semicolon := by
  constructor
  · intro ends
    rw [ends] at goes
    cases goes
  · intro ends
    rw [ends] at goes
    cases goes

/-- A mild step goes on by the tokens that it eats. -/
theorem eaten_of_passes {after : State} (passes : state.Passes true after) :
    ∃ eaten, state.tokens = eaten ++ after.tokens
      ∧ ∀ token ∈ eaten, token.kind ≠ .endOfLine ∧ token.kind ≠ .semicolon := by
  rcases passes.tokens with ⟨eaten, front, going⟩ | ⟨impossible, _, _⟩
  · exact ⟨eaten, front, fun token member => kind_ne_of_going (going rfl token member)⟩
  · cases impossible

/-- A plan that is said to eat, whenever it is asked to, eats. -/
theorem eatsOn_of_sound {plan : Plan α} {asked : α -> Prop}
    (sound : plan.Sound true 0 (fun _ => True) Site.top 0 (fun _ => 0) eats)
    (said : ∀ value, asked value -> eats = true) (proper : state.IsProper) :
    EatsOn asked (plan.parser primary) state := by
  obtain ⟨moments, runs⟩ := Plan.exists_runs_of_sound sound proper
  apply (runs.passes Plan.isBody_primary sound trivial proper).mono
  · rintro value after ⟨passes, nearer⟩
    obtain ⟨eaten, front, going⟩ := eaten_of_passes passes
    refine ⟨eaten, front, fun isAsked none => ?_, going⟩
    rw [none, List.nil_append] at front
    have same := (List.cons.inj front).2
    have closer := nearer (said value isAsked)
    rw [State.remaining, State.remaining, same] at closer
    exact Nat.lt_irrefl _ closer
  · exact fun fault after passes => eaten_of_passes passes

theorem eatsOn_expression (proper : state.IsProper) :
    EatsOn (fun _ => True) expression state :=
  eatsOn_of_sound (Plan.sound_expression (Site.rank_lt_top _) (Nat.le_refl 0)) (fun _ _ => rfl)
    proper

theorem eatsOn_statement (proper : state.IsProper) :
    EatsOn (fun _ => True) statement state := by
  rw [← Plan.parser_statement]
  exact eatsOn_of_sound (Plan.sound_statement (Site.rank_lt_top _) (Nat.le_refl 0))
    (fun _ _ => rfl) proper

/-- A command that has an argument has eaten tokens for it. -/
theorem eatsOn_arguments (proper : state.IsProper) (action : Action) :
    EatsOn (· ≠ []) (arguments expression action) state := by
  have sound : (Plan.arguments action).Sound true 0 (fun _ => True) Site.top 0 (fun _ => 0) false :=
    Plan.sound_arguments (Site.rank_lt_top _) (Nat.le_refl 0) action
  have failing : EatsOn (fun _ => False) (arguments expression action) state :=
    Plan.parser_arguments primary action ▸ eatsOn_of_sound sound (fun _ => False.elim) proper
  have derives := obeys_arguments
    (obeysUpTo_expressionOver (obeys_primaryWithin (maxDepth + 1))).obeys action state
  rw [EatsOn] at failing ⊢
  cases ran : arguments expression action state with
  | error fault after =>
      rw [ran] at failing
      exact failing
  | ok value after =>
      rw [ObeysAt, ← primary, ← expression, ran] at derives
      obtain ⟨eaten, eats, derived⟩ := derives
      refine ⟨eaten, eats.tokens_eq proper, ?_, fun token member =>
        kind_ne_of_going (eats.going token member)⟩
      exact derived.ne_nil
        (Grammar.Chain.ne_nil (Grammar.Chain.ne_nil (Grammar.Chain.ne_nil Grammar.Primary.ne_nil)))

end Eating

/-! ## Progress -/

/-- In every state that is reached, expressions, arguments and statements eat
tokens but none that ends a statement, and eating moves the lookahead on.  Every
call has a run, which comes to what its parser comes to, and passes each place of
the grammar at most once for every token of the line. -/
theorem reached_progresses {text : String} {state : State} (reached : Reached text state) :
    EatsOn (fun _ => True) expression state
      ∧ (∀ action, EatsOn (· ≠ []) (arguments expression action) state)
      ∧ EatsOn (fun _ => True) statement state
      ∧ (∀ token after, advance state = .ok token after -> token.kind ≠ .endOfLine ->
          state.lookahead.span.start < after.lookahead.span.start)
      ∧ ∀ call : Call,
          (∃ moments, call.Runs state moments (call.parser state))
            ∧ ∀ moments result, call.Runs state moments result ->
                result = call.parser state
                  ∧ ∀ site, (Plan.visits site moments).length
                      ≤ (Token.Cursor.start text).read.tokens.length := by
  have proper := reached.isProper
  refine ⟨eatsOn_expression proper, eatsOn_arguments proper, eatsOn_statement proper,
    fun token after ran going => reached.start_lt_start ran going, fun call => ?_⟩
  refine ⟨call.exists_runs proper, fun moments result runs => ⟨runs.result_eq proper, ?_⟩⟩
  intro site
  have descends := Plan.Runs.descends Plan.isBody_primary runs site call.sound_plan trivial proper
  exact descends.length_le.trans reached.length_le

/-- Reading a line with brackets that are never closed comes to an end where the
line does. -/
theorem reached_progresses_unclosed :
    ∃ state fault after moments, start "echo [(1 + 2), [-3" = .ok state
      ∧ line state = .error fault after ∧ after.lookahead.kind = .endOfLine
      ∧ Call.line.Runs state moments (.error fault after)
      ∧ ∀ site, (Plan.visits site moments).length ≤ 12 := by
  have failing : (Command.parseLine "echo [(1 + 2), [-3").isOk = false := by decide +kernel
  have stopping : (start "echo [(1 + 2), [-3").toOption.map
      (fun state => (Call.perform state .line).lookahead.kind) = some .endOfLine := by
    decide +kernel
  have size : (Token.Cursor.start "echo [(1 + 2), [-3").read.tokens.length = 12 := by
    decide +kernel
  cases starts : start "echo [(1 + 2), [-3" with
  | error fault =>
      rw [starts] at stopping
      cases stopping
  | ok state =>
      obtain ⟨_, _, _, _, calls⟩ := reached_progresses (.begun starts)
      obtain ⟨⟨moments, runs⟩, bounded⟩ := calls .line
      have bounds := (bounded moments _ runs).2
      rw [starts] at stopping
      have stops : (Call.perform state .line).lookahead.kind = .endOfLine :=
        Option.some.inj stopping
      cases ran : line state with
      | ok commands after =>
          rw [Command.parseLine_of_ok starts ran] at failing
          cases failing
      | error fault after =>
          rw [Call.perform, Call.parser, ran] at stops
          refine ⟨state, fault, after, moments, rfl, ran, stops, ?_, ?_⟩
          · exact ran ▸ runs
          · exact fun site => size ▸ bounds site

end Parser
end LineShell
