import LineShell.Proofs.ParserPlans
import LineShell.Proofs.PlanRuns

namespace LineShell

/-!
# The plans are sound

The simple steps of the parsers are steady, and from them the plans are judged
sound one by one, each from the plans that it uses.  An expression calls for a
primary expression with whatever levels are open, but a primary expression calls
for another one only inside of a level that it has entered itself.  So a parser
that is given as many levels to nest as can be entered never runs out of them,
and reading primary expressions is what their plan says, with itself put in.
-/

open Steps

namespace Parser

/-! ## Simple steps -/

section Steps

variable {mild eats : Bool} {state : State}

theorem steadyAt_advance_of_kind {kind : Token.Kind} (here : state.lookahead.kind = kind)
    (goes : kind.isTerminator = false) : SteadyAt mild eats advance state := by
  rw [← here] at goes
  exact steadyAt_advance_of_going goes

theorem steady_spanFrom (start : Nat) : Steady mild false (spanFrom start) :=
  fun _ => steadyAt_get (steadyAt_pure _)

theorem steady_expectTerminator : Steady mild false expectTerminator := by
  intro state
  rw [SteadyAt, expectTerminator]
  split
  · exact steadyAt_pure ()
  · exact steadyAt_reject _

theorem steady_warn (warning : Warning) : Steady mild false (warn warning) :=
  fun _ _ => ⟨⟨.of_same rfl rfl rfl, rfl⟩, fun impossible => by cases impossible⟩

theorem steadyAt_binaryOperator (goes : state.lookahead.kind.isTerminator = false) :
    SteadyAt mild eats binaryOperator state := by
  apply steadyAt_bind_eater (steadyAt_advance_of_going goes)
  intro token after
  cases BinaryOperator.ofSymbol? token.text with
  | none => exact steadyAt_throw _
  | some operator => exact steadyAt_pure operator

theorem steady_unaryOperator : Steady mild eats unaryOperator := by
  intro state
  apply steadyAt_bind_eater (steady_eat rfl state)
  intro token after
  cases UnaryOperator.ofSymbol? token.text with
  | none => exact steadyAt_throw _
  | some operator => exact steadyAt_pure operator

theorem steady_variableName : Steady mild eats variableName := by
  intro state
  apply steadyAt_bind_eater (steadyAt_discard (steady_eat rfl state))
  intro _ between
  apply steadyAt_bind (steady_eatAny rfl between)
  exact fun name after => steadyAt_pure _

theorem steady_reference : Steady mild eats Plan.reference := by
  intro state
  apply steadyAt_bind_eater (steady_variableName state)
  intro name between
  apply steadyAt_get
  split
  · apply steadyAt_bind (steady_unaryOperator between)
    exact fun operator after => steadyAt_pure _
  · exact steadyAt_pure _

/-- A literal is a token of its own. -/
theorem steady_literal : Steady mild eats literal := by
  intro state
  apply steadyAt_get
  simp only
  split
  · next isNumber =>
    apply steadyAt_bind_eater (steadyAt_discard (steadyAt_advance_of_kind isNumber rfl))
    intro _ after
    split
    · exact steadyAt_pure _
    · exact steadyAt_throw _
  · next isString =>
    exact steadyAt_bind_eater (steadyAt_advance_of_kind isString rfl) fun _ _ => steadyAt_pure _
  · next isWord =>
    exact steadyAt_bind_eater (steadyAt_advance_of_kind isWord rfl) fun _ _ => steadyAt_pure _
  · next isBoolean =>
    exact steadyAt_bind_eater (steadyAt_advance_of_kind isBoolean rfl) fun _ _ => steadyAt_pure _
  · exact steadyAt_reject _
  · exact steadyAt_reject _
  · exact steadyAt_reject _

theorem steady_separated (items : List Expr) : Steady mild false (separated items) := by
  intro state
  apply steadyAt_get
  split
  · exact steadyAt_bind (steadyAt_discard (steady_eat rfl state)) fun _ _ => steadyAt_pure _
  · exact steadyAt_pure _

theorem steady_helpArguments : Steady mild false helpArguments := by
  intro state
  apply steadyAt_get
  split
  · next isWord =>
    apply steadyAt_bind (steadyAt_advance_of_kind isWord rfl)
    intro name after
    split
    · exact steadyAt_pure _
    · exact steadyAt_throw _
  · exact steadyAt_pure _

theorem steady_clearArguments : Steady mild false clearArguments := by
  intro state
  apply steadyAt_get
  split
  · next dashed =>
    apply steadyAt_bind (steadyAt_advance_of_going (isTerminator_of_isDash dashed))
    intro dash between
    apply steadyAt_bind (steady_eat rfl between)
    intro flag after
    split
    · exact steadyAt_pure _
    · exact steadyAt_throw _
  · exact steadyAt_pure _

theorem steady_userArguments : Steady mild false userArguments :=
  fun state => steadyAt_bind (steady_eatAny rfl state) fun _ _ => steadyAt_pure _

theorem steady_stackVariable : Steady mild false stackVariable := by
  have named : Steady mild false (do return (← eat .word).text) := fun state =>
    steadyAt_bind (steady_eat rfl state) fun _ _ => steadyAt_pure _
  intro state
  apply steadyAt_get
  split
  · next isDollar =>
    apply steadyAt_bind (steadyAt_discard (steadyAt_advance_of_kind isDollar rfl))
    exact fun _ => named
  · exact named state

theorem steady_plainVerb (verb : Token) : Steady mild false (Plan.plainVerb verb) := by
  intro state
  rw [Plan.plainVerb]
  split
  · exact steadyAt_bind (steady_stackVariable state) fun _ _ => steadyAt_pure _
  · split
    · exact steadyAt_pure _
    · exact steadyAt_throw _

theorem steady_assign (name : Token) (value : Expr) : Steady mild false (assign name value) :=
  fun state => steadyAt_bind (steady_spanFrom _ state) fun _ _ => steadyAt_pure _

theorem steady_stepped (name : Token) (operator : UnaryOperator) :
    Steady mild false (Plan.stepped name operator) := by
  intro state
  apply steadyAt_get
  split
  · exact steadyAt_bind (steady_spanFrom _ state) fun _ _ => steadyAt_pure _
  · exact steadyAt_throw _

end Steps

namespace Plan

/-! ## Expressions -/

section Expressions

variable {mild eats : Bool} {least rank level : Nat} {here : State -> Prop}

section Chains

variable {kind : Token.Kind} {inner : Plan Expr}

/-- A round leaves one more level open than there was. -/
theorem sound_operand (goes : kind.isTerminator = false)
    (isInner : ∀ {here rank level}, Site.primary.rank < rank -> least ≤ level ->
      inner.Sound mild least here rank level (fun _ => level) true)
    (deep : least ≤ level) (chained : Expr × Nat) :
    (operand inner chained).Sound mild least
      (fun state => decide (state.lookahead.kind = kind) = true) Site.operands.rank
      (level + chained.2) (fun chained => level + chained.2) true := by
  have operator : (step binaryOperator).Sound mild least
      (fun state => decide (state.lookahead.kind = kind) = true) Site.operands.rank
      (level + chained.2) (fun _ => level + chained.2) true := by
    apply sound_step
    intro state isHere
    exact steadyAt_binaryOperator (of_decide_eq_true isHere ▸ goes)
  apply sound_andThen_eater operator
  intro operator
  have entered : enter.Sound mild least (fun _ => True) Site.top (level + chained.2)
      (fun _ => level + (chained.2 + 1)) false := ⟨rfl, rfl⟩
  apply sound_andThen entered
  intro _
  apply sound_andThen_eater (isInner (Site.rank_lt_top _) (Nat.le_add_right_of_le deep))
  exact fun right => ⟨rfl, rfl⟩

theorem sound_chain (goes : kind.isTerminator = false)
    (isInner : ∀ {here rank level}, Site.primary.rank < rank -> least ≤ level ->
      inner.Sound mild least here rank level (fun _ => level) true)
    (high : Site.primary.rank < rank) (deep : least ≤ level) :
    (chain kind inner).Sound mild least here rank level (fun _ => level) eats := by
  apply sound_andThen_eater (isInner high deep)
  intro first
  have looped : (loop .operands (fun state => state.lookahead.kind = kind) (operand inner)
      (first, 0)).Sound mild least (fun _ => True) Site.top level
      (fun chained => level + chained.2) false :=
    ⟨Site.rank_lt_top _, rfl, rfl, sound_operand goes isInner deep⟩
  apply sound_andThen looped
  intro chained
  have left : (leave chained.2).Sound mild least (fun _ => True) Site.top (level + chained.2)
      (fun _ => level) false := ⟨Nat.le_add_left _ _, (Nat.add_sub_cancel _ _).symm, rfl⟩
  exact sound_andThen left fun _ => sound_give chained.1

end Chains

theorem sound_expression (high : Site.primary.rank < rank) (deep : least ≤ level) :
    expression.Sound mild least here rank level (fun _ => level) eats := by
  have bitwise : ∀ {here rank level}, Site.primary.rank < rank -> least ≤ level ->
      (chain .bitwise .call).Sound mild least here rank level (fun _ => level) true :=
    sound_chain rfl fun high deep => ⟨high, deep, fun _ => rfl⟩
  exact sound_chain rfl (sound_chain rfl bitwise) high deep

/-- Items are read as long as the array does not end, and each of them eats
something. -/
theorem sound_array (deep : least ≤ level + 1) :
    array.Sound mild least here rank level (fun _ => level) eats := by
  have opening : (step (discard (eat .leftBracket))).Sound mild least here rank level
      (fun _ => level) true :=
    sound_step fun state _ => steadyAt_discard (steady_eat rfl state)
  apply sound_andThen_eater opening
  intro _
  have items : (loop .items (fun state => state.lookahead.kind ≠ .rightBracket) item []).Sound mild
      least (fun _ => True) Site.top (level + 1) (fun _ => level + 1) false := by
    refine ⟨Site.rank_lt_top _, rfl, rfl, fun items => ?_⟩
    apply sound_andThen_eater (sound_expression (Nat.lt_succ_self 1) deep)
    exact fun item => sound_step fun state _ => steady_separated _ state
  apply sound_andThen (sound_nested items)
  intro items
  apply sound_step
  intro state _
  exact steadyAt_bind (steadyAt_discard (steady_eat rfl state)) fun _ _ => steadyAt_pure _

theorem sound_stackArguments (high : Site.primary.rank < rank) (deep : least ≤ level) :
    stackArguments.Sound mild least here rank level (fun _ => level) false := by
  have verb : (step (eat .word)).Sound mild least here rank level (fun _ => level) false :=
    sound_step fun state _ => steady_eat rfl state
  apply sound_andThen verb
  intro verb
  by_cases sets : verb.text = "set"
  · rw [if_pos sets]
    apply sound_andThen (sound_step fun state _ => steady_stackVariable state)
    intro name
    exact sound_andThen_eater (sound_expression high deep) fun value => sound_give _
  · rw [if_neg sets]
    exact sound_step fun state _ => steady_plainVerb verb state

theorem sound_pathAfter (high : Site.pieces.rank < rank) (first : Token) :
    (pathAfter first).Sound mild least here rank level (fun _ => level) false := by
  have pieces : (loop .pieces (fun state => state.isAdjacent && isPathPiece state.lookahead) piece
      first.text).Sound mild least here rank level (fun _ => level) false := by
    refine ⟨high, rfl, rfl, fun path => sound_step fun state isPiece => ?_⟩
    have goes := isTerminator_of_isPathPiece (Bool.and_eq_true_iff.mp isPiece).2
    exact steadyAt_bind_eater (steadyAt_advance_of_going goes) fun _ _ => steadyAt_pure _
  exact sound_andThen pieces fun path => sound_give _

theorem sound_cdArguments (high : Site.pieces.rank < rank) :
    cdArguments.Sound mild least here rank level (fun _ => level) false := by
  intro state _
  simp only
  split
  · exact sound_give _
  · split
    · next isString =>
      apply sound_step_here
      exact steadyAt_bind (steadyAt_advance_of_kind isString rfl) fun _ _ => steadyAt_pure _
    · split
      · next isHome =>
        have goes := isTerminator_of_isSymbol isHome rfl
        exact sound_andThen (sound_step_here (steadyAt_advance_of_going goes))
          (sound_pathAfter high)
      · have first : (step (eatAny pathKinds)).Sound mild least (· = state) rank level
            (fun _ => level) false :=
          sound_step fun state _ => steady_eatAny rfl state
        exact sound_andThen first (sound_pathAfter high)

theorem sound_arguments (high : Site.primary.rank < rank) (deep : least ≤ level)
    (action : Action) :
    (arguments action).Sound mild least here rank level (fun _ => level) false := by
  cases action with
  | help => exact sound_step fun state _ => steady_helpArguments state
  | echo => exact sound_andThen_eater (sound_expression high deep) fun value => sound_give _
  | clear => exact sound_step fun state _ => steady_clearArguments state
  | user => exact sound_step fun state _ => steady_userArguments state
  | stack => exact sound_stackArguments high deep
  | cd => exact sound_cdArguments (Nat.lt_of_le_of_lt (Nat.zero_le _) high)
  | motd | test | confirm | license | assign | evaluate => exact sound_give _

theorem sound_commandAfter (high : Site.primary.rank < rank) (deep : least ≤ level + 1)
    (builtin : Builtin) (name : Token) :
    (commandAfter builtin name).Sound mild least here rank level (fun _ => level) false := by
  apply sound_andThen (sound_nested (sound_arguments high deep builtin.action))
  intro parameters
  apply sound_step
  exact fun state _ => steadyAt_bind (steady_spanFrom _ state) fun _ _ => steadyAt_pure _

theorem sound_operation (deep : least ≤ level + 1) :
    operation.Sound mild least here rank level (fun _ => level) eats := by
  have sign : (step unaryOperator).Sound mild least here rank level (fun _ => level) true :=
    sound_step fun state _ => steady_unaryOperator state
  apply sound_andThen_eater sign
  intro operator
  have inside : (if operator.isStep then step do return .var (← variableName) else call).Sound
      mild least (fun _ => True) Site.top (level + 1) (fun _ => level + 1) false := by
    split
    · apply sound_step
      exact fun state _ => steadyAt_bind (steady_variableName state) fun _ _ => steadyAt_pure _
    · exact ⟨Site.rank_lt_top _, deep, fun _ => rfl⟩
  exact sound_andThen (sound_nested inside) fun operand => sound_give _

theorem sound_unary (high : Site.unary.rank < rank) (deep : least ≤ level + 1) :
    unary.Sound mild least here rank level (fun _ => level) eats := by
  have literals : ∀ {here : State -> Prop}, (step literal).Sound mild least here Site.unary.rank
      level (fun _ => level) true := sound_step fun state _ => steady_literal state
  refine ⟨high, fun state _ => ?_⟩
  simp only
  split
  · exact sound_operation deep
  · exact sound_step fun state _ => steady_reference state
  · exact sound_array deep
  · next isAdditive =>
    split
    · have sign : SteadyAt mild true advance state := steadyAt_advance_of_kind isAdditive rfl
      apply sound_andThen_eater (sound_step_here (steadyAt_discard sign))
      intro _
      have inside : call.Sound mild least (fun _ => True) Site.top (level + 1)
          (fun _ => level + 1) false := ⟨Site.rank_lt_top _, deep, fun _ => rfl⟩
      exact sound_andThen (sound_nested inside) fun operand => sound_give _
    · exact literals
  · next isWord =>
    split
    · next builtin _ =>
      apply sound_andThen_eater (sound_step_here (steadyAt_advance_of_kind isWord rfl))
      intro name
      exact sound_andThen (sound_commandAfter (Site.rank_lt_top _) deep builtin name) fun command =>
        sound_give _
    · exact literals
  · exact literals

/-- A primary expression is read with no level open, and calls for another one
only inside of a level. -/
theorem isBody_primary : IsBody mild primary := by
  intro state _
  simp only
  split
  · have opening : (step (discard (eat .leftParen))).Sound mild 1 (· = state) Site.primary.rank 0
        (fun _ => 0) true :=
      sound_step fun state _ => steadyAt_discard (steady_eat rfl state)
    apply sound_andThen_eater opening
    intro _
    have inside : expression.Sound mild 1 (fun _ => True) Site.top (0 + 1) (fun _ => 0 + 1) true :=
      sound_expression (Site.rank_lt_top _) (Nat.le_refl _)
    apply sound_andThen_eater (sound_nested inside)
    intro value
    apply sound_step
    exact fun state _ =>
      steadyAt_bind (steadyAt_discard (steady_eat rfl state)) fun _ _ => steadyAt_pure _
  · exact sound_unary Nat.zero_lt_one (Nat.le_refl _)

end Expressions

/-! ## Lines -/

section Lines

variable {mild eats : Bool} {least rank level : Nat} {here : State -> Prop}

theorem sound_assigned (high : Site.primary.rank < rank) (deep : least ≤ level) (name : Token) :
    (assigned name).Sound mild least here rank level (fun _ => level) false := by
  intro state _
  simp only
  split
  · exact sound_step fun state _ => steady_assign name _ state
  · apply sound_andThen_eater (sound_expression high deep)
    exact fun value => sound_step fun state _ => steady_assign name value state

theorem sound_combination (going : ∀ state, here state -> state.lookahead.kind.isTerminator = false)
    (deep : least ≤ level) (name : Token) :
    (combination name).Sound mild least here rank level (fun _ => level) eats := by
  have operator : (step binaryOperator).Sound mild least here rank level (fun _ => level) true :=
    sound_step fun state isHere => steadyAt_binaryOperator (going state isHere)
  apply sound_andThen_eater operator
  intro operator state _
  simp only
  split
  · next isEquals =>
    have equals : SteadyAt mild false advance state := steadyAt_advance_of_kind isEquals rfl
    apply sound_andThen (sound_step_here (steadyAt_discard equals))
    intro _
    apply sound_andThen_eater (sound_expression (Site.rank_lt_top _) deep)
    exact fun value => sound_step fun state _ => steady_assign name _ state
  · exact sound_step fun _ _ => steadyAt_throw _

theorem sound_assignment (deep : least ≤ level) (name : Token) :
    (assignment name).Sound mild least here rank level (fun _ => level) eats := by
  have unknown : ∀ {here : State -> Prop}, (step (throw (.unknownCommand name.text
      name.span.start)) : Plan Command).Sound mild least here rank level (fun _ => level) eats :=
    sound_step fun _ _ => steadyAt_throw _
  have combined : ∀ {state : State} {kind : Token.Kind}, state.lookahead.kind = kind ->
      kind.isTerminator = false ->
      (combination name).Sound mild least (· = state) rank level (fun _ => level) eats := by
    intro state kind isKind goes
    apply sound_combination _ deep
    rintro _ rfl
    exact isKind ▸ goes
  intro state _
  simp only
  split
  · next isEquals =>
    have equals : SteadyAt mild true advance state := steadyAt_advance_of_kind isEquals rfl
    apply sound_andThen_eater (sound_step_here (steadyAt_discard equals))
    exact fun _ => sound_assigned (Site.rank_lt_top _) deep name
  · split
    · apply sound_step
      exact fun state _ =>
        steadyAt_bind_eater (steady_unaryOperator state) fun operator =>
          steady_stepped name operator
    · exact unknown
  · next isAdditive => exact combined isAdditive rfl
  · next isMultiplicative => exact combined isMultiplicative rfl
  · next isBitwise => exact combined isBitwise rfl
  · exact unknown

theorem sound_named (high : Site.primary.rank < rank) (deep : least ≤ level) (name : Token) :
    (named name).Sound mild least here rank level (fun _ => level) false := by
  rw [named]
  split
  · next builtin _ => exact sound_commandAfter high (Nat.le_succ_of_le deep) builtin name
  · exact sound_assignment deep name

theorem sound_statement (high : Site.unary.rank < rank) (deep : least ≤ level) :
    statement.Sound mild least here rank level (fun _ => level) eats := by
  have unknown : ∀ {here : State -> Prop} {token : Token}, (step (throw (.unknownCommand token.text
      token.span.start)) : Plan Command).Sound mild least here rank level (fun _ => level) eats :=
    sound_step fun _ _ => steadyAt_throw _
  have nothing : ∀ {here : State -> Prop}, (step (reject .unexpectedEnd) : Plan Command).Sound mild
      least here rank level (fun _ => level) eats := sound_step fun _ _ => steadyAt_reject _
  intro state _
  simp only
  split
  · next isWord =>
    apply sound_andThen_eater (sound_step_here (steadyAt_advance_of_kind isWord rfl))
    exact fun name => sound_named (Site.rank_lt_top _) deep name
  · next isDollar =>
    have dollar : SteadyAt mild true advance state := steadyAt_advance_of_kind isDollar rfl
    apply sound_andThen_eater (sound_step_here (steadyAt_discard dollar))
    intro _
    have name : (step (eat .word)).Sound mild least (fun _ => True) Site.top level
        (fun _ => level) false := sound_step fun state _ => steady_eat rfl state
    exact sound_andThen name fun name => sound_assignment deep name
  · split
    · apply sound_andThen_eater (sound_unary high (Nat.le_succ_of_le deep))
      intro step
      apply sound_step
      exact fun state _ => steadyAt_bind (steady_spanFrom _ state) fun _ _ => steadyAt_pure _
    · exact unknown
  · exact nothing
  · exact nothing
  · exact unknown

/-- Only here tokens that end a statement are eaten. -/
theorem sound_furtherStatement (commands : List Command) :
    (furtherStatement commands).Sound false least
      (fun state => decide (state.lookahead.kind = .semicolon) = true) Site.statements.rank least
      (fun _ => least) true := by
  have semicolon : (step (discard advance)).Sound false least
      (fun state => decide (state.lookahead.kind = .semicolon) = true) Site.statements.rank least
      (fun _ => least) true := by
    apply sound_step
    intro state isHere
    apply steadyAt_discard
    apply steadyAt_advance
    · intro ends
      cases (of_decide_eq_true isHere).symm.trans ends
    · exact fun impossible => by cases impossible
  apply sound_andThen_eater semicolon
  intro _ state _
  simp only
  split
  · next isPath =>
    apply sound_step_here
    apply steadyAt_bind (steadyAt_discard (steadyAt_advance_of_kind isPath rfl))
    intro _ between
    apply steadyAt_bind (steady_warn _ between)
    intro _ warned
    exact steadyAt_bind (steady_expectTerminator warned) fun _ _ => steadyAt_pure _
  · apply sound_andThen_eater (sound_statement (Site.rank_lt_top _) (Nat.le_refl _))
    intro command
    apply sound_step
    exact fun state _ => steadyAt_bind (steady_expectTerminator state) fun _ _ => steadyAt_pure _

theorem sound_line : line.Sound false least here Site.top least (fun _ => least) eats := by
  apply sound_andThen_eater (sound_statement (Site.rank_lt_top _) (Nat.le_refl _))
  intro first
  apply sound_andThen (sound_step fun state _ => steady_expectTerminator state)
  intro _
  have looped : (loop .statements (fun state => state.lookahead.kind = .semicolon) furtherStatement
      [first]).Sound false least (fun _ => True) Site.top least (fun _ => least) false :=
    ⟨Site.rank_lt_top _, rfl, rfl, sound_furtherStatement⟩
  apply sound_andThen looped
  intro commands
  apply sound_step
  intro state _
  refine steadyAt_bind (steadyAt_discard (steadyAt_eatAny fun wanted => ?_)) fun _ _ =>
    steadyAt_pure _
  exact steadyAt_advance_end (List.mem_singleton.mp wanted)

end Lines

/-! ## Primary expressions at any depth -/

/-- Where a call is made, no level above the present ones is open. -/
theorem stands_of_proper {state : State} (proper : state.IsProper) :
    Stands state.depth 0 state :=
  ⟨proper, rfl, fun none => by cases none⟩

theorem balanced_primaryWithin (levels : Nat) : Balanced (primaryWithin levels) := by
  induction levels with
  | zero => exact fun _ _ => trivial
  | succ levels ih =>
      intro state proper
      have sound : IsBody true primary := isBody_primary
      rw [← parser_primaryWithin]
      apply (stands_after ih primary sound trivial (stands_of_proper proper)).mono
      · exact fun value after stands => ⟨stands.proper, stands.depth⟩
      · exact fun _ _ _ => trivial

theorem primaryWithin_congr {levels more : Nat} {state : State} (proper : state.IsProper)
    (agree : ∀ deeper, deeper.IsProper -> state.depth + 1 ≤ deeper.depth ->
      deeper.depth ≤ maxDepth -> primaryWithin levels deeper = primaryWithin more deeper) :
    primaryWithin (levels + 1) state = primaryWithin (more + 1) state := by
  have sound : IsBody true primary := isBody_primary
  rw [← parser_primaryWithin, ← parser_primaryWithin]
  exact parser_congr (balanced_primaryWithin levels) (Nat.le_refl 1) agree primary sound trivial
    (stands_of_proper proper)

/-- A parser for as many levels as can still be entered does not run out of
them, so one more makes no difference. -/
theorem primaryWithin_succ {levels : Nat} {state : State} (proper : state.IsProper)
    (enough : maxDepth ≤ state.depth + levels) :
    primaryWithin (levels + 1) state = primaryWithin (levels + 2) state := by
  induction levels generalizing state with
  | zero =>
      apply primaryWithin_congr proper
      intro deeper _ above room
      omega
  | succ levels ih =>
      apply primaryWithin_congr proper
      exact fun deeper isProper above _ => ih isProper (by omega)

/-- Primary expressions are read as their plan says, at any depth. -/
theorem primary_eq {state : State} (proper : state.IsProper) :
    Parser.primary state = primary.parser Parser.primary state := by
  rw [Parser.primary, parser_primaryWithin]
  exact primaryWithin_succ proper (Nat.le_add_left _ _)

section Running

variable {α : Type} {mild eats : Bool} {plan : Plan α} {state : State} {moments : List Moment}
  {result : EStateM.Result Fault State α}

/-- A plan that is sound has a run, which comes to what its parser comes to. -/
theorem exists_runs_of_sound
    (sound : plan.Sound mild 0 (fun _ => True) Site.top 0 (fun _ => 0) eats)
    (proper : state.IsProper) :
    ∃ moments, Runs primary plan state moments (plan.parser Parser.primary state) := by
  obtain ⟨moments, result, runs⟩ :=
    exists_runs isBody_primary state.remaining Site.top plan sound trivial proper rfl
  have same := runs.parser_eq isBody_primary (fun _ => primary_eq) sound trivial proper
  exact ⟨moments, same ▸ runs⟩

end Running
end Plan
end Parser
end LineShell
