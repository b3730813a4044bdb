import LineShell.Proofs.Alignment

namespace LineShell
namespace Parser
namespace Pairing

/-!
# Statements are read alike wherever they stand

Each parser of the grammar, run on two lines that correspond, gives results
that match.  The parsers that are built from others take what is known of those
as a hypothesis, so the order of the lemmas is the order of the grammar.
-/

open Steps

variable {α β : Type} {pairing : Pairing} {onValues : α -> β -> Prop} {frame : Frame}
  {state state' : State}

/-- A parser reads the same expressions on both lines. -/
def ReadsAlike (pairing : Pairing) (reader : Parser Expr) : Prop :=
  pairing.Mirrors (pairing.Alike Expr.relocate) reader reader

theorem matches_ite {test test' : Prop} [Decidable test] [Decidable test'] {yes no : Parser α}
    {yes' no' : Parser β} (same : test ↔ test')
    (onYes : test -> pairing.Matches frame onValues (yes state) (yes' state'))
    (onNo : ¬test -> pairing.Matches frame onValues (no state) (no' state')) :
    pairing.Matches frame onValues ((if test then yes else no) state)
      ((if test' then yes' else no') state') := by
  by_cases holds : test
  · rw [if_pos holds, if_pos (same.mp holds)]
    exact onYes holds
  · rw [if_neg holds, if_neg fun holds' => holds (same.mpr holds')]
    exact onNo holds

theorem At.isStep_eq (stands : pairing.At frame state state') :
    state.lookahead.isStep = state'.lookahead.isStep := by
  rw [Token.isStep, Token.isStep, stands.isSymbol_eq rfl, stands.isSymbol_eq rfl]

theorem Shared.plainText_eq {token token' : Token} (shared : pairing.Shared token token') :
    plainText token = plainText token' := by
  rw [plainText, plainText, shared.kind_eq, shared.text_eq]

/-! ## Operators, variables and literals -/

theorem matches_binaryOperator (stands : pairing.At frame state state')
    (going : state.lookahead.kind.isTerminator = false) :
    pairing.Matches frame Eq (binaryOperator state) (binaryOperator state') := by
  apply matches_bind (matches_advance_of_going stands going)
  intro token token' after after' shared there
  rw [← shared.text_eq]
  cases BinaryOperator.ofSymbol? token.text with
  | none => exact matches_throw (congrArg (Fault.grammatical _) shared.start)
  | some operator => exact matches_pure rfl there

theorem mirrors_unaryOperator : pairing.Mirrors Eq unaryOperator unaryOperator := by
  apply mirrors_bind (mirrors_eat rfl)
  intro token token' shared frame state state' stands
  rw [← shared.text_eq]
  cases UnaryOperator.ofSymbol? token.text with
  | none => exact matches_throw (congrArg (Fault.grammatical _) shared.start)
  | some operator => exact matches_pure rfl stands

theorem mirrors_variableName : pairing.Mirrors Eq variableName variableName := by
  apply mirrors_discard (mirrors_eat rfl)
  apply mirrors_bind (mirrors_eatAny (by decide))
  intro name name' shared
  exact mirrors_pure shared.text_eq

theorem literal_of_terminator (ends : state.lookahead.kind.isTerminator = true) :
    literal state = reject .unexpectedEnd state := by
  simp only [Token.Kind.isTerminator, Bool.or_eq_true, decide_eq_true_eq] at ends
  rcases ends with kind | kind <;> simp only [literal, get_bind, kind]

theorem readsAlike_literal : pairing.ReadsAlike literal := by
  intro frame state state' stands
  by_cases ends : state.lookahead.kind.isTerminator = true
  · rw [literal_of_terminator ends, literal_of_terminator (stands.isTerminator_eq ▸ ends)]
    exact matches_reject _ stands
  · rw [Bool.not_eq_true] at ends
    rcases stands.shared ends with ⟨shared, behind⟩
    have eaten := matches_advance stands shared behind
    simp only [literal, get_bind, ← shared.kind_eq, ← shared.text_eq]
    cases kind : state.lookahead.kind with
    | number =>
        apply matches_discard eaten
        intro after after' there
        cases Number.parse? state.lookahead.text.toList with
        | none => exact matches_throw (congrArg (Fault.grammatical _) shared.start)
        | some value => exact matches_pure rfl there
    | string =>
        apply matches_bind eaten
        intro token token' after after' same there
        exact matches_pure (congrArg Expr.text same.plainText_eq) there
    | word =>
        apply matches_bind eaten
        intro token token' after after' same there
        exact matches_pure (congrArg Expr.word same.text_eq) there
    | boolean =>
        apply matches_bind eaten
        intro token token' after after' same there
        rw [same.text_eq]
        exact matches_pure rfl there
    | _ => exact matches_reject _ stands

/-! ## Chains and arrays -/

theorem mirrors_chain {kind : Token.Kind} {operand : Parser Expr}
    (plain : kind.isTerminator = false) (reads : pairing.ReadsAlike operand) :
    pairing.ReadsAlike (chain kind operand) := by
  intro frame state state' stands
  let kept : Expr × Nat -> State -> Expr × Nat -> State -> Prop := fun value after value' after' =>
    (pairing.Alike Expr.relocate value.1 value'.1 ∧ value.2 = value'.2)
      ∧ pairing.At (frame.deeper value.2) after after'
  have looped : ∀ value after value' after', kept value after value' after' ->
      Related kept (fun fault _ fault' _ => pairing.Alike Fault.relocate fault fault')
        (chainLoop kind operand value after) (chainLoop kind operand value' after') := by
    apply related_repeatWhile
    · intro value after value' after' holds
      rw [decide_eq_decide]
      exact holds.2.kind_iff plain
    · intro value after value' after' holds next later next' later' holdsLater
      exact holds.2.pace holdsLater.2
    · rintro ⟨left, levels⟩ after ⟨left', levels'⟩ after' ⟨⟨alike, same⟩, there⟩ goes
      subst same
      have going : after.lookahead.kind.isTerminator = false := by
        rw [of_decide_eq_true goes]
        exact plain
      apply Related.bind (matches_binaryOperator there going)
      rintro operator between _ between' ⟨rfl, there⟩
      apply Related.bind (matches_enter there)
      rintro _ entered _ entered' ⟨-, deeper⟩
      apply Related.bind (reads _ _ _ deeper)
      rintro right read right' read' ⟨alikeRight, beyond⟩
      refine ⟨⟨?_, rfl⟩, beyond⟩
      simp only [Alike, Expr.relocate] at alike alikeRight ⊢
      rw [alike, alikeRight]
  rw [chain_eq]
  have body : Related kept (fun fault _ fault' _ => pairing.Alike Fault.relocate fault fault')
      (chainBody kind operand state) (chainBody kind operand state') := by
    apply Related.bind (reads _ _ _ stands)
    rintro first after first' after' ⟨alike, there⟩
    exact looped (first, 0) after (first', 0) after' ⟨⟨alike, rfl⟩, there⟩
  apply Related.bind body
  rintro ⟨value, levels⟩ after ⟨value', levels'⟩ after' ⟨⟨alike, same⟩, there⟩
  subst same
  apply matches_bind (matches_leave there)
  intro _ _ left left' _ back
  exact matches_pure alike back

theorem readsAlike_expressionOver {primary : Parser Expr} (reads : pairing.ReadsAlike primary) :
    pairing.ReadsAlike (expressionOver primary) :=
  mirrors_chain rfl (mirrors_chain rfl (mirrors_chain rfl reads))

theorem readsAlike_array {expression : Parser Expr} (reads : pairing.ReadsAlike expression) :
    pairing.ReadsAlike (array expression) := by
  have looped : pairing.Mirrors (pairing.Alike Expr.relocateAll) (arrayLoop expression [])
      (arrayLoop expression []) := by
    apply mirrors_repeatWhile
    · intro frame state state' stands
      rw [decide_eq_decide]
      exact not_congr (stands.kind_iff rfl)
    · intro items items' alikeItems frame state state' stands goes
      apply matches_bind (reads _ _ _ stands)
      intro item item' read read' alike there
      have longer : pairing.Alike Expr.relocateAll (item :: items) (item' :: items') := by
        simp only [Alike, Expr.relocateAll] at alike alikeItems ⊢
        rw [alike, alikeItems]
      simp only [get_bind]
      apply matches_ite (not_congr (there.kind_iff rfl))
      · intro _
        apply matches_discard (mirrors_eat rfl _ _ _ there)
        intro after after' beyond
        exact matches_pure longer beyond
      · intro _
        exact matches_pure longer there
    · rfl
  rw [array_eq]
  apply mirrors_discard (mirrors_eat rfl)
  apply mirrors_bind (mirrors_nested looped)
  intro items items' alike
  apply mirrors_discard (mirrors_eat rfl)
  apply mirrors_pure
  simp only [Alike, Expr.relocate, Expr.relocateAll_eq_map, List.map_reverse] at alike ⊢
  rw [alike]

/-! ## Commands and their arguments -/

theorem mirrors_helpArguments :
    pairing.Mirrors (pairing.Alike Argument.relocateAll) helpArguments helpArguments := by
  intro frame state state' stands
  simp only [helpArguments, get_bind]
  apply matches_ite (stands.kind_iff rfl)
  · intro word
    apply matches_bind (matches_advance_of_going stands (by rw [word]; rfl))
    intro name name' after after' shared there
    rw [← shared.text_eq]
    apply matches_ite Iff.rfl
    · intro _
      exact matches_pure rfl there
    · intro _
      exact matches_throw (congrArg (Fault.unknownCommand _) shared.start)
  · intro _
    exact matches_pure rfl stands

theorem At.isDash_eq (stands : pairing.At frame state state') :
    isDash state.lookahead = isDash state'.lookahead := by
  rw [isDash, isDash, stands.isSymbol_eq rfl, stands.isSymbol_eq rfl]

theorem mirrors_clearArguments :
    pairing.Mirrors (pairing.Alike Argument.relocateAll) clearArguments clearArguments := by
  intro frame state state' stands
  simp only [clearArguments, get_bind]
  apply matches_ite (by rw [stands.isDash_eq])
  · intro dash
    apply matches_bind (matches_advance_of_going stands (isTerminator_of_isDash dash))
    intro first first' between between' sharedFirst there
    apply matches_bind (mirrors_eat rfl _ _ _ there)
    intro flag flag' after after' shared beyond
    rw [← shared.text_eq, ← sharedFirst.text_eq]
    apply matches_ite Iff.rfl
    · intro _
      exact matches_pure rfl beyond
    · intro _
      exact matches_throw (congrArg (Fault.grammatical _) sharedFirst.start)
  · intro _
    exact matches_pure rfl stands

theorem mirrors_userArguments :
    pairing.Mirrors (pairing.Alike Argument.relocateAll) userArguments userArguments := by
  apply mirrors_bind (mirrors_eatAny (by decide))
  intro name name' shared
  rw [shared.plainText_eq]
  exact mirrors_pure rfl

theorem mirrors_stackVariable : pairing.Mirrors Eq stackVariable stackVariable := by
  intro frame state state' stands
  have named : pairing.Mirrors Eq (do return (← eat .word).text)
      (do return (← eat .word).text) := by
    apply mirrors_bind (mirrors_eat rfl)
    intro name name' shared
    exact mirrors_pure shared.text_eq
  simp only [stackVariable, get_bind]
  apply matches_ite (stands.kind_iff rfl)
  · intro dollar
    apply matches_discard (matches_advance_of_going stands (by rw [dollar]; rfl))
    intro after after' there
    exact named _ _ _ there
  · intro _
    exact named _ _ _ stands

theorem mirrors_stackArguments {expression : Parser Expr} (reads : pairing.ReadsAlike expression) :
    pairing.Mirrors (pairing.Alike Argument.relocateAll) (stackArguments expression)
      (stackArguments expression) := by
  apply mirrors_bind (mirrors_eat rfl)
  intro verb verb' shared frame state state' stands
  rw [← shared.text_eq]
  apply matches_ite Iff.rfl
  · intro _
    apply matches_bind (mirrors_stackVariable _ _ _ stands)
    intro name name' between between' sameName there
    subst sameName
    apply matches_bind (reads _ _ _ there)
    intro value value' after after' alike beyond
    refine matches_pure ?_ beyond
    simp only [Alike, Argument.relocateAll, Argument.relocate] at alike ⊢
    rw [alike]
  · intro _
    apply matches_ite Iff.rfl
    · intro _
      apply matches_bind (mirrors_stackVariable _ _ _ stands)
      intro name name' after after' sameName there
      subst sameName
      exact matches_pure rfl there
    · intro _
      apply matches_ite Iff.rfl
      · intro _
        exact matches_pure rfl stands
      · intro _
        exact matches_throw (congrArg (Fault.grammatical _) shared.start)

theorem At.isPathPiece_eq (stands : pairing.At frame state state') :
    isPathPiece state.lookahead = isPathPiece state'.lookahead := by
  have among : state.lookahead.kind ∈ pathKinds ↔ state'.lookahead.kind ∈ pathKinds := by
    simp only [pathKinds, List.mem_cons, List.not_mem_nil, or_false]
    rw [stands.kind_iff rfl, stands.kind_iff rfl, stands.kind_iff rfl, stands.kind_iff rfl]
  rw [isPathPiece, isPathPiece, decide_eq_decide.mpr among, stands.isSymbol_eq rfl,
    stands.isSymbol_eq rfl]

/-- Where positions are told apart, the two parsers see the same gaps. -/
theorem At.isAdjacent_eq (stands : pairing.At frame state state') (exact : pairing.Exact) :
    state.isAdjacent = state'.isAdjacent := by
  rw [State.isAdjacent, State.isAdjacent, decide_eq_decide]
  constructor
  · intro adjacent
    apply exact.2
    rw [← stands.start, ← stands.lastEnd, adjacent]
  · intro adjacent
    apply exact.1
    rw [stands.start, stands.lastEnd, adjacent]

theorem mirrors_pathFrom (exact : pairing.Exact) (first : String) :
    pairing.Mirrors Eq (pathFrom first) (pathFrom first) := by
  apply mirrors_repeatWhile
  · intro frame state state' stands
    rw [stands.isAdjacent_eq exact, stands.isPathPiece_eq]
  · intro path path' same frame state state' stands goes
    subst same
    rw [Bool.and_eq_true] at goes
    apply matches_bind (matches_advance_of_going stands (isTerminator_of_isPathPiece goes.2))
    intro token token' after after' shared there
    rw [shared.text_eq]
    exact matches_pure rfl there
  · rfl

theorem mirrors_cdArguments (exact : pairing.Exact) :
    pairing.Mirrors (pairing.Alike Argument.relocateAll) cdArguments cdArguments := by
  intro frame state state' stands
  have glued : ∀ first first' : Token, pairing.Shared first first' ->
      pairing.Mirrors (pairing.Alike Argument.relocateAll)
        (do return [.path (← pathFrom first.text)])
        (do return [.path (← pathFrom first'.text)]) := by
    intro first first' shared
    rw [shared.text_eq]
    apply mirrors_bind (mirrors_pathFrom exact _)
    intro path path' same
    subst same
    exact mirrors_pure rfl
  simp only [cdArguments, get_bind]
  apply matches_ite (by rw [stands.isTerminator_eq])
  · intro _
    exact matches_pure rfl stands
  · intro goes
    rw [Bool.not_eq_true] at goes
    apply matches_ite (stands.kind_iff rfl)
    · intro _
      apply matches_bind (matches_advance_of_going stands goes)
      intro token token' after after' shared there
      rw [shared.plainText_eq]
      exact matches_pure rfl there
    · intro _
      apply matches_ite (by rw [stands.isSymbol_eq rfl])
      · intro _
        apply matches_bind (matches_advance_of_going stands goes)
        intro first first' after after' shared there
        exact glued first first' shared _ _ _ there
      · intro _
        apply matches_bind (mirrors_eatAny (by decide) _ _ _ stands)
        intro first first' after after' shared there
        exact glued first first' shared _ _ _ there

theorem mirrors_arguments {expression : Parser Expr} (reads : pairing.ReadsAlike expression)
    (action : Action) (exact : action = .cd -> pairing.Exact) :
    pairing.Mirrors (pairing.Alike Argument.relocateAll) (arguments expression action)
      (arguments expression action) := by
  cases action with
  | help => exact mirrors_helpArguments
  | echo =>
      apply mirrors_bind reads
      intro value value' alike
      apply mirrors_pure
      simp only [Alike, Argument.relocateAll, Argument.relocate] at alike ⊢
      rw [alike]
  | clear => exact mirrors_clearArguments
  | user => exact mirrors_userArguments
  | stack => exact mirrors_stackArguments reads
  | cd => exact mirrors_cdArguments (exact rfl)
  | _ => exact mirrors_pure rfl

/-- Only one name calls the command that changes the directory. -/
theorem text_of_find? {text : String} {builtin : Builtin}
    (found : Builtin.find? text = some builtin) (changes : builtin.action = .cd) : text = "cd" := by
  have only : ∀ other ∈ Builtin.all, other.action = .cd -> other.name = "cd" := by decide
  rw [← Builtin.name_of_find? found]
  exact only builtin (List.mem_of_find?_eq_some found) changes

theorem mirrors_commandAfter {expression : Parser Expr} (reads : pairing.ReadsAlike expression)
    {builtin : Builtin} (exact : builtin.action = .cd -> pairing.Exact) {name name' : Token}
    (shared : pairing.Shared name name') :
    pairing.Mirrors (pairing.Alike Command.relocate) (commandAfter expression builtin name)
      (commandAfter expression builtin name') := by
  apply mirrors_bind (mirrors_nested (mirrors_arguments reads builtin.action exact))
  intro parameters parameters' alike frame state state' stands
  refine ⟨?_, stands⟩
  simp only [Alike, Command.relocate, Span.relocate] at alike ⊢
  rw [alike, shared.start, shared.text_eq, stands.lastEnd]

/-! ## Expressions -/

theorem unary_of_terminator {primary expression : Parser Expr}
    (ends : state.lookahead.kind.isTerminator = true) :
    unary primary expression state = literal state := by
  simp only [Token.Kind.isTerminator, Bool.or_eq_true, decide_eq_true_eq] at ends
  rcases ends with kind | kind <;> simp only [unary, get_bind, kind]

theorem readsAlike_unary {primary expression : Parser Expr} (reads : pairing.ReadsAlike primary)
    (readsWhole : pairing.ReadsAlike expression) :
    pairing.ReadsAlike (unary primary expression) := by
  intro frame state state' stands
  by_cases ends : state.lookahead.kind.isTerminator = true
  · rw [unary_of_terminator ends, unary_of_terminator (stands.isTerminator_eq ▸ ends)]
    exact readsAlike_literal _ _ _ stands
  · rw [Bool.not_eq_true] at ends
    rcases stands.shared ends with ⟨shared, behind⟩
    have eaten := matches_advance stands shared behind
    simp only [unary, get_bind, ← shared.kind_eq, ← shared.text_eq]
    cases kind : state.lookahead.kind with
    | unary =>
        apply matches_bind (mirrors_unaryOperator _ _ _ stands)
        intro operator operator' between between' same there
        subst same
        have operand : pairing.ReadsAlike
            (if operator.isStep then (do return .var (← variableName)) else primary) := by
          by_cases steps : operator.isStep = true
          · rw [if_pos steps]
            apply mirrors_bind mirrors_variableName
            intro name name' same
            subst same
            exact mirrors_pure rfl
          · rw [if_neg steps]
            exact reads
        apply matches_bind (mirrors_nested operand _ _ _ there)
        intro value value' after after' alike beyond
        refine matches_pure ?_ beyond
        simp only [Alike, Expr.relocate] at alike ⊢
        rw [alike]
    | dollar =>
        apply matches_bind (mirrors_variableName _ _ _ stands)
        intro name name' between between' same there
        subst same
        simp only [get_bind]
        apply matches_ite (by rw [there.isStep_eq])
        · intro _
          apply matches_bind (mirrors_unaryOperator _ _ _ there)
          intro operator operator' after after' same beyond
          subst same
          exact matches_pure rfl beyond
        · intro _
          exact matches_pure rfl there
    | leftBracket => exact readsAlike_array readsWhole _ _ _ stands
    | additive =>
        apply matches_ite Iff.rfl
        · intro _
          apply matches_discard eaten
          intro between between' there
          apply matches_bind (mirrors_nested reads _ _ _ there)
          intro value value' after after' alike beyond
          refine matches_pure ?_ beyond
          simp only [Alike, Expr.relocate] at alike ⊢
          rw [alike]
        · intro _
          exact readsAlike_literal _ _ _ stands
    | word =>
        cases found : Builtin.find? state.lookahead.text with
        | none => exact readsAlike_literal _ _ _ stands
        | some builtin =>
            have exact : builtin.action = .cd -> pairing.Exact :=
              fun changes => shared.exact (text_of_find? found changes)
            apply matches_bind eaten
            intro name name' between between' sharedName there
            apply matches_bind (mirrors_commandAfter readsWhole exact sharedName _ _ _ there)
            intro command command' after after' alike beyond
            refine matches_pure ?_ beyond
            simp only [Alike, Expr.relocate] at alike ⊢
            rw [alike]
    | _ => exact readsAlike_literal _ _ _ stands

theorem readsAlike_primaryOver {inner : Parser Expr} (reads : pairing.ReadsAlike inner) :
    pairing.ReadsAlike (primaryOver inner) := by
  intro frame state state' stands
  simp only [primaryOver, get_bind]
  apply matches_ite (stands.kind_iff rfl)
  · intro _
    apply matches_discard (mirrors_eat rfl _ _ _ stands)
    intro opened opened' there
    apply matches_bind (mirrors_nested (readsAlike_expressionOver reads) _ _ _ there)
    intro value value' closing closing' alike beyond
    apply matches_discard (mirrors_eat rfl _ _ _ beyond)
    intro after after' done
    exact matches_pure alike done
  · intro _
    exact readsAlike_unary reads (readsAlike_expressionOver reads) _ _ _ stands

theorem readsAlike_primaryWithin (levels : Nat) : pairing.ReadsAlike (primaryWithin levels) := by
  induction levels with
  | zero =>
      intro frame state state' stands
      exact matches_reject _ stands
  | succ levels ih => exact readsAlike_primaryOver ih

theorem readsAlike_expression : pairing.ReadsAlike expression :=
  readsAlike_expressionOver (readsAlike_primaryWithin _)

/-! ## Statements -/

theorem mirrors_assign {name name' : Token} (shared : pairing.Shared name name')
    {value value' : Expr} (alike : pairing.Alike Expr.relocate value value') :
    pairing.Mirrors (pairing.Alike Command.relocate) (assign name value) (assign name' value') := by
  intro frame state state' stands
  refine ⟨?_, stands⟩
  simp only [Alike, Command.relocate, Argument.relocateAll, Argument.relocate, Span.relocate]
    at alike ⊢
  rw [alike, shared.start, shared.text_eq, stands.lastEnd]

theorem assignment_of_terminator {name : Token} (ends : state.lookahead.kind.isTerminator = true) :
    assignment name state = .error (.unknownCommand name.text name.span.start) state := by
  simp only [Token.Kind.isTerminator, Bool.or_eq_true, decide_eq_true_eq] at ends
  rcases ends with kind | kind <;> simp only [assignment, get_bind, kind] <;> rfl

theorem matches_combination {name name' : Token} (shared : pairing.Shared name name')
    (stands : pairing.At frame state state')
    (going : state.lookahead.kind.isTerminator = false) :
    pairing.Matches frame (pairing.Alike Command.relocate) (combination name state)
      (combination name' state') := by
  apply matches_bind (matches_binaryOperator stands going)
  intro operator operator' between between' same there
  subst same
  simp only [get_bind]
  apply matches_ite (there.kind_iff rfl)
  · intro equals
    apply matches_discard (matches_advance_of_going there (by rw [equals]; rfl))
    intro opened opened' further
    apply matches_bind (readsAlike_expression _ _ _ further)
    intro value value' after after' alike beyond
    refine mirrors_assign shared ?_ _ _ _ beyond
    simp only [Alike, Expr.relocate] at alike ⊢
    rw [alike, shared.text_eq]
  · intro _
    rw [← shared.text_eq]
    exact matches_throw (congrArg (Fault.unknownCommand _) shared.start)

theorem mirrors_assignment {name name' : Token} (shared : pairing.Shared name name') :
    pairing.Mirrors (pairing.Alike Command.relocate) (assignment name) (assignment name') := by
  intro frame state state' stands
  have unknown : pairing.Alike Fault.relocate (.unknownCommand name.text name.span.start)
      (.unknownCommand name'.text name'.span.start) := by
    rw [← shared.text_eq]
    exact congrArg (Fault.unknownCommand _) shared.start
  by_cases ends : state.lookahead.kind.isTerminator = true
  · rw [assignment_of_terminator ends, assignment_of_terminator (stands.isTerminator_eq ▸ ends)]
    exact unknown
  · rw [Bool.not_eq_true] at ends
    rcases stands.shared ends with ⟨sharedNext, behind⟩
    have eaten := matches_advance stands sharedNext behind
    have combined := matches_combination shared stands ends
    have stepEq := stands.isStep_eq
    simp only [assignment, get_bind, ← sharedNext.kind_eq]
    cases kind : state.lookahead.kind with
    | equals =>
        apply matches_discard eaten
        intro opened opened' there
        simp only [get_bind]
        apply matches_ite (by rw [there.isTerminator_eq])
        · intro _
          have nothing : pairing.Alike Expr.relocate (.text "") (.text "") := rfl
          exact mirrors_assign shared nothing _ _ _ there
        · intro _
          apply matches_bind (readsAlike_expression _ _ _ there)
          intro value value' after after' alike beyond
          exact mirrors_assign shared alike _ _ _ beyond
    | unary =>
        apply matches_ite (by rw [stepEq])
        · intro _
          apply matches_bind (mirrors_unaryOperator _ _ _ stands)
          intro operator operator' after after' same there
          subst same
          simp only [get_bind]
          apply matches_ite (by rw [there.isTerminator_eq])
          · intro _
            refine ⟨?_, there⟩
            simp only [Alike, Command.relocate, Argument.relocateAll, Argument.relocate,
              Expr.relocate, Span.relocate]
            rw [shared.start, shared.text_eq, there.lastEnd]
          · intro _
            exact matches_throw unknown
        · intro _
          exact matches_throw unknown
    | additive => exact combined
    | multiplicative => exact combined
    | bitwise => exact combined
    | _ => exact matches_throw unknown

theorem statement_of_terminator (ends : state.lookahead.kind.isTerminator = true) :
    statement state = reject .unexpectedEnd state := by
  simp only [Token.Kind.isTerminator, Bool.or_eq_true, decide_eq_true_eq] at ends
  rcases ends with kind | kind <;> simp only [statement, get_bind, kind]

theorem stepTarget_eq {step step' : Expr} (alike : pairing.Alike Expr.relocate step step') :
    stepTarget step = stepTarget step' := by
  have kept : ∀ (place : Nat -> Nat) (step : Expr),
      stepTarget (step.relocate place) = stepTarget step := by
    intro place step
    cases step with
    | unary operator placement operand =>
        cases operand <;> simp only [Expr.relocate, stepTarget]
    | _ => simp only [Expr.relocate, stepTarget]
  rw [← kept pairing.place step, ← kept pairing.place' step', alike]

theorem mirrors_statement :
    pairing.Mirrors (pairing.Alike Command.relocate) statement statement := by
  intro frame state state' stands
  by_cases ends : state.lookahead.kind.isTerminator = true
  · rw [statement_of_terminator ends, statement_of_terminator (stands.isTerminator_eq ▸ ends)]
    exact matches_reject _ stands
  · rw [Bool.not_eq_true] at ends
    rcases stands.shared ends with ⟨shared, behind⟩
    have eaten := matches_advance stands shared behind
    have stepEq := stands.isStep_eq
    have unknown : pairing.Alike Fault.relocate
        (.unknownCommand state.lookahead.text state.lookahead.span.start)
        (.unknownCommand state.lookahead.text state'.lookahead.span.start) :=
      congrArg (Fault.unknownCommand _) shared.start
    simp only [statement, get_bind, ← shared.kind_eq, ← shared.text_eq]
    cases kind : state.lookahead.kind with
    | word =>
        apply matches_bind eaten
        intro name name' after after' sharedName there
        rw [← sharedName.text_eq]
        cases found : Builtin.find? name.text with
        | none => exact mirrors_assignment sharedName _ _ _ there
        | some builtin =>
            have exact : builtin.action = .cd -> pairing.Exact :=
              fun changes => sharedName.exact (text_of_find? found changes)
            exact mirrors_commandAfter readsAlike_expression exact sharedName _ _ _ there
    | dollar =>
        apply matches_discard eaten
        intro between between' there
        apply matches_bind (mirrors_eat rfl _ _ _ there)
        intro name name' after after' sharedName beyond
        exact mirrors_assignment sharedName _ _ _ beyond
    | unary =>
        apply matches_ite (by rw [stepEq])
        · intro _
          have primary : pairing.ReadsAlike primary := readsAlike_primaryWithin _
          apply matches_bind (readsAlike_unary primary readsAlike_expression _ _ _ stands)
          intro step step' after after' alike there
          refine ⟨?_, there⟩
          have target := stepTarget_eq alike
          simp only [Alike, Command.relocate, Argument.relocateAll, Argument.relocate,
            Span.relocate] at alike ⊢
          rw [alike, shared.start, target, there.lastEnd]
        · intro _
          exact matches_throw unknown
    | semicolon =>
        rw [kind] at ends
        cases ends
    | endOfLine =>
        rw [kind] at ends
        cases ends
    | _ => exact matches_throw unknown

theorem mirrors_expectTerminator :
    pairing.Mirrors (fun _ _ => True) expectTerminator expectTerminator := by
  intro frame state state' stands
  simp only [expectTerminator]
  by_cases ends : state.lookahead.kind.isTerminator = true
  · rw [if_pos ends, if_pos (stands.isTerminator_eq ▸ ends)]
    exact ⟨trivial, stands⟩
  · rw [if_neg ends, if_neg (stands.isTerminator_eq ▸ ends)]
    rw [Bool.not_eq_true] at ends
    rcases stands.shared ends with ⟨shared, -⟩
    rw [← shared.kind_eq, ← shared.text_eq]
    exact matches_reject _ stands

end Pairing
end Parser
end LineShell
