import LineShell.Proofs.Eating
import LineShell.Proofs.Grammar

namespace LineShell

/-!
# Expressions are read by the grammar

Whatever expression the parser reads, the tokens that it eats on the way derive
it: the grammar relates them to the expression.  The parser stops in front of a
token that is no operator with two operands.

The proof goes up the strata.  A chain of operators obeys the rule for chains if
its operands obey their rule.  It never stops in front of an operator of its own,
and since its last operand does not stop in front of a tighter one, neither does
the chain.  A primary expression is read by a parser for a number of levels, so
its rule is shown by induction on that number.
-/

theorem BinaryOperator.symbol_of_ofSymbol? {symbol : String} {operator : BinaryOperator}
    (found : BinaryOperator.ofSymbol? symbol = some operator) : symbol = operator.symbol := by
  have matching := List.find?_some found
  exact (of_decide_eq_true matching).symm

theorem UnaryOperator.symbol_of_ofSymbol? {symbol : String} {operator : UnaryOperator}
    (found : UnaryOperator.ofSymbol? symbol = some operator) : symbol = operator.symbol := by
  have matching := List.find?_some found
  exact (of_decide_eq_true matching).symm

namespace Parser

variable {α : Type} {state : State}

/-! ## Operators -/

theorem obeysAt_binaryOperator (goes : state.lookahead.kind.isTerminator = false) :
    ObeysAt
      (fun eaten operator _ => ∃ sign, eaten = [sign]
        ∧ Grammar.IsOperator state.lookahead.kind operator sign)
      binaryOperator state := by
  apply obeysAt_bind (obeysAt_advance goes)
  rintro _ _ after _ ⟨rfl, rfl⟩
  cases found : BinaryOperator.ofSymbol? state.lookahead.text with
  | none => exact obeysAt_throw _
  | some operator =>
      exact obeysAt_pure ⟨_, rfl, rfl, BinaryOperator.symbol_of_ofSymbol? found⟩

theorem obeys_unaryOperator :
    Obeys
      (fun eaten operator => ∃ sign, eaten = [sign] ∧ sign.kind = .unary
        ∧ sign.text = operator.symbol)
      unaryOperator := by
  intro state
  apply obeysAt_bind (obeys_eat rfl state)
  rintro _ sign after _ ⟨rfl, isUnary⟩
  cases found : UnaryOperator.ofSymbol? sign.text with
  | none => exact obeysAt_throw _
  | some operator =>
      exact obeysAt_pure ⟨sign, rfl, isUnary, UnaryOperator.symbol_of_ofSymbol? found⟩

theorem isStep_of_symbol {sign : Token} {operator : UnaryOperator} (steps : sign.isStep = true)
    (symbol : sign.text = operator.symbol) : operator.isStep = true := by
  rw [Token.isStep, Token.isSymbol, Token.isSymbol, symbol] at steps
  cases operator with
  | increment | decrement => rfl
  | negate | bitNot | not => simp [UnaryOperator.symbol] at steps

theorem obeys_variableName : Obeys Grammar.Variable variableName := by
  intro state
  apply obeysAt_discard (obeys_eat rfl state)
  rintro _ dollar between _ ⟨rfl, isDollar⟩
  apply obeysAt_map (obeys_eatAny (by decide) between)
  rintro _ name after _ ⟨rfl, isName⟩
  exact .named isDollar isName

/-! ## Chains -/

/-- A step obeys a rule, and stops in front of a token of none of the given
kinds. -/
def ObeysUpTo (stops : List Token.Kind) (rule : List Token -> α -> Prop) (step : Parser α) :
    Prop :=
  ∀ state, ObeysAt (fun eaten value after => rule eaten value ∧ after.lookahead.kind ∉ stops) step
    state

theorem ObeysUpTo.obeys {stops : List Token.Kind} {rule : List Token -> α -> Prop}
    {step : Parser α} (strong : ObeysUpTo stops rule step) : Obeys rule step :=
  fun state => obeysAt_mono (strong state) fun _ _ _ met => met.1

section Chains

variable {rule : List Token -> Expr -> Prop} {operand : Parser Expr} {stops : List Token.Kind}

/-- A round eats an operator and its right operand.  The operator is not the
last token, for the end of a line is no operand, so the round gets nearer to the
end. -/
theorem obeysAt_chainRound (solid : ∀ tokens value, rule tokens value -> tokens ≠ [])
    (inside : ObeysUpTo stops rule operand)
    (goes : state.lookahead.kind.isTerminator = false) (left : Expr) (levels : Nat) :
    ObeysAt
      (fun eaten next after =>
        (∃ operator sign more right, eaten = sign :: more ∧ next.1 = .binary operator left right
          ∧ Grammar.IsOperator state.lookahead.kind operator sign ∧ rule more right)
        ∧ after.lookahead.kind ∉ stops ∧ after.remaining < state.remaining)
      (chainRound operand (left, levels)) state := by
  apply obeysAt_bind (obeysAt_binaryOperator goes)
  rintro _ operator between eatsSign ⟨sign, rfl, isOperator⟩
  apply obeysAt_bind (obeys_enter between)
  rintro _ _ deeper eatsNothing rfl
  apply obeysAt_map (inside deeper)
  rintro more right after eatsMore ⟨isOperand, halts⟩
  refine ⟨⟨operator, sign, more, right, rfl, rfl, isOperator, isOperand⟩, halts, ?_⟩
  have onward : between.Eats more after := eatsNothing.append eatsMore
  cases more with
  | nil => exact absurd rfl (solid [] right isOperand)
  | cons token others =>
      have ahead : between.lookahead.kind.isTerminator = false := by
        rw [onward.lookahead_eq]
        exact onward.going token List.mem_cons_self
      exact Nat.lt_of_le_of_lt onward.remaining_le
        (eatsSign.remaining_lt (List.cons_ne_nil _ _) ahead)

/-- The loop goes on as long as it meets operators of its level.  What its
operands do not stop in front of, the loop does not stop in front of either. -/
theorem obeysAt_chainLoop {level : Token.Kind} (goes : level.isTerminator = false)
    (solid : ∀ tokens value, rule tokens value -> tokens ≠ [])
    (inside : ObeysUpTo stops rule operand) {first : List Token} {result : Expr × Nat}
    (begun : Grammar.Chain level rule first result.1) (halts : state.lookahead.kind ∉ stops) :
    ObeysAt
      (fun eaten result after => Grammar.Chain level rule (first ++ eaten) result.1
        ∧ after.lookahead.kind ∉ level :: stops)
      (chainLoop level operand result) state := by
  apply obeysAt_mono (obeysAt_repeatWhile_stop
    (fun eaten result after => Grammar.Chain level rule (first ++ eaten) result.1
      ∧ after.lookahead.kind ∉ stops) ?_ ?_)
  · rintro eaten result after ⟨⟨isChain, halts⟩, stopped⟩
    refine ⟨isChain, ?_⟩
    rw [List.mem_cons, not_or]
    exact ⟨of_decide_eq_false stopped, halts⟩
  · rintro eaten ⟨left, levels⟩ between _ atLevel ⟨isChain, _⟩
    have here : between.lookahead.kind = level := of_decide_eq_true atLevel
    rw [← here] at goes
    apply obeysAt_mono (obeysAt_chainRound solid inside goes left levels)
    rintro _ ⟨_, _⟩ after
      ⟨⟨operator, sign, more, right, rfl, rfl, isOperator, isOperand⟩, halts, nearer⟩
    rw [here] at isOperator
    refine ⟨⟨?_, halts⟩, nearer⟩
    rw [← List.append_assoc]
    exact .further isChain isOperator isOperand
  · rw [List.append_nil]
    exact ⟨begun, halts⟩

theorem obeysUpTo_chain {level : Token.Kind} (goes : level.isTerminator = false)
    (solid : ∀ tokens value, rule tokens value -> tokens ≠ [])
    (inside : ObeysUpTo stops rule operand) :
    ObeysUpTo (level :: stops) (Grammar.Chain level rule) (chain level operand) := by
  intro state
  have body : ObeysAt
      (fun eaten result after => Grammar.Chain level rule eaten result.1
        ∧ after.lookahead.kind ∉ level :: stops)
      (chainBody level operand) state := by
    apply obeysAt_bind (inside state)
    rintro first value between _ ⟨isOperand, halts⟩
    exact obeysAt_chainLoop goes solid inside (.first isOperand) halts
  rw [chain_eq]
  apply obeysAt_bind body
  rintro eaten ⟨value, levels⟩ after _ ⟨isChain, halts⟩
  refine ⟨[], after.eats_nothing _, ?_, halts⟩
  rw [List.append_nil]
  exact isChain

end Chains

/-! ## Arrays and arguments -/

section Within

variable {rule : List Token -> Expr -> Prop} {expression : Parser Expr}

/-- The items that are read so far go on with any others, or are all of them.
The loop meets the items from the first one on, while the rule for them puts an
item before the others; so the loop keeps what would follow from any others. -/
def ItemsSoFar (rule : List Token -> Expr -> Prop) (eaten : List Token) (items : List Expr)
    (after : State) : Prop :=
  (∀ rest values, Grammar.Items rule rest values ->
      Grammar.Items rule (eaten ++ rest) (items.reverse ++ values))
    ∨ after.lookahead.kind = .rightBracket ∧ Grammar.Items rule eaten items.reverse

theorem obeysAt_arrayRound (inside : Obeys rule expression) {eaten : List Token}
    {items : List Expr} (soFar : ItemsSoFar rule eaten items state)
    (goes : state.lookahead.kind ≠ .rightBracket) :
    ObeysAt (fun more => ItemsSoFar rule (eaten ++ more)) (arrayRound expression items) state := by
  have onward : ∀ rest values, Grammar.Items rule rest values ->
      Grammar.Items rule (eaten ++ rest) (items.reverse ++ values) := by
    rcases soFar with onward | ⟨closed, _⟩
    · exact onward
    · exact absurd closed goes
  apply obeysAt_bind (inside state)
  intro tokens item between _ isItem
  apply obeysAt_get
  split
  · apply obeysAt_discard (obeys_eat rfl between)
    rintro _ comma after _ ⟨rfl, isComma⟩
    apply obeysAt_pure
    left
    intro rest values others
    have longer := onward _ _ (.more isItem isComma others)
    simpa using longer
  · next closed =>
    apply obeysAt_pure
    right
    refine ⟨Decidable.not_not.mp closed, ?_⟩
    have longer := onward _ _ (.last isItem)
    simpa using longer

theorem obeys_arrayLoop (inside : Obeys rule expression) :
    Obeys (fun eaten items => Grammar.Items rule eaten items.reverse)
      (arrayLoop expression []) := by
  intro state
  have loop : ObeysAt (ItemsSoFar rule) (arrayLoop expression []) state := by
    apply obeysAt_repeatWhile
    · intro eaten items between _ goes soFar
      exact obeysAt_arrayRound inside soFar (of_decide_eq_true goes)
    · exact .inl fun _ _ others => others
  apply obeysAt_mono loop
  rintro eaten items after (onward | ⟨_, closed⟩)
  · have all := onward [] [] .none
    rw [List.append_nil, List.append_nil] at all
    exact all
  · exact closed

theorem obeys_array (primary : List Token -> Expr -> Prop) (inside : Obeys rule expression) :
    Obeys (Grammar.Unary primary rule) (array expression) := by
  intro state
  rw [array_eq]
  apply obeysAt_discard (obeys_eat rfl state)
  rintro _ opening between _ ⟨rfl, isOpening⟩
  apply obeysAt_bind (obeys_nested (obeys_arrayLoop inside) between)
  intro tokens items behind _ areItems
  apply obeysAt_discard (obeys_eat rfl behind)
  rintro _ closing after _ ⟨rfl, isClosing⟩
  exact obeysAt_pure (.array isOpening areItems isClosing)

theorem obeys_helpArguments :
    Obeys (Grammar.Arguments rule .help) helpArguments := by
  intro state
  apply obeysAt_get
  split
  · next isWord =>
    apply obeysAt_bind (obeysAt_advance_of_kind isWord rfl)
    rintro _ _ after _ ⟨rfl, rfl⟩
    split
    · next found =>
      refine obeysAt_pure (.helpWith isWord ?_)
      obtain ⟨builtin, isBuiltin⟩ := Option.isSome_iff_exists.mp found
      rw [← Builtin.name_of_find? isBuiltin]
      exact List.mem_map_of_mem (List.mem_of_find?_eq_some isBuiltin)
    · exact obeysAt_throw _
  · exact obeysAt_pure .help

theorem obeys_clearArguments :
    Obeys (Grammar.Arguments rule .clear) clearArguments := by
  intro state
  apply obeysAt_get
  split
  · next dashed =>
    apply obeysAt_bind (obeysAt_advance (isTerminator_of_isDash dashed))
    rintro _ _ between _ ⟨rfl, rfl⟩
    apply obeysAt_bind (obeys_eat rfl between)
    rintro _ flag after _ ⟨rfl, isWord⟩
    split
    · next known =>
      refine obeysAt_pure (.clearWith dashed isWord ?_)
      simpa using known
    · exact obeysAt_throw _
  · exact obeysAt_pure .clear

theorem obeys_userArguments :
    Obeys (Grammar.Arguments rule .user) userArguments := by
  intro state
  apply obeysAt_map (obeys_eatAny (by decide) state)
  rintro _ name after _ ⟨rfl, isName⟩
  exact .user isName

theorem obeys_stackVariable : Obeys Grammar.Target stackVariable := by
  intro state
  apply obeysAt_get
  split
  · next isDollar =>
    apply obeysAt_discard (obeysAt_advance_of_kind isDollar rfl)
    rintro _ _ between _ ⟨rfl, rfl⟩
    apply obeysAt_map (obeys_eat rfl between)
    rintro _ name after _ ⟨rfl, isWord⟩
    exact .marked isDollar isWord
  · apply obeysAt_map (obeys_eat rfl state)
    rintro _ name after _ ⟨rfl, isWord⟩
    exact .plain isWord

theorem obeys_stackArguments (inside : Obeys rule expression) :
    Obeys (Grammar.Arguments rule .stack) (stackArguments expression) := by
  intro state
  apply obeysAt_bind (obeys_eat rfl state)
  rintro _ verb between _ ⟨rfl, isWord⟩
  split
  · next sets =>
    apply obeysAt_bind (obeys_stackVariable between)
    intro target name behind _ isTarget
    apply obeysAt_map (inside behind)
    intro tokens value after _ isValue
    -- Stated on its own, for the goal leaves open where the target ends.
    have derived := Grammar.Arguments.stackSet isWord sets isTarget isValue
    exact derived
  · split
    · next gets =>
      apply obeysAt_map (obeys_stackVariable between)
      intro target name after _ isTarget
      exact .stackGet isWord gets isTarget
    · split
      · next known =>
        refine obeysAt_pure (.stackAll isWord ?_)
        simpa using known
      · exact obeysAt_throw _

/-- The pieces of a path begin each where the one before ends. -/
theorem obeysAt_pathFrom {first : Token} (begun : state.lastEnd = first.span.stop) :
    ObeysAt
      (fun pieces path _ => (∀ piece ∈ pieces, isPathPiece piece = true)
        ∧ List.IsChain Grammar.Adjoins (first :: pieces)
        ∧ path = String.join ((first :: pieces).map Token.text))
      (pathFrom first.text) state := by
  apply obeysAt_repeatWhile
  · rintro pieces path between eats goes ⟨arePieces, adjoin, rfl⟩
    obtain ⟨adjacent, isPiece⟩ := Bool.and_eq_true_iff.mp goes
    apply obeysAt_map (obeysAt_advance (isTerminator_of_isPathPiece isPiece))
    rintro _ _ after _ ⟨rfl, rfl⟩
    refine ⟨?_, ?_, ?_⟩
    · intro piece member
      rcases List.mem_append.mp member with earlier | last
      · exact arePieces piece earlier
      · rw [List.mem_singleton.mp last]
        exact isPiece
    · rw [← List.cons_append, List.isChain_append]
      refine ⟨adjoin, List.isChain_singleton _, ?_⟩
      intro last isLast next isNext
      rw [List.getLast?_cons, Option.mem_some_iff, ← List.getLastD_eq_getLast?] at isLast
      rw [List.head?_cons, Option.mem_some_iff] at isNext
      rw [← isLast, ← isNext, Grammar.Adjoins, ← eats.lastEnd_eq begun]
      exact of_decide_eq_true adjacent
    · rw [← List.cons_append, List.map_append, String.join_append]
      simp
  · exact ⟨fun _ member => absurd member List.not_mem_nil, List.isChain_singleton _, by simp⟩

theorem obeysAt_pieces {step : Parser Token}
    (start : ObeysAt
      (fun eaten first _ => eaten = [first]
        ∧ (first.isSymbol .unary "~" = true ∨ first.kind ∈ pathKinds)) step state) :
    ObeysAt (fun eaten arguments _ => Grammar.Arguments rule .cd eaten arguments)
      (do
        let first ← step
        return [.path (← pathFrom first.text)])
      state := by
  apply obeysAt_bind start
  rintro _ first between eats ⟨rfl, isStart⟩
  have begun : between.lastEnd = first.span.stop := eats.lastEnd
  apply obeysAt_map (obeysAt_pathFrom begun)
  rintro pieces _ after _ ⟨arePieces, adjoin, rfl⟩
  exact .cdPieces isStart arePieces adjoin

theorem obeys_cdArguments :
    Obeys (Grammar.Arguments rule .cd) cdArguments := by
  intro state
  apply obeysAt_get
  simp only
  split
  · exact obeysAt_pure .cdHome
  · next goes =>
    split
    · next isString =>
      apply obeysAt_map (obeysAt_advance (Bool.eq_false_iff.mpr goes))
      rintro _ _ after _ ⟨rfl, rfl⟩
      exact .cdQuoted isString
    · split
      · next isTilde =>
        apply obeysAt_pieces
        apply obeysAt_mono (obeysAt_advance (Bool.eq_false_iff.mpr goes))
        rintro _ _ after ⟨rfl, rfl⟩
        exact ⟨rfl, .inl isTilde⟩
      · apply obeysAt_pieces
        apply obeysAt_mono (obeys_eatAny (by decide) state)
        rintro _ first after ⟨rfl, among⟩
        exact ⟨rfl, .inr among⟩

/-- What a command is read with is what stands behind its name. -/
theorem obeys_arguments (inside : Obeys rule expression) (action : Action) :
    Obeys (Grammar.Arguments rule action) (arguments expression action) := by
  cases action with
  | help => exact obeys_helpArguments
  | echo =>
      intro state
      apply obeysAt_map (inside state)
      intro tokens value after _ isValue
      exact .echo isValue
  | clear => exact obeys_clearArguments
  | user => exact obeys_userArguments
  | stack => exact obeys_stackArguments inside
  | cd => exact obeys_cdArguments
  | motd | test | confirm | license | assign | evaluate =>
      exact fun _ => obeysAt_pure (.bare (by decide))

/-- The span of a command goes from its name to the last of its tokens. -/
theorem obeysAt_commandAfter (inside : Obeys rule expression) (builtin : Builtin) {name : Token}
    (begun : state.lastEnd = name.span.stop) :
    ObeysAt
      (fun tokens command _ => ∃ parameters,
        Grammar.Arguments rule builtin.action tokens parameters
        ∧ command = { name := name.text, action := builtin.action, parameters
                      span := Grammar.spanOf name tokens })
      (commandAfter expression builtin name) state := by
  apply obeysAt_bind (obeys_nested (obeys_arguments inside builtin.action) state)
  intro tokens parameters after eats areArguments
  have spanned : ObeysAt
      (fun eaten span _ => eaten = [] ∧ span = { start := name.span.start, stop := after.lastEnd })
      (spanFrom name.span.start) after :=
    obeysAt_get (obeysAt_pure ⟨rfl, rfl⟩)
  apply obeysAt_map spanned
  rintro _ _ _ _ ⟨rfl, rfl⟩
  rw [List.append_nil, Grammar.spanOf, ← eats.lastEnd_eq begun]
  exact ⟨parameters, areArguments, rfl⟩

end Within

/-! ## Expressions -/

section Expressions

variable {primaryRule rule : List Token -> Expr -> Prop} {primary expression : Parser Expr}

theorem obeysAt_literal
    (plain : state.lookahead.kind = .word -> Builtin.find? state.lookahead.text = none) :
    ObeysAt (fun eaten value _ => Grammar.Unary primaryRule rule eaten value) literal state := by
  apply obeysAt_get
  simp only
  split
  · next isNumber =>
    apply obeysAt_discard (obeysAt_advance_of_kind isNumber rfl)
    rintro _ _ after _ ⟨rfl, rfl⟩
    cases found : Number.parse? state.lookahead.text.toList with
    | none => exact obeysAt_throw _
    | some value => exact obeysAt_pure (.number isNumber found)
  · next isString =>
    apply obeysAt_map (obeysAt_advance_of_kind isString rfl)
    rintro _ _ after _ ⟨rfl, rfl⟩
    rw [plainText, if_pos isString]
    exact .text isString
  · next isWord =>
    apply obeysAt_map (obeysAt_advance_of_kind isWord rfl)
    rintro _ _ after _ ⟨rfl, rfl⟩
    exact .word isWord (plain isWord)
  · next isBoolean =>
    apply obeysAt_map (obeysAt_advance_of_kind isBoolean rfl)
    rintro _ _ after _ ⟨rfl, rfl⟩
    exact .boolean isBoolean
  · exact obeysAt_reject _
  · exact obeysAt_reject _
  · exact obeysAt_reject _

/-- An operator before its operand is a step, which takes a variable, or it takes
a primary expression. -/
theorem obeys_operation (below : Obeys primaryRule primary) :
    Obeys (Grammar.Unary primaryRule rule)
      (do
        let operator ← unaryOperator
        let operand ←
          nested (if operator.isStep then return .var (← variableName) else primary)
        return .unary operator .before operand) := by
  intro state
  apply obeysAt_bind (obeys_unaryOperator state)
  rintro _ operator between _ ⟨sign, rfl, isUnary, symbol⟩
  cases steps : operator.isStep with
  | true =>
      have inner : Obeys
          (fun eaten value => ∃ name, Grammar.Variable eaten name ∧ value = .var name)
          (variableName >>= fun name => pure (Expr.var name)) := by
        intro state
        apply obeysAt_map (obeys_variableName state)
        intro tokens name after _ isVariable
        exact ⟨name, isVariable, rfl⟩
      apply obeysAt_map (obeys_nested inner between)
      rintro tokens _ after _ ⟨name, isVariable, rfl⟩
      exact .stepBefore ⟨steps, isUnary, symbol⟩ isVariable
  | false =>
      apply obeysAt_map (obeys_nested below between)
      intro tokens value after _ isPrimary
      exact .signed ⟨Bool.eq_false_iff.mp steps, symbol, .inl isUnary⟩ isPrimary

/-- A variable may have a step behind it. -/
theorem obeys_reference :
    Obeys (Grammar.Unary primaryRule rule)
      (do
        let operand := Expr.var (← variableName)
        if (← get).lookahead.isStep then
          return .unary (← unaryOperator) .after operand
        else return operand) := by
  intro state
  apply obeysAt_bind (obeys_variableName state)
  intro tokens name between _ isVariable
  apply obeysAt_get
  split
  · next steps =>
    apply obeysAt_map (obeys_unaryOperator between)
    rintro _ operator after eats ⟨sign, rfl, isUnary, symbol⟩
    rw [eats.lookahead_eq] at steps
    exact .stepAfter isVariable ⟨isStep_of_symbol steps symbol, isUnary, symbol⟩
  · apply obeysAt_pure
    rw [List.append_nil]
    exact .reference isVariable

theorem obeys_unary (below : Obeys primaryRule primary) (inside : Obeys rule expression) :
    Obeys (Grammar.Unary primaryRule rule) (unary primary expression) := by
  intro state
  apply obeysAt_get
  simp only
  split
  · exact obeys_operation below state
  · exact obeys_reference state
  · exact obeys_array primaryRule inside state
  · next isAdditive =>
    split
    · next isMinus =>
      apply obeysAt_discard (obeysAt_advance_of_kind isAdditive rfl)
      rintro _ _ between _ ⟨rfl, rfl⟩
      apply obeysAt_map (obeys_nested below between)
      intro tokens value after _ isPrimary
      exact .signed ⟨Bool.false_ne_true, isMinus, .inr ⟨rfl, isAdditive⟩⟩ isPrimary
    · apply obeysAt_literal
      intro isWord
      rw [isAdditive] at isWord
      cases isWord
  · next isWord =>
    split
    · next builtin found =>
      apply obeysAt_bind (obeysAt_advance_of_kind isWord rfl)
      rintro _ _ between eats ⟨rfl, rfl⟩
      apply obeysAt_map (obeysAt_commandAfter inside builtin eats.lastEnd)
      rintro tokens _ after _ ⟨parameters, areArguments, rfl⟩
      exact .call isWord found areArguments
    · next none =>
      exact obeysAt_literal fun _ => none
  · next other =>
    exact obeysAt_literal fun isWord => absurd isWord other

end Expressions

theorem obeysUpTo_expressionOver {primary : Parser Expr}
    (below : Obeys Grammar.Primary primary) :
    ObeysUpTo [.additive, .multiplicative, .bitwise] Grammar.Additive
      (expressionOver primary) := by
  have operands : ObeysUpTo [] Grammar.Primary primary := fun state =>
    obeysAt_mono (below state) fun _ _ _ isPrimary => ⟨isPrimary, List.not_mem_nil⟩
  have bitwise : ObeysUpTo [.bitwise] Grammar.Bitwise (chain .bitwise primary) :=
    obeysUpTo_chain rfl Grammar.Primary.ne_nil operands
  have multiplicative : ObeysUpTo [.multiplicative, .bitwise] Grammar.Multiplicative
      (chain .multiplicative (chain .bitwise primary)) :=
    obeysUpTo_chain rfl (Grammar.Chain.ne_nil Grammar.Primary.ne_nil) bitwise
  exact obeysUpTo_chain rfl (Grammar.Chain.ne_nil (Grammar.Chain.ne_nil Grammar.Primary.ne_nil))
    multiplicative

theorem obeys_primaryOver {inner : Parser Expr} (below : Obeys Grammar.Primary inner) :
    Obeys Grammar.Primary (primaryOver inner) := by
  have inside := (obeysUpTo_expressionOver below).obeys
  intro state
  apply obeysAt_get
  split
  · apply obeysAt_discard (obeys_eat rfl state)
    rintro _ opening between _ ⟨rfl, isOpening⟩
    apply obeysAt_bind (obeys_nested inside between)
    intro tokens value behind _ isAdditive
    apply obeysAt_discard (obeys_eat rfl behind)
    rintro _ closing after _ ⟨rfl, isClosing⟩
    exact obeysAt_pure (.parenthesized isOpening isAdditive isClosing)
  · apply obeysAt_mono (obeys_unary below inside state)
    intro eaten value after isUnary
    exact .unary isUnary

theorem obeys_primaryWithin (levels : Nat) : Obeys Grammar.Primary (primaryWithin levels) := by
  induction levels with
  | zero => exact fun _ => obeysAt_reject _
  | succ levels ih => exact obeys_primaryOver ih

/-- The tokens of a line end as they should. -/
theorem endsProperly_of_start {line : String} {state : State} (begun : start line = .ok state) :
    Token.Cursor.EndsProperly state.tokens state.fault? := by
  have ends := Token.Cursor.read_endsProperly (Token.Cursor.start line)
  cases shape : (Token.Cursor.start line).read.tokens with
  | nil =>
      cases ended : (Token.Cursor.start line).read.fault with
      | none =>
          simp only [start, shape, ended] at begun
          cases begun
      | some fault =>
          simp only [start, shape, ended] at begun
          cases begun
  | cons lookahead upcoming =>
      simp only [start, shape] at begun
      cases begun
      rw [shape] at ends
      exact ends

/-- An expression is derived from the tokens that were eaten for it.  They are
the first tokens of the line, in their order, and the parser stops in front of a
token that is no operator of a chain. -/
theorem expression_derives {state after : State} {value : Expr}
    (ran : expression state = .ok value after) :
    ∃ eaten, state.Eats eaten after ∧ Grammar.Additive eaten value
      ∧ after.lookahead.kind ∉ [.additive, .multiplicative, .bitwise]
      ∧ (Token.Cursor.EndsProperly state.tokens state.fault? ->
        state.tokens = eaten ++ after.tokens) := by
  have obeys := obeysUpTo_expressionOver (obeys_primaryWithin (maxDepth + 1)) state
  rw [ObeysAt, ← primary, ← expression, ran] at obeys
  obtain ⟨eaten, eats, derived, halts⟩ := obeys
  exact ⟨eaten, eats, derived, halts, eats.tokens_eq⟩

theorem expression_derives_line :
    ∃ state value after, start "(a + !$b) * [c, $d++,] ^ cd ~/e) f" = .ok state
      ∧ expression state = .ok value after ∧ after.tokens.map Token.text = [")", "f", ""]
      ∧ ∃ eaten, state.tokens = eaten ++ after.tokens ∧ Grammar.Additive eaten value := by
  have accepted :
      (match start "(a + !$b) * [c, $d++,] ^ cd ~/e) f" with
      | .ok state =>
          match expression state with
          | .ok _ after => decide (after.tokens.map Token.text = [")", "f", ""])
          | .error _ _ => false
      | .error _ => false) = true := by
    decide +kernel
  cases begun : start "(a + !$b) * [c, $d++,] ^ cd ~/e) f" with
  | error fault =>
      rw [begun] at accepted
      cases accepted
  | ok state =>
      cases ran : expression state with
      | error fault after =>
          simp only [begun, ran] at accepted
          cases accepted
      | ok value after =>
          simp only [begun, ran] at accepted
          obtain ⟨eaten, _, derived, _, whole⟩ := expression_derives ran
          exact ⟨state, value, after, rfl, ran, of_decide_eq_true accepted, eaten,
            whole (endsProperly_of_start begun), derived⟩

end Parser
end LineShell
