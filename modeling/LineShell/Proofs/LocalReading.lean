import LineShell.Proofs.Excerpts

namespace LineShell

/-!
# Every parser is local

Each parser of the grammar comes to the same on an excerpt of its line.  Where a
parser looks at the next token without eating it, the end of the line has to
lead to the same branch as the token that stands there in the longer line.  The
one exception are the items of an array, behind which a comma or the closing
bracket is asked for; these are local only because the bracket itself belongs to
what the array eats.
-/

open Steps

namespace Parser

variable {state : State}

/-! ## Expressions -/

theorem localAt_binaryOperator (goes : state.lookahead.kind.isTerminator = false) :
    LocalAt binaryOperator binaryOperator state := by
  apply localAt_bind (localAt_advance goes)
  intro token after
  cases BinaryOperator.ofSymbol? token.text with
  | none => exact localAt_throw _
  | some operator => exact local_pure operator after

theorem local_unaryOperator : Local unaryOperator unaryOperator := by
  intro state
  apply localAt_bind (local_eat rfl state)
  intro token after
  cases UnaryOperator.ofSymbol? token.text with
  | none => exact localAt_throw _
  | some operator => exact local_pure operator after

theorem local_variableName : Local variableName variableName := by
  intro state
  apply localAt_discard (local_eat rfl state)
  intro between
  exact localAt_map (local_eatAny (by decide) between) Token.text

theorem localAt_literal
    (plain : state.lookahead.kind = .word -> Builtin.find? state.lookahead.text = none) :
    LocalAt literal literal state := by
  have derives : ObeysAt (fun eaten value _ =>
      Grammar.Unary (fun _ _ => True) (fun _ _ => True) eaten value) literal state :=
    obeysAt_literal plain
  apply localAt_get_of_solid (obeysAt_mono derives fun _ _ _ isUnary => isUnary.ne_nil)
  intro excerpt same
  simp only [same]
  split
  · next isNumber =>
    apply localAt_discard (localAt_advance_of_kind isNumber rfl)
    intro after
    cases Number.parse? state.lookahead.text.toList with
    | none => exact localAt_throw _
    | some value => exact local_pure _ after
  · next isString => exact localAt_map (localAt_advance_of_kind isString rfl) _
  · next isWord => exact localAt_map (localAt_advance_of_kind isWord rfl) _
  · next isBoolean => exact localAt_map (localAt_advance_of_kind isBoolean rfl) _
  · exact localAt_reject _
  · exact localAt_reject _
  · exact localAt_reject _

theorem solidAt_binaryOperator (goes : state.lookahead.kind.isTerminator = false) :
    SolidAt binaryOperator state := by
  apply obeysAt_mono (obeysAt_binaryOperator goes)
  rintro _ _ after ⟨sign, rfl, _⟩
  exact List.cons_ne_nil _ _

theorem solid_unaryOperator : Solid unaryOperator := by
  intro state
  apply obeysAt_mono (obeys_unaryOperator state)
  rintro _ _ after ⟨sign, rfl, _⟩
  exact List.cons_ne_nil _ _

section Chains

variable {level : Token.Kind} {operand again : Parser Expr}

theorem local_chainLoop (goes : level.isTerminator = false) (inside : Local operand again)
    (result : Expr × Nat) :
    Local (chainLoop level operand result) (chainLoop level again result) := by
  apply local_repeatWhile
  · intro result between atLevel
    have goes : between.lookahead.kind.isTerminator = false := by
      rw [of_decide_eq_true atLevel]
      exact goes
    have onward : ∀ operator : BinaryOperator, Local
        (enter >>= fun _ => operand >>= fun right =>
          pure (Expr.binary operator result.1 right, result.2 + 1))
        (enter >>= fun _ => again >>= fun right =>
          pure (Expr.binary operator result.1 right, result.2 + 1)) := fun operator state =>
      localAt_bind (local_enter state) fun _ deeper => localAt_map (inside deeper) _
    exact ⟨localAt_bind (localAt_binaryOperator goes) onward,
      solidAt_bind (solidAt_binaryOperator goes) fun operator => (onward operator).obeys⟩
  · intro shared between excerpt cut some
    rw [cut.lookahead_eq some]
  · intro between ends
    rw [decide_eq_false_iff_not]
    rintro rfl
    rw [ends] at goes
    cases goes

theorem local_chain (goes : level.isTerminator = false) (inside : Local operand again) :
    Local (chain level operand) (chain level again) := by
  intro state
  rw [chain_eq, chain_eq]
  apply localAt_bind
  · apply localAt_bind (inside state)
    intro first
    exact local_chainLoop goes inside (first, 0)
  · intro result between
    exact localAt_bind (local_leave result.2 between) fun _ => local_pure result.1

end Chains

theorem local_expressionOver {primary again : Parser Expr} (inside : Local primary again) :
    Local (expressionOver primary) (expressionOver again) :=
  local_chain rfl (local_chain rfl (local_chain rfl inside))

section Within

variable {expression again : Parser Expr}

/-- Reads what stands behind an item: a comma, unless the array ends. -/
def separated (items : List Expr) : Parser (List Expr) := do
  if (← get).lookahead.kind ≠ .rightBracket then
    discard <| eat .comma
  return items

/-- At the end of an excerpt a comma would be missing, so this is local only if
something stands behind it. -/
theorem localBefore_separated (items : List Expr) (state : State) :
    LocalBefore (· ≠ []) (separated items) (separated items) state := by
  apply localBefore_get
  · intro excerpt same
    rw [same]
    split
    · apply LocalAt.localBefore
      exact localAt_discard (local_eat rfl state) (local_pure _)
    · exact (local_pure _ state).localBefore
  · exact fun _ _ nothing => absurd rfl nothing

theorem localBefore_arrayRound (inside : Local expression again) (items : List Expr)
    (state : State) :
    LocalBefore (· ≠ []) (arrayRound expression items) (arrayRound again items) state :=
  localBefore_bind (inside state) (fun item => localBefore_separated (item :: items))
    fun item between =>
      obeysAt_mono (localBefore_separated (item :: items) between) fun _ _ _ _ _ _ => trivial

theorem solid_arrayRound (solid : Solid expression) (items : List Expr) :
    Solid (arrayRound expression items) :=
  fun state => solidAt_bind (solid state) fun item between =>
    obeysAt_mono (localBefore_separated (item :: items) between) fun _ _ _ _ => trivial

/-- The items are followed by the end of the array, and this is where the loop
stops. -/
theorem localBefore_arrayLoop (inside : Local expression again) (solid : Solid expression)
    (state : State) :
    LocalBefore (fun shared => ∃ closing others, shared = closing :: others
        ∧ closing.kind = .rightBracket)
      (arrayLoop expression []) (arrayLoop again []) state := by
  have sees : ∀ (shared : List Token) (between excerpt : State), between.Excerpt shared excerpt ->
      shared ≠ [] -> decide (excerpt.lookahead.kind ≠ .rightBracket)
        = decide (between.lookahead.kind ≠ .rightBracket) := by
    intro shared between excerpt cut some
    rw [cut.lookahead_eq some]
  have loop := obeysAt_repeatWhile_local
    (fun items between _ =>
      ⟨localBefore_arrayRound inside items between, solid_arrayRound solid items between⟩)
    (fun _ _ some => List.append_ne_nil_of_right_ne_nil _ some) sees [] state
  apply obeysAt_mono loop
  rintro eaten items after ⟨unwarned, onExcerpt⟩
  refine ⟨unwarned, ?_⟩
  rintro _ excerpt ⟨closing, others, rfl, isClosing⟩ cut
  apply onExcerpt _ excerpt (List.cons_ne_nil _ _) cut
  intro rest cutRest
  rcases cutRest.tokens with ⟨ending, _, tokens⟩
  rw [(List.cons.inj tokens).1, decide_eq_false_iff_not]
  exact not_not.mpr isClosing

theorem local_array (inside : Local expression again) (solid : Solid expression) :
    Local (array expression) (array again) := by
  intro state
  rw [array_eq, array_eq]
  apply localAt_discard (local_eat rfl state)
  intro between
  have closes : ∀ items : List Expr, Local
      (discard (eat .rightBracket) >>= fun _ => pure (Expr.array items.reverse))
      (discard (eat .rightBracket) >>= fun _ => pure (Expr.array items.reverse)) :=
    fun items state => localAt_discard (local_eat rfl state) (local_pure _)
  apply localBefore_bind (localBefore_nested (localBefore_arrayLoop inside solid) between) closes
  intro items behind
  apply obeysAt_discard (obeys_eat rfl behind)
  rintro _ closing after _ ⟨rfl, isClosing⟩
  apply obeysAt_pure
  intro shared _
  exact ⟨closing, shared, rfl, isClosing⟩

theorem local_helpArguments : Local helpArguments helpArguments := by
  intro state
  apply localAt_ite_of_never
  · intro excerpt same
    rw [same]
  · intro excerpt ends
    exact kind_ne_of_ends ends rfl
  · intro isWord
    exact ⟨localAt_advance_of_kind isWord rfl, solidAt_advance_of_kind isWord rfl⟩
  · intro name after
    split
    · exact local_pure _ after
    · exact localAt_throw _
  · intro _
    exact local_pure _ state

theorem local_clearArguments : Local clearArguments clearArguments := by
  intro state
  apply localAt_ite_of_never
  · intro excerpt same
    rw [same]
  · intro excerpt ends dashed
    have goes := isTerminator_of_isDash dashed
    rw [ends] at goes
    cases goes
  · intro dashed
    have goes := isTerminator_of_isDash dashed
    exact ⟨localAt_advance goes, solidAt_advance goes⟩
  · intro dash between
    apply localAt_bind (local_eat rfl between)
    intro flag after
    split
    · exact local_pure _ after
    · exact localAt_throw _
  · intro _
    exact local_pure _ state

theorem local_userArguments : Local userArguments userArguments :=
  fun state => localAt_map (local_eatAny (by decide) state) _

theorem local_stackVariable : Local stackVariable stackVariable := by
  intro state
  rw [stackVariable]
  simp only [discard_bind_eq]
  apply localAt_ite_of_never
  · intro excerpt same
    rw [same]
  · intro excerpt ends
    exact kind_ne_of_ends ends rfl
  · intro isDollar
    exact ⟨localAt_advance_of_kind isDollar rfl, solidAt_advance_of_kind isDollar rfl⟩
  · intro _ after
    exact localAt_map (local_eat rfl after) _
  · intro _
    exact localAt_map (local_eat rfl state) _

theorem local_stackArguments (inside : Local expression again) :
    Local (stackArguments expression) (stackArguments again) := by
  intro state
  apply localAt_bind (local_eat rfl state)
  intro verb between
  split
  · apply localAt_bind (local_stackVariable between)
    intro name behind
    exact localAt_map (inside behind) _
  · split
    · exact localAt_map (local_stackVariable between) _
    · split
      · exact local_pure _ between
      · exact localAt_throw _

theorem local_pathFrom (first : String) : Local (pathFrom first) (pathFrom first) := by
  apply local_repeatWhile
  · intro path between goes
    have onward := isTerminator_of_isPathPiece (Bool.and_eq_true_iff.mp goes).2
    exact ⟨localAt_map (localAt_advance onward) _,
      solidAt_bind (solidAt_advance onward) fun _ => (local_pure _).obeys⟩
  · intro shared between excerpt cut some
    rw [State.isAdjacent, State.isAdjacent, cut.lookahead_eq some, cut.lastEnd]
  · intro between ends
    rw [Bool.and_eq_false_iff]
    right
    by_contra isPiece
    have goes := isTerminator_of_isPathPiece (Bool.not_eq_false _ ▸ isPiece)
    rw [ends] at goes
    cases goes

theorem local_path (first : Token) :
    Local (pathFrom first.text >>= fun path => pure [Argument.path path])
      (pathFrom first.text >>= fun path => pure [Argument.path path]) :=
  fun state => localAt_map (local_pathFrom first.text state) _

theorem local_cdArguments : Local cdArguments cdArguments := by
  intro state
  apply localAt_get
  · intro excerpt same
    simp only [same]
    split
    · exact local_pure _ state
    · next goes =>
      split
      · exact localAt_map (localAt_advance (Bool.eq_false_iff.mpr goes)) _
      · split
        · exact localAt_bind (localAt_advance (Bool.eq_false_iff.mpr goes)) local_path
        · exact localAt_bind (local_eatAny (by decide) state) local_path
  · intro excerpt ends
    simp only [ends]
    split
    · right
      exact local_pure _ state
    · next goes =>
      left
      split
      · exact solidAt_bind (solidAt_advance (Bool.eq_false_iff.mpr goes)) fun _ =>
          (local_pure _).obeys
      · split
        · exact solidAt_bind (solidAt_advance (Bool.eq_false_iff.mpr goes)) fun first =>
            (local_path first).obeys
        · exact solidAt_bind (solid_eatAny (by decide) state) fun first => (local_path first).obeys

theorem local_arguments (inside : Local expression again) (action : Action) :
    Local (arguments expression action) (arguments again action) := by
  cases action with
  | help => exact local_helpArguments
  | echo => exact fun state => localAt_map (inside state) _
  | clear => exact local_clearArguments
  | user => exact local_userArguments
  | stack => exact local_stackArguments inside
  | cd => exact local_cdArguments
  | motd | test | confirm | license | assign | evaluate => exact local_pure _

theorem local_commandAfter (inside : Local expression again) (builtin : Builtin) (name : Token) :
    Local (commandAfter expression builtin name) (commandAfter again builtin name) := by
  intro state
  apply localAt_bind (local_nested (local_arguments inside builtin.action) state)
  intro parameters after
  exact localAt_map (local_spanFrom name.span.start after) _

end Within

section Primaries

variable {primary primaryAgain expression expressionAgain : Parser Expr}

theorem solid_unary (below : Local primary primaryAgain)
    (inside : Local expression expressionAgain) : Solid (unary primary expression) :=
  fun state => obeysAt_mono (obeys_unary below.obeys inside.obeys state)
    fun _ _ _ isUnary => isUnary.ne_nil

theorem local_reference :
    Local (do
        let operand := Expr.var (← variableName)
        if (← get).lookahead.isStep then
          return .unary (← unaryOperator) .after operand
        else return operand)
      (do
        let operand := Expr.var (← variableName)
        if (← get).lookahead.isStep then
          return .unary (← unaryOperator) .after operand
        else return operand) := by
  intro state
  apply localAt_bind (local_variableName state)
  intro name between
  apply localAt_ite_of_never
  · intro excerpt same
    rw [same]
  · intro excerpt ends steps
    have goes := isTerminator_of_isStep steps
    rw [ends] at goes
    cases goes
  · intro _
    exact ⟨local_unaryOperator between, solid_unaryOperator between⟩
  · intro operator
    exact local_pure _
  · intro _
    exact local_pure _ between

theorem local_unary (below : Local primary primaryAgain)
    (inside : Local expression expressionAgain) (solid : Solid expression) :
    Local (unary primary expression) (unary primaryAgain expressionAgain) := by
  intro state
  apply localAt_get_of_solid (solid_unary below inside state)
  intro excerpt same
  simp only [same]
  split
  · apply localAt_bind (local_unaryOperator state)
    intro operator between
    cases operator.isStep with
    | true =>
        exact localAt_map (local_nested (fun state => localAt_map (local_variableName state) _)
          between) _
    | false => exact localAt_map (local_nested below between) _
  · exact local_reference state
  · exact local_array inside solid state
  · next isAdditive =>
    split
    · apply localAt_discard (localAt_advance_of_kind isAdditive rfl)
      intro between
      exact localAt_map (local_nested below between) _
    · apply localAt_literal
      intro isWord
      rw [isAdditive] at isWord
      cases isWord
  · next isWord =>
    split
    · next builtin _ =>
      apply localAt_bind (localAt_advance_of_kind isWord rfl)
      intro name between
      exact localAt_map (local_commandAfter inside builtin name between) _
    · next none => exact localAt_literal fun _ => none
  · next other => exact localAt_literal fun isWord => absurd isWord other

end Primaries

theorem solid_primaryWithin (levels : Nat) : Solid (primaryWithin levels) :=
  fun state => obeysAt_mono (obeys_primaryWithin levels state) fun tokens value _ =>
    Grammar.Primary.ne_nil tokens value

theorem solid_expressionWithin (levels : Nat) : Solid (expressionOver (primaryWithin levels)) :=
  fun state => obeysAt_mono (obeysUpTo_expressionOver (obeys_primaryWithin levels)
    |>.obeys state) fun _ _ _ => Grammar.Chain.ne_nil
      (Grammar.Chain.ne_nil (Grammar.Chain.ne_nil Grammar.Primary.ne_nil)) _ _

theorem local_primaryOver {inner again : Parser Expr} (below : Local inner again)
    (solid : Solid (expressionOver inner)) (whole : Solid (primaryOver inner)) :
    Local (primaryOver inner) (primaryOver again) := by
  have inside := local_expressionOver below
  intro state
  apply localAt_get_of_solid (whole state)
  intro excerpt same
  rw [same]
  split
  · apply localAt_discard (local_eat rfl state)
    intro between
    apply localAt_bind (local_nested inside between)
    intro value behind
    exact localAt_discard (local_eat rfl behind) (local_pure value)
  · exact local_unary below inside solid state

/-- A parser for more levels comes to the same as one for fewer levels, if that
one does not run out of them. -/
theorem local_primaryWithin {levels more : Nat} (within : levels ≤ more) :
    Local (primaryWithin levels) (primaryWithin more) := by
  induction levels generalizing more with
  | zero => exact fun _ => localAt_reject _
  | succ levels ih =>
      cases more with
      | zero => cases within
      | succ more =>
          exact local_primaryOver (ih (Nat.le_of_succ_le_succ within))
            (solid_expressionWithin levels) (solid_primaryWithin (levels + 1))

/-! ## Statements -/

theorem local_assign (name : Token) (value : Expr) :
    Local (assign name value) (assign name value) :=
  fun state => localAt_map (local_spanFrom name.span.start state) _

theorem local_expression : Local expression expression :=
  local_expressionOver (local_primaryWithin (Nat.le_refl _))

theorem solid_expression : Solid expression :=
  solid_expressionWithin _

theorem local_assignValue (name : Token) (change : Expr -> Expr) :
    Local (expression >>= fun value => assign name (change value))
      (expression >>= fun value => assign name (change value)) :=
  fun state => localAt_bind (local_expression state) fun value => local_assign name (change value)

theorem solid_assignValue (name : Token) (change : Expr -> Expr) :
    Solid (expression >>= fun value => assign name (change value)) :=
  fun state => solidAt_bind (solid_expression state) fun value =>
    (local_assign name (change value)).obeys

section Assignments

variable (name : Token)

/-- What stands behind an equals sign. -/
theorem local_assigned :
    Local (do
        if (← get).lookahead.kind.isTerminator then assign name (.text "")
        else assign name (← expression))
      (do
        if (← get).lookahead.kind.isTerminator then assign name (.text "")
        else assign name (← expression)) := by
  intro state
  apply localAt_ite_of_always
  · intro excerpt same
    rw [same]
  · intro excerpt ends
    exact isTerminator_of_ends ends
  · intro _
    exact local_assign name _ state
  · intro _
    exact ⟨local_assignValue name id state, solid_assignValue name id state⟩

/-- What stands behind an operator that changes a variable. -/
theorem local_stepped (operator : UnaryOperator) :
    Local (do
        if (← get).lookahead.kind.isTerminator then
          let span ← spanFrom name.span.start
          let step := Expr.unary operator .after (.var name.text)
          return { name := name.text, action := .evaluate, parameters := [.expression step], span }
        else throw (.unknownCommand name.text name.span.start) : Parser Command)
      (do
        if (← get).lookahead.kind.isTerminator then
          let span ← spanFrom name.span.start
          let step := Expr.unary operator .after (.var name.text)
          return { name := name.text, action := .evaluate, parameters := [.expression step], span }
        else throw (.unknownCommand name.text name.span.start)) := by
  intro state
  apply localAt_ite_of_always
  · intro excerpt same
    rw [same]
  · intro excerpt ends
    exact isTerminator_of_ends ends
  · intro _
    exact localAt_map (local_spanFrom name.span.start state) _
  · intro _
    exact ⟨localAt_throw _, obeysAt_throw _⟩

/-- What stands behind an operator that a variable is combined with. -/
theorem local_combined (operator : BinaryOperator) :
    Local (do
        if (← get).lookahead.kind = .equals then
          discard advance
          assign name (.binary operator (.var name.text) (← expression))
        else throw (.unknownCommand name.text name.span.start))
      (do
        if (← get).lookahead.kind = .equals then
          discard advance
          assign name (.binary operator (.var name.text) (← expression))
        else throw (.unknownCommand name.text name.span.start)) := by
  intro state
  simp only [discard_bind_eq]
  apply localAt_ite_of_never
  · intro excerpt same
    rw [same]
  · intro excerpt ends
    exact kind_ne_of_ends ends rfl
  · intro isEquals
    exact ⟨localAt_advance_of_kind isEquals rfl, solidAt_advance_of_kind isEquals rfl⟩
  · intro _
    exact local_assignValue name _
  · intro _
    exact localAt_throw _

theorem localAt_combination {kind : Token.Kind} (here : state.lookahead.kind = kind)
    (goes : kind.isTerminator = false) : LocalAt (combination name) (combination name) state := by
  rw [← here] at goes
  exact localAt_bind (localAt_binaryOperator goes) (local_combined name)

theorem solidAt_combination {kind : Token.Kind} (here : state.lookahead.kind = kind)
    (goes : kind.isTerminator = false) : SolidAt (combination name) state := by
  rw [← here] at goes
  exact solidAt_bind (solidAt_binaryOperator goes) fun operator =>
    (local_combined name operator).obeys

theorem solid_assignment : Solid (assignment name) := by
  intro state
  apply obeysAt_get
  simp only
  split
  · next isEquals =>
    exact solidAt_discard (solidAt_advance_of_kind isEquals rfl) (local_assigned name).obeys
  · split
    · exact solidAt_bind (solid_unaryOperator state) fun operator =>
        (local_stepped name operator).obeys
    · exact obeysAt_throw _
  · next isAdditive => exact solidAt_combination name isAdditive rfl
  · next isMultiplicative => exact solidAt_combination name isMultiplicative rfl
  · next isBitwise => exact solidAt_combination name isBitwise rfl
  · exact obeysAt_throw _

theorem local_assignment : Local (assignment name) (assignment name) := by
  intro state
  apply localAt_get_of_solid (solid_assignment name state)
  intro excerpt same
  simp only [same]
  split
  · next isEquals =>
    exact localAt_discard (localAt_advance_of_kind isEquals rfl) (local_assigned name)
  · split
    · exact localAt_bind (local_unaryOperator state) (local_stepped name)
    · exact localAt_throw _
  · next isAdditive => exact localAt_combination name isAdditive rfl
  · next isMultiplicative => exact localAt_combination name isMultiplicative rfl
  · next isBitwise => exact localAt_combination name isBitwise rfl
  · exact localAt_throw _

end Assignments

end Parser
end LineShell
