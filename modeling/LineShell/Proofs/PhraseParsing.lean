import LineShell.Proofs.Parsing
import LineShell.Proofs.Phrase

namespace LineShell
namespace Parser

/-!
# Parsing undoes rendering

The tokens of a phrase are parsed to the expression that the phrase stands for,
unless the line runs out of levels.  The proof follows the phrase.  Since a
chain of operators leans to the left, the parser reads its operands in a loop,
while the phrase nests them; so the statement about a phrase on the left of an
operator says where the loop stands after reading it, not that the loop ends
there.

Every level that is entered is paid for by an operator, an array or a pair of
parentheses of the phrase, and at most one pair belongs to each operator.
-/

open Token (Lexeme)
open Steps

/-! ## Where the parser stands -/

/-- The parser has the given tokens before it, has entered the given number of
levels, and has found nothing to warn of. -/
structure State.At (lexemes : List Lexeme) (depth : Nat) (state : State) : Prop where
  tokens : state.tokens.map Token.lexeme = lexemes
  depth_eq : state.depth = depth
  whole : state.fault? = none
  unwarned : state.warnings = []

/-- The result of a parser: a value of the given sort, before the given tokens,
or too many levels, which is only possible if `cap` is above the limit. -/
def Reaches {α : Type} (meets : α -> Prop) (lexemes : List Lexeme) (depth cap : Nat) :
    EStateM.Result Fault State α -> Prop :=
  Ensures (fun value after => meets value ∧ after.At lexemes depth)
    (fun fault _ => (∃ offset, fault = .grammatical .tooDeep offset) ∧ maxDepth < cap)

section Stepping

variable {α β : Type} {lexeme next : Lexeme} {lexemes : List Lexeme} {depth cap : Nat}
  {state : State}

theorem State.At.lookahead (stands : state.At (lexeme :: lexemes) depth) :
    state.lookahead.kind = lexeme.kind ∧ state.lookahead.text = lexeme.text := by
  have equal := (List.cons.inj stands.tokens).1
  rw [← equal]
  exact ⟨rfl, rfl⟩

theorem State.At.remaining_eq (stands : state.At lexemes depth) :
    state.remaining + 1 = lexemes.length := by
  have equal := congrArg List.length stands.tokens
  rw [List.length_map] at equal
  exact equal

theorem reaches_bind {meets : α -> Prop} {meetsNext : β -> Prop} {after : List Lexeme}
    {depth' : Nat} {step : Parser α} {rest : α -> Parser β}
    (first : Reaches meets lexemes depth cap (step state))
    (second : ∀ value between, meets value -> between.At lexemes depth ->
      Reaches meetsNext after depth' cap (rest value between)) :
    Reaches meetsNext after depth' cap ((step >>= rest) state) :=
  Ensures.bind first fun value between met => second value between met.1 met.2

theorem reaches_pure {meets : α -> Prop} {value : α} (met : meets value)
    (stands : state.At lexemes depth) :
    Reaches meets lexemes depth cap ((pure value : Parser α) state) :=
  ⟨met, stands⟩

theorem reaches_mono {meets : α -> Prop} {cap' : Nat} {result : EStateM.Result Fault State α}
    (reached : Reaches meets lexemes depth cap result) (room : cap ≤ cap') :
    Reaches meets lexemes depth cap' result :=
  Ensures.mono reached (fun _ _ met => met) fun _ _ deep => ⟨deep.1, Nat.lt_of_lt_of_le deep.2 room⟩

theorem reaches_advance (stands : state.At (lexeme :: next :: lexemes) depth) :
    Reaches (fun token => token.lexeme = lexeme) (next :: lexemes) depth cap (advance state) := by
  rcases List.cons.inj stands.tokens with ⟨first, rest⟩
  cases upcoming : state.upcoming with
  | nil =>
      rw [upcoming] at rest
      cases rest
  | cons token tokens =>
      rw [upcoming] at rest
      rw [advance_of_upcoming upcoming]
      exact ⟨first, rest, stands.depth_eq, stands.whole, stands.unwarned⟩

theorem reaches_eatAny {kinds : List Token.Kind} (wanted : lexeme.kind ∈ kinds)
    (stands : state.At (lexeme :: next :: lexemes) depth) :
    Reaches (fun token => token.lexeme = lexeme) (next :: lexemes) depth cap
      (eatAny kinds state) := by
  rw [eatAny_of_mem (by rw [stands.lookahead.1]; exact wanted)]
  exact reaches_advance stands

theorem reaches_discard {step : Parser α} {rest : Unit -> Parser β} {meets : β -> Prop}
    {after : List Lexeme} {depth' : Nat} {between : List Lexeme}
    (first : Reaches (fun _ => True) between depth cap (step state))
    (second : ∀ state, state.At between depth -> Reaches meets after depth' cap (rest () state)) :
    Reaches meets after depth' cap ((discard step >>= rest) state) := by
  rw [discard_bind]
  exact reaches_bind first fun _ state _ stands => second state stands

theorem reaches_any {meets : α -> Prop} {result : EStateM.Result Fault State α}
    (reached : Reaches meets lexemes depth cap result) :
    Reaches (fun _ => True) lexemes depth cap result :=
  Ensures.mono reached (fun _ _ met => ⟨trivial, met.2⟩) fun _ _ deep => deep

theorem reaches_enter (stands : state.At lexemes depth) (room : depth < cap) :
    Reaches (fun _ => True) lexemes (depth + 1) cap (enter state) := by
  by_cases fits : state.depth + 1 ≤ maxDepth
  · rw [enter_of_le fits]
    exact ⟨trivial, stands.tokens, congrArg (· + 1) stands.depth_eq, stands.whole,
      stands.unwarned⟩
  · have full := Nat.not_le.mp fits
    rw [enter_of_lt full]
    rw [stands.depth_eq] at full
    exact ⟨⟨_, rfl⟩, Nat.lt_of_lt_of_le full room⟩

theorem reaches_leave {levels : Nat} (stands : state.At lexemes (depth + levels)) :
    Reaches (fun _ => True) lexemes depth cap (leave levels state) := by
  refine ⟨trivial, stands.tokens, ?_, stands.whole, stands.unwarned⟩
  change state.depth - levels = depth
  rw [stands.depth_eq, Nat.add_sub_cancel]

/-- Reading something one level deeper. -/
theorem reaches_nested {meets : α -> Prop} {after : List Lexeme} {inner : Parser α}
    (reading : ∀ state, state.At lexemes (depth + 1) ->
      Reaches meets after (depth + 1) cap (inner state))
    (stands : state.At lexemes depth) (room : depth < cap) :
    Reaches meets after depth cap (nested inner state) := by
  refine reaches_bind (reaches_enter stands room) fun _ entered _ deeper => ?_
  refine reaches_bind (reading entered deeper) fun value read met there => ?_
  exact reaches_bind (reaches_leave there) fun _ _ _ back => reaches_pure met back

end Stepping

/-! ## Operators, variables and literals -/

section Atoms

variable {next : Lexeme} {lexemes : List Lexeme} {depth cap : Nat} {state : State}

theorem reaches_binaryOperator (operator : BinaryOperator)
    (stands : state.At (operator.lexeme :: next :: lexemes) depth) :
    Reaches (· = operator) (next :: lexemes) depth cap (binaryOperator state) := by
  refine reaches_bind (reaches_advance stands) fun token after eaten there => ?_
  have symbol : token.text = operator.symbol := congrArg Lexeme.text eaten
  simp only [symbol, BinaryOperator.ofSymbol?_symbol]
  exact reaches_pure rfl there

theorem reaches_unaryOperator (operator : UnaryOperator) (notMinus : operator ≠ .negate)
    (stands : state.At (operator.lexeme :: next :: lexemes) depth) :
    Reaches (· = operator) (next :: lexemes) depth cap (unaryOperator state) := by
  have kind : operator.lexeme.kind ∈ [Token.Kind.unary] := by
    simp only [UnaryOperator.lexeme, notMinus, if_false, List.mem_singleton]
  refine reaches_bind (reaches_eatAny kind stands) fun token after eaten there => ?_
  have symbol : token.text = operator.symbol := congrArg Lexeme.text eaten
  simp only [symbol, UnaryOperator.ofSymbol?_symbol]
  exact reaches_pure rfl there

theorem reaches_variableName (name : VariableName)
    (stands : state.At (Phrase.variableLexemes name ++ next :: lexemes) depth) :
    Reaches (· = name.text) (next :: lexemes) depth cap (variableName state) := by
  refine reaches_discard (reaches_any (reaches_eatAny (List.mem_singleton.mpr rfl) stands))
    fun afterDollar there => ?_
  refine reaches_bind (reaches_eatAny name.kind_mem there) fun token after eaten beyond => ?_
  exact reaches_pure (congrArg Lexeme.text eaten) beyond

theorem primaryWithin_of_other (fuel : Nat) (plain : state.lookahead.kind ≠ .leftParen) :
    primaryWithin (fuel + 1) state
      = unary (primaryWithin fuel) (expressionOver (primaryWithin fuel)) state := by
  simp only [primaryWithin, primaryOver, get_bind, plain, if_false]

theorem reaches_number (literal : NumberLiteral) (fuel : Nat)
    (stands : state.At ({ kind := .number, text := literal.text } :: next :: lexemes) depth) :
    Reaches (· = .number literal.value) (next :: lexemes) depth cap
      (primaryWithin (fuel + 1) state) := by
  rcases stands.lookahead with ⟨kind, text⟩
  rw [primaryWithin_of_other fuel (by rw [kind]; simp)]
  simp only [unary, Parser.literal, get_bind, kind, text]
  refine reaches_discard (reaches_any (reaches_advance stands)) fun after there => ?_
  simp only [literal.parse?_text]
  exact reaches_pure rfl there

theorem reaches_text (value : String) (fuel : Nat)
    (stands : state.At ({ kind := .string, text := Text.Quoted.encode value } :: next :: lexemes)
      depth) :
    Reaches (· = .text value) (next :: lexemes) depth cap (primaryWithin (fuel + 1) state) := by
  rcases stands.lookahead with ⟨kind, -⟩
  rw [primaryWithin_of_other fuel (by rw [kind]; simp)]
  simp only [unary, Parser.literal, get_bind, kind]
  refine reaches_bind (reaches_advance stands) fun token after eaten there => ?_
  refine reaches_pure ?_ there
  have tokenKind : token.kind = .string := congrArg Lexeme.kind eaten
  have tokenText : token.text = Text.Quoted.encode value := congrArg Lexeme.text eaten
  rw [plainText, if_pos tokenKind, tokenText, Text.Quoted.decode_encode]

theorem reaches_boolean (value : Bool) (fuel : Nat)
    (stands : state.At ({ kind := .boolean, text := if value then "true" else "false" }
      :: next :: lexemes) depth) :
    Reaches (· = .boolean value) (next :: lexemes) depth cap (primaryWithin (fuel + 1) state) := by
  rcases stands.lookahead with ⟨kind, -⟩
  rw [primaryWithin_of_other fuel (by rw [kind]; simp)]
  simp only [unary, Parser.literal, get_bind, kind]
  refine reaches_bind (reaches_advance stands) fun token after eaten there => ?_
  refine reaches_pure ?_ there
  have tokenText : token.text = if value then "true" else "false" := congrArg Lexeme.text eaten
  cases value <;> rw [tokenText] <;> rfl

theorem reaches_word (bare : BareWord) (fuel : Nat)
    (stands : state.At ({ kind := .word, text := bare.text } :: next :: lexemes) depth) :
    Reaches (· = .word bare.text) (next :: lexemes) depth cap
      (primaryWithin (fuel + 1) state) := by
  rcases stands.lookahead with ⟨kind, text⟩
  rw [primaryWithin_of_other fuel (by rw [kind]; simp)]
  simp only [unary, Parser.literal, get_bind, kind, text, bare.notBuiltin]
  refine reaches_bind (reaches_advance stands) fun token after eaten there => ?_
  exact reaches_pure (congrArg (fun lexeme => Expr.word lexeme.text) eaten) there

/-- A variable that no step follows. -/
theorem reaches_variable (name : VariableName) (fuel : Nat) (noStep : next.kind ≠ .unary)
    (stands : state.At (Phrase.variableLexemes name ++ next :: lexemes) depth) :
    Reaches (· = .var name.text) (next :: lexemes) depth cap
      (primaryWithin (fuel + 1) state) := by
  rcases State.At.lookahead stands with ⟨kind, -⟩
  rw [primaryWithin_of_other fuel (by rw [kind]; decide)]
  simp only [unary, get_bind, kind, Phrase.dollar]
  refine reaches_bind (reaches_variableName name stands) fun text after read there => ?_
  have plain : after.lookahead.isStep = false := by
    simp only [Token.isStep, Token.isSymbol, there.lookahead.1, noStep, decide_false,
      Bool.false_and, Bool.or_self]
  simp only [get_bind, plain, Bool.false_eq_true, if_false]
  exact reaches_pure (congrArg Expr.var read) there

end Atoms

/-! ## Levels -/

/-- The parser for the phrases of a level, given how many levels may nest. -/
def parserAt (fuel : Nat) : Level -> Parser Expr
  | .additive => chain .additive (chain .multiplicative (chain .bitwise (primaryWithin fuel)))
  | .multiplicative => chain .multiplicative (chain .bitwise (primaryWithin fuel))
  | .bitwise => chain .bitwise (primaryWithin fuel)
  | .unary => primaryWithin fuel

theorem parserAt_of_kind {level : Level} {kind : Token.Kind} (known : level.kind? = some kind)
    (fuel : Nat) : parserAt fuel level = chain kind (parserAt fuel level.tighter) := by
  cases level <;> cases known <;> rfl

theorem exists_first (lexemes : List Lexeme) (next : Lexeme) (rest : List Lexeme) :
    ∃ first others, lexemes ++ next :: rest = first :: others :=
  List.exists_cons_of_ne_nil (List.append_ne_nil_of_right_ne_nil _ (List.cons_ne_nil _ _))

/-! ## Chains of operators -/

/-- On this level a phrase is read as its expression, up to a token that ends
it. -/
def ReadsAt (level : Level) (phrase : Phrase) : Prop :=
  ∀ fuel next rest depth state, maxDepth < fuel + depth -> Follows level next ->
    State.At (phrase.lexemes level ++ next :: rest) depth state ->
    Reaches (· = phrase.toExpr) (next :: rest) depth (depth + phrase.cost level)
      (parserAt fuel level state)

/-- On this level the loop of a chain, after the tokens of a phrase, stands as
if it had been started with the expression of the phrase. -/
def ChainsAt (level : Level) (phrase : Phrase) : Prop :=
  ∀ kind fuel next rest depth state, level.kind? = some kind -> maxDepth < fuel + depth ->
    Follows level.tighter next -> State.At (phrase.lexemes level ++ next :: rest) depth state ->
    (∃ after, State.At (next :: rest) (depth + phrase.spine level) after
        ∧ chainBody kind (parserAt fuel level.tighter) state
          = chainLoop kind (parserAt fuel level.tighter) (phrase.toExpr, phrase.spine level) after)
      ∨ ((∃ offset after, chainBody kind (parserAt fuel level.tighter) state
          = .error (.grammatical .tooDeep offset) after)
        ∧ maxDepth < depth + phrase.cost level)

/-- The level of the outermost operator with two operands, if a phrase has one. -/
def outerLevel : Phrase -> Level
  | .binary operator _ _ => operator.level
  | _ => .unary

/-- A phrase is the same on a level and on the next tighter one, if its own
operator is not of that level. -/
theorem same_of_ne {level : Level} {kind : Token.Kind} {phrase : Phrase}
    (known : level.kind? = some kind) (different : outerLevel phrase ≠ level) :
    phrase.lexemes level = phrase.lexemes level.tighter ∧ phrase.spine level = 0
      ∧ phrase.cost level = phrase.cost level.tighter := by
  cases phrase with
  | binary operator left right =>
      have order : operator.level.rank < level.rank ↔ operator.level.rank < level.tighter.rank := by
        rw [outerLevel] at different
        cases operator <;> cases level <;> first | decide | exact absurd rfl different
      simp only [outerLevel] at different
      simp only [Phrase.lexemes, Phrase.spine, Phrase.cost, order, different, if_false, and_self]
  | step operator steps placement name =>
      cases placement <;> simp only [Phrase.lexemes, Phrase.spine, Phrase.cost, and_self]
  | _ => simp only [Phrase.lexemes, Phrase.spine, Phrase.cost, and_self]

theorem chainsAt_of_readsAt {level : Level} {phrase : Phrase}
    (different : outerLevel phrase ≠ level) (reads : ReadsAt level.tighter phrase) :
    ChainsAt level phrase := by
  intro kind fuel next rest depth state known room follows stands
  rcases same_of_ne known different with ⟨sameLexemes, noSpine, sameCost⟩
  rw [sameLexemes] at stands
  have reached := reads fuel next rest depth state room follows stands
  cases ran : parserAt fuel level.tighter state with
  | ok value after =>
      rw [ran] at reached
      rcases reached with ⟨rfl, there⟩
      refine Or.inl ⟨after, ?_, ?_⟩
      · rw [noSpine]
        exact there
      · rw [noSpine]
        exact bind_of_ok ran _
  | error fault after =>
      rw [ran] at reached
      rcases reached with ⟨⟨offset, rfl⟩, full⟩
      refine Or.inr ⟨⟨offset, after, bind_of_error ran _⟩, ?_⟩
      rw [sameCost]
      exact full

/-- One more operator and operand behind a chain. -/
theorem reaches_chainRound {operator : BinaryOperator} {right : Phrase} {fuel : Nat}
    {next : Lexeme} {rest : List Lexeme} {depth : Nat} {state : State} (left : Expr) (levels : Nat)
    (reads : ReadsAt operator.level.tighter right) (room : maxDepth < fuel + depth)
    (follows : Follows operator.level.tighter next)
    (stands : state.At (operator.lexeme
      :: (right.lexemes operator.level.tighter ++ next :: rest)) depth) :
    Reaches (· = (.binary operator left right.toExpr, levels + 1)) (next :: rest) (depth + 1)
      (depth + 1 + right.cost operator.level.tighter)
      (chainRound (parserAt fuel operator.level.tighter) (left, levels) state) := by
  rcases exists_first (right.lexemes operator.level.tighter) next rest with ⟨first, others, shape⟩
  rw [shape] at stands
  refine reaches_bind (reaches_binaryOperator operator stands) fun _ afterOperator same there => ?_
  subst same
  refine reaches_bind (reaches_enter there (by omega)) fun _ entered _ deeper => ?_
  rw [← shape] at deeper
  have reading := reads fuel next rest (depth + 1) entered (by omega) follows deeper
  refine reaches_bind reading fun value after same beyond => ?_
  subst same
  exact reaches_pure rfl beyond

theorem chainsAt_binary {operator : BinaryOperator} {left right : Phrase}
    (onLeft : ChainsAt operator.level left) (onRight : ReadsAt operator.level.tighter right) :
    ChainsAt operator.level (.binary operator left right) := by
  intro kind fuel next rest depth state known room follows stands
  have ownKind : kind = operator.lexeme.kind := by
    rw [BinaryOperator.kind?_level] at known
    exact (Option.some.inj known).symm
  have order : ¬operator.level.rank < operator.level.rank := Nat.lt_irrefl _
  have paid := left.spine_le_cost operator.level
  simp only [Phrase.lexemes, Phrase.parenthesize, order, decide_false, Bool.false_eq_true,
    if_false, List.append_assoc, List.cons_append] at stands
  simp only [Phrase.cost, Phrase.spine, order, if_false, if_true, Phrase.toExpr]
  rcases onLeft kind fuel operator.lexeme _ depth state known room operator.follows_lexeme stands
    with ⟨between, there, same⟩ | ⟨deep, full⟩
  · have goes : decide (between.lookahead.kind = kind) = true := by
      rw [there.lookahead.1, ownKind, decide_eq_true_eq]
    have deepRoom : maxDepth < fuel + (depth + left.spine operator.level) := by omega
    have round := reaches_chainRound left.toExpr (left.spine operator.level) onRight deepRoom
      follows there
    cases ran : chainRound (parserAt fuel operator.level.tighter)
        (left.toExpr, left.spine operator.level) between with
    | ok value after =>
        rw [ran] at round
        rcases round with ⟨rfl, beyond⟩
        refine Or.inl ⟨after, by rw [← Nat.add_assoc]; exact beyond, ?_⟩
        have nearer : after.remaining < between.remaining := by
          have before := there.remaining_eq
          have behind := beyond.remaining_eq
          simp only [List.length_cons, List.length_append] at before behind
          omega
        exact same.trans (repeatWhile_of_ok goes ran nearer)
    | error fault after =>
        rw [ran] at round
        rcases round with ⟨⟨offset, rfl⟩, full⟩
        exact Or.inr ⟨⟨offset, after, same.trans (repeatWhile_of_error goes ran)⟩, by omega⟩
  · exact Or.inr ⟨deep, by omega⟩

theorem readsAt_of_chainsAt {level : Level} {kind : Token.Kind} {phrase : Phrase}
    (known : level.kind? = some kind) (chains : ChainsAt level phrase) : ReadsAt level phrase := by
  intro fuel next rest depth state room follows stands
  rw [parserAt_of_kind known, chain_eq]
  rcases chains kind fuel next rest depth state known room
    (follows.mono level.rank_le_tighter) stands
    with ⟨after, there, same⟩ | ⟨⟨offset, after, same⟩, full⟩
  · have stops : decide (after.lookahead.kind = kind) = false := by
      rw [there.lookahead.1, decide_eq_false_iff_not]
      rintro rfl
      exact absurd (follows.2 level known) (Nat.lt_irrefl _)
    have finished := same.trans (repeatWhile_of_stop stops)
    rw [bind_of_ok finished]
    exact reaches_bind (reaches_leave there) fun _ _ _ back => reaches_pure rfl back
  · rw [bind_of_error same]
    exact ⟨⟨offset, rfl⟩, full⟩

/-- A phrase that is read on the next tighter level is read on a level, if its
own operator is not of that level. -/
theorem readsAt_of_tighter {level : Level} {kind : Token.Kind} {phrase : Phrase}
    (known : level.kind? = some kind) (different : outerLevel phrase ≠ level)
    (reads : ReadsAt level.tighter phrase) : ReadsAt level phrase :=
  readsAt_of_chainsAt known (chainsAt_of_readsAt different reads)

/-! ## Parentheses, prefixes and steps -/

/-- A parser that may not nest at all has run out of levels, so only the others
have to be looked at. -/
theorem readsAt_unary {phrase : Phrase}
    (reads : ∀ fuel next rest depth state, maxDepth < fuel + (depth + 1) -> next.kind ≠ .unary ->
      State.At (phrase.lexemes .unary ++ next :: rest) depth state ->
      Reaches (· = phrase.toExpr) (next :: rest) depth (depth + phrase.cost .unary)
        (primaryWithin (fuel + 1) state)) : ReadsAt .unary phrase := by
  intro fuel next rest depth state room follows stands
  cases fuel with
  | zero => exact ⟨⟨_, rfl⟩, by omega⟩
  | succ fuel => exact reads fuel next rest depth state (by omega) follows.1 stands

theorem follows_rightParen : Follows .additive Phrase.rightParen :=
  ⟨by decide, fun other known => by cases other <;> cases known⟩

theorem readsAt_parenthesized {operator : BinaryOperator} {left right : Phrase}
    (inside : ReadsAt .additive (.binary operator left right)) :
    ReadsAt .unary (.binary operator left right) := by
  have looser : operator.level.rank < Level.unary.rank := by cases operator <;> decide
  have notLooser : ¬operator.level.rank < Level.additive.rank := Nat.not_lt_zero _
  refine readsAt_unary fun fuel next rest depth state room noStep stands => ?_
  have lexemes : (Phrase.binary operator left right).lexemes .unary
      = Phrase.leftParen :: (Phrase.binary operator left right).lexemes .additive
        ++ [Phrase.rightParen] := by
    simp only [Phrase.lexemes, Phrase.parenthesize, looser, notLooser, decide_true, decide_false,
      if_true, Bool.false_eq_true, if_false]
  have cost : (Phrase.binary operator left right).cost .unary
      = (Phrase.binary operator left right).cost .additive + 1 := by
    simp only [Phrase.cost, looser, notLooser, if_true, if_false]
    omega
  rw [lexemes, List.append_assoc, List.cons_append, List.singleton_append] at stands
  obtain ⟨first, others, shape⟩ := exists_first
    ((Phrase.binary operator left right).lexemes .additive) Phrase.rightParen (next :: rest)
  rw [shape] at stands
  have kind : state.lookahead.kind = .leftParen := stands.lookahead.1
  simp only [primaryWithin, primaryOver, get_bind, kind, if_true]
  refine reaches_discard (reaches_any (reaches_eatAny (List.mem_singleton.mpr rfl) stands))
    fun opened there => ?_
  rw [← shape] at there
  have between : Reaches (· = (Phrase.binary operator left right).toExpr)
      (Phrase.rightParen :: next :: rest) depth
      (depth + (Phrase.binary operator left right).cost .unary)
      (nested (expressionOver (primaryWithin fuel)) opened) := by
    refine reaches_nested (fun entered deeper => ?_) there (by omega)
    have reading := inside fuel Phrase.rightParen (next :: rest) (depth + 1) entered room
      follows_rightParen deeper
    exact reaches_mono reading (by omega)
  refine reaches_bind between fun value closing same beyond => ?_
  refine reaches_discard (reaches_any (reaches_eatAny (List.mem_singleton.mpr rfl) beyond))
    fun after done => ?_
  exact reaches_pure same done

theorem readsAt_prefixed {operator : UnaryOperator} {plain : operator.isStep = false}
    {operand : Phrase} (inside : ReadsAt .unary operand) :
    ReadsAt .unary (.unary operator plain operand) := by
  refine readsAt_unary fun fuel next rest depth state room noStep stands => ?_
  have follows : Follows .unary next :=
    ⟨noStep, fun other known => by cases other <;> first | decide | cases known⟩
  rw [Phrase.lexemes, List.cons_append] at stands
  rw [Phrase.cost, Phrase.toExpr]
  rcases exists_first (operand.lexemes .unary) next rest with ⟨first, others, shape⟩
  have nested : ∀ between : State, between.At (first :: others) depth ->
      Reaches (· = operand.toExpr) (next :: rest) depth (depth + (operand.cost .unary + 1))
        (nested (primaryWithin fuel) between) := by
    intro between there
    rw [← shape] at there
    refine reaches_nested (fun entered deeper => ?_) there (by omega)
    have reading := inside fuel next rest (depth + 1) entered room follows deeper
    exact reaches_mono reading (by omega)
  rw [shape] at stands
  by_cases minus : operator = .negate
  · subst minus
    have kind : state.lookahead.kind = .additive := stands.lookahead.1
    have text : state.lookahead.text = "-" := stands.lookahead.2
    rw [primaryWithin_of_other fuel (by rw [kind]; decide)]
    simp only [unary, get_bind, kind, text, if_true]
    refine reaches_discard (reaches_any (reaches_advance stands)) fun between there => ?_
    refine reaches_bind (nested between there) fun value after same done => ?_
    exact reaches_pure (congrArg (Expr.unary .negate .before) same) done
  · have kind : state.lookahead.kind = .unary := by
      rw [stands.lookahead.1, UnaryOperator.lexeme, if_neg minus]
    rw [primaryWithin_of_other fuel (by rw [kind]; decide)]
    simp only [unary, get_bind, kind]
    refine reaches_bind (reaches_unaryOperator operator minus stands)
      fun _ between read there => ?_
    subst read
    simp only [plain, Bool.false_eq_true, if_false]
    refine reaches_bind (nested between there) fun value after same done => ?_
    exact reaches_pure (congrArg (Expr.unary _ .before) same) done

theorem readsAt_stepBefore {operator : UnaryOperator} {steps : operator.isStep = true}
    {name : VariableName} : ReadsAt .unary (.step operator steps .before name) := by
  refine readsAt_unary fun fuel next rest depth state room noStep stands => ?_
  have notMinus : operator ≠ .negate := by
    rintro rfl
    cases steps
  rw [Phrase.lexemes, List.cons_append] at stands
  rw [Phrase.cost, Phrase.toExpr]
  have kind : state.lookahead.kind = .unary := by
    rw [stands.lookahead.1, UnaryOperator.lexeme, if_neg notMinus]
  rw [primaryWithin_of_other fuel (by rw [kind]; decide)]
  simp only [unary, get_bind, kind]
  refine reaches_bind (reaches_unaryOperator operator notMinus stands) ?_
  intro _ between read there
  subst read
  simp only [steps, if_true]
  refine reaches_bind (reaches_nested (fun entered deeper => ?_) there (by omega))
    fun value after same done => reaches_pure (congrArg (Expr.unary _ .before) same) done
  refine reaches_bind (reaches_variableName name deeper) fun text after read there => ?_
  exact reaches_pure (congrArg Expr.var read) there

/-- A variable that a step follows.  No level is entered for it. -/
theorem reaches_stepAfter {operator : UnaryOperator} (steps : operator.isStep = true)
    (name : VariableName) (fuel : Nat) {next : Lexeme} {rest : List Lexeme} {depth cap : Nat}
    {state : State}
    (stands : state.At (Phrase.variableLexemes name ++ operator.lexeme :: next :: rest) depth) :
    Reaches (· = .unary operator .after (.var name.text)) (next :: rest) depth cap
      (primaryWithin (fuel + 1) state) := by
  have notMinus : operator ≠ .negate := by
    rintro rfl
    cases steps
  have kind : state.lookahead.kind = .dollar := (State.At.lookahead stands).1
  rw [primaryWithin_of_other fuel (by rw [kind]; decide)]
  simp only [unary, get_bind, kind]
  refine reaches_bind (reaches_variableName name stands) fun text between read there => ?_
  subst read
  have isStep : between.lookahead.isStep = true := by
    simp only [Token.isStep, Token.isSymbol, there.lookahead.1, there.lookahead.2]
    cases operator <;> first | rfl | cases steps
  simp only [get_bind, isStep, if_true]
  refine reaches_bind (reaches_unaryOperator operator notMinus there) fun _ after read done => ?_
  subst read
  exact reaches_pure rfl done

theorem readsAt_stepAfter {operator : UnaryOperator} {steps : operator.isStep = true}
    {name : VariableName} : ReadsAt .unary (.step operator steps .after name) := by
  refine readsAt_unary fun fuel next rest depth state room noStep stands => ?_
  rw [Phrase.lexemes, List.append_assoc, List.singleton_append] at stands
  rw [Phrase.toExpr]
  exact reaches_stepAfter steps name fuel stands

/-! ## Arrays -/

theorem follows_of_plain {level : Level} {next : Lexeme}
    (plain : next.kind ∉ [Token.Kind.unary, .additive, .multiplicative, .bitwise]) :
    Follows level next := by
  simp only [List.mem_cons, List.not_mem_nil, or_false, not_or] at plain
  rcases plain with ⟨noStep, noAdditive, noMultiplicative, noBitwise⟩
  refine ⟨noStep, fun other known => ?_⟩
  cases other
  · exact absurd (Option.some.inj known).symm noAdditive
  · exact absurd (Option.some.inj known).symm noMultiplicative
  · exact absurd (Option.some.inj known).symm noBitwise
  · cases known

/-- One more item of an array, with the comma behind it unless it is the last. -/
theorem reaches_arrayRound {item : Phrase} {items : List Phrase} {fuel depth : Nat}
    {state : State} {rest : List Lexeme} (taken : List Expr) (reads : ReadsAt .additive item)
    (room : maxDepth < fuel + depth)
    (stands : state.At (Phrase.itemLexemes (item :: items) ++ Phrase.rightBracket :: rest) depth) :
    Reaches (· = item.toExpr :: taken) (Phrase.itemLexemes items ++ Phrase.rightBracket :: rest)
      depth (depth + item.cost .additive) (arrayRound (parserAt fuel .additive) taken state) := by
  cases items with
  | nil =>
      rw [Phrase.itemLexemes] at stands
      have reading := reads fuel _ _ depth state room (follows_of_plain (by decide)) stands
      refine reaches_bind reading fun value after same there => ?_
      have closing : after.lookahead.kind = .rightBracket := there.lookahead.1
      simp only [get_bind, closing, ne_eq, not_true, if_false]
      exact reaches_pure (congrArg (· :: taken) same) there
  | cons second items =>
      obtain ⟨next, behind, shape⟩ :=
        exists_first (Phrase.itemLexemes (second :: items)) Phrase.rightBracket rest
      rw [Phrase.itemLexemes, List.append_assoc, List.cons_append, shape] at stands
      · have reading := reads fuel _ _ depth state room (follows_of_plain (by decide)) stands
        refine reaches_bind reading fun value after same there => ?_
        have separating : after.lookahead.kind = .comma := there.lookahead.1
        simp only [get_bind, separating, ne_eq, reduceCtorEq, not_false_eq_true, if_true]
        refine reaches_discard (reaches_any (reaches_eatAny (List.mem_singleton.mpr rfl) there))
          fun beyond further => ?_
        rw [← shape] at further
        exact reaches_pure (congrArg (· :: taken) same) further
      · exact List.cons_ne_nil _ _

theorem reaches_arrayLoop {fuel depth : Nat} {rest : List Lexeme} (room : maxDepth < fuel + depth)
    (items : List Phrase) (reads : ∀ item ∈ items, ReadsAt .additive item) (taken : List Expr)
    (state : State)
    (stands : state.At (Phrase.itemLexemes items ++ Phrase.rightBracket :: rest) depth) :
    Reaches (· = (Phrase.toExprs items).reverse ++ taken) (Phrase.rightBracket :: rest) depth
      (depth + Phrase.itemCost items) (arrayLoop (parserAt fuel .additive) taken state) := by
  induction items generalizing taken state with
  | nil =>
      rw [Phrase.itemLexemes, List.nil_append] at stands
      have closing : state.lookahead.kind = .rightBracket := stands.lookahead.1
      rw [arrayLoop, repeatWhile_of_stop (by simp [closing])]
      exact ⟨rfl, stands⟩
  | cons item items ih =>
      have readsOthers : ∀ other ∈ items, ReadsAt .additive other :=
        fun other member => reads other (List.mem_cons_of_mem _ member)
      rcases Phrase.itemLexemes_start item items with ⟨first, others, shape, going, fewer⟩
      have goes : decide (state.lookahead.kind ≠ .rightBracket) = true := by
        rw [shape, List.cons_append] at stands
        rw [stands.lookahead.1, decide_eq_true_eq]
        intro closing
        rw [closing] at going
        exact going (by decide)
      have round := reaches_arrayRound taken (reads item List.mem_cons_self) room stands
      cases ran : arrayRound (parserAt fuel .additive) taken state with
      | ok value after =>
          rw [ran] at round
          rcases round with ⟨rfl, there⟩
          have nearer : after.remaining < state.remaining := by
            have before := stands.remaining_eq
            have behind := there.remaining_eq
            rw [shape] at before
            simp only [List.length_append, List.length_cons] at before behind
            omega
          rw [arrayLoop, repeatWhile_of_ok goes ran nearer]
          have others := ih readsOthers (item.toExpr :: taken) after there
          rw [Phrase.itemCost, Phrase.toExprs, List.reverse_cons, List.append_assoc]
          exact reaches_mono others (by omega)
      | error fault after =>
          rw [ran] at round
          rcases round with ⟨deep, full⟩
          rw [arrayLoop, repeatWhile_of_error goes ran, Phrase.itemCost]
          exact ⟨deep, by omega⟩

/-- An array, given how its items are read. -/
theorem reaches_array {fuel depth cap : Nat} {inside : List Lexeme} {next : Lexeme}
    {rest : List Lexeme} {values : List Expr} {state : State}
    (looped : ∀ entered, State.At (inside ++ Phrase.rightBracket :: next :: rest) (depth + 1)
        entered ->
      Reaches (· = values) (Phrase.rightBracket :: next :: rest) (depth + 1) cap
        (arrayLoop (parserAt fuel .additive) [] entered))
    (room : depth < cap)
    (stands : state.At (Phrase.leftBracket :: (inside ++ Phrase.rightBracket :: next :: rest))
      depth) :
    Reaches (· = .array values.reverse) (next :: rest) depth cap
      (primaryWithin (fuel + 1) state) := by
  have kind : state.lookahead.kind = .leftBracket := stands.lookahead.1
  obtain ⟨first, others, shape⟩ := exists_first inside Phrase.rightBracket (next :: rest)
  rw [shape] at stands
  rw [primaryWithin_of_other fuel (by rw [kind]; decide)]
  simp only [unary, get_bind, kind, array_eq]
  refine reaches_discard (reaches_any (reaches_eatAny (List.mem_singleton.mpr rfl) stands))
    fun opened there => ?_
  rw [← shape] at there
  refine reaches_bind (reaches_nested looped there room) fun value closing same beyond => ?_
  subst same
  refine reaches_discard (reaches_any (reaches_eatAny (List.mem_singleton.mpr rfl) beyond))
    fun after done => ?_
  exact reaches_pure rfl done

theorem readsAt_array {items : List Phrase} (inside : ∀ item ∈ items, ReadsAt .additive item) :
    ReadsAt .unary (.array items) := by
  refine readsAt_unary fun fuel next rest depth state room noStep stands => ?_
  rw [Phrase.lexemes, List.append_assoc, List.cons_append, List.singleton_append] at stands
  rw [Phrase.cost, Phrase.toExpr, ← List.reverse_reverse (Phrase.toExprs items)]
  refine reaches_array (fun entered deeper => ?_) (by omega) stands
  have looped := reaches_arrayLoop room items inside [] entered deeper
  rw [List.append_nil] at looped
  exact reaches_mono looped (by omega)

/-! ## Every phrase -/

/-- A phrase is read on every level. -/
def ReadsEverywhere (phrase : Phrase) : Prop :=
  ∀ level, ReadsAt level phrase ∧ ChainsAt level phrase

theorem chainsAt_unary (phrase : Phrase) : ChainsAt .unary phrase := by
  intro kind fuel next rest depth state known
  cases known

section Everywhere

variable {phrase : Phrase}

/-- A phrase that is read on the level of its own operator is read on the
levels that are looser. -/
theorem readsAt_additive (own : ReadsAt (outerLevel phrase) phrase) : ReadsAt .additive phrase := by
  have step : ∀ {level : Level} {kind : Token.Kind}, level.kind? = some kind ->
      level ≠ outerLevel phrase -> ReadsAt level.tighter phrase -> ReadsAt level phrase :=
    fun known different => readsAt_of_tighter known different.symm
  cases outer : outerLevel phrase <;> rw [outer] at own step
  · exact own
  · exact step rfl (by decide) own
  · exact step rfl (by decide) (step rfl (by decide) own)
  · exact step rfl (by decide) (step rfl (by decide) (step rfl (by decide) own))

theorem readsEverywhere_of_own (own : ReadsAt (outerLevel phrase) phrase)
    (chained : ChainsAt (outerLevel phrase) phrase) (inner : ReadsAt .unary phrase) :
    ReadsEverywhere phrase := by
  have step : ∀ {level : Level} {kind : Token.Kind}, level.kind? = some kind ->
      ReadsAt level.tighter phrase -> ReadsAt level phrase ∧ ChainsAt level phrase := by
    intro level kind known reads
    by_cases same : outerLevel phrase = level
    · rw [← same]
      exact ⟨own, chained⟩
    · exact ⟨readsAt_of_tighter known same reads, chainsAt_of_readsAt same reads⟩
  have bitwise : ReadsAt .bitwise phrase ∧ ChainsAt .bitwise phrase := step rfl inner
  have multiplicative : ReadsAt .multiplicative phrase ∧ ChainsAt .multiplicative phrase :=
    step rfl bitwise.1
  intro level
  cases level with
  | additive => exact step rfl multiplicative.1
  | multiplicative => exact multiplicative
  | bitwise => exact bitwise
  | unary => exact ⟨inner, chainsAt_unary phrase⟩

/-- A phrase without an outer operator of two operands is read everywhere. -/
theorem readsEverywhere_of_unary (tight : outerLevel phrase = .unary)
    (inner : ReadsAt .unary phrase) : ReadsEverywhere phrase := by
  refine readsEverywhere_of_own ?_ ?_ inner
  · rw [tight]
    exact inner
  · rw [tight]
    exact chainsAt_unary phrase

theorem readsEverywhere_binary (operator : BinaryOperator) {left right : Phrase}
    (onLeft : ReadsEverywhere left) (onRight : ReadsEverywhere right) :
    ReadsEverywhere (.binary operator left right) := by
  have chained := chainsAt_binary (onLeft operator.level).2 (onRight operator.level.tighter).1
  have own := readsAt_of_chainsAt operator.kind?_level chained
  exact readsEverywhere_of_own own chained (readsAt_parenthesized (readsAt_additive own))

end Everywhere

mutual

theorem readsEverywhere : (phrase : Phrase) -> ReadsEverywhere phrase
  | .number literal =>
      readsEverywhere_of_unary rfl <| readsAt_unary fun fuel next rest depth state _ _ stands => by
        rw [Phrase.lexemes] at stands
        rw [Phrase.toExpr]
        exact reaches_number literal fuel stands
  | .text value =>
      readsEverywhere_of_unary rfl <| readsAt_unary fun fuel next rest depth state _ _ stands => by
        rw [Phrase.lexemes] at stands
        rw [Phrase.toExpr]
        exact reaches_text value fuel stands
  | .boolean value =>
      readsEverywhere_of_unary rfl <| readsAt_unary fun fuel next rest depth state _ _ stands => by
        rw [Phrase.lexemes] at stands
        rw [Phrase.toExpr]
        exact reaches_boolean value fuel stands
  | .word bare =>
      readsEverywhere_of_unary rfl <| readsAt_unary fun fuel next rest depth state _ _ stands => by
        rw [Phrase.lexemes] at stands
        rw [Phrase.toExpr]
        exact reaches_word bare fuel stands
  | .var name =>
      readsEverywhere_of_unary rfl <|
        readsAt_unary fun fuel next rest depth state _ noStep stands => by
          rw [Phrase.lexemes] at stands
          rw [Phrase.toExpr]
          exact reaches_variable name fuel noStep stands
  | .binary operator left right =>
      readsEverywhere_binary operator (readsEverywhere left) (readsEverywhere right)
  | .unary _ _ operand =>
      readsEverywhere_of_unary rfl (readsAt_prefixed (readsEverywhere operand .unary).1)
  | .step _ _ .before _ => readsEverywhere_of_unary rfl readsAt_stepBefore
  | .step _ _ .after _ => readsEverywhere_of_unary rfl readsAt_stepAfter
  | .array items =>
      readsEverywhere_of_unary rfl <|
        readsAt_array fun item member => (readsEverywhere_of_mem items item member .additive).1

theorem readsEverywhere_of_mem : (items : List Phrase) -> ∀ item ∈ items, ReadsEverywhere item
  | first :: others, item, member => by
      rcases List.mem_cons.mp member with same | behind
      · rw [same]
        exact readsEverywhere first
      · exact readsEverywhere_of_mem others item behind

end

end Parser
end LineShell
