import LineShell.Proofs.Height
import LineShell.Proofs.RoundTrip
import Mathlib.Algebra.Group.Nat.Even

namespace LineShell

/-!
# Lines that are as high as a line can be

The limit on the height of an expression is attained.  The line that attains it
opens a bracket for each level that there is, with a variable and a step inside
the innermost; and behind each closing bracket it puts as many operators of each
kind as there are levels left.  Every one of these chains gives its levels back,
so the next one has them all again.

Reading such a phrase needs a count of levels that is exact: chains behind each
other need as many as the longest of them, not as many as all of them together.
-/

open Token (Lexeme)
open Steps

namespace Phrase

/-- A phrase without levels or height of its own. -/
def leaf : Phrase := .boolean true

/-- A phrase with the given number of operators behind it, each followed by a
leaf. -/
def lengthen (operator : BinaryOperator) (phrase : Phrase) : Nat -> Phrase
  | 0 => phrase
  | count + 1 => .binary operator (lengthen operator phrase count) leaf

/-- A phrase with chains of all three kinds behind it. -/
def lengthenAll (phrase : Phrase) (count : Nat) : Phrase :=
  lengthen .add (lengthen .multiply (lengthen .bitAnd phrase count) count) count

/-- The highest phrase that stands for a primary expression and can be read with
the given number of levels. -/
def tower : Nat -> Phrase
  | 0 => .step .increment rfl .after ⟨"a", by decide⟩
  | room + 1 => .array [lengthenAll (tower room) room]

theorem height_lengthen (operator : BinaryOperator) {phrase : Phrase}
    (positive : 1 ≤ phrase.toExpr.height) (count : Nat) :
    (lengthen operator phrase count).toExpr.height = phrase.toExpr.height + count := by
  induction count with
  | zero => rfl
  | succ count ih =>
      have leafHeight : leaf.toExpr.height = 1 := rfl
      rw [lengthen, toExpr, Expr.height, ih, leafHeight]
      omega

theorem height_lengthenAll {phrase : Phrase} (positive : 1 ≤ phrase.toExpr.height)
    (count : Nat) :
    (lengthenAll phrase count).toExpr.height = phrase.toExpr.height + 3 * count := by
  have bitwise := height_lengthen .bitAnd positive count
  have onBitwise : 1 ≤ (lengthen .bitAnd phrase count).toExpr.height := by omega
  have multiplicative := height_lengthen .multiply onBitwise count
  have onMultiplicative :
      1 ≤ (lengthen .multiply (lengthen .bitAnd phrase count) count).toExpr.height := by omega
  have additive := height_lengthen .add onMultiplicative count
  rw [lengthenAll]
  omega

theorem height_tower (room : Nat) : (tower room).toExpr.height = Parser.tallest room := by
  induction room with
  | zero => rfl
  | succ room ih =>
      have positive : 1 ≤ (tower room).toExpr.height := by
        rw [ih]
        exact Nat.le_of_succ_le (Parser.two_le_tallest room)
      have item := height_lengthenAll positive room
      rw [ih] at item
      rw [tower, toExpr, toExprs, toExprs, Expr.height, Expr.highest, Expr.highest, item,
        Nat.max_zero, Parser.tallest]

/-- A leaf with the given number of exclamation marks before it. -/
def negations : Nat -> Phrase
  | 0 => leaf
  | count + 1 => .unary .not rfl (negations count)

theorem height_negations (count : Nat) : (negations count).toExpr.height = count + 1 := by
  induction count with
  | zero => rfl
  | succ count ih => simp only [negations, toExpr, Expr.height, ih]

theorem cost_negations (level : Level) (count : Nat) : (negations count).cost level = count := by
  induction count generalizing level with
  | zero => rw [negations, leaf, cost]
  | succ count ih => simp only [negations, cost, ih]

end Phrase

namespace Parser

/-! ## Reading within a number of levels -/

/-- With the given number of levels left, a phrase is read as its expression. -/
def ReadsWithin (room : Nat) (level : Level) (phrase : Phrase) : Prop :=
  ∀ fuel next rest depth state, maxDepth < fuel + depth -> depth + room ≤ maxDepth ->
    Follows level next -> State.At (phrase.lexemes level ++ next :: rest) depth state ->
    Reaches (· = phrase.toExpr) (next :: rest) depth maxDepth (parserAt fuel level state)

/-- With the given number of levels left, a chain is read as far as the phrase
goes, which has the given number of operators of the chain. -/
def ChainsWithin (room length : Nat) (level : Level) (phrase : Phrase) : Prop :=
  ∀ kind fuel next rest depth state, level.kind? = some kind -> maxDepth < fuel + depth ->
    depth + room ≤ maxDepth -> Follows level.tighter next ->
    State.At (phrase.lexemes level ++ next :: rest) depth state ->
    ∃ after, State.At (next :: rest) (depth + length) after
      ∧ chainBody kind (parserAt fuel level.tighter) state
        = chainLoop kind (parserAt fuel level.tighter) (phrase.toExpr, length) after

variable {room length : Nat} {level : Level} {phrase : Phrase}

/-- If there is no way to run out of levels, a value is reached. -/
theorem ok_of_reaches {α : Type} {meets : α -> Prop} {lexemes : List Lexeme} {depth : Nat}
    {result : EStateM.Result Fault State α}
    (reached : Reaches meets lexemes depth maxDepth result) :
    ∃ value after, result = .ok value after ∧ meets value ∧ after.At lexemes depth := by
  cases result with
  | ok value after => exact ⟨value, after, rfl, reached⟩
  | error fault after => exact absurd reached.2 (Nat.lt_irrefl maxDepth)

theorem readsWithin_of_cost (cheap : phrase.cost level ≤ room) :
    ReadsWithin room level phrase := by
  intro fuel next rest depth state fueled left follows stands
  have reading := (readsEverywhere phrase level).1 fuel next rest depth state fueled follows stands
  exact reaches_mono reading (by omega)

theorem chainsWithin_of_reads (different : outerLevel phrase ≠ level)
    (reads : ReadsWithin room level.tighter phrase) : ChainsWithin room 0 level phrase := by
  intro kind fuel next rest depth state known fueled left follows stands
  rw [(same_of_ne known different).1] at stands
  rcases ok_of_reaches (reads fuel next rest depth state fueled left follows stands) with
    ⟨_, after, ran, rfl, there⟩
  exact ⟨after, there, bind_of_ok ran _⟩

/-- One more operator takes one more level, and its operand none. -/
theorem ChainsWithin.lengthen {operator : BinaryOperator}
    (chains : ChainsWithin room length operator.level phrase) (shorter : length < room) :
    ChainsWithin room (length + 1) operator.level (.binary operator phrase .leaf) := by
  intro kind fuel next rest depth state known fueled left follows stands
  have order : ¬operator.level.rank < operator.level.rank := Nat.lt_irrefl _
  simp only [Phrase.lexemes, Phrase.parenthesize, order, decide_false, Bool.false_eq_true,
    if_false, List.append_assoc, List.cons_append] at stands
  rcases chains kind fuel operator.lexeme _ depth state known fueled left
    operator.follows_lexeme stands with ⟨between, there, same⟩
  have goes : decide (between.lookahead.kind = kind) = true := by
    rw [BinaryOperator.kind?_level] at known
    rw [there.lookahead.1, Option.some.inj known, decide_eq_true_eq]
  have fueledHere : maxDepth < fuel + (depth + length) := by omega
  have round := reaches_chainRound phrase.toExpr length
    (readsEverywhere .leaf operator.level.tighter).1 fueledHere follows there
  have free : depth + length + 1 + Phrase.leaf.cost operator.level.tighter ≤ maxDepth := by
    have cost : Phrase.leaf.cost operator.level.tighter = 0 := by rw [Phrase.leaf, Phrase.cost]
    omega
  rcases ok_of_reaches (reaches_mono round free) with ⟨_, after, ran, rfl, beyond⟩
  have nearer : after.remaining < between.remaining := by
    have before := there.remaining_eq
    have behind := beyond.remaining_eq
    simp only [List.length_cons, List.length_append] at before behind
    omega
  exact ⟨after, beyond, same.trans (repeatWhile_of_ok goes ran nearer)⟩

theorem ChainsWithin.reads {kind : Token.Kind} (known : level.kind? = some kind)
    (chains : ChainsWithin room length level phrase) : ReadsWithin room level phrase := by
  intro fuel next rest depth state fueled left follows stands
  rw [parserAt_of_kind known, chain_eq]
  rcases chains kind fuel next rest depth state known fueled left
    (follows.mono level.rank_le_tighter) stands with ⟨after, there, same⟩
  have stops : decide (after.lookahead.kind = kind) = false := by
    rw [there.lookahead.1, decide_eq_false_iff_not]
    rintro rfl
    exact absurd (follows.2 level known) (Nat.lt_irrefl _)
  rw [bind_of_ok (same.trans (repeatWhile_of_stop stops))]
  exact reaches_bind (reaches_leave there) fun _ _ _ back => reaches_pure rfl back

/-- A chain may be as long as there are levels, whatever its first operand
needs. -/
theorem readsWithin_lengthen (operator : BinaryOperator)
    (different : outerLevel phrase ≠ operator.level)
    (reads : ReadsWithin room operator.level.tighter phrase) {count : Nat} (few : count ≤ room) :
    ReadsWithin room operator.level (Phrase.lengthen operator phrase count) := by
  have chains : ChainsWithin room count operator.level (Phrase.lengthen operator phrase count) := by
    induction count with
    | zero => exact chainsWithin_of_reads different reads
    | succ count ih => exact (ih (Nat.le_of_succ_le few)).lengthen few
  exact chains.reads operator.kind?_level

theorem outerLevel_lengthen (operator : BinaryOperator) (phrase : Phrase) (count : Nat) :
    outerLevel (Phrase.lengthen operator phrase count) = outerLevel phrase
      ∨ outerLevel (Phrase.lengthen operator phrase count) = operator.level := by
  cases count with
  | zero => exact .inl rfl
  | succ count => exact .inr rfl

theorem outerLevel_negations (count : Nat) : outerLevel (Phrase.negations count) = .unary := by
  cases count <;> rfl

theorem readsWithin_lengthenAll (tight : outerLevel phrase = .unary)
    (reads : ReadsWithin room .unary phrase) {count : Nat} (few : count ≤ room) :
    ReadsWithin room .additive (Phrase.lengthenAll phrase count) := by
  have notBitwise : outerLevel phrase ≠ BinaryOperator.bitAnd.level := by
    rw [tight]
    decide
  have bitwise := readsWithin_lengthen .bitAnd notBitwise reads few
  have outer := outerLevel_lengthen .bitAnd phrase count
  rw [tight] at outer
  have notMultiplicative : outerLevel (Phrase.lengthen .bitAnd phrase count)
      ≠ BinaryOperator.multiply.level := by
    rcases outer with outer | outer <;> rw [outer] <;> decide
  have multiplicative := readsWithin_lengthen .multiply notMultiplicative bitwise few
  have notAdditive : outerLevel (Phrase.lengthen .multiply (Phrase.lengthen .bitAnd phrase count)
      count) ≠ BinaryOperator.add.level := by
    rcases outerLevel_lengthen .multiply (Phrase.lengthen .bitAnd phrase count) count with
      same | same
    · rw [same]
      rcases outer with outer | outer <;> rw [outer] <;> decide
    · rw [same]
      decide
  exact readsWithin_lengthen .add notAdditive multiplicative few

/-- The loop of an array with one item. -/
theorem reaches_singleItem {fuel depth : Nat} {rest : List Lexeme} {state : State}
    (reads : ReadsWithin room .additive phrase) (fueled : maxDepth < fuel + depth)
    (left : depth + room ≤ maxDepth)
    (stands : state.At (phrase.lexemes .additive ++ Phrase.rightBracket :: rest) depth) :
    Reaches (· = [phrase.toExpr]) (Phrase.rightBracket :: rest) depth maxDepth
      (arrayLoop (parserAt fuel .additive) [] state) := by
  rcases phrase.lexemes_start .additive with ⟨first, others, shape, going⟩
  have goes : decide (state.lookahead.kind ≠ .rightBracket) = true := by
    rw [shape, List.cons_append] at stands
    rw [stands.lookahead.1, decide_eq_true_eq]
    intro closing
    rw [closing] at going
    exact going (by decide)
  have round : Reaches (· = [phrase.toExpr]) (Phrase.rightBracket :: rest) depth maxDepth
      (arrayRound (parserAt fuel .additive) [] state) := by
    have reading := reads fuel _ _ depth state fueled left (follows_of_plain (by decide)) stands
    refine reaches_bind reading fun value after same there => ?_
    have closing : after.lookahead.kind = .rightBracket := there.lookahead.1
    simp only [get_bind, closing, ne_eq, not_true, if_false]
    exact reaches_pure (congrArg (· :: []) same) there
  rcases ok_of_reaches round with ⟨_, after, ran, rfl, there⟩
  have nearer : after.remaining < state.remaining := by
    have before := stands.remaining_eq
    have behind := there.remaining_eq
    rw [shape] at before
    simp only [List.length_cons, List.length_append] at before behind
    omega
  have stops : decide (after.lookahead.kind ≠ .rightBracket) = false := by
    rw [there.lookahead.1]
    rfl
  rw [arrayLoop, repeatWhile_of_ok goes ran nearer, repeatWhile_of_stop stops]
  exact ⟨rfl, there⟩

theorem readsWithin_array (inside : ReadsWithin room .additive phrase) :
    ReadsWithin (room + 1) .unary (.array [phrase]) := by
  intro fuel next rest depth state fueled left follows stands
  obtain ⟨less, rfl⟩ : ∃ less, fuel = less + 1 := ⟨fuel - 1, by omega⟩
  rw [Phrase.lexemes, Phrase.itemLexemes, List.append_assoc, List.cons_append,
    List.singleton_append] at stands
  have enters : depth < maxDepth := by omega
  rw [Phrase.toExpr, Phrase.toExprs, Phrase.toExprs, ← List.reverse_singleton]
  refine reaches_array (fun entered deeper => ?_) enters stands
  exact reaches_singleItem inside (by omega) (by omega) deeper

/-- A tower is read within the levels that it was built for. -/
theorem readsWithin_tower (room : Nat) : ReadsWithin room .unary (Phrase.tower room) := by
  induction room with
  | zero =>
      intro fuel next rest depth state fueled left follows stands
      obtain ⟨less, rfl⟩ : ∃ less, fuel = less + 1 := ⟨fuel - 1, by omega⟩
      simp only [Phrase.tower, Phrase.lexemes, List.append_assoc, List.singleton_append] at stands
      exact reaches_stepAfter rfl _ less stands
  | succ room ih =>
      have tight : outerLevel (Phrase.tower room) = .unary := by cases room <;> rfl
      exact readsWithin_array (readsWithin_lengthenAll tight ih (Nat.le_refl room))

theorem readsWithin_fullTower (room : Nat) :
    ReadsWithin room .additive (Phrase.lengthenAll (Phrase.tower room) room) := by
  have tight : outerLevel (Phrase.tower room) = .unary := by cases room <;> rfl
  exact readsWithin_lengthenAll tight (readsWithin_tower room) (Nat.le_refl room)

/-! ## Lines that combine a variable with a phrase -/

/-- The lexemes of a line that combines a variable with a phrase. -/
def combinationLexemes (name : BareWord) (operator : BinaryOperator) (phrase : Phrase) :
    List Lexeme :=
  { kind := .word, text := name.text } :: operator.lexeme :: equals :: phrase.lexemes .additive

theorem reaches_combination (name : Token) (operator : BinaryOperator) {state : State}
    (reads : ReadsWithin maxDepth .additive phrase)
    (stands : state.At (operator.lexeme :: equals
      :: (phrase.lexemes .additive ++ [Lexeme.ending])) 0) :
    Reaches (Assigns name.text (.binary operator (.var name.text) phrase.toExpr))
      [Lexeme.ending] 0 maxDepth (combination name state) := by
  rcases exists_first (phrase.lexemes .additive) Lexeme.ending [] with ⟨first, others, shape⟩
  rw [shape] at stands
  refine reaches_bind (reaches_binaryOperator operator stands) fun _ between same there => ?_
  subst same
  have assigns : between.lookahead.kind = .equals := there.lookahead.1
  simp only [get_bind, assigns, if_true]
  refine reaches_discard (reaches_any (reaches_advance there)) fun beyond further => ?_
  rw [← shape] at further
  have reading := reads (maxDepth + 1) Lexeme.ending [] 0 beyond (Nat.lt_succ_self _) (by omega)
    (follows_of_plain (by decide)) further
  refine reaches_bind reading fun value after same done => ?_
  subst same
  exact reaches_assign name _ done

theorem reaches_combinationStatement (name : BareWord) (operator : BinaryOperator)
    {state : State} (reads : ReadsWithin maxDepth .additive phrase)
    (stands : state.At (combinationLexemes name operator phrase ++ [Lexeme.ending]) 0) :
    Reaches (Assigns name.text (.binary operator (.var name.text) phrase.toExpr))
      [Lexeme.ending] 0 maxDepth (statement state) := by
  have kind : state.lookahead.kind = .word := (State.At.lookahead stands).1
  simp only [statement, get_bind, kind]
  refine reaches_bind (reaches_advance stands) fun token between eaten there => ?_
  have text : token.text = name.text := congrArg Lexeme.text eaten
  simp only [text, name.notBuiltin]
  rw [← text]
  have operates : assignment token between = combination token between := by
    have kind := there.lookahead.1
    simp only [assignment, get_bind]
    cases operator <;> simp only [kind, BinaryOperator.lexeme] <;> rfl
  rw [operates]
  exact reaches_combination token operator reads there

end Parser

namespace Command

/-- A line that combines a variable with a phrase, if there are enough levels
for the phrase. -/
theorem parseLine_combination (name : BareWord) (operator : BinaryOperator) {phrase : Phrase}
    (reads : Parser.ReadsWithin Parser.maxDepth .additive phrase) :
    ∃ command, parseLine (Lexeme.spaced (Parser.combinationLexemes name operator phrase))
        = .ok [command]
      ∧ .binary operator (.var name.text) phrase.toExpr ∈ command.expressions := by
  have whole : ∀ lexeme ∈ Parser.combinationLexemes name operator phrase, lexeme.IsWhole := by
    intro lexeme member
    simp only [Parser.combinationLexemes, List.mem_cons] at member
    rcases member with rfl | rfl | rfl | inside
    · have scanned := Token.scan?_of_spellsWord name.spelled
      rw [name.kind] at scanned
      exact scanned
    · exact operator.lexeme_isWhole
    · rfl
    · exact phrase.lexemes_isWhole _ lexeme inside
  rcases parseLine_spaced whole fun _ stands =>
      Parser.reaches_combinationStatement name operator reads stands with
    ⟨command, parsed, span, rfl⟩ | ⟨_, impossible⟩
  · refine ⟨_, parsed, ?_⟩
    simp [Command.expressions, Argument.allExpressions, Argument.expressions, Expr.parts]
  · exact absurd impossible (Nat.lt_irrefl _)

/-! ## The limit -/

theorem heightLimit_eq (room : Nat) :
    Parser.heightLimit room = room + 3 + 3 * (room * (room + 1) / 2) := by
  have doubled : 2 * (Parser.tallest room + 3 * room) = 2 * room + 4 + 3 * (room * (room + 1)) := by
    induction room with
    | zero => rfl
    | succ room ih =>
        have product : (room + 1) * (room + 1 + 1) = room * (room + 1) + 2 * (room + 1) := by
          rw [Nat.mul_comm, ← Nat.add_mul]
        rw [Parser.tallest]
        omega
  rcases Nat.even_mul_succ_self room with ⟨half, even⟩
  rw [Parser.heightLimit]
  omega

/-- The levels do not bound the height of an expression by themselves: with all
of them spent on the first operand of a chain, the chain still grows on it. -/
theorem height_exceeds_levels :
    ∃ commands, parseLine ("a + = " ++ String.join (List.replicate Parser.maxDepth "! ")
        ++ "true + true + true") = .ok commands
      ∧ ∃ command ∈ commands, ∃ expression ∈ command.expressions,
          Parser.maxDepth + 3 < expression.height := by
  have spelled : Lexeme.spaced (Parser.combinationLexemes ⟨"a", by decide, by decide, by decide⟩
        .add (Phrase.lengthen .add (Phrase.negations Parser.maxDepth) 2))
      = "a + = " ++ String.join (List.replicate Parser.maxDepth "! ")
        ++ "true + true + true" := by
    decide +kernel
  have different : Parser.outerLevel (Phrase.negations Parser.maxDepth)
      ≠ BinaryOperator.add.level := by
    rw [Parser.outerLevel_negations]
    decide
  have reads := Parser.readsWithin_lengthen .add different
    (Parser.readsWithin_of_cost (Nat.le_of_eq (Phrase.cost_negations _ Parser.maxDepth)))
    (Nat.le_of_ble_eq_true rfl : 2 ≤ Parser.maxDepth)
  rcases parseLine_combination ⟨"a", by decide, by decide, by decide⟩ .add reads with
    ⟨command, parsed, occurs⟩
  rw [spelled] at parsed
  refine ⟨_, parsed, command, List.mem_singleton_self _, _, occurs, ?_⟩
  have negated := Phrase.height_negations Parser.maxDepth
  have positive : 1 ≤ (Phrase.negations Parser.maxDepth).toExpr.height := by omega
  rw [Expr.height, Phrase.height_lengthen .add positive, negated]
  omega

/-- Whatever a line says, no expression in its commands is higher than the
number of levels and three, and three times the sum of the levels that can be
left; and some line has an expression of just that height. -/
theorem height_of_parseLine :
    (∀ line commands, parseLine line = .ok commands ->
        ∀ command ∈ commands, ∀ expression ∈ command.expressions,
          expression.height
            ≤ Parser.maxDepth + 3 + 3 * (Parser.maxDepth * (Parser.maxDepth + 1) / 2))
      ∧ ∃ line commands, parseLine line = .ok commands
          ∧ ∃ command ∈ commands, ∃ expression ∈ command.expressions,
            expression.height
              = Parser.maxDepth + 3 + 3 * (Parser.maxDepth * (Parser.maxDepth + 1) / 2) := by
  constructor
  · intro line commands parsed command member expression occurs
    rw [← heightLimit_eq]
    exact height_le_heightLimit parsed member occurs
  · rcases parseLine_combination ⟨"a", by decide, by decide, by decide⟩ .add
      (Parser.readsWithin_fullTower Parser.maxDepth) with ⟨command, parsed, occurs⟩
    refine ⟨_, _, parsed, command, List.mem_singleton_self _, _, occurs, ?_⟩
    have tall := Parser.two_le_tallest Parser.maxDepth
    have positive : 1 ≤ (Phrase.tower Parser.maxDepth).toExpr.height := by
      rw [Phrase.height_tower]
      exact Nat.le_of_succ_le tall
    have full := Phrase.height_lengthenAll positive Parser.maxDepth
    rw [Phrase.height_tower] at full
    rw [← heightLimit_eq, Parser.heightLimit, Expr.height, full]
    simp only [Expr.height]
    omega

theorem height_of_parseLine_combination :
    ∃ commands, parseLine "a += [$b++ * -c, echo [d]]" = .ok commands
      ∧ ∀ command ∈ commands, ∀ expression ∈ command.expressions,
          expression.height
            ≤ Parser.maxDepth + 3 + 3 * (Parser.maxDepth * (Parser.maxDepth + 1) / 2) := by
  have accepted : (parseLine "a += [$b++ * -c, echo [d]]").toOption.isSome = true := by
    decide +kernel
  cases parsed : parseLine "a += [$b++ * -c, echo [d]]" with
  | error fault =>
      rw [parsed] at accepted
      cases accepted
  | ok commands => exact ⟨commands, rfl, height_of_parseLine.1 _ _ parsed⟩

end Command
end LineShell
