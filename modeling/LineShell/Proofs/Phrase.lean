import LineShell.Command.Builtin
import LineShell.Number.Numeral
import LineShell.Proofs.Reading

namespace LineShell

/-!
# Phrases

A phrase is an expression as it can be written down: its leaves keep the texts
that they are written with, and it calls no commands.  Rendering a phrase puts
a single space between tokens, and parentheses only where the levels of the
operators ask for them: around an operand that binds more loosely than its
place, and on the right of an operator also around one that binds as loosely,
since chains lean to the left.
-/

/-- The levels on which operators bind, the loosest first. -/
inductive Level where
  | additive
  | multiplicative
  | bitwise
  | unary
  deriving DecidableEq, Repr

namespace Level

/-- How tightly a level binds. -/
def rank : Level -> Nat
  | .additive => 0
  | .multiplicative => 1
  | .bitwise => 2
  | .unary => 3

/-- The next tighter level. -/
def tighter : Level -> Level
  | .additive => .multiplicative
  | .multiplicative => .bitwise
  | .bitwise | .unary => .unary

/-- The kind of the operators with two operands on a level. -/
def kind? : Level -> Option Token.Kind
  | .additive => some .additive
  | .multiplicative => some .multiplicative
  | .bitwise => some .bitwise
  | .unary => none

end Level

def BinaryOperator.level : BinaryOperator -> Level
  | .add | .subtract => .additive
  | .multiply | .divide => .multiplicative
  | .bitOr | .bitAnd | .bitXor | .shiftLeft | .shiftRight => .bitwise

/-- The token that an operator with two operands is written as. -/
def BinaryOperator.lexeme (operator : BinaryOperator) : Token.Lexeme :=
  { kind := operator.level.kind?.getD .endOfLine, text := operator.symbol }

/-- The token that an operator with one operand is written as.  The minus sign
is the one of subtraction. -/
def UnaryOperator.lexeme (operator : UnaryOperator) : Token.Lexeme :=
  { kind := if operator = .negate then .additive else .unary, text := operator.symbol }

/-- A number as it is written. -/
structure NumberLiteral where
  text : String
  spelled : Token.spellsNumber text.toList = true

/-- The number that is read from a literal. -/
def NumberLiteral.value (literal : NumberLiteral) : Float :=
  match Number.Numeral.ofChars? literal.text.toList with
  | some numeral => numeral.toNumber
  | none => Number.nan

/-- A word that stands for itself: it calls no command and is no boolean. -/
structure BareWord where
  text : String
  spelled : Token.spellsWord text.toList = true
  notBoolean : text ≠ "true" ∧ text ≠ "false"
  notBuiltin : Builtin.find? text = none

/-- The name of a variable: a word, a boolean or a number. -/
structure VariableName where
  text : String
  spelled : (Token.spellsWord text.toList || Token.spellsNumber text.toList) = true

/-- The kind of token that the name of a variable is. -/
def VariableName.kind (name : VariableName) : Token.Kind :=
  if Token.spellsWord name.text.toList then Token.wordKind name.text.toList else .number

/-- Expressions that call no commands, as they are written. -/
inductive Phrase where
  | number (literal : NumberLiteral)
  | text (value : String)
  | boolean (value : Bool)
  | word (bare : BareWord)
  | var (name : VariableName)
  | binary (operator : BinaryOperator) (left right : Phrase)
  | unary (operator : UnaryOperator) (plain : operator.isStep = false) (operand : Phrase)
  | step (operator : UnaryOperator) (steps : operator.isStep = true) (placement : Placement)
      (name : VariableName)
  | array (items : List Phrase)

namespace Phrase

mutual

/-- The expression that a phrase stands for. -/
def toExpr : Phrase -> Expr
  | .number literal => .number literal.value
  | .text value => .text value
  | .boolean value => .boolean value
  | .word bare => .word bare.text
  | .var name => .var name.text
  | .binary operator left right => .binary operator left.toExpr right.toExpr
  | .unary operator _ operand => .unary operator .before operand.toExpr
  | .step operator _ placement name => .unary operator placement (.var name.text)
  | .array items => .array (toExprs items)

def toExprs : List Phrase -> List Expr
  | [] => []
  | item :: items => item.toExpr :: toExprs items

end

mutual

/-- The number of operators and arrays in a phrase. -/
def nodes : Phrase -> Nat
  | .number _ | .text _ | .boolean _ | .word _ | .var _ => 0
  | .binary _ left right => left.nodes + right.nodes + 1
  | .unary _ _ operand => operand.nodes + 1
  | .step _ _ _ _ => 1
  | .array items => nodesOf items + 1

def nodesOf : List Phrase -> Nat
  | [] => 0
  | item :: items => item.nodes + nodesOf items

end

/-! ## Writing phrases -/

/-- The tokens that are always written the same. -/
def leftParen : Token.Lexeme := { kind := .leftParen, text := "(" }

@[inherit_doc leftParen]
def rightParen : Token.Lexeme := { kind := .rightParen, text := ")" }

@[inherit_doc leftParen]
def leftBracket : Token.Lexeme := { kind := .leftBracket, text := "[" }

@[inherit_doc leftParen]
def rightBracket : Token.Lexeme := { kind := .rightBracket, text := "]" }

@[inherit_doc leftParen]
def comma : Token.Lexeme := { kind := .comma, text := "," }

@[inherit_doc leftParen]
def dollar : Token.Lexeme := { kind := .dollar, text := "$" }

def variableLexemes (name : VariableName) : List Token.Lexeme :=
  [dollar, { kind := name.kind, text := name.text }]

/-- Puts parentheses around tokens, where they are needed. -/
def parenthesize (needed : Bool) (lexemes : List Token.Lexeme) : List Token.Lexeme :=
  if needed then leftParen :: lexemes ++ [rightParen] else lexemes

mutual

/-- The tokens of a phrase in a place that takes the operators of the given
level and of tighter ones without parentheses. -/
def lexemes (level : Level) : Phrase -> List Token.Lexeme
  | .number literal => [{ kind := .number, text := literal.text }]
  | .text value => [{ kind := .string, text := Text.Quoted.encode value }]
  | .boolean value => [{ kind := .boolean, text := if value then "true" else "false" }]
  | .word bare => [{ kind := .word, text := bare.text }]
  | .var name => variableLexemes name
  | .binary operator left right =>
      parenthesize (operator.level.rank < level.rank)
        (lexemes operator.level left
          ++ operator.lexeme :: lexemes operator.level.tighter right)
  | .unary operator _ operand => operator.lexeme :: lexemes .unary operand
  | .step operator _ .before name => operator.lexeme :: variableLexemes name
  | .step operator _ .after name => variableLexemes name ++ [operator.lexeme]
  | .array items => leftBracket :: itemLexemes items ++ [rightBracket]

/-- The tokens of the items of an array, with commas between them. -/
def itemLexemes : List Phrase -> List Token.Lexeme
  | [] => []
  | [item] => lexemes .additive item
  | item :: items => lexemes .additive item ++ comma :: itemLexemes items

end

def render (phrase : Phrase) : String :=
  Token.Lexeme.spaced (phrase.lexemes .additive)

end Phrase

/-! ## Every token that is written is read as itself -/

open Token in
theorem NumberLiteral.parse?_text (literal : NumberLiteral) :
    Number.parse? literal.text.toList = some literal.value := by
  have spelled := literal.spelled
  simp only [spellsNumber, Bool.and_eq_true, decide_eq_true_eq] at spelled
  rcases spelled with ⟨digits, behind⟩
  have begins : ∀ first, literal.text.toList.head? = some first -> first.isDigit = true := by
    intro first isFirst
    rcases List.head?_eq_some_iff.mp isFirst with ⟨rest, shape⟩
    by_contra other
    rw [shape] at digits
    exact digits (List.takeWhile_cons_of_neg other)
  have unsigned : Number.Numeral.takeSign literal.text.toList = (false, literal.text.toList) := by
    cases shape : literal.text.toList with
    | nil => rfl
    | cons first rest =>
        have digit : first.isDigit = true := begins first (by rw [shape]; rfl)
        have notMinus : first ≠ '-' := by
          rintro rfl
          exact absurd digit (by decide)
        have notPlus : first ≠ '+' := by
          rintro rfl
          exact absurd digit (by decide)
        simp only [Number.Numeral.takeSign, notMinus, notPlus, if_false]
  have places : ∃ places, Number.Numeral.takePlaces (literal.text.toList.dropWhile Char.isDigit)
      = (places, []) := by
    cases shape : literal.text.toList.dropWhile Char.isDigit with
    | nil => exact ⟨[], rfl⟩
    | cons point places =>
        rw [shape] at behind
        simp only [Bool.and_eq_true, decide_eq_true_eq] at behind
        rcases behind with ⟨⟨rfl, -⟩, all⟩
        refine ⟨places, ?_⟩
        simp only [Number.Numeral.takePlaces, if_true, Prod.mk.injEq]
        exact ⟨List.takeWhile_eq_self_iff.mpr (List.all_eq_true.mp all),
          List.dropWhile_eq_nil_iff.mpr (List.all_eq_true.mp all)⟩
  rcases places with ⟨places, split⟩
  have read : Number.Numeral.ofChars? literal.text.toList
      = some { negative := false, whole := literal.text.toList.takeWhile Char.isDigit
               places, exponent := 0 } := by
    simp only [Number.Numeral.ofChars?, unsigned, split, List.isEmpty_eq_false_iff.mpr digits,
      Bool.false_and, Bool.false_eq_true, if_false, Number.Numeral.exponent?, Option.map_some]
  have plain : ∀ first, (Number.Numeral.takeSign literal.text.toList).2.head? = some first ->
      Number.Numeral.isNumeralPart first = true := by
    intro first isFirst
    rw [unsigned] at isFirst
    rw [Number.Numeral.isNumeralPart, begins first isFirst, Bool.true_or]
  rw [Number.parse?_of_isNumeralPart plain, NumberLiteral.value, read]
  rfl

theorem BareWord.kind (bare : BareWord) : Token.wordKind bare.text.toList = .word := by
  have notTrue : bare.text.toList ≠ "true".toList :=
    fun equal => bare.notBoolean.1 (String.toList_inj.mp equal)
  have notFalse : bare.text.toList ≠ "false".toList :=
    fun equal => bare.notBoolean.2 (String.toList_inj.mp equal)
  rw [Token.wordKind, if_neg (not_or.mpr ⟨notTrue, notFalse⟩)]

theorem VariableName.kind_mem (name : VariableName) :
    name.kind ∈ [Token.Kind.word, .number, .boolean] := by
  simp only [VariableName.kind, Token.wordKind]
  split
  · split <;> decide
  · decide

open Token.Lexeme

theorem BinaryOperator.lexeme_isWhole (operator : BinaryOperator) : operator.lexeme.IsWhole := by
  cases operator <;> rfl

theorem UnaryOperator.lexeme_isWhole (operator : UnaryOperator) : operator.lexeme.IsWhole := by
  cases operator <;> rfl

namespace Phrase

theorem variableLexemes_isWhole (name : VariableName) :
    ∀ lexeme ∈ variableLexemes name, lexeme.IsWhole := by
  intro lexeme member
  simp only [variableLexemes, List.mem_cons, List.not_mem_nil, or_false] at member
  rcases member with rfl | rfl
  · rfl
  · have spelled := name.spelled
    by_cases word : Token.spellsWord name.text.toList = true
    · simp only [IsWhole, VariableName.kind, word, if_true]
      exact Token.scan?_of_spellsWord word
    · rw [Bool.not_eq_true] at word
      simp only [word, Bool.false_or] at spelled
      simp only [IsWhole, VariableName.kind, word, Bool.false_eq_true, if_false]
      exact Token.scan?_of_spellsNumber spelled

theorem parenthesize_isWhole {lexemes : List Token.Lexeme}
    (whole : ∀ lexeme ∈ lexemes, lexeme.IsWhole) (needed : Bool) :
    ∀ lexeme ∈ parenthesize needed lexemes, lexeme.IsWhole := by
  cases needed with
  | false => exact whole
  | true =>
      intro lexeme member
      simp only [parenthesize, if_true, List.cons_append, List.mem_cons, List.mem_append,
        List.not_mem_nil, or_false] at member
      rcases member with rfl | inside | rfl
      · rfl
      · exact whole lexeme inside
      · rfl

mutual

theorem lexemes_isWhole : (phrase : Phrase) -> ∀ level, ∀ lexeme ∈ phrase.lexemes level,
    lexeme.IsWhole
  | .number literal, level, lexeme, member => by
      simp only [lexemes, List.mem_singleton] at member
      subst member
      exact Token.scan?_of_spellsNumber literal.spelled
  | .text value, level, lexeme, member => by
      simp only [lexemes, List.mem_singleton] at member
      subst member
      exact Token.scan?_encode value
  | .boolean value, level, lexeme, member => by
      simp only [lexemes, List.mem_singleton] at member
      subst member
      cases value <;> rfl
  | .word bare, level, lexeme, member => by
      simp only [lexemes, List.mem_singleton] at member
      subst member
      have scanned := Token.scan?_of_spellsWord bare.spelled
      rw [bare.kind] at scanned
      exact scanned
  | .var name, level, lexeme, member => by
      rw [lexemes] at member
      exact variableLexemes_isWhole name lexeme member
  | .binary operator left right, level, lexeme, member => by
      rw [lexemes] at member
      refine parenthesize_isWhole ?_ _ lexeme member
      intro lexeme member
      rcases List.mem_append.mp member with inLeft | inRest
      · exact lexemes_isWhole left _ lexeme inLeft
      · rcases List.mem_cons.mp inRest with rfl | inRight
        · exact operator.lexeme_isWhole
        · exact lexemes_isWhole right _ lexeme inRight
  | .unary operator _ operand, level, lexeme, member => by
      rw [lexemes] at member
      rcases List.mem_cons.mp member with rfl | inside
      · exact operator.lexeme_isWhole
      · exact lexemes_isWhole operand _ lexeme inside
  | .step operator _ .before name, level, lexeme, member => by
      rw [lexemes] at member
      rcases List.mem_cons.mp member with rfl | inside
      · exact operator.lexeme_isWhole
      · exact variableLexemes_isWhole name lexeme inside
  | .step operator _ .after name, level, lexeme, member => by
      rw [lexemes] at member
      rcases List.mem_append.mp member with inside | last
      · exact variableLexemes_isWhole name lexeme inside
      · rw [List.mem_singleton.mp last]
        exact operator.lexeme_isWhole
  | .array items, level, lexeme, member => by
      rw [lexemes, List.cons_append] at member
      rcases List.mem_cons.mp member with rfl | rest
      · rfl
      · rcases List.mem_append.mp rest with inside | last
        · exact itemLexemes_isWhole items lexeme inside
        · rw [List.mem_singleton.mp last]
          rfl

theorem itemLexemes_isWhole : (items : List Phrase) -> ∀ lexeme ∈ itemLexemes items,
    lexeme.IsWhole
  | [], lexeme, member => by
      rw [itemLexemes] at member
      cases member
  | [item], lexeme, member => by
      rw [itemLexemes] at member
      exact lexemes_isWhole item _ lexeme member
  | item :: next :: items, lexeme, member => by
      rw [itemLexemes] at member
      rcases List.mem_append.mp member with first | rest
      · exact lexemes_isWhole item _ lexeme first
      · rcases List.mem_cons.mp rest with rfl | others
        · rfl
        · exact itemLexemes_isWhole (next :: items) lexeme others
      · simp

end

/-- The kinds of token that end an array or a statement. -/
def endingKinds : List Token.Kind :=
  [.rightBracket, .semicolon, .endOfLine]

/-- A phrase starts with a token that could not end what stands before it. -/
theorem lexemes_start : (phrase : Phrase) -> ∀ level, ∃ first others,
    phrase.lexemes level = first :: others ∧ first.kind ∉ endingKinds
  | .number _, _ => ⟨_, _, by rw [lexemes], by simp [endingKinds]⟩
  | .text _, _ => ⟨_, _, by rw [lexemes], by simp [endingKinds]⟩
  | .boolean _, _ => ⟨_, _, by rw [lexemes], by simp [endingKinds]⟩
  | .word _, _ => ⟨_, _, by rw [lexemes], by simp [endingKinds]⟩
  | .var _, _ => ⟨_, _, by rw [lexemes, variableLexemes], by decide⟩
  | .binary operator left right, level => by
      rcases lexemes_start left operator.level with ⟨first, others, shape, going⟩
      rw [lexemes, parenthesize]
      split
      · exact ⟨_, _, rfl, by decide⟩
      · exact ⟨first, _, by rw [shape, List.cons_append], going⟩
  | .unary operator _ _, _ => ⟨_, _, by rw [lexemes], by cases operator <;> decide⟩
  | .step operator _ .before _, _ => ⟨_, _, by rw [lexemes], by cases operator <;> decide⟩
  | .step _ _ .after _, _ =>
      ⟨_, _, by rw [lexemes, variableLexemes, List.cons_append], by decide⟩
  | .array _, _ => ⟨_, _, by rw [lexemes, List.cons_append], by decide⟩

/-- The first token of an item is no ending, and belongs to none of the items
behind it. -/
theorem itemLexemes_start (item : Phrase) (items : List Phrase) : ∃ first others,
    itemLexemes (item :: items) = first :: others ∧ first.kind ∉ endingKinds
      ∧ (itemLexemes items).length ≤ others.length := by
  rcases lexemes_start item .additive with ⟨first, others, shape, going⟩
  cases items with
  | nil =>
      refine ⟨first, others, ?_, going, ?_⟩
      · rw [itemLexemes, shape]
      · rw [itemLexemes]
        exact Nat.zero_le _
  | cons next items =>
      refine ⟨first, others ++ comma :: itemLexemes (next :: items), ?_, going, ?_⟩
      · rw [itemLexemes, shape, List.cons_append]
        exact List.cons_ne_nil _ _
      · rw [List.length_append, List.length_cons]
        omega

end Phrase

/-! ## What may stand behind a phrase -/

/-- Whether a token ends every phrase of a level that stands before it: it is no
operator that the phrase could go on with. -/
def Follows (level : Level) (next : Token.Lexeme) : Prop :=
  next.kind ≠ .unary ∧ ∀ other : Level, other.kind? = some next.kind -> other.rank < level.rank

theorem Follows.mono {level tighter : Level} {next : Token.Lexeme} (follows : Follows level next)
    (order : level.rank ≤ tighter.rank) : Follows tighter next :=
  ⟨follows.1, fun other known => Nat.lt_of_lt_of_le (follows.2 other known) order⟩

theorem Level.rank_le_tighter (level : Level) : level.rank ≤ level.tighter.rank := by
  cases level <;> decide

theorem BinaryOperator.kind?_level (operator : BinaryOperator) :
    operator.level.kind? = some operator.lexeme.kind := by
  cases operator <;> rfl

/-- An operator ends the operands of the tighter levels. -/
theorem BinaryOperator.follows_lexeme (operator : BinaryOperator) :
    Follows operator.level.tighter operator.lexeme := by
  refine ⟨by cases operator <;> decide, fun other known => ?_⟩
  cases operator <;> cases other <;> first | decide | exact absurd known (by decide)

namespace Phrase

/-! ## The levels that a phrase takes -/

/-- The number of operators of a level on the left edge of a phrase, which is
how many operators its chain has on that level. -/
def spine (level : Level) : Phrase -> Nat
  | .binary operator left _ => if operator.level = level then spine level left + 1 else 0
  | _ => 0

mutual

/-- A bound for the levels that reading a phrase enters. -/
def cost (level : Level) : Phrase -> Nat
  | .number _ | .text _ | .boolean _ | .word _ | .var _ => 0
  | .binary operator left right =>
      (if operator.level.rank < level.rank then 1 else 0)
        + (cost operator.level left + cost operator.level.tighter right + 1)
  | .unary _ _ operand => cost .unary operand + 1
  | .step _ _ _ _ => 1
  | .array items => itemCost items + 1

/-- A bound for the levels that reading the items of an array enters. -/
def itemCost : List Phrase -> Nat
  | [] => 0
  | item :: items => cost .additive item + itemCost items

end

theorem spine_le_cost (level : Level) (phrase : Phrase) :
    phrase.spine level ≤ phrase.cost level := by
  fun_induction spine level phrase with
  | case1 operator left right same ih =>
      subst same
      rw [cost]
      omega
  | case2 => exact Nat.zero_le _
  | case3 => exact Nat.zero_le _

mutual

/-- At most two levels are entered for each operator: one for the operator, and
one for its parentheses. -/
theorem cost_le_nodes : (phrase : Phrase) -> ∀ level, phrase.cost level ≤ 2 * phrase.nodes
  | .number _, _ | .text _, _ | .boolean _, _ | .word _, _ | .var _, _ => by
      rw [cost]
      exact Nat.zero_le _
  | .binary operator left right, level => by
      have onLeft := cost_le_nodes left operator.level
      have onRight := cost_le_nodes right operator.level.tighter
      rw [cost, nodes]
      split <;> omega
  | .unary _ _ operand, _ => by
      have inside := cost_le_nodes operand .unary
      rw [cost, nodes]
      omega
  | .step _ _ _ _, _ => by
      rw [cost, nodes]
      decide
  | .array items, _ => by
      have inside := itemCost_le_nodes items
      rw [cost, nodes]
      omega

theorem itemCost_le_nodes : (items : List Phrase) -> itemCost items ≤ 2 * nodesOf items
  | [] => by
      rw [itemCost]
      exact Nat.zero_le _
  | item :: items => by
      have first := cost_le_nodes item .additive
      have others := itemCost_le_nodes items
      rw [itemCost, nodesOf]
      omega

end

end Phrase
end LineShell
