import LineShell.Proofs.Assignments
import LineShell.Proofs.Spacing

namespace LineShell

/-!
# Combining a variable with a value

An operator before the equals sign combines the variable with the value.  The line
is read as the assignment of an operation whose second operand is the whole value,
as if the value stood in parentheses.  In parentheses the value is read two levels
deeper, and the tokens that follow it are others; but where both lines can be read,
the value in the parentheses is all of the text between them.
-/

open Steps

/-! ## Texts in parentheses -/

namespace Token

def openingLexeme : Lexeme :=
  { kind := .leftParen, text := "(" }

theorem scan?_opening (more : List Char) : scan? ('(' :: more) = some (.leftParen, 1) := by
  have noPath : pathLength? ('(' :: more) = none := by
    cases more with
    | nil => rfl
    | cons second rest => simp [pathLength?]
  have symbol : symbol? ('(' :: more) = some (.leftParen, 1) := rfl
  rw [scan?.eq_def]
  simp only [noPath, symbol]
  rfl

namespace Cursor

theorem start_closed (text : String) : start (text ++ ")") = (start text).followed ')' [] := by
  have chars : (text ++ ")").toList = text.toList ++ [')'] := by simp
  rw [start, chars]
  exact skipSpaces_followed (by decide) ⟨text.toList, 0⟩ []

/-- Before a closing parenthesis a text has the tokens that it has alone, if both
can be cut into tokens. -/
theorem read_closed {text : String} (whole : (start text).read.fault = none)
    (closes : (start (text ++ ")")).read.fault = none) (distance : Nat) :
    ∃ before last closing ending, last.kind = .endOfLine ∧ closing.kind = .rightParen
      ∧ ending.kind = .endOfLine
      ∧ ((start text).moved distance).read.tokens = before ++ [last]
      ∧ ((start (text ++ ")")).moved distance).read.tokens = before ++ [closing, ending] := by
  have separates : ')' ∈ separators := by decide
  rcases read_followed separates (by decide) (start text) [] (skipSpaces_skipSpaces _) whole with
    ⟨before, last, ⟨rest, offset⟩, tokens, ends, _, _, _, blank, _, _, closedTokens, closedFault⟩
  rw [start_closed, closedFault] at closes
  -- No token begins with a blank character, so the text ends behind its last token.
  obtain rfl : rest = [] := by
    cases rest with
    | nil => rfl
    | cons first others =>
        have isBlank : Text.isBlank first = true := List.all_eq_true.mp blank _ List.mem_cons_self
        cases found : (followed ⟨first :: others, offset⟩ ')' []).ahead with
        | error fault =>
            rw [read_of_fault found] at closes
            cases closes
        | ok next =>
            rcases next with ⟨kind, length⟩
            by_cases ending : kind = .endOfLine
            · rw [ending] at found
              have blanks := List.all_eq_true.mp (blank_of_ahead found).1 ')'
                (List.mem_append_right _ List.mem_cons_self)
              cases blanks
            · have seen := isBlank_of_scan? (scan?_of_ahead found ending)
              rw [isBlank] at seen
              cases seen
  have closing : (followed ⟨[], offset⟩ ')' []).ahead = .ok (.rightParen, 1) := ahead_of_scan? rfl
  have nothing : advance (followed ⟨[], offset⟩ ')' []) 1 = ⟨[], offset + 1⟩ := rfl
  rw [read_of_token closing Kind.noConfusion, nothing, read_nil] at closedTokens
  refine ⟨before.map (Token.relocate (· + distance)), last.relocate (· + distance),
    (token (followed ⟨[], offset⟩ ')' []) .rightParen 1).relocate (· + distance),
    (Parser.endToken (offset + 1)).relocate (· + distance), ends, rfl, rfl, ?_, ?_⟩
  · rw [(read_moved _ _).1, tokens, List.map_append]
    rfl
  · rw [(read_moved _ _).1, start_closed, closedTokens, List.map_append]
    rfl

/-- Only blank characters follow the spaces that a blank text starts with. -/
theorem blank_start_iff (text : String) :
    (start text).rest.all Text.isBlank = true ↔ text.toList.all Text.isBlank = true := by
  have parts : text.toList.takeWhile (fun char => decide (char = ' ')) ++ (start text).rest
      = text.toList := List.takeWhile_append_dropWhile
  have spaces : (text.toList.takeWhile fun char => decide (char = ' ')).all Text.isBlank
      = true := by
    apply List.all_eq_true.mpr
    intro char member
    have isSpace := List.mem_takeWhile_imp member
    rw [of_decide_eq_true isSpace]
    rfl
  rw [← parts, List.all_append, spaces, Bool.true_and]

theorem semicolon_iff {first : Char} {others : List Char} {kind : Kind} {length : Nat}
    (scanned : scan? (first :: others) = some (kind, length)) :
    kind = .semicolon ↔ first = ';' := by
  constructor
  · rintro rfl
    have listed : Kind.semicolon ∉ openKinds := by decide
    have only : ∀ entry ∈ symbols, entry.2 = .semicolon -> entry.1.toList = [';'] := by decide
    rcases (mem_pattern_of_listed listed).mp (isNext_of_scan? scanned).mem_pattern with
      ⟨entry, member, isSemicolon, text⟩
    have positive := scan?_pos scanned
    rw [only entry member isSemicolon] at text
    cases length with
    | zero => cases positive
    | succ more => exact (List.cons.inj text).1
  · rintro rfl
    rw [scan?_semicolon] at scanned
    cases scanned
    rfl

/-- A text begins with a token that ends no statement, unless it is blank or its
first token is a semicolon. -/
theorem goes_iff {text : String} (whole : (start text).read.fault = none) :
    Goes text ↔ ¬text.toList.all Text.isBlank = true
      ∧ (Text.skipSpaces text.toList).head? ≠ some ';' := by
  rw [← blank_start_iff]
  change _ ↔ _ ∧ (start text).rest.head? ≠ some ';'
  cases found : (start text).ahead with
  | error fault =>
      rw [read_of_fault found] at whole
      cases whole
  | ok next =>
      rcases next with ⟨kind, length⟩
      by_cases ending : kind = .endOfLine
      · subst ending
        apply iff_of_false
        · rintro ⟨first, others, shape, going⟩
          rw [read_of_end found] at shape
          rw [← (List.cons.inj shape).1] at going
          cases going
        · exact fun visible => visible.1 (blank_of_ahead found).1
      · have scanned := scan?_of_ahead found ending
        rw [Goes, read_of_token found ending]
        rcases visible_of_scan? scanned with ⟨first, others, shape, _⟩
        rw [shape] at scanned ⊢
        have seen : ¬(first :: others).all Text.isBlank = true := by
          rw [List.all_cons, isBlank_of_scan? scanned]
          exact Bool.false_ne_true
        rw [and_iff_right seen, List.head?_cons, ne_eq, Option.some.injEq, ← semicolon_iff scanned]
        constructor
        · rintro ⟨token, more, same, going⟩ rfl
          rw [← (List.cons.inj same).1] at going
          cases going
        · intro other
          refine ⟨_, _, rfl, ?_⟩
          change (decide (kind = .semicolon) || decide (kind = .endOfLine)) = false
          rw [decide_eq_false other, decide_eq_false ending]
          rfl

/-- A text that can be cut into tokens has at least its end as a token. -/
theorem exists_first_of_whole {text : String} (whole : (start text).read.fault = none)
    (distance : Nat) :
    ∃ first rest, ((start text).moved distance).read.tokens = first :: rest := by
  have proper := read_endsProperly ((start text).moved distance)
  rw [(read_moved _ _).2, whole] at proper
  rcases proper with ⟨before, last, shape, _⟩
  rw [shape]
  exact List.exists_cons_of_ne_nil (List.append_ne_nil_of_right_ne_nil _ (List.cons_ne_nil _ _))

section Openings

variable {name : String} (isWord : (wordLexeme name).IsWhole) (operator : BinaryOperator)
include isWord

/-- The name of a variable, an operator and an equals sign. -/
theorem leads_combination :
    Leads (name ++ " " ++ operator.symbol ++ "= ")
      [wordLexeme name, operator.lexeme, equalsLexeme] := by
  have separates : '=' ∈ separators := by decide
  have sign : Leads "= " [equalsLexeme] := leads_nothing.behindSpaced equalsLexeme_isWhole
  have operation : Leads (operator.symbol ++ "= ") [operator.lexeme, equalsLexeme] :=
    sign.behindWhole operator.lexeme_isWhole separates rfl
  rw [String.append_assoc, String.append_assoc]
  exact operation.behindSpaced isWord

/-- A variable, an operator and an opening parenthesis. -/
theorem leads_operation :
    Leads ("$" ++ name ++ " " ++ operator.symbol ++ " (")
      [{ kind := .dollar, text := "$" }, wordLexeme name, operator.lexeme, openingLexeme] := by
  have opening : Leads "(" [openingLexeme] := leads_nothing.behindToken fun more => scan?_opening _
  have named : Leads (name ++ (" " ++ (operator.symbol ++ (" " ++ "("))))
      [wordLexeme name, operator.lexeme, openingLexeme] :=
    (opening.behindSpaced operator.lexeme_isWhole).behindSpaced isWord
  have spelled : "$" ++ name ++ " " ++ operator.symbol ++ " ("
      = "$" ++ (name ++ (" " ++ (operator.symbol ++ (" " ++ "(")))) :=
    String.toList_injective (by simp)
  rw [spelled]
  exact named.behindToken fun more => scan?_dollar _

end Openings
end Cursor
end Token

namespace Parser

/-! ## Steps that others begin with -/

/-- The longer step begins with the shorter one, and adds nothing to it if a token
of the given kind stands behind it. -/
def Extends (stop : Token.Kind) (short long : Parser Expr) : Prop :=
  ∃ next : Expr -> Parser Expr, long = (short >>= next)
    ∧ ∀ value after, after.lookahead.kind = stop -> next value after = .ok value after

section Extending

variable {stop : Token.Kind} {short middle long : Parser Expr}

theorem extends_refl (step : Parser Expr) : Extends stop step step :=
  ⟨pure, (bind_pure step).symm, fun _ _ _ => rfl⟩

theorem Extends.trans (first : Extends stop short middle) (second : Extends stop middle long) :
    Extends stop short long := by
  rcases first with ⟨next, rfl, still⟩
  rcases second with ⟨further, rfl, stillToo⟩
  refine ⟨fun value => next value >>= further, bind_assoc _ _ _, ?_⟩
  intro value after stops
  exact (bind_of_ok (still value after stops) further).trans (stillToo value after stops)

/-- Leaves the levels of a chain. -/
def chainEnd (result : Expr × Nat) : Parser Expr := do
  leave result.2
  return result.1

/-- A chain adds nothing to its first operand before a token that is none of its
operators. -/
theorem extends_chain {level : Token.Kind} (other : stop ≠ level) (operand : Parser Expr) :
    Extends stop operand (chain level operand) := by
  refine ⟨fun first => chainLoop level operand (first, 0) >>= chainEnd, ?_, ?_⟩
  · rw [chain_eq, chainBody, bind_assoc]
    rfl
  · intro value after stops
    have stopped : chainLoop level operand (value, 0) after = .ok (value, 0) after :=
      repeatWhile_of_stop (decide_eq_false (stops ▸ other))
    exact bind_of_ok stopped _

theorem extends_primary {level : Level}
    (ends : ∀ other : Level, other.kind? = some stop -> other.rank < level.rank) (fuel : Nat) :
    Extends stop (primaryWithin fuel) (parserAt fuel level) := by
  have apart : ∀ other : Level, level.rank ≤ other.rank -> other.kind? ≠ some stop :=
    fun other order same => absurd (ends other same) (Nat.not_lt.mpr order)
  have bitwise : level.rank ≤ 2 -> Extends stop (primaryWithin fuel) (parserAt fuel .bitwise) :=
    fun order => extends_chain (fun same => apart .bitwise order (congrArg some same.symm)) _
  have multiplicative : level.rank ≤ 1 ->
      Extends stop (primaryWithin fuel) (parserAt fuel .multiplicative) := fun order =>
    (bitwise (Nat.le_succ_of_le order)).trans
      (extends_chain (fun same => apart .multiplicative order (congrArg some same.symm)) _)
  cases level with
  | unary => exact extends_refl _
  | bitwise => exact bitwise (Nat.le_refl _)
  | multiplicative => exact multiplicative (Nat.le_refl _)
  | additive =>
      exact (multiplicative (Nat.zero_le _)).trans
        (extends_chain (fun same => apart .additive (Nat.le_refl _) (congrArg some same.symm)) _)

/-- Before the end of the line the looser levels add nothing. -/
theorem extends_additive (level : Level) (fuel : Nat) :
    Extends .endOfLine (parserAt fuel level) (parserAt fuel .additive) := by
  have additive : Extends .endOfLine (parserAt fuel .multiplicative) (parserAt fuel .additive) :=
    extends_chain Token.Kind.noConfusion _
  have multiplicative :
      Extends .endOfLine (parserAt fuel .bitwise) (parserAt fuel .multiplicative) :=
    extends_chain Token.Kind.noConfusion _
  have bitwise : Extends .endOfLine (parserAt fuel .unary) (parserAt fuel .bitwise) :=
    extends_chain Token.Kind.noConfusion _
  cases level with
  | additive => exact extends_refl _
  | multiplicative => exact additive
  | bitwise => exact multiplicative.trans additive
  | unary => exact (bitwise.trans multiplicative).trans additive

end Extending

/-! ## A variable combined with a text in parentheses -/

section Operations

variable {state : State} {fuel : Nat}

/-- Goes on with a loop, unless the last round came no nearer to the end. -/
def resume {α : Type} (test : State -> Bool) (body : α -> Parser α) (before : State) (value : α) :
    Parser α := fun after =>
  if after.remaining < before.remaining then repeatWhile test body value after
  else .ok value after

theorem repeatWhile_of_go {α : Type} {test : State -> Bool} {body : α -> Parser α} {value : α}
    (goes : test state = true) :
    repeatWhile test body value state = (body value >>= resume test body state) state := by
  rw [repeatWhile.eq_def]
  simp only [goes, if_true]
  cases ran : body value state with
  | ok next after => exact (bind_of_ok ran (resume test body state)).symm
  | error fault after => exact (bind_of_error ran _).symm

/-- Behind its first operand and an operator, a chain goes on with the operand one
level deeper. -/
theorem chain_of_operator {level : Token.Kind} {operand : Parser Expr} {between behind : State}
    {left : Expr} {operator : BinaryOperator} (first : operand state = .ok left between)
    (here : between.lookahead.kind = level) (eaten : binaryOperator between = .ok operator behind)
    (room : behind.depth + 1 ≤ maxDepth) :
    ∃ next : Expr -> Parser Expr,
      chain level operand state
          = (operand >>= next) { behind with depth := behind.depth + 1 }
        ∧ ∀ right after, after.lookahead.kind ≠ level -> after.remaining < between.remaining ->
          next right after
            = .ok (.binary operator left right) { after with depth := after.depth - 1 } := by
  let again : Expr × Nat -> Parser (Expr × Nat) :=
    resume (fun state => state.lookahead.kind = level) (chainRound operand) between
  have looped : chainBody level operand state
      = (operand >>= fun right => again (.binary operator left right, 1))
        { behind with depth := behind.depth + 1 } := by
    have goes : decide (between.lookahead.kind = level) = true := decide_eq_true here
    rw [chainBody, bind_of_ok first, chainLoop, repeatWhile_of_go goes, chainRound]
    simp only [bind_assoc, pure_bind]
    rw [bind_of_ok eaten, bind_of_ok (enter_of_le room)]
  refine ⟨fun right => again (.binary operator left right, 1) >>= chainEnd, ?_, ?_⟩
  · rw [chain_eq, bind_of_same looped, bind_assoc]
    rfl
  · intro right after stops nearer
    have stopped : again (.binary operator left right, 1) after
        = .ok (.binary operator left right, 1) after := by
      have stop : decide (after.lookahead.kind = level) = false := decide_eq_false stops
      exact (if_pos nearer).trans (repeatWhile_of_stop stop)
    exact bind_of_ok stopped chainEnd

theorem primaryWithin_of_variable {dollar word next : Token} {rest : List Token}
    (isDollar : dollar.kind = .dollar) (isWord : word.kind = .word) (noStep : next.kind ≠ .unary)
    (tokens : state.tokens = dollar :: word :: next :: rest) :
    primaryWithin (fuel + 1) state
      = .ok (.var word.text) (state.behind next rest word.span.stop) := by
  have ahead : state.lookahead.kind = .dollar := (List.cons.inj tokens).1 ▸ isDollar
  have named : variableName state
      = .ok word.text (state.behind next rest word.span.stop) := by
    have mark : eat .dollar state
        = .ok dollar (state.behind word (next :: rest) dollar.span.stop) := by
      rw [eat, eatAny_of_mem (List.mem_singleton.mpr ahead)]
      exact advance_of_tokens tokens
    have listed : (state.behind word (next :: rest) dollar.span.stop).lookahead.kind
        ∈ [Token.Kind.word, .number, .boolean] := List.mem_cons.mpr (.inl isWord)
    rw [variableName, discard_bind, bind_of_ok mark, bind_of_ok (eatAny_of_mem listed ▸
      advance_of_tokens rfl)]
    rfl
  have plain : (state.behind next rest word.span.stop).lookahead.isStep = false := by
    rw [← Bool.not_eq_true]
    exact fun steps => noStep (kind_of_isStep steps)
  have noParen : state.lookahead.kind ≠ .leftParen := by
    rw [ahead]
    exact Token.Kind.noConfusion
  rw [primaryWithin_of_other fuel noParen]
  simp only [unary, get_bind, ahead]
  rw [bind_of_ok named, get_bind]
  simp only [plain, Bool.false_eq_true, if_false]
  rfl

/-- Leaves the level of a pair of parentheses, behind the closing one. -/
def closeParen (value : Expr) : Parser Expr := do
  leave 1
  discard <| eat .rightParen
  return value

theorem closeParen_of_other {after : State} (other : after.lookahead.kind ≠ .rightParen)
    (value : Expr) : ∃ fault last, closeParen value after = .error fault last := by
  let left : State := { after with depth := after.depth - 1 }
  have unwanted : left.lookahead.kind ∉ [Token.Kind.rightParen] := by
    rw [List.mem_singleton]
    exact other
  obtain ⟨misfit, refused⟩ : ∃ misfit, eat .rightParen left = reject misfit left := by
    cases ends : left.lookahead.kind.isTerminator with
    | true => exact ⟨_, eatAny_of_terminator unwanted ends⟩
    | false => exact ⟨_, eatAny_of_other unwanted ends⟩
  rw [closeParen, leave, modify_bind, discard_bind, bind_of_error refused]
  exact ⟨_, _, rfl⟩

theorem closeParen_of_closing {after : State} {closing ending : Token} {more : List Token}
    (closes : closing.kind = .rightParen) (tokens : after.tokens = closing :: ending :: more)
    (value : Expr) :
    closeParen value after
      = .ok value { after.behind ending more closing.span.stop with depth := after.depth - 1 } := by
  let left : State := { after with depth := after.depth - 1 }
  have here : left.lookahead.kind ∈ [Token.Kind.rightParen] := by
    rw [List.mem_singleton, ← closes]
    exact congrArg Token.kind (List.cons.inj tokens).1
  have eaten : eat .rightParen left = .ok closing (left.behind ending more closing.span.stop) := by
    rw [eat, eatAny_of_mem here]
    exact advance_of_tokens tokens
  rw [closeParen, leave, modify_bind, discard_bind, bind_of_ok eaten]
  rfl

/-- Behind an opening parenthesis an expression is read one level deeper, and then
the closing parenthesis has to follow. -/
theorem primaryWithin_of_opening {opening first : Token} {rest : List Token}
    (opens : opening.kind = .leftParen) (tokens : state.tokens = opening :: first :: rest)
    (room : state.depth + 1 ≤ maxDepth) :
    primaryWithin (fuel + 1) state
      = (expressionOver (primaryWithin fuel) >>= closeParen)
        { state.behind first rest opening.span.stop with depth := state.depth + 1 } := by
  have ahead : state.lookahead.kind = .leftParen := (List.cons.inj tokens).1 ▸ opens
  have eaten : eat .leftParen state = .ok opening (state.behind first rest opening.span.stop) := by
    rw [eat, eatAny_of_mem (List.mem_singleton.mpr ahead)]
    exact advance_of_tokens tokens
  have entered : enter (state.behind first rest opening.span.stop)
      = .ok () { state.behind first rest opening.span.stop with depth := state.depth + 1 } :=
    enter_of_le room
  simp only [primaryWithin, primaryOver, get_bind, ahead, if_true, nested, bind_assoc, pure_bind]
  rw [discard_bind, bind_of_ok eaten, bind_of_ok entered]
  rfl

theorem Extends.ok {stop : Token.Kind} {short long : Parser Expr} {value : Expr} {after : State}
    (isExtension : Extends stop short long) (ran : short state = .ok value after)
    (stops : after.lookahead.kind = stop) : long state = .ok value after := by
  rcases isExtension with ⟨next, rfl, still⟩
  rw [bind_of_ok ran]
  exact still value after stops

/-- A variable, an operator and an opening parenthesis: what is in the parentheses
becomes the second operand if the line ends behind them. -/
theorem expression_of_operation {dollar word sign opening first : Token} {rest : List Token}
    {operator : BinaryOperator} (isDollar : dollar.kind = .dollar) (isWord : word.kind = .word)
    (isSign : sign.lexeme = operator.lexeme) (opens : opening.kind = .leftParen)
    (tokens : state.tokens = dollar :: word :: sign :: opening :: first :: rest)
    (shallow : state.depth = 0) :
    ∃ next : Expr -> Parser Expr,
      expression state
          = (expressionOver (primaryWithin maxDepth) >>= next)
            { state.behind first rest opening.span.stop with depth := 2 }
        ∧ (∀ value after, after.lookahead.kind ≠ .rightParen ->
          ∃ fault last, next value after = .error fault last)
        ∧ ∀ value after closing ending, closing.kind = .rightParen -> ending.kind = .endOfLine ->
          after.tokens = [closing, ending] ->
          ∃ last, next value after = .ok (.binary operator (.var word.text) value) last := by
  have kind : sign.kind = operator.lexeme.kind := congrArg Token.Lexeme.kind isSign
  have symbol : sign.text = operator.symbol := congrArg Token.Lexeme.text isSign
  let between : State := state.behind sign (opening :: first :: rest) word.span.stop
  let behind : State := state.behind opening (first :: rest) sign.span.stop
  have noStep : sign.kind ≠ .unary := by
    rw [kind]
    exact operator.follows_lexeme.1
  have left : parserAt (maxDepth + 1) operator.level.tighter state
      = .ok (.var word.text) between :=
    (extends_primary operator.follows_lexeme.2 (maxDepth + 1)).ok
      (primaryWithin_of_variable isDollar isWord noStep tokens) kind
  have eaten : binaryOperator between = .ok operator behind := binaryOperator_of_symbol symbol rfl
  have room : behind.depth + 1 ≤ maxDepth := by
    rw [show behind.depth = 0 from shallow]
    decide
  have deepRoom : behind.depth + 1 + 1 ≤ maxDepth := by
    rw [show behind.depth = 0 from shallow]
    decide
  rcases chain_of_operator left kind eaten room with ⟨combine, chained, combined⟩
  have inside : primaryWithin (maxDepth + 1) { behind with depth := behind.depth + 1 }
      = (expressionOver (primaryWithin maxDepth) >>= closeParen)
        { state.behind first rest opening.span.stop with depth := 2 } := by
    rw [primaryWithin_of_opening opens rfl deepRoom, show behind.depth = 0 from shallow]
    rfl
  have ends : ∀ other : Level, other.kind? = some .endOfLine ->
      other.rank < operator.level.tighter.rank := fun other known => by
    cases other <;> cases known
  rcases extends_primary ends (maxDepth + 1) with ⟨tighten, isTighter, tight⟩
  rcases extends_additive operator.level (maxDepth + 1) with ⟨loosen, isLooser, loose⟩
  rw [← parserAt_of_kind operator.kind?_level, isTighter, bind_of_same (bind_of_same inside _)]
    at chained
  refine ⟨fun value => ((closeParen value >>= tighten) >>= combine) >>= loosen, ?_, ?_, ?_⟩
  · have whole : expression state = (parserAt (maxDepth + 1) operator.level >>= loosen) state :=
      congrFun isLooser state
    rw [whole, bind_of_same chained]
    simp only [bind_assoc]
  · intro value after other
    rcases closeParen_of_other other value with ⟨fault, last, failed⟩
    exact ⟨fault, last, bind_of_error (bind_of_error (bind_of_error failed _) _) _⟩
  · intro value after closing ending closes isLast tokens
    let last : State :=
      { after.behind ending [] closing.span.stop with depth := after.depth - 1 }
    have closed : closeParen value after = .ok value last :=
      closeParen_of_closing closes tokens value
    have other : last.lookahead.kind ≠ operator.lexeme.kind := by
      rw [show last.lookahead.kind = .endOfLine from isLast]
      cases operator <;> exact Token.Kind.noConfusion
    have nearer : last.remaining < between.remaining := Nat.zero_lt_succ _
    have operand := (bind_of_ok closed tighten).trans (tight value last isLast)
    have operation := (bind_of_ok operand combine).trans (combined value last other nearer)
    exact ⟨_, (bind_of_ok operation loosen).trans (loose _ _ isLast)⟩

end Operations

/-! ## The two lines -/

section Lines

variable {name text : String} {operator : BinaryOperator}
  (isWord : (Token.wordLexeme name).IsWhole)
  (whole : (Token.Cursor.start text).read.fault = none)

theorem assignment_of_combination {state : State} {name sign equals next : Token}
    {rest : List Token} (isSign : sign.lexeme = operator.lexeme) (isEquals : equals.kind = .equals)
    (tokens : state.tokens = sign :: equals :: next :: rest) :
    assignment name state
      = (expression >>= fun value => assign name (.binary operator (.var name.text) value))
        (state.behind next rest equals.span.stop) := by
  have kind : sign.kind = operator.lexeme.kind := congrArg Token.Lexeme.kind isSign
  have symbol : sign.text = operator.symbol := congrArg Token.Lexeme.text isSign
  have joins : state.lookahead.kind ∈ binaryKinds := by
    rw [show state.lookahead = sign from (List.cons.inj tokens).1, kind]
    cases operator <;> decide
  have here : (state.behind equals (next :: rest) sign.span.stop).lookahead.kind = .equals :=
    isEquals
  rw [assignment_of_binary name joins, combination,
    bind_of_ok (binaryOperator_of_symbol symbol tokens), get_bind]
  simp only [here, if_true]
  rw [discard_bind, bind_of_ok (advance_of_tokens rfl)]
  rfl

include isWord whole in
theorem introduces_combination (free : name ∉ Builtin.names) :
    ∃ start, Introduces (name ++ " " ++ operator.symbol ++ "= ") 0
      (writing name (.binary operator (.var name)) start) text := by
  rcases exists_opened (Token.Cursor.leads_combination isWord operator) whole with
    ⟨state, front, next, rest, begun, lexemes, tokens, _, before⟩
  rcases List.map_eq_cons_iff.mp lexemes with ⟨word, _, rfl, isName, more⟩
  rcases List.map_eq_cons_iff.mp more with ⟨sign, _, rfl, isSign, more⟩
  rcases List.map_eq_singleton_iff.mp more with ⟨equals, rfl, isEquals⟩
  rcases Token.Lexeme.mk.inj isName with ⟨kind, rfl⟩
  have equalsKind : equals.kind = .equals := congrArg Token.Lexeme.kind isEquals
  refine ⟨word.span.start, state, _, begun, before equals.span.stop, readsValue_of_assign ?_⟩
  rw [opens_name kind (Builtin.find?_eq_none free) state sign (equals :: next :: rest) tokens]
  exact assignment_of_combination isSign equalsKind rfl

include isWord in
/-- Where an operation with a parenthesised operand is read, the operand is read two
levels deeper. -/
theorem State.Before.operation {between : State} {distance : Nat}
    (before : between.Before ("$" ++ name ++ " " ++ operator.symbol ++ " (" ++ text) distance 0)
    (whole : (Token.Cursor.start text).read.fault = none) :
    ∃ behind inside, inside.Before text behind 2 ∧ ∃ next : Expr -> Parser Expr,
      expression between = (expressionOver (primaryWithin maxDepth) >>= next) inside
        ∧ (∀ value after, after.lookahead.kind ≠ .rightParen ->
          ∃ fault last, next value after = .error fault last)
        ∧ ∀ value after closing ending, closing.kind = .rightParen -> ending.kind = .endOfLine ->
          after.tokens = [closing, ending] ->
          ∃ last, next value after = .ok (.binary operator (.var name) value) last := by
  rcases Token.Cursor.leads_operation isWord operator text distance with
    ⟨front, lexemes, tokens, fault⟩
  rcases List.map_eq_cons_iff.mp lexemes with ⟨dollar, _, rfl, isDollar, more⟩
  rcases List.map_eq_cons_iff.mp more with ⟨word, _, rfl, isName, more⟩
  rcases List.map_eq_cons_iff.mp more with ⟨sign, _, rfl, isSign, more⟩
  rcases List.map_eq_singleton_iff.mp more with ⟨opening, rfl, isOpening⟩
  rcases Token.Lexeme.mk.inj isName with ⟨kind, rfl⟩
  obtain ⟨first, rest, shape⟩ := Token.Cursor.exists_first_of_whole whole
    (distance + ("$" ++ word.text ++ " " ++ operator.symbol ++ " (").utf8ByteSize)
  rw [← before.tokens, shape] at tokens
  rw [← before.fault] at fault
  exact ⟨_, { between.behind first rest opening.span.stop with depth := 2 },
    { tokens := shape.symm, fault, depth_eq := rfl },
    expression_of_operation (congrArg Token.Lexeme.kind isDollar) kind isSign
      (congrArg Token.Lexeme.kind isOpening) tokens before.depth_eq⟩

include whole in
/-- An expression that is read up to a closing parenthesis is read in the same way
where the line ends instead of the last such parenthesis. -/
theorem State.Before.read_unclosed {inside middle : State} {distance depth : Nat} {value : Expr}
    (before : inside.Before (text ++ ")") distance depth)
    (closes : (Token.Cursor.start (text ++ ")")).read.fault = none)
    (ran : expressionOver (primaryWithin maxDepth) inside = .ok value middle)
    (isParen : middle.lookahead.kind = .rightParen) :
    ∃ alone after, alone.Before text distance 0 ∧ expression alone = .ok value after
      ∧ (after.lookahead.kind.isTerminator = true ->
        ∃ closing ending, closing.kind = .rightParen ∧ ending.kind = .endOfLine
          ∧ middle.tokens = [closing, ending]) := by
  rcases Token.Cursor.read_closed whole closes distance with
    ⟨shared, final, closing, ending, isFinal, isClosing, isEnding, shape, closedShape⟩
  obtain ⟨head, tail, isHead⟩ : ∃ head tail, shared ++ [final] = head :: tail :=
    List.exists_cons_of_ne_nil (List.append_ne_nil_of_right_ne_nil _ (List.cons_ne_nil _ _))
  have isLocal := local_expressionOver (local_primaryWithin (Nat.le_succ maxDepth)) inside
  rw [LocalAt, LocalBefore, ObeysAt, ran] at isLocal
  rcases isLocal with ⟨eaten, eats, _, onExcerpt⟩
  have tokens := eats.tokens_eq before.endsProperly
  rw [before.tokens, closedShape] at tokens
  -- The closing parenthesis is not eaten, since one is still to come.
  obtain ⟨left, isShared, isLeft⟩ : ∃ left, shared = eaten ++ left
      ∧ middle.tokens = left ++ [closing, ending] := by
    rcases List.append_eq_append_iff.mp tokens with ⟨beyond, isEaten, isBeyond⟩ | ⟨left, parts⟩
    · cases beyond with
      | nil => exact ⟨[], by rw [isEaten, List.append_nil, List.append_nil], isBeyond.symm⟩
      | cons token others =>
          have ahead : middle.lookahead ∈ [ending] := by
            rw [(List.cons.inj isBeyond).2]
            exact List.mem_append_right _ List.mem_cons_self
          rw [List.mem_singleton.mp ahead, isEnding] at isParen
          cases isParen
    · exact ⟨left, parts⟩
  let alone : State := { inside.behind head tail inside.lastEnd with depth := 0, fault? := none }
  have isAlone : alone.tokens = shared ++ [final] := isHead.symm
  have cut : inside.Excerpt (eaten ++ left) alone :=
    { front := ⟨[closing, ending], by rw [before.tokens, closedShape, isShared]⟩
      tokens := ⟨final, isFinal, by rw [isAlone, isShared]⟩
      fault := rfl
      lastEnd := rfl
      depth := Nat.zero_le _ }
  rcases onExcerpt left alone trivial cut with ⟨after, ranAlone, cutAfter⟩
  refine ⟨alone, after, { tokens := isAlone.trans shape.symm, fault := ?_, depth_eq := rfl },
    ranAlone, ?_⟩
  · rw [(Token.Cursor.read_moved _ _).2, whole]
    rfl
  · intro ends
    cases left with
    | nil => exact ⟨closing, ending, isClosing, isEnding, isLeft⟩
    | cons token others =>
        rw [cutAfter.lookahead_eq (List.cons_ne_nil _ _), isParen] at ends
        cases ends

include isWord whole in
/-- If a text is a value, and in parentheses it is the second operand of an
operation, then the operand is that value. -/
theorem operand_of_parenthesized {state after between last : State} {distance distance' : Nat}
    {value value' : Expr} (closes : (Token.Cursor.start (text ++ ")")).read.fault = none)
    (before : state.Before text distance 0) (ran : expression state = .ok value after)
    (ends : after.EndsLine)
    (before' : between.Before ("$" ++ name ++ " " ++ operator.symbol ++ " (" ++ (text ++ ")"))
      distance' 0)
    (ran' : expression between = .ok value' last) :
    ∃ operand, value' = .binary operator (.var name) operand
      ∧ operand.unplaced = value.unplaced := by
  rcases before'.operation isWord closes with
    ⟨behind, inside, beforeInside, next, same, refuses, completes⟩
  rw [same] at ran'
  cases ranInside : expressionOver (primaryWithin maxDepth) inside with
  | error fault failed =>
      rw [bind_of_error ranInside] at ran'
      cases ran'
  | ok operand middle =>
      rw [bind_of_ok ranInside] at ran'
      have isParen : middle.lookahead.kind = .rightParen := by
        by_contra other
        rcases refuses operand middle other with ⟨fault, failed, refused⟩
        rw [refused] at ran'
        cases ran'
      rcases beforeInside.read_unclosed whole closes ranInside isParen with
        ⟨alone, rested, beforeAlone, ranAlone, unclosed⟩
      rcases before.read_elsewhere beforeAlone ran with ⟨again, _, ranAgain, moved, alike⟩
      rw [ranAlone] at ranAgain
      cases ranAgain
      rcases unclosed ((alike after.depth).mp ends).1 with
        ⟨closing, ending, isClosing, isEnding, tokens⟩
      rcases completes operand middle closing ending isClosing isEnding tokens with
        ⟨_, completed⟩
      rw [completed] at ran'
      cases ran'
      exact ⟨operand, rfl, (Expr.unplaced_of_moved moved).symm⟩

end Lines

/-- Commands that write values to one variable differ in places only, if the values
do. -/
theorem unplaced_writing {name : String} {change change' : Expr -> Expr} {value value' : Expr}
    {first first' last last' : Nat} (same : (change value).unplaced = (change' value').unplaced) :
    (writing name change first value last).unplaced
      = (writing name change' first' value' last').unplaced := by
  rw [Expr.unplaced, Expr.unplaced] at same
  rw [Command.unplaced, Command.unplaced, writing, writing, Command.relocate, Command.relocate,
    Argument.relocateAll_eq_map, Argument.relocateAll_eq_map]
  simp only [List.map_cons, List.map_nil, Argument.relocate, same]
  rfl

/-- A text can be combined with a variable where it can be assigned to it, unless
nothing stands between the equals sign and the end of the command. -/
theorem combined_iff_assigned {name : String} (text : String) (operator : BinaryOperator)
    (isWord : (Token.wordLexeme name).IsWhole) (free : name ∉ Builtin.names) :
    (∃ command,
        Command.parseLine (name ++ " " ++ operator.symbol ++ "= " ++ text) = .ok [command])
      ↔ (∃ command, Command.parseLine (name ++ " = " ++ text) = .ok [command])
        ∧ ¬text.toList.all Text.isBlank = true
        ∧ (Text.skipSpaces text.toList).head? ≠ some ';' := by
  constructor
  · rintro ⟨command, parsed⟩
    have whole := whole_of_parsed (Token.Cursor.leads_combination isWord operator) parsed
    rcases introduces_combination isWord whole free with ⟨_, combines⟩
    have goes := combines.goes_of_parsed parsed
    rcases introduces_equals isWord whole free goes with ⟨_, assigns⟩
    rcases combines.parseLine_elsewhere assigns (Nat.le_refl 0) whole parsed with
      ⟨_, _, _, _, _, assigned, _⟩
    exact ⟨⟨_, assigned⟩, (Token.Cursor.goes_iff whole).mp goes⟩
  · rintro ⟨⟨command, parsed⟩, visible⟩
    have whole := whole_of_parsed (Token.Cursor.leads_equals isWord) parsed
    have goes := (Token.Cursor.goes_iff whole).mpr visible
    rcases introduces_equals isWord whole free goes with ⟨_, assigns⟩
    rcases introduces_combination isWord whole free with ⟨_, combines⟩
    rcases assigns.parseLine_elsewhere combines (Nat.le_refl 0) whole parsed with
      ⟨_, _, _, _, _, combined, _⟩
    exact ⟨_, combined⟩

end Parser

theorem SessionM.evaluate_combination (operator : BinaryOperator) (name : String) (value : Expr)
    (session : Session) :
    evaluate (.binary operator (.var name) value) session
      = (evaluate value >>= fun result =>
          pure (operator.apply (session.bindings.get name) result)) session := by
  rw [evaluate, evaluateWith, evaluateWith]
  rfl

namespace Command

/-- A variable is combined with a value as it is assigned the operation on itself
and the parenthesised value: where both lines have a single command, the commands
differ in places only.  The second operand is what the text is read as when it is
assigned, and the variable is looked up before that is evaluated.  A text that can
be assigned can be combined, if it is neither blank nor ended at once by a
semicolon. -/
theorem combination_parenthesized {name : String} (text : String) (operator : BinaryOperator)
    (isWord : (Token.wordLexeme name).IsWhole) (free : name ∉ Builtin.names) :
    (∀ command plain,
      parseLine (name ++ " " ++ operator.symbol ++ "= " ++ text) = .ok [command] ->
      parseLine (name ++ " = $" ++ name ++ " " ++ operator.symbol ++ " (" ++ text ++ ")")
        = .ok [plain] ->
      command.unplaced = plain.unplaced
        ∧ ∃ value assigning assigned, command.name = name ∧ command.action = .assign
          ∧ command.parameters = [.word name, .expression (.binary operator (.var name) value)]
          ∧ parseLine (name ++ " = " ++ text) = .ok [assigning]
          ∧ assigning.parameters = [.word name, .expression assigned]
          ∧ assigned.unplaced = value.unplaced
          ∧ ∀ piping session,
            SessionM.execute piping plain session = SessionM.execute piping command session
              ∧ SessionM.execute piping command session
                = (SessionM.evaluate value >>= fun result =>
                    SessionM.store name (operator.apply (session.bindings.get name) result))
                  session)
      ∧ ((∃ command, parseLine (name ++ " " ++ operator.symbol ++ "= " ++ text) = .ok [command])
        ↔ (∃ command, parseLine (name ++ " = " ++ text) = .ok [command])
          ∧ ¬text.toList.all Text.isBlank = true
          ∧ (Text.skipSpaces text.toList).head? ≠ some ';') := by
  refine ⟨?_, Parser.combined_iff_assigned text operator isWord free⟩
  intro command plain parsed parsedPlain
  have whole := Parser.whole_of_parsed (Token.Cursor.leads_combination isWord operator) parsed
  rcases Parser.introduces_combination isWord whole free with ⟨start, combines⟩
  have spelled : name ++ " = $" ++ name ++ " " ++ operator.symbol ++ " (" ++ text ++ ")"
      = name ++ " = " ++ ("$" ++ name ++ " " ++ operator.symbol ++ " (" ++ (text ++ ")")) :=
    String.toList_injective (by simp)
  rw [spelled] at parsedPlain
  have operation := Token.Cursor.leads_operation isWord operator
  have wholePlain := Parser.whole_of_parsed (Token.Cursor.leads_equals isWord) parsedPlain
  rcases Parser.introduces_equals isWord wholePlain free (operation.goes rfl _) with
    ⟨startPlain, statePlain, betweenPlain, begunPlain, beforePlain, readsPlain⟩
  rcases (readsPlain.single_iff begunPlain).mp parsedPlain with
    ⟨valuePlain, last, ranPlain, rfl, _⟩
  rcases Parser.introduces_equals isWord whole free (combines.goes_of_parsed parsed) with
    ⟨startAssigning, assigns⟩
  rcases combines.parseLine_elsewhere assigns (Nat.le_refl 0) whole parsed with
    ⟨value, stop, assigned, _, isCommand, parsedAssigning, moved⟩
  rcases combines with ⟨state, between, begun, before, reads⟩
  rcases (reads.single_iff begun).mp parsed with ⟨again, after, ran, rfl, ends⟩
  obtain rfl : value = again := by
    have parameters := congrArg Command.parameters isCommand
    simp only [Parser.writing, List.cons.injEq, Argument.expression.injEq, Expr.binary.injEq]
      at parameters
    exact parameters.2.1.2.2.symm
  rcases Parser.operand_of_parenthesized isWord whole (operation.whole wholePlain) before ran ends
    beforePlain ranPlain with ⟨operand, rfl, same⟩
  have unplaced : (Expr.binary operator (.var name) value).unplaced
      = (Expr.binary operator (.var name) operand).unplaced := by
    rw [Expr.unplaced, Expr.unplaced, Expr.relocate, Expr.relocate]
    exact congrArg _ same.symm
  refine ⟨?_, value, _, assigned, rfl, rfl, rfl, parsedAssigning, rfl,
    (Expr.unplaced_of_moved moved).symm, ?_⟩
  · exact Parser.unplaced_writing unplaced
  · intro piping session
    rw [SessionM.execute_writing, SessionM.execute_assign rfl rfl,
      ← SessionM.evaluate_of_unplaced unplaced]
    refine ⟨rfl, ?_⟩
    rw [bind_of_same (SessionM.evaluate_combination operator name value session), bind_assoc]
    rfl

theorem combination_parenthesized_looser :
    let text := "1 + $x << 2"
    let operator := BinaryOperator.multiply
    (Token.wordLexeme "x").IsWhole ∧ "x" ∉ Builtin.names
      ∧ (∃ command plain,
        parseLine ("x" ++ " " ++ operator.symbol ++ "= " ++ text) = .ok [command]
          ∧ parseLine ("x" ++ " = $" ++ "x" ++ " " ++ operator.symbol ++ " (" ++ text ++ ")")
            = .ok [plain]
          ∧ command.unplaced = plain.unplaced)
      ∧ ∃ command, parseLine ("x" ++ " = " ++ text) = .ok [command] := by
  intro text operator
  have isWord : (Token.wordLexeme "x").IsWhole := rfl
  have free : "x" ∉ Builtin.names := by decide
  have single : (parseLine ("x" ++ " " ++ operator.symbol ++ "= " ++ text)).toOption.map List.length
      = some 1 := by decide +kernel
  have singleToo : (parseLine ("x" ++ " = $" ++ "x" ++ " " ++ operator.symbol ++ " (" ++ text
      ++ ")")).toOption.map List.length = some 1 := by decide +kernel
  rcases exists_single single with ⟨command, parsed⟩
  rcases exists_single singleToo with ⟨plain, parsedPlain⟩
  rcases combination_parenthesized text operator isWord free with
    ⟨same, alike⟩
  exact ⟨isWord, free, ⟨command, plain, parsed, parsedPlain,
    (same command plain parsed parsedPlain).1⟩, (alike.mp ⟨command, parsed⟩).1⟩

/-- A semicolon behind the equals sign assigns the empty text, which cannot be
combined with a variable. -/
theorem combination_of_semicolon :
    let text := "; /a"
    ¬text.toList.all Text.isBlank = true
      ∧ (∃ command, parseLine ("x" ++ " = " ++ text) = .ok [command])
      ∧ ¬∃ command, parseLine ("x" ++ " " ++ BinaryOperator.add.symbol ++ "= " ++ text)
        = .ok [command] := by
  intro text
  have single : (parseLine ("x" ++ " = " ++ text)).toOption.map List.length = some 1 := by
    decide +kernel
  have none : (parseLine ("x" ++ " " ++ BinaryOperator.add.symbol ++ "= " ++ text)).isOk
      = false := by decide +kernel
  refine ⟨by decide, exists_single single, ?_⟩
  rintro ⟨command, parsed⟩
  rw [parsed] at none
  cases none

end Command
end LineShell
