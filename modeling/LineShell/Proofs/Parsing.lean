import LineShell.Parser.Line
import LineShell.Proofs.Steps

namespace LineShell

/-!
# Opening the parsers

The parsers are built from a few steps: eating a token, entering and leaving
levels, and rounds that are repeated.  Here each of them gets the equations
that later proofs use in place of its definition, and the loops inside larger
parsers get names.
-/

/-- A command is found under its name. -/
theorem Builtin.name_of_find? {text : String} {builtin : Builtin}
    (found : Builtin.find? text = some builtin) : builtin.name = text := by
  rw [Builtin.find?] at found
  have named := List.find?_some found
  exact of_decide_eq_true named

namespace Parser

/-- The tokens that are not eaten yet. -/
def State.tokens (state : State) : List Token :=
  state.lookahead :: state.upcoming

/-! ## Eating tokens -/

theorem advance_of_upcoming {state : State} {next : Token} {upcoming : List Token}
    (more : state.upcoming = next :: upcoming) :
    advance state = .ok state.lookahead
      { state with lookahead := next, upcoming, lastEnd := state.lookahead.span.stop } := by
  simp only [advance, more, shift]

theorem advance_of_fault {state : State} {fault : Fault} (last : state.upcoming = [])
    (failing : state.fault? = some fault) : advance state = .error fault state := by
  simp only [advance, last, failing]

theorem advance_of_end {state : State} (last : state.upcoming = [])
    (whole : state.fault? = none) :
    advance state = .ok state.lookahead
      { state with lookahead := endToken state.limit, upcoming := []
                   lastEnd := state.lookahead.span.stop } := by
  simp only [advance, last, whole, shift]

theorem eatAny_of_mem {state : State} {kinds : List Token.Kind}
    (wanted : state.lookahead.kind ∈ kinds) : eatAny kinds state = advance state := by
  simp only [eatAny, wanted, if_true]

theorem eatAny_of_terminator {state : State} {kinds : List Token.Kind}
    (unwanted : state.lookahead.kind ∉ kinds) (ends : state.lookahead.kind.isTerminator = true) :
    eatAny kinds state = reject .unexpectedEnd state := by
  simp only [eatAny, unwanted, ends, if_true, if_false]

theorem eatAny_of_other {state : State} {kinds : List Token.Kind}
    (unwanted : state.lookahead.kind ∉ kinds) (goes : state.lookahead.kind.isTerminator = false) :
    eatAny kinds state
      = reject (.unexpected state.lookahead.kind state.lookahead.text
          (String.intercalate " | " (kinds.map Token.Kind.name))) state := by
  simp only [eatAny, unwanted, goes, if_false, Bool.false_eq_true]

theorem enter_of_le {state : State} (room : state.depth + 1 ≤ maxDepth) :
    enter state = .ok () { state with depth := state.depth + 1 } := by
  simp only [enter, room, if_true]

theorem enter_of_lt {state : State} (full : maxDepth < state.depth + 1) :
    enter state = .error (.grammatical .tooDeep state.lookahead.span.start)
      { state with depth := state.depth + 1 } := by
  simp only [enter, Nat.not_le.mpr full, if_false, reject]

/-! ## Tokens that go on -/

theorem isTerminator_of_isSymbol {token : Token} {kind : Token.Kind} {symbol : String}
    (is : token.isSymbol kind symbol = true) (goes : kind.isTerminator = false) :
    token.kind.isTerminator = false := by
  obtain ⟨same, _⟩ := Bool.and_eq_true_iff.mp is
  rw [of_decide_eq_true same]
  exact goes

theorem isTerminator_of_isDash {token : Token} (dashed : isDash token = true) :
    token.kind.isTerminator = false := by
  rcases Bool.or_eq_true_iff.mp dashed with minus | twice
  · exact isTerminator_of_isSymbol minus rfl
  · exact isTerminator_of_isSymbol twice rfl

theorem isTerminator_of_isPathPiece {token : Token} (isPiece : isPathPiece token = true) :
    token.kind.isTerminator = false := by
  rcases Bool.or_eq_true_iff.mp isPiece with among | minus
  · rcases Bool.or_eq_true_iff.mp among with among | slash
    · have going : ∀ kind ∈ pathKinds, kind.isTerminator = false := by decide
      exact going _ (of_decide_eq_true among)
    · exact isTerminator_of_isSymbol slash rfl
  · exact isTerminator_of_isSymbol minus rfl

theorem kind_of_isStep {token : Token} (steps : token.isStep = true) : token.kind = .unary := by
  rcases Bool.or_eq_true_iff.mp steps with up | down
  · exact of_decide_eq_true (Bool.and_eq_true_iff.mp up).1
  · exact of_decide_eq_true (Bool.and_eq_true_iff.mp down).1

theorem isTerminator_of_isStep {token : Token} (steps : token.isStep = true) :
    token.kind.isTerminator = false := by
  rw [kind_of_isStep steps]
  rfl

theorem isTerminator_of_ends {token : Token} (ends : token.kind = .endOfLine) :
    token.kind.isTerminator = true := by
  rw [ends]
  rfl

theorem kind_ne_of_ends {token : Token} {kind : Token.Kind} (ends : token.kind = .endOfLine)
    (goes : kind.isTerminator = false) : token.kind ≠ kind := by
  rintro rfl
  rw [ends] at goes
  cases goes

/-! ## Repeating a round -/

section Repeating

variable {α : Type} {test : State -> Bool} {body : α -> Parser α} {value next : α}
  {state after : State}

theorem repeatWhile_of_stop (stops : test state = false) :
    repeatWhile test body value state = .ok value state := by
  rw [repeatWhile.eq_def]
  simp only [stops, Bool.false_eq_true, if_false]

theorem repeatWhile_of_ok (goes : test state = true) (round : body value state = .ok next after)
    (nearer : after.remaining < state.remaining) :
    repeatWhile test body value state = repeatWhile test body next after := by
  rw [repeatWhile.eq_def]
  simp only [goes, if_true, round, nearer]

theorem repeatWhile_of_error {fault : Fault} (goes : test state = true)
    (round : body value state = .error fault after) :
    repeatWhile test body value state = .error fault after := by
  rw [repeatWhile.eq_def]
  simp only [goes, if_true, round]

/-- What every round keeps is kept by all rounds together. -/
theorem repeatWhile_ensures {kept : α -> State -> Prop} {onFault : Fault -> State -> Prop}
    (round : ∀ value state, test state = true -> kept value state ->
      Steps.Ensures kept onFault (body value state))
    (begun : kept value state) :
    Steps.Ensures kept onFault (repeatWhile test body value state) := by
  induction size : state.remaining using Nat.strongRecOn generalizing value state with
  | ind size ih =>
      cases goes : test state with
      | false =>
          rw [repeatWhile_of_stop goes]
          exact begun
      | true =>
          have once := round value state goes begun
          cases ran : body value state with
          | error fault after =>
              rw [repeatWhile_of_error goes ran]
              rw [ran] at once
              exact once
          | ok next after =>
              rw [ran] at once
              by_cases nearer : after.remaining < state.remaining
              · rw [repeatWhile_of_ok goes ran nearer]
                rw [size] at nearer
                exact ih after.remaining nearer once rfl
              · rw [repeatWhile]
                simp only [goes, ran, nearer, if_true, if_false]
                exact once

/-- If every round gets nearer to the end, then all rounds together go on until
the test fails. -/
theorem repeatWhile_stops {kept : α -> State -> Prop} {onFault : Fault -> State -> Prop}
    (round : ∀ value state, test state = true -> kept value state ->
      Steps.Ensures (fun next after => kept next after ∧ after.remaining < state.remaining) onFault
        (body value state))
    (begun : kept value state) :
    Steps.Ensures (fun value after => kept value after ∧ test after = false) onFault
      (repeatWhile test body value state) := by
  induction size : state.remaining using Nat.strongRecOn generalizing value state with
  | ind size ih =>
      cases goes : test state with
      | false =>
          rw [repeatWhile_of_stop goes]
          exact ⟨begun, goes⟩
      | true =>
          have once := round value state goes begun
          cases ran : body value state with
          | error fault after =>
              rw [repeatWhile_of_error goes ran]
              rw [ran] at once
              exact once
          | ok next after =>
              rw [ran] at once
              obtain ⟨holds, nearer⟩ := once
              rw [repeatWhile_of_ok goes ran nearer]
              rw [size] at nearer
              exact ih after.remaining nearer holds rfl

end Repeating

/-! ## The loops of the grammar -/

/-- One more operator and operand of a chain. -/
def chainRound (operand : Parser Expr) : Expr × Nat -> Parser (Expr × Nat) :=
  fun (left, levels) => do
    let operator ← binaryOperator
    enter
    let right ← operand
    return (Expr.binary operator left right, levels + 1)

/-- The operators and operands after the first operand of a chain. -/
def chainLoop (level : Token.Kind) (operand : Parser Expr) : Expr × Nat -> Parser (Expr × Nat) :=
  repeatWhile (fun state => state.lookahead.kind = level) (chainRound operand)

/-- A chain, with the levels that its operators entered. -/
def chainBody (level : Token.Kind) (operand : Parser Expr) : Parser (Expr × Nat) := do
  let first ← operand
  chainLoop level operand (first, 0)

theorem chain_eq (level : Token.Kind) (operand : Parser Expr) :
    chain level operand = do
      let result ← chainBody level operand
      leave result.2
      return result.1 := by
  funext state
  simp only [chain, chainBody, bind_assoc]
  rfl

/-- One more item of an array, in front of the ones before it. -/
def arrayRound (expression : Parser Expr) (items : List Expr) : Parser (List Expr) := do
  let item ← expression
  if (← get).lookahead.kind ≠ .rightBracket then
    discard <| eat .comma
  return item :: items

/-- The items of an array, the last one first. -/
def arrayLoop (expression : Parser Expr) : List Expr -> Parser (List Expr) :=
  repeatWhile (fun state => state.lookahead.kind ≠ .rightBracket) (arrayRound expression)

theorem array_eq (expression : Parser Expr) :
    array expression = do
      discard <| eat .leftBracket
      let items ← nested (arrayLoop expression [])
      discard <| eat .rightBracket
      return .array items.reverse := by
  funext state
  simp only [array, nested, bind_assoc, pure_bind]
  rfl

/-- Reads an operator, an equals sign and a value to combine a variable with. -/
def combination (name : Token) : Parser Command := do
  let operator ← binaryOperator
  if (← get).lookahead.kind = .equals then
    discard advance
    assign name (.binary operator (.var name.text) (← expression))
  else throw (.unknownCommand name.text name.span.start)

/-- Reads what follows a semicolon. -/
def afterSemicolon (commands : List Command) : Parser (List Command) := do
  if (← get).lookahead.kind = .path then
    discard advance
    warn .noFilesystem
    expectTerminator
    return commands
  else
    let command ← statement
    expectTerminator
    return command :: commands

theorem furtherStatement_eq (commands : List Command) :
    furtherStatement commands = (do
      discard advance
      afterSemicolon commands) := rfl

/-- The statements of a line after the first one, the last one first. -/
def statementLoop : List Command -> Parser (List Command) :=
  repeatWhile (fun state => state.lookahead.kind = .semicolon) furtherStatement

/-- Reads a line from where its first statements have been read, the last of
them first. -/
def lineAfter (commands : List Command) : Parser (List Command) := do
  let all ← statementLoop commands
  discard <| eat .endOfLine
  return all.reverse

section LineAfter

variable {commands next : List Command} {state after : State}

theorem lineAfter_of_stop (stops : state.lookahead.kind ≠ .semicolon) :
    lineAfter commands state = (do
      discard <| eat .endOfLine
      return commands.reverse : Parser (List Command)) state := by
  have stopped : statementLoop commands state = .ok commands state :=
    repeatWhile_of_stop (decide_eq_false stops)
  rw [lineAfter, Steps.bind_of_ok stopped]

theorem lineAfter_of_ok (goes : state.lookahead.kind = .semicolon)
    (round : furtherStatement commands state = .ok next after)
    (nearer : after.remaining < state.remaining) :
    lineAfter commands state = lineAfter next after := by
  have looped : statementLoop commands state = statementLoop next after :=
    repeatWhile_of_ok (decide_eq_true goes) round nearer
  simp only [lineAfter, bind, EStateM.bind, looped]

theorem lineAfter_of_error {fault : Fault} (goes : state.lookahead.kind = .semicolon)
    (round : furtherStatement commands state = .error fault after) :
    lineAfter commands state = .error fault after := by
  have failed : statementLoop commands state = .error fault after :=
    repeatWhile_of_error (decide_eq_true goes) round
  rw [lineAfter, Steps.bind_of_error failed]

end LineAfter

theorem line_eq :
    line = (do
      let first ← statement
      expectTerminator
      lineAfter [first]) := rfl

end Parser

namespace Command

variable {text : String} {state after : Parser.State} {commands : List Command} {fault : Fault}

theorem parseLine_of_ok (begun : Parser.start text = .ok state)
    (ran : Parser.line state = .ok commands after) : parseLine text = .ok commands := by
  simp only [parseLine, begun, bind, Except.bind, ran]

theorem parseLine_of_error (begun : Parser.start text = .ok state)
    (ran : Parser.line state = .error fault after) : parseLine text = .error fault := by
  simp only [parseLine, begun, bind, Except.bind, ran]

theorem parseLine_of_fault (failed : Parser.start text = .error fault) :
    parseLine text = .error fault := by
  simp only [parseLine, failed, bind, Except.bind]

end Command
end LineShell
