import LineShell.Proofs.Calls
import LineShell.Proofs.Fitting
import LineShell.Proofs.LocalReading

namespace LineShell

/-!
# Where commands come from

Every command of a line was read from tokens of its own, and from these alone it
can be read again, also if it was called somewhere inside an expression.  There
is one exception.  A variable may have the name of a command, and then only a
dollar sign before the name tells a write to the variable from a call of the
command.  The dollar sign is not among the tokens of the write, so it has to be
put back.
-/

open Steps

/-- Whether a command writes the variable that it is named for. -/
def Command.isWrite (command : Command) : Bool :=
  match command.action, command.parameters with
  | .assign, _ => true
  | .evaluate, [.expression (.unary _ .after _)] => true
  | _, _ => false

/-- Whether a command writes a variable that has the name of a command. -/
def Command.isMarked (command : Command) : Bool :=
  command.isWrite && (Builtin.find? command.name).isSome

theorem Command.isWrite_of_action {command : Command}
    (other : command.action ≠ .assign ∧ command.action ≠ .evaluate) : command.isWrite = false := by
  rw [isWrite]
  split
  · next isAssign => exact absurd isAssign other.1
  · next isEvaluate _ => exact absurd isEvaluate other.2
  · rfl

namespace Parser

/-! ## Lines of one command -/

/-- A line of just these tokens has just this command. -/
def Readable (own : List Token) (command : Command) : Prop :=
  ∀ (state : State) (ending : Token), ending.kind = .endOfLine ->
    state.tokens = own ++ [ending] -> state.fault? = none -> state.depth = 0 ->
    ∃ after, line state = .ok [command] after

/-- A line of just the tokens that are eaten is an excerpt. -/
theorem State.Eats.excerpt {state after other : State} {eaten : List Token} {ending : Token}
    (eats : state.Eats eaten after) (ends : ending.kind = .endOfLine)
    (tokens : other.tokens = eaten ++ [ending]) (whole : other.fault? = none)
    (lastEnd : other.lastEnd = state.lastEnd) (shallow : other.depth = 0) :
    state.Excerpt (eaten ++ []) other := by
  rw [List.append_nil]
  exact
    { front := eats.front
      tokens := ⟨ending, ends, tokens⟩
      fault := whole
      lastEnd
      depth := shallow ▸ Nat.zero_le _ }

/-- A statement that is followed by the end of its line is the whole line. -/
theorem line_of_statement {state rest after : State} {command : Command}
    (ran : statement state = .ok command rest) (cut : after.Excerpt [] rest) :
    ∃ last, line state = .ok [command] last := by
  rcases cut.tokens with ⟨ending, ends, tokens⟩
  rcases List.cons.inj tokens with ⟨rfl, nothing⟩
  have terminated : expectTerminator rest = .ok () rest := by
    simp only [expectTerminator, isTerminator_of_ends ends, if_true]
  have stops : rest.lookahead.kind ≠ .semicolon := by
    rw [ends]
    exact Token.Kind.noConfusion
  have eaten := eatAny_of_mem (List.mem_singleton.mpr ends)
  rw [advance_of_end nothing cut.fault] at eaten
  have runs : line state = .ok [command]
      { rest with lookahead := endToken rest.limit, upcoming := []
                  lastEnd := rest.lookahead.span.stop } := by
    rw [line_eq, bind_of_ok ran, bind_of_ok terminated, lineAfter_of_stop stops, discard_bind, eat,
      bind_of_ok eaten]
    rfl
  exact ⟨_, runs⟩

/-- The state behind tokens that are eaten. -/
def State.behind (state : State) (next : Token) (others : List Token) (lastEnd : Nat) : State :=
  { state with lookahead := next, upcoming := others, lastEnd }

/-- A statement that begins with the given tokens goes on with a step behind
them. -/
def Opens (opening : List Token) (step : Parser Command) (lastEnd : Nat) : Prop :=
  ∀ (state : State) (next : Token) (rest : List Token), state.tokens = opening ++ next :: rest ->
    statement state = step (state.behind next rest lastEnd)

/-- If a statement goes on with a local step, then the tokens that the step eats
can be read alone behind the first ones. -/
theorem obeysAt_readable {step again : Parser Command} {between : State}
    (isLocal : LocalAt step again between) :
    ObeysAt
      (fun others command after => after.warnings = between.warnings
        ∧ ∀ opening, Opens opening again between.lastEnd -> Readable (opening ++ others) command)
      step between := by
  apply obeysAt_imp isLocal
  rintro others command after eats ⟨unwarned, onExcerpt⟩
  refine ⟨unwarned, ?_⟩
  intro opening opens state ending ends tokens whole shallow
  obtain ⟨next, rest, more⟩ : ∃ next rest, others ++ [ending] = next :: rest :=
    List.exists_cons_of_ne_nil (List.append_ne_nil_of_right_ne_nil _ (List.cons_ne_nil _ _))
  rw [List.append_assoc, more] at tokens
  have cut : between.Excerpt (others ++ []) (state.behind next rest between.lastEnd) :=
    eats.excerpt ends more.symm whole rfl shallow
  rcases onExcerpt [] _ trivial cut with ⟨last, ran, cutLast⟩
  rw [← opens state next rest tokens] at ran
  exact line_of_statement ran cutLast

/-! ## The kinds of statement -/

section Kinds

variable {name : Token} (isWord : name.kind = .word)
include isWord

/-- A word calls a command if it is the name of one, and is a variable
otherwise. -/
theorem statement_of_word {state : State} {next : Token} {rest : List Token}
    (tokens : state.tokens = [name] ++ next :: rest) :
    statement state
      = (match Builtin.find? name.text with
        | some builtin => commandAfter expression builtin name
        | none => assignment name) (state.behind next rest name.span.stop) := by
  have ahead : state.lookahead = name := (List.cons.inj tokens).1
  rw [statement, get_bind]
  simp only [ahead, isWord]
  rw [bind_of_ok (advance_of_tokens tokens)]
  rfl

theorem opens_call {builtin : Builtin} (found : Builtin.find? name.text = some builtin) :
    Opens [name] (commandAfter expression builtin name) name.span.stop := by
  intro state next rest tokens
  rw [statement_of_word isWord tokens, found]

theorem opens_name (free : Builtin.find? name.text = none) :
    Opens [name] (assignment name) name.span.stop := by
  intro state next rest tokens
  rw [statement_of_word isWord tokens, free]

theorem opens_mark {dollar : Token} (isDollar : dollar.kind = .dollar) :
    Opens [dollar, name] (assignment name) name.span.stop := by
  intro state next rest tokens
  have ahead : state.lookahead = dollar := (List.cons.inj tokens).1
  rw [statement, get_bind]
  simp only [ahead, isDollar]
  rw [discard_bind, bind_of_ok (advance_of_tokens tokens), bind_of_ok]
  rw [eat, eatAny_of_mem (List.mem_singleton.mpr isWord)]
  exact advance_of_tokens rfl

end Kinds

/-- Reads the variable of a step, and makes a statement of the step. -/
def stepStatement (sign : Token) (operator : UnaryOperator) : Parser Command := do
  let operand ← nested (if operator.isStep then return .var (← variableName) else primary)
  let span ← spanFrom sign.span.start
  let step := Expr.unary operator .before operand
  return { name := stepTarget step, action := .evaluate, parameters := [.expression step], span }

theorem statement_of_step {state : State} (steps : state.lookahead.isStep = true) :
    statement state = (unaryOperator >>= stepStatement state.lookahead) state := by
  have isUnary := kind_of_isStep steps
  rw [statement, get_bind]
  simp only [isUnary, steps, if_true]
  have opened : ∀ next : Expr -> Parser Command, (unary primary expression >>= next) state
      = (unaryOperator >>= fun operator => (nested (if operator.isStep then
            return .var (← variableName) else primary)) >>= fun operand =>
          next (.unary operator .before operand)) state := by
    intro next
    rw [unary, bind_assoc, get_bind]
    simp only [isUnary, bind_assoc, pure_bind]
  rw [opened]
  rfl

theorem opens_step {sign : Token} {operator : UnaryOperator} (steps : sign.isStep = true)
    (symbol : sign.text = operator.symbol) :
    Opens [sign] (stepStatement sign operator) sign.span.stop := by
  intro state next rest tokens
  have ahead : state.lookahead = sign := (List.cons.inj tokens).1
  have isUnary : state.lookahead.kind = .unary := ahead ▸ kind_of_isStep steps
  have eaten : eat .unary state = .ok sign (state.behind next rest sign.span.stop) := by
    rw [eat, eatAny_of_mem (List.mem_singleton.mpr isUnary)]
    exact advance_of_tokens tokens
  have read : unaryOperator state = .ok operator (state.behind next rest sign.span.stop) := by
    rw [unaryOperator, bind_of_ok eaten, symbol]
    simp only [UnaryOperator.ofSymbol?_symbol]
    rfl
  rw [statement_of_step (ahead ▸ steps), bind_of_ok read, ahead]

theorem local_stepStatement (sign : Token) (operator : UnaryOperator) :
    Local (stepStatement sign operator) (stepStatement sign operator) := by
  intro state
  have inner : Local (if operator.isStep then return .var (← variableName) else primary)
      (if operator.isStep then return .var (← variableName) else primary) := by
    cases operator.isStep with
    | true => exact fun state => localAt_map (local_variableName state) _
    | false => exact local_primaryWithin (Nat.le_refl _)
  apply localAt_bind (local_nested inner state)
  intro operand after
  exact localAt_map (local_spanFrom sign.span.start after) _

/-! ## The tokens of commands -/

/-- The tokens that a command was read from, and the mark before them.  Its span
is that of its own tokens, and it can be read from them again, though not always
without a mark. -/
structure Source (mark own : List Token) (command : Command) : Prop where
  span : ∃ first others, own = first :: others ∧ command.span = Grammar.spanOf first others
  path : command.action = .cd -> ∃ name tokens, own = name :: tokens
    ∧ Grammar.Arguments (fun _ _ => False) .cd tokens command.parameters
  alone : command.isMarked = false -> Readable own command
  marked : command.isMarked = true -> mark ≠ [] ∧ ∃ name others, own = name :: others
    ∧ name.kind = .word ∧ name.text = command.name
    ∧ ∀ dollar : Token, dollar.kind = .dollar -> Readable (dollar :: own) command

/-- The calls inside an expression are traced to its tokens. -/
def Traced (tokens : List Token) (value : Expr) : Prop :=
  tokens ≠ [] ∧ Traces (Source []) tokens value.calls

/-- Where to go does not depend on how expressions are read. -/
theorem arguments_cd {rule other : List Token -> Expr -> Prop} {tokens : List Token}
    {parameters : List Argument} (arguments : Grammar.Arguments rule .cd tokens parameters) :
    Grammar.Arguments other .cd tokens parameters := by
  cases arguments with
  | cdHome => exact .cdHome
  | cdQuoted isString => exact .cdQuoted isString
  | cdPieces begins arePieces adjoin => exact .cdPieces begins arePieces adjoin
  | bare among => exact absurd among (by decide)

/-- The source of a call that can be read alone. -/
theorem source_of_call {rule : List Token -> Expr -> Prop} {name : Token} {builtin : Builtin}
    {tokens : List Token} {parameters : List Argument}
    (found : Builtin.find? name.text = some builtin)
    (arguments : Grammar.Arguments rule builtin.action tokens parameters)
    (readable : Readable (name :: tokens)
      { name := name.text, action := builtin.action, parameters
        span := Grammar.spanOf name tokens }) :
    Source [] (name :: tokens)
      { name := name.text, action := builtin.action, parameters
        span := Grammar.spanOf name tokens } where
  span := ⟨name, tokens, rfl, rfl⟩
  path := by
    intro isCd
    rw [show builtin.action = .cd from isCd] at arguments
    exact ⟨name, tokens, rfl, arguments_cd arguments⟩
  alone := fun _ => readable
  marked := by
    intro isMarked
    have writes := (Bool.and_eq_true_iff.mp isMarked).1
    rw [Command.isWrite_of_action (action_of_find? found)] at writes
    cases writes

/-! ## Expressions -/

theorem traced_of_chain {level : Token.Kind} {tokens : List Token} {value : Expr}
    (chain : Grammar.Chain level Traced tokens value) : Traced tokens value :=
  ⟨chain.ne_nil (fun _ _ traced => traced.1) _ _, chain.traces fun _ _ traced => traced.2⟩

theorem obeysUpTo_chain_traced {level : Token.Kind} {stops : List Token.Kind}
    {operand : Parser Expr} (goes : level.isTerminator = false)
    (inside : ObeysUpTo stops Traced operand) :
    ObeysUpTo (level :: stops) Traced (chain level operand) :=
  fun state => obeysAt_mono (obeysUpTo_chain goes (fun _ _ traced => traced.1) inside state)
    fun _ _ _ met => ⟨traced_of_chain met.1, met.2⟩

theorem obeys_expressionOver_traced {primary : Parser Expr} (below : Obeys Traced primary) :
    Obeys Traced (expressionOver primary) := by
  have operands : ObeysUpTo [] Traced primary := fun state =>
    obeysAt_mono (below state) fun _ _ _ traced => ⟨traced, List.not_mem_nil⟩
  have bitwise : ObeysUpTo [.bitwise] Traced (chain .bitwise primary) :=
    obeysUpTo_chain_traced rfl operands
  have multiplicative : ObeysUpTo [.multiplicative, .bitwise] Traced
      (chain .multiplicative (chain .bitwise primary)) := obeysUpTo_chain_traced rfl bitwise
  have additive : ObeysUpTo [.additive, .multiplicative, .bitwise] Traced
      (expressionOver primary) := obeysUpTo_chain_traced rfl multiplicative
  exact additive.obeys

theorem unary_of_call {state : State} {name next : Token} {rest : List Token} {builtin : Builtin}
    (isWord : name.kind = .word) (found : Builtin.find? name.text = some builtin)
    (tokens : state.tokens = name :: next :: rest) :
    unary primary expression state
      = (commandAfter expression builtin name >>= fun command => pure (Expr.call command))
        (state.behind next rest name.span.stop) := by
  have ahead : state.lookahead = name := (List.cons.inj tokens).1
  rw [unary, get_bind]
  simp only [ahead, isWord, found]
  rw [bind_of_ok (advance_of_tokens tokens)]
  rfl

/-- What is read as a call inside an expression can be read as a statement. -/
theorem readable_of_unary {state after : State} {name : Token} {builtin : Builtin}
    {tokens : List Token} {command : Command} (isWord : name.kind = .word)
    (found : Builtin.find? name.text = some builtin)
    (eats : state.Eats (name :: tokens) after)
    (onExcerpt : ∀ shared excerpt, True -> state.Excerpt (name :: tokens ++ shared) excerpt ->
      ∃ rest, unary primary expression excerpt = .ok (.call command) rest
        ∧ after.Excerpt shared rest) :
    Readable (name :: tokens) command := by
  intro other ending ends own whole shallow
  -- A statement does not ask where the token before it ended.
  have cut : state.Excerpt (name :: tokens ++ []) { other with lastEnd := state.lastEnd } :=
    eats.excerpt ends own whole rfl shallow
  rcases onExcerpt [] _ trivial cut with ⟨last, ran, cutLast⟩
  obtain ⟨next, rest, more⟩ : ∃ next rest, tokens ++ [ending] = next :: rest :=
    List.exists_cons_of_ne_nil (List.append_ne_nil_of_right_ne_nil _ (List.cons_ne_nil _ _))
  rw [List.cons_append, more] at own
  have same : unary primary expression { other with lastEnd := state.lastEnd }
      = (commandAfter expression builtin name >>= fun command => pure (Expr.call command))
        (other.behind next rest name.span.stop) := unary_of_call isWord found own
  rw [same] at ran
  cases called : commandAfter expression builtin name
      (other.behind next rest name.span.stop) with
  | error fault failed =>
      rw [bind_of_error called] at ran
      cases ran
  | ok _ _ =>
      rw [bind_of_ok called] at ran
      cases ran
      rw [← opens_call isWord found other next rest own] at called
      exact line_of_statement called cutLast

theorem obeys_unary_traced {inner : Parser Expr} (below : Obeys Traced inner)
    (isLocal : Local inner primary) (solid : Solid (expressionOver inner)) :
    Obeys Traced (unary inner (expressionOver inner)) := by
  intro state
  have derives := obeys_unary below (obeys_expressionOver_traced below) state
  have again := local_unary isLocal (local_expressionOver isLocal) solid state
  apply obeysAt_imp (obeysAt_and derives again)
  rintro eaten value after eats ⟨isUnary, _, onExcerpt⟩
  refine ⟨isUnary.ne_nil, ?_⟩
  cases isUnary with
  | @signed _ sign _ _ _ isPrimary =>
      rw [Expr.calls]
      exact isPrimary.2.behind [sign]
  | @array opening _ _ closing _ areItems _ =>
      rw [Expr.calls]
      exact ((areItems.traces fun _ _ traced => traced.2).behind [opening]).before [closing]
  | @call name builtin tokens parameters isWord found areArguments =>
      rw [Expr.calls]
      apply Traces.single
      · exact source_of_call found areArguments (readable_of_unary isWord found eats onExcerpt)
      · exact (areArguments.traces fun _ _ traced => traced.2).behind [name]
  | _ => exact .none

theorem obeys_primaryOver_traced {inner : Parser Expr} (below : Obeys Traced inner)
    (isLocal : Local inner primary) (solid : Solid (expressionOver inner)) :
    Obeys Traced (primaryOver inner) := by
  intro state
  apply obeysAt_get
  split
  · apply obeysAt_discard (obeys_eat rfl state)
    rintro _ opening between _ ⟨rfl, _⟩
    apply obeysAt_bind (obeys_nested (obeys_expressionOver_traced below) between)
    intro tokens value behind _ traced
    apply obeysAt_discard (obeys_eat rfl behind)
    rintro _ closing after _ ⟨rfl, _⟩
    apply obeysAt_pure
    exact ⟨List.cons_ne_nil _ _, (traced.2.before [closing]).behind [opening]⟩
  · exact obeys_unary_traced below isLocal solid state

theorem obeys_primaryWithin_traced {levels : Nat} (within : levels ≤ maxDepth + 1) :
    Obeys Traced (primaryWithin levels) := by
  induction levels with
  | zero => exact fun _ => obeysAt_reject _
  | succ levels ih =>
      have fewer := Nat.le_of_succ_le within
      exact obeys_primaryOver_traced (ih fewer) (local_primaryWithin fewer)
        (solid_expressionWithin levels)

theorem obeys_expression_traced : Obeys Traced expression :=
  obeys_expressionOver_traced (obeys_primaryWithin_traced (Nat.le_refl _))

/-! ## Statements -/

/-- A command that writes a variable, read from the name of the variable and the
tokens behind it. -/
structure Writes (name : Token) (tokens : List Token) (command : Command) : Prop where
  named : command.name = name.text
  isWrite : command.isWrite = true
  span : command.span = Grammar.spanOf name tokens
  traces : Traces (Source []) tokens command.calls

theorem obeysAt_spanFrom (state : State) (start : Nat) :
    ObeysAt (fun eaten span _ => eaten = [] ∧ span = { start, stop := state.lastEnd })
      (spanFrom start) state :=
  obeysAt_get (obeysAt_pure ⟨rfl, rfl⟩)

section Writing

variable {state between : State} {name : Token} {eaten : List Token}
  (begun : state.lastEnd = name.span.stop)
include begun

theorem obeysAt_assign {value : Expr} (eats : state.Eats eaten between)
    (traces : Traces (Source []) eaten value.calls) :
    ObeysAt (fun more command _ => Writes name (eaten ++ more) command) (assign name value)
      between := by
  apply obeysAt_map (obeysAt_spanFrom between name.span.start)
  rintro _ _ after _ ⟨rfl, rfl⟩
  rw [List.append_nil]
  exact
    { named := rfl
      isWrite := rfl
      span := by rw [Grammar.spanOf, ← eats.lastEnd_eq begun]
      traces := by
        rw [Command.calls, List.flatMap_cons, List.flatMap_singleton, Argument.calls,
          Argument.calls, List.nil_append]
        exact traces }

theorem obeysAt_assignValue (eats : state.Eats eaten between) {change : Expr -> Expr}
    (same : ∀ value, (change value).calls = value.calls) :
    ObeysAt (fun more command _ => Writes name (eaten ++ more) command)
      (expression >>= fun value => assign name (change value)) between := by
  apply obeysAt_bind (obeys_expression_traced between)
  intro tokens value after eatsValue traced
  simp only [← List.append_assoc]
  apply obeysAt_assign begun (eats.append eatsValue)
  rw [same]
  exact traced.2.behind eaten

theorem obeysAt_combination {kind : Token.Kind} (here : state.lookahead.kind = kind)
    (goes : kind.isTerminator = false) :
    ObeysAt (fun tokens command _ => Writes name tokens command) (combination name) state := by
  rw [← here] at goes
  apply obeysAt_bind (obeysAt_binaryOperator goes)
  rintro _ operator between eats ⟨sign, rfl, _⟩
  apply obeysAt_get
  split
  · next isEquals =>
    apply obeysAt_discard (obeysAt_advance_of_kind isEquals rfl)
    rintro _ _ after eatsSign ⟨rfl, rfl⟩
    simp only [← List.append_assoc]
    apply obeysAt_assignValue begun (eats.append eatsSign)
    intro value
    rw [Expr.calls, Expr.calls, List.nil_append]
  · exact obeysAt_throw _

theorem obeysAt_assignment :
    ObeysAt (fun tokens command _ => Writes name tokens command) (assignment name) state := by
  apply obeysAt_get
  simp only
  split
  · next isEquals =>
    apply obeysAt_discard (obeysAt_advance_of_kind isEquals rfl)
    rintro _ _ between eats ⟨rfl, rfl⟩
    apply obeysAt_get
    split
    · exact obeysAt_assign begun eats .none
    · exact obeysAt_assignValue begun eats fun _ => rfl
  · split
    · apply obeysAt_bind (obeys_unaryOperator state)
      rintro _ operator between eats ⟨sign, rfl, _⟩
      apply obeysAt_get
      split
      · apply obeysAt_map (obeysAt_spanFrom between name.span.start)
        rintro _ _ after _ ⟨rfl, rfl⟩
        exact
          { named := rfl
            isWrite := rfl
            span := by rw [Grammar.spanOf, List.append_nil, ← eats.lastEnd_eq begun]
            traces := .none }
      · exact obeysAt_throw _
    · exact obeysAt_throw _
  · next isAdditive => exact obeysAt_combination begun isAdditive rfl
  · next isMultiplicative => exact obeysAt_combination begun isMultiplicative rfl
  · next isBitwise => exact obeysAt_combination begun isBitwise rfl
  · exact obeysAt_throw _

end Writing

/-- The source of a write that can be read behind the name of its variable. -/
theorem source_of_writes {mark tokens : List Token} {name : Token} {command : Command}
    (isWord : name.kind = .word) (marks : mark = [] -> Builtin.find? name.text = none)
    (writes : Writes name tokens command)
    (readable : ∀ opening, Opens opening (assignment name) name.span.stop ->
      Readable (opening ++ tokens) command) : Source mark (name :: tokens) command where
  span := ⟨name, tokens, rfl, writes.span⟩
  path := by
    intro isCd
    have plain : command.isWrite = false := Command.isWrite_of_action (by rw [isCd]; decide)
    rw [writes.isWrite] at plain
    cases plain
  alone := by
    intro unmarked
    rw [Command.isMarked, writes.isWrite, Bool.true_and, writes.named] at unmarked
    have free : Builtin.find? name.text = none :=
      Option.isNone_iff_eq_none.mp (Option.isSome_eq_false_iff.mp unmarked)
    exact readable [name] (opens_name isWord free)
  marked := by
    intro isMarked
    rw [Command.isMarked, writes.isWrite, Bool.true_and, writes.named] at isMarked
    refine ⟨fun unmarked => ?_, name, tokens, rfl, isWord, writes.named.symm, ?_⟩
    · rw [marks unmarked] at isMarked
      cases isMarked
    · intro dollar isDollar
      exact readable [dollar, name] (opens_mark isWord isDollar)

/-- A statement is read from tokens of its own, behind a mark or without one. -/
def Stated (eaten : List Token) (command : Command) : Prop :=
  ∃ mark own, eaten = mark ++ own ∧ Source mark own command
    ∧ Traces (Source []) own command.calls

theorem obeysAt_assignment_stated {state : State} (mark : List Token) {name : Token}
    (isWord : name.kind = .word) (marks : mark = [] -> Builtin.find? name.text = none)
    (begun : state.lastEnd = name.span.stop) :
    ObeysAt
      (fun tokens command after => after.warnings = state.warnings
        ∧ Stated (mark ++ name :: tokens) command)
      (assignment name) state := by
  apply obeysAt_mono (obeysAt_and (obeysAt_assignment begun)
    (obeysAt_readable (local_assignment name state)))
  rintro tokens command after ⟨writes, unwarned, readable⟩
  rw [begun] at readable
  exact ⟨unwarned, mark, name :: tokens, rfl, source_of_writes isWord marks writes readable,
    writes.traces.behind [name]⟩

theorem obeysAt_commandAfter_stated {state : State} {name : Token} {builtin : Builtin}
    (isWord : name.kind = .word) (found : Builtin.find? name.text = some builtin)
    (begun : state.lastEnd = name.span.stop) :
    ObeysAt
      (fun tokens command after => after.warnings = state.warnings
        ∧ Stated (name :: tokens) command)
      (commandAfter expression builtin name) state := by
  apply obeysAt_mono (obeysAt_and (obeysAt_commandAfter obeys_expression_traced builtin begun)
    (obeysAt_readable (local_commandAfter local_expression builtin name state)))
  rintro tokens _ after ⟨⟨parameters, areArguments, rfl⟩, unwarned, readable⟩
  rw [begun] at readable
  have source := source_of_call found areArguments (readable [name] (opens_call isWord found))
  exact ⟨unwarned, [], name :: tokens, rfl, source,
    (areArguments.traces fun _ _ traced => traced.2).behind [name]⟩

theorem obeysAt_stepStatement {state : State} {sign : Token} {operator : UnaryOperator}
    (steps : sign.isStep = true) (symbol : sign.text = operator.symbol)
    (begun : state.lastEnd = sign.span.stop) :
    ObeysAt
      (fun tokens command after => after.warnings = state.warnings
        ∧ Stated (sign :: tokens) command)
      (stepStatement sign operator) state := by
  have inner : Obeys (fun _ value => ∃ name, value = .var name)
      (if operator.isStep then return .var (← variableName) else primary) := by
    rw [isStep_of_symbol steps symbol]
    exact fun state => obeysAt_map (obeys_variableName state) fun _ name _ _ _ => ⟨name, rfl⟩
  have shape : ObeysAt
      (fun tokens command _ => ∃ name, command
        = { name := name, action := .evaluate
            parameters := [.expression (.unary operator .before (.var name))]
            span := Grammar.spanOf sign tokens })
      (stepStatement sign operator) state := by
    apply obeysAt_bind (obeys_nested inner state)
    rintro tokens _ between eats ⟨name, rfl⟩
    apply obeysAt_map (obeysAt_spanFrom between sign.span.start)
    rintro _ _ after _ ⟨rfl, rfl⟩
    rw [List.append_nil, Grammar.spanOf, ← eats.lastEnd_eq begun]
    exact ⟨name, rfl⟩
  apply obeysAt_mono (obeysAt_and shape
    (obeysAt_readable (local_stepStatement sign operator state)))
  rintro tokens _ after ⟨⟨name, rfl⟩, unwarned, readable⟩
  rw [begun] at readable
  refine ⟨unwarned, [], sign :: tokens, rfl, ?_, .none⟩
  exact
    { span := ⟨sign, tokens, rfl, rfl⟩
      path := fun isCd => Action.noConfusion isCd
      alone := fun _ => readable [sign] (opens_step steps symbol)
      marked := fun isMarked => Bool.noConfusion isMarked }

theorem obeysAt_statement (state : State) :
    ObeysAt
      (fun eaten command after => after.warnings = state.warnings ∧ Stated eaten command)
      statement state := by
  by_cases steps : state.lookahead.isStep = true
  · rw [ObeysAt, statement_of_step steps]
    apply obeysAt_bind (obeysAt_and (obeys_unaryOperator state) (local_unaryOperator state))
    rintro _ operator between eats ⟨⟨sign, rfl, _, symbol⟩, unwarned, _⟩
    rw [eats.lookahead_eq] at steps ⊢
    rw [← unwarned]
    exact obeysAt_stepStatement steps symbol eats.lastEnd
  apply obeysAt_get
  simp only
  split
  · next isWord =>
    apply obeysAt_bind (obeysAt_and (obeysAt_advance_of_kind isWord rfl)
      (localAt_advance_of_kind isWord rfl))
    rintro _ _ between eats ⟨⟨rfl, rfl⟩, unwarned, _⟩
    rw [← unwarned]
    split
    · next builtin found => exact obeysAt_commandAfter_stated isWord found eats.lastEnd
    · next free => exact obeysAt_assignment_stated [] isWord (fun _ => free) eats.lastEnd
  · next isDollar =>
    apply obeysAt_discard (obeysAt_and (obeysAt_advance_of_kind isDollar rfl)
      (localAt_advance_of_kind isDollar rfl))
    rintro _ _ between _ ⟨⟨rfl, rfl⟩, unwarned, _⟩
    apply obeysAt_bind (obeysAt_and (obeys_eat rfl between) (local_eat rfl between))
    rintro _ name behind eats ⟨⟨rfl, isWord⟩, unwarnedToo, _⟩
    rw [← unwarned, ← unwarnedToo]
    exact obeysAt_assignment_stated [state.lookahead] isWord
      (fun unmarked => absurd unmarked (List.cons_ne_nil _ _)) eats.lastEnd
  · rw [if_neg steps]
    exact obeysAt_throw _
  · exact obeysAt_reject _
  · exact obeysAt_reject _
  · exact obeysAt_throw _

end Parser
end LineShell
