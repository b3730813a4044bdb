import LineShell.Proofs.Parsing
import LineShell.Proofs.Reading
import LineShell.Proofs.Steps

namespace LineShell

/-!
# Commands that fit their handlers

A handler finds its arguments by position and expects each to be of a certain
sort.  Whether a command meets these expectations, and so does every command
that its expressions call, can be computed.  All that the parser reads does, for
the arguments of each action are read by a parser of their own.

What the parser does not read it rejects for the text: a fault is the one that the
tokens end with, or points at one of the tokens.
-/

open Steps

/-! ## Fitting -/

namespace Action

/-- Whether an action is one that the name calls.  Assignments and expressions
that stand alone have no name of their own. -/
def goesBy (action : Action) (name : String) : Bool :=
  match action with
  | .assign | .evaluate => true
  | _ => (Builtin.find? name).any fun builtin => builtin.action = action

/-- Whether arguments are of the sorts that an action takes. -/
def takes : Action -> List Argument -> Bool
  | .help, [.word name] => (Builtin.find? name).isSome
  | .help, [] | .clear, [] | .cd, [] | .motd, [] | .test, [] | .confirm, [] | .license, [] => true
  | .echo, [.expression _] | .evaluate, [.expression _] => true
  | .clear, [.flag _] | .user, [.text _] | .cd, [.path _] => true
  | .stack, [.word verb, .word _, .expression _] => verb = "set"
  | .stack, [.word verb, .word _] => verb = "get"
  | .stack, [.word verb] => verb = "list" || verb = "flush"
  | .assign, [.word _, .expression _] => true
  | _, _ => false

end Action

def Expr.isVariable : Expr -> Bool
  | .var _ => true
  | _ => false

mutual

/-- Whether an expression steps variables only, and its commands fit. -/
def Expr.fits : Expr -> Bool
  | .number _ | .text _ | .word _ | .boolean _ | .var _ => true
  | .binary _ left right => left.fits && right.fits
  | .unary operator _ operand => if operator.isStep then operand.isVariable else operand.fits
  | .call command => command.fits
  | .array items => Expr.allFit items

def Expr.allFit : List Expr -> Bool
  | [] => true
  | item :: items => item.fits && Expr.allFit items

/-- Whether the expression in an argument fits. -/
def Argument.fits : Argument -> Bool
  | .expression value => value.fits
  | .word _ | .text _ | .path _ | .flag _ => true

def Argument.allFit : List Argument -> Bool
  | [] => true
  | argument :: arguments => argument.fits && Argument.allFit arguments

/-- Whether a command has a name of its action, and arguments that its action
takes. -/
def Command.fits : Command -> Bool
  | { name, action, parameters, span := _ } =>
      action.goesBy name && action.takes parameters && Argument.allFit parameters

end

theorem Expr.allFit_reverse (items : List Expr) :
    Expr.allFit items.reverse = Expr.allFit items := by
  have general : ∀ items : List Expr, Expr.allFit items = items.all Expr.fits := by
    intro items
    induction items with
    | nil => rfl
    | cons item items ih => rw [Expr.allFit, List.all_cons, ih]
  rw [general, general, List.all_reverse]

/-! ## What parsers yield -/

/-- Whether a fault was found in the text of a line. -/
def Fault.isTextual (fault : Fault) : Bool :=
  fault.offset?.isSome

/-- A fault points at a token, and if it names something, then the token. -/
def Token.Causes (token : Token) : Fault -> Prop
  | .grammatical _ offset => offset = token.span.start
  | .unknownCommand name offset => name = token.text ∧ offset = token.span.start
  | .lexical _ _ | .execution _ => False

namespace Parser

/-- The tokens that a parser may come to see, and the fault that they end with. -/
structure Supply where
  tokens : List Token
  fault? : Option Fault

/-- A fault lies in the supply: the tokens end with it, or one of them causes it. -/
def Supply.Holds (supply : Supply) (fault : Fault) : Prop :=
  supply.fault? = some fault ∨ ∃ token ∈ supply.tokens, token.Causes fault

/-- All that is left to read comes from the supply, also the end of the line that
follows when everything is eaten. -/
structure State.Draws (supply : Supply) (state : State) : Prop where
  tokens : ∀ token ∈ state.tokens, token ∈ supply.tokens
  ending : endToken state.limit ∈ supply.tokens
  fault : state.fault? = supply.fault?

theorem State.Draws.lookahead {supply : Supply} {state : State} (draws : state.Draws supply) :
    state.lookahead ∈ supply.tokens :=
  draws.tokens _ List.mem_cons_self

/-- What is left to read in a state. -/
def State.supply (state : State) : Supply :=
  { tokens := state.tokens ++ [endToken state.limit], fault? := state.fault? }

theorem State.draws_supply (state : State) : state.Draws state.supply where
  tokens := fun _ member => List.mem_append_left _ member
  ending := List.mem_append_right _ List.mem_cons_self
  fault := rfl

variable {α β : Type} {meets : α -> Prop} {meetsNext : β -> Prop} {supply : Supply}

/-- In a state that draws on the supply, a parser comes to a value of the given
sort, or finds a fault that lies in the supply. -/
def YieldsAt (supply : Supply) (meets : α -> Prop) (step : Parser α) (state : State) : Prop :=
  state.Draws supply ->
    Ensures (fun value after => meets value ∧ after.Draws supply)
      (fun fault _ => supply.Holds fault) (step state)

/-- All values that a parser comes to are of the given sort, and its faults lie in
the supply. -/
def Yields (supply : Supply) (meets : α -> Prop) (step : Parser α) : Prop :=
  ∀ state, YieldsAt supply meets step state

theorem yields_pure {value : α} (met : meets value) : Yields supply meets (pure value) :=
  fun _ draws => ⟨met, draws⟩

theorem yields_throw {fault : Fault} {token : Token} (known : token ∈ supply.tokens)
    (causes : token.Causes fault) : Yields supply meets (throw fault) :=
  fun _ _ => .inr ⟨token, known, causes⟩

theorem yields_reject (misfit : Misfit) : Yields supply meets (reject misfit) :=
  fun _ draws => .inr ⟨_, draws.lookahead, rfl⟩

theorem yields_bind {step : Parser α} {next : α -> Parser β} (first : Yields supply meets step)
    (second : ∀ value, meets value -> Yields supply meetsNext (next value)) :
    Yields supply meetsNext (step >>= next) := by
  intro state draws
  apply (first state draws).bind
  rintro value after ⟨met, still⟩
  exact second value met after still

theorem yieldsAt_get {next : State -> Parser β} {state : State}
    (second : YieldsAt supply meetsNext (next state) state) :
    YieldsAt supply meetsNext (get >>= next) state :=
  second

theorem yields_get {next : State -> Parser β}
    (second : ∀ state, state.Draws supply -> Yields supply meetsNext (next state)) :
    Yields supply meetsNext (get >>= next) :=
  fun state draws => yieldsAt_get (second state draws state) draws

theorem yields_discard {step : Parser α} {next : Unit -> Parser β}
    (first : Yields supply meets step) (second : Yields supply meetsNext (next ())) :
    Yields supply meetsNext (discard step >>= next) := by
  intro state draws
  rw [discard_bind]
  exact yields_bind first (fun _ _ => second) state draws

theorem yields_mono {step : Parser α} {weaker : α -> Prop} (first : Yields supply meets step)
    (weakens : ∀ value, meets value -> weaker value) : Yields supply weaker step := by
  intro state draws
  apply (first state draws).mono
  · rintro value after ⟨met, still⟩
    exact ⟨weakens value met, still⟩
  · intro fault _ held
    exact held

def Any (_ : α) : Prop := True

/-- What is eaten is the lookahead. -/
theorem yieldsAt_advance {state : State} {next : Token -> Parser β}
    (second : Yields supply meetsNext (next state.lookahead)) :
    YieldsAt supply meetsNext (advance >>= next) state := by
  intro draws
  cases upcoming : state.upcoming with
  | cons following others =>
      rw [bind_of_ok (advance_of_upcoming upcoming)]
      refine second _ { draws with tokens := ?_ }
      intro token member
      apply draws.tokens
      rw [State.tokens, upcoming]
      exact List.mem_cons_of_mem _ member
  | nil =>
      cases ending : state.fault? with
      | none =>
          rw [bind_of_ok (advance_of_end upcoming ending)]
          exact second _ { draws with tokens := List.forall_mem_singleton.mpr draws.ending }
      | some fault =>
          rw [bind_of_error (advance_of_fault upcoming ending)]
          exact .inl (draws.fault.symm.trans ending)

/-- The token comes from the supply. -/
def Known (supply : Supply) (token : Token) : Prop :=
  token ∈ supply.tokens

theorem yields_advance : Yields supply (Known supply) advance := by
  intro state draws
  rw [← bind_pure advance]
  exact yieldsAt_advance (yields_pure draws.lookahead) draws

theorem yields_eatAny (kinds : List Token.Kind) :
    Yields supply (Known supply) (eatAny kinds) := by
  intro state draws
  by_cases wanted : state.lookahead.kind ∈ kinds
  · rw [eatAny_of_mem wanted]
    exact yields_advance state draws
  · cases ends : state.lookahead.kind.isTerminator with
    | true =>
        rw [eatAny_of_terminator wanted ends]
        exact yields_reject _ state draws
    | false =>
        rw [eatAny_of_other wanted ends]
        exact yields_reject _ state draws

theorem yields_eat (kind : Token.Kind) : Yields supply (Known supply) (eat kind) :=
  yields_eatAny [kind]

theorem yields_enter : Yields supply Any enter := by
  intro state draws
  by_cases room : state.depth + 1 ≤ maxDepth
  · rw [enter_of_le room]
    exact ⟨trivial, { draws with }⟩
  · rw [enter_of_lt (Nat.not_le.mp room)]
    exact .inr ⟨_, draws.lookahead, rfl⟩

theorem yields_leave (levels : Nat) : Yields supply Any (leave levels) :=
  fun _ draws => ⟨trivial, { draws with }⟩

theorem yields_nested {inner : Parser α} (inside : Yields supply meets inner) :
    Yields supply meets (nested inner) :=
  yields_bind yields_enter fun _ _ => yields_bind inside fun _ met =>
    yields_bind (yields_leave 1) fun _ _ => yields_pure met

theorem yields_spanFrom (start : Nat) : Yields supply Any (spanFrom start) :=
  yields_get fun _ _ => yields_pure trivial

theorem yields_expectTerminator : Yields supply Any expectTerminator := by
  intro state draws
  simp only [expectTerminator]
  split
  · exact ⟨trivial, draws⟩
  · exact yields_reject _ state draws

/-- What every round of a loop keeps is kept by the loop. -/
theorem yields_repeatWhile {test : State -> Bool} {body : α -> Parser α}
    (round : ∀ value, meets value -> Yields supply meets (body value)) {value : α}
    (met : meets value) : Yields supply meets (repeatWhile test body value) := by
  intro state draws
  apply repeatWhile_ensures
  · rintro value state _ ⟨met, draws⟩
    exact round value met state draws
  · exact ⟨met, draws⟩

/-! ## Expressions -/

theorem yields_binaryOperator : Yields supply Any binaryOperator := by
  apply yields_bind yields_advance
  intro token known
  cases BinaryOperator.ofSymbol? token.text with
  | none => exact yields_throw known rfl
  | some operator => exact yields_pure trivial

theorem yields_unaryOperator : Yields supply Any unaryOperator := by
  apply yields_bind (yields_eat _)
  intro token known
  cases UnaryOperator.ofSymbol? token.text with
  | none => exact yields_throw known rfl
  | some operator => exact yields_pure trivial

theorem yields_variableName : Yields supply Any variableName :=
  yields_discard (yields_eat _) (yields_bind (yields_eatAny _) fun _ _ => yields_pure trivial)

def Fitting (expression : Expr) : Prop :=
  expression.fits = true

theorem yields_literal : Yields supply Fitting literal := by
  apply yields_get
  intro state draws
  simp only
  split
  · apply yields_discard yields_advance
    cases Number.parse? state.lookahead.text.toList with
    | none => exact yields_throw draws.lookahead rfl
    | some value => exact yields_pure rfl
  · exact yields_bind yields_advance fun _ _ => yields_pure rfl
  · exact yields_bind yields_advance fun _ _ => yields_pure rfl
  · exact yields_bind yields_advance fun _ _ => yields_pure rfl
  · exact yields_reject _
  · exact yields_reject _
  · exact yields_reject _

theorem yields_chain (level : Token.Kind) {operand : Parser Expr}
    (inside : Yields supply Fitting operand) : Yields supply Fitting (chain level operand) := by
  have round : ∀ value : Expr × Nat, Fitting value.1 ->
      Yields supply (fun value => Fitting value.1) (chainRound operand value) := by
    rintro ⟨left, levels⟩ leftFits
    apply yields_bind yields_binaryOperator
    intro operator _
    apply yields_bind yields_enter
    intro _ _
    apply yields_bind inside
    intro right rightFits
    exact yields_pure (Bool.and_eq_true_iff.mpr ⟨leftFits, rightFits⟩)
  have body : Yields supply (fun value => Fitting value.1) (chainBody level operand) :=
    yields_bind inside fun first firstFits => yields_repeatWhile round firstFits
  rw [chain_eq]
  apply yields_bind body
  intro result resultFits
  exact yields_bind (yields_leave _) fun _ _ => yields_pure resultFits

theorem yields_expressionOver {primary : Parser Expr} (inside : Yields supply Fitting primary) :
    Yields supply Fitting (expressionOver primary) :=
  yields_chain _ (yields_chain _ (yields_chain _ inside))

theorem yields_array {expression : Parser Expr} (inside : Yields supply Fitting expression) :
    Yields supply Fitting (array expression) := by
  have round : ∀ items, Expr.allFit items = true ->
      Yields supply (fun items => Expr.allFit items = true) (arrayRound expression items) := by
    intro items itemsFit
    apply yields_bind inside
    intro item itemFits
    have more : Expr.allFit (item :: items) = true :=
      Bool.and_eq_true_iff.mpr ⟨itemFits, itemsFit⟩
    apply yields_get
    intro state _
    split
    · exact yields_discard (yields_eat _) (yields_pure more)
    · exact yields_pure more
  rw [array_eq]
  apply yields_discard (yields_eat _)
  apply yields_bind (yields_nested (yields_repeatWhile round rfl))
  intro items itemsFit
  apply yields_discard (yields_eat _)
  exact yields_pure ((Expr.allFit_reverse items).trans itemsFit)

/-! ## Arguments -/

def ArgumentsFit (action : Action) (arguments : List Argument) : Prop :=
  action.takes arguments = true ∧ Argument.allFit arguments = true

theorem yields_helpArguments : Yields supply (ArgumentsFit .help) helpArguments := by
  apply yields_get
  intro state _
  split
  · apply yields_bind yields_advance
    intro name inLine
    by_cases known : (Builtin.find? name.text).isSome = true
    · rw [if_pos known]
      exact yields_pure ⟨known, rfl⟩
    · rw [if_neg known]
      exact yields_throw inLine ⟨rfl, rfl⟩
  · exact yields_pure ⟨rfl, rfl⟩

theorem yields_clearArguments : Yields supply (ArgumentsFit .clear) clearArguments := by
  apply yields_get
  intro state _
  split
  · apply yields_bind yields_advance
    intro dash known
    apply yields_bind (yields_eat _)
    intro flag _
    split
    · exact yields_pure ⟨rfl, rfl⟩
    · exact yields_throw known rfl
  · exact yields_pure ⟨rfl, rfl⟩

theorem yields_stackVariable : Yields supply Any stackVariable := by
  have name : Yields supply Any (do return (← eat .word).text : Parser String) :=
    yields_bind (yields_eat _) fun _ _ => yields_pure trivial
  apply yields_get
  intro state _
  split
  · exact yields_discard yields_advance name
  · exact name

theorem yields_stackArguments {expression : Parser Expr}
    (inside : Yields supply Fitting expression) :
    Yields supply (ArgumentsFit .stack) (stackArguments expression) := by
  apply yields_bind (yields_eat _)
  intro verb known
  by_cases set : verb.text = "set"
  · rw [if_pos set]
    apply yields_bind yields_stackVariable
    intro name _
    apply yields_bind inside
    intro value valueFits
    have valueFits : value.fits = true := valueFits
    exact yields_pure ⟨decide_eq_true set, by simp [Argument.allFit, Argument.fits, valueFits]⟩
  · rw [if_neg set]
    by_cases get : verb.text = "get"
    · rw [if_pos get]
      apply yields_bind yields_stackVariable
      intro name _
      exact yields_pure ⟨decide_eq_true get, rfl⟩
    · rw [if_neg get]
      by_cases plain : verb.text = "list" ∨ verb.text = "flush"
      · rw [if_pos plain]
        exact yields_pure ⟨by simpa [Action.takes] using plain, rfl⟩
      · rw [if_neg plain]
        exact yields_throw known rfl

theorem yields_pathFrom (first : String) : Yields supply Any (pathFrom first) := by
  apply yields_repeatWhile
  · intro path _
    exact yields_bind yields_advance fun _ _ => yields_pure trivial
  · trivial

theorem yields_cdArguments : Yields supply (ArgumentsFit .cd) cdArguments := by
  have path : ∀ first : Token, Yields supply (ArgumentsFit .cd)
      (do return [.path (← pathFrom first.text)] : Parser (List Argument)) :=
    fun first => yields_bind (yields_pathFrom _) fun _ _ => yields_pure ⟨rfl, rfl⟩
  apply yields_get
  intro state _
  simp only
  split
  · exact yields_pure ⟨rfl, rfl⟩
  · split
    · exact yields_bind yields_advance fun _ _ => yields_pure ⟨rfl, rfl⟩
    · split
      · exact yields_bind yields_advance fun first _ => path first
      · exact yields_bind (yields_eatAny _) fun first _ => path first

theorem yields_arguments {expression : Parser Expr} (inside : Yields supply Fitting expression)
    {action : Action} (named : action ≠ .assign ∧ action ≠ .evaluate) :
    Yields supply (ArgumentsFit action) (arguments expression action) := by
  cases action <;> simp only [arguments]
  · exact yields_helpArguments
  · apply yields_bind inside
    intro value valueFits
    have valueFits : value.fits = true := valueFits
    exact yields_pure ⟨rfl, by simp [Argument.allFit, Argument.fits, valueFits]⟩
  · exact yields_clearArguments
  · exact yields_bind (yields_eatAny _) fun _ _ => yields_pure ⟨rfl, rfl⟩
  · exact yields_stackArguments inside
  · exact yields_pure ⟨rfl, rfl⟩
  · exact yields_cdArguments
  · exact yields_pure ⟨rfl, rfl⟩
  · exact yields_pure ⟨rfl, rfl⟩
  · exact yields_pure ⟨rfl, rfl⟩
  · exact absurd rfl named.1
  · exact absurd rfl named.2

/-! ## Commands -/

def FittingCommand (command : Command) : Prop :=
  command.fits = true

/-- No name calls an assignment or an expression that stands alone. -/
theorem action_of_find? {name : String} {builtin : Builtin}
    (found : Builtin.find? name = some builtin) :
    builtin.action ≠ .assign ∧ builtin.action ≠ .evaluate := by
  have every : ∀ builtin ∈ Builtin.all, builtin.action ≠ .assign ∧ builtin.action ≠ .evaluate := by
    decide
  exact every builtin (List.mem_of_find?_eq_some found)

theorem goesBy_of_find? {name : String} {builtin : Builtin}
    (found : Builtin.find? name = some builtin) : builtin.action.goesBy name = true := by
  simp only [Action.goesBy, found, Option.any_some]
  split <;> simp

theorem yields_commandAfter {expression : Parser Expr} (inside : Yields supply Fitting expression)
    {builtin : Builtin} {name : Token} (found : Builtin.find? name.text = some builtin) :
    Yields supply FittingCommand (commandAfter expression builtin name) := by
  apply yields_bind (yields_nested (yields_arguments inside (action_of_find? found)))
  rintro parameters ⟨taken, fit⟩
  apply yields_bind (yields_spanFrom _)
  intro span _
  apply yields_pure
  rw [FittingCommand, Command.fits, goesBy_of_find? found, taken, fit]
  rfl

theorem yields_unary {primary expression : Parser Expr} (operand : Yields supply Fitting primary)
    (inside : Yields supply Fitting expression) :
    Yields supply Fitting (unary primary expression) := by
  intro state
  -- Only for the name of a command it matters that the token seen is the one eaten.
  apply yieldsAt_get
  simp only
  split
  · refine yields_bind yields_unaryOperator ?_ state
    intro operator _
    have operandFits : Yields supply (fun value => Fitting (.unary operator .before value))
        (if operator.isStep then (do return .var (← variableName)) else primary) := by
      cases steps : operator.isStep with
      | true =>
          apply yields_bind yields_variableName
          intro name _
          exact yields_pure (by simp [Fitting, Expr.fits, steps, Expr.isVariable])
      | false =>
          apply yields_mono operand
          intro value valueFits
          have valueFits : value.fits = true := valueFits
          simp [Fitting, Expr.fits, steps, valueFits]
    exact yields_bind (yields_nested operandFits) fun _ valueFits => yields_pure valueFits
  · refine yields_bind yields_variableName ?_ state
    intro name _
    apply yields_get
    intro after _
    split
    · apply yields_bind yields_unaryOperator
      intro operator _
      exact yields_pure (by simp [Fitting, Expr.fits, Expr.isVariable])
    · exact yields_pure rfl
  · exact yields_array inside state
  · split
    · refine yields_discard yields_advance ?_ state
      exact yields_bind (yields_nested operand) fun _ valueFits => yields_pure valueFits
    · exact yields_literal state
  · cases found : Builtin.find? state.lookahead.text with
    | none => exact yields_literal state
    | some builtin =>
        apply yieldsAt_advance
        apply yields_bind (yields_commandAfter inside found)
        intro command commandFits
        exact yields_pure commandFits
  · exact yields_literal state

theorem yields_primaryOver {inner : Parser Expr} (inside : Yields supply Fitting inner) :
    Yields supply Fitting (primaryOver inner) := by
  apply yields_get
  intro state _
  split
  · apply yields_discard (yields_eat _)
    apply yields_bind (yields_nested (yields_expressionOver inside))
    intro value valueFits
    exact yields_discard (yields_eat _) (yields_pure valueFits)
  · exact yields_unary inside (yields_expressionOver inside)

theorem yields_primaryWithin (levels : Nat) : Yields supply Fitting (primaryWithin levels) := by
  induction levels with
  | zero => exact yields_reject _
  | succ levels ih => exact yields_primaryOver ih

theorem yields_expression : Yields supply Fitting expression :=
  yields_expressionOver (yields_primaryWithin _)

/-! ## Lines -/

theorem yields_assign (name : Token) {value : Expr} (valueFits : value.fits = true) :
    Yields supply FittingCommand (assign name value) := by
  apply yields_bind (yields_spanFrom _)
  intro span _
  exact yields_pure (by simp [FittingCommand, Command.fits, Action.goesBy, Action.takes,
    Argument.allFit, Argument.fits, valueFits])

theorem evaluate_fits {name : String} {value : Expr} (valueFits : value.fits = true)
    (span : Span) :
    FittingCommand { name, action := .evaluate, parameters := [.expression value], span } := by
  simp [FittingCommand, Command.fits, Action.goesBy, Action.takes, Argument.allFit, Argument.fits,
    valueFits]

section Names

variable {name : Token} (known : Known supply name)
include known

theorem yields_combination : Yields supply FittingCommand (combination name) := by
  apply yields_bind yields_binaryOperator
  intro operator _
  apply yields_get
  intro state _
  split
  · apply yields_discard yields_advance
    exact yields_bind yields_expression fun value valueFits => yields_assign name valueFits
  · exact yields_throw known ⟨rfl, rfl⟩

theorem yields_assignment : Yields supply FittingCommand (assignment name) := by
  apply yields_get
  intro state _
  simp only
  split
  · apply yields_discard yields_advance
    apply yields_get
    intro after _
    split
    · exact yields_assign name rfl
    · exact yields_bind yields_expression fun value valueFits => yields_assign name valueFits
  · split
    · apply yields_bind yields_unaryOperator
      intro operator _
      apply yields_get
      intro after _
      split
      · apply yields_bind (yields_spanFrom _)
        intro span _
        exact yields_pure (evaluate_fits (by simp [Expr.fits, Expr.isVariable]) span)
      · exact yields_throw known ⟨rfl, rfl⟩
    · exact yields_throw known ⟨rfl, rfl⟩
  · exact yields_combination known
  · exact yields_combination known
  · exact yields_combination known
  · exact yields_throw known ⟨rfl, rfl⟩

end Names

theorem yields_statement : Yields supply FittingCommand statement := by
  apply yields_get
  intro state draws
  simp only
  split
  · apply yields_bind yields_advance
    intro name known
    cases found : Builtin.find? name.text with
    | some builtin => exact yields_commandAfter yields_expression found
    | none => exact yields_assignment known
  · apply yields_discard yields_advance
    exact yields_bind (yields_eat _) fun name known => yields_assignment known
  · split
    · apply yields_bind (yields_unary (yields_primaryWithin _) yields_expression)
      intro step stepFits
      apply yields_bind (yields_spanFrom _)
      intro span _
      exact yields_pure (evaluate_fits stepFits span)
    · exact yields_throw draws.lookahead ⟨rfl, rfl⟩
  · exact yields_reject _
  · exact yields_reject _
  · exact yields_throw draws.lookahead ⟨rfl, rfl⟩

def FittingCommands (commands : List Command) : Prop :=
  ∀ command ∈ commands, command.fits = true

theorem yields_furtherStatement {commands : List Command} (fit : FittingCommands commands) :
    Yields supply FittingCommands (furtherStatement commands) := by
  apply yields_discard yields_advance
  apply yields_get
  intro state _
  split
  · apply yields_discard yields_advance
    have warned : Yields supply Any (warn .noFilesystem) := fun _ draws =>
      ⟨trivial, { draws with }⟩
    apply yields_bind warned
    intro _ _
    exact yields_bind yields_expectTerminator fun _ _ => yields_pure fit
  · apply yields_bind yields_statement
    intro command commandFits
    apply yields_bind yields_expectTerminator
    intro _ _
    exact yields_pure (List.forall_mem_cons.mpr ⟨commandFits, fit⟩)

/-- All commands of a line fit. -/
theorem yields_line : Yields supply FittingCommands line := by
  apply yields_bind yields_statement
  intro first firstFits
  apply yields_bind yields_expectTerminator
  intro _ _
  have single : FittingCommands [first] := List.forall_mem_singleton.mpr firstFits
  apply yields_bind (yields_repeatWhile (fun _ fit => yields_furtherStatement fit) single)
  intro commands fit
  apply yields_discard (yields_eat _)
  apply yields_pure
  intro command member
  exact fit command (List.mem_reverse.mp member)

/-- What stops the reading of a line is found in its text. -/
theorem isTextual_of_read {cursor : Token.Cursor} {fault : Fault}
    (failed : cursor.read.fault = some fault) : fault.isTextual = true := by
  induction cursor using Token.Cursor.read_induction with
  | atFault cursor found unknown =>
      rw [Token.Cursor.read_of_fault unknown] at failed
      cases failed
      rcases Token.Cursor.unknown_of_ahead unknown with ⟨_, _, rfl⟩
      rfl
  | atEnd cursor length ahead =>
      rw [Token.Cursor.read_of_end ahead] at failed
      cases failed
  | atToken cursor kind length ahead going ih =>
      rw [Token.Cursor.read_of_token ahead going] at failed
      exact ih failed

theorem start_isTextual (line : String) :
    (∀ state, start line = .ok state -> ∀ fault, state.fault? = some fault ->
        fault.isTextual = true)
      ∧ ∀ fault, start line = .error fault -> fault.isTextual = true := by
  have failing : ∀ fault, (Token.Cursor.start line).read.fault = some fault ->
      fault.isTextual = true := fun _ => isTextual_of_read
  rw [start]
  generalize (Token.Cursor.start line).read = reading at failing ⊢
  rcases reading with ⟨tokens, cursor, fault?⟩
  rcases tokens with _ | ⟨lookahead, upcoming⟩
  · rcases fault? with _ | fault
    · apply outcomes_of_error
      rfl
    · apply outcomes_of_error
      exact failing fault rfl
  · apply outcomes_of_ok
    exact failing

/-- A fault that lies in a supply is found in the text, if the one that the tokens
end with is. -/
theorem Supply.Holds.isTextual {fault : Fault} (held : supply.Holds fault)
    (textual : ∀ fault, supply.fault? = some fault -> fault.isTextual = true) :
    fault.isTextual = true := by
  rcases held with ended | ⟨token, _, causes⟩
  · exact textual fault ended
  · cases fault with
    | grammatical | unknownCommand => rfl
    | lexical | execution => cases causes

end Parser

namespace Command

/-- The commands of a line fit their handlers, and a line that is rejected is
rejected for its text. -/
theorem parseLine_fits (line : String) :
    (∀ commands, parseLine line = .ok commands -> ∀ command ∈ commands, command.fits = true)
      ∧ ∀ fault, parseLine line = .error fault -> fault.isTextual = true := by
  rcases Parser.start_isTextual line with ⟨onState, onFault⟩
  cases begun : Parser.start line with
  | error fault =>
      rw [parseLine_of_fault begun]
      apply outcomes_of_error
      exact onFault fault begun
  | ok state =>
      have yielded := Parser.yields_line state state.draws_supply
      cases ran : Parser.line state with
      | ok commands after =>
          rw [ran] at yielded
          rw [parseLine_of_ok begun ran]
          apply outcomes_of_ok
          exact yielded.1
      | error fault after =>
          rw [ran] at yielded
          rw [parseLine_of_error begun ran]
          apply outcomes_of_error
          exact Parser.Supply.Holds.isTextual yielded (onState state begun)

end Command
end LineShell
