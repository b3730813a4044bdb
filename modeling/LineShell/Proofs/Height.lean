import LineShell.Proofs.Parsing

namespace LineShell

/-!
# How high an expression can be

The levels that a line may enter bound the height of what is read from it, and
with it how deep evaluation goes.  The bound is not the number of levels.  A
chain of operators gives its levels back when it ends, and its first operand
was read before the chain took any; so on top of an operand that has used up
all levels, each of the three kinds of chain can grow as high again as there are
levels.  With `room` levels left, an expression is thus at most `3 * room`
higher than a primary expression can be.
-/

open Steps

/-! ## Height -/

mutual

/-- The height of an expression.  What is read without looking inside has
height one. -/
def Expr.height : Expr -> Nat
  | .number _ | .text _ | .word _ | .boolean _ | .var _ => 1
  | .binary _ left right => max left.height right.height + 1
  | .unary _ _ operand => operand.height + 1
  | .call command => command.height + 1
  | .array items => Expr.highest items + 1

/-- The height of the highest expression, or zero if there is none. -/
def Expr.highest : List Expr -> Nat
  | [] => 0
  | item :: items => max item.height (Expr.highest items)

/-- The height of the expression in an argument, or zero if there is none. -/
def Argument.height : Argument -> Nat
  | .expression value => value.height
  | .word _ | .text _ | .path _ | .flag _ => 0

def Argument.highest : List Argument -> Nat
  | [] => 0
  | argument :: arguments => max argument.height (Argument.highest arguments)

/-- The height of the highest expression among the arguments of a command. -/
def Command.height : Command -> Nat
  | { name := _, action := _, parameters, span := _ } => Argument.highest parameters

end

mutual

/-- An expression and all the expressions inside it. -/
def Expr.parts : Expr -> List Expr
  | .number value => [.number value]
  | .text value => [.text value]
  | .word text => [.word text]
  | .boolean value => [.boolean value]
  | .var name => [.var name]
  | .binary operator left right => .binary operator left right :: (left.parts ++ right.parts)
  | .unary operator placement operand => .unary operator placement operand :: operand.parts
  | .call command => .call command :: command.expressions
  | .array items => .array items :: Expr.partsOf items

/-- The expressions of a list and all the expressions inside them. -/
def Expr.partsOf : List Expr -> List Expr
  | [] => []
  | item :: items => item.parts ++ Expr.partsOf items

def Argument.expressions : Argument -> List Expr
  | .expression value => value.parts
  | .word _ | .text _ | .path _ | .flag _ => []

def Argument.allExpressions : List Argument -> List Expr
  | [] => []
  | argument :: arguments => argument.expressions ++ Argument.allExpressions arguments

/-- All expressions that occur in a command. -/
def Command.expressions : Command -> List Expr
  | { name := _, action := _, parameters, span := _ } => Argument.allExpressions parameters

end

mutual

theorem Expr.height_le_of_mem_parts {part : Expr} :
    (whole : Expr) -> part ∈ whole.parts -> part.height ≤ whole.height
  | .number _, member | .text _, member | .word _, member | .boolean _, member
  | .var _, member => by
      rw [Expr.parts, List.mem_singleton] at member
      exact Nat.le_of_eq (congrArg Expr.height member)
  | .binary _ left right, member => by
      rw [Expr.parts, List.mem_cons, List.mem_append] at member
      rcases member with rfl | inLeft | inRight
      · exact Nat.le_refl _
      · have below := Expr.height_le_of_mem_parts left inLeft
        rw [Expr.height]
        omega
      · have below := Expr.height_le_of_mem_parts right inRight
        rw [Expr.height]
        omega
  | .unary _ _ operand, member => by
      rw [Expr.parts, List.mem_cons] at member
      rcases member with rfl | inside
      · exact Nat.le_refl _
      · have below := Expr.height_le_of_mem_parts operand inside
        rw [Expr.height]
        omega
  | .call command, member => by
      rw [Expr.parts, List.mem_cons] at member
      rcases member with rfl | inside
      · exact Nat.le_refl _
      · have below := Command.height_le_of_mem_expressions command inside
        rw [Expr.height]
        omega
  | .array items, member => by
      rw [Expr.parts, List.mem_cons] at member
      rcases member with rfl | inside
      · exact Nat.le_refl _
      · have below := Expr.height_le_of_mem_partsOf items inside
        rw [Expr.height]
        omega

theorem Expr.height_le_of_mem_partsOf {part : Expr} :
    (items : List Expr) -> part ∈ Expr.partsOf items -> part.height ≤ Expr.highest items
  | [], member => by cases member
  | item :: items, member => by
      rw [Expr.partsOf, List.mem_append] at member
      rw [Expr.highest]
      rcases member with first | others
      · exact Nat.le_trans (Expr.height_le_of_mem_parts item first) (Nat.le_max_left _ _)
      · exact Nat.le_trans (Expr.height_le_of_mem_partsOf items others) (Nat.le_max_right _ _)

theorem Argument.height_le_of_mem_expressions {part : Expr} :
    (argument : Argument) -> part ∈ argument.expressions -> part.height ≤ argument.height
  | .expression value, member => Expr.height_le_of_mem_parts value member
  | .word _, member | .text _, member | .path _, member | .flag _, member => by cases member

theorem Argument.height_le_of_mem_allExpressions {part : Expr} :
    (arguments : List Argument) -> part ∈ Argument.allExpressions arguments ->
      part.height ≤ Argument.highest arguments
  | [], member => by cases member
  | argument :: arguments, member => by
      rw [Argument.allExpressions, List.mem_append] at member
      rw [Argument.highest]
      rcases member with first | others
      · exact Nat.le_trans (Argument.height_le_of_mem_expressions argument first)
          (Nat.le_max_left _ _)
      · exact Nat.le_trans (Argument.height_le_of_mem_allExpressions arguments others)
          (Nat.le_max_right _ _)

/-- No expression in a command is higher than its highest argument. -/
theorem Command.height_le_of_mem_expressions {part : Expr} :
    (command : Command) -> part ∈ command.expressions -> part.height ≤ command.height
  | { name := _, action := _, parameters, span := _ }, member =>
      Argument.height_le_of_mem_allExpressions parameters member

end

theorem Expr.highest_le_iff (items : List Expr) (bound : Nat) :
    Expr.highest items ≤ bound ↔ ∀ item ∈ items, item.height ≤ bound := by
  induction items with
  | nil => simp [Expr.highest]
  | cons item items ih => rw [Expr.highest, Nat.max_le, ih, List.forall_mem_cons]

/-! ## Levels that are left -/

namespace Parser

variable {α β : Type} {meets : α -> Prop} {meetsNext : β -> Prop} {room : Nat}

/-- With the given number of levels left, a parser comes to values of the given
sort only, and leaves every level that it has entered. -/
def Builds (room : Nat) (meets : α -> Prop) (step : Parser α) : Prop :=
  ∀ state : State, state.depth + room = maxDepth ->
    Ensures (fun value after => meets value ∧ after.depth = state.depth) (fun _ _ => True)
      (step state)

theorem builds_pure {value : α} (met : meets value) : Builds room meets (pure value) :=
  fun _ _ => ⟨met, rfl⟩

theorem builds_throw (fault : Fault) : Builds room meets (throw fault) :=
  fun _ _ => trivial

theorem builds_reject (misfit : Misfit) : Builds room meets (reject misfit) :=
  fun _ _ => trivial

theorem builds_bind {step : Parser α} {next : α -> Parser β} (first : Builds room meets step)
    (second : ∀ value, meets value -> Builds room meetsNext (next value)) :
    Builds room meetsNext (step >>= next) := by
  intro state left
  apply (first state left).bind
  rintro value after ⟨met, same⟩
  rw [← same] at left ⊢
  exact second value met after left

theorem builds_get {next : State -> Parser β}
    (second : ∀ state, Builds room meetsNext (next state)) :
    Builds room meetsNext (get >>= next) :=
  fun state => second state state

theorem builds_discard {step : Parser α} {next : Unit -> Parser β}
    (first : Builds room meets step) (second : Builds room meetsNext (next ())) :
    Builds room meetsNext (discard step >>= next) := by
  intro state left
  rw [discard_bind]
  exact builds_bind first (fun _ _ => second) state left

theorem builds_mono {step : Parser α} {weaker : α -> Prop} (first : Builds room meets step)
    (weakens : ∀ value, meets value -> weaker value) : Builds room weaker step := by
  intro state left
  apply (first state left).mono
  · rintro value after ⟨met, same⟩
    exact ⟨weakens value met, same⟩
  · intro _ _ _
    trivial

/-- Eating a token enters no level. -/
theorem builds_advance : Builds room (fun _ => True) advance := by
  intro state _
  cases upcoming : state.upcoming with
  | cons following others =>
      rw [advance_of_upcoming upcoming]
      exact ⟨trivial, rfl⟩
  | nil =>
      cases ending : state.fault? with
      | none =>
          rw [advance_of_end upcoming ending]
          exact ⟨trivial, rfl⟩
      | some fault =>
          rw [advance_of_fault upcoming ending]
          trivial

theorem builds_eatAny (kinds : List Token.Kind) : Builds room (fun _ => True) (eatAny kinds) := by
  intro state left
  by_cases wanted : state.lookahead.kind ∈ kinds
  · rw [eatAny_of_mem wanted]
    exact builds_advance state left
  · cases ends : state.lookahead.kind.isTerminator with
    | true =>
        rw [eatAny_of_terminator wanted ends]
        trivial
    | false =>
        rw [eatAny_of_other wanted ends]
        trivial

theorem builds_eat (kind : Token.Kind) : Builds room (fun _ => True) (eat kind) :=
  builds_eatAny [kind]

/-- Where a level is entered, one must be left, and there is one less inside. -/
theorem builds_nested {inner : Parser α}
    (inside : ∀ less, room = less + 1 -> Builds less meets inner) :
    Builds room meets (nested inner) := by
  intro state left
  by_cases fits : state.depth + 1 ≤ maxDepth
  · rw [nested, bind_of_ok (enter_of_le fits)]
    obtain ⟨less, rfl⟩ : ∃ less, room = less + 1 := ⟨room - 1, by omega⟩
    have entered : state.depth + 1 + less = maxDepth := by omega
    apply (inside less rfl { state with depth := state.depth + 1 } entered).bind
    rintro value after ⟨met, same⟩
    refine ⟨met, ?_⟩
    change after.depth - 1 = state.depth
    rw [same]
    exact Nat.add_sub_cancel _ _
  · rw [nested, bind_of_error (enter_of_lt (Nat.not_le.mp fits))]
    trivial

theorem builds_spanFrom (start : Nat) : Builds room (fun _ => True) (spanFrom start) :=
  builds_get fun _ => builds_pure trivial

theorem builds_repeatWhile {test : State -> Bool} {body : α -> Parser α}
    (round : ∀ value, meets value -> Builds room meets (body value)) {value : α}
    (met : meets value) : Builds room meets (repeatWhile test body value) := by
  intro state left
  apply repeatWhile_ensures
  · rintro value between _ ⟨met, same⟩
    rw [← same] at left ⊢
    exact round value met between left
  · exact ⟨met, rfl⟩

/-! ## Expressions -/

/-- The height of the highest primary expression that can be read with the given
number of levels left.  Without any it is a variable with a step behind it. -/
def tallest : Nat -> Nat
  | 0 => 2
  | room + 1 => tallest room + 3 * room + 1

theorem two_le_tallest (room : Nat) : 2 ≤ tallest room := by
  cases room with
  | zero => exact Nat.le_refl 2
  | succ room =>
      induction room with
      | zero => decide
      | succ room ih =>
          rw [tallest]
          omega

theorem tallest_le_succ (room : Nat) : tallest room ≤ tallest (room + 1) := by
  rw [tallest]
  omega

theorem tallest_mono {less room : Nat} (fewer : less ≤ room) : tallest less ≤ tallest room := by
  induction fewer with
  | refl => exact Nat.le_refl _
  | step _ ih => exact Nat.le_trans ih (tallest_le_succ _)

def Low (bound : Nat) (expression : Expr) : Prop :=
  expression.height ≤ bound

theorem builds_binaryOperator : Builds room (fun _ => True) binaryOperator := by
  apply builds_bind builds_advance
  intro token _
  cases BinaryOperator.ofSymbol? token.text with
  | none => exact builds_throw _
  | some operator => exact builds_pure trivial

theorem builds_unaryOperator : Builds room (fun _ => True) unaryOperator := by
  apply builds_bind (builds_eat _)
  intro token _
  cases UnaryOperator.ofSymbol? token.text with
  | none => exact builds_throw _
  | some operator => exact builds_pure trivial

theorem builds_variableName : Builds room (fun _ => True) variableName :=
  builds_discard (builds_eat _) (builds_bind (builds_eatAny _) fun _ _ => builds_pure trivial)

theorem builds_literal : Builds room (Low (tallest room)) literal := by
  have leaf := Nat.le_of_succ_le (two_le_tallest room)
  apply builds_get
  intro state
  simp only
  split
  · apply builds_discard builds_advance
    cases Number.parse? state.lookahead.text.toList with
    | none => exact builds_throw _
    | some value => exact builds_pure leaf
  · exact builds_bind builds_advance fun _ _ => builds_pure leaf
  · exact builds_bind builds_advance fun _ _ => builds_pure leaf
  · exact builds_bind builds_advance fun _ _ => builds_pure leaf
  · exact builds_reject _
  · exact builds_reject _
  · exact builds_reject _

section Chains

variable {operand : Parser Expr} {bound : Nat -> Nat}

/-- Where a chain stands: each of its operators has taken a level and has added
one to its height. -/
def Chained (room depth high : Nat) (chained : Expr × Nat) (state : State) : Prop :=
  chained.1.height ≤ high + chained.2 ∧ state.depth = depth + chained.2 ∧ chained.2 ≤ room

theorem chained_round (mono : ∀ {less room}, less ≤ room -> bound less ≤ bound room)
    (inside : ∀ room, Builds room (Low (bound room)) operand) {depth : Nat}
    (left : depth + room = maxDepth) (chained : Expr × Nat) (state : State)
    (stands : Chained room depth (bound room) chained state) :
    Ensures (Chained room depth (bound room)) (fun _ _ => True)
      (chainRound operand chained state) := by
  rcases chained with ⟨expression, levels⟩
  have low : expression.height ≤ bound room + levels := stands.1
  have deep : state.depth = depth + levels := stands.2.1
  have few : levels ≤ room := stands.2.2
  have here : state.depth + (room - levels) = maxDepth := by omega
  apply (builds_binaryOperator state here).bind
  rintro operator between ⟨-, same⟩
  by_cases fits : between.depth + 1 ≤ maxDepth
  · rw [bind_of_ok (enter_of_le fits)]
    have inner : between.depth + 1 + (room - (levels + 1)) = maxDepth := by omega
    apply (inside _ { between with depth := between.depth + 1 } inner).bind
    rintro right after ⟨rightLow, sameAfter⟩
    have lower := mono (Nat.sub_le room (levels + 1))
    refine ⟨?_, ?_, ?_⟩
    · change max expression.height right.height + 1 ≤ bound room + (levels + 1)
      have rightLow : right.height ≤ _ := rightLow
      omega
    · change after.depth = depth + (levels + 1)
      have sameAfter : after.depth = between.depth + 1 := sameAfter
      omega
    · change levels + 1 ≤ room
      omega
  · rw [bind_of_error (enter_of_lt (Nat.not_le.mp fits))]
    trivial

/-- A chain can be higher than its operands by the number of levels that are
left. -/
theorem builds_chain (mono : ∀ {less room}, less ≤ room -> bound less ≤ bound room)
    (inside : ∀ room, Builds room (Low (bound room)) operand) (level : Token.Kind) (room : Nat) :
    Builds room (Low (bound room + room)) (chain level operand) := by
  intro state left
  rw [chain_eq]
  have body : Ensures (Chained room state.depth (bound room)) (fun _ _ => True)
      (chainBody level operand state) := by
    apply (inside room state left).bind
    rintro first after ⟨low, same⟩
    apply repeatWhile_ensures
    · intro chained between _ stands
      exact chained_round mono inside left chained between stands
    · exact ⟨low, same, Nat.zero_le room⟩
  apply body.bind
  rintro ⟨expression, levels⟩ after ⟨low, deep, few⟩
  refine ⟨Nat.le_trans low (Nat.add_le_add_left few _), ?_⟩
  change after.depth - levels = state.depth
  rw [deep]
  exact Nat.add_sub_cancel _ _

end Chains

/-- The three chains on top of each other. -/
theorem builds_expressionOver {primary : Parser Expr}
    (inside : ∀ room, Builds room (Low (tallest room)) primary) (room : Nat) :
    Builds room (Low (tallest room + 3 * room)) (expressionOver primary) := by
  have bitwise := builds_chain tallest_mono inside .bitwise
  have multiplicative := builds_chain
    (fun fewer => Nat.add_le_add (tallest_mono fewer) fewer) bitwise .multiplicative
  have additive := builds_chain
    (fun fewer => Nat.add_le_add (Nat.add_le_add (tallest_mono fewer) fewer) fewer)
    multiplicative .additive room
  have three : tallest room + room + room + room = tallest room + 3 * room := by omega
  rw [three] at additive
  exact additive

theorem builds_array {expression : Parser Expr}
    (inside : ∀ less, room = less + 1 -> Builds less (Low (tallest less + 3 * less)) expression) :
    Builds room (Low (tallest room)) (array expression) := by
  rw [array_eq]
  apply builds_discard (builds_eat _)
  have inBrackets : Builds room (fun items => Expr.highest items + 1 ≤ tallest room)
      (nested (arrayLoop expression [])) := by
    apply builds_nested
    rintro less rfl
    apply builds_repeatWhile
    · intro items low
      apply builds_bind (inside less rfl)
      intro item itemLow
      have more : Expr.highest (item :: items) + 1 ≤ tallest (less + 1) := by
        have itemLow : item.height ≤ tallest less + 3 * less := itemLow
        rw [tallest] at low ⊢
        rw [Expr.highest]
        omega
      apply builds_get
      intro state
      split
      · exact builds_discard (builds_eat _) (builds_pure more)
      · exact builds_pure more
    · exact Nat.le_of_succ_le (two_le_tallest _)
  apply builds_bind inBrackets
  intro items low
  apply builds_discard (builds_eat _)
  apply builds_pure
  have reversed : Expr.highest items.reverse ≤ Expr.highest items := by
    rw [Expr.highest_le_iff]
    intro item member
    exact (Expr.highest_le_iff items _).mp (Nat.le_refl _) item (List.mem_reverse.mp member)
  exact Nat.le_trans (Nat.succ_le_succ reversed) low

/-! ## Commands -/

def LowArguments (bound : Nat) (arguments : List Argument) : Prop :=
  Argument.highest arguments ≤ bound

theorem builds_helpArguments : Builds room (LowArguments 0) helpArguments := by
  apply builds_get
  intro state
  split
  · apply builds_bind builds_advance
    intro name _
    split
    · exact builds_pure (Nat.le_refl 0)
    · exact builds_throw _
  · exact builds_pure (Nat.le_refl 0)

theorem builds_clearArguments : Builds room (LowArguments 0) clearArguments := by
  apply builds_get
  intro state
  split
  · apply builds_bind builds_advance
    intro dash _
    apply builds_bind (builds_eat _)
    intro flag _
    split
    · exact builds_pure (Nat.le_refl 0)
    · exact builds_throw _
  · exact builds_pure (Nat.le_refl 0)

theorem builds_userArguments : Builds room (LowArguments 0) userArguments :=
  builds_bind (builds_eatAny _) fun _ _ => builds_pure (Nat.le_refl 0)

theorem builds_stackVariable : Builds room (fun _ => True) stackVariable := by
  have name : Builds room (fun _ => True) (do return (← eat .word).text : Parser String) :=
    builds_bind (builds_eat _) fun _ _ => builds_pure trivial
  apply builds_get
  intro state
  split
  · exact builds_discard builds_advance name
  · exact name

theorem builds_stackArguments {expression : Parser Expr} {bound : Nat}
    (inside : Builds room (Low bound) expression) :
    Builds room (LowArguments bound) (stackArguments expression) := by
  apply builds_bind (builds_eat _)
  intro verb _
  split
  · apply builds_bind builds_stackVariable
    intro name _
    apply builds_bind inside
    intro value low
    have only : max value.height 0 ≤ bound := Nat.max_le.mpr ⟨low, Nat.zero_le bound⟩
    exact builds_pure (Nat.max_le.mpr ⟨Nat.zero_le bound, Nat.max_le.mpr ⟨Nat.zero_le bound, only⟩⟩)
  · split
    · apply builds_bind builds_stackVariable
      intro name _
      exact builds_pure (Nat.zero_le bound)
    · split
      · exact builds_pure (Nat.zero_le bound)
      · exact builds_throw _

theorem builds_cdArguments : Builds room (LowArguments 0) cdArguments := by
  have path : ∀ first : Token, Builds room (LowArguments 0)
      (do return [.path (← pathFrom first.text)] : Parser (List Argument)) := by
    intro first
    have pieces : Builds room (fun _ => True) (pathFrom first.text) := by
      apply builds_repeatWhile
      · intro path _
        exact builds_bind builds_advance fun _ _ => builds_pure trivial
      · trivial
    exact builds_bind pieces fun _ _ => builds_pure (Nat.le_refl 0)
  apply builds_get
  intro state
  simp only
  split
  · exact builds_pure (Nat.le_refl 0)
  · split
    · exact builds_bind builds_advance fun _ _ => builds_pure (Nat.le_refl 0)
    · split
      · exact builds_bind builds_advance fun first _ => path first
      · exact builds_bind (builds_eatAny _) fun first _ => path first

theorem builds_arguments {expression : Parser Expr} {bound : Nat}
    (inside : Builds room (Low bound) expression) (action : Action) :
    Builds room (LowArguments bound) (arguments expression action) := by
  have flat : ∀ {step : Parser (List Argument)}, Builds room (LowArguments 0) step ->
      Builds room (LowArguments bound) step :=
    fun low => builds_mono low fun _ low => Nat.le_trans low (Nat.zero_le bound)
  cases action <;> simp only [arguments]
  · exact flat builds_helpArguments
  · apply builds_bind inside
    intro value low
    exact builds_pure (Nat.max_le.mpr ⟨low, Nat.zero_le bound⟩)
  · exact flat builds_clearArguments
  · exact flat builds_userArguments
  · exact builds_stackArguments inside
  · exact builds_pure (Nat.zero_le bound)
  · exact flat builds_cdArguments
  · exact builds_pure (Nat.zero_le bound)
  · exact builds_pure (Nat.zero_le bound)
  · exact builds_pure (Nat.zero_le bound)
  · exact builds_pure (Nat.zero_le bound)
  · exact builds_pure (Nat.zero_le bound)

def LowCommand (bound : Nat) (command : Command) : Prop :=
  command.height ≤ bound

theorem builds_commandAfter {expression : Parser Expr} {bound : Nat}
    (inside : ∀ less, room = less + 1 -> Builds less (Low bound) expression)
    (builtin : Builtin) (name : Token) :
    Builds room (LowCommand bound) (commandAfter expression builtin name) := by
  apply builds_bind (builds_nested fun less one => builds_arguments (inside less one) _)
  intro parameters low
  apply builds_bind (builds_spanFrom _)
  intro span _
  exact builds_pure low

/-! ## Primary expressions -/

theorem builds_unary {primary expression : Parser Expr}
    (operand : ∀ less, room = less + 1 -> Builds less (Low (tallest less)) primary)
    (inside : ∀ less, room = less + 1 -> Builds less (Low (tallest less + 3 * less)) expression) :
    Builds room (Low (tallest room)) (unary primary expression) := by
  have operated : ∀ operator, Builds room (fun value => Low (tallest room)
      (.unary operator .before value)) (nested primary) := by
    intro operator
    apply builds_nested
    rintro less rfl
    apply builds_mono (operand less rfl)
    intro value low
    have low : value.height ≤ tallest less := low
    rw [Low, Expr.height, tallest]
    omega
  have stepped : ∀ operator placement name,
      Low (tallest room) (.unary operator placement (.var name)) :=
    fun _ _ _ => two_le_tallest room
  have called : ∀ builtin name, Builds room (LowCommand (tallest room - 1))
      (commandAfter expression builtin name) := by
    intro builtin name
    apply builds_commandAfter
    rintro less rfl
    exact inside less rfl
  apply builds_get
  intro state
  simp only
  split
  · apply builds_bind builds_unaryOperator
    intro operator _
    cases operator.isStep with
    | true =>
        have target : Builds room (fun value => Low (tallest room) (.unary operator .before value))
            (nested (do return .var (← variableName))) :=
          builds_nested fun _ _ => builds_bind builds_variableName fun name _ =>
            builds_pure (stepped operator .before name)
        exact builds_bind target fun _ low => builds_pure low
    | false => exact builds_bind (operated operator) fun _ low => builds_pure low
  · apply builds_bind builds_variableName
    intro name _
    apply builds_get
    intro after
    split
    · exact builds_bind builds_unaryOperator fun operator _ =>
        builds_pure (stepped operator .after name)
    · exact builds_pure (Nat.le_of_succ_le (two_le_tallest room))
  · exact builds_array inside
  · split
    · apply builds_discard builds_advance
      exact builds_bind (operated .negate) fun _ low => builds_pure low
    · exact builds_literal
  · split
    · apply builds_bind builds_advance
      intro name _
      apply builds_bind (called _ name)
      intro command low
      have low : command.height ≤ tallest room - 1 := low
      have tall := two_le_tallest room
      apply builds_pure
      rw [Low, Expr.height]
      omega
    · exact builds_literal
  · exact builds_literal

theorem builds_primaryOver {inner : Parser Expr}
    (inside : ∀ room, Builds room (Low (tallest room)) inner) (room : Nat) :
    Builds room (Low (tallest room)) (primaryOver inner) := by
  apply builds_get
  intro state
  split
  · apply builds_discard (builds_eat _)
    have parenthesized : Builds room (Low (tallest room)) (nested (expressionOver inner)) := by
      apply builds_nested
      rintro less rfl
      apply builds_mono (builds_expressionOver inside less)
      intro value low
      exact Nat.le_succ_of_le low
    apply builds_bind parenthesized
    intro value low
    exact builds_discard (builds_eat _) (builds_pure low)
  · exact builds_unary (fun less _ => inside less) fun less _ => builds_expressionOver inside less

theorem builds_primaryWithin (levels room : Nat) :
    Builds room (Low (tallest room)) (primaryWithin levels) := by
  induction levels generalizing room with
  | zero => exact builds_reject _
  | succ levels ih => exact builds_primaryOver ih room

theorem builds_expression (room : Nat) :
    Builds room (Low (tallest room + 3 * room)) expression :=
  builds_expressionOver (builds_primaryWithin _) room

/-! ## Lines -/

/-- The height of the highest expression that a line can hold, given the number
of levels that it may enter: an expression of full height, combined with the
variable that it is assigned to. -/
def heightLimit (room : Nat) : Nat :=
  tallest room + 3 * room + 1

theorem builds_assign (name : Token) {value : Expr} (low : value.height ≤ heightLimit room) :
    Builds room (LowCommand (heightLimit room)) (assign name value) := by
  apply builds_bind (builds_spanFrom _)
  intro span _
  exact builds_pure (Nat.max_le.mpr ⟨Nat.zero_le _, Nat.max_le.mpr ⟨low, Nat.zero_le _⟩⟩)

theorem two_le_heightLimit (room : Nat) : 2 ≤ heightLimit room :=
  Nat.le_trans (two_le_tallest room) (by rw [heightLimit]; omega)

theorem lowCommand_evaluate {name : String} {value : Expr} {bound : Nat}
    (low : value.height ≤ bound) (span : Span) :
    LowCommand bound { name, action := .evaluate, parameters := [.expression value], span } :=
  Nat.max_le.mpr ⟨low, Nat.zero_le bound⟩

theorem builds_combination (name : Token) :
    Builds room (LowCommand (heightLimit room)) (combination name) := by
  apply builds_bind builds_binaryOperator
  intro operator _
  apply builds_get
  intro state
  split
  · apply builds_discard builds_advance
    apply builds_bind (builds_expression room)
    intro value low
    apply builds_assign
    have low : value.height ≤ tallest room + 3 * room := low
    have tall := two_le_tallest room
    simp only [Expr.height, heightLimit]
    omega
  · exact builds_throw _

theorem builds_assignment (name : Token) :
    Builds room (LowCommand (heightLimit room)) (assignment name) := by
  apply builds_get
  intro state
  simp only
  split
  · apply builds_discard builds_advance
    apply builds_get
    intro after
    split
    · exact builds_assign name (Nat.le_of_succ_le (two_le_heightLimit room))
    · exact builds_bind (builds_expression room) fun value low =>
        builds_assign name (Nat.le_succ_of_le low)
  · split
    · apply builds_bind builds_unaryOperator
      intro operator _
      apply builds_get
      intro after
      split
      · apply builds_bind (builds_spanFrom _)
        intro span _
        exact builds_pure (lowCommand_evaluate (two_le_heightLimit room) span)
      · exact builds_throw _
    · exact builds_throw _
  · exact builds_combination name
  · exact builds_combination name
  · exact builds_combination name
  · exact builds_throw _

theorem builds_statement : Builds room (LowCommand (heightLimit room)) statement := by
  have named : ∀ builtin name, Builds room (LowCommand (heightLimit room))
      (commandAfter expression builtin name) := by
    intro builtin name
    apply builds_commandAfter
    rintro less rfl
    apply builds_mono (builds_expression less)
    intro value low
    have low : value.height ≤ tallest less + 3 * less := low
    rw [Low, heightLimit, tallest]
    omega
  apply builds_get
  intro state
  simp only
  split
  · apply builds_bind builds_advance
    intro name _
    split
    · exact named _ name
    · exact builds_assignment name
  · apply builds_discard builds_advance
    exact builds_bind (builds_eat _) fun name _ => builds_assignment name
  · split
    · apply builds_bind (builds_unary (fun less _ => builds_primaryWithin _ less)
        fun less _ => builds_expression less)
      intro step low
      apply builds_bind (builds_spanFrom _)
      intro span _
      have low : step.height ≤ heightLimit room := Nat.le_trans low (by rw [heightLimit]; omega)
      exact builds_pure (lowCommand_evaluate low span)
    · exact builds_throw _
  · exact builds_reject _
  · exact builds_reject _
  · exact builds_throw _

theorem builds_expectTerminator : Builds room (fun _ => True) expectTerminator := by
  intro state _
  rw [expectTerminator]
  split
  · exact ⟨trivial, rfl⟩
  · trivial

def LowCommands (bound : Nat) (commands : List Command) : Prop :=
  ∀ command ∈ commands, command.height ≤ bound

theorem builds_furtherStatement {commands : List Command}
    (low : LowCommands (heightLimit room) commands) :
    Builds room (LowCommands (heightLimit room)) (furtherStatement commands) := by
  apply builds_discard builds_advance
  apply builds_get
  intro state
  split
  · apply builds_discard builds_advance
    have warned : Builds room (fun _ => True) (warn .noFilesystem) := fun _ _ => ⟨trivial, rfl⟩
    apply builds_bind warned
    intro _ _
    exact builds_bind builds_expectTerminator fun _ _ => builds_pure low
  · apply builds_bind builds_statement
    intro command commandLow
    apply builds_bind builds_expectTerminator
    intro _ _
    exact builds_pure (List.forall_mem_cons.mpr ⟨commandLow, low⟩)

theorem builds_line : Builds room (LowCommands (heightLimit room)) line := by
  apply builds_bind builds_statement
  intro first low
  apply builds_bind builds_expectTerminator
  intro _ _
  have single : LowCommands (heightLimit room) [first] := List.forall_mem_singleton.mpr low
  apply builds_bind (builds_repeatWhile (fun _ low => builds_furtherStatement low) single)
  intro commands low
  apply builds_discard (builds_eat _)
  apply builds_pure
  intro command member
  exact low command (List.mem_reverse.mp member)

end Parser

namespace Command

theorem depth_of_start {line : String} {state : Parser.State}
    (begun : Parser.start line = .ok state) : state.depth = 0 := by
  rw [Parser.start] at begun
  split at begun
  · cases begun
    rfl
  · cases begun
  · cases begun

/-- No expression that is read from a line is higher than the limit. -/
theorem height_le_heightLimit {line : String} {commands : List Command}
    (parsed : parseLine line = .ok commands) {command : Command} (member : command ∈ commands)
    {expression : Expr} (occurs : expression ∈ command.expressions) :
    expression.height ≤ Parser.heightLimit Parser.maxDepth := by
  cases begun : Parser.start line with
  | error fault =>
      rw [parseLine_of_fault begun] at parsed
      cases parsed
  | ok state =>
      have ran := Parser.builds_line state (by rw [depth_of_start begun, Nat.zero_add])
      cases result : Parser.line state with
      | error fault after =>
          rw [parseLine_of_error begun result] at parsed
          cases parsed
      | ok found after =>
          rw [parseLine_of_ok begun result] at parsed
          cases parsed
          rw [result] at ran
          have low := ran.1 command member
          exact Nat.le_trans (command.height_le_of_mem_expressions occurs) low

end Command
end LineShell
