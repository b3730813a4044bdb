import LineShell.Proofs.Refusals
import LineShell.Proofs.Regularity

namespace LineShell

/-!
# How deep calls may be nested

A call takes a level while its command is carried out, and is refused if there
is none left.  Which levels an expression needs can be read off it: the calls
that are evaluated inside each other are counted, and these are not all calls
that stand in it, as a command made by hand may have arguments that its handler
never looks at.  The levels that are needed decide about the outcome.  With
fewer an expression cannot come to a value, and with as many it may fail, but
not for want of a level.

What the parser reads has no arguments that are not looked at.  For such an
expression the levels needed are the deepest nesting of its calls.
-/

open Steps

/-! ## Nesting -/

mutual

/-- The largest number of calls that stand inside each other in an expression. -/
def Expr.nesting : Expr -> Nat
  | .number _ | .text _ | .word _ | .boolean _ | .var _ => 0
  | .binary _ left right => max left.nesting right.nesting
  | .unary _ _ operand => operand.nesting
  | .call command => command.nesting + 1
  | .array items => Expr.deepest items

def Expr.deepest : List Expr -> Nat
  | [] => 0
  | item :: items => max item.nesting (Expr.deepest items)

def Argument.nesting : Argument -> Nat
  | .expression value => value.nesting
  | .word _ | .text _ | .path _ | .flag _ => 0

def Argument.deepest : List Argument -> Nat
  | [] => 0
  | argument :: arguments => max argument.nesting (Argument.deepest arguments)

/-- The deepest nesting in the arguments of a command. -/
def Command.nesting : Command -> Nat
  | { name := _, action := _, parameters, span := _ } => Argument.deepest parameters

end

/-! ## The calls that are evaluated -/

mutual

/-- The levels that the evaluation of an expression needs. -/
def Expr.levels : Expr -> Nat
  | .number _ | .text _ | .word _ | .boolean _ | .var _ => 0
  | .binary _ left right => max left.levels right.levels
  | .unary operator _ operand => if operator.isStep then 0 else operand.levels
  | .call command => command.levels + 1
  | .array items => Expr.allLevels items

def Expr.allLevels : List Expr -> Nat
  | [] => 0
  | item :: items => max item.levels (Expr.allLevels items)

/-- The levels that the argument after `skip` others needs. -/
def Argument.levelsAt (skip : Nat) : List Argument -> Nat
  | [] => 0
  | argument :: arguments =>
      match skip with
      | 0 =>
          match argument with
          | .expression value => value.levels
          | _ => 0
      | skip + 1 => Argument.levelsAt skip arguments

/-- The levels that a command needs for the argument that its handler
evaluates, if any. -/
def Command.levels : Command -> Nat
  | { name := _, action, parameters, span := _ } =>
      match action with
      | .echo | .evaluate => Argument.levelsAt 0 parameters
      | .assign => Argument.levelsAt 1 parameters
      | .stack =>
          if Command.text? parameters 0 = some "set" then Argument.levelsAt 2 parameters else 0
      | .help | .clear | .user | .motd | .cd | .test | .confirm | .license => 0

end

mutual

/-- No more calls are evaluated inside each other than stand there. -/
theorem Expr.levels_le : (expression : Expr) -> expression.levels ≤ expression.nesting
  | .number _ | .text _ | .word _ | .boolean _ | .var _ => Nat.zero_le _
  | .binary _ left right => by
      have first := Expr.levels_le left
      have second := Expr.levels_le right
      rw [Expr.levels, Expr.nesting]
      omega
  | .unary operator _ operand => by
      have inside := Expr.levels_le operand
      rw [Expr.levels, Expr.nesting]
      split
      · exact Nat.zero_le _
      · exact inside
  | .call command => by
      rw [Expr.levels, Expr.nesting]
      exact Nat.succ_le_succ (Command.levels_le command)
  | .array items => by
      rw [Expr.levels, Expr.nesting]
      exact Expr.allLevels_le items

theorem Expr.allLevels_le : (items : List Expr) -> Expr.allLevels items ≤ Expr.deepest items
  | [] => Nat.zero_le _
  | item :: items => by
      have first := Expr.levels_le item
      have others := Expr.allLevels_le items
      rw [Expr.allLevels, Expr.deepest]
      omega

theorem Argument.levelsAt_le (skip : Nat) :
    (arguments : List Argument) -> Argument.levelsAt skip arguments ≤ Argument.deepest arguments
  | [] => Nat.zero_le _
  | argument :: arguments => by
      rw [Argument.deepest]
      cases skip with
      | zero =>
          cases argument with
          | expression value =>
              simp only [Argument.levelsAt, Argument.nesting]
              exact Nat.le_trans (Expr.levels_le value) (Nat.le_max_left _ _)
          | _ =>
              simp only [Argument.levelsAt]
              exact Nat.zero_le _
      | succ skip =>
          simp only [Argument.levelsAt]
          exact Nat.le_trans (Argument.levelsAt_le skip arguments) (Nat.le_max_right _ _)

theorem Command.levels_le : (command : Command) -> command.levels ≤ command.nesting
  | { name := _, action, parameters, span := _ } => by
      have evaluated := fun skip => Argument.levelsAt_le skip parameters
      simp only [Command.nesting]
      cases action <;> simp only [Command.levels]
      case echo => exact evaluated 0
      case evaluate => exact evaluated 0
      case assign => exact evaluated 1
      case stack =>
        split
        · exact evaluated 2
        · exact Nat.zero_le _
      all_goals exact Nat.zero_le _

end

/-! ## Commands that fit -/

/-- An action that evaluates no argument takes no expression. -/
theorem Action.deepest_of_takes {action : Action} {parameters : List Argument}
    (taken : action.takes parameters = true)
    (plain : action ∉ [.echo, .evaluate, .assign, .stack]) : Argument.deepest parameters = 0 := by
  unfold Action.takes at taken
  split at taken <;> simp_all [Argument.deepest, Argument.nesting]

mutual

/-- In an expression that fits, all calls are evaluated. -/
theorem Expr.levels_of_fits :
    (expression : Expr) -> expression.fits = true -> expression.levels = expression.nesting
  | .number _, _ | .text _, _ | .word _, _ | .boolean _, _ | .var _, _ => rfl
  | .binary _ left right, fits => by
      simp only [Expr.fits, Bool.and_eq_true] at fits
      rw [Expr.levels, Expr.nesting, Expr.levels_of_fits left fits.1,
        Expr.levels_of_fits right fits.2]
  | .unary operator _ operand, fits => by
      have inside := Expr.levels_of_fits operand
      rw [Expr.fits] at fits
      rw [Expr.levels, Expr.nesting]
      split
      · -- The operand of a step is not evaluated, but there is no call in a variable.
        rename_i steps
        rw [if_pos steps] at fits
        cases operand with
        | var name => rfl
        | _ => cases fits
      · rename_i plain
        rw [if_neg plain] at fits
        exact inside fits
  | .call command, fits => by
      rw [Expr.fits] at fits
      rw [Expr.levels, Expr.nesting, Command.levels_of_fits command fits]
  | .array items, fits => by
      rw [Expr.fits] at fits
      rw [Expr.levels, Expr.nesting, Expr.allLevels_of_fits items fits]

theorem Expr.allLevels_of_fits :
    (items : List Expr) -> Expr.allFit items = true -> Expr.allLevels items = Expr.deepest items
  | [], _ => rfl
  | item :: items, fits => by
      simp only [Expr.allFit, Bool.and_eq_true] at fits
      rw [Expr.allLevels, Expr.deepest, Expr.levels_of_fits item fits.1,
        Expr.allLevels_of_fits items fits.2]

theorem Argument.levelsAt_of_fits :
    (arguments : List Argument) -> Argument.allFit arguments = true ->
      ∀ skip value, arguments[skip]? = some (.expression value) ->
        Argument.levelsAt skip arguments = value.nesting
  | [], _, _, _, there => by cases there
  | argument :: arguments, fits, skip, value, there => by
      simp only [Argument.allFit, Bool.and_eq_true] at fits
      cases skip with
      | zero =>
          cases argument with
          | expression found =>
              have same : found = value := by simpa using there
              simp only [Argument.levelsAt]
              rw [← same]
              exact Expr.levels_of_fits found fits.1
          | _ => cases there
      | succ skip =>
          simp only [Argument.levelsAt]
          exact Argument.levelsAt_of_fits arguments fits.2 skip value there

theorem Command.levels_of_fits :
    (command : Command) -> command.fits = true -> command.levels = command.nesting
  | { name := _, action, parameters, span := _ }, fits => by
      simp only [Command.fits, Bool.and_eq_true] at fits
      rcases fits with ⟨⟨_, taken⟩, fit⟩
      have evaluated := Argument.levelsAt_of_fits parameters fit
      simp only [Command.nesting]
      cases action <;> simp only [Command.levels]
      case echo =>
        rcases SessionM.echo_of_takes taken with ⟨value, rfl⟩
        rw [evaluated 0 value rfl]
        simp [Argument.deepest, Argument.nesting]
      case evaluate =>
        rcases SessionM.evaluate_of_takes taken with ⟨value, rfl⟩
        rw [evaluated 0 value rfl]
        simp [Argument.deepest, Argument.nesting]
      case assign =>
        rcases SessionM.assign_of_takes taken with ⟨name, value, rfl⟩
        rw [evaluated 1 value rfl]
        simp [Argument.deepest, Argument.nesting]
      case stack =>
        rcases SessionM.stack_of_takes taken with ⟨name, value, rfl⟩ | ⟨name, rfl⟩ | rfl | rfl
        · rw [evaluated 2 value rfl]
          simp [Argument.deepest, Argument.nesting, Command.text?, Argument.text?]
        · rfl
        · rfl
        · rfl
      all_goals exact (Action.deepest_of_takes taken (by decide)).symm

end

mutual

theorem Expr.fits_of_mem_parts {part : Expr} :
    (whole : Expr) -> whole.fits = true -> part ∈ whole.parts -> part.fits = true
  | .number _, fits, member | .text _, fits, member | .word _, fits, member
  | .boolean _, fits, member | .var _, fits, member => by
      rw [Expr.parts, List.mem_singleton] at member
      rw [member]
      exact fits
  | .binary _ left right, fits, member => by
      rw [Expr.parts, List.mem_cons, List.mem_append] at member
      rcases member with rfl | inLeft | inRight
      · exact fits
      · simp only [Expr.fits, Bool.and_eq_true] at fits
        exact Expr.fits_of_mem_parts left fits.1 inLeft
      · simp only [Expr.fits, Bool.and_eq_true] at fits
        exact Expr.fits_of_mem_parts right fits.2 inRight
  | .unary operator _ operand, fits, member => by
      have inside : operand.fits = true -> part ∈ operand.parts -> part.fits = true :=
        Expr.fits_of_mem_parts operand
      rw [Expr.parts, List.mem_cons] at member
      rcases member with rfl | member
      · exact fits
      · rw [Expr.fits] at fits
        split at fits
        · cases operand with
          | var name => exact inside rfl member
          | _ => cases fits
        · exact inside fits member
  | .call command, fits, member => by
      rw [Expr.parts, List.mem_cons] at member
      rcases member with rfl | inside
      · exact fits
      · rw [Expr.fits] at fits
        exact Command.fits_of_mem_expressions command fits inside
  | .array items, fits, member => by
      rw [Expr.parts, List.mem_cons] at member
      rcases member with rfl | inside
      · exact fits
      · rw [Expr.fits] at fits
        exact Expr.fits_of_mem_partsOf items fits inside

theorem Expr.fits_of_mem_partsOf {part : Expr} :
    (items : List Expr) -> Expr.allFit items = true -> part ∈ Expr.partsOf items ->
      part.fits = true
  | [], _, member => by cases member
  | item :: items, fits, member => by
      simp only [Expr.allFit, Bool.and_eq_true] at fits
      rw [Expr.partsOf, List.mem_append] at member
      rcases member with first | others
      · exact Expr.fits_of_mem_parts item fits.1 first
      · exact Expr.fits_of_mem_partsOf items fits.2 others

theorem Argument.fits_of_mem_allExpressions {part : Expr} :
    (arguments : List Argument) -> Argument.allFit arguments = true ->
      part ∈ Argument.allExpressions arguments -> part.fits = true
  | [], _, member => by cases member
  | argument :: arguments, fits, member => by
      simp only [Argument.allFit, Bool.and_eq_true] at fits
      rw [Argument.allExpressions, List.mem_append] at member
      rcases member with first | others
      · cases argument with
        | expression value => exact Expr.fits_of_mem_parts value fits.1 first
        | _ => cases first
      · exact Argument.fits_of_mem_allExpressions arguments fits.2 others

/-- All that stands in a command that fits does. -/
theorem Command.fits_of_mem_expressions {part : Expr} :
    (command : Command) -> command.fits = true -> part ∈ command.expressions -> part.fits = true
  | { name := _, action := _, parameters, span := _ }, fits, member => by
      simp only [Command.fits, Bool.and_eq_true] at fits
      exact Argument.fits_of_mem_allExpressions parameters fits.2 member

end

/-- The expression was read by the parser: it stands in a command of a line, or
a line begins with it. -/
def Expr.IsRead (expression : Expr) : Prop :=
  (∃ line commands, Command.parseLine line = .ok commands
    ∧ ∃ command ∈ commands, expression ∈ command.expressions)
  ∨ ∃ line state after, Parser.start line = .ok state
    ∧ Parser.expression state = .ok expression after

theorem Expr.IsRead.fits {expression : Expr} (read : expression.IsRead) :
    expression.fits = true := by
  rcases read with ⟨line, commands, parsed, command, member, inside⟩ |
    ⟨line, state, after, begun, ran⟩
  · have fits := (Command.parseLine_fits line).1 commands parsed command member
    exact Command.fits_of_mem_expressions command fits inside
  · have yielded := Parser.yields_expression state state.draws_supply
    rw [ran] at yielded
    exact yielded.1

/-! ## Steps and the levels that they need -/

namespace SessionM

variable {α β : Type} {levels more : Nat} {script : Session -> Session}

/-- A step comes to a value only if the levels are there, and fails for want of
one only if they are not.  A value leaves as many levels as there were. -/
def Needs (levels : Nat) (step : SessionM α) : Prop :=
  ∀ session, session.callDepth ≤ maxCallDepth ->
    Ensures
      (fun _ after => session.callDepth + levels ≤ maxCallDepth
        ∧ after.callDepth = session.callDepth)
      (fun fault _ => session.callDepth + levels ≤ maxCallDepth ->
        fault ≠ .execution .callsTooDeep)
      (step session)

theorem needs_pure (value : α) : Needs 0 (pure value) :=
  fun _ within => ⟨within, rfl⟩

/-- A step that fails for another reason can be said to need anything. -/
theorem needs_throw {fault : Fault} (other : fault ≠ .execution .callsTooDeep) :
    Needs levels (throw fault : SessionM α) :=
  fun _ _ _ => other

theorem needs_modify {change : Session -> Session}
    (kept : ∀ session : Session, (change session).callDepth = session.callDepth) :
    Needs 0 (modify change) :=
  fun session within => ⟨within, kept session⟩

theorem needs_get {next : Session -> SessionM β}
    (second : ∀ session, Needs levels (next session)) : Needs levels (get >>= next) :=
  fun session => second session session

/-- A sequence needs what the more demanding of its steps needs. -/
theorem needs_bind {step : SessionM α} {next : α -> SessionM β} (first : Needs levels step)
    (second : ∀ value, Needs more (next value)) : Needs (max levels more) (step >>= next) := by
  intro session within
  have begun : Ensures
      (fun _ between => session.callDepth + levels ≤ maxCallDepth
        ∧ between.callDepth = session.callDepth)
      (fun fault _ => session.callDepth + max levels more ≤ maxCallDepth ->
        fault ≠ .execution .callsTooDeep) (step session) :=
    (first session within).mono (fun _ _ met => met) fun _ _ other enough => other (by omega)
  apply begun.bind
  rintro value between ⟨enough, same⟩
  apply (second value between (same ▸ within)).mono
  · rintro result after ⟨enoughAfter, sameAfter⟩
    rw [same] at enoughAfter sameAfter
    exact ⟨by omega, sameAfter⟩
  · intro fault _ other enoughForBoth
    rw [same] at other
    exact other (by omega)

theorem needs_then {step : SessionM α} {next : α -> SessionM β} (first : Needs levels step)
    (second : ∀ value, Needs 0 (next value)) : Needs levels (step >>= next) := by
  have both := needs_bind first second
  rwa [Nat.max_zero] at both

theorem needs_after {step : SessionM α} {next : α -> SessionM β} (first : Needs 0 step)
    (second : ∀ value, Needs levels (next value)) : Needs levels (step >>= next) := by
  have both := needs_bind first second
  rwa [Nat.zero_max] at both

theorem needs_forM {items : List α} {step : α -> SessionM Unit}
    (each : ∀ item, Needs 0 (step item)) : Needs 0 (items.forM step) := by
  induction items with
  | nil => exact needs_pure _
  | cons item items ih => exact needs_after (each item) fun _ => ih

/-- A call needs one level more than what is called. -/
theorem needs_calling {inner : SessionM α} (inside : Needs levels inner) :
    Needs (levels + 1) (calling inner) := by
  intro session within
  simp only [calling]
  split
  · -- The only place where a level can be wanting.
    rename_i full
    intro enough
    omega
  · rename_i room
    have ran := inside { session with callDepth := session.callDepth + 1 } (Nat.not_le.mp room)
    cases result : inner { session with callDepth := session.callDepth + 1 } with
    | ok value after =>
        rw [result] at ran
        rcases ran with ⟨enough, same⟩
        simp only at enough same
        refine ⟨by omega, ?_⟩
        simp only [same, Nat.add_sub_cancel]
    | error fault after =>
        rw [result] at ran
        intro enough
        exact ran (by simp only; omega)

/-! ## Handlers -/

theorem needs_emit (piping : Bool) (value : Value) : Needs 0 (emit piping value) := by
  cases piping with
  | true => exact needs_pure _
  | false => exact needs_after (needs_modify fun _ => rfl) fun _ => needs_pure _

theorem needs_store (name : String) (value : Value) : Needs 0 (store name value) :=
  needs_after (needs_modify fun _ => rfl) fun _ => needs_pure _

theorem needs_stepOperand (operator : UnaryOperator) (change : Int) (placement : Placement)
    (operand : Expr) : Needs 0 (stepOperand operator change placement operand) := by
  cases operand with
  | var name =>
      apply needs_get
      intro old session
      rw [discard_bind]
      refine needs_after (needs_store _ _) ?_ session
      intro _
      cases placement with
      | before => exact needs_pure _
      | after => exact needs_pure _
  | _ => exact needs_throw (by simp)

theorem needs_requiredText (parameters : List Argument) (index : Nat) :
    Needs 0 (requiredText parameters index) := by
  unfold requiredText
  split
  · exact needs_pure _
  · exact needs_throw (by simp)

theorem needs_help (piping : Bool) (parameters : List Argument) :
    Needs 0 (help piping parameters) := by
  unfold help
  split
  · exact needs_emit piping _
  · split
    · exact needs_emit piping _
    · exact needs_throw (by simp)

theorem needs_clear (parameters : List Argument) : Needs 0 (clear parameters) := by
  unfold clear
  apply needs_after
  · exact needs_modify fun _ => rfl
  intro _
  split
  · exact needs_after (needs_modify fun _ => rfl) fun _ => needs_pure _
  · exact needs_pure _

theorem needs_changeUser (parameters : List Argument) : Needs 0 (changeUser parameters) := by
  rw [changeUser]
  split
  · exact needs_throw (by simp)
  · apply needs_after
    · apply needs_modify
      intro session
      split
      · rfl
      · rfl
    · intro _
      exact needs_pure _

theorem needs_inspectVariables (piping : Bool) (parameters : List Argument) :
    Needs 0 (inspectVariables piping parameters) := by
  simp only [inspectVariables]
  split
  · apply needs_after (needs_requiredText parameters 1)
    intro name
    exact needs_get fun _ => needs_emit piping _
  · split
    · apply needs_get
      intro session
      cases piping with
      | true => exact needs_pure _
      | false =>
          apply needs_after
          · exact needs_forM fun _ => needs_modify fun _ => rfl
          · intro _
            exact needs_pure _
    · split
      · exact needs_after (needs_modify fun _ => rfl) fun _ => needs_pure _
      · exact needs_throw (by simp)

theorem needs_valueOf (command : String) (outcome : Outcome) :
    Needs 0 (valueOf command outcome) := by
  cases outcome with
  | value value => exact needs_pure _
  | ask question => exact needs_throw (by simp)

/-! ## Expressions and commands -/

mutual

/-- The evaluation of an expression needs its levels. -/
theorem needs_evaluateWith (harmless : Session.Harmless script) :
    (expression : Expr) -> Needs expression.levels (evaluateWith script expression)
  | .number _ | .text _ | .word _ | .boolean _ => by
      rw [evaluateWith]
      exact needs_pure _
  | .var name => by
      rw [evaluateWith]
      exact needs_get fun _ => needs_pure _
  | .binary operator left right => by
      rw [evaluateWith, Expr.levels]
      apply needs_bind (needs_evaluateWith harmless left)
      intro value
      exact needs_then (needs_evaluateWith harmless right) fun _ => needs_pure _
  | .unary operator placement operand => by
      have inside := needs_evaluateWith harmless operand
      cases operator <;> simp only [evaluateWith, Expr.levels]
      · exact needs_then inside fun _ => needs_pure _
      · exact needs_then inside fun _ => needs_pure _
      · exact needs_then inside fun _ => needs_pure _
      · exact needs_stepOperand _ _ placement operand
      · exact needs_stepOperand _ _ placement operand
  | .call command => by
      rw [evaluateWith, Expr.levels]
      apply needs_then (needs_calling (needs_executeWith harmless true command))
      intro outcome
      exact needs_valueOf _ outcome
  | .array items => by
      rw [evaluateWith, Expr.levels]
      exact needs_then (needs_evaluateAll harmless items) fun _ => needs_pure _

theorem needs_evaluateAll (harmless : Session.Harmless script) :
    (items : List Expr) -> Needs (Expr.allLevels items) (evaluateAll script items)
  | [] => by
      rw [evaluateAll]
      exact needs_pure _
  | item :: items => by
      rw [evaluateAll, Expr.allLevels]
      apply needs_bind (needs_evaluateWith harmless item)
      intro value
      exact needs_then (needs_evaluateAll harmless items) fun _ => needs_pure _

theorem needs_evaluateArgument (harmless : Session.Harmless script) (position skip : Nat) :
    (arguments : List Argument) ->
      Needs (Argument.levelsAt skip arguments) (evaluateArgument script position skip arguments)
  | [] => by
      rw [evaluateArgument]
      exact needs_throw (by simp)
  | argument :: arguments => by
      cases skip with
      | zero =>
          cases argument with
          | expression value =>
              simp only [evaluateArgument, Argument.levelsAt]
              exact needs_evaluateWith harmless value
          | _ =>
              simp only [evaluateArgument]
              exact needs_throw (by simp)
      | succ skip =>
          simp only [evaluateArgument, Argument.levelsAt]
          exact needs_evaluateArgument harmless position skip arguments

theorem needs_executeWith (harmless : Session.Harmless script) (piping : Bool) :
    (command : Command) -> Needs command.levels (executeWith script piping command)
  | { name := _, action, parameters, span := _ } => by
      have evaluated := fun position skip =>
        needs_evaluateArgument harmless position skip parameters
      cases action <;> simp only [executeWith, Command.levels]
      · exact needs_help piping parameters
      · exact needs_then (evaluated 1 0) fun value => needs_emit piping value
      · exact needs_clear parameters
      · exact needs_changeUser parameters
      · split
        · apply needs_after (needs_requiredText parameters 1)
          intro name
          exact needs_then (evaluated 3 2) fun value => needs_store name value
        · exact needs_inspectVariables piping parameters
      · exact needs_get fun _ => needs_emit piping _
      · exact needs_after (needs_modify fun _ => rfl) fun _ =>
          needs_get fun _ => needs_pure _
      · exact needs_after (needs_modify fun session => (harmless session).callDepth_eq) fun _ =>
          needs_pure _
      · exact needs_pure _
      · exact needs_pure _
      · apply needs_after (needs_requiredText parameters 0)
        intro name
        exact needs_then (evaluated 2 1) fun value => needs_store name value
      · exact needs_then (evaluated 1 0) fun _ => needs_pure _

end

end SessionM

/-! ## The wording of the refusal -/

theorem Refusal.message_ne_callsTooDeep {refusal : Refusal} (other : refusal ≠ .callsTooDeep) :
    refusal.message ≠ "Nested commands are too deep" := by
  cases refusal with
  | missingArgument position =>
      apply ne_of_prefix (prefix_append (List.prefix_refl _) _)
      decide
  | notAnExpression position =>
      apply ne_of_prefix (prefix_append (prefix_append (List.prefix_refl _) _) _)
      decide
  | stepNeedsVariable symbol =>
      apply ne_of_prefix (prefix_append (prefix_append (List.prefix_refl _) _) _)
      decide
  | questionInExpression name =>
      apply ne_of_prefix (prefix_append (prefix_append (List.prefix_refl _) _) _)
      decide
  | callsTooDeep => exact absurd rfl other
  | _ => decide

namespace Session

/-- The levels that are left decide about an expression exactly.  If its calls
are not nested deeper than that, it does not fail for their depth; if they are
and it was read by the parser, it fails.  In every case all levels are given
back. -/
theorem evaluate_nesting_exact {session : Session}
    (within : session.callDepth ≤ SessionM.maxCallDepth) (expression : Expr) :
    (session.callDepth + expression.nesting ≤ SessionM.maxCallDepth ->
        ∀ refusal after,
          SessionM.evaluate expression session = .error (.execution refusal) after ->
          refusal.message ≠ "Nested commands are too deep")
      ∧ (expression.IsRead ->
          SessionM.maxCallDepth < session.callDepth + expression.nesting ->
          ∃ fault after, SessionM.evaluate expression session = .error fault after)
      ∧ (session.leftBy (SessionM.evaluate expression)).callDepth = session.callDepth := by
  have needs := SessionM.needs_evaluateWith harmless_runScript expression session within
  refine ⟨?_, ?_, ?_⟩
  · intro enough refusal after failed
    have notMore := expression.levels_le
    rw [← SessionM.evaluate, failed] at needs
    have other := needs (by omega)
    apply Refusal.message_ne_callsTooDeep
    intro same
    exact other (by rw [same])
  · intro read lacking
    rw [← expression.levels_of_fits read.fits] at lacking
    cases ran : SessionM.evaluate expression session with
    | ok value after =>
        rw [← SessionM.evaluate, ran] at needs
        exact absurd needs.1 (Nat.not_le.mpr lacking)
    | error fault after => exact ⟨fault, after, rfl⟩
  · have changes : session.Changes (session.leftBy (SessionM.evaluate expression)) :=
      leftBy_of_ensures (SessionM.confined_evaluate expression session)
    exact changes.callDepth_eq

/-- A call inside an array inside a call needs two levels, and so fails where only
one is left. -/
theorem evaluate_nesting_exact_array :
    let inner : Command := { name := "motd", action := .motd, parameters := [], span := ⟨8, 12⟩ }
    let outer : Command :=
      { name := "echo", action := .echo
        parameters := [.expression (.array [.call inner])], span := ⟨2, 13⟩ }
    let session := { start {} with callDepth := 63 }
    session.callDepth ≤ SessionM.maxCallDepth
      ∧ (Expr.call outer).IsRead
      ∧ SessionM.maxCallDepth < session.callDepth + (Expr.call outer).nesting
      ∧ (∃ fault after, SessionM.evaluate (.call outer) session = .error fault after)
      ∧ (session.leftBy (SessionM.evaluate (.call outer))).callDepth = 63
      ∧ session.callDepth + (Expr.call inner).nesting ≤ SessionM.maxCallDepth
      ∧ ∀ refusal after,
          SessionM.evaluate (.call inner) session = .error (.execution refusal) after ->
          refusal.message ≠ "Nested commands are too deep" := by
  intro inner outer session
  have within : session.callDepth ≤ SessionM.maxCallDepth := by decide
  have read : (Expr.call outer).IsRead := by
    let write : Command :=
      { name := "x", action := .assign
        parameters := [.word "x", .expression (.call outer)], span := ⟨0, 13⟩ }
    have parsed : Command.parseLine "x=echo [motd]" = .ok [write] := by
      dsimp only [write, outer, inner]
      with_unfolding_all rfl
    refine .inl ⟨_, _, parsed, write, List.mem_cons_self, ?_⟩
    simp [write, Command.expressions, Argument.allExpressions, Argument.expressions, Expr.parts]
  have lacking : SessionM.maxCallDepth < session.callDepth + (Expr.call outer).nesting := by decide
  have enough : session.callDepth + (Expr.call inner).nesting ≤ SessionM.maxCallDepth := by decide
  rcases evaluate_nesting_exact within (.call outer) with ⟨_, fails, restored⟩
  exact ⟨within, read, lacking, fails read lacking, restored, enough,
    (evaluate_nesting_exact within (.call inner)).1 enough⟩

end Session
end LineShell
