import LineShell.Proofs.Execution
import LineShell.Proofs.Height

namespace LineShell

/-!
# What commands do to a session

A command leaves a session that follows from the one it was carried out in by a
handful of effects.  A relation between the session before and the session after
that has room for these effects, one by one and one after the other, has
therefore room for every command and every expression, also for one that fails
halfway.

All commands may write variables and change the user or the directory.  The
other effects belong to some commands only, so the relation needs room for them
only if such a command is carried out, or called inside of what is.
-/

open Steps

namespace Session

/-- A relation with room for the effects that every command may have. -/
structure Effects (rel : Session -> Session -> Prop) : Prop where
  refl : ∀ session, rel session session
  trans : ∀ {one two three}, rel one two -> rel two three -> rel one three
  stored : ∀ session name value,
    rel session { session with bindings := session.bindings.set name value }
  flushed : ∀ session, rel session { session with bindings := .empty }
  renamed : ∀ session name, rel session (session.withUser name)
  moved : ∀ session target?, rel session (session.withDirectory target?)
  /-- A call gives back the level that it took. -/
  returned : ∀ {session after}, rel { session with callDepth := session.callDepth + 1 } after ->
    rel session { after with callDepth := after.callDepth - 1 }

end Session

/-- The relation has room also for the effects that belong to the command: it
shows its output, unless that is handed back, it clears the journal, or it runs
the script. -/
structure Command.Admitted (rel : Session -> Session -> Prop) (script : Session -> Session)
    (piping : Bool) (command : Command) : Prop where
  shown : piping = false -> ∀ session message, rel session (session.note .info message)
  cleared : command.action = .clear ->
    ∀ session, rel session { session with journal := session.journal.clear }
  announced : command.action = .clear -> (Command.text? command.parameters 0).isSome = true ->
    ∀ session, rel session session.showBanner
  rehearsed : command.action = .test -> ∀ session, rel session (session.rehearsed script)

namespace SessionM

variable {α β : Type} {rel : Session -> Session -> Prop} {script : Session -> Session}

/-- A step that leaves a session in the relation to the one before, whether it
fails or not. -/
def Moves (rel : Session -> Session -> Prop) (step : SessionM α) : Prop :=
  ∀ session, Ensures (fun _ after => rel session after) (fun _ after => rel session after)
    (step session)

theorem moves_modify {change : Session -> Session}
    (admitted : ∀ session : Session, rel session (change session)) : Moves rel (modify change) :=
  admitted

theorem moves_get {next : Session -> SessionM β} (second : ∀ session, Moves rel (next session)) :
    Moves rel (get >>= next) :=
  fun session => second session session

theorem moves_sequence {step : SessionM α} {next : α -> SessionM β}
    (trans : ∀ {one two three}, rel one two -> rel two three -> rel one three)
    (first : Moves rel step) (second : ∀ value, Moves rel (next value)) :
    Moves rel (step >>= next) := by
  intro session
  apply Ensures.bind (first session)
  intro value between begun
  exact (second value between).mono (fun _ _ more => trans begun more)
    fun _ _ more => trans begun more

section Handlers

variable (effects : Session.Effects rel)
include effects

theorem moves_pure (value : α) : Moves rel (pure value) :=
  effects.refl

theorem moves_throw (fault : Fault) : Moves rel (throw fault : SessionM α) :=
  effects.refl

theorem moves_bind {step : SessionM α} {next : α -> SessionM β} (first : Moves rel step)
    (second : ∀ value, Moves rel (next value)) : Moves rel (step >>= next) :=
  moves_sequence effects.trans first second

theorem moves_forM {items : List α} {step : α -> SessionM Unit}
    (each : ∀ item, Moves rel (step item)) : Moves rel (items.forM step) := by
  induction items with
  | nil => exact moves_pure effects _
  | cons item items ih => exact moves_bind effects (each item) fun _ => ih

/-! ## Handlers -/

theorem moves_store (name : String) (value : Value) : Moves rel (store name value) := by
  apply moves_bind effects
  · exact moves_modify fun session => effects.stored session name value
  · intro _
    exact moves_pure effects _

theorem moves_step (change : Int) (placement : Placement) (name : String) :
    Moves rel (step change placement name) := by
  apply moves_get
  intro old session
  rw [discard_bind]
  refine moves_bind effects (moves_store effects _ _) ?_ session
  intro _
  cases placement with
  | before => exact moves_pure effects _
  | after => exact moves_pure effects _

theorem moves_stepOperand (operator : UnaryOperator) (change : Int) (placement : Placement)
    (operand : Expr) : Moves rel (stepOperand operator change placement operand) := by
  cases operand with
  | var name => exact moves_step effects change placement name
  | _ => exact moves_throw effects _

theorem moves_requiredText (parameters : List Argument) (index : Nat) :
    Moves rel (requiredText parameters index) := by
  unfold requiredText
  split
  · exact moves_pure effects _
  · exact moves_throw effects _

theorem moves_changeUser (parameters : List Argument) : Moves rel (changeUser parameters) := by
  rw [changeUser]
  by_cases empty : (Command.text? parameters 0).getD "" = ""
  · simp only [empty, if_true]
    exact moves_throw effects _
  · simp only [empty, if_false]
    apply moves_bind effects
    · exact moves_modify fun session => effects.renamed session _
    · intro _
      exact moves_pure effects _

theorem moves_changeDirectory (parameters : List Argument) :
    Moves rel (changeDirectory parameters) := by
  apply moves_bind effects
  · exact moves_modify fun session => effects.moved session _
  · intro _
    exact moves_get fun _ => moves_pure effects _

theorem moves_calling {inner : SessionM α} (inside : Moves rel inner) :
    Moves rel (calling inner) := by
  intro session
  unfold calling
  split
  · exact effects.refl session
  · have ran := inside { session with callDepth := session.callDepth + 1 }
    cases result : inner { session with callDepth := session.callDepth + 1 } with
    | ok value after =>
        rw [result] at ran
        exact effects.returned ran
    | error fault after =>
        rw [result] at ran
        exact effects.returned ran

theorem moves_valueOf (command : String) (outcome : Outcome) :
    Moves rel (valueOf command outcome) := by
  cases outcome with
  | value value => exact moves_pure effects _
  | ask question => exact moves_throw effects _

section Output

variable {piping : Bool}
  (shown : piping = false -> ∀ session message, rel session (session.note .info message))
include shown

theorem moves_emit (value : Value) : Moves rel (emit piping value) := by
  cases piping with
  | true => exact moves_pure effects _
  | false =>
      apply moves_bind effects
      · exact moves_modify fun session => shown rfl session _
      · intro _
        exact moves_pure effects _

theorem moves_help (parameters : List Argument) : Moves rel (help piping parameters) := by
  unfold help
  split
  · exact moves_emit effects shown _
  · split
    · exact moves_emit effects shown _
    · exact moves_throw effects _

theorem moves_inspectVariables (parameters : List Argument) :
    Moves rel (inspectVariables piping parameters) := by
  simp only [inspectVariables]
  split
  · apply moves_bind effects (moves_requiredText effects parameters 1)
    intro name
    exact moves_get fun _ => moves_emit effects shown _
  · split
    · apply moves_get
      intro session
      cases piping with
      | true => exact moves_pure effects _
      | false =>
          apply moves_bind effects
          · apply moves_forM effects
            intro message
            exact moves_modify fun session => shown rfl session message
          · intro _
            exact moves_pure effects _
    · split
      · apply moves_bind effects
        · exact moves_modify effects.flushed
        · intro _
          exact moves_pure effects _
      · exact moves_throw effects _

end Output

theorem moves_clear {parameters : List Argument}
    (cleared : ∀ session : Session, rel session { session with journal := session.journal.clear })
    (announced : (Command.text? parameters 0).isSome = true ->
      ∀ session : Session, rel session session.showBanner) :
    Moves rel (clear parameters) := by
  apply moves_bind effects
  · exact moves_modify cleared
  · intro _
    split
    · rename_i asked
      apply moves_bind effects
      · exact moves_modify (announced asked)
      · intro _
        exact moves_pure effects _
    · exact moves_pure effects _

end Handlers

/-! ## Expressions and commands -/

mutual

/-- An expression does what the commands do that are called inside of it. -/
theorem moves_evaluateWith (effects : Session.Effects rel) :
    (expression : Expr) ->
      (∀ command, .call command ∈ expression.parts -> command.Admitted rel script true) ->
      Moves rel (evaluateWith script expression)
  | .number _, _ | .text _, _ | .word _, _ | .boolean _, _ => by
      rw [evaluateWith]
      exact moves_pure effects _
  | .var name, _ => by
      rw [evaluateWith]
      exact moves_get fun _ => moves_pure effects _
  | .binary operator left right, admitted => by
      rw [Expr.parts] at admitted
      rw [evaluateWith]
      apply moves_bind effects
      · exact moves_evaluateWith effects left fun command called =>
          admitted command (List.mem_cons_of_mem _ (List.mem_append_left _ called))
      · intro value
        apply moves_bind effects
        · exact moves_evaluateWith effects right fun command called =>
            admitted command (List.mem_cons_of_mem _ (List.mem_append_right _ called))
        · intro _
          exact moves_pure effects _
  | .unary operator placement operand, admitted => by
      rw [Expr.parts] at admitted
      have inside := moves_evaluateWith effects operand fun command called =>
        admitted command (List.mem_cons_of_mem _ called)
      cases operator <;> simp only [evaluateWith]
      · exact moves_bind effects inside fun _ => moves_pure effects _
      · exact moves_bind effects inside fun _ => moves_pure effects _
      · exact moves_bind effects inside fun _ => moves_pure effects _
      · exact moves_stepOperand effects _ _ placement operand
      · exact moves_stepOperand effects _ _ placement operand
  | .call command, admitted => by
      rw [Expr.parts] at admitted
      have inside := moves_executeWith effects true command
        (admitted command List.mem_cons_self)
        fun other called => admitted other (List.mem_cons_of_mem _ called)
      rw [evaluateWith]
      apply moves_bind effects (moves_calling effects inside)
      intro outcome
      exact moves_valueOf effects _ outcome
  | .array items, admitted => by
      rw [Expr.parts] at admitted
      rw [evaluateWith]
      apply moves_bind effects
      · exact moves_evaluateAll effects items fun command called =>
          admitted command (List.mem_cons_of_mem _ called)
      · intro _
        exact moves_pure effects _

theorem moves_evaluateAll (effects : Session.Effects rel) :
    (items : List Expr) ->
      (∀ command, .call command ∈ Expr.partsOf items -> command.Admitted rel script true) ->
      Moves rel (evaluateAll script items)
  | [], _ => by
      rw [evaluateAll]
      exact moves_pure effects _
  | item :: items, admitted => by
      rw [Expr.partsOf] at admitted
      rw [evaluateAll]
      apply moves_bind effects
      · exact moves_evaluateWith effects item fun command called =>
          admitted command (List.mem_append_left _ called)
      · intro value
        apply moves_bind effects
        · exact moves_evaluateAll effects items fun command called =>
            admitted command (List.mem_append_right _ called)
        · intro _
          exact moves_pure effects _

theorem moves_evaluateArgument (effects : Session.Effects rel) (position skip : Nat) :
    (arguments : List Argument) ->
      (∀ command, .call command ∈ Argument.allExpressions arguments ->
        command.Admitted rel script true) ->
      Moves rel (evaluateArgument script position skip arguments)
  | [], _ => by
      rw [evaluateArgument]
      exact moves_throw effects _
  | argument :: arguments, admitted => by
      rw [Argument.allExpressions] at admitted
      cases skip with
      | zero =>
          cases argument with
          | expression value =>
              simp only [evaluateArgument]
              exact moves_evaluateWith effects value fun command called =>
                admitted command (List.mem_append_left _ called)
          | _ =>
              simp only [evaluateArgument]
              exact moves_throw effects _
      | succ skip =>
          simp only [evaluateArgument]
          exact moves_evaluateArgument effects position skip arguments fun command called =>
            admitted command (List.mem_append_right _ called)

/-- A command does what it does itself and what the commands do that are called
inside of it. -/
theorem moves_executeWith (effects : Session.Effects rel) (piping : Bool) :
    (command : Command) -> command.Admitted rel script piping ->
      (∀ other, .call other ∈ command.expressions -> other.Admitted rel script true) ->
      Moves rel (executeWith script piping command)
  | { name := _, action, parameters, span := _ }, own, admitted => by
      have evaluated := fun position skip =>
        moves_evaluateArgument effects position skip parameters admitted
      cases action <;> simp only [executeWith]
      · exact moves_help effects own.shown parameters
      · exact moves_bind effects (evaluated 1 0) fun value => moves_emit effects own.shown value
      · exact moves_clear effects (own.cleared rfl) (own.announced rfl)
      · exact moves_changeUser effects parameters
      · split
        · apply moves_bind effects (moves_requiredText effects parameters 1)
          intro name
          exact moves_bind effects (evaluated 3 2) fun value => moves_store effects name value
        · exact moves_inspectVariables effects own.shown parameters
      · exact moves_get fun _ => moves_emit effects own.shown _
      · exact moves_changeDirectory effects parameters
      · exact moves_bind effects (moves_modify (own.rehearsed rfl)) fun _ => moves_pure effects _
      · exact moves_pure effects _
      · exact moves_pure effects _
      · apply moves_bind effects (moves_requiredText effects parameters 0)
        intro name
        exact moves_bind effects (evaluated 2 1) fun value => moves_store effects name value
      · exact moves_bind effects (evaluated 1 0) fun _ => moves_pure effects _

end

end SessionM
end LineShell
