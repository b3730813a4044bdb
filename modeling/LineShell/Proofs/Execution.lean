import LineShell.Proofs.Steps
import LineShell.Session.Evaluate

namespace LineShell

/-!
# What carrying out a command can do

Commands and expressions reach a session through a handful of changes, and read
little of it.  A relation between two sessions that these changes respect, and
that lets both sessions be read alike, is therefore kept by every command and
every expression, and their results are equal.  Taken on a session and itself
the relation is an invariant; taken on two sessions it says what a command
cannot see.
-/

open Steps

namespace Session

def withUser (name : String) (session : Session) : Session :=
  if session.terminal.user = name then session
  else { session with terminal := session.terminal.setUser name }

def withDirectory (target? : Option String) (session : Session) : Session :=
  { session with terminal := session.terminal.changeDirectory target? }

/-- The session after the script ran without its lines being shown. -/
def rehearsed (script : Session -> Session) (session : Session) : Session :=
  (script (session.setEcho false)).setEcho true

/-- A relation between sessions that commands keep: what they read is the same
in both sessions, and what they change is changed alike. -/
structure Kept (script : Session -> Session) (kept : Session -> Session -> Prop) : Prop where
  bindings : ∀ {one two}, kept one two -> one.bindings = two.bindings
  callDepth : ∀ {one two}, kept one two -> one.callDepth = two.callDepth
  banner : ∀ {one two}, kept one two -> one.terminal.banner = two.terminal.banner
  directory : ∀ {one two}, kept one two ->
    one.terminal.workingDirectory = two.terminal.workingDirectory
  noted : ∀ {one two}, kept one two ->
    ∀ message, kept (one.note .info message) (two.note .info message)
  cleared : ∀ {one two}, kept one two ->
    kept { one with journal := one.journal.clear } { two with journal := two.journal.clear }
  bound : ∀ {one two}, kept one two ->
    ∀ bindings, kept { one with bindings } { two with bindings }
  called : ∀ {one two}, kept one two ->
    ∀ callDepth, kept { one with callDepth } { two with callDepth }
  renamed : ∀ {one two}, kept one two -> ∀ name, kept (one.withUser name) (two.withUser name)
  moved : ∀ {one two}, kept one two ->
    ∀ target?, kept (one.withDirectory target?) (two.withDirectory target?)
  rehearsed : ∀ {one two}, kept one two -> kept (one.rehearsed script) (two.rehearsed script)

end Session

namespace SessionM

variable {α β : Type} {script : Session -> Session} {kept : Session -> Session -> Prop}

/-- Two results are equal, with sessions that are still related. -/
def SameResult (kept : Session -> Session -> Prop) :
    EStateM.Result Fault Session α -> EStateM.Result Fault Session α -> Prop :=
  Related (fun value after value' after' => value = value' ∧ kept after after')
    (fun fault after fault' after' => fault = fault' ∧ kept after after')

/-- A step that has equal results on related sessions. -/
def Keeps (kept : Session -> Session -> Prop) (step : SessionM α) : Prop :=
  ∀ one two, kept one two -> SameResult kept (step one) (step two)

theorem keeps_pure (value : α) : Keeps kept (pure value) :=
  fun _ _ related => ⟨rfl, related⟩

theorem keeps_refuse (refusal : Refusal) : Keeps kept (refuse refusal : SessionM α) :=
  fun _ _ related => ⟨rfl, related⟩

theorem keeps_modify {change : Session -> Session}
    (respects : ∀ one two, kept one two -> kept (change one) (change two)) :
    Keeps kept (modify change) :=
  fun one two related => ⟨rfl, respects one two related⟩

theorem keeps_bind {step : SessionM α} {next : α -> SessionM β} (first : Keeps kept step)
    (second : ∀ value, Keeps kept (next value)) : Keeps kept (step >>= next) := by
  intro one two related
  apply Related.bind (first one two related)
  rintro value after _ after' ⟨rfl, related⟩
  exact second value after after' related

theorem keeps_discard {step : SessionM α} {next : Unit -> SessionM β} (first : Keeps kept step)
    (second : Keeps kept (next ())) : Keeps kept (discard step >>= next) := by
  intro one two related
  rw [discard_bind, discard_bind]
  exact keeps_bind first (fun _ => second) one two related

theorem keeps_forM {items : List α} {step : α -> SessionM Unit}
    (each : ∀ item, Keeps kept (step item)) : Keeps kept (items.forM step) := by
  induction items with
  | nil => exact keeps_pure _
  | cons item items ih => exact keeps_bind (each item) fun _ => ih

section Handlers

variable (holds : Session.Kept script kept)
include holds

theorem keeps_log (message : String) : Keeps kept (log message) :=
  keeps_modify fun _ _ related => holds.noted related message

theorem keeps_emit (piping : Bool) (value : Value) : Keeps kept (emit piping value) := by
  cases piping with
  | true => exact keeps_pure _
  | false => exact keeps_bind (keeps_log holds _) fun _ => keeps_pure _

theorem keeps_store (name : String) (value : Value) : Keeps kept (store name value) := by
  apply keeps_bind
  · apply keeps_modify
    intro one two related
    rw [holds.bindings related]
    exact holds.bound related _
  · intro _
    exact keeps_pure _

theorem keeps_step (change : Int) (placement : Placement) (name : String) :
    Keeps kept (step change placement name) := by
  intro one two related
  rw [step, get_bind, get_bind, holds.bindings related]
  refine keeps_discard (keeps_store holds _ _) ?_ one two related
  cases placement with
  | before => exact keeps_pure _
  | after => exact keeps_pure _

theorem keeps_stepOperand (operator : UnaryOperator) (change : Int) (placement : Placement)
    (operand : Expr) : Keeps kept (stepOperand operator change placement operand) := by
  cases operand with
  | var name => exact keeps_step holds change placement name
  | _ => exact keeps_refuse _

theorem keeps_help (piping : Bool) (parameters : List Argument) :
    Keeps kept (help piping parameters) := by
  rw [help]
  cases Command.text? parameters 0 with
  | none => exact keeps_emit holds piping _
  | some name =>
      cases found : Builtin.find? name with
      | none =>
          simp only [found]
          exact fun _ _ related => ⟨rfl, related⟩
      | some builtin =>
          simp only [found]
          exact keeps_emit holds piping _

theorem keeps_clear (parameters : List Argument) : Keeps kept (clear parameters) := by
  apply keeps_bind
  · exact keeps_modify fun _ _ related => holds.cleared related
  · intro _
    by_cases asked : (Command.text? parameters 0).isSome = true
    · simp only [asked, if_true]
      apply keeps_bind
      · apply keeps_modify
        intro one two related
        rw [Session.showBanner, Session.showBanner, holds.banner related]
        exact holds.noted related _
      · intro _
        exact keeps_pure _
    · simp only [asked, Bool.false_eq_true, if_false]
      exact keeps_pure _

theorem keeps_changeUser (parameters : List Argument) : Keeps kept (changeUser parameters) := by
  rw [changeUser]
  by_cases empty : (Command.text? parameters 0).getD "" = ""
  · simp only [empty, if_true]
    exact keeps_refuse _
  · simp only [empty, if_false]
    apply keeps_bind
    · exact keeps_modify fun _ _ related => holds.renamed related _
    · intro _
      exact keeps_pure _

theorem keeps_changeDirectory (parameters : List Argument) :
    Keeps kept (changeDirectory parameters) := by
  apply keeps_bind
  · exact keeps_modify fun _ _ related => holds.moved related _
  · intro _ one two related
    rw [get_bind, get_bind, holds.directory related]
    exact keeps_pure _ one two related

omit holds in
theorem keeps_requiredText (parameters : List Argument) (index : Nat) :
    Keeps kept (requiredText parameters index) := by
  rw [requiredText]
  cases Command.text? parameters index with
  | none => exact keeps_refuse _
  | some text => exact keeps_pure _

theorem keeps_inspectVariables (piping : Bool) (parameters : List Argument) :
    Keeps kept (inspectVariables piping parameters) := by
  simp only [inspectVariables]
  split
  · apply keeps_bind (keeps_requiredText parameters 1)
    intro name one two related
    rw [get_bind, get_bind, holds.bindings related]
    exact keeps_emit holds piping _ one two related
  · split
    · intro one two related
      rw [get_bind, get_bind, holds.bindings related]
      cases piping with
      | true => exact keeps_pure _ one two related
      | false =>
          refine keeps_bind (keeps_forM (keeps_log holds)) ?_ one two related
          intro _
          exact keeps_pure _
    · split
      · apply keeps_bind
        · exact keeps_modify fun _ _ related => holds.bound related _
        · intro _
          exact keeps_pure _
      · exact keeps_refuse _

theorem keeps_rehearse : Keeps kept (rehearse script) := by
  apply keeps_bind
  · exact keeps_modify fun _ _ related => holds.rehearsed related
  · intro _
    exact keeps_pure _

theorem keeps_calling {inner : SessionM α} (inside : Keeps kept inner) :
    Keeps kept (calling inner) := by
  intro one two related
  simp only [calling, holds.callDepth related]
  split
  · exact ⟨rfl, related⟩
  · have ran := inside _ _ (holds.called related (two.callDepth + 1))
    cases result : inner { one with callDepth := two.callDepth + 1 } <;>
      cases result' : inner { two with callDepth := two.callDepth + 1 } <;>
      rw [result, result'] at ran
    · rcases ran with ⟨rfl, after⟩
      refine ⟨rfl, ?_⟩
      rw [holds.callDepth after]
      exact holds.called after _
    · cases ran
    · cases ran
    · rcases ran with ⟨rfl, after⟩
      refine ⟨rfl, ?_⟩
      rw [holds.callDepth after]
      exact holds.called after _

omit holds in
theorem keeps_valueOf (command : String) (outcome : Outcome) :
    Keeps kept (valueOf command outcome) := by
  cases outcome with
  | value value => exact keeps_pure _
  | ask question => exact keeps_refuse _

end Handlers

/-! ## Expressions and commands -/

mutual

theorem keeps_evaluateWith (holds : Session.Kept script kept) :
    (expression : Expr) -> Keeps kept (evaluateWith script expression)
  | .number _ | .text _ | .word _ | .boolean _ => by
      rw [evaluateWith]
      exact keeps_pure _
  | .var name => by
      intro one two related
      rw [evaluateWith, get_bind, get_bind, holds.bindings related]
      exact ⟨rfl, related⟩
  | .binary operator left right => by
      rw [evaluateWith]
      apply keeps_bind (keeps_evaluateWith holds left)
      intro value
      apply keeps_bind (keeps_evaluateWith holds right)
      intro value'
      exact keeps_pure _
  | .unary operator placement operand => by
      have inside := keeps_evaluateWith holds operand
      cases operator <;> simp only [evaluateWith]
      · exact keeps_bind inside fun _ => keeps_pure _
      · exact keeps_bind inside fun _ => keeps_pure _
      · exact keeps_bind inside fun _ => keeps_pure _
      · exact keeps_stepOperand holds _ _ placement operand
      · exact keeps_stepOperand holds _ _ placement operand
  | .call command => by
      rw [evaluateWith]
      apply keeps_bind (keeps_calling holds (keeps_executeWith holds true command))
      intro outcome
      exact keeps_valueOf _ outcome
  | .array items => by
      rw [evaluateWith]
      exact keeps_bind (keeps_evaluateAll holds items) fun _ => keeps_pure _

theorem keeps_evaluateAll (holds : Session.Kept script kept) :
    (items : List Expr) -> Keeps kept (evaluateAll script items)
  | [] => by
      rw [evaluateAll]
      exact keeps_pure _
  | item :: items => by
      rw [evaluateAll]
      apply keeps_bind (keeps_evaluateWith holds item)
      intro value
      exact keeps_bind (keeps_evaluateAll holds items) fun _ => keeps_pure _

theorem keeps_evaluateArgument (holds : Session.Kept script kept) (position skip : Nat) :
    (arguments : List Argument) -> Keeps kept (evaluateArgument script position skip arguments)
  | [] => by
      rw [evaluateArgument]
      exact keeps_refuse _
  | argument :: arguments => by
      cases skip with
      | zero =>
          cases argument with
          | expression value =>
              simp only [evaluateArgument]
              exact keeps_evaluateWith holds value
          | _ =>
              simp only [evaluateArgument]
              exact keeps_refuse _
      | succ skip =>
          simp only [evaluateArgument]
          exact keeps_evaluateArgument holds position skip arguments

/-- What commands keep is kept by every command, and its outcome is the same. -/
theorem keeps_executeWith (holds : Session.Kept script kept) (piping : Bool) :
    (command : Command) -> Keeps kept (executeWith script piping command)
  | { name := _, action, parameters, span := _ } => by
      have evaluated := fun position skip =>
        keeps_evaluateArgument holds position skip parameters
      cases action <;> simp only [executeWith]
      · exact keeps_help holds piping parameters
      · exact keeps_bind (evaluated 1 0) fun value => keeps_emit holds piping value
      · exact keeps_clear holds parameters
      · exact keeps_changeUser holds parameters
      · split
        · apply keeps_bind (keeps_requiredText parameters 1)
          intro name
          exact keeps_bind (evaluated 3 2) fun value => keeps_store holds name value
        · exact keeps_inspectVariables holds piping parameters
      · intro one two related
        rw [get_bind, get_bind, holds.banner related]
        exact keeps_emit holds piping _ one two related
      · exact keeps_changeDirectory holds parameters
      · exact keeps_rehearse holds
      · exact keeps_pure _
      · exact keeps_pure _
      · apply keeps_bind (keeps_requiredText parameters 0)
        intro name
        exact keeps_bind (evaluated 2 1) fun value => keeps_store holds name value
      · exact keeps_bind (evaluated 1 0) fun _ => keeps_pure _

end

end SessionM
end LineShell
