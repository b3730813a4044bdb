import LineShell.Proofs.Fitting
import LineShell.Proofs.Suspension

namespace LineShell

/-!
# Why a command can be refused

A handler refuses a command whose arguments it cannot use.  Commands that fit
never meet these refusals: what is left is an empty user, a call that is nested
too deeply, and a question inside an expression.  A line never asks while a
question waits, so in a session that is only given lines nothing else than these
refusals and faults in the text is ever reported.
-/

open Steps

/-! ## The refusals that are left -/

/-- Whether a command that fits can be refused for this reason. -/
def Refusal.isExpected : Refusal -> Bool
  | .emptyUser | .callsTooDeep => true
  | .questionInExpression command =>
      Action.confirm.goesBy command || Action.license.goesBy command
  | .missingArgument _ | .notAnExpression _ | .unknownVerb | .stepNeedsVariable _
  | .questionPending => false

/-- Whether a command that fits can stop at this fault. -/
def Fault.isExpected : Fault -> Bool
  | .execution refusal => refusal.isExpected
  | .lexical _ _ | .grammatical _ _ | .unknownCommand _ _ => false

namespace SessionM

variable {α β : Type} {meets : α -> Prop} {meetsNext : β -> Prop} {script : Session -> Session}

/-- A step whose values are of the given sort, and whose faults are expected. -/
def Behaves (meets : α -> Prop) (step : SessionM α) : Prop :=
  ∀ session, Ensures (fun value _ => meets value) (fun fault _ => fault.isExpected = true)
    (step session)

theorem behaves_pure {value : α} (met : meets value) : Behaves meets (pure value) :=
  fun _ => met

theorem behaves_refuse {refusal : Refusal} (expected : refusal.isExpected = true) :
    Behaves meets (refuse refusal) :=
  fun _ => expected

theorem behaves_bind {step : SessionM α} {next : α -> SessionM β} (first : Behaves meets step)
    (second : ∀ value, meets value -> Behaves meetsNext (next value)) :
    Behaves meetsNext (step >>= next) := by
  intro session
  apply (first session).bind
  intro value after met
  exact second value met after

theorem behaves_get {next : Session -> SessionM β}
    (second : ∀ session, Behaves meetsNext (next session)) : Behaves meetsNext (get >>= next) :=
  fun session => second session session

theorem behaves_modify (change : Session -> Session) : Behaves (fun _ => True) (modify change) :=
  fun _ => trivial

def AnyOutcome (_ : Outcome) : Prop := True

theorem behaves_emit (piping : Bool) (value : Value) : Behaves AnyOutcome (emit piping value) := by
  cases piping with
  | true => exact behaves_pure trivial
  | false => exact behaves_bind (behaves_modify _) fun _ _ => behaves_pure trivial

theorem behaves_store (name : String) (value : Value) : Behaves AnyOutcome (store name value) :=
  behaves_bind (behaves_modify _) fun _ _ => behaves_pure trivial

theorem behaves_step (change : Int) (placement : Placement) (name : String) :
    Behaves (fun _ => True) (step change placement name) := by
  apply behaves_get
  intro old session
  rw [discard_bind]
  refine behaves_bind (behaves_store _ _) ?_ session
  intro _ _
  cases placement with
  | before => exact behaves_pure trivial
  | after => exact behaves_pure trivial

theorem behaves_stepOperand (operator : UnaryOperator) (change : Int) (placement : Placement)
    {operand : Expr} (stepped : operand.isVariable = true) :
    Behaves (fun _ => True) (stepOperand operator change placement operand) := by
  cases operand with
  | var name => exact behaves_step change placement name
  | _ => cases stepped

theorem behaves_clear (parameters : List Argument) : Behaves AnyOutcome (clear parameters) := by
  apply behaves_bind (behaves_modify _)
  intro _ _
  split
  · exact behaves_bind (behaves_modify _) fun _ _ => behaves_pure trivial
  · exact behaves_pure trivial

theorem behaves_changeUser (parameters : List Argument) :
    Behaves AnyOutcome (changeUser parameters) := by
  rw [changeUser]
  split
  · exact behaves_refuse rfl
  · exact behaves_bind (behaves_modify _) fun _ _ => behaves_pure trivial

theorem behaves_forM_log (messages : List String) :
    Behaves (fun _ => True) (messages.forM log) := by
  induction messages with
  | nil => exact behaves_pure trivial
  | cons message messages ih => exact behaves_bind (behaves_modify _) fun _ _ => ih

/-- Calling a command can only add that it is nested too deeply. -/
theorem behaves_calling {inner : SessionM α} (inside : Behaves meets inner) :
    Behaves meets (calling inner) := by
  intro session
  simp only [calling]
  split
  · rfl
  · have ran := inside { session with callDepth := session.callDepth + 1 }
    cases result : inner { session with callDepth := session.callDepth + 1 } with
    | ok value after =>
        rw [result] at ran
        exact ran
    | error fault after =>
        rw [result] at ran
        exact ran

/-! ## Handlers and the arguments that fit them -/

theorem help_of_takes {parameters : List Argument} (taken : Action.help.takes parameters = true) :
    parameters = [] ∨ ∃ name builtin, parameters = [.word name]
      ∧ Builtin.find? name = some builtin := by
  unfold Action.takes at taken
  split at taken <;> simp_all [Option.isSome_iff_exists]

theorem behaves_help (piping : Bool) {parameters : List Argument}
    (taken : Action.help.takes parameters = true) :
    Behaves AnyOutcome (help piping parameters) := by
  rcases help_of_takes taken with rfl | ⟨name, builtin, rfl, found⟩
  · exact behaves_emit piping _
  · have wanted : Command.text? [.word name] 0 = some name := rfl
    simp only [help, wanted, found]
    exact behaves_emit piping _

theorem stack_of_takes {parameters : List Argument} (taken : Action.stack.takes parameters = true) :
    (∃ name value, parameters = [.word "set", .word name, .expression value])
      ∨ (∃ name, parameters = [.word "get", .word name])
      ∨ parameters = [.word "list"] ∨ parameters = [.word "flush"] := by
  unfold Action.takes at taken
  split at taken <;> simp_all

theorem behaves_inspectVariables (piping : Bool) {parameters : List Argument}
    (taken : Action.stack.takes parameters = true)
    (other : Command.text? parameters 0 ≠ some "set") :
    Behaves AnyOutcome (inspectVariables piping parameters) := by
  rcases stack_of_takes taken with ⟨name, value, rfl⟩ | ⟨name, rfl⟩ | rfl | rfl
  · exact absurd rfl other
  · have named : Behaves (fun _ => True) (requiredText [.word "get", .word name] 1) :=
      behaves_pure trivial
    exact behaves_bind named fun _ _ => behaves_get fun _ => behaves_emit piping _
  · apply behaves_get
    intro session
    cases piping with
    | true => exact behaves_pure trivial
    | false => exact behaves_bind (behaves_forM_log _) fun _ _ => behaves_pure trivial
  · exact behaves_bind (behaves_modify _) fun _ _ => behaves_pure trivial

theorem echo_of_takes {parameters : List Argument} (taken : Action.echo.takes parameters = true) :
    ∃ value, parameters = [.expression value] := by
  unfold Action.takes at taken
  split at taken <;> simp_all

theorem evaluate_of_takes {parameters : List Argument}
    (taken : Action.evaluate.takes parameters = true) :
    ∃ value, parameters = [.expression value] := by
  unfold Action.takes at taken
  split at taken <;> simp_all

theorem assign_of_takes {parameters : List Argument}
    (taken : Action.assign.takes parameters = true) :
    ∃ name value, parameters = [.word name, .expression value] := by
  unfold Action.takes at taken
  split at taken <;> simp_all

/-- What a command comes to is a question only if it asks that question. -/
theorem behaves_outcome {piping : Bool} {command : Command}
    (inside : Behaves AnyOutcome (executeWith script piping command)) :
    Behaves (fun outcome => ∀ question, outcome = .ask question -> command.question?.isSome = true)
      (executeWith script piping command) := by
  intro session
  have expected := inside session
  cases asked : command.question? with
  | some question =>
      rw [executeWith_of_question asked]
      exact fun _ _ => rfl
  | none =>
      have gives := givesValue_executeWith script piping asked session
      cases ran : executeWith script piping command session with
      | error fault after =>
          rw [ran] at expected
          exact expected
      | ok outcome after =>
          rw [ran] at gives
          rcases gives with ⟨value, rfl⟩
          intro question same
          cases same

theorem goesBy_of_fits {command : Command} (fits : command.fits = true) :
    command.action.goesBy command.name = true := by
  rcases command with ⟨name, action, parameters, span⟩
  simp only [Command.fits, Bool.and_eq_true] at fits
  exact fits.1.1

/-- A question inside an expression is refused with the name of its command. -/
theorem behaves_valueOf {command : Command} (fits : command.fits = true) {outcome : Outcome}
    (asks : ∀ question, outcome = .ask question -> command.question?.isSome = true) :
    Behaves (fun _ => True) (valueOf command.name outcome) := by
  cases outcome with
  | value value => exact behaves_pure trivial
  | ask question =>
      apply behaves_refuse
      have named := goesBy_of_fits fits
      have asked := asks question rfl
      rw [Refusal.isExpected, Bool.or_eq_true]
      cases action : command.action <;> simp_all [Command.question?]

/-! ## Expressions and commands -/

mutual

theorem behaves_evaluateWith (script : Session -> Session) :
    (expression : Expr) -> expression.fits = true ->
      Behaves (fun _ => True) (evaluateWith script expression)
  | .number _, _ | .text _, _ | .word _, _ | .boolean _, _ => by
      rw [evaluateWith]
      exact behaves_pure trivial
  | .var name, _ => by
      rw [evaluateWith]
      exact behaves_get fun _ => behaves_pure trivial
  | .binary operator left right, fits => by
      simp only [Expr.fits, Bool.and_eq_true] at fits
      rw [evaluateWith]
      apply behaves_bind (behaves_evaluateWith script left fits.1)
      intro _ _
      exact behaves_bind (behaves_evaluateWith script right fits.2) fun _ _ => behaves_pure trivial
  | .unary operator placement operand, fits => by
      rw [Expr.fits] at fits
      have inside : operator.isStep = false ->
          Behaves (fun _ => True) (evaluateWith script operand) := by
        intro plain
        rw [plain] at fits
        exact behaves_evaluateWith script operand fits
      cases operator <;> simp only [evaluateWith]
      · exact behaves_bind (inside rfl) fun _ _ => behaves_pure trivial
      · exact behaves_bind (inside rfl) fun _ _ => behaves_pure trivial
      · exact behaves_bind (inside rfl) fun _ _ => behaves_pure trivial
      · exact behaves_stepOperand _ _ placement fits
      · exact behaves_stepOperand _ _ placement fits
  | .call command, fits => by
      rw [Expr.fits] at fits
      rw [evaluateWith]
      have executed := behaves_outcome (behaves_executeWith script true command fits)
      apply behaves_bind (behaves_calling executed)
      intro outcome asks
      exact behaves_valueOf fits asks
  | .array items, fits => by
      rw [Expr.fits] at fits
      rw [evaluateWith]
      exact behaves_bind (behaves_evaluateAll script items fits) fun _ _ => behaves_pure trivial

theorem behaves_evaluateAll (script : Session -> Session) :
    (items : List Expr) -> Expr.allFit items = true ->
      Behaves (fun _ => True) (evaluateAll script items)
  | [], _ => by
      rw [evaluateAll]
      exact behaves_pure trivial
  | item :: items, fits => by
      simp only [Expr.allFit, Bool.and_eq_true] at fits
      rw [evaluateAll]
      apply behaves_bind (behaves_evaluateWith script item fits.1)
      intro _ _
      exact behaves_bind (behaves_evaluateAll script items fits.2) fun _ _ => behaves_pure trivial

theorem behaves_evaluateArgument (script : Session -> Session) (position skip : Nat) :
    (arguments : List Argument) -> Argument.allFit arguments = true ->
      (∃ value, arguments[skip]? = some (.expression value)) ->
      Behaves (fun _ => True) (evaluateArgument script position skip arguments)
  | [], _, there => by
      rcases there with ⟨value, there⟩
      cases there
  | argument :: arguments, fits, there => by
      simp only [Argument.allFit, Bool.and_eq_true] at fits
      rcases there with ⟨value, there⟩
      cases skip with
      | zero =>
          cases argument with
          | expression value =>
              simp only [evaluateArgument]
              exact behaves_evaluateWith script value (by simpa [Argument.fits] using fits.1)
          | _ => cases there
      | succ skip =>
          simp only [evaluateArgument]
          exact behaves_evaluateArgument script position skip arguments fits.2 ⟨value, there⟩

/-- A command that fits is refused for the expected reasons only. -/
theorem behaves_executeWith (script : Session -> Session) (piping : Bool) :
    (command : Command) -> command.fits = true ->
      Behaves AnyOutcome (executeWith script piping command)
  | { name := _, action, parameters, span := _ }, fits => by
      simp only [Command.fits, Bool.and_eq_true] at fits
      rcases fits with ⟨⟨_, taken⟩, fit⟩
      have evaluated := fun position skip =>
        behaves_evaluateArgument script position skip parameters fit
      cases action <;> simp only [executeWith]
      · exact behaves_help piping taken
      · rcases echo_of_takes taken with ⟨value, rfl⟩
        exact behaves_bind (evaluated 1 0 ⟨value, rfl⟩) fun _ _ => behaves_emit piping _
      · exact behaves_clear parameters
      · exact behaves_changeUser parameters
      · split
        · rename_i setting
          rcases stack_of_takes taken with ⟨name, value, rfl⟩ | ⟨name, rfl⟩ | rfl | rfl
          · have named : Behaves (fun _ => True)
                (requiredText [.word "set", .word name, .expression value] 1) :=
              behaves_pure trivial
            apply behaves_bind named
            intro name _
            exact behaves_bind (evaluated 3 2 ⟨value, rfl⟩) fun _ _ => behaves_store name _
          · simp [Command.text?, Argument.text?] at setting
          · simp [Command.text?, Argument.text?] at setting
          · simp [Command.text?, Argument.text?] at setting
        · rename_i other
          exact behaves_inspectVariables piping taken other
      · exact behaves_get fun _ => behaves_emit piping _
      · exact behaves_bind (behaves_modify _) fun _ _ => behaves_get fun _ => behaves_pure trivial
      · exact behaves_bind (behaves_modify _) fun _ _ => behaves_pure trivial
      · exact behaves_pure trivial
      · exact behaves_pure trivial
      · rcases assign_of_takes taken with ⟨name, value, rfl⟩
        have named : Behaves (fun _ => True) (requiredText [.word name, .expression value] 0) :=
          behaves_pure trivial
        apply behaves_bind named
        intro name _
        exact behaves_bind (evaluated 2 1 ⟨value, rfl⟩) fun _ _ => behaves_store name _
      · rcases evaluate_of_takes taken with ⟨value, rfl⟩
        exact behaves_bind (evaluated 1 0 ⟨value, rfl⟩) fun _ _ => behaves_pure trivial

end

end SessionM

/-! ## What is reported -/

namespace Session

/-- Every error in the journal is a fault in the text of a line, or an expected
refusal. -/
def Accounted (session : Session) : Prop :=
  ∀ message ∈ session.journal.errors,
    ∃ fault : Fault, message = fault.message ∧ (fault.isTextual || fault.isExpected) = true

theorem Accounted.of_speaks {session after : Session} (accounted : session.Accounted)
    (speaks : session.Speaks after) : after.Accounted := by
  rw [Accounted, speaks.errors_eq]
  exact accounted

theorem Accounted.report {session : Session} (accounted : session.Accounted) {fault : Fault}
    (known : (fault.isTextual || fault.isExpected) = true) :
    (session.report fault).Accounted := by
  intro message member
  rw [Session.report, note, Journal.errors_add, if_pos rfl, List.mem_append,
    List.mem_singleton] at member
  rcases member with earlier | rfl
  · exact accounted message earlier
  · exact ⟨fault, rfl, known⟩

/-- Commands report nothing themselves, and leave the question that waits. -/
theorem kept_accounted (pending? : Option Pending) :
    Kept runScript fun one two => one = two ∧ one.Accounted ∧ one.pending? = pending? where
  bindings related := by rw [related.1]
  callDepth related := by rw [related.1]
  banner related := by rw [related.1]
  directory related := by rw [related.1]
  noted related message :=
    ⟨by rw [related.1], related.2.1.of_speaks (Speaks.refl.note message (by decide)), related.2.2⟩
  cleared related := ⟨by rw [related.1], nofun, related.2.2⟩
  bound related bindings := ⟨by rw [related.1], related.2⟩
  called related callDepth := ⟨by rw [related.1], related.2⟩
  renamed {one two} related name := by
    refine ⟨by rw [related.1], ?_⟩
    simp only [withUser]
    split
    · exact related.2
    · exact related.2
  moved related target? := ⟨by rw [related.1], related.2⟩
  rehearsed {one two} related :=
    ⟨by rw [related.1], related.2.1.of_speaks (rehearsed_speaks one),
      (rehearsed_speaks one).pending_eq.trans related.2.2⟩

theorem execute_accounted {session : Session} (accounted : session.Accounted)
    (idle : session.pending? = none) (command : Command) :
    Ensures (fun _ after => after.Accounted ∧ after.pending? = none)
      (fun _ after => after.Accounted ∧ after.pending? = none)
      (SessionM.executeWith runScript false command session) := by
  have kept := SessionM.keeps_executeWith (kept_accounted none) false command session session
    ⟨rfl, accounted, idle⟩
  cases ran : SessionM.executeWith runScript false command session with
  | ok outcome after =>
      rw [ran] at kept
      exact kept.2.2
  | error fault after =>
      rw [ran] at kept
      exact kept.2.2

/-- All errors are accounted for, and the commands that wait fit. -/
structure Orderly (session : Session) : Prop where
  accounted : session.Accounted
  waiting : ∀ pending, session.pending? = some pending ->
    ∀ command ∈ pending.remaining, command.fits = true

theorem Orderly.of_idle {session : Session} (accounted : session.Accounted)
    (idle : session.pending? = none) : session.Orderly where
  accounted := accounted
  waiting pending waits := by
    rw [idle] at waits
    cases waits

theorem Orderly.waitingFor {session : Session} (accounted : session.Accounted)
    {pending : Pending} (fit : ∀ command ∈ pending.remaining, command.fits = true) :
    (session.waitingFor pending).Orderly where
  accounted := accounted
  waiting := by
    rintro _ ⟨⟩
    exact fit

/-- Running commands that fit keeps a session orderly. -/
theorem Orderly.settle {session : Session} (accounted : session.Accounted)
    (idle : session.pending? = none) {commands : List Command}
    (fit : ∀ command ∈ commands, command.fits = true) :
    (session.settle (SessionM.runCommands commands)).Orderly := by
  induction commands generalizing session with
  | nil => exact .of_idle accounted idle
  | cons command commands ih =>
      rcases List.forall_mem_cons.mp fit with ⟨first, others⟩
      have behaves := SessionM.behaves_executeWith runScript false command first session
      have executed := execute_accounted accounted idle command
      cases ran : SessionM.executeWith runScript false command session with
      | error fault after =>
          rw [ran] at behaves executed
          have stops := SessionM.runCommandsWith_of_error ran commands
          rw [SessionM.runCommands, settle_of_error stops]
          have known : (fault.isTextual || fault.isExpected) = true := by
            rw [behaves, Bool.or_true]
          exact .of_idle (executed.1.report known) executed.2
      | ok outcome after =>
          rw [ran] at executed
          cases outcome with
          | value value =>
              have goes := SessionM.runCommandsWith_of_value ran commands
              rw [SessionM.runCommands, settle_congr goes]
              exact ih executed.1 executed.2 others
          | ask question =>
              have asks := SessionM.runCommandsWith_of_ask ran commands
              rcases ask_of_idle executed.2 question commands with ⟨said, speaks, waits⟩
              rw [SessionM.runCommands, settle_of_ok (asks.trans waits)]
              exact .waitingFor (executed.1.of_speaks speaks) others

/-- A line keeps a session orderly that waits for nothing. -/
theorem Orderly.runLine {session : Session} (accounted : session.Accounted)
    (idle : session.pending? = none) (line : String) :
    (session.settle (SessionM.runLine line)).Orderly := by
  rcases Command.parseLine_fits (SessionM.trimmed line) with ⟨fit, textual⟩
  cases parsed : Command.parseLine (SessionM.trimmed line) with
  | ok commands =>
      rcases SessionM.runLineWith_of_ok parsed session with ⟨said, speaks, runs⟩
      rw [SessionM.runLine, settle_congr (runs runScript)]
      exact .settle (accounted.of_speaks speaks) (speaks.pending_eq.trans idle)
        (fit commands parsed)
  | error fault =>
      rcases SessionM.runLineWith_of_error runScript parsed session
        with blank | ⟨said, speaks, fails⟩
      · rw [SessionM.runLine, settle_of_ok blank]
        exact .of_idle accounted idle
      · rw [SessionM.runLine, settle_of_error fails]
        have known : (fault.isTextual || fault.isExpected) = true := by
          rw [textual fault parsed, Bool.true_or]
        exact .of_idle ((accounted.of_speaks speaks).report known) (speaks.pending_eq.trans idle)

/-- An answer keeps a session orderly. -/
theorem Orderly.answer {session : Session} (accounted : session.Accounted)
    (idle : session.pending? = none) {pending : Pending}
    (fit : ∀ command ∈ pending.remaining, command.fits = true) (line : String) :
    (session.settle (SessionM.answer pending line)).Orderly := by
  cases valid : isAnswer line with
  | true =>
      rcases answer_of_answer valid pending session with ⟨resumed, speaks, runs⟩
      rw [settle_congr runs]
      exact .settle (accounted.of_speaks speaks) (speaks.pending_eq.trans idle) fit
  | false =>
      rcases answer_of_other valid pending session with ⟨said, speaks, waits⟩
      rw [settle_of_ok waits]
      exact .waitingFor (accounted.of_speaks speaks) fit

/-- Whatever line is submitted, a session stays orderly. -/
theorem Orderly.submit {session : Session} (orderly : session.Orderly) (line : String) :
    (session.submit line).Orderly := by
  cases waits : session.pending? with
  | some pending =>
      let taken : Session := { session.setCanType false with pending? := none }
      have accounted : taken.Accounted := orderly.accounted
      have next := Orderly.answer accounted rfl (orderly.waiting pending waits) line
      rw [submit_of_pending waits]
      exact ⟨next.accounted, next.waiting⟩
  | none =>
      have accounted : (session.setCanType false).Accounted := orderly.accounted
      have next := Orderly.runLine accounted waits line
      rw [submit_of_idle waits]
      exact ⟨next.accounted, next.waiting⟩

theorem orderly_foldl_submit {session : Session} (orderly : session.Orderly)
    (lines : List String) : (lines.foldl submit session).Orderly := by
  induction lines generalizing session with
  | nil => exact orderly
  | cons line lines ih => exact ih (orderly.submit line)

theorem orderly_start (settings : Settings) : (start settings).Orderly :=
  .of_idle nofun rfl

end Session

/-! ## The wording of what is reported -/

theorem prefix_append {start text : String} (begins : start.toList <+: text.toList)
    (rest : String) : start.toList <+: (text ++ rest).toList := by
  rw [String.toList_append]
  exact begins.trans (List.prefix_append _ _)

/-- Texts that begin differently are different. -/
theorem ne_of_prefix {start text whole : String} (begins : start.toList <+: text.toList)
    (differs : ¬start.toList <+: whole.toList) : text ≠ whole := by
  rintro rfl
  exact differs begins

theorem name_of_asking {name : String}
    (asks : (Action.confirm.goesBy name || Action.license.goesBy name) = true) :
    name ∈ ["yn", "maybe", "license"] := by
  have every : ∀ builtin ∈ Builtin.all, builtin.action = .confirm ∨ builtin.action = .license ->
      builtin.name ∈ ["yn", "maybe", "license"] := by
    decide
  cases found : Builtin.find? name with
  | none => simp [Action.goesBy, found] at asks
  | some builtin =>
      have action : builtin.action = .confirm ∨ builtin.action = .license := by
        simpa [Action.goesBy, found] using asks
      rw [← Builtin.name_of_find? found]
      exact every builtin (List.mem_of_find?_eq_some found) action

/-- The fault is a refusal for one of three reasons. -/
def Fault.IsForeseen (fault : Fault) : Prop :=
  ∃ refusal, fault = .execution refusal
    ∧ (refusal.message = "First argument of user cannot be empty"
      ∨ refusal.message = "Nested commands are too deep"
      ∨ ∃ name ∈ ["yn", "maybe", "license"], refusal.message
        = "`" ++ name ++ "` asks for confirmation and cannot be used inside an expression")

theorem Fault.isForeseen_of_isExpected {fault : Fault} (expected : fault.isExpected = true) :
    fault.IsForeseen := by
  cases fault with
  | execution refusal =>
      refine ⟨refusal, rfl, ?_⟩
      cases refusal with
      | emptyUser => exact Or.inl rfl
      | callsTooDeep => exact Or.inr (Or.inl rfl)
      | questionInExpression name => exact Or.inr (Or.inr ⟨name, name_of_asking expected, rfl⟩)
      | _ => cases expected
  | _ => cases expected

theorem Refusal.message_ne_questionPending {refusal : Refusal}
    (expected : refusal.isExpected = true) :
    refusal.message ≠ "a confirmation is already pending" := by
  cases refusal with
  | emptyUser => decide
  | callsTooDeep => decide
  | questionInExpression name =>
      apply ne_of_prefix (prefix_append (prefix_append (List.prefix_refl _) _) _)
      decide
  | _ => cases expected

/-- Nothing that is accounted for reads like a question that comes while another
one waits. -/
theorem Fault.message_ne_questionPending {fault : Fault}
    (known : (fault.isTextual || fault.isExpected) = true) :
    fault.message ≠ "ERR_EXEC: a confirmation is already pending" := by
  cases fault with
  | lexical char offset =>
      apply ne_of_prefix
        (prefix_append (prefix_append (prefix_append (List.prefix_refl _) _) _) _)
      decide
  | grammatical misfit offset =>
      apply ne_of_prefix
        (prefix_append (prefix_append (prefix_append (List.prefix_refl _) _) _) _)
      decide
  | unknownCommand name offset =>
      apply ne_of_prefix (prefix_append (prefix_append (List.prefix_refl _) _) _)
      decide
  | execution refusal =>
      intro same
      have tails := calc
        "ERR_EXEC: ".toList ++ refusal.message.toList
          = (message (.execution refusal)).toList := String.toList_append.symm
        _ = "ERR_EXEC: a confirmation is already pending".toList := congrArg String.toList same
        _ = "ERR_EXEC: ".toList ++ "a confirmation is already pending".toList := by decide
      exact Refusal.message_ne_questionPending known
        (String.toList_inj.mp (List.append_cancel_left tails))

/-- The commands of a line fit their handlers: whatever the session, they are
refused for one of three reasons only.  In a session that is only given lines no
question is ever asked while another one waits; the lines that nobody typed
report nothing at all, so nothing is hidden by clearing the journal. -/
theorem Command.handlers_accept_parsed :
    (∀ line commands, parseLine line = .ok commands -> ∀ command ∈ commands,
      ∀ piping session fault after, SessionM.execute piping command session = .error fault after ->
        fault.IsForeseen)
      ∧ (∀ (settings : Settings) (lines : List String),
          ∀ entry ∈ (lines.foldl Session.submit (Session.start settings)).journal.entries,
            entry.severity = .error ->
              entry.message ≠ "ERR_EXEC: a confirmation is already pending")
      ∧ ∀ line, (line ∈ Session.scriptLines
            ∨ ∃ question answer lines, Question.onAnswer? question answer = some lines
              ∧ line ∈ lines) ->
          ∀ script session, ∃ after, SessionM.runLineWith script line session = .ok () after := by
  refine ⟨?_, ?_, ?_⟩
  · intro line commands parsed command member piping session fault after failed
    have fits := (parseLine_fits line).1 commands parsed command member
    have expected := SessionM.behaves_executeWith Session.runScript piping command fits session
    rw [SessionM.execute] at failed
    rw [failed] at expected
    exact Fault.isForeseen_of_isExpected expected
  · intro settings lines entry member error
    have orderly := Session.orderly_foldl_submit (Session.orderly_start settings) lines
    have reported : entry.message
        ∈ (lines.foldl Session.submit (Session.start settings)).journal.errors :=
      List.mem_map_of_mem (List.mem_filter.mpr ⟨Array.mem_toList_iff.mpr member, by simp [error]⟩)
    rcases orderly.accounted entry.message reported with ⟨fault, same, known⟩
    rw [same]
    exact Fault.message_ne_questionPending known
  · intro line ours script session
    have quiet : SessionM.isQuietLine line = true := by
      rcases ours with scripted | ⟨question, answer, lines, answered, member⟩
      · exact SessionM.scriptLines_quiet line scripted
      · exact SessionM.onAnswer_quiet answered line member
    rcases SessionM.runLineWith_quiet quiet session with ⟨after, ran, _⟩
    exact ⟨after, ran script⟩

theorem Command.handlers_accept_parsed_refused :
    let asking : Command :=
      { name := "echo", action := .echo, span := ⟨0, 7⟩
        parameters := [.expression (.call { name := "yn", action := .confirm, parameters := []
                                            span := ⟨5, 7⟩ })] }
    let deepest := { Session.start {} with callDepth := SessionM.maxCallDepth }
    let entry : Entry :=
      { severity := .error, message := "ERR_EXEC: First argument of user cannot be empty" }
    parseLine "echo yn" = .ok [asking]
      ∧ (∃ after, SessionM.execute true asking (Session.start {})
          = .error (.execution (.questionInExpression "yn")) after)
      ∧ Fault.IsForeseen (.execution (.questionInExpression "yn"))
      ∧ (∃ after, SessionM.execute false asking deepest = .error (.execution .callsTooDeep) after)
      ∧ Fault.IsForeseen (.execution .callsTooDeep)
      ∧ entry ∈ (["yn", "n", "user \"\""].foldl Session.submit (Session.start {})).journal.entries
      ∧ entry.message ≠ "ERR_EXEC: a confirmation is already pending"
      ∧ ∃ after, SessionM.runLineWith id "motd" (Session.start {}) = .ok () after := by
  intro asking deepest entry
  have parsed : parseLine "echo yn" = .ok [asking] := by
    dsimp only [asking]
    with_unfolding_all rfl
  have reported : entry
      ∈ (["yn", "n", "user \"\""].foldl Session.submit (Session.start {})).journal.entries := by
    decide +kernel
  rcases handlers_accept_parsed with ⟨accepted, unasked, silent⟩
  have refused := accepted _ _ parsed asking List.mem_cons_self
  exact ⟨parsed, ⟨_, rfl⟩, refused true (Session.start {}) _ _ rfl, ⟨_, rfl⟩,
    refused false deepest _ _ rfl, reported, unasked {} _ entry reported rfl,
    silent "motd" (.inl (by decide)) id (Session.start {})⟩

end LineShell
