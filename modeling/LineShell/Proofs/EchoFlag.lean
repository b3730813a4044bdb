import LineShell.Proofs.Regularity
import LineShell.Proofs.Suspension

namespace LineShell

/-!
# Who turns the showing of lines on

Whether lines are shown is for the host of a session to say.  One command
meddles with it: it runs the script without its lines being shown, and turns the
showing on when it is done, whatever it was before.  No other command touches
it, and a line that asks a question turns it on for the answer.

So what a line leaves is known from what was there before and from whether the
script runs.  That is more than whether the command stands in the line: what
comes behind a fault is not carried out, nor is a call for which no level is
left.
-/

open Steps

/-! ## Coming to the script -/

/-- Whether a step comes to a value, and what is asked of it and of the session
that it leaves is so. -/
def SessionM.leadsTo {α : Type} (step : SessionM α) (holds : α -> Session -> Bool)
    (session : Session) : Bool :=
  match step session with
  | .ok value after => holds value after
  | .error _ _ => false

mutual

/-- Whether the evaluation of an expression comes to run the script. -/
def Expr.rehearses : Expr -> Session -> Bool
  | .number _, _ | .text _, _ | .word _, _ | .boolean _, _ | .var _, _ => false
  | .binary _ left right, session =>
      left.rehearses session
        || (SessionM.evaluate left).leadsTo (fun _ after => right.rehearses after) session
  | .unary operator _ operand, session => !operator.isStep && operand.rehearses session
  | .call command, session =>
      decide (session.callDepth < SessionM.maxCallDepth)
        && command.rehearses { session with callDepth := session.callDepth + 1 }
  | .array items, session => Expr.someRehearses items session

def Expr.someRehearses : List Expr -> Session -> Bool
  | [], _ => false
  | item :: items, session =>
      item.rehearses session
        || (SessionM.evaluate item).leadsTo (fun _ after => Expr.someRehearses items after) session

/-- Whether the evaluation of the argument after `skip` others comes to run the
script. -/
def Argument.rehearsesAt (skip : Nat) : List Argument -> Session -> Bool
  | [], _ => false
  | argument :: arguments, session =>
      match skip with
      | 0 =>
          match argument with
          | .expression value => value.rehearses session
          | _ => false
      | skip + 1 => Argument.rehearsesAt skip arguments session

/-- Whether a command comes to run the script: it does so itself, or one does
that is called in the argument that it evaluates. -/
def Command.rehearses : Command -> Session -> Bool
  | { name := _, action, parameters, span := _ }, session =>
      match action with
      | .test => true
      | .echo | .evaluate => Argument.rehearsesAt 0 parameters session
      | .assign =>
          (Command.text? parameters 0).isSome && Argument.rehearsesAt 1 parameters session
      | .stack =>
          decide (Command.text? parameters 0 = some "set") && (Command.text? parameters 1).isSome
            && Argument.rehearsesAt 2 parameters session
      | .help | .clear | .user | .motd | .cd | .confirm | .license => false

end

def Command.someRehearses : List Command -> Session -> Bool
  | [], _ => false
  | command :: remaining, session =>
      command.rehearses session
        || (SessionM.execute false command).leadsTo (fun outcome after =>
            match outcome with
            | .value _ => Command.someRehearses remaining after
            | .ask _ => false) session

/-- Whether a line, taken in by a session in which no question waits, comes to
run the script. -/
def Session.rehearses (session : Session) (line : String) : Bool :=
  match Command.parseLine (SessionM.trimmed line) with
  | .ok commands => Command.someRehearses commands session
  | .error _ => false

/-! ## What commands leave -/

namespace Session

/-- Lines are shown in the second session if they are in the first one. -/
def SameEcho (session after : Session) : Prop :=
  after.terminal.echo = session.terminal.echo

theorem effects_sameEcho : Effects SameEcho where
  refl _ := rfl
  trans first second := Eq.trans second first
  stored _ _ _ := rfl
  flushed _ := rfl
  renamed session name := by
    unfold SameEcho withUser
    split
    · rfl
    · rfl
  moved _ _ := rfl
  returned same := same

theorem shown_sameEcho (piping : Bool) :
    piping = false -> ∀ (session : Session) message,
      SameEcho session (session.note .info message) :=
  fun _ _ _ => rfl

end Session

namespace SessionM

variable {α β : Type}

/-- After the step lines are shown exactly if they were before or the script
ran, whether it fails or not. -/
def Shows (rehearses : Session -> Bool) (step : SessionM α) : Prop :=
  ∀ session,
    Ensures (fun _ after => after.terminal.echo = (session.terminal.echo || rehearses session))
      (fun _ after => after.terminal.echo = (session.terminal.echo || rehearses session))
      (step session)

theorem shows_of_moves {step : SessionM α} (same : Moves Session.SameEcho step) :
    Shows (fun _ => false) step := by
  intro session
  simp only [Bool.or_false]
  exact same session

theorem leadsTo_of_ok {step : SessionM α} {holds : α -> Session -> Bool} {session after : Session}
    {value : α} (ran : step session = .ok value after) :
    step.leadsTo holds session = holds value after := by
  rw [leadsTo, ran]

theorem leadsTo_of_error {step : SessionM α} {holds : α -> Session -> Bool}
    {session after : Session} {fault : Fault} (ran : step session = .error fault after) :
    step.leadsTo holds session = false := by
  rw [leadsTo, ran]

/-- A sequence comes to the script in its first step, or behind it. -/
theorem shows_bind {step : SessionM α} {next : α -> SessionM β} {first : Session -> Bool}
    {second : α -> Session -> Bool} (before : Shows first step)
    (behind : ∀ value, Shows (second value) (next value)) :
    Shows (fun session => first session || step.leadsTo second session) (step >>= next) := by
  intro session
  dsimp only
  have begun := before session
  cases ran : step session with
  | error fault after =>
      rw [bind_of_error ran, leadsTo_of_error ran, Bool.or_false]
      rw [ran] at begun
      exact begun
  | ok value after =>
      rw [bind_of_ok ran, leadsTo_of_ok ran, ← Bool.or_assoc]
      rw [ran] at begun
      have left : after.terminal.echo = (session.terminal.echo || first session) := begun
      rw [← left]
      exact behind value after

/-- What comes behind a step without touching the showing of lines changes
nothing. -/
theorem shows_andThen {step : SessionM α} {next : α -> SessionM β} {rehearses : Session -> Bool}
    (before : Shows rehearses step) (behind : ∀ value, Moves Session.SameEcho (next value)) :
    Shows rehearses (step >>= next) := by
  intro session
  refine (before session).bind fun value after left => ?_
  rw [← left]
  exact behind value after

theorem shows_calling {inner : SessionM α} {rehearses : Session -> Bool}
    (inside : Shows rehearses inner) :
    Shows (fun session => decide (session.callDepth < maxCallDepth)
      && rehearses { session with callDepth := session.callDepth + 1 }) (calling inner) := by
  intro session
  have ran := inside { session with callDepth := session.callDepth + 1 }
  simp only [calling]
  split
  · rename_i full
    rw [decide_eq_false (Nat.not_lt.mpr full), Bool.false_and, Bool.or_false]
    rfl
  · rename_i room
    rw [decide_eq_true (Nat.not_le.mp room), Bool.true_and]
    cases result : inner { session with callDepth := session.callDepth + 1 } with
    | ok value after =>
        rw [result] at ran
        exact ran
    | error fault after =>
        rw [result] at ran
        exact ran

/-- Running the script turns the showing of lines on. -/
theorem shows_rehearse (script : Session -> Session) :
    Shows (fun _ => true) (rehearse script) := by
  intro session
  rw [Bool.or_true]
  rfl

theorem shows_requiredText {next : String -> SessionM β} {parameters : List Argument} {index : Nat}
    {rehearses : Session -> Bool} (behind : ∀ text, Shows rehearses (next text)) :
    Shows (fun session => (Command.text? parameters index).isSome && rehearses session)
      (requiredText parameters index >>= next) := by
  intro session
  dsimp only
  rw [requiredText]
  cases Command.text? parameters index with
  | none =>
      rw [Option.isSome_none, Bool.false_and, Bool.or_false]
      rfl
  | some text =>
      rw [Option.isSome_some, Bool.true_and]
      exact behind text session

mutual

theorem shows_evaluateWith :
    (expression : Expr) -> Shows expression.rehearses (evaluateWith Session.runScript expression)
  | .number _ | .text _ | .word _ | .boolean _ => by
      rw [evaluateWith]
      exact shows_of_moves (moves_pure Session.effects_sameEcho _)
  | .var name => by
      rw [evaluateWith]
      exact shows_of_moves (moves_get fun _ => moves_pure Session.effects_sameEcho _)
  | .binary operator left right => by
      rw [evaluateWith]
      apply shows_bind (shows_evaluateWith left)
      intro value
      exact shows_andThen (shows_evaluateWith right) fun _ => moves_pure Session.effects_sameEcho _
  | .unary operator placement operand => by
      have inside := shows_evaluateWith operand
      have stepped := fun change => shows_of_moves
        (moves_stepOperand Session.effects_sameEcho operator change placement operand)
      cases operator <;> simp only [evaluateWith]
      · exact shows_andThen inside fun _ => moves_pure Session.effects_sameEcho _
      · exact shows_andThen inside fun _ => moves_pure Session.effects_sameEcho _
      · exact shows_andThen inside fun _ => moves_pure Session.effects_sameEcho _
      · exact stepped 1
      · exact stepped (-1)
  | .call command => by
      rw [evaluateWith]
      exact shows_andThen (shows_calling (shows_executeWith true command)) fun outcome =>
        moves_valueOf Session.effects_sameEcho _ outcome
  | .array items => by
      rw [evaluateWith]
      exact shows_andThen (shows_evaluateAll items) fun _ => moves_pure Session.effects_sameEcho _

theorem shows_evaluateAll :
    (items : List Expr) ->
      Shows (Expr.someRehearses items) (evaluateAll Session.runScript items)
  | [] => by
      rw [evaluateAll]
      exact shows_of_moves (moves_pure Session.effects_sameEcho _)
  | item :: items => by
      rw [evaluateAll]
      apply shows_bind (shows_evaluateWith item)
      intro value
      exact shows_andThen (shows_evaluateAll items) fun _ => moves_pure Session.effects_sameEcho _

theorem shows_evaluateArgument (position skip : Nat) :
    (arguments : List Argument) ->
      Shows (Argument.rehearsesAt skip arguments)
        (evaluateArgument Session.runScript position skip arguments)
  | [] => by
      rw [evaluateArgument]
      exact shows_of_moves (moves_throw Session.effects_sameEcho _)
  | argument :: arguments => by
      cases skip with
      | zero =>
          cases argument with
          | expression value =>
              simp only [evaluateArgument]
              exact shows_evaluateWith value
          | _ =>
              simp only [evaluateArgument]
              exact shows_of_moves (moves_throw Session.effects_sameEcho _)
      | succ skip =>
          simp only [evaluateArgument]
          exact shows_evaluateArgument position skip arguments

/-- A command leaves lines shown exactly if they were before or it comes to run
the script. -/
theorem shows_executeWith (piping : Bool) :
    (command : Command) ->
      Shows command.rehearses (executeWith Session.runScript piping command)
  | { name := _, action, parameters, span := _ } => by
      have evaluated := fun position skip => shows_evaluateArgument position skip parameters
      have effects := Session.effects_sameEcho
      have shown := Session.shown_sameEcho piping
      cases action <;> simp only [executeWith]
      case test => exact shows_rehearse Session.runScript
      case echo => exact shows_andThen (evaluated 1 0) fun value => moves_emit effects shown value
      case evaluate => exact shows_andThen (evaluated 1 0) fun _ => moves_pure effects _
      case assign =>
        exact shows_requiredText fun name =>
          shows_andThen (evaluated 2 1) fun value => moves_store effects name value
      case stack =>
        intro session
        rw [Command.rehearses]
        split
        · rename_i sets
          rw [decide_eq_true sets, Bool.true_and]
          exact shows_requiredText (fun name => shows_andThen (evaluated 3 2) fun value =>
            moves_store effects name value) session
        · rename_i other
          rw [decide_eq_false other, Bool.false_and, Bool.false_and]
          exact shows_of_moves (moves_inspectVariables effects shown parameters) session
      case help => exact shows_of_moves (moves_help effects shown parameters)
      case clear =>
        exact shows_of_moves (moves_clear effects (fun _ => rfl) fun _ _ => rfl)
      case user => exact shows_of_moves (moves_changeUser effects parameters)
      case motd => exact shows_of_moves (moves_get fun _ => moves_emit effects shown _)
      case cd => exact shows_of_moves (moves_changeDirectory effects parameters)
      case confirm => exact shows_of_moves (moves_pure effects _)
      case license => exact shows_of_moves (moves_pure effects _)

end

end SessionM

/-! ## What commands cannot see -/

section Kept

variable {kept : Session -> Session -> Prop}

theorem SessionM.leadsTo_of_kept {α : Type} {step : SessionM α} {asked : α -> Session -> Bool}
    (keeps : Keeps kept step)
    (alike : ∀ value {one two : Session}, kept one two -> asked value one = asked value two)
    {one two : Session} (same : kept one two) :
    step.leadsTo asked one = step.leadsTo asked two := by
  have results := keeps one two same
  rw [leadsTo, leadsTo]
  cases ran : step one <;> cases ran' : step two <;> rw [ran, ran'] at results
  · rcases results with ⟨rfl, after⟩
    exact alike _ after
  · cases results
  · cases results

mutual

theorem Expr.rehearses_of_kept (holds : Session.Kept Session.runScript kept) :
    (expression : Expr) -> ∀ {one two : Session}, kept one two ->
      expression.rehearses one = expression.rehearses two
  | .number _, _, _, _ | .text _, _, _, _ | .word _, _, _, _ | .boolean _, _, _, _
  | .var _, _, _, _ => rfl
  | .binary _ left right, _, _, same => by
      have behind := SessionM.leadsTo_of_kept (SessionM.keeps_evaluateWith holds left)
        (fun _ _ _ => Expr.rehearses_of_kept holds right) same
      rw [Expr.rehearses, Expr.rehearses, Expr.rehearses_of_kept holds left same]
      exact congrArg _ behind
  | .unary _ _ operand, _, _, same => by
      rw [Expr.rehearses, Expr.rehearses, Expr.rehearses_of_kept holds operand same]
  | .call command, _, two, same => by
      have deeper := Command.rehearses_of_kept holds command
        (holds.called same (two.callDepth + 1))
      rw [Expr.rehearses, Expr.rehearses, holds.callDepth same, deeper]
  | .array items, _, _, same => by
      rw [Expr.rehearses, Expr.rehearses, Expr.someRehearses_of_kept holds items same]

theorem Expr.someRehearses_of_kept (holds : Session.Kept Session.runScript kept) :
    (items : List Expr) -> ∀ {one two : Session}, kept one two ->
      Expr.someRehearses items one = Expr.someRehearses items two
  | [], _, _, _ => rfl
  | item :: items, _, _, same => by
      have behind := SessionM.leadsTo_of_kept (SessionM.keeps_evaluateWith holds item)
        (fun _ _ _ => Expr.someRehearses_of_kept holds items) same
      rw [Expr.someRehearses, Expr.someRehearses, Expr.rehearses_of_kept holds item same]
      exact congrArg _ behind

theorem Argument.rehearsesAt_of_kept (holds : Session.Kept Session.runScript kept) (skip : Nat) :
    (arguments : List Argument) -> ∀ {one two : Session}, kept one two ->
      Argument.rehearsesAt skip arguments one = Argument.rehearsesAt skip arguments two
  | [], _, _, _ => rfl
  | argument :: arguments, _, _, same => by
      cases skip with
      | zero =>
          cases argument with
          | expression value => exact Expr.rehearses_of_kept holds value same
          | _ => rfl
      | succ skip => exact Argument.rehearsesAt_of_kept holds skip arguments same

/-- What a command cannot see makes no difference to whether it comes to run the
script. -/
theorem Command.rehearses_of_kept (holds : Session.Kept Session.runScript kept) :
    (command : Command) -> ∀ {one two : Session}, kept one two ->
      command.rehearses one = command.rehearses two
  | { name := _, action, parameters, span := _ }, _, _, same => by
      have evaluated := fun skip => Argument.rehearsesAt_of_kept holds skip parameters same
      cases action <;> simp only [Command.rehearses, evaluated]

end

theorem Command.someRehearses_of_kept (holds : Session.Kept Session.runScript kept)
    (commands : List Command) {one two : Session} (same : kept one two) :
    Command.someRehearses commands one = Command.someRehearses commands two := by
  induction commands generalizing one two with
  | nil => rfl
  | cons command commands ih =>
      rw [Command.someRehearses, Command.someRehearses,
        Command.rehearses_of_kept holds command same]
      apply congrArg
      apply SessionM.leadsTo_of_kept (SessionM.keeps_executeWith holds false command) _ same
      intro outcome one two same
      cases outcome with
      | value value => exact ih same
      | ask question => rfl

end Kept

/-! ## Lines -/

theorem Session.isAwaiting_of_idle {session : Session} (idle : session.pending? = none) :
    session.isAwaiting = false := by
  rw [isAwaiting, idle]
  rfl

namespace SessionM

/-- What is known of the showing of lines after commands: it is on exactly if it
was before, the script ran, or a question waits for its answer.  After a fault
no question waits. -/
def Reports (session : Session) (rehearsed : Bool) (result : EStateM.Result Fault Session Unit) :
    Prop :=
  Ensures
    (fun _ after => after.terminal.echo
      = (session.terminal.echo || rehearsed || after.isAwaiting))
    (fun _ after => after.terminal.echo = (session.terminal.echo || rehearsed)
      ∧ after.isAwaiting = false)
    result

theorem reports_still {session : Session} (idle : session.pending? = none) :
    Reports session false (.ok () session) := by
  have same : session.terminal.echo
      = (session.terminal.echo || false || session.isAwaiting) := by
    rw [Session.isAwaiting_of_idle idle, Bool.or_false, Bool.or_false]
  exact same

/-- A question that is asked turns the showing of lines on for its answer. -/
theorem reports_ask {session : Session} (idle : session.pending? = none) (question : Question)
    (remaining : List Command) : Reports session false (ask question remaining session) := by
  rw [ask, get_bind, Session.isAwaiting_of_idle idle]
  exact (Bool.or_true _).symm

theorem reports_runCommands (commands : List Command) {session : Session}
    (idle : session.pending? = none) :
    Reports session (Command.someRehearses commands session) (runCommands commands session) := by
  induction commands generalizing session with
  | nil => exact reports_still idle
  | cons command commands ih =>
      have shown : Ensures _ _ (execute false command session) :=
        shows_executeWith false command session
      have changes := confined_execute false command session
      rw [Reports, Command.someRehearses, ← Bool.or_assoc]
      cases ran : execute false command session with
      | error fault after =>
          rw [ran] at shown changes
          rw [leadsTo_of_error ran, Bool.or_false, runCommands, runCommandsWith_of_error ran]
          exact ⟨shown, Session.isAwaiting_of_idle (changes.pending_eq.trans idle)⟩
      | ok outcome after =>
          rw [ran] at shown changes
          have left : after.terminal.echo = (session.terminal.echo || command.rehearses session) :=
            shown
          have free : after.pending? = none := changes.pending_eq.trans idle
          rw [leadsTo_of_ok ran, ← left, runCommands]
          cases outcome with
          | value value =>
              rw [runCommandsWith_of_value ran]
              exact ih free
          | ask question =>
              rw [runCommandsWith_of_ask ran]
              exact reports_ask free question commands

theorem showLine_journal (line : String) (session : Session) :
    ∃ journal, showLine line session = .ok () { session with journal } := by
  rw [showLine, get_bind]
  split
  · exact ⟨_, rfl⟩
  · exact ⟨session.journal, rfl⟩

theorem warn_journal (warnings : List Warning) (session : Session) :
    ∃ journal, (warnings.forM fun warning => modify fun session : Session =>
        session.note .warning warning.message : SessionM Unit) session
      = .ok () { session with journal } := by
  induction warnings generalizing session with
  | nil => exact ⟨session.journal, rfl⟩
  | cons warning warnings ih =>
      rcases ih (session.note .warning warning.message) with ⟨journal, ran⟩
      exact ⟨journal, ran⟩

/-- A line shows itself and its warnings in the journal, and runs its commands if
it has any. -/
theorem reports_runLine (line : String) {session : Session} (idle : session.pending? = none) :
    Reports session (session.rehearses line) (runLine line session) := by
  have failing : ∀ fault (journal : Journal),
      Reports session false (.error fault { session with journal }) :=
    fun _ _ => ⟨(Bool.or_false _).symm, Session.isAwaiting_of_idle idle⟩
  rw [Session.rehearses]
  by_cases blank : (Text.skipSpaces line.toList).all Text.isBlank = true
  · have nothing : runLine line session = .ok () session := by
      simp only [runLine, runLineWith, if_pos blank]
      rfl
    rw [nothing]
    split
    · rename_i commands parsed
      exact absurd parsed (parseLine_ne_ok_of_blank blank commands)
    · exact reports_still idle
  · rcases showLine_journal (trimmed line) session with ⟨journal, shown⟩
    cases begun : Parser.start (trimmed line) with
    | error fault =>
        rw [Command.parseLine_of_fault begun]
        simp only [trimmed] at shown begun
        simp only [runLine, runLineWith, if_neg blank]
        rw [bind_of_ok shown, begun]
        exact failing fault journal
    | ok state =>
        cases read : Parser.line state with
        | error fault after =>
            rcases warn_journal after.warnings { session with journal } with ⟨journal, warned⟩
            rw [Command.parseLine_of_error begun read]
            simp only [trimmed] at shown begun
            simp only [runLine, runLineWith, if_neg blank]
            rw [bind_of_ok shown]
            simp only [begun, read]
            rw [bind_of_ok warned]
            exact failing fault journal
        | ok commands after =>
            rcases warn_journal after.warnings { session with journal } with ⟨journal, warned⟩
            have said : Command.someRehearses commands { session with journal }
                = Command.someRehearses commands session :=
              Command.someRehearses_of_kept (Session.kept_agrees none) commands ⟨rfl, idle⟩
            have ran : Reports { session with journal } _
                (runCommands commands { session with journal }) :=
              reports_runCommands commands idle
            rw [said] at ran
            rw [Command.parseLine_of_ok begun read, runLine,
              runLineWith_of_read Session.runScript begun read, bind_of_ok shown,
              bind_of_ok warned]
            exact ran

end SessionM

namespace Session

theorem echo_settle {session : Session} {rehearsed : Bool} {step : SessionM Unit}
    (ran : SessionM.Reports session rehearsed (step session)) :
    (session.settle step).terminal.echo
      = (session.terminal.echo || rehearsed || (session.settle step).isAwaiting) := by
  rw [settle]
  cases result : step session with
  | ok value after =>
      rw [result] at ran
      exact ran
  | error fault after =>
      rw [result] at ran
      rcases ran with ⟨shown, free⟩
      have still : (after.report fault).isAwaiting = false := free
      rw [still, Bool.or_false]
      exact shown

theorem rehearses_setCanType {session : Session} (idle : session.pending? = none) (canType : Bool)
    (line : String) : (session.setCanType canType).rehearses line = session.rehearses line := by
  rw [rehearses, rehearses]
  split
  · rename_i commands _
    exact Command.someRehearses_of_kept (kept_agrees none) commands ⟨rfl, idle⟩
  · rfl

/-- What a line leaves in a session in which no question waits. -/
theorem echo_submit {session : Session} (idle : session.pending? = none) (line : String) :
    (session.submit line).terminal.echo
      = (session.terminal.echo || session.rehearses line || (session.submit line).isAwaiting) := by
  have ran : SessionM.Reports (session.setCanType false) _
      (SessionM.runLine line (session.setCanType false)) := SessionM.reports_runLine line idle
  rw [rehearses_setCanType idle] at ran
  rw [submit_of_idle idle]
  exact echo_settle ran

end Session

/-! ## Lines without the command -/

namespace Command

/-- Neither the command runs the script, nor does one that is called inside of
it. -/
def IsTestless (command : Command) : Prop :=
  command.action ≠ .test ∧ ∀ other, .call other ∈ command.expressions -> other.action ≠ .test

theorem admitted_sameEcho {command : Command} (other : command.action ≠ .test) (piping : Bool) :
    command.Admitted Session.SameEcho Session.runScript piping where
  shown := Session.shown_sameEcho piping
  cleared _ _ := rfl
  announced _ _ _ := rfl
  rehearsed tests := absurd tests other

theorem rehearses_of_testless {command : Command} (without : command.IsTestless)
    {session : Session} (idle : session.pending? = none) : command.rehearses session = false := by
  -- In a session that shows no lines, running the script would be seen.
  let hidden := session.setEcho false
  have same := SessionM.moves_executeWith Session.effects_sameEcho false command
    (admitted_sameEcho without.1 false)
    (fun other called => admitted_sameEcho (without.2 other called) true) hidden
  have shown := SessionM.shows_executeWith false command hidden
  have alike : command.rehearses session = command.rehearses hidden :=
    rehearses_of_kept (Session.kept_agrees none) command ⟨rfl, idle⟩
  rw [alike]
  cases ran : SessionM.executeWith Session.runScript false command hidden with
  | ok outcome after =>
      rw [ran] at same shown
      have both : (false || command.rehearses hidden) = false := Eq.trans shown.symm same
      exact both
  | error fault after =>
      rw [ran] at same shown
      have both : (false || command.rehearses hidden) = false := Eq.trans shown.symm same
      exact both

theorem someRehearses_of_testless {commands : List Command}
    (without : ∀ command ∈ commands, command.IsTestless) {session : Session}
    (idle : session.pending? = none) : someRehearses commands session = false := by
  induction commands generalizing session with
  | nil => rfl
  | cons command commands ih =>
      rcases List.forall_mem_cons.mp without with ⟨first, others⟩
      have changes := SessionM.confined_execute false command session
      rw [someRehearses, rehearses_of_testless first idle, Bool.false_or]
      cases ran : SessionM.execute false command session with
      | error fault after => rw [SessionM.leadsTo_of_error ran]
      | ok outcome after =>
          rw [ran] at changes
          rw [SessionM.leadsTo_of_ok ran]
          cases outcome with
          | value value => exact ih others (changes.pending_eq.trans idle)
          | ask question => rfl

end Command

namespace Session

/-- A line that asks nothing leaves lines shown exactly if they were before or it
comes to run the script.  So it gives the showing of lines back as it found it,
unless lines were not shown and the script runs; and a line in which the command
for that does not stand always does. -/
theorem submit_echo {session : Session} {line : String} (idle : session.pending? = none)
    (settled : (session.submit line).pending? = none) :
    (session.submit line).terminal.echo = (session.terminal.echo || session.rehearses line)
      ∧ ((session.submit line).terminal.echo = session.terminal.echo
          ↔ session.terminal.echo = true ∨ session.rehearses line = false)
      ∧ ((∀ commands, Command.parseLine (SessionM.trimmed line) = .ok commands ->
            ∀ command ∈ commands, command.IsTestless) ->
          (session.submit line).terminal.echo = session.terminal.echo) := by
  have left : (session.submit line).terminal.echo
      = (session.terminal.echo || session.rehearses line) := by
    rw [echo_submit idle, isAwaiting_of_idle settled, Bool.or_false]
  refine ⟨left, ?_, ?_⟩
  · rw [left]
    cases session.terminal.echo <;> cases session.rehearses line <;> decide
  · intro without
    have unrehearsed : session.rehearses line = false := by
      rw [rehearses]
      split
      · rename_i commands parsed
        exact Command.someRehearses_of_testless (without commands parsed) idle
      · rfl
    rw [left, unrehearsed, Bool.or_false]

theorem submit_echo_failing :
    let hidden := (start {}).setEcho false
    let line := "x = [1, (test)]; user \"\"; y = 2"
    hidden.pending? = none ∧ (hidden.submit line).pending? = none
      ∧ hidden.terminal.echo = false ∧ hidden.rehearses line = true
      ∧ (hidden.submit line).terminal.echo = true := by
  intro hidden line
  have settled : (hidden.submit line).pending? = none :=
    Option.isNone_iff_eq_none.mp (by decide +kernel)
  have rehearsed : hidden.rehearses line = true := by decide +kernel
  refine ⟨rfl, settled, rfl, rehearsed, ?_⟩
  rw [(submit_echo rfl settled).1, rehearsed, Bool.or_true]

/-- The showing of lines is not given back to a host that has turned it off. -/
theorem submit_test_shows_lines :
    let hidden := (start {}).setEcho false
    hidden.isAwaiting = false ∧ (hidden.submit "test").isAwaiting = false
      ∧ (hidden.submit "test").terminal.echo ≠ hidden.terminal.echo := by
  decide +kernel

end Session
end LineShell
