import LineShell.Proofs.Agreement

namespace LineShell

/-!
# Questions do not disturb the line they stand in

A command that asks a question suspends its line, and a valid answer resumes
it.  Between the two stands any number of lines that are no answers.  However
the conversation goes, the variables, the user and the directories are those of
the line without its questions, run as far as the question that waits.

The proof follows a conversation through its stages: a line is either finished,
or suspended at one of its questions, and a submitted line leads from a stage
to a stage.
-/

open Steps

/-! ## Commands that ask -/

namespace Command

/-- The question that a command asks. -/
def question? (command : Command) : Option Question :=
  match command.action with
  | .confirm => some .sample
  | .license => some .license
  | _ => none

def asks (command : Command) : Bool :=
  command.question?.isSome

/-- The commands that ask no question. -/
def plain (commands : List Command) : List Command :=
  commands.filter fun command => !command.asks

theorem plain_append (before after : List Command) :
    plain (before ++ after) = plain before ++ plain after :=
  List.filter_append ..

theorem plain_cons_of_question {command : Command} {question : Question}
    (asked : command.question? = some question) (commands : List Command) :
    plain (command :: commands) = plain commands := by
  simp [plain, asks, asked]

theorem plain_cons_of_none {command : Command} (asked : command.question? = none)
    (commands : List Command) : plain (command :: commands) = command :: plain commands := by
  simp [plain, asks, asked]

theorem question?_relocate (place : Nat -> Nat) (command : Command) :
    (command.relocate place).question? = command.question? := by
  cases command
  rfl

theorem asks_relocate (place : Nat -> Nat) (command : Command) :
    (command.relocate place).asks = command.asks := by
  rw [asks, asks, question?_relocate]

end Command

namespace SessionM

variable {α : Type} {script : Session -> Session}

/-- A step that, if it does not fail, comes to a value. -/
def GivesValue (step : SessionM Outcome) : Prop :=
  ∀ session, Ensures (fun outcome _ => ∃ value, outcome = .value value) (fun _ _ => True)
    (step session)

theorem givesValue_pure (value : Value) : GivesValue (pure (.value value)) :=
  fun _ => ⟨value, rfl⟩

theorem givesValue_refuse (refusal : Refusal) : GivesValue (refuse refusal) :=
  fun _ => trivial

theorem givesValue_bind {step : SessionM α} {next : α -> SessionM Outcome}
    (second : ∀ value, GivesValue (next value)) : GivesValue (step >>= next) := by
  intro session
  have first : Ensures (fun _ _ => True) (fun _ _ => True) (step session) := by
    cases step session <;> trivial
  exact first.bind fun value after _ => second value after

theorem givesValue_emit (piping : Bool) (value : Value) : GivesValue (emit piping value) := by
  cases piping with
  | true => exact givesValue_pure value
  | false => exact givesValue_bind fun _ => givesValue_pure value

theorem givesValue_store (name : String) (value : Value) : GivesValue (store name value) :=
  givesValue_bind fun _ => givesValue_pure value

theorem givesValue_help (piping : Bool) (parameters : List Argument) :
    GivesValue (help piping parameters) := by
  rw [help]
  cases Command.text? parameters 0 with
  | none => exact givesValue_emit piping _
  | some name =>
      cases found : Builtin.find? name with
      | none =>
          simp only [found]
          exact fun _ => trivial
      | some builtin =>
          simp only [found]
          exact givesValue_emit piping _

theorem givesValue_clear (parameters : List Argument) : GivesValue (clear parameters) := by
  apply givesValue_bind
  intro _
  split
  · exact givesValue_bind fun _ => givesValue_pure _
  · exact givesValue_pure _

theorem givesValue_changeUser (parameters : List Argument) :
    GivesValue (changeUser parameters) := by
  rw [changeUser]
  split
  · exact givesValue_refuse _
  · exact givesValue_bind fun _ => givesValue_pure _

theorem givesValue_inspectVariables (piping : Bool) (parameters : List Argument) :
    GivesValue (inspectVariables piping parameters) := by
  simp only [inspectVariables]
  split
  · exact givesValue_bind fun _ => givesValue_bind fun _ => givesValue_emit piping _
  · split
    · apply givesValue_bind
      intro session
      split
      · exact givesValue_pure _
      · exact givesValue_bind fun _ => givesValue_pure _
    · split
      · exact givesValue_bind fun _ => givesValue_pure _
      · exact givesValue_refuse _

/-- A command without a question comes to a value. -/
theorem givesValue_executeWith (script : Session -> Session) (piping : Bool) {command : Command}
    (asked : command.question? = none) : GivesValue (executeWith script piping command) := by
  rcases command with ⟨name, action, parameters, span⟩
  cases action <;> simp only [executeWith]
  · exact givesValue_help piping parameters
  · exact givesValue_bind fun value => givesValue_emit piping value
  · exact givesValue_clear parameters
  · exact givesValue_changeUser parameters
  · split
    · exact givesValue_bind fun name => givesValue_bind fun value => givesValue_store name value
    · exact givesValue_inspectVariables piping parameters
  · exact givesValue_bind fun _ => givesValue_emit piping _
  · exact givesValue_bind fun _ => givesValue_bind fun _ => givesValue_pure _
  · exact givesValue_bind fun _ => givesValue_pure _
  · cases asked
  · cases asked
  · exact givesValue_bind fun name => givesValue_bind fun value => givesValue_store name value
  · exact givesValue_bind fun _ => givesValue_pure _

theorem executeWith_of_question {command : Command} {question : Question}
    (asked : command.question? = some question) (piping : Bool) (session : Session) :
    executeWith script piping command session = .ok (.ask question) session := by
  rcases command with ⟨name, action, parameters, span⟩
  cases action <;> cases asked <;> rfl

/-! ## Running commands one by one -/

section Running

variable {command : Command} {session after : Session}

theorem runCommandsWith_of_value {value : Value}
    (ran : executeWith script false command session = .ok (.value value) after)
    (commands : List Command) :
    runCommandsWith script (command :: commands) session
      = runCommandsWith script commands after := by
  rw [runCommandsWith, bind_of_ok ran]

theorem runCommandsWith_of_ask {question : Question}
    (ran : executeWith script false command session = .ok (.ask question) after)
    (commands : List Command) :
    runCommandsWith script (command :: commands) session = ask question commands after := by
  rw [runCommandsWith, bind_of_ok ran]

theorem runCommandsWith_of_error {fault : Fault}
    (ran : executeWith script false command session = .error fault after)
    (commands : List Command) :
    runCommandsWith script (command :: commands) session = .error fault after := by
  rw [runCommandsWith, bind_of_error ran]

/-- Plain commands run one after the other, up to a fault. -/
theorem runCommandsWith_plain_append (before commands : List Command) {reached : Session}
    (ran : runCommandsWith script (Command.plain before) session = .ok () reached) :
    runCommandsWith script (Command.plain before ++ commands) session
      = runCommandsWith script commands reached := by
  induction before generalizing session with
  | nil =>
      cases ran
      rfl
  | cons command before ih =>
      cases asked : command.question? with
      | some question =>
          rw [Command.plain_cons_of_question asked] at ran ⊢
          exact ih ran
      | none =>
          rw [Command.plain_cons_of_none asked] at ran ⊢
          have outcome := givesValue_executeWith script false asked session
          cases executed : executeWith script false command session with
          | error fault after =>
              rw [runCommandsWith_of_error executed] at ran
              cases ran
          | ok result after =>
              rw [executed] at outcome
              rcases outcome with ⟨value, rfl⟩
              rw [runCommandsWith_of_value executed] at ran
              rw [List.cons_append, runCommandsWith_of_value executed]
              exact ih ran

/-- Where plain commands were read from makes no difference. -/
theorem runCommandsWith_plain_relocate (place : Nat -> Nat) (commands : List Command)
    (session : Session) :
    runCommandsWith script (Command.plain (commands.map (Command.relocate place))) session
      = runCommandsWith script (Command.plain commands) session := by
  induction commands generalizing session with
  | nil => rfl
  | cons command commands ih =>
      have asked' := command.question?_relocate place
      rw [List.map_cons]
      cases asked : command.question? with
      | some question =>
          rw [asked] at asked'
          rw [Command.plain_cons_of_question asked, Command.plain_cons_of_question asked']
          exact ih session
      | none =>
          rw [asked] at asked'
          rw [Command.plain_cons_of_none asked, Command.plain_cons_of_none asked']
          have outcome := givesValue_executeWith script false asked session
          have moved := executeWith_relocate script place false command
          cases executed : executeWith script false command session with
          | error fault after =>
              rw [runCommandsWith_of_error executed, runCommandsWith_of_error]
              rw [moved, executed]
          | ok result after =>
              rw [executed] at outcome
              rcases outcome with ⟨value, rfl⟩
              rw [runCommandsWith_of_value executed, ← ih after, runCommandsWith_of_value]
              rw [moved, executed]

end Running

end SessionM

/-! ## Stages of a conversation -/

namespace Session

/-- The stages of the commands of a line that were started in the session
`origin`, after a number of questions has been answered. -/
inductive Stage (origin : Session) (commands : List Command) (answered : Nat)
    (current : Session) : Prop
  | finished (idle : current.pending? = none)
      (same : current.Agrees (origin.settle (SessionM.runCommands (Command.plain commands))))
  | suspended (before : List Command) (asking : Command) (question : Question)
      (remaining : List Command) (reached : Session)
      (shape : commands = before ++ asking :: remaining)
      (asked : asking.question? = some question)
      (waiting : current.pending? = some { question, remaining })
      (ran : SessionM.runCommands (Command.plain before) origin = .ok () reached)
      (same : current.Agrees reached)
      (counted : before.countP Command.asks = answered)

namespace Stage

variable {origin current : Session} {commands : List Command} {answered : Nat}

/-- Whether a line may be typed makes no difference. -/
theorem setCanType (stage : Stage origin commands answered current) (canType : Bool) :
    Stage origin commands answered (current.setCanType canType) := by
  cases stage with
  | finished idle same => exact finished idle same
  | suspended before asking question remaining reached shape asked waiting ran same counted =>
      exact suspended before asking question remaining reached shape asked waiting ran same counted

end Stage

/-- A session that waits for the answer to a question. -/
def waitingFor (session : Session) (pending : Pending) : Session :=
  { session with pending? := some pending }

theorem Agrees.waitingFor {one two : Session} (same : one.Agrees two) (pending : Pending) :
    (one.waitingFor pending).Agrees two :=
  same

theorem await_waits (pending : Pending) (session : Session) :
    ∃ said, session.Speaks said
      ∧ SessionM.await pending session = .ok () (said.waitingFor pending) :=
  ⟨_, ((Speaks.refl.setMode .answer).setEcho true).setCanType true, rfl⟩

theorem ask_of_idle {session : Session} (idle : session.pending? = none) (question : Question)
    (remaining : List Command) :
    ∃ said, session.Speaks said ∧ SessionM.ask question remaining session
      = .ok () (said.waitingFor { question, remaining }) := by
  have free : session.isAwaiting = false := by rw [isAwaiting, idle]; rfl
  rcases await_waits { question, remaining } (session.note .info (question.wording ++ " [y/n]"))
    with ⟨said, speaks, ran⟩
  refine ⟨said, (Speaks.refl.note _ (by decide)).trans speaks, ?_⟩
  rw [SessionM.ask, get_bind]
  simp only [free, Bool.false_eq_true, if_false]
  exact ran

theorem settle_of_ok {session after : Session} {step : SessionM Unit}
    (ran : step session = .ok () after) : session.settle step = after := by
  rw [settle, ran]

theorem settle_of_error {session after : Session} {step : SessionM Unit} {fault : Fault}
    (ran : step session = .error fault after) : session.settle step = after.report fault := by
  rw [settle, ran]

theorem settle_congr {session session' : Session} {step step' : SessionM Unit}
    (same : step session = step' session') : session.settle step = session'.settle step' := by
  rw [settle, settle, same]

/-- Running the rest of a line leads to a stage of the line. -/
theorem stage_of_run {origin current reached : Session} {before : List Command}
    (rest : List Command) (idle : current.pending? = none)
    (ran : SessionM.runCommands (Command.plain before) origin = .ok () reached)
    (same : current.Agrees reached) :
    Stage origin (before ++ rest) (before.countP Command.asks)
      (current.settle (SessionM.runCommands rest)) := by
  induction rest generalizing before current reached with
  | nil =>
      have ends : current.settle (SessionM.runCommands []) = current := settle_of_ok rfl
      rw [List.append_nil, ends]
      apply Stage.finished idle
      rw [settle_of_ok ran]
      exact same
  | cons command rest ih =>
      cases asked : command.question? with
      | some question =>
          rcases ask_of_idle idle question rest with ⟨said, speaks, waits⟩
          have suspends : SessionM.runCommands (command :: rest) current
              = .ok () (said.waitingFor { question, remaining := rest }) := by
            rw [SessionM.runCommands, SessionM.runCommandsWith_of_ask
              (SessionM.executeWith_of_question asked false current)]
            exact waits
          rw [settle_of_ok suspends]
          exact .suspended before command question rest reached rfl asked rfl ran
            ((speaks.agrees.trans same).waitingFor _) rfl
      | none =>
          have outcome := SessionM.givesValue_executeWith runScript false asked current
          have kept := SessionM.keeps_executeWith (kept_agrees none) false command current reached
            ⟨same, idle⟩
          have joined := fun more => SessionM.runCommandsWith_plain_append before more ran
          cases executed : SessionM.executeWith runScript false command current <;>
            cases executed' : SessionM.executeWith runScript false command reached <;>
            rw [executed, executed'] at kept
          · rename_i result after result' after'
            rcases kept with ⟨rfl, same, idle⟩
            rw [executed] at outcome
            rcases outcome with ⟨value, rfl⟩
            have further : SessionM.runCommands (Command.plain (before ++ [command])) origin
                = .ok () after' := by
              rw [Command.plain_append, Command.plain_cons_of_none asked, SessionM.runCommands,
                joined, SessionM.runCommandsWith_of_value executed']
              rfl
            have stage := ih idle further same
            have quiet : command.asks = false := by rw [Command.asks, asked]; rfl
            rw [List.append_assoc, List.countP_append, List.countP_singleton, quiet] at stage
            have resumed := SessionM.runCommandsWith_of_value executed rest
            rw [SessionM.runCommands, settle_congr resumed]
            exact stage
          · cases kept
          · cases kept
          · rename_i fault after fault' after'
            rcases kept with ⟨rfl, same, idle⟩
            have failed : SessionM.runCommands (Command.plain (before ++ command :: rest)) origin
                = .error fault after' := by
              rw [Command.plain_append, Command.plain_cons_of_none asked, SessionM.runCommands,
                joined, SessionM.runCommandsWith_of_error executed']
            have stops := SessionM.runCommandsWith_of_error executed rest
            rw [SessionM.runCommands, settle_of_error stops]
            have reported : (after.report fault).pending? = none := idle
            apply Stage.finished reported
            rw [settle_of_error failed]
            exact same

/-! ## Answers -/

def isAnswer (line : String) : Bool :=
  line = "y" || line = "n"

theorem onAnswer?_of_answer {line : String} (valid : isAnswer line = true)
    (question : Question) : ∃ lines, question.onAnswer? line = some lines := by
  simp only [isAnswer, Bool.or_eq_true, decide_eq_true_eq] at valid
  rw [Question.onAnswer?]
  rcases valid with rfl | rfl
  · exact ⟨_, rfl⟩
  · exact ⟨_, rfl⟩

theorem onAnswer?_of_other {line : String} (invalid : isAnswer line = false)
    (question : Question) : question.onAnswer? line = none := by
  simp only [isAnswer, Bool.or_eq_false_iff, decide_eq_false_iff_not] at invalid
  rw [Question.onAnswer?, if_neg invalid.1, if_neg invalid.2]

/-- What is said before a line is taken as an answer. -/
theorem takeAnswer_speaks (line : String) (session : Session) :
    ∃ taken, session.Speaks taken ∧ ∀ pending,
      SessionM.answer pending line session
        = (match pending.question.onAnswer? line with
          | none => do
              SessionM.log "value must be one of y or n!"
              SessionM.await pending
          | some lines => do
              lines.forM fun line => modify fun session => session.settle (SessionM.runLine line)
              modify fun session => session.setEcho true
              SessionM.runCommands pending.remaining : SessionM Unit) taken := by
  rcases SessionM.showLine_speaks line session with ⟨shown, ran, speaks⟩
  refine ⟨_, ((speaks.setMode .command).setEcho false).setCanType false, ?_⟩
  intro pending
  rw [SessionM.answer, bind_of_ok ran]
  rfl

/-- A line that is no answer leaves the question as it was. -/
theorem answer_of_other {line : String} (invalid : isAnswer line = false) (pending : Pending)
    (session : Session) :
    ∃ said, session.Speaks said
      ∧ SessionM.answer pending line session = .ok () (said.waitingFor pending) := by
  rcases takeAnswer_speaks line session with ⟨taken, speaks, ran⟩
  rcases await_waits pending (taken.note .info "value must be one of y or n!")
    with ⟨said, more, waits⟩
  refine ⟨said, (speaks.note _ (by decide)).trans more, ?_⟩
  rw [ran, onAnswer?_of_other invalid]
  exact waits

theorem settleLines_speaks {lines : List String}
    (quiet : ∀ line ∈ lines, SessionM.isQuietLine line = true) (session : Session) :
    ∃ after, (lines.forM fun line => modify fun session : Session =>
        session.settle (SessionM.runLine line) : SessionM Unit) session = .ok () after
      ∧ session.Speaks after := by
  induction lines generalizing session with
  | nil => exact ⟨session, rfl, .refl⟩
  | cons line lines ih =>
      have first := SessionM.settle_quiet runScript (quiet line List.mem_cons_self) session
      rcases ih (fun other member => quiet other (List.mem_cons_of_mem _ member))
        (session.settle (SessionM.runLine line)) with ⟨after, ran, speaks⟩
      exact ⟨after, ran, first.trans speaks⟩

/-- An answer says what belongs to it, and resumes the line. -/
theorem answer_of_answer {line : String} (valid : isAnswer line = true) (pending : Pending)
    (session : Session) :
    ∃ resumed, session.Speaks resumed ∧ SessionM.answer pending line session
      = SessionM.runCommands pending.remaining resumed := by
  rcases takeAnswer_speaks line session with ⟨taken, speaks, ran⟩
  rcases onAnswer?_of_answer valid pending.question with ⟨lines, answered⟩
  rcases settleLines_speaks (SessionM.onAnswer_quiet answered) taken with ⟨after, said, more⟩
  refine ⟨after.setEcho true, (speaks.trans more).setEcho true, ?_⟩
  rw [ran, answered]
  simp only
  rw [bind_of_ok said]
  rfl

/-! ## Conversations -/

/-- Submits lines one by one, as long as a question waits. -/
def converse (session : Session) : List String -> Session
  | [] => session
  | line :: lines => if session.isAwaiting then (session.submit line).converse lines else session

theorem submit_of_pending {session : Session} {pending : Pending}
    (waiting : session.pending? = some pending) (line : String) :
    session.submit line
      = (({ session.setCanType false with pending? := none }).settle
          (SessionM.answer pending line)).setCanType true := by
  have still : (session.setCanType false).pending? = some pending := waiting
  simp only [submit, still]

theorem submit_of_idle {session : Session} (idle : session.pending? = none) (line : String) :
    session.submit line
      = ((session.setCanType false).settle (SessionM.runLine line)).setCanType true := by
  have still : (session.setCanType false).pending? = none := idle
  simp only [submit, still]

/-- A line that is no answer leads to the same stage. -/
theorem submit_of_other {session : Session} {pending : Pending}
    (waiting : session.pending? = some pending) {line : String}
    (invalid : isAnswer line = false) :
    (session.submit line).pending? = some pending ∧ (session.submit line).Agrees session := by
  rw [submit_of_pending waiting]
  rcases answer_of_other invalid pending { session.setCanType false with pending? := none }
    with ⟨said, speaks, ran⟩
  have alike : said.Agrees session := speaks.agrees
  rw [settle_of_ok ran]
  exact ⟨rfl, alike⟩

/-- An answer leads to a stage with one more question answered, any other line
to the same stage. -/
theorem Stage.submit {origin current : Session} {commands : List Command} {answered : Nat}
    (stage : Stage origin commands answered current) (awaiting : current.isAwaiting = true)
    (line : String) :
    Stage origin commands (answered + [line].countP isAnswer) (current.submit line) := by
  cases stage with
  | finished idle same =>
      rw [isAwaiting, idle] at awaiting
      cases awaiting
  | suspended before asking question remaining reached shape asked waiting ran same counted =>
      cases valid : isAnswer line with
      | false =>
          have unanswered : [line].countP isAnswer = 0 := by simp [valid]
          rcases submit_of_other waiting valid with ⟨still, alike⟩
          rw [unanswered, Nat.add_zero]
          exact .suspended before asking question remaining reached shape asked still ran
            (alike.trans same) counted
      | true =>
          have answered : [line].countP isAnswer = 1 := by simp [valid]
          rcases answer_of_answer valid { question, remaining }
            { current.setCanType false with pending? := none } with ⟨resumed, speaks, runs⟩
          have alike : resumed.Agrees current := speaks.agrees
          have skipped : Command.plain (before ++ [asking]) = Command.plain before := by
            rw [Command.plain_append, Command.plain_cons_of_question asked]
            exact List.append_nil _
          rw [← skipped] at ran
          have next := stage_of_run remaining speaks.pending_eq ran (alike.trans same)
          rw [List.append_assoc, List.singleton_append, ← shape, List.countP_append,
            List.countP_singleton, Command.asks, asked, counted] at next
          rw [submit_of_pending waiting, settle_congr runs, answered]
          exact next.setCanType true

/-- Every conversation about a line leads to a stage of it. -/
theorem Stage.converse {origin current : Session} {commands : List Command} {answered : Nat}
    (stage : Stage origin commands answered current) (lines : List String) :
    Stage origin commands (answered + lines.countP isAnswer) (current.converse lines) := by
  induction lines generalizing current answered with
  | nil => exact stage
  | cons line lines ih =>
      rw [Session.converse]
      cases awaiting : current.isAwaiting with
      | true =>
          have next := ih (stage.submit awaiting line)
          rw [Nat.add_assoc, ← List.countP_append, List.singleton_append] at next
          exact next
      | false =>
          cases stage with
          | finished idle same => exact .finished idle same
          | suspended before asking question remaining reached shape asked waiting ran same
              counted =>
              rw [isAwaiting, waiting] at awaiting
              cases awaiting

/-- The first line of a conversation leads to a stage of its commands. -/
theorem stage_of_submit {session : Session} {line : String} {commands : List Command}
    (idle : session.pending? = none)
    (parsed : Command.parseLine (SessionM.trimmed line) = .ok commands) :
    Stage session commands 0 (session.submit line) := by
  rcases SessionM.runLineWith_of_ok parsed (session.setCanType false)
    with ⟨said, speaks, runs⟩
  have begun : SessionM.runCommands (Command.plain []) session = .ok () session := rfl
  have alike : said.Agrees session := speaks.agrees
  have stage := stage_of_run commands (speaks.pending_eq.trans idle) begun alike
  rw [submit_of_idle idle, SessionM.runLine, settle_congr (runs runScript)]
  exact stage.setCanType true

theorem run_skipSpaces (chars : List Char) :
    Token.run (· = ' ') (Text.skipSpaces chars) = 0 := by
  induction chars with
  | nil => rfl
  | cons first rest ih =>
      by_cases space : first = ' '
      · simpa [Text.skipSpaces, space] using ih
      · simp [Text.skipSpaces, Token.run, space]

/-- The spaces before a line only move the places of its commands. -/
theorem parseLine_trimmed {line : String} {commands : List Command}
    (parsed : Command.parseLine line = .ok commands) :
    ∃ found, Command.parseLine (SessionM.trimmed line) = .ok found
      ∧ commands = found.map (Command.relocate (· + Token.run (· = ' ') line.toList)) := by
  have moved : Token.Cursor.start line
      = (Token.Cursor.start (SessionM.trimmed line)).moved (Token.run (· = ' ') line.toList) := by
    simp only [Token.Cursor.start, Token.Cursor.skipSpaces, Token.Cursor.moved, SessionM.trimmed,
      String.toList_ofList, Token.Cursor.skipSpaces_skipSpaces, run_skipSpaces, Nat.zero_add]
  rcases Command.parseLine_moved moved with ⟨onOk, onError⟩
  cases found : Command.parseLine (SessionM.trimmed line) with
  | error fault =>
      rw [onError fault found] at parsed
      cases parsed
  | ok commands =>
      rw [(onOk commands found).1] at parsed
      cases parsed
      exact ⟨commands, rfl, rfl⟩

/-- Two sessions have the same variables in the same order, the same user and
the same directories. -/
structure SameState (one two : Session) : Prop where
  bindings : one.bindings = two.bindings
  user : one.terminal.user = two.terminal.user
  home? : one.terminal.home? = two.terminal.home?
  workingDirectory : one.terminal.workingDirectory = two.terminal.workingDirectory

theorem Agrees.sameState {one two : Session} (same : one.Agrees two) : one.SameState two where
  bindings := congrArg (fun session => session.bindings) same
  user := congrArg (fun session => session.terminal.user) same
  home? := congrArg (fun session => session.terminal.home?) same
  workingDirectory := congrArg (fun session => session.terminal.workingDirectory) same

/-- What a conversation that begins with a line of commands leads to.  The
places of the commands are moved by the number of spaces before the line. -/
structure Undisturbed (session : Session) (commands : List Command) (distance : Nat)
    (answers : List String) (current : Session) : Prop where
  /-- Without a question that waits, all commands have been run. -/
  finished : current.pending? = none ->
    current.SameState (session.settle (SessionM.runCommands (Command.plain commands)))
  /-- Each answer is for one question, and the question that waits is the first
  one without an answer.  What stands before it has been run, and what stands
  behind it is kept. -/
  suspended : ∀ pending, current.pending? = some pending ->
    ∃ before asking remaining reached, commands = before ++ asking :: remaining
      ∧ before.countP Command.asks = answers.countP isAnswer
      ∧ asking.question? = some pending.question
      ∧ remaining = pending.remaining.map (Command.relocate (· + distance))
      ∧ SessionM.runCommands (Command.plain before) session = .ok () reached
      ∧ current.SameState reached
  /-- Lines that are no answers change nothing. -/
  patient : ∀ pending, current.pending? = some pending ->
    ∀ others : List String, (∀ other ∈ others, other ≠ "y" ∧ other ≠ "n") ->
      (others.foldl submit current).pending? = some pending
        ∧ (others.foldl submit current).SameState current

theorem foldl_submit_of_others {session : Session} {pending : Pending}
    (waiting : session.pending? = some pending) (others : List String)
    (invalid : ∀ other ∈ others, isAnswer other = false) :
    (others.foldl submit session).pending? = some pending
      ∧ (others.foldl submit session).Agrees session := by
  induction others generalizing session with
  | nil => exact ⟨waiting, rfl⟩
  | cons other others ih =>
      rcases submit_of_other waiting (invalid other List.mem_cons_self) with ⟨still, alike⟩
      rcases ih still fun next member => invalid next (List.mem_cons_of_mem _ member)
        with ⟨waits, same⟩
      exact ⟨waits, same.trans alike⟩

/-- A conversation about a line does not disturb the commands of the line. -/
theorem converse_undisturbed {session : Session} {line : String} {commands : List Command}
    (idle : session.pending? = none) (parsed : Command.parseLine line = .ok commands)
    (answers : List String) :
    Undisturbed session commands (Token.run (· = ' ') line.toList) answers
      ((session.submit line).converse answers) := by
  rcases parseLine_trimmed parsed with ⟨found, foundParsed, rfl⟩
  have stage := (stage_of_submit idle foundParsed).converse answers
  rw [Nat.zero_add] at stage
  constructor
  · intro done
    cases stage with
    | finished _ same =>
        rw [SessionM.runCommands, settle_congr
          (SessionM.runCommandsWith_plain_relocate _ found session)]
        exact same.sameState
    | suspended _ _ _ _ _ _ _ waiting =>
        rw [waiting] at done
        cases done
  · intro pending waits
    cases stage with
    | finished done =>
        rw [waits] at done
        cases done
    | suspended before asking question remaining reached shape asked waiting ran same counted =>
        rw [waiting] at waits
        cases waits
        let moved := Command.relocate (· + Token.run (· = ' ') line.toList)
        refine ⟨before.map moved, moved asking, remaining.map moved, reached, ?_, ?_, ?_, rfl, ?_,
          same.sameState⟩
        · rw [shape, List.map_append, List.map_cons]
        · rw [List.countP_map, ← counted]
          exact List.countP_congr fun command _ => by rw [Function.comp, Command.asks_relocate]
        · exact (asking.question?_relocate _).trans asked
        · exact (SessionM.runCommandsWith_plain_relocate _ before session).trans ran
  · intro pending waits others invalid
    have others' : ∀ other ∈ others, isAnswer other = false := by
      intro other member
      simp [isAnswer, invalid other member]
    rcases foldl_submit_of_others waits others others' with ⟨still, same⟩
    exact ⟨still, same.sameState⟩

theorem converse_undisturbed_mixed :
    let line := " yn; a = true; license"
    let commands : List Command :=
      [{ name := "yn", action := .confirm, parameters := [], span := ⟨1, 3⟩ },
       { name := "a", action := .assign, parameters := [.word "a", .expression (.boolean true)]
         span := ⟨5, 13⟩ },
       { name := "license", action := .license, parameters := [], span := ⟨15, 22⟩ }]
    (start {}).pending? = none ∧ Command.parseLine line = .ok commands
      ∧ Undisturbed (start {}) commands 1 ["what", "y"]
          (((start {}).submit line).converse ["what", "y"])
      ∧ (((start {}).submit line).converse ["what", "y"]).isAwaiting = true
      ∧ (((start {}).submit line).converse ["what", "y", "n"]).isAwaiting = false := by
  intro line commands
  have parsed : Command.parseLine line = .ok commands := by
    dsimp only [line, commands]
    with_unfolding_all rfl
  have idle : (start {}).pending? = none := rfl
  have spaces : Token.run (· = ' ') line.toList = 1 := by decide
  have undisturbed := converse_undisturbed idle parsed ["what", "y"]
  rw [spaces] at undisturbed
  exact ⟨idle, parsed, undisturbed, by decide +kernel, by decide +kernel⟩

end Session
end LineShell
