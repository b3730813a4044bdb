import LineShell.Proofs.AlignedLines
import LineShell.Proofs.RoundTrip
import LineShell.Session.Line

namespace LineShell

/-!
# Lines that only speak

Answers and the script run lines that nobody typed.  These lines do nothing but
add to the journal: they cannot fail, they write no variable, and they ask no
question.  Whether a line is of this sort can be computed from its commands, so
it is checked for each of the lines that there are.

The evaluator is given what the script does.  A quiet line has no use for it, so
the script itself may be run with any script in its place, and is the only one
whose lines run with itself.
-/

open Steps

/-! ## Adding to the journal -/

def Journal.errors (journal : Journal) : List String :=
  (journal.entries.toList.filter fun entry => entry.severity = .error).map Entry.message

theorem Journal.errors_add (journal : Journal) (severity : Severity) (message : String) :
    (journal.add severity message).errors
      = journal.errors ++ if severity = .error then [message] else [] := by
  simp only [errors, add, Array.toList_push, List.filter_append, List.map_append]
  by_cases error : severity = .error <;> simp [error]

namespace Session

/-- The second session is the first one after some talking: its journal has
more entries, none of them an error, and lines may be taken in differently. -/
inductive Speaks (session : Session) : Session -> Prop
  | refl : Speaks session session
  | note {after : Session} {severity : Severity} (message : String)
      (harmless : severity ≠ .error) (before : Speaks session after) :
      Speaks session (after.note severity message)
  | setEcho {after : Session} (echo : Bool) (before : Speaks session after) :
      Speaks session (after.setEcho echo)
  | setMode {after : Session} (mode : InputMode) (before : Speaks session after) :
      Speaks session (after.setMode mode)
  | setCanType {after : Session} (canType : Bool) (before : Speaks session after) :
      Speaks session (after.setCanType canType)

namespace Speaks

variable {session between after : Session}

theorem trans (first : Speaks session between) (second : Speaks between after) :
    Speaks session after := by
  induction second with
  | refl => exact first
  | note message harmless _ ih => exact ih.note message harmless
  | setEcho echo _ ih => exact ih.setEcho echo
  | setMode mode _ ih => exact ih.setMode mode
  | setCanType canType _ ih => exact ih.setCanType canType

theorem pending_eq (speaks : Speaks session after) : after.pending? = session.pending? := by
  induction speaks with
  | refl => rfl
  | note _ _ _ ih | setEcho _ _ ih | setMode _ _ ih | setCanType _ _ ih => exact ih

theorem errors_eq (speaks : Speaks session after) :
    after.journal.errors = session.journal.errors := by
  induction speaks with
  | refl => rfl
  | note message harmless _ ih =>
      rw [← ih, Session.note, Journal.errors_add, if_neg harmless, List.append_nil]
  | setEcho _ _ ih | setMode _ _ ih | setCanType _ _ ih => exact ih

end Speaks
end Session

/-! ## Quiet commands -/

mutual

/-- Whether evaluating an expression only reads variables. -/
def Expr.isQuiet : Expr -> Bool
  | .number _ | .text _ | .word _ | .boolean _ | .var _ => true
  | .binary _ left right => left.isQuiet && right.isQuiet
  | .unary operator _ operand => !operator.isStep && operand.isQuiet
  | .call _ => false
  | .array items => Expr.areQuiet items

def Expr.areQuiet : List Expr -> Bool
  | [] => true
  | item :: items => item.isQuiet && Expr.areQuiet items

end

/-- Whether a command only shows something. -/
def Command.isQuiet (command : Command) : Bool :=
  match command.action, command.parameters with
  | .echo, [.expression value] => value.isQuiet
  | .motd, _ => true
  | .help, [] => true
  | _, _ => false

namespace SessionM

mutual

/-- The value of a quiet expression is the same whatever the script is. -/
theorem evaluateWith_quiet (session : Session) : (expression : Expr) ->
    expression.isQuiet = true ->
      ∃ value, ∀ script, evaluateWith script expression session = .ok value session
  | .number _, _ | .text _, _ | .word _, _ | .boolean _, _ =>
      ⟨_, fun script => by rw [evaluateWith]; rfl⟩
  | .var _, _ => ⟨_, fun script => by rw [evaluateWith]; rfl⟩
  | .binary operator left right, quiet => by
      simp only [Expr.isQuiet, Bool.and_eq_true] at quiet
      rcases evaluateWith_quiet session left quiet.1 with ⟨value, ran⟩
      rcases evaluateWith_quiet session right quiet.2 with ⟨value', ran'⟩
      refine ⟨operator.apply value value', fun script => ?_⟩
      rw [evaluateWith, bind_of_ok (ran script), bind_of_ok (ran' script), pure_apply]
  | .unary operator placement operand, quiet => by
      simp only [Expr.isQuiet, Bool.and_eq_true, Bool.not_eq_true'] at quiet
      rcases evaluateWith_quiet session operand quiet.2 with ⟨value, ran⟩
      cases operator with
      | negate | bitNot | not =>
          exact ⟨_, fun script => by
            simp only [evaluateWith]; rw [bind_of_ok (ran script), pure_apply]⟩
      | increment | decrement => cases quiet.1
  | .call _, quiet => by cases quiet
  | .array items, quiet => by
      rw [Expr.isQuiet] at quiet
      rcases evaluateAll_quiet session items quiet with ⟨values, ran⟩
      exact ⟨_, fun script => by rw [evaluateWith, bind_of_ok (ran script), pure_apply]⟩

theorem evaluateAll_quiet (session : Session) : (items : List Expr) ->
    Expr.areQuiet items = true ->
      ∃ values, ∀ script, evaluateAll script items session = .ok values session
  | [], _ => ⟨_, fun script => by rw [evaluateAll]; rfl⟩
  | item :: items, quiet => by
      simp only [Expr.areQuiet, Bool.and_eq_true] at quiet
      rcases evaluateWith_quiet session item quiet.1 with ⟨value, ran⟩
      rcases evaluateAll_quiet session items quiet.2 with ⟨values, ran'⟩
      refine ⟨value :: values, fun script => ?_⟩
      rw [evaluateAll, bind_of_ok (ran script), bind_of_ok (ran' script), pure_apply]

end

/-- A quiet command shows one message and comes to a value. -/
theorem executeWith_quiet (session : Session) {command : Command}
    (quiet : command.isQuiet = true) :
    ∃ value message, ∀ script, executeWith script false command session
      = .ok (.value value) (session.note .info message) := by
  rcases command with ⟨name, action, parameters, span⟩
  simp only [Command.isQuiet] at quiet
  split at quiet
  · rename_i value
    rcases evaluateWith_quiet session value quiet with ⟨result, ran⟩
    refine ⟨result, result.render, fun script => ?_⟩
    simp only [executeWith, evaluateArgument]
    rw [bind_of_ok (ran script)]
    rfl
  · exact ⟨_, _, fun script => by simp only [executeWith]; rfl⟩
  · exact ⟨_, _, fun script => by simp only [executeWith, help]; rfl⟩
  · cases quiet

theorem runCommandsWith_quiet {commands : List Command}
    (quiet : commands.all Command.isQuiet = true) (session : Session) :
    ∃ after, (∀ script, runCommandsWith script commands session = .ok () after)
      ∧ session.Speaks after := by
  induction commands generalizing session with
  | nil => exact ⟨session, fun _ => rfl, .refl⟩
  | cons command commands ih =>
      rw [List.all_cons, Bool.and_eq_true] at quiet
      rcases executeWith_quiet session quiet.1 with ⟨value, message, ran⟩
      rcases ih quiet.2 (session.note .info message) with ⟨after, ranOthers, speaks⟩
      refine ⟨after, fun script => ?_, ?_⟩
      · rw [runCommandsWith, bind_of_ok (ran script)]
        exact ranOthers script
      · exact (Session.Speaks.refl.note message (by decide)).trans speaks

/-! ## Opening a line -/

/-- A line without the spaces before it. -/
def trimmed (line : String) : String :=
  String.ofList (Text.skipSpaces line.toList)

theorem start_trimmed (line : String) :
    (Token.Cursor.start (trimmed line)).rest = Text.skipSpaces line.toList := by
  simp only [Token.Cursor.start, Token.Cursor.skipSpaces, trimmed, String.toList_ofList,
    Token.Cursor.skipSpaces_skipSpaces]

/-- A blank line has no commands. -/
theorem parseLine_ne_ok_of_blank {line : String}
    (blank : (Text.skipSpaces line.toList).all Text.isBlank = true) (commands : List Command) :
    Command.parseLine (trimmed line) ≠ .ok commands := by
  rw [← start_trimmed] at blank
  have ahead := Token.Cursor.ahead_of_blank blank
  have read := congrArg Token.Cursor.Reading.tokens (Token.Cursor.read_of_end ahead)
  rcases Parser.start_of_tokens read with ⟨state, begun, lookahead, _⟩
  have failed : ∃ fault, Parser.line state = .error fault state := by
    have ends : state.lookahead.kind = .endOfLine := by rw [lookahead]; rfl
    refine ⟨.grammatical .unexpectedEnd state.lookahead.span.start, ?_⟩
    rw [Parser.line_eq, bind_of_error]
    rw [Parser.statement, get_bind]
    simp only [ends]
    rfl
  rcases failed with ⟨fault, failed⟩
  rw [Command.parseLine_of_error begun failed]
  intro same
  cases same

theorem showLine_speaks (line : String) (session : Session) :
    ∃ after, showLine line session = .ok () after ∧ session.Speaks after := by
  rw [showLine, get_bind]
  by_cases shown : session.terminal.echo = true
  · simp only [shown, if_true]
    exact ⟨_, rfl, Session.Speaks.refl.note _ (by decide)⟩
  · simp only [shown, Bool.false_eq_true, if_false]
    exact ⟨_, rfl, .refl⟩

theorem warn_speaks (warnings : List Warning) (session : Session) :
    ∃ after, (warnings.forM fun warning => modify fun session : Session =>
        session.note .warning warning.message : SessionM Unit) session = .ok () after
      ∧ session.Speaks after := by
  induction warnings generalizing session with
  | nil => exact ⟨session, rfl, .refl⟩
  | cons warning warnings ih =>
      rcases ih (session.note .warning warning.message) with ⟨after, ran, speaks⟩
      exact ⟨after, ran, (Session.Speaks.refl.note _ (by decide)).trans speaks⟩

/-- A line that has commands shows itself and what it warns of, and runs them. -/
theorem runLineWith_of_read (script : Session -> Session) {line : String}
    {state after : Parser.State} {commands : List Command}
    (begun : Parser.start (trimmed line) = .ok state)
    (read : Parser.line state = .ok commands after) :
    runLineWith script line = (do
      showLine (trimmed line)
      after.warnings.forM fun warning => modify fun session : Session =>
        session.note .warning warning.message
      runCommandsWith script commands) := by
  have visible : ¬(Text.skipSpaces line.toList).all Text.isBlank = true := by
    intro blank
    exact parseLine_ne_ok_of_blank blank commands (Command.parseLine_of_ok begun read)
  simp only [trimmed] at begun ⊢
  simp only [runLineWith, if_neg visible, begun, read]

/-- A line that has commands runs them, after what is said before it runs. -/
theorem runLineWith_of_ok {line : String} {commands : List Command}
    (parsed : Command.parseLine (trimmed line) = .ok commands) (session : Session) :
    ∃ said, session.Speaks said
      ∧ ∀ script, runLineWith script line session = runCommandsWith script commands said := by
  rcases showLine_speaks (trimmed line) session with ⟨shown, ran, speaks⟩
  cases begun : Parser.start (trimmed line) with
  | error fault =>
      rw [Command.parseLine_of_fault begun] at parsed
      cases parsed
  | ok state =>
      cases read : Parser.line state with
      | error fault after =>
          rw [Command.parseLine_of_error begun read] at parsed
          cases parsed
      | ok found after =>
          rw [Command.parseLine_of_ok begun read] at parsed
          cases parsed
          rcases warn_speaks after.warnings shown with ⟨said, warned, more⟩
          refine ⟨said, speaks.trans more, fun script => ?_⟩
          rw [runLineWith_of_read script begun read, bind_of_ok ran, bind_of_ok warned]

/-- A line that is rejected only says why, and a blank one says nothing. -/
theorem runLineWith_of_error (script : Session -> Session) {line : String} {fault : Fault}
    (parsed : Command.parseLine (trimmed line) = .error fault) (session : Session) :
    runLineWith script line session = .ok () session
      ∨ ∃ said, session.Speaks said ∧ runLineWith script line session = .error fault said := by
  by_cases blank : (Text.skipSpaces line.toList).all Text.isBlank = true
  · left
    simp only [runLineWith, if_pos blank]
    rfl
  · right
    rcases showLine_speaks (trimmed line) session with ⟨shown, ran, speaks⟩
    cases begun : Parser.start (trimmed line) with
    | error found =>
        rw [Command.parseLine_of_fault begun] at parsed
        cases parsed
        refine ⟨shown, speaks, ?_⟩
        simp only [trimmed] at ran begun
        simp only [runLineWith, if_neg blank]
        rw [bind_of_ok ran]
        simp only [begun]
        rfl
    | ok state =>
        cases read : Parser.line state with
        | ok found after =>
            rw [Command.parseLine_of_ok begun read] at parsed
            cases parsed
        | error found after =>
            rw [Command.parseLine_of_error begun read] at parsed
            cases parsed
            rcases warn_speaks after.warnings shown with ⟨said, warned, more⟩
            refine ⟨said, speaks.trans more, ?_⟩
            simp only [trimmed] at ran begun
            simp only [runLineWith, if_neg blank]
            rw [bind_of_ok ran]
            simp only [begun, read]
            rw [bind_of_ok warned]
            rfl

/-! ## Quiet lines -/

/-- Whether a line has commands and all of them only show something. -/
def isQuietLine (line : String) : Bool :=
  match Command.parseLine (trimmed line) with
  | .ok commands => commands.all Command.isQuiet
  | .error _ => false

theorem runLineWith_quiet {line : String} (quiet : isQuietLine line = true) (session : Session) :
    ∃ after, (∀ script, runLineWith script line session = .ok () after)
      ∧ session.Speaks after := by
  rw [isQuietLine] at quiet
  split at quiet
  · rename_i commands parsed
    rcases runLineWith_of_ok parsed session with ⟨said, speaks, ran⟩
    rcases runCommandsWith_quiet quiet said with ⟨after, ranOthers, more⟩
    exact ⟨after, fun script => (ran script).trans (ranOthers script), speaks.trans more⟩
  · cases quiet

/-- A quiet line runs alike whatever the script is. -/
theorem runLineWith_congr (script other : Session -> Session) {line : String}
    (quiet : isQuietLine line = true) : runLineWith script line = runLineWith other line := by
  funext session
  rcases runLineWith_quiet quiet session with ⟨after, ran, _⟩
  rw [ran script, ran other]

theorem settle_quiet (script : Session -> Session) {line : String}
    (quiet : isQuietLine line = true) (session : Session) :
    session.Speaks (session.settle (runLineWith script line)) := by
  rcases runLineWith_quiet quiet session with ⟨after, ran, speaks⟩
  simp only [Session.settle, ran]
  exact speaks

theorem scriptLines_quiet : ∀ line ∈ Session.scriptLines, isQuietLine line = true := by
  decide +kernel

theorem trimmed_echoLine (text : String) : trimmed (echoLine text) = echoLine text := by
  apply String.toList_inj.mp
  simp [trimmed, echoLine, Text.skipSpaces]

theorem echoLine_quiet (text : String) : isQuietLine (echoLine text) = true := by
  rcases Command.parseLine_echoLine text with ⟨span, parsed⟩
  rw [isQuietLine, trimmed_echoLine, parsed]
  rfl

theorem onAnswer_quiet {question : Question} {answer : String} {lines : List String}
    (answered : question.onAnswer? answer = some lines) :
    ∀ line ∈ lines, isQuietLine line = true := by
  have echoes : ∃ texts : List String, lines = texts.map echoLine := by
    simp only [Question.onAnswer?] at answered
    split at answered
    · rw [← Option.some.inj answered]
      cases question <;> exact ⟨_, rfl⟩
    · split at answered
      · rw [← Option.some.inj answered]
        cases question
        · exact ⟨_, rfl⟩
        · exact ⟨[], rfl⟩
      · cases answered
  rcases echoes with ⟨texts, rfl⟩
  intro line member
  rcases List.mem_map.mp member with ⟨text, _, rfl⟩
  exact echoLine_quiet text

end SessionM

namespace Session

/-- The lines of the script lead to the same session with any script. -/
theorem runScript_with (script : Session -> Session) (session : Session) :
    session.runScript
      = scriptLines.foldl (fun session line => session.settle (SessionM.runLineWith script line))
          session := by
  rw [runScript]
  apply List.foldl_ext
  intro between line member
  rw [SessionM.runLineWith_congr id script (SessionM.scriptLines_quiet line member)]

/-- The script runs its lines with itself for the script, and no other function
of sessions does so. -/
theorem eq_runScript_iff (script : Session -> Session) :
    script = runScript ↔ ∀ session, script session
      = scriptLines.foldl (fun session line => session.settle (SessionM.runLineWith script line))
          session := by
  constructor
  · rintro rfl session
    exact runScript_with runScript session
  · intro runs
    funext session
    rw [runs session, ← runScript_with script session]

/-- The script only adds to the journal. -/
theorem runScript_speaks (session : Session) : session.Speaks session.runScript := by
  have quiet := SessionM.scriptLines_quiet
  rw [runScript]
  generalize scriptLines = lines at quiet
  induction lines generalizing session with
  | nil => exact .refl
  | cons line lines ih =>
      have first := SessionM.settle_quiet id (quiet line List.mem_cons_self) session
      exact first.trans (ih _ fun other member => quiet other (List.mem_cons_of_mem _ member))

end Session
end LineShell
