import LineShell.Launch.Program
import LineShell.Proofs.ByteLines
import LineShell.Proofs.Echoing
import LineShell.Proofs.Lines
import LineShell.Proofs.Transcripts

namespace LineShell

/-!
# A text that is run and a text that is typed

A text can be run as a whole, or typed line by line.  The two differ in what is
shown: a line that is typed is never shown again, but of a text that is run the
answers are.

When a line begins, the two sessions are the same but for their journals.  What
a line does to a journal does not depend on what stands in it, so the same
events happen to both; before them, an answer in a text that is run is shown.
That is no warning and no error, so all but the messages is written alike, and
without questions these are, too.
-/

open Steps

/-! ## Events -/

namespace Journal

def Event.message (text : String) : Event :=
  .add { severity := .info, message := text }

theorem tell_eq_acts (journal : Journal) (messages : List String) :
    journal.tell messages = journal.acts (messages.map Event.message) := by
  induction messages generalizing journal with
  | nil => exact journal.tell_nil
  | cons message messages ih =>
      have split := journal.tell_tell [message] messages
      rw [List.singleton_append, tell_singleton, ih] at split
      exact split.symm

/-- Messages before other events make no difference to the warnings and errors
that survive. -/
theorem complaints_surviving (messages : List String) (events : List Event) :
    (surviving (messages.map Event.message ++ events)).filter (·.severity ≠ .info)
      = (surviving events).filter (·.severity ≠ .info) := by
  -- What survives is told from the end, so the induction takes the last event first.
  induction events using List.reverseRecOn with
  | nil =>
      induction messages using List.reverseRecOn with
      | nil => rfl
      | append_singleton messages message ih =>
          rw [List.append_nil] at ih ⊢
          rw [List.map_append, List.map_singleton, Event.message, surviving_concat_add,
            List.filter_append, ih]
          rfl
  | append_singleton events event ih =>
      rw [← List.append_assoc]
      cases event with
      | add entry =>
          rw [surviving_concat_add, surviving_concat_add, List.filter_append, List.filter_append,
            ih]
      | clear => rw [surviving_concat_clear, surviving_concat_clear]

end Journal

/-! ## Sessions with different journals -/

namespace Session

/-- The same events led from two journals to those of the sessions, and in all
else the sessions are the same. -/
def Parallel (journal journal' : Journal) (one two : Session) : Prop :=
  ∃ events, one.journal = journal.acts events
    ∧ two = { one with journal := journal'.acts events }

/-- Sessions that are the same but for their journals. -/
def SameBesides (one two : Session) : Prop :=
  two = { one with journal := two.journal }

theorem withUser_journal (name : String) (session : Session) :
    (session.withUser name).journal = session.journal := by
  unfold withUser
  split
  · rfl
  · rfl

theorem withUser_blind (name : String) (session : Session) (journal : Journal) :
    withUser name { session with journal } = { session.withUser name with journal } := by
  unfold withUser
  split
  · rfl
  · rfl

namespace Parallel

variable {journal journal' : Journal} {one two : Session}

theorem reads (parallel : Parallel journal journal' one two) {α : Type} (read : Session -> α)
    (blind : ∀ session journal, read { session with journal } = read session) :
    read one = read two := by
  rcases parallel with ⟨events, _, rfl⟩
  exact (blind one _).symm

theorem changed (parallel : Parallel journal journal' one two) (change : Session -> Session)
    (kept : ∀ session, (change session).journal = session.journal)
    (blind : ∀ session journal, change { session with journal } = { change session with journal }) :
    Parallel journal journal' (change one) (change two) := by
  rcases parallel with ⟨events, acted, rfl⟩
  exact ⟨events, (kept one).trans acted, blind one _⟩

theorem acts (parallel : Parallel journal journal' one two) (more : List Journal.Event) :
    Parallel journal journal' { one with journal := one.journal.acts more }
      { two with journal := two.journal.acts more } := by
  rcases parallel with ⟨events, acted, rfl⟩
  refine ⟨events ++ more, ?_, ?_⟩
  · rw [Journal.acts_append, ← acted]
  · rw [Journal.acts_append]

theorem tell (parallel : Parallel journal journal' one two) (messages : List String) :
    Parallel journal journal' (one.tell messages) (two.tell messages) := by
  unfold Session.tell
  rw [Journal.tell_eq_acts, Journal.tell_eq_acts]
  exact parallel.acts _

end Parallel

/-- Whatever a line does, it does to both sessions. -/
theorem respected_parallel (journal journal' : Journal) :
    Respected (Parallel journal journal') where
  bindings parallel := parallel.reads (·.bindings) fun _ _ => rfl
  callDepth parallel := parallel.reads (·.callDepth) fun _ _ => rfl
  banner parallel := parallel.reads (·.terminal.banner) fun _ _ => rfl
  directory parallel := parallel.reads (·.terminal.workingDirectory) fun _ _ => rfl
  pending parallel := parallel.reads (·.pending?) fun _ _ => rfl
  shown line := by
    intro one two parallel
    have echo := parallel.reads (·.terminal.echo) fun _ _ => rfl
    rw [SessionM.showLine_eq, SessionM.showLine_eq, echo]
    exact ⟨rfl, parallel.tell _⟩
  noted parallel severity message := parallel.acts [.add { severity, message }]
  cleared parallel := parallel.acts [.clear]
  bound parallel bindings :=
    parallel.changed (fun session => { session with bindings }) (fun _ => rfl) fun _ _ => rfl
  called parallel callDepth :=
    parallel.changed (fun session => { session with callDepth }) (fun _ => rfl) fun _ _ => rfl
  renamed parallel name :=
    parallel.changed (withUser name) (withUser_journal name) (withUser_blind name)
  moved parallel target? :=
    parallel.changed (withDirectory target?) (fun _ => rfl) fun _ _ => rfl
  waiting parallel pending? :=
    parallel.changed (fun session => { session with pending? }) (fun _ => rfl) fun _ _ => rfl
  setEcho parallel echo := parallel.changed (·.setEcho echo) (fun _ => rfl) fun _ _ => rfl
  setMode parallel mode := parallel.changed (·.setMode mode) (fun _ => rfl) fun _ _ => rfl
  setCanType parallel canType :=
    parallel.changed (·.setCanType canType) (fun _ => rfl) fun _ _ => rfl

end Session

/-! ## Answers -/

/-- An answer is shown if lines are, and then hides the lines that follow from
it.  So it makes no difference if it was shown and lines were hidden before. -/
theorem SessionM.answer_unshown (pending : Pending) (line : String) (session : Session) :
    answer pending line session
      = answer pending line
        ((session.tell (if session.terminal.echo then ["> " ++ line] else [])).setEcho false) := by
  have hidden (other : Session) : (other.setEcho false).terminal.echo = false := rfl
  rw [answer, bind_of_ok (showLine_eq line _), bind_of_ok (showLine_eq line _), modify_bind,
    modify_bind, hidden, if_neg Bool.false_ne_true, Session.tell_nil]
  rfl

namespace Session

/-- What is shown of a line in a text that is run: an answer is, and other lines
are not. -/
def shownOf (session : Session) (line : String) : List String :=
  if session.isAwaiting && session.terminal.echo then ["> " ++ line] else []

theorem attending_submit (session : Session) (line : String) :
    session.attending.submit line
      = ((session.tell (session.shownOf line)).setEcho false).submit line := by
  cases waits : session.pending? with
  | none =>
      have idle : session.isAwaiting = false := by rw [isAwaiting, waits, Option.isSome_none]
      rw [attending, shownOf, idle, Bool.false_and, if_neg Bool.false_ne_true,
        if_neg Bool.false_ne_true, tell_nil]
  | some pending =>
      have awaiting : session.isAwaiting = true := by rw [isAwaiting, waits, Option.isSome_some]
      have still : ((session.tell (session.shownOf line)).setEcho false).pending? = some pending :=
        waits
      rw [attending, if_pos awaiting, submit_of_pending waits, submit_of_pending still]
      congr 1
      apply settle_congr
      rw [SessionM.answer_unshown, shownOf, awaiting, Bool.true_and]
      rfl

theorem SameBesides.sameState {one two : Session} (same : one.SameBesides two) :
    one.SameState two where
  bindings := (congrArg (·.bindings) same).symm
  user := (congrArg (·.terminal.user) same).symm
  home? := (congrArg (·.terminal.home?) same).symm
  workingDirectory := (congrArg (·.terminal.workingDirectory) same).symm

/-- In sessions that are the same but for their journals the same events happen,
after the line is shown if it is an answer in a text that is run. -/
theorem SameBesides.submit {one two : Session} (same : one.SameBesides two) (line : String) :
    ∃ events, (one.attending.submit line).journal
        = one.journal.acts ((one.shownOf line).map .message ++ events)
      ∧ (two.setEcho false).submit line
        = { one.attending.submit line with journal := two.journal.acts events } := by
  -- The journals are compared from the moment at which the answer has been shown.
  have begun : Parallel (one.journal.tell (one.shownOf line)) two.journal
      ((one.tell (one.shownOf line)).setEcho false) (two.setEcho false) := by
    refine ⟨[], rfl, ?_⟩
    rw [same]
    rfl
  rcases (respected_parallel _ _).submit begun line with ⟨events, acted, reached⟩
  rw [← attending_submit] at acted reached
  refine ⟨events, ?_, reached⟩
  rw [acted, Journal.acts_append, Journal.tell_eq_acts]

end Session

/-! ## Transcripts -/

/-- Whether a turn asks a question while none waits. -/
def Turn.asks (turn : Turn) : Bool :=
  !turn.session.isAwaiting && turn.after.isAwaiting

namespace Launch

theorem Written.errText_congr {entries others : List Entry}
    (same : entries.filter (·.severity ≠ .info) = others.filter (·.severity ≠ .info)) :
    errText entries = errText others := by
  rw [errText, same, errText]

theorem any_error_congr {entries others : List Entry}
    (same : entries.filter (·.severity ≠ .info) = others.filter (·.severity ≠ .info)) :
    entries.any (·.severity = .error) = others.any (·.severity = .error) := by
  have narrowed (entries : List Entry) : entries.any (·.severity = .error)
      = (entries.filter (·.severity ≠ .info)).any (·.severity = .error) := by
    rw [List.any_filter]
    congr 1
    funext entry
    cases entry.severity with
    | _ => rfl
  rw [narrowed, same, ← narrowed]

namespace Transcript

/-- Two transcripts of the same lines: one of a text that is run, and one of a text
that is typed. -/
structure Matches (run typed : Transcript) : Prop where
  flushed : run.Flushed
  flushedTyped : typed.Flushed
  session : run.session.SameBesides typed.session
  sawError : run.sawError = typed.sawError
  err : run.written.err = typed.written.err

/-- A line that is run and a line that is typed lead on alike.  If it is no answer,
all that is written for it is the same. -/
theorem Matches.line {run typed : Transcript} (same : run.Matches typed) (line : String) :
    (run.runLine line).Matches (typed.typeLine line)
      ∧ (run.session.isAwaiting = false -> run.written.out = typed.written.out ->
          (run.runLine line).written.out = (typed.typeLine line).written.out) := by
  rcases same.session.submit line with ⟨events, acted, reached⟩
  have complaints := Journal.complaints_surviving (run.session.shownOf line) events
  have typedActs : ((typed.session.setEcho false).submit line).journal
      = typed.session.journal.acts events := by
    rw [reached]
  rcases same.flushed.flush acted with ⟨flushed, session, sawError, written⟩
  rcases same.flushedTyped.flush typedActs with
    ⟨flushedTyped, sessionTyped, sawErrorTyped, writtenTyped⟩
  have typing : typed.typeLine line
      = Transcript.flush { typed with session := (typed.session.setEcho false).submit line } := rfl
  rw [← runLine_eq_flush] at flushed session sawError written
  rw [← typing] at flushedTyped sessionTyped sawErrorTyped writtenTyped
  rw [Written.foldl_add] at written writtenTyped
  refine ⟨⟨flushed, flushedTyped, ?_, ?_, ?_⟩, ?_⟩
  · rw [Session.SameBesides, sessionTyped, session, typedActs]
    exact reached
  · rw [sawError, sawErrorTyped, same.sawError, any_error_congr complaints]
  · rw [written, writtenTyped, same.err, Written.errText_congr complaints]
  · intro idle out
    rw [written, writtenTyped, out, Session.shownOf, idle]
    rfl

/-- Lines that are run and lines that are typed lead on alike. -/
theorem Matches.lines {run typed : Transcript} (same : run.Matches typed) (lines : List String) :
    (lines.foldl runLine run).Matches (typed.typeLines lines)
      ∧ (run.session.isAwaiting = false -> run.written.out = typed.written.out ->
          (∀ turn ∈ run.session.turns lines, turn.asks = false) ->
          (lines.foldl runLine run).written.out = (typed.typeLines lines).written.out) := by
  induction lines generalizing run typed with
  | nil => exact ⟨same, fun _ out _ => out⟩
  | cons line lines ih =>
      rcases same.line line with ⟨next, outOfLine⟩
      rcases ih next with ⟨reached, outOfLines⟩
      refine ⟨reached, ?_⟩
      intro idle out unasked
      have session : (run.runLine line).session = run.session.attending.submit line := by
        rw [runLine_eq_flush]
        rfl
      -- No question waits before the line, and since the line asks none, no answer follows.
      have attending : run.session.attending.isAwaiting = false := by
        rw [Session.attending, idle]
        exact idle
      rw [Session.turns, List.forall_mem_cons] at unasked
      rcases unasked with ⟨first, others⟩
      rw [Turn.asks, attending, Bool.not_false, Bool.true_and] at first
      apply outOfLines
      · rw [session]
        exact first
      · exact outOfLine idle out
      · rw [session]
        exact others

/-- Without a greeting, typing begins like running a text. -/
theorem matches_start (settings : Settings) :
    (start settings).Matches ((start settings).greet false) where
  flushed := flushed_start settings
  flushedTyped := ⟨rfl, rfl⟩
  session := rfl
  sawError := rfl
  err := rfl

end Transcript

/-! ## Programs -/

/-- A file with the bytes of a text is run as the text. -/
theorem runFile_utf8 (transcript : Transcript) (name text : String) :
    runFile transcript name (.ok text.toUTF8.data.toList) = (transcript.runText text).report := by
  have content : decode text.toUTF8.data.toList = .ok text := by
    rw [utf8_toList, decode_utf8, String.ofList_toList]
  simp only [runFile, bind, Except.bind, content]

/-- A text that is given as an option or in a file, and a text whose lines are
typed without a greeting, lead to the same exit code, the same warnings and
errors, the same variables, user and directories; and to the same messages, if
no line asks a question.  What is typed is taken in line by line, at least if
there is no backspace in it. -/
theorem runText_typed_alike (options : Options) (text : String) :
    let lines := (Text.lines text.toList).map String.ofList
    let run := (Transcript.start options.settings).runText text
    let typed := ((Transcript.start options.settings).greet false).typeLines lines
    (∀ files input, runOptions { options with command? := some text } files input = run.report)
      ∧ (∀ files name input, files name = .ok text.toUTF8.data.toList ->
          runOptions { options with command? := none, file? := some name } files input
            = run.report)
      ∧ (∀ files input, typedLines input = (lines, none) ->
          runOptions { options with command? := none, file? := none, noBanner := true } files input
            = typed.report)
      ∧ (Text.backspace ∉ text.toList -> typedLines text.toUTF8.data.toList = (lines, none))
      ∧ run.report.code = typed.report.code
      ∧ run.report.written.err = typed.report.written.err
      ∧ run.session.SameState typed.session
      ∧ ((∀ turn ∈ (Session.start options.settings).turns lines, turn.asks = false) ->
          run.report.written.out = typed.report.written.out) := by
  intro lines run typed
  rcases (Transcript.matches_start options.settings).lines lines with ⟨same, out⟩
  refine ⟨?_, ?_, ?_, typedLines_utf8, ?_, same.err, ?_, out rfl rfl⟩
  · intro files input
    rfl
  · intro files name input content
    have file : runOptions { options with command? := none, file? := some name } files input
        = runFile (Transcript.start options.settings) name (files name) := rfl
    rw [file, content]
    exact runFile_utf8 _ name text
  · intro files input delivered
    have typing : runOptions { options with command? := none, file? := none, noBanner := true }
        files input = runInput ((Transcript.start options.settings).greet false) input := rfl
    rw [typing, runInput, Transcript.typeInput, delivered]
  · exact congrArg (fun sawError => if sawError then 1 else 0) same.sawError
  · exact same.session.sameState

/-- A text whose last line fails, with a carriage return before its first newline. -/
theorem runText_typed_alike_failing :
    let text := "motd\r\nuser \"\""
    let lines := (Text.lines text.toList).map String.ofList
    let bytes := text.toUTF8.data.toList
    let files : String -> Except ReadFailure (List UInt8) := fun _ => .ok bytes
    let run := runOptions { file? := some "script" } files []
    let typed := runOptions { noBanner := true } files bytes
    files "script" = .ok bytes ∧ Text.backspace ∉ text.toList
      ∧ typedLines bytes = (lines, none)
      ∧ (∀ turn ∈ (Session.start ({} : Options).settings).turns lines, turn.asks = false)
      ∧ run.code = typed.code ∧ run.written.err = typed.written.err
      ∧ run.written.out = typed.written.out := by
  intro text lines bytes files run typed
  have plain : Text.backspace ∉ text.toList := by decide
  have unasked : ((Session.start ({} : Options).settings).turns lines).all (!·.asks) = true := by
    decide +kernel
  have each : ∀ turn ∈ (Session.start ({} : Options).settings).turns lines, turn.asks = false := by
    intro turn member
    have none := List.all_eq_true.mp unasked turn member
    rwa [Bool.not_eq_true'] at none
  rcases runText_typed_alike {} text with
    ⟨_, file, typing, delivered, code, err, _, out⟩
  have ran := file files "script" [] rfl
  have took := typing files bytes (delivered plain)
  refine ⟨rfl, plain, delivered plain, each, ?_, ?_, ?_⟩
  · exact (congrArg Report.code ran).trans (code.trans (congrArg Report.code took).symm)
  · exact (congrArg (·.written.err) ran).trans (err.trans (congrArg (·.written.err) took).symm)
  · exact (congrArg (·.written.out) ran).trans
      ((out each).trans (congrArg (·.written.out) took).symm)

example :
    ((Transcript.start {}).runText "yn\ny").written.out
      ≠ ((Transcript.start {}).typeLines ["yn", "y"]).written.out := by
  decide +kernel

end Launch
end LineShell
