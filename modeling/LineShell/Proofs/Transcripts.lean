import Mathlib.Data.List.Forall2
import LineShell.Launch.Transcript
import LineShell.Proofs.Regularity
import LineShell.Proofs.Suspension

namespace LineShell

/-!
# Transcripts write every entry once

A transcript follows the journal of its session with a cursor and an epoch.
The journal only ever gets an entry at its end or is cleared, any number of
times within a line.  Of what a line does to the journal, the entries after the
last time it was cleared are written, each once, and what went before is gone.

An error is the last thing that a line does to the journal, since commands and
the lines that they run add none.  So an error is always among what is written,
and the exit code tells exactly whether a line failed.
-/

open Steps

/-! ## What a line does to the journal -/

namespace Journal

/-- What can be done to a journal. -/
inductive Event where
  | add (entry : Entry)
  | clear
  deriving DecidableEq

namespace Event

def entry? : Event -> Option Entry
  | add entry => some entry
  | clear => none

def isError : Event -> Bool
  | add entry => entry.severity = .error
  | clear => false

end Event

def act (journal : Journal) : Event -> Journal
  | .add entry => journal.add entry.severity entry.message
  | .clear => journal.clear

def acts (journal : Journal) (events : List Event) : Journal :=
  events.foldl act journal

/-- The entries that are added after the last time that the journal is cleared. -/
def surviving (events : List Event) : List Entry :=
  (events.reverse.takeWhile (· ≠ .clear)).reverse.filterMap Event.entry?

theorem acts_append (journal : Journal) (events more : List Event) :
    journal.acts (events ++ more) = (journal.acts events).acts more :=
  List.foldl_append ..

theorem surviving_concat_add (events : List Event) (entry : Entry) :
    surviving (events ++ [.add entry]) = surviving events ++ [entry] := by
  simp [surviving, Event.entry?]

theorem surviving_concat_clear (events : List Event) :
    surviving (events ++ [.clear]) = [] := by
  simp [surviving]

theorem precedes_acts (journal : Journal) (events : List Event) :
    journal.Precedes (journal.acts events) := by
  induction events using List.reverseRecOn with
  | nil => exact .refl journal
  | append_singleton events event ih =>
      rw [acts_append]
      cases event with
      | add entry => exact ih.add entry.severity entry.message
      | clear => exact ih.clear

/-- A reader who had seen all of an earlier journal has not seen a new entry. -/
theorem Precedes.unseen_add {earlier later : Journal} (precedes : earlier.Precedes later)
    (entry : Entry) :
    (later.add entry.severity entry.message).unseen earlier.epoch earlier.size
      = later.unseen earlier.epoch earlier.size ++ [entry] := by
  have reached : (if later.epoch = earlier.epoch then earlier.size else 0)
      ≤ later.entries.toList.length := by
    split
    · rename_i same
      have kept := (precedes.entries_of_epoch_eq same.symm).length_le
      rwa [Array.length_toList] at kept
    · exact Nat.zero_le _
  rw [unseen, since_eq_drop, unseen, since_eq_drop, Journal.add, Array.toList_push]
  exact List.drop_append_of_le_length reached

/-- What a reader has not seen who had seen all of the journal before the events
are the entries that survive. -/
theorem unseen_acts (journal : Journal) (events : List Event) :
    (journal.acts events).unseen journal.epoch journal.size = surviving events := by
  induction events using List.reverseRecOn with
  | nil =>
      rw [acts, List.foldl_nil, unseen, if_pos rfl, since_eq_drop]
      exact List.drop_of_length_le (Nat.le_of_eq (Array.length_toList ..))
  | append_singleton events event ih =>
      rw [acts_append]
      cases event with
      | clear =>
          rw [surviving_concat_clear, unseen, since_eq_drop]
          exact List.drop_nil
      | add entry =>
          rw [surviving_concat_add, ← ih]
          exact (journal.precedes_acts events).unseen_add entry

end Journal

/-! ## Commands add no errors -/

namespace Session

/-- The journal of the second session is that of the first one after events
that add no error. -/
def Logs (session after : Session) : Prop :=
  ∃ events, (∀ event ∈ events, event.isError = false)
    ∧ after.journal = session.journal.acts events

namespace Logs

variable {session between after : Session}

theorem of_same (same : after.journal = session.journal) : session.Logs after :=
  ⟨[], fun _ member => absurd member List.not_mem_nil, same⟩

theorem trans (first : session.Logs between) (second : between.Logs after) :
    session.Logs after := by
  rcases first with ⟨events, harmless, acted⟩
  rcases second with ⟨more, harmlessToo, actedToo⟩
  refine ⟨events ++ more, List.forall_mem_append.mpr ⟨harmless, harmlessToo⟩, ?_⟩
  rw [Journal.acts_append, ← acted, actedToo]

theorem note {severity : Severity} (harmless : severity ≠ .error) (message : String) :
    session.Logs (session.note severity message) := by
  refine ⟨[.add { severity, message }], List.forall_mem_singleton.mpr ?_, rfl⟩
  exact decide_eq_false harmless

theorem clear : session.Logs { session with journal := session.journal.clear } :=
  ⟨[.clear], List.forall_mem_singleton.mpr rfl, rfl⟩

end Logs

theorem Speaks.logs {session after : Session} (speaks : session.Speaks after) :
    session.Logs after := by
  induction speaks with
  | refl => exact .of_same rfl
  | note message harmless _ ih => exact ih.trans (.note harmless message)
  | setEcho _ _ ih | setMode _ _ ih | setCanType _ _ ih => exact ih

theorem effects_logs : Effects Logs where
  refl _ := .of_same rfl
  trans := Logs.trans
  stored _ _ _ := .of_same rfl
  flushed _ := .of_same rfl
  renamed session name := by
    unfold withUser
    split
    · exact .of_same rfl
    · exact .of_same rfl
  moved _ _ := .of_same rfl
  returned logs := logs

theorem admitted_logs (piping : Bool) (command : Command) :
    command.Admitted Logs runScript piping where
  shown _ _ message := .note (by decide) message
  cleared _ _ := .clear
  announced _ _ session := .note (by decide) session.terminal.banner
  rehearsed _ session := (rehearsed_speaks session).logs

end Session

namespace SessionM

theorem moves_execute_logs (piping : Bool) (command : Command) :
    Moves Session.Logs (execute piping command) :=
  moves_executeWith Session.effects_logs piping command (Session.admitted_logs piping command)
    fun other _ => Session.admitted_logs true other

theorem moves_ask_logs (question : Question) (remaining : List Command) :
    Moves Session.Logs (ask question remaining) := by
  apply moves_get
  intro session
  split
  · exact moves_throw Session.effects_logs _
  · apply moves_bind Session.effects_logs
    · exact moves_modify fun _ => .note (by decide) _
    · intro _
      exact moves_modify fun _ => .of_same rfl

theorem moves_runCommands_logs (commands : List Command) :
    Moves Session.Logs (runCommands commands) := by
  induction commands with
  | nil => exact moves_pure Session.effects_logs ()
  | cons command remaining ih =>
      apply moves_bind Session.effects_logs (moves_execute_logs false command)
      intro outcome
      cases outcome with
      | value value => exact ih
      | ask question => exact moves_ask_logs question remaining

/-- What is said first and then done by a step is all that is done. -/
theorem ensures_logs_of_speaks {α : Type} {session said : Session} {step : SessionM α}
    (speaks : session.Speaks said) (moves : Moves Session.Logs step) :
    Ensures (fun _ after => session.Logs after) (fun _ after => session.Logs after)
      (step said) :=
  (moves said).mono (fun _ _ more => speaks.logs.trans more) fun _ _ more =>
    speaks.logs.trans more

theorem moves_runLine_logs (line : String) : Moves Session.Logs (runLine line) := by
  intro session
  rw [runLine]
  cases parsed : Command.parseLine (trimmed line) with
  | ok commands =>
      rcases runLineWith_of_ok parsed session with ⟨said, speaks, ran⟩
      rw [ran]
      exact ensures_logs_of_speaks speaks (moves_runCommands_logs commands)
  | error fault =>
      rcases runLineWith_of_error Session.runScript parsed session with ran | ⟨said, speaks, ran⟩
      · rw [ran]
        exact .of_same rfl
      · rw [ran]
        exact speaks.logs

theorem moves_answer_logs (pending : Pending) (line : String) :
    Moves Session.Logs (answer pending line) := by
  intro session
  cases valid : Session.isAnswer line with
  | true =>
      rcases Session.answer_of_answer valid pending session with ⟨resumed, speaks, ran⟩
      rw [ran]
      exact ensures_logs_of_speaks speaks (moves_runCommands_logs pending.remaining)
  | false =>
      rcases Session.answer_of_other valid pending session with ⟨said, speaks, ran⟩
      rw [ran]
      exact speaks.logs

end SessionM

/-! ## Turns -/

/-- A line with the session that takes it in. -/
structure Turn where
  session : Session
  line : String

namespace Turn

def after (turn : Turn) : Session :=
  turn.session.submit turn.line

/-- What the turn starts, with the session it leaves or the fault it fails with:
the line answers the question that waits, or runs. -/
def outcome (turn : Turn) : EStateM.Result Fault Session Unit :=
  match turn.session.pending? with
  | some pending =>
      SessionM.answer pending turn.line { turn.session.setCanType false with pending? := none }
  | none => SessionM.runLine turn.line (turn.session.setCanType false)

/-- Whether what the turn starts fails. -/
def fails (turn : Turn) : Bool :=
  match turn.outcome with
  | .ok _ _ => false
  | .error _ _ => true

/-- The entry for the fault of what the turn starts. -/
def complaint (turn : Turn) : List Entry :=
  match turn.outcome with
  | .ok _ _ => []
  | .error fault _ => [{ severity := .error, message := fault.message }]

/-- The events lead from the journal before a turn to the one after it. -/
def Leads (turn : Turn) (events : List Journal.Event) : Prop :=
  turn.after.journal = turn.session.journal.acts events

/-- The events are what a turn does to the journal.  The only error among them
is the one for its fault, and it comes last. -/
structure Does (turn : Turn) (events : List Journal.Event) : Prop where
  leads : turn.Leads events
  errors : ∃ before, events = before ++ turn.complaint.map .add
    ∧ ∀ event ∈ before, event.isError = false

/-- A turn does what was started, and then takes the fault down. -/
theorem after_eq (turn : Turn) :
    turn.after = (match turn.outcome with
      | .ok _ after => after
      | .error fault after => after.report fault).setCanType true := by
  rw [after, outcome]
  cases waits : turn.session.pending? with
  | none => exact Session.submit_of_idle waits turn.line
  | some pending => exact Session.submit_of_pending waits turn.line

theorem logs_outcome (turn : Turn) :
    Ensures (fun _ after => turn.session.Logs after) (fun _ after => turn.session.Logs after)
      turn.outcome := by
  simp only [outcome]
  split
  · rename_i pending _
    exact SessionM.moves_answer_logs pending turn.line _
  · exact SessionM.moves_runLine_logs turn.line _

theorem exists_does (turn : Turn) : ∃ events, turn.Does events := by
  have logs := turn.logs_outcome
  have result := turn.after_eq
  cases ran : turn.outcome with
  | ok value after =>
      rw [ran] at logs result
      rcases logs with ⟨events, harmless, acted⟩
      refine ⟨events, ?_, events, ?_, harmless⟩
      · rw [Leads, result]
        exact acted
      · rw [complaint, ran]
        exact (List.append_nil _).symm
  | error fault after =>
      rw [ran] at logs result
      rcases logs with ⟨events, harmless, acted⟩
      refine ⟨events ++ turn.complaint.map .add, ?_, events, rfl, harmless⟩
      rw [Leads, result, Journal.acts_append, ← acted, complaint, ran]
      rfl

/-- The errors that survive a turn are the one for its fault, if it has one. -/
theorem Does.errors_surviving {turn : Turn} {events : List Journal.Event}
    (does : turn.Does events) :
    (Journal.surviving events).filter (·.severity = .error) = turn.complaint := by
  rcases does.errors with ⟨before, rfl, harmless⟩
  have none : (Journal.surviving before).filter (·.severity = .error) = [] := by
    rw [List.filter_eq_nil_iff]
    intro entry member
    rw [Journal.surviving, List.mem_filterMap] at member
    rcases member with ⟨event, kept, added⟩
    have among : event ∈ before :=
      List.mem_reverse.mp ((List.takeWhile_sublist _).mem (List.mem_reverse.mp kept))
    cases event with
    | clear => cases added
    | add entry =>
        cases added
        simpa [Journal.Event.isError] using harmless _ among
  rw [complaint]
  cases turn.outcome with
  | ok value after => rwa [List.map_nil, List.append_nil]
  | error fault after =>
      rw [List.map_singleton, Journal.surviving_concat_add, List.filter_append, none]
      rfl

/-- Whichever events lead from the journal before a turn to the one after it,
the same entries survive. -/
theorem Leads.surviving_eq {turn : Turn} {events others : List Journal.Event}
    (leads : turn.Leads events) (leadsToo : turn.Leads others) :
    Journal.surviving events = Journal.surviving others := by
  rw [← turn.session.journal.unseen_acts events, ← turn.session.journal.unseen_acts others,
    ← leads, ← leadsToo]

theorem Leads.errors_surviving {turn : Turn} {events : List Journal.Event}
    (leads : turn.Leads events) :
    (Journal.surviving events).filter (·.severity = .error) = turn.complaint := by
  rcases turn.exists_does with ⟨own, does⟩
  rw [leads.surviving_eq does.leads]
  exact does.errors_surviving

theorem fails_iff (turn : Turn) : turn.fails = true ↔ turn.complaint ≠ [] := by
  rw [fails, complaint]
  cases turn.outcome with
  | ok value after => simp
  | error fault after => simp

end Turn

/-- The session in which the next line of a text is taken in.  Only answers are
shown. -/
def Session.attending (session : Session) : Session :=
  if session.isAwaiting then session else session.setEcho false

/-- The turns of lines that are taken in one after the other. -/
def Session.turns (session : Session) : List String -> List Turn
  | [] => []
  | line :: lines =>
      let turn := { session := session.attending, line }
      turn :: turns turn.after lines

/-! ## What is written -/

namespace Launch

namespace Written

/-- The messages, each on a line of its own. -/
def outText (entries : List Entry) : String :=
  String.join ((entries.filter (·.severity = .info)).map fun entry => entry.message ++ "\n")

/-- The warnings and errors, each on a line of its own. -/
def errText (entries : List Entry) : String :=
  String.join ((entries.filter (·.severity ≠ .info)).map fun entry =>
    (if entry.severity = .warning then "warning: " ++ entry.message else entry.message) ++ "\n")

theorem foldl_add (written : Written) (entries : List Entry) :
    entries.foldl add written
      = { out := written.out ++ outText entries, err := written.err ++ errText entries } := by
  induction entries generalizing written with
  | nil => simp [outText, errText]
  | cons entry entries ih =>
      rw [List.foldl_cons, ih]
      rcases entry with ⟨severity, message⟩
      cases severity <;>
        simp [add, outText, errText, String.append_assoc]

end Written

namespace Transcript

/-- All of the journal has been seen. -/
structure Flushed (transcript : Transcript) : Prop where
  cursor : transcript.cursor = transcript.session.journal.size
  epoch : transcript.epoch = transcript.session.journal.epoch

theorem flushed_start (settings : Settings) : (start settings).Flushed :=
  ⟨rfl, rfl⟩

theorem runLine_eq_flush (transcript : Transcript) (line : String) :
    transcript.runLine line
      = flush { transcript with session := transcript.session.attending.submit line } := by
  rw [runLine, Session.attending]
  split
  · rfl
  · rfl

/-- A session whose journal is that of the transcript after events is written out
as far as the events survive, and nothing is left unseen. -/
theorem Flushed.flush {transcript : Transcript} (flushed : transcript.Flushed) {session : Session}
    {events : List Journal.Event}
    (acts : session.journal = transcript.session.journal.acts events) :
    let after := Transcript.flush { transcript with session }
    after.Flushed
      ∧ after.session = session
      ∧ after.sawError
          = (transcript.sawError || (Journal.surviving events).any (·.severity = .error))
      ∧ after.written = (Journal.surviving events).foldl Written.add transcript.written := by
  have unseen : session.journal.unseen transcript.epoch transcript.cursor
      = Journal.surviving events := by
    rw [acts, flushed.epoch, flushed.cursor]
    exact Journal.unseen_acts ..
  refine ⟨⟨rfl, rfl⟩, rfl, ?_, ?_⟩
  · rw [← unseen]
    rfl
  · rw [← unseen]
    rfl

/-- Taking in a line writes what survives of the turn, and leaves nothing
unseen. -/
theorem Flushed.runLine {transcript : Transcript} (flushed : transcript.Flushed) (line : String)
    {events : List Journal.Event}
    (acts : (transcript.session.attending.submit line).journal
      = transcript.session.attending.journal.acts events) :
    let after := transcript.runLine line
    after.Flushed
      ∧ after.session = transcript.session.attending.submit line
      ∧ after.sawError
          = (transcript.sawError || (Journal.surviving events).any (·.severity = .error))
      ∧ after.written = (Journal.surviving events).foldl Written.add transcript.written := by
  have same : transcript.session.attending.journal = transcript.session.journal := by
    rw [Session.attending]
    split
    · rfl
    · rfl
  rw [same] at acts
  rw [runLine_eq_flush]
  exact flushed.flush acts

/-- Taking in lines writes what survives of their turns, one turn after the
other. -/
theorem Flushed.runLines {transcript : Transcript} (flushed : transcript.Flushed)
    (lines : List String) (done : List (List Journal.Event))
    (leads : List.Forall₂ Turn.Leads (transcript.session.turns lines) done) :
    let after := lines.foldl Transcript.runLine transcript
    after.sawError
        = (transcript.sawError
          || (done.flatMap Journal.surviving).any (·.severity = .error))
      ∧ after.written
        = (done.flatMap Journal.surviving).foldl Written.add transcript.written := by
  induction lines generalizing transcript done with
  | nil =>
      cases leads
      exact ⟨(Bool.or_false _).symm, rfl⟩
  | cons line lines ih =>
      rcases leads with _ | @⟨_, events, _, done, first, others⟩
      rcases flushed.runLine line first with ⟨flushedToo, session, sawError, written⟩
      have rest : List.Forall₂ Turn.Leads ((transcript.runLine line).session.turns lines) done := by
        rw [session]
        exact others
      rcases ih flushedToo done rest with ⟨sawErrors, writtenAll⟩
      rw [List.foldl_cons, List.flatMap_cons]
      constructor
      · rw [sawErrors, sawError, List.any_append, Bool.or_assoc]
      · rw [writtenAll, written, List.foldl_append]

/-- The errors that survive are those of the turns that fail. -/
theorem errors_of_leads {turns : List Turn} {done : List (List Journal.Event)}
    (leads : List.Forall₂ Turn.Leads turns done) :
    (done.flatMap Journal.surviving).filter (·.severity = .error)
      = turns.flatMap Turn.complaint := by
  induction leads with
  | nil => rfl
  | cons first _ ih =>
      rw [List.flatMap_cons, List.flatMap_cons, List.filter_append, ih, first.errors_surviving]

theorem any_error_of_leads {turns : List Turn} {done : List (List Journal.Event)}
    (leads : List.Forall₂ Turn.Leads turns done) :
    (done.flatMap Journal.surviving).any (·.severity = .error) = turns.any Turn.fails := by
  rw [Bool.eq_iff_iff, ← not_iff_not, Bool.not_eq_true, List.any_eq_false,
    ← List.filter_eq_nil_iff, errors_of_leads leads, List.flatMap_eq_nil_iff, Bool.not_eq_true,
    List.any_eq_false]
  simp only [Turn.fails_iff, ne_eq, not_not]

/-- Running a text on a new session writes, turn by turn, what survives of what
the turn does to the journal: messages to the one output, warnings and errors
to the other.  The errors among it are those of the turns that fail, and the
exit code says whether there is one. -/
theorem runText_writes_once (settings : Settings) (text : String) :
    let transcript := (start settings).runText text
    let turns := (Session.start settings).turns ((Text.lines text.toList).map String.ofList)
    (∃ done, List.Forall₂ Turn.Does turns done)
      ∧ (∀ done, List.Forall₂ Turn.Leads turns done ->
          transcript.written.out = Written.outText (done.flatMap Journal.surviving)
            ∧ transcript.written.err = Written.errText (done.flatMap Journal.surviving)
            ∧ (done.flatMap Journal.surviving).filter (·.severity = .error)
                = turns.flatMap Turn.complaint)
      ∧ transcript.exitCode = if turns.any Turn.fails then 1 else 0 := by
  intro transcript turns
  have writes := (flushed_start settings).runLines ((Text.lines text.toList).map String.ofList)
  choose own does using Turn.exists_does
  have exist : List.Forall₂ Turn.Does turns (turns.map own) :=
    List.forall₂_map_right_iff.mpr (List.forall₂_same.mpr fun turn _ => does turn)
  have leads : List.Forall₂ Turn.Leads turns (turns.map own) :=
    exist.imp fun _ _ does => does.leads
  refine ⟨⟨_, exist⟩, ?_, ?_⟩
  · intro done leads
    have written : transcript.written = _ := (writes done leads).2
    rw [written, Written.foldl_add]
    exact ⟨String.empty_append, String.empty_append, errors_of_leads leads⟩
  · have sawError : transcript.sawError = _ := (writes _ leads).1
    rw [exitCode, sawError, any_error_of_leads leads]
    rfl

theorem runText_writes_once_clear :
    let text := "echo \"a\"; clear; echo \"b\"; user \"\""
    let transcript := (start {}).runText text
    let turns := (Session.start {}).turns ((Text.lines text.toList).map String.ofList)
    (∃ done, List.Forall₂ Turn.Leads turns done
        ∧ Written.outText (done.flatMap Journal.surviving) = "b\n")
      ∧ turns.any Turn.fails = true ∧ transcript.exitCode = 1 := by
  intro text transcript turns
  have out : transcript.written.out = "b\n" := by decide +kernel
  have failed : turns.any Turn.fails = true := by decide +kernel
  rcases runText_writes_once {} text with ⟨⟨done, does⟩, written, code⟩
  have leads := does.imp fun _ _ does => does.leads
  refine ⟨⟨done, leads, ?_⟩, failed, ?_⟩
  · rw [← (written done leads).1]
    exact out
  · rw [code, if_pos failed]

end Transcript
end Launch
end LineShell
