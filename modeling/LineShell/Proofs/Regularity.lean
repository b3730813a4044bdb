import LineShell.Proofs.Changes
import LineShell.Proofs.QuietLines

namespace LineShell

/-!
# What holds of a session after every request

A session is asked to take in a line, to run one, to carry out a command or to
evaluate an expression.  Whatever it was asked before, and whether it could do
what it was asked or not, it is left in order: a question waits exactly if the
next line is its answer, no call is left open, lines are shown and may be
typed, the home directory is the user's, and the variables have one value each.
Its journal only grows, or starts a new epoch.

On the way some of this does not hold: typing is forbidden while a line is
taken in, and lines are hidden while an answer is acted on.  So the proof keeps
apart what holds all the time, `Sound`, what holds whenever a line begins or
ends, `Poised`, and what holds between two requests, `Regular`.
-/

open Steps

/-! ## Journals that grow -/

/-- One journal is an earlier state of another: epochs do not go back, and
within an epoch entries are only added. -/
structure Journal.Precedes (earlier later : Journal) : Prop where
  epoch_le : earlier.epoch ≤ later.epoch
  entries_of_epoch_eq : earlier.epoch = later.epoch ->
    earlier.entries.toList <+: later.entries.toList

namespace Journal.Precedes

variable {earlier between later : Journal}

theorem refl (journal : Journal) : journal.Precedes journal where
  epoch_le := Nat.le_refl _
  entries_of_epoch_eq := fun _ => List.prefix_refl _

theorem trans (first : earlier.Precedes between) (second : between.Precedes later) :
    earlier.Precedes later where
  epoch_le := Nat.le_trans first.epoch_le second.epoch_le
  entries_of_epoch_eq := by
    intro same
    -- The epoch in between cannot be another one.
    have throughout : earlier.epoch = between.epoch := by
      have upper := second.epoch_le
      rw [← same] at upper
      exact Nat.le_antisymm first.epoch_le upper
    have before := first.entries_of_epoch_eq throughout
    have after := second.entries_of_epoch_eq (throughout.symm.trans same)
    exact before.trans after

theorem add (precedes : earlier.Precedes later) (severity : Severity) (message : String) :
    earlier.Precedes (later.add severity message) := by
  apply precedes.trans
  constructor
  · exact Nat.le_refl _
  · intro _
    rw [Journal.add, Array.toList_push]
    exact List.prefix_append _ _

theorem clear (precedes : earlier.Precedes later) : earlier.Precedes later.clear := by
  apply precedes.trans
  constructor
  · exact Nat.le_succ _
  · intro same
    exact absurd same (Nat.ne_of_lt (Nat.lt_succ_self _))

end Journal.Precedes

theorem Session.Changes.journal_precedes {session after : Session}
    (changes : session.Changes after) : session.journal.Precedes after.journal := by
  induction changes with
  | refl => exact .refl _
  | note severity message _ ih => exact ih.add severity message
  | clear _ ih => exact ih.clear
  | _ => assumption

/-! ## Variables -/

/-- Each variable has one value, which is not the empty text. -/
structure Bindings.Proper (bindings : Bindings) : Prop where
  names_nodup : (bindings.entries.map Prod.fst).Nodup
  value_ne_empty : ∀ entry ∈ bindings.entries, entry.2 ≠ .text ""

namespace Bindings

theorem proper_empty : empty.Proper where
  names_nodup := List.nodup_nil
  value_ne_empty := by
    intro entry member
    cases member

theorem mem_put {name : String} {value : Value} {entries : List (String × Value)}
    {entry : String × Value} (member : entry ∈ put name value entries) :
    entry = (name, value) ∨ entry ∈ entries := by
  induction entries with
  | nil => exact .inl (List.mem_singleton.mp member)
  | cons first entries ih =>
      rw [put] at member
      split at member
      · exact (List.mem_cons.mp member).imp_right (List.mem_cons_of_mem first)
      · rcases List.mem_cons.mp member with rfl | member
        · exact .inr List.mem_cons_self
        · exact (ih member).imp_right (List.mem_cons_of_mem first)

theorem nodup_put {name : String} {value : Value} {entries : List (String × Value)}
    (nodup : (entries.map Prod.fst).Nodup) : ((put name value entries).map Prod.fst).Nodup := by
  induction entries with
  | nil => exact List.nodup_cons.mpr ⟨List.not_mem_nil, List.nodup_nil⟩
  | cons first entries ih =>
      rw [List.map_cons, List.nodup_cons] at nodup
      rw [put]
      split
      · rename_i same
        rw [List.map_cons, List.nodup_cons, ← same]
        exact nodup
      · rename_i different
        rw [List.map_cons, List.nodup_cons]
        refine ⟨?_, ih nodup.2⟩
        intro repeated
        rcases List.mem_map.mp repeated with ⟨entry, member, same⟩
        rcases mem_put member with rfl | member
        · exact different same.symm
        · exact nodup.1 (List.mem_map.mpr ⟨entry, member, same⟩)

theorem ne_empty_of_set {value : Value} (kept : ¬value.isUnset = true) : value ≠ .text "" := by
  rintro rfl
  exact kept rfl

theorem Proper.set {bindings : Bindings} (proper : bindings.Proper) (name : String)
    (value : Value) : (bindings.set name value).Proper := by
  rw [Bindings.set]
  split
  · constructor
    · exact proper.names_nodup.sublist (List.filter_sublist.map Prod.fst)
    · intro entry member
      exact proper.value_ne_empty entry (List.mem_of_mem_filter member)
  · rename_i kept
    constructor
    · exact nodup_put proper.names_nodup
    · intro entry member
      rcases mem_put member with rfl | member
      · exact ne_empty_of_set kept
      · exact proper.value_ne_empty entry member

end Bindings

/-! ## Home directories -/

/-- A user's home directory: the root of the home directories without the
slashes at its end, a slash, and the user. -/
def Terminal.IsHome (homeRoot user home : String) : Prop :=
  ∃ stripped slashes, homeRoot.toList = stripped ++ slashes ∧ (∀ char ∈ slashes, char = '/')
    ∧ stripped.getLast? ≠ some '/' ∧ home.toList = stripped ++ '/' :: user.toList

theorem Terminal.isHome_homeOf (homeRoot user : String) :
    IsHome homeRoot user (homeOf homeRoot user) := by
  refine ⟨Path.trimSlashes homeRoot.toList,
    (homeRoot.toList.reverse.takeWhile (· = '/')).reverse, ?_, ?_, ?_, ?_⟩
  · rw [Path.trimSlashes, ← List.reverse_append, List.takeWhile_append_dropWhile,
      List.reverse_reverse]
  · intro char member
    have slash := List.mem_takeWhile_imp (List.mem_reverse.mp member)
    exact of_decide_eq_true slash
  · rw [Path.trimSlashes, List.getLast?_reverse]
    intro ends
    have kept := List.head?_dropWhile_not (· = '/') homeRoot.toList.reverse
    rw [ends] at kept
    cases kept
  · simp only [homeOf, String.toList_append, String.toList_ofList, List.append_assoc]
    rfl

/-! ## The parts of the invariant -/

namespace Session

/-- What holds of a session all the time, outside of calls. -/
structure Sound (settings : Settings) (session : Session) : Prop where
  callDepth_eq : session.callDepth = 0
  homeRoot_eq : session.terminal.homeRoot = settings.homeRoot
  home_eq : session.terminal.home?
    = some (Terminal.homeOf settings.homeRoot session.terminal.user)
  bindings : session.bindings.Proper

/-- What holds of a session whenever a line begins or ends. -/
structure Poised (settings : Settings) (session : Session) : Prop
    extends Sound settings session where
  awaiting_iff : session.pending?.isSome = true ↔ session.terminal.mode = .answer
  echo_eq : session.terminal.echo = true

/-- What holds of a session between two requests. -/
structure Regular (settings : Settings) (session : Session) : Prop where
  awaiting_iff : session.pending?.isSome = true ↔ session.terminal.mode = .answer
  callDepth_eq : session.callDepth = 0
  echo_eq : session.terminal.echo = true
  canType_eq : session.terminal.canType = true
  home : ∃ home, session.terminal.home? = some home
    ∧ Terminal.IsHome settings.homeRoot session.terminal.user home
  bindings : session.bindings.Proper

variable {settings : Settings} {session after : Session}

theorem Poised.regular (poised : session.Poised settings)
    (canType : session.terminal.canType = true) : session.Regular settings where
  awaiting_iff := poised.awaiting_iff
  callDepth_eq := poised.callDepth_eq
  echo_eq := poised.echo_eq
  canType_eq := canType
  home := ⟨_, poised.home_eq, Terminal.isHome_homeOf _ _⟩
  bindings := poised.bindings

theorem poised_start (settings : Settings) : (start settings).Poised settings where
  callDepth_eq := rfl
  homeRoot_eq := rfl
  home_eq := rfl
  bindings := Bindings.proper_empty
  awaiting_iff := by
    constructor <;> intro impossible <;> cases impossible
  echo_eq := rfl

theorem Sound.changes (sound : session.Sound settings) (changes : session.Changes after) :
    after.Sound settings := by
  induction changes with
  | refl => exact sound
  | store name value _ ih => exact { ih with bindings := ih.bindings.set name value }
  | flush _ ih => exact { ih with bindings := Bindings.proper_empty }
  | @setUser before name _ ih =>
      refine { ih with home_eq := ?_ }
      rw [← ih.homeRoot_eq]
      rfl
  | note _ _ _ ih | clear _ ih | changeDirectory _ _ ih | showLines _ ih => exact { ih with }

theorem Sound.setEcho (sound : session.Sound settings) (echo : Bool) :
    (session.setEcho echo).Sound settings :=
  { sound with }

theorem Sound.setMode (sound : session.Sound settings) (mode : InputMode) :
    (session.setMode mode).Sound settings :=
  { sound with }

theorem Sound.setCanType (sound : session.Sound settings) (canType : Bool) :
    (session.setCanType canType).Sound settings :=
  { sound with }

theorem Poised.changes (poised : session.Poised settings) (changes : session.Changes after) :
    after.Poised settings where
  toSound := poised.toSound.changes changes
  awaiting_iff := by
    rw [changes.pending_eq, changes.mode_eq]
    exact poised.awaiting_iff
  echo_eq := changes.echo_eq poised.echo_eq

/-! ## Lines -/

/-- The session while it waits for an answer. -/
def awaiting (pending : Pending) (session : Session) : Session :=
  { ((session.setMode .answer).setEcho true).setCanType true with pending? := some pending }

/-- What running a line comes to: changes that commands make, and possibly a
question that now waits where none did. -/
inductive Course (session : Session) : Session -> Prop
  | changed {after : Session} (changes : session.Changes after) : Course session after
  | asked {after : Session} (pending : Pending) (changes : session.Changes after)
      (idle : session.pending? = none) : Course session (after.awaiting pending)

theorem Changes.course {between : Session} (changes : session.Changes between)
    (course : between.Course after) : session.Course after := by
  cases course with
  | changed more => exact .changed (changes.trans more)
  | asked pending more idle =>
      exact .asked pending (changes.trans more) (changes.pending_eq.symm.trans idle)

theorem Sound.awaiting (sound : session.Sound settings) (pending : Pending) :
    (session.awaiting pending).Poised settings where
  toSound := { sound with }
  awaiting_iff := by
    constructor <;> intro _ <;> rfl
  echo_eq := rfl

theorem Poised.course (poised : session.Poised settings) (course : session.Course after) :
    after.Poised settings := by
  cases course with
  | changed changes => exact poised.changes changes
  | asked pending changes _ => exact (poised.toSound.changes changes).awaiting pending

theorem Course.journal_precedes (course : session.Course after) :
    session.journal.Precedes after.journal := by
  cases course with
  | changed changes => exact changes.journal_precedes
  | asked _ changes _ => exact changes.journal_precedes

theorem Course.canType_eq (course : session.Course after)
    (canType : session.terminal.canType = true) : after.terminal.canType = true := by
  cases course with
  | changed changes => exact changes.canType_eq.trans canType
  | asked => rfl

/-- A line after which the same question waits, or none, has asked nothing. -/
theorem Course.changes_of_pending_eq (course : session.Course after)
    (same : after.pending? = session.pending?) : session.Changes after := by
  cases course with
  | changed changes => exact changes
  | asked pending _ idle =>
      rw [idle] at same
      cases same

theorem course_settle {step : SessionM Unit}
    (ran : Ensures (fun _ after => session.Course after) (fun _ after => session.Changes after)
      (step session)) : session.Course (session.settle step) := by
  rw [settle]
  cases result : step session with
  | ok value after =>
      rw [result] at ran
      exact ran
  | error fault after =>
      rw [result] at ran
      exact .changed (Changes.note .error fault.message ran)

end Session

namespace SessionM

variable {script : Session -> Session}

theorem showLine_changes (line : String) (session : Session) :
    ∃ shown, showLine line session = .ok () shown ∧ session.Changes shown := by
  rw [showLine, get_bind]
  split
  · exact ⟨_, rfl, Session.Changes.refl.note .info _⟩
  · exact ⟨session, rfl, .refl⟩

theorem confined_warn (warnings : List Warning) :
    Confined (warnings.forM fun warning => modify fun session : Session =>
      session.note .warning warning.message) :=
  moves_forM Session.effects_changes fun warning =>
    moves_modify fun _ => Session.Changes.refl.note .warning warning.message

theorem ask_course (question : Question) (remaining : List Command) (session : Session) :
    Ensures (fun _ after => session.Course after) (fun _ after => session.Changes after)
      (ask question remaining session) := by
  rw [ask, get_bind]
  cases waits : session.isAwaiting with
  | true =>
      simp only [if_true]
      exact .refl
  | false =>
      simp only [Bool.false_eq_true, if_false]
      have idle : session.pending? = none := Option.not_isSome_iff_eq_none.mp (by
        rw [Session.isAwaiting] at waits
        rw [waits]
        decide)
      exact .asked { question, remaining } (Session.Changes.refl.note .info _) idle

theorem runCommandsWith_course (harmless : Session.Harmless script)
    (commands : List Command) (session : Session) :
    Ensures (fun _ after => session.Course after) (fun _ after => session.Changes after)
      (runCommandsWith script commands session) := by
  induction commands generalizing session with
  | nil => exact .changed .refl
  | cons command remaining ih =>
      rw [runCommandsWith]
      apply Ensures.bind (confined_executeWith harmless false command session)
      intro outcome between changes
      have continued : ∀ {result : EStateM.Result Fault Session Unit},
          Ensures (fun _ after => between.Course after) (fun _ after => between.Changes after)
            result ->
          Ensures (fun _ after => session.Course after) (fun _ after => session.Changes after)
            result :=
        fun ran => ran.mono (fun _ _ course => changes.course course)
          fun _ _ more => changes.trans more
      cases outcome with
      | value value => exact continued (ih between)
      | ask question => exact continued (ask_course question remaining between)

theorem runLineWith_course (harmless : Session.Harmless script) (line : String)
    (session : Session) :
    Ensures (fun _ after => session.Course after) (fun _ after => session.Changes after)
      (runLineWith script line session) := by
  simp only [runLineWith]
  split
  · exact .changed .refl
  · rcases showLine_changes (String.ofList (Text.skipSpaces line.toList)) session with
      ⟨shown, ran, changes⟩
    rw [bind_of_ok ran]
    cases Parser.start (String.ofList (Text.skipSpaces line.toList)) with
    | error fault => exact changes
    | ok state =>
        apply Ensures.bind ((confined_warn _ shown).mono (fun _ _ more => changes.trans more)
          fun _ _ more => changes.trans more)
        intro _ warned changes
        cases Parser.line state with
        | error fault after => exact changes
        | ok commands after =>
            exact (runCommandsWith_course harmless commands warned).mono
              (fun _ _ course => changes.course course) fun _ _ more => changes.trans more

/-- A quiet line asks nothing, so only changes that commands make are left. -/
theorem changes_settle_quiet (harmless : Session.Harmless script) {line : String}
    (quiet : isQuietLine line = true) (session : Session) :
    session.Changes (session.settle (runLineWith script line)) :=
  (Session.course_settle (runLineWith_course harmless line session)).changes_of_pending_eq
    (settle_quiet script quiet session).pending_eq

end SessionM

namespace Session

theorem harmless_id : Harmless id :=
  fun _ => Changes.refl.showLines

theorem changes_runScript (session : Session) : session.Changes session.runScript := by
  have quiet := SessionM.scriptLines_quiet
  rw [runScript]
  generalize scriptLines = lines at quiet
  induction lines generalizing session with
  | nil => exact .refl
  | cons line lines ih =>
      have first := SessionM.changes_settle_quiet harmless_id
        (quiet line List.mem_cons_self) session
      exact first.trans (ih _ fun other member => quiet other (List.mem_cons_of_mem _ member))

/-- The script makes only changes that commands make, so commands may run it. -/
theorem harmless_runScript : Harmless runScript :=
  fun session => (changes_runScript (session.setEcho false)).withEcho session.terminal.echo

end Session

namespace SessionM

theorem confined_execute (piping : Bool) (command : Command) :
    Confined (execute piping command) :=
  confined_executeWith Session.harmless_runScript piping command

theorem confined_evaluate (expression : Expr) : Confined (evaluate expression) :=
  confined_evaluateWith Session.harmless_runScript expression

theorem settleLines_changes {lines : List String}
    (quiet : ∀ line ∈ lines, isQuietLine line = true) (session : Session) :
    ∃ after, (lines.forM fun line => modify fun session => session.settle (runLine line) :
        SessionM Unit) session = .ok () after
      ∧ session.Changes after := by
  induction lines generalizing session with
  | nil => exact ⟨session, rfl, .refl⟩
  | cons line lines ih =>
      have first := changes_settle_quiet Session.harmless_runScript
        (quiet line List.mem_cons_self) session
      rcases ih (fun other member => quiet other (List.mem_cons_of_mem _ member)) _ with
        ⟨after, ran, more⟩
      exact ⟨after, ran, first.trans more⟩

/-- Taking an answer leaves a session poised, whatever its flags were before and
whether the line is an answer or not. -/
theorem answer_poised {settings : Settings} {session : Session} (sound : session.Sound settings)
    (idle : session.pending? = none) (pending : Pending) (line : String) :
    Ensures
      (fun _ after => after.Poised settings ∧ session.journal.Precedes after.journal)
      (fun _ after => after.Poised settings ∧ session.journal.Precedes after.journal)
      (answer pending line session) := by
  rcases showLine_changes line session with ⟨shown, ran, changes⟩
  have acting : (((shown.setMode .command).setEcho false).setCanType false).Sound settings :=
    (((sound.changes changes).setMode _).setEcho _).setCanType _
  rw [answer, bind_of_ok ran]
  cases answered : pending.question.onAnswer? line with
  | none =>
      have noted := acting.changes
        (Session.Changes.refl.note .info "value must be one of y or n!")
      refine ⟨noted.awaiting pending, ?_⟩
      exact changes.journal_precedes.add .info "value must be one of y or n!"
  | some lines =>
      rcases settleLines_changes (onAnswer_quiet answered) _ with ⟨acted, ranLines, more⟩
      have resumed : (acted.setEcho true).Poised settings :=
        { (acting.changes more).setEcho true with
          awaiting_iff := by
            have idle : acted.pending? = none :=
              more.pending_eq.trans (changes.pending_eq.trans idle)
            have commands : acted.terminal.mode = .command := more.mode_eq
            simp only [Session.setEcho, idle, commands]
            decide
          echo_eq := rfl }
      have before : session.journal.Precedes acted.journal :=
        changes.journal_precedes.trans more.journal_precedes
      have rest := runCommandsWith_course Session.harmless_runScript pending.remaining
        (acted.setEcho true)
      change Ensures _ _ ((lines.forM _ >>= fun _ => modify _ >>= fun _ =>
        runCommands pending.remaining) (((shown.setMode .command).setEcho false).setCanType false))
      rw [bind_of_ok ranLines]
      refine rest.mono ?_ ?_
      · intro _ after course
        exact ⟨resumed.course course, before.trans course.journal_precedes⟩
      · intro _ after last
        exact ⟨resumed.changes last, before.trans last.journal_precedes⟩

end SessionM

/-! ## Requests -/

/-- What a session can be asked to do.  The commands and expressions need not
come from a line. -/
inductive Request where
  | submit (line : String)
  | runLine (line : String)
  | execute (piping : Bool) (command : Command)
  | evaluate (expression : Expr)

namespace Session

variable {settings : Settings} {session : Session}

/-- The session that a step leaves, whether it fails or not. -/
def leftBy {α : Type} (session : Session) (step : SessionM α) : Session :=
  match step session with
  | .ok _ after | .error _ after => after

def perform (session : Session) : Request -> Session
  | .submit line => session.submit line
  | .runLine line => session.leftBy (SessionM.runLine line)
  | .execute piping command => session.leftBy (SessionM.execute piping command)
  | .evaluate expression => session.leftBy (SessionM.evaluate expression)

theorem leftBy_of_ensures {α : Type} {step : SessionM α} {left : Session -> Prop}
    (ran : Ensures (fun _ after => left after) (fun _ after => left after) (step session)) :
    left (session.leftBy step) := by
  rw [leftBy]
  cases result : step session with
  | ok value after =>
      rw [result] at ran
      exact ran
  | error fault after =>
      rw [result] at ran
      exact ran

theorem settle_of_ensures {step : SessionM Unit}
    (ran : Ensures
      (fun _ after => after.Poised settings ∧ session.journal.Precedes after.journal)
      (fun _ after => after.Poised settings ∧ session.journal.Precedes after.journal)
      (step session)) :
    (session.settle step).Poised settings
      ∧ session.journal.Precedes (session.settle step).journal := by
  rw [settle]
  cases result : step session with
  | ok value after =>
      rw [result] at ran
      exact ran
  | error fault after =>
      rw [result] at ran
      exact ⟨ran.1.changes (Changes.refl.note .error fault.message),
        ran.2.add .error fault.message⟩

theorem Poised.setCanType (poised : session.Poised settings) (canType : Bool) :
    (session.setCanType canType).Poised settings :=
  { poised with }

theorem Poised.submit (poised : session.Poised settings) (line : String) :
    (session.submit line).Poised settings
      ∧ session.journal.Precedes (session.submit line).journal := by
  cases waits : session.pending? with
  | none =>
      have course := course_settle (SessionM.runLineWith_course harmless_runScript line
        (session.setCanType false))
      have submitted : session.submit line
          = ((session.setCanType false).settle (SessionM.runLine line)).setCanType true := by
        simp only [Session.submit, Session.setCanType, waits]
      rw [submitted]
      exact ⟨((poised.setCanType false).course course).setCanType true, course.journal_precedes⟩
  | some pending =>
      have sound : Sound settings { session.setCanType false with pending? := none } :=
        { poised.toSound with }
      have answered := settle_of_ensures (SessionM.answer_poised sound rfl pending line)
      have submitted : session.submit line
          = (settle { session.setCanType false with pending? := none }
              (SessionM.answer pending line)).setCanType true := by
        simp only [Session.submit, Session.setCanType, waits]
      rw [submitted]
      exact ⟨answered.1.setCanType true, answered.2⟩

/-- What a request keeps. -/
theorem Poised.perform (poised : session.Poised settings)
    (canType : session.terminal.canType = true) (request : Request) :
    (session.perform request).Poised settings
      ∧ (session.perform request).terminal.canType = true
      ∧ session.journal.Precedes (session.perform request).journal := by
  have changed : ∀ {α : Type} {step : SessionM α}, SessionM.Confined step ->
      (session.leftBy step).Poised settings ∧ (session.leftBy step).terminal.canType = true
        ∧ session.journal.Precedes (session.leftBy step).journal := by
    intro α step confined
    have changes : session.Changes (session.leftBy step) := leftBy_of_ensures (confined session)
    exact ⟨poised.changes changes, changes.canType_eq.trans canType, changes.journal_precedes⟩
  cases request with
  | submit line =>
      rcases poised.submit line with ⟨after, precedes⟩
      exact ⟨after, rfl, precedes⟩
  | runLine line =>
      have course : session.Course (session.leftBy (SessionM.runLine line)) :=
        leftBy_of_ensures ((SessionM.runLineWith_course harmless_runScript line
          session).mono (fun _ _ course => course) fun _ _ changes => .changed changes)
      exact ⟨poised.course course, course.canType_eq canType, course.journal_precedes⟩
  | execute piping command => exact changed (SessionM.confined_execute piping command)
  | evaluate expression => exact changed (SessionM.confined_evaluate expression)

/-- What any number of requests keep. -/
theorem Poised.foldl_perform (poised : session.Poised settings)
    (canType : session.terminal.canType = true) (requests : List Request) :
    (requests.foldl Session.perform session).Poised settings
      ∧ (requests.foldl Session.perform session).terminal.canType = true
      ∧ session.journal.Precedes (requests.foldl Session.perform session).journal := by
  induction requests generalizing session with
  | nil => exact ⟨poised, canType, .refl _⟩
  | cons request requests ih =>
      rcases poised.perform canType request with ⟨poised, canType, precedes⟩
      rcases ih poised canType with ⟨last, canTypeLast, more⟩
      exact ⟨last, canTypeLast, precedes.trans more⟩

/-- After any requests a session is in order, and whatever it is asked next, its
journal is continued or starts a new epoch. -/
theorem foldl_perform_regular (settings : Settings) (earlier later : List Request) :
    (earlier.foldl perform (start settings)).Regular settings
      ∧ (earlier.foldl perform (start settings)).journal.Precedes
          ((earlier ++ later).foldl perform (start settings)).journal := by
  rcases (poised_start settings).foldl_perform rfl earlier with ⟨poised, canType, _⟩
  rcases poised.foldl_perform canType later with ⟨_, _, precedes⟩
  refine ⟨poised.regular canType, ?_⟩
  rw [List.foldl_append]
  exact precedes

end Session
end LineShell
