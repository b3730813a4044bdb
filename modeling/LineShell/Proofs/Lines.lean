import LineShell.Proofs.Execution
import LineShell.Session.Line

namespace LineShell

/-!
# What taking in a line can do

Around its commands a line shows itself, warns, asks, waits and reports a fault.
A relation between two sessions that all these changes respect, together with
those of commands, is kept by every line that the sessions take in, be it an
answer or not.

The lines of the script run no script themselves, so the relation is first
carried through lines without one, and then through all.
-/

open Steps

namespace Session

/-- A relation between sessions that lines keep: what they read is the same in
both sessions, and what they change is changed alike.  Whether a line is shown
need not be the same, as long as showing it respects the relation. -/
structure Respected (kept : Session -> Session -> Prop) : Prop where
  bindings : ∀ {one two}, kept one two -> one.bindings = two.bindings
  callDepth : ∀ {one two}, kept one two -> one.callDepth = two.callDepth
  banner : ∀ {one two}, kept one two -> one.terminal.banner = two.terminal.banner
  directory : ∀ {one two}, kept one two ->
    one.terminal.workingDirectory = two.terminal.workingDirectory
  pending : ∀ {one two}, kept one two -> one.pending? = two.pending?
  shown : ∀ line, SessionM.Keeps kept (SessionM.showLine line)
  noted : ∀ {one two}, kept one two ->
    ∀ severity message, kept (one.note severity message) (two.note severity message)
  cleared : ∀ {one two}, kept one two ->
    kept { one with journal := one.journal.clear } { two with journal := two.journal.clear }
  bound : ∀ {one two}, kept one two ->
    ∀ bindings, kept { one with bindings } { two with bindings }
  called : ∀ {one two}, kept one two ->
    ∀ callDepth, kept { one with callDepth } { two with callDepth }
  renamed : ∀ {one two}, kept one two -> ∀ name, kept (one.withUser name) (two.withUser name)
  moved : ∀ {one two}, kept one two ->
    ∀ target?, kept (one.withDirectory target?) (two.withDirectory target?)
  waiting : ∀ {one two}, kept one two ->
    ∀ pending?, kept { one with pending? } { two with pending? }
  setEcho : ∀ {one two}, kept one two -> ∀ echo, kept (one.setEcho echo) (two.setEcho echo)
  setMode : ∀ {one two}, kept one two -> ∀ mode, kept (one.setMode mode) (two.setMode mode)
  setCanType : ∀ {one two}, kept one two ->
    ∀ canType, kept (one.setCanType canType) (two.setCanType canType)

/-- The script keeps the relation. -/
def Carries (kept : Session -> Session -> Prop) (script : Session -> Session) : Prop :=
  ∀ {one two}, kept one two -> kept (script one) (script two)

namespace Respected

variable {kept : Session -> Session -> Prop} {script : Session -> Session}
  (holds : Respected kept)
include holds

/-- Commands keep the relation, for a script that does. -/
theorem commands (carries : Carries kept script) : Kept script kept where
  bindings := holds.bindings
  callDepth := holds.callDepth
  banner := holds.banner
  directory := holds.directory
  noted related := holds.noted related .info
  cleared := holds.cleared
  bound := holds.bound
  called := holds.called
  renamed := holds.renamed
  moved := holds.moved
  rehearsed related := holds.setEcho (carries (holds.setEcho related false)) true

/-- Sessions stay related when a fault is reported. -/
theorem settle {one two : Session} {step : SessionM Unit} (related : kept one two)
    (keeps : SessionM.Keeps kept step) : kept (one.settle step) (two.settle step) := by
  have results := keeps one two related
  rw [Session.settle, Session.settle]
  cases ran : step one <;> cases ran' : step two <;> rw [ran, ran'] at results
  · exact results.2
  · cases results
  · cases results
  · simp only [results.1]
    exact holds.noted results.2 .error _

end Respected
end Session

namespace SessionM

open Session

variable {kept : Session -> Session -> Prop} {script : Session -> Session}

section Lines

variable (holds : Respected kept)
include holds

theorem keeps_await (pending : Pending) : Keeps kept (await pending) := by
  apply keeps_modify
  intro one two related
  exact holds.waiting (holds.setCanType (holds.setEcho (holds.setMode related _) _) _) _

theorem keeps_ask (question : Question) (remaining : List Command) :
    Keeps kept (ask question remaining) := by
  intro one two related
  rw [ask, get_bind, get_bind, isAwaiting, isAwaiting, holds.pending related]
  split
  · exact keeps_refuse _ one two related
  · refine keeps_bind ?_ (fun _ => keeps_await holds _) one two related
    exact keeps_modify fun _ _ related => holds.noted related .info _

theorem keeps_runCommandsWith (carries : Carries kept script) (commands : List Command) :
    Keeps kept (runCommandsWith script commands) := by
  induction commands with
  | nil => exact keeps_pure _
  | cons command commands ih =>
      rw [runCommandsWith]
      apply keeps_bind (keeps_executeWith (holds.commands carries) false command)
      intro outcome
      cases outcome with
      | value value => exact ih
      | ask question => exact keeps_ask holds question commands

theorem keeps_runLineWith (carries : Carries kept script) (line : String) :
    Keeps kept (runLineWith script line) := by
  simp only [runLineWith]
  split
  · exact keeps_pure _
  · apply keeps_bind (holds.shown _)
    intro _
    split
    · exact fun _ _ related => ⟨rfl, related⟩
    · apply keeps_bind
      · apply keeps_forM
        intro warning
        exact keeps_modify fun _ _ related => holds.noted related .warning _
      · intro _
        split
        · exact keeps_runCommandsWith holds carries _
        · exact fun _ _ related => ⟨rfl, related⟩

end Lines
end SessionM

namespace Session.Respected

variable {kept : Session -> Session -> Prop} (holds : Respected kept)
include holds

theorem carries_runScript : Carries kept runScript := by
  intro one two related
  rw [runScript, runScript]
  generalize scriptLines = lines
  have carries : Carries kept id := fun related => related
  induction lines generalizing one two with
  | nil => exact related
  | cons line lines ih =>
      exact ih (holds.settle related (SessionM.keeps_runLineWith holds carries line))

theorem kept_runScript : Kept runScript kept :=
  holds.commands holds.carries_runScript

end Session.Respected

/-! ## Conversations -/

namespace SessionM

open Session

variable {kept : Session -> Session -> Prop} (holds : Respected kept)
include holds

theorem keeps_runLine (line : String) : Keeps kept (runLine line) :=
  keeps_runLineWith holds holds.carries_runScript line

theorem keeps_answer (pending : Pending) (line : String) : Keeps kept (answer pending line) := by
  rw [answer]
  apply keeps_bind (holds.shown line)
  intro _
  apply keeps_bind
  · apply keeps_modify
    intro one two related
    exact holds.setCanType (holds.setEcho (holds.setMode related _) _) _
  · intro _
    split
    · refine keeps_bind ?_ fun _ => keeps_await holds pending
      exact keeps_modify fun _ _ related => holds.noted related .info _
    · apply keeps_bind
      · apply keeps_forM
        intro shown
        exact keeps_modify fun _ _ related => holds.settle related (keeps_runLine holds shown)
      · intro _
        apply keeps_bind
        · exact keeps_modify fun _ _ related => holds.setEcho related true
        · intro _
          exact keeps_runCommandsWith holds holds.carries_runScript _

end SessionM

/-- Related sessions take in a line and stay related. -/
theorem Session.Respected.submit {kept : Session -> Session -> Prop} (holds : Respected kept)
    {one two : Session} (related : kept one two) (line : String) :
    kept (one.submit line) (two.submit line) := by
  have begun := holds.setCanType related false
  simp only [Session.submit]
  rw [holds.pending begun]
  split
  · rename_i pending waits
    have answered := holds.settle (holds.waiting begun none)
      (SessionM.keeps_answer holds pending line)
    exact holds.setCanType answered true
  · have ran := holds.settle begun (SessionM.keeps_runLine holds line)
    exact holds.setCanType ran true

end LineShell
