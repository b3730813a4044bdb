import LineShell.Proofs.Effects

namespace LineShell

/-!
# What commands change

A command reaches a session through a handful of changes: it adds to the
journal or clears it, writes variables, changes the user or the directory, and
turns the showing of lines on.  Nothing else is touched, neither by a command
that succeeds nor by one that fails halfway, and a call inside an expression
gives back the level that it took.

What these changes keep is therefore kept by every command and expression,
however they were made.  The script that a command may run is a parameter; it
only has to be confined to the same changes.
-/

open Steps

namespace Session

/-- The second session is the first one after changes that commands make. -/
inductive Changes (session : Session) : Session -> Prop
  | refl : Changes session session
  | note {after : Session} (severity : Severity) (message : String)
      (before : Changes session after) : Changes session (after.note severity message)
  | clear {after : Session} (before : Changes session after) :
      Changes session { after with journal := after.journal.clear }
  | store {after : Session} (name : String) (value : Value) (before : Changes session after) :
      Changes session { after with bindings := after.bindings.set name value }
  | flush {after : Session} (before : Changes session after) :
      Changes session { after with bindings := .empty }
  | setUser {after : Session} (name : String) (before : Changes session after) :
      Changes session { after with terminal := after.terminal.setUser name }
  | changeDirectory {after : Session} (target? : Option String)
      (before : Changes session after) :
      Changes session { after with terminal := after.terminal.changeDirectory target? }
  | showLines {after : Session} (before : Changes session after) :
      Changes session (after.setEcho true)

namespace Changes

variable {session between after : Session}

theorem trans (first : session.Changes between) (second : between.Changes after) :
    session.Changes after := by
  induction second with
  | refl => exact first
  | note severity message _ ih => exact ih.note severity message
  | clear _ ih => exact ih.clear
  | store name value _ ih => exact ih.store name value
  | flush _ ih => exact ih.flush
  | setUser name _ ih => exact ih.setUser name
  | changeDirectory target? _ ih => exact ih.changeDirectory target?
  | showLines _ ih => exact ih.showLines

/-- The changes do not depend on how many commands are being called. -/
theorem withCallDepth (changes : session.Changes after) (callDepth : Nat) :
    Changes { session with callDepth } { after with callDepth } := by
  induction changes with
  | refl => exact .refl
  | note severity message _ ih => exact ih.note severity message
  | clear _ ih => exact ih.clear
  | store name value _ ih => exact ih.store name value
  | flush _ ih => exact ih.flush
  | setUser name _ ih => exact ih.setUser name
  | changeDirectory target? _ ih => exact ih.changeDirectory target?
  | showLines _ ih => exact ih.showLines

/-- The changes do not depend on whether lines are shown, as long as they are in
the end. -/
theorem withEcho (changes : session.Changes after) (echo : Bool) :
    (session.setEcho echo).Changes (after.setEcho true) := by
  induction changes with
  | refl => exact Changes.refl.showLines
  | note severity message _ ih => exact ih.note severity message
  | clear _ ih => exact ih.clear
  | store name value _ ih => exact ih.store name value
  | flush _ ih => exact ih.flush
  | setUser name _ ih => exact ih.setUser name
  | changeDirectory target? _ ih => exact ih.changeDirectory target?
  | showLines _ ih => exact ih.showLines

theorem pending_eq (changes : session.Changes after) : after.pending? = session.pending? := by
  induction changes with
  | refl => rfl
  | _ => assumption

theorem callDepth_eq (changes : session.Changes after) : after.callDepth = session.callDepth := by
  induction changes with
  | refl => rfl
  | _ => assumption

theorem mode_eq (changes : session.Changes after) :
    after.terminal.mode = session.terminal.mode := by
  induction changes with
  | refl => rfl
  | _ => assumption

theorem canType_eq (changes : session.Changes after) :
    after.terminal.canType = session.terminal.canType := by
  induction changes with
  | refl => rfl
  | _ => assumption

theorem device_eq (changes : session.Changes after) :
    after.terminal.device = session.terminal.device := by
  induction changes with
  | refl => rfl
  | _ => assumption

theorem banner_eq (changes : session.Changes after) :
    after.terminal.banner = session.terminal.banner := by
  induction changes with
  | refl => rfl
  | _ => assumption

theorem homeRoot_eq (changes : session.Changes after) :
    after.terminal.homeRoot = session.terminal.homeRoot := by
  induction changes with
  | refl => rfl
  | _ => assumption

/-- Lines that are shown stay shown. -/
theorem echo_eq (changes : session.Changes after) (shown : session.terminal.echo = true) :
    after.terminal.echo = true := by
  induction changes with
  | refl => exact shown
  | showLines => rfl
  | _ => assumption

end Changes

theorem changes_withUser (name : String) (session : Session) :
    session.Changes (session.withUser name) := by
  unfold withUser
  split
  · exact .refl
  · exact Changes.refl.setUser name

/-- The changes are all that commands do, but for the script. -/
theorem effects_changes : Effects Changes where
  refl _ := .refl
  trans := Changes.trans
  stored _ name value := Changes.refl.store name value
  flushed _ := Changes.refl.flush
  renamed session name := session.changes_withUser name
  moved _ target? := Changes.refl.changeDirectory target?
  returned {session after} changes := by
    have framed := changes.withCallDepth session.callDepth
    rw [changes.callDepth_eq, Nat.add_sub_cancel]
    exact framed

/-- Running the script inside a command makes only changes that commands make. -/
def Harmless (script : Session -> Session) : Prop :=
  ∀ session : Session, session.Changes (session.rehearsed script)

theorem Harmless.admitted {script : Session -> Session} (harmless : Harmless script)
    (piping : Bool) (command : Command) : command.Admitted Changes script piping where
  shown _ _ message := Changes.refl.note .info message
  cleared _ _ := Changes.refl.clear
  announced _ _ session := Changes.refl.note .info session.terminal.banner
  rehearsed _ := harmless

end Session

namespace SessionM

variable {α : Type} {script : Session -> Session}

/-- A step that makes only the changes of commands, whether it fails or not. -/
def Confined (step : SessionM α) : Prop :=
  ∀ session, Ensures (fun _ after => session.Changes after) (fun _ after => session.Changes after)
    (step session)

theorem confined_evaluateWith (harmless : Session.Harmless script) (expression : Expr) :
    Confined (evaluateWith script expression) :=
  moves_evaluateWith Session.effects_changes expression fun command _ =>
    harmless.admitted true command

/-- Whatever a command is made of, it makes only the changes of commands. -/
theorem confined_executeWith (harmless : Session.Harmless script) (piping : Bool)
    (command : Command) : Confined (executeWith script piping command) :=
  moves_executeWith Session.effects_changes piping command (harmless.admitted piping command)
    fun other _ => harmless.admitted true other

end SessionM
end LineShell
