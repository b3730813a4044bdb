import LineShell.Proofs.Lines

namespace LineShell

/-!
# What is displayed is never read

The journal, the showing of lines and the leave to type are there to be looked
at.  Lines write them all the time, and some of what is written depends on what
was there before, but nothing else does: sessions that differ in their displays
only take in the same lines in the same way.
-/

open Steps

namespace Session

/-- Two sessions that differ in what they display at most: in the journal, in
whether lines are shown, and in whether one may be typed. -/
structure Alike (one two : Session) : Prop where
  bindings : one.bindings = two.bindings
  user : one.terminal.user = two.terminal.user
  device : one.terminal.device = two.terminal.device
  workingDirectory : one.terminal.workingDirectory = two.terminal.workingDirectory
  home : one.terminal.home? = two.terminal.home?
  banner : one.terminal.banner = two.terminal.banner
  homeRoot : one.terminal.homeRoot = two.terminal.homeRoot
  mode : one.terminal.mode = two.terminal.mode
  pending : one.pending? = two.pending?
  callDepth : one.callDepth = two.callDepth

namespace Alike

variable {one two : Session}

/-- The displays may be replaced by any others. -/
theorem redisplayed (same : one.Alike two) (journal journal' : Journal)
    (echo echo' canType canType' : Bool) :
    Alike { one with journal, terminal := { one.terminal with echo, canType } }
      { two with journal := journal',
                 terminal := { two.terminal with echo := echo', canType := canType' } } :=
  { same with }

theorem setMode (same : one.Alike two) (mode : InputMode) :
    (one.setMode mode).Alike (two.setMode mode) :=
  { same with mode := rfl }

theorem waiting (same : one.Alike two) (pending? : Option Pending) :
    Alike { one with pending? } { two with pending? } :=
  { same with pending := rfl }

theorem renamed (same : one.Alike two) (name : String) :
    (one.withUser name).Alike (two.withUser name) := by
  simp only [withUser, same.user]
  split
  · exact same
  · refine { same with user := rfl, home := ?_ }
    simp only [Terminal.setUser, same.homeRoot]

theorem moved (same : one.Alike two) (target? : Option String) :
    (one.withDirectory target?).Alike (two.withDirectory target?) := by
  refine { same with workingDirectory := ?_ }
  simp only [withDirectory, Terminal.changeDirectory, Terminal.home, same.workingDirectory, same.home]

end Alike

/-- Lines keep two sessions alike. -/
theorem respected_alike : Respected Alike where
  bindings same := same.bindings
  callDepth same := same.callDepth
  banner same := same.banner
  directory same := same.workingDirectory
  pending same := same.pending
  shown line := by
    intro one two same
    rw [SessionM.showLine, get_bind, get_bind]
    -- It may be that only one of the two sessions shows the line.
    split <;> split <;> exact ⟨rfl, same.redisplayed ..⟩
  noted same _ _ := same.redisplayed ..
  cleared same := same.redisplayed ..
  bound same _ := { same with bindings := rfl }
  called same _ := { same with callDepth := rfl }
  renamed same := same.renamed
  moved same := same.moved
  waiting same := same.waiting
  setEcho same _ := same.redisplayed ..
  setMode same := same.setMode
  setCanType same _ := same.redisplayed ..

theorem kept_runScript : Kept runScript Alike :=
  respected_alike.kept_runScript

theorem Alike.foldl_submit {one two : Session} (same : one.Alike two) (lines : List String) :
    (lines.foldl Session.submit one).Alike (lines.foldl Session.submit two) := by
  induction lines generalizing one two with
  | nil => exact same
  | cons line lines ih => exact ih (respected_alike.submit same line)

/-- Whatever is displayed, the same lines lead sessions that are otherwise the
same to sessions that are otherwise the same, and there every expression and
every command comes to the same result. -/
theorem display_unobserved {one two : Session} (same : one.Alike two) (lines : List String) :
    let one := lines.foldl submit one
    let two := lines.foldl submit two
    one.Alike two
      ∧ (∀ expression, SessionM.SameResult Alike (SessionM.evaluate expression one)
          (SessionM.evaluate expression two))
      ∧ ∀ piping command, SessionM.SameResult Alike (SessionM.execute piping command one)
          (SessionM.execute piping command two) := by
  intro one two
  have reached := same.foldl_submit lines
  refine ⟨reached, ?_, ?_⟩
  · intro expression
    exact SessionM.keeps_evaluateWith kept_runScript expression _ _ reached
  · intro piping command
    exact SessionM.keeps_executeWith kept_runScript piping command _ _ reached

theorem display_unobserved_license :
    let one := start {}
    let two := { start {} with
      journal := { entries := #[{ severity := .error, message := "?" }], epoch := 7 }
      terminal := { Terminal.ofSettings {} with echo := false, canType := false } }
    let lines := ["license; x = [clear -m] + 1", "maybe", "y", "x++; test"]
    one.Alike two
      ∧ one.journal.entries ≠ two.journal.entries ∧ one.journal.epoch ≠ two.journal.epoch
      ∧ one.terminal.echo ≠ two.terminal.echo ∧ one.terminal.canType ≠ two.terminal.canType
      ∧ (lines.foldl submit one).Alike (lines.foldl submit two)
      ∧ SessionM.SameResult Alike
          (SessionM.evaluate (.unary .increment .after (.var "x")) (lines.foldl submit one))
          (SessionM.evaluate (.unary .increment .after (.var "x")) (lines.foldl submit two)) := by
  intro one two lines
  have same : one.Alike two := ⟨rfl, rfl, rfl, rfl, rfl, rfl, rfl, rfl, rfl, rfl⟩
  rcases display_unobserved same lines with ⟨reached, evaluated, _⟩
  exact ⟨same, by decide, by decide, by decide, by decide, reached, evaluated _⟩

end Session
end LineShell
