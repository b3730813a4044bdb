import LineShell.Proofs.History

namespace LineShell

/-!
# What evaluation may touch

Commands and expressions write variables, the journal, the user and the
directory.  What a session was set up with, the question that waits and the
level of the calls are not theirs: whatever is carried out or evaluated, and
whether it fails or not, these are afterwards what they were.

An expression without calls touches even less.  Only the operators that step a
variable have an effect, so such an expression changes the variables that stand
under one of them, and nothing else.  A variable that it brings into being comes
after those that were there.
-/

open Steps

/-- The variable stands under an operator that steps it, somewhere in the
expression. -/
def Expr.Touches (expression : Expr) (name : String) : Prop :=
  ∃ operator placement, operator.isStep = true
    ∧ .unary operator placement (.var name) ∈ expression.parts

/-- An expression without regard to its parts is no call, and steps a variable
only if that may be touched. -/
def Expr.Spares (touched : String -> Prop) : Expr -> Prop
  | .call _ => False
  | .unary operator _ (.var name) => operator.isStep = true -> touched name
  | _ => True

theorem Expr.spares_of_mem_parts {expression part : Expr}
    (callFree : ∀ command, .call command ∉ expression.parts) (member : part ∈ expression.parts) :
    part.Spares expression.Touches := by
  unfold Expr.Spares
  split
  · exact callFree _ member
  · intro steps
    exact ⟨_, _, steps, member⟩
  · trivial

namespace Session

/-- What no command and no expression touches is the same in both sessions. -/
structure Untouched (session after : Session) : Prop where
  pending_eq : after.pending? = session.pending?
  mode_eq : after.terminal.mode = session.terminal.mode
  canType_eq : after.terminal.canType = session.terminal.canType
  device_eq : after.terminal.device = session.terminal.device
  banner_eq : after.terminal.banner = session.terminal.banner
  homeRoot_eq : after.terminal.homeRoot = session.terminal.homeRoot
  callDepth_eq : after.callDepth = session.callDepth

theorem Changes.untouched {session after : Session} (changes : session.Changes after) :
    session.Untouched after where
  pending_eq := changes.pending_eq
  mode_eq := changes.mode_eq
  canType_eq := changes.canType_eq
  device_eq := changes.device_eq
  banner_eq := changes.banner_eq
  homeRoot_eq := changes.homeRoot_eq
  callDepth_eq := changes.callDepth_eq

/-- The second session is the first one with other variables, and only those
that may be touched differ.  The names that were there keep their order. -/
structure Differs (touched : String -> Prop) (session after : Session) : Prop where
  framed : after = { session with bindings := after.bindings }
  lookup_eq : ∀ name, ¬ touched name ->
    after.bindings.entries.lookup name = session.bindings.entries.lookup name
  names_eq : ∃ added, after.bindings.names = session.bindings.names ++ added
    ∧ ∀ name ∈ added, touched name

namespace Differs

variable {touched : String -> Prop} {session between after : Session}

theorem refl (session : Session) : session.Differs touched session where
  framed := rfl
  lookup_eq _ _ := rfl
  names_eq := ⟨[], (List.append_nil _).symm, by simp⟩

theorem trans (first : session.Differs touched between) (second : between.Differs touched after) :
    session.Differs touched after where
  framed := by
    rw [second.framed, first.framed]
  lookup_eq name spared := (second.lookup_eq name spared).trans (first.lookup_eq name spared)
  names_eq := by
    rcases first.names_eq with ⟨added, names, allowed⟩
    rcases second.names_eq with ⟨more, moreNames, moreAllowed⟩
    refine ⟨added ++ more, ?_, ?_⟩
    · rw [moreNames, names, List.append_assoc]
    · intro name member
      exact (List.mem_append.mp member).elim (allowed name) (moreAllowed name)

/-- A number that is written never removes its variable. -/
theorem store {name : String} (allowed : touched name) (number : Float) (session : Session) :
    session.Differs touched
      { session with bindings := session.bindings.set name (.number number) } where
  framed := rfl
  lookup_eq other spared := by
    have different : other ≠ name := by
      intro same
      exact spared (same ▸ allowed)
    rw [Bindings.lookup_set, if_neg different]
  names_eq := by
    simp only [Bindings.names_set, Value.isUnset, Bool.false_eq_true, if_false]
    split
    · exact ⟨[], (List.append_nil _).symm, by simp⟩
    · exact ⟨[name], rfl, by simpa using allowed⟩

end Differs
end Session

namespace SessionM

variable {touched : String -> Prop} {script : Session -> Session}

theorem differs_pure {α : Type} (value : α) : Moves (Session.Differs touched) (pure value) :=
  .refl

theorem differs_refuse {α : Type} (refusal : Refusal) :
    Moves (Session.Differs touched) (refuse refusal : SessionM α) :=
  .refl

theorem differs_bind {α β : Type} {step : SessionM α} {next : α -> SessionM β}
    (first : Moves (Session.Differs touched) step)
    (second : ∀ value, Moves (Session.Differs touched) (next value)) :
    Moves (Session.Differs touched) (step >>= next) :=
  moves_sequence .trans first second

theorem differs_step {name : String} (allowed : touched name) (change : Int)
    (placement : Placement) : Moves (Session.Differs touched) (step change placement name) := by
  apply moves_get
  intro old session
  rw [discard_bind]
  refine differs_bind ?_ ?_ session
  · apply differs_bind
    · exact moves_modify fun session => .store allowed _ session
    · intro _
      exact differs_pure _
  · intro _
    cases placement with
    | before => exact differs_pure _
    | after => exact differs_pure _

theorem differs_stepOperand {operator : UnaryOperator} {placement : Placement} {operand : Expr}
    (steps : operator.isStep = true)
    (spares : (Expr.unary operator placement operand).Spares touched) (change : Int) :
    Moves (Session.Differs touched) (stepOperand operator change placement operand) := by
  cases operand with
  | var name => exact differs_step (spares steps) change placement
  | _ => exact differs_refuse _

mutual

/-- An expression that spares all variables but some, in all of its parts,
differs in these at most. -/
theorem differs_evaluateWith :
    (expression : Expr) -> (∀ part ∈ expression.parts, part.Spares touched) ->
      Moves (Session.Differs touched) (evaluateWith script expression)
  | .number _, _ | .text _, _ | .word _, _ | .boolean _, _ => by
      rw [evaluateWith]
      exact differs_pure _
  | .var name, _ => by
      rw [evaluateWith]
      exact moves_get fun _ => differs_pure _
  | .binary operator left right, spares => by
      rw [Expr.parts, List.forall_mem_cons, List.forall_mem_append] at spares
      rw [evaluateWith]
      apply differs_bind (differs_evaluateWith left spares.2.1)
      intro value
      apply differs_bind (differs_evaluateWith right spares.2.2)
      intro _
      exact differs_pure _
  | .unary operator placement operand, spares => by
      rw [Expr.parts, List.forall_mem_cons] at spares
      have inside := differs_evaluateWith operand spares.2
      cases operator <;> simp only [evaluateWith]
      · exact differs_bind inside fun _ => differs_pure _
      · exact differs_bind inside fun _ => differs_pure _
      · exact differs_bind inside fun _ => differs_pure _
      · exact differs_stepOperand rfl spares.1 1
      · exact differs_stepOperand rfl spares.1 (-1)
  | .call command, spares => by
      rw [Expr.parts, List.forall_mem_cons] at spares
      exact spares.1.elim
  | .array items, spares => by
      rw [Expr.parts, List.forall_mem_cons] at spares
      rw [evaluateWith]
      apply differs_bind (differs_evaluateAll items spares.2)
      intro _
      exact differs_pure _

theorem differs_evaluateAll :
    (items : List Expr) -> (∀ part ∈ Expr.partsOf items, part.Spares touched) ->
      Moves (Session.Differs touched) (evaluateAll script items)
  | [], _ => by
      rw [evaluateAll]
      exact differs_pure _
  | item :: items, spares => by
      rw [Expr.partsOf, List.forall_mem_append] at spares
      rw [evaluateAll]
      apply differs_bind (differs_evaluateWith item spares.1)
      intro value
      apply differs_bind (differs_evaluateAll items spares.2)
      intro _
      exact differs_pure _

end

end SessionM

namespace Session

/-- Whatever is carried out or evaluated leaves what a session was set up with,
the question that waits and the level of the calls as they were, also when it
fails.  An expression without calls changes at most the variables that it steps,
and nothing else. -/
theorem evaluate_touches (session : Session) :
    (∀ expression, session.Untouched (session.leftBy (SessionM.evaluate expression)))
      ∧ (∀ piping command, session.Untouched (session.leftBy (SessionM.execute piping command)))
      ∧ ∀ expression : Expr, (∀ command, .call command ∉ expression.parts) ->
          session.Differs expression.Touches
            (session.leftBy (SessionM.evaluate expression)) := by
  refine ⟨?_, ?_, ?_⟩
  · intro expression
    have changes : session.Changes (session.leftBy (SessionM.evaluate expression)) :=
      leftBy_of_ensures (SessionM.confined_evaluate expression session)
    exact changes.untouched
  · intro piping command
    have changes : session.Changes (session.leftBy (SessionM.execute piping command)) :=
      leftBy_of_ensures (SessionM.confined_execute piping command session)
    exact changes.untouched
  · intro expression callFree
    apply leftBy_of_ensures
    exact SessionM.differs_evaluateWith expression
      (fun part member => Expr.spares_of_mem_parts callFree member) session

/-- An expression that steps one variable and then fails at a step of something
else leaves the variable stepped, and the others alone. -/
theorem evaluate_touches_failing :
    let session : Session :=
      { start {} with bindings := { entries := [("x", .number 1), ("y", .number 2)] } }
    let expression : Expr :=
      .array [.unary .increment .after (.var "x"), .unary .decrement .before (.number 3)]
    (∀ command, .call command ∉ expression.parts)
      ∧ session.Differs expression.Touches (session.leftBy (SessionM.evaluate expression))
      ∧ (session.leftBy (SessionM.evaluate expression)).bindings.entries.lookup "y"
        = some (.number 2) := by
  intro session expression
  have callFree : ∀ command, .call command ∉ expression.parts := by
    intro command
    simp [expression, Expr.parts, Expr.partsOf]
  have differs := (evaluate_touches session).2.2 expression callFree
  have spared : ¬ expression.Touches "y" := by
    simp [expression, Expr.Touches, Expr.parts, Expr.partsOf]
  exact ⟨callFree, differs, differs.lookup_eq "y" spared⟩

end Session
end LineShell
