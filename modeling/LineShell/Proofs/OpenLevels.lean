import LineShell.Proofs.SoundPlans

namespace LineShell

/-!
# Levels are left as often as they are entered

A parser can be asked for a line, for an expression, or for a token, any number
of times and after failures too.  A call that fails gives no level back, so a
later call may start with levels open.  It still leaves none of them: whatever a
call leaves, it has entered itself.
-/

open Steps

namespace Parser

/-! ## Calls -/

/-- What can be asked of a parser. -/
inductive Call where
  | line
  | expression
  | eat (kind : Token.Kind)
  | eatAny (kinds : List Token.Kind)
  deriving DecidableEq, Repr

namespace Call

/-- What an answer to a call is. -/
def Value : Call -> Type
  | .line => List Command
  | .expression => Expr
  | .eat _ | .eatAny _ => Token

def parser : (call : Call) -> Parser call.Value
  | .line => Parser.line
  | .expression => Parser.expression
  | .eat kind => Parser.eat kind
  | .eatAny kinds => Parser.eatAny kinds

/-- How a call is answered. -/
def plan : (call : Call) -> Plan call.Value
  | .line => Plan.line
  | .expression => Plan.expression
  | .eat kind => .step (Parser.eat kind)
  | .eatAny kinds => .step (Parser.eatAny kinds)

/-- The state that a call leaves, whether it succeeds or fails. -/
def perform (state : State) (call : Call) : State :=
  match call.parser state with
  | .ok _ after => after
  | .error _ after => after

/-- Answering a call can come to a result, with what happens on the way. -/
def Runs (call : Call) :
    State -> List Moment -> EStateM.Result Fault State call.Value -> Prop :=
  Plan.Runs Plan.primary call.plan

theorem parser_plan (call : Call) : call.plan.parser Parser.primary = call.parser := by
  cases call with
  | line => exact Plan.parser_line
  | expression => exact Plan.parser_expression _
  | eat kind => rfl
  | eatAny kinds => rfl

/-- A token of any kind can be asked for, the end of the line too. -/
theorem steady_asking (kinds : List Token.Kind) : Steady false false (Parser.eatAny kinds) := by
  intro state
  apply steadyAt_eatAny
  intro _
  by_cases ends : state.lookahead.kind = .endOfLine
  · exact steadyAt_advance_end ends
  · exact steadyAt_advance ends fun impossible => by cases impossible

theorem sound_plan (call : Call) :
    call.plan.Sound false 0 (fun _ => True) Site.top 0 (fun _ => 0) false := by
  cases call with
  | line => exact Plan.sound_line
  | expression => exact Plan.sound_expression (Site.rank_lt_top _) (Nat.le_refl 0)
  | eat kind => exact Plan.sound_step fun state _ => steady_asking [kind] state
  | eatAny kinds => exact Plan.sound_step fun state _ => steady_asking kinds state

section Answers

variable {call : Call} {state : State} {moments : List Moment}
  {result : EStateM.Result Fault State call.Value}

theorem exists_runs (call : Call) (proper : state.IsProper) :
    ∃ moments, call.Runs state moments (call.parser state) := by
  have runs := Plan.exists_runs_of_sound call.sound_plan proper
  rw [call.parser_plan] at runs
  exact runs

theorem Runs.result_eq (runs : call.Runs state moments result) (proper : state.IsProper) :
    result = call.parser state := by
  rw [← call.parser_plan]
  exact (Plan.Runs.parser_eq Plan.isBody_primary (fun _ => Plan.primary_eq) runs call.sound_plan
    trivial proper).symm

theorem Runs.counted (runs : call.Runs state moments result) (proper : state.IsProper) :
    Plan.Counted state.depth (fun _ => 0) state moments result :=
  Plan.Runs.counted Plan.isBody_primary runs call.sound_plan trivial proper rfl

/-- After a call, the parser is further on in the line. -/
theorem passes_perform (call : Call) (proper : state.IsProper) :
    state.Passes false (perform state call) := by
  obtain ⟨moments, runs⟩ := call.exists_runs proper
  have passed := Plan.Runs.passes Plan.isBody_primary runs call.sound_plan trivial proper
  rw [perform]
  cases ran : call.parser state with
  | ok value after =>
      rw [ran] at passed
      exact passed.1
  | error fault after =>
      rw [ran] at passed
      exact passed

theorem passes_foldl (calls : List Call) (proper : state.IsProper) :
    state.Passes false (calls.foldl perform state) := by
  induction calls generalizing state with
  | nil => exact .refl state
  | cons call calls ih =>
      have passes := call.passes_perform proper
      exact passes.trans (ih (passes.isProper proper))

end Answers

/-! ## Balance -/

/-- After any calls, a call that succeeds ends with the levels that it began
with, and has not entered too many on the way.  One that fails leaves no fewer.
Levels are entered and left in no other way than is recorded, and no more of
them are ever left than are open. -/
theorem levels_balanced {text : String} {begun : State} (starts : start text = .ok begun)
    (calls : List Call) (call : Call) :
    let state := calls.foldl perform begun
    (∃ moments, call.Runs state moments (call.parser state))
      ∧ ∀ moments result, call.Runs state moments result ->
          result = call.parser state
            ∧ (∀ value after, result = .ok value after ->
                after.depth = state.depth
                  ∧ ∀ deeper, ⟨.entered, deeper⟩ ∈ moments -> deeper.depth ≤ maxDepth)
            ∧ (∀ fault after, result = .error fault after -> state.depth ≤ after.depth)
            ∧ (∀ levels before, ⟨.leaving levels, before⟩ ∈ moments -> levels ≤ before.depth)
            ∧ (perform state call).depth + Plan.departures moments
                = state.depth + Plan.entries moments := by
  intro state
  have begunProper : begun.IsProper := endsProperly_of_start starts
  have proper : state.IsProper := (passes_foldl calls begunProper).isProper begunProper
  refine ⟨call.exists_runs proper, fun moments result runs => ?_⟩
  have same := runs.result_eq proper
  obtain ⟨ended, total, leaving⟩ := runs.counted proper
  refine ⟨same, ?_, ?_, ?_, ?_⟩
  · rintro value after rfl
    exact ended
  · rintro fault after rfl
    exact ended
  · intro levels before member
    exact (Nat.le_add_left levels state.depth).trans (leaving levels before member)
  · rw [perform, ← same]
    cases result with
    | ok value after => exact total
    | error fault after => exact total

/-- An array that fails leaves its level open.  The expression behind it is read
with this level open, and leaves it so. -/
theorem levels_balanced_after_failure :
    ∃ begun value after moments, start "[1 2] + (3 * -4)" = .ok begun
      ∧ let state :=
          [.expression, .expression, .eat .rightBracket, .eat .additive].foldl perform begun
        state.depth = 1 ∧ Parser.expression state = .ok value after ∧ after.depth = 1
          ∧ Call.expression.Runs state moments (.ok value after)
          ∧ Plan.departures moments = Plan.entries moments := by
  have evaluated :
      (match start "[1 2] + (3 * -4)" with
      | .ok begun =>
          let state :=
            [.expression, .expression, .eat .rightBracket, .eat .additive].foldl perform begun
          match Parser.expression state with
          | .ok _ _ => decide (state.depth = 1)
          | .error _ _ => false
      | .error _ => false) = true := by
    decide +kernel
  cases starts : start "[1 2] + (3 * -4)" with
  | error fault =>
      rw [starts] at evaluated
      cases evaluated
  | ok begun =>
      obtain ⟨⟨moments, runs⟩, balanced⟩ := levels_balanced starts
        [.expression, .expression, .eat .rightBracket, .eat .additive] .expression
      obtain ⟨_, succeeded, _, _, total⟩ := balanced moments _ runs
      rw [starts] at evaluated
      cases ran : Parser.expression
          ([.expression, .expression, .eat .rightBracket, .eat .additive].foldl perform begun) with
      | error fault after =>
          simp only [ran] at evaluated
          cases evaluated
      | ok value after =>
          simp only [ran] at evaluated
          have depth := of_decide_eq_true evaluated
          have same := (succeeded value after ran).1
          rw [perform, parser, ran] at total
          refine ⟨begun, value, after, moments, rfl, depth, ran, same.trans depth, ?_, ?_⟩
          · exact ran ▸ runs
          · have balance : after.depth + Plan.departures moments = _ := total
            rw [same] at balance
            exact Nat.add_left_cancel balance

end Call
end Parser
end LineShell
