import LineShell.Proofs.Parsing
import LineShell.Proofs.Reading

namespace LineShell

/-!
# The tokens that are eaten

A parser eats tokens off the front of a line.  The tokens that it eats between
two states say all about how the second one follows from the first, but for the
levels and the warnings.

A step obeys a rule if the tokens that it eats and the value that it comes to
are always related by the rule.  The rule for a sequence is taken apart in the
order in which its tokens are eaten: after its first step, a sequence has to
obey what remains of its rule behind the tokens that are eaten already.
-/

open Steps

namespace Parser

/-! ## Tokens that are eaten -/

namespace State

/-- Between two states the given tokens are eaten, and none of them ends a
statement. -/
structure Eats (state : State) (eaten : List Token) (after : State) : Prop where
  /-- The tokens come off the front.  When they run out in a line without a
  fault, its end is what is left. -/
  tokens : state.tokens = eaten ++ after.tokens
    ∨ state.tokens = eaten ∧ state.fault? = none ∧ after.tokens = [endToken state.limit]
  fault : after.fault? = state.fault?
  limit : after.limit = state.limit
  lastEnd : after.lastEnd = (eaten.map fun token => token.span.stop).getLastD state.lastEnd
  going : ∀ token ∈ eaten, token.kind.isTerminator = false

/-- Entering and leaving levels eats nothing. -/
theorem eats_nothing (state : State) (depth : Nat) : state.Eats [] { state with depth } where
  tokens := .inl rfl
  fault := rfl
  limit := rfl
  lastEnd := rfl
  going := fun _ member => absurd member List.not_mem_nil

namespace Eats

variable {state between after : State} {eaten more : List Token}

theorem append (first : state.Eats eaten between) (second : between.Eats more after) :
    state.Eats (eaten ++ more) after where
  tokens := by
    rcases first.tokens with front | ⟨front, whole, ending⟩
    · rcases second.tokens with back | ⟨back, whole, ending⟩
      · exact .inl (by rw [front, back, List.append_assoc])
      · rw [first.fault] at whole
        rw [first.limit] at ending
        exact .inr ⟨by rw [front, back], whole, ending⟩
    · -- Only the end of the line is left, and it is not eaten.
      cases more with
      | nil =>
          rcases second.tokens with back | ⟨back, _, _⟩
          · exact .inr ⟨by rw [front, List.append_nil], whole, back.symm.trans ending⟩
          · cases back
      | cons token others =>
          have head : token = endToken state.limit := by
            rcases second.tokens with back | ⟨back, _, _⟩
            · rw [ending] at back
              exact (List.cons.inj back).1.symm
            · rw [ending] at back
              exact (List.cons.inj back).1.symm
          have goes := second.going token List.mem_cons_self
          rw [head] at goes
          cases goes
  fault := second.fault.trans first.fault
  limit := second.limit.trans first.limit
  lastEnd := by
    rw [second.lastEnd, first.lastEnd, List.map_append]
    simp only [List.getLastD_eq_getLast?, List.getLast?_append, Option.getD_or]
  going := fun token member => by
    rcases List.mem_append.mp member with inFirst | inSecond
    · exact first.going token inFirst
    · exact second.going token inSecond

/-- The first token that is eaten is the lookahead. -/
theorem lookahead_eq {token : Token} (eats : state.Eats (token :: eaten) after) :
    state.lookahead = token := by
  rcases eats.tokens with front | ⟨front, _, _⟩
  · exact (List.cons.inj front).1
  · exact (List.cons.inj front).1

theorem remaining_le (eats : state.Eats eaten after) : after.remaining ≤ state.remaining := by
  rcases eats.tokens with front | ⟨_, _, ending⟩
  · have lengths := congrArg List.length front
    simp only [State.tokens, List.length_append, List.length_cons] at lengths
    simp only [State.remaining]
    omega
  · have last := (List.cons.inj ending).2
    simp only [State.remaining, last, List.length_nil, Nat.zero_le]

/-- Eating gets nearer to the end, unless the end is all that is left. -/
theorem remaining_lt (eats : state.Eats eaten after) (some : eaten ≠ [])
    (goes : after.lookahead.kind.isTerminator = false) : after.remaining < state.remaining := by
  rcases eats.tokens with front | ⟨_, _, ending⟩
  · have lengths := congrArg List.length front
    have positive := List.length_pos_iff.mpr some
    simp only [State.tokens, List.length_append, List.length_cons] at lengths
    simp only [State.remaining]
    omega
  · rw [(List.cons.inj ending).1] at goes
    cases goes

/-- The token that was eaten last, if one was eaten before. -/
theorem lastEnd_eq {first : Token} (eats : state.Eats eaten after)
    (begun : state.lastEnd = first.span.stop) :
    after.lastEnd = (eaten.getLastD first).span.stop := by
  rw [eats.lastEnd, begun]
  simp only [List.getLastD_eq_getLast?, List.getLast?_map, Option.getD_map]

/-- In a line that has its end among its tokens, what is left are the tokens
that were not eaten. -/
theorem tokens_eq (eats : state.Eats eaten after)
    (ends : Token.Cursor.EndsProperly state.tokens state.fault?) :
    state.tokens = eaten ++ after.tokens := by
  rcases eats.tokens with front | ⟨front, whole, _⟩
  · exact front
  · rw [whole, front] at ends
    obtain ⟨before, last, shape, ending, _⟩ := ends
    have goes := eats.going last (shape ▸ List.mem_append_right before List.mem_cons_self)
    rw [ending] at goes
    cases goes

end Eats
end State

/-! ## Steps that obey a rule -/

variable {α β : Type} {meets : List Token -> α -> State -> Prop}
  {meetsNext : List Token -> β -> State -> Prop} {state : State}

/-- In a state, what a step eats and the value it comes to are as asked. -/
def ObeysAt (meets : List Token -> α -> State -> Prop) (step : Parser α) (state : State) : Prop :=
  Ensures (fun value after => ∃ eaten, state.Eats eaten after ∧ meets eaten value after)
    (fun _ _ => True) (step state)

/-- The tokens that a step eats and the value it comes to are always related by
the rule. -/
def Obeys (rule : List Token -> α -> Prop) (step : Parser α) : Prop :=
  ∀ state, ObeysAt (fun eaten value _ => rule eaten value) step state

theorem obeysAt_pure {value : α} (met : meets [] value state) :
    ObeysAt meets (pure value) state :=
  ⟨[], state.eats_nothing state.depth, met⟩

theorem obeysAt_throw (fault : Fault) : ObeysAt meets (throw fault) state :=
  trivial

theorem obeysAt_reject (misfit : Misfit) : ObeysAt meets (reject misfit) state :=
  trivial

theorem obeysAt_bind {step : Parser α} {next : α -> Parser β} (first : ObeysAt meets step state)
    (second : ∀ eaten value after, state.Eats eaten after -> meets eaten value after ->
      ObeysAt (fun more => meetsNext (eaten ++ more)) (next value) after) :
    ObeysAt meetsNext (step >>= next) state := by
  apply Ensures.bind first
  rintro value between ⟨eaten, eats, met⟩
  apply (second eaten value between eats met).mono
  · rintro result after ⟨more, eatsMore, metNext⟩
    exact ⟨eaten ++ more, eats.append eatsMore, metNext⟩
  · exact fun _ _ _ => trivial

/-- A last step that eats nothing only changes the value. -/
theorem obeysAt_map {step : Parser α} {change : α -> β} (first : ObeysAt meets step state)
    (changes : ∀ eaten value after, state.Eats eaten after -> meets eaten value after ->
      meetsNext eaten (change value) after) :
    ObeysAt meetsNext (step >>= fun value => pure (change value)) state := by
  apply obeysAt_bind first
  intro eaten value after eats met
  apply obeysAt_pure
  rw [List.append_nil]
  exact changes eaten value after eats met

theorem obeysAt_get {next : State -> Parser β} (second : ObeysAt meetsNext (next state) state) :
    ObeysAt meetsNext (get >>= next) state :=
  second

theorem obeysAt_discard {step : Parser α} {next : Unit -> Parser β}
    (first : ObeysAt meets step state)
    (second : ∀ eaten value after, state.Eats eaten after -> meets eaten value after ->
      ObeysAt (fun more => meetsNext (eaten ++ more)) (next ()) after) :
    ObeysAt meetsNext (discard step >>= next) state := by
  rw [ObeysAt, discard_bind]
  exact obeysAt_bind first second

theorem obeysAt_mono {step : Parser α} {weaker : List Token -> α -> State -> Prop}
    (strong : ObeysAt meets step state)
    (weakens : ∀ eaten value after, meets eaten value after -> weaker eaten value after) :
    ObeysAt weaker step state := by
  apply strong.mono
  · rintro value after ⟨eaten, eats, met⟩
    exact ⟨eaten, eats, weakens eaten value after met⟩
  · exact fun _ _ _ => trivial

/-- What a step meets may be weakened with what is known of the tokens it eats. -/
theorem obeysAt_imp {step : Parser α} {weaker : List Token -> α -> State -> Prop}
    (strong : ObeysAt meets step state)
    (weakens : ∀ eaten value after, state.Eats eaten after -> meets eaten value after ->
      weaker eaten value after) : ObeysAt weaker step state := by
  apply strong.mono
  · rintro value after ⟨eaten, eats, met⟩
    exact ⟨eaten, eats, weakens eaten value after eats met⟩
  · exact fun _ _ _ => trivial

theorem obeysAt_advance (goes : state.lookahead.kind.isTerminator = false) :
    ObeysAt (fun eaten token _ => eaten = [token] ∧ token = state.lookahead) advance state := by
  have going : ∀ token ∈ [state.lookahead], token.kind.isTerminator = false :=
    List.forall_mem_singleton.mpr goes
  cases upcoming : state.upcoming with
  | cons following others =>
      rw [ObeysAt, advance_of_upcoming upcoming]
      refine ⟨[state.lookahead], ⟨.inl ?_, rfl, rfl, rfl, going⟩, rfl, rfl⟩
      rw [State.tokens, upcoming]
      rfl
  | nil =>
      cases ending : state.fault? with
      | none =>
          rw [ObeysAt, advance_of_end upcoming ending]
          refine ⟨[state.lookahead], ⟨.inr ⟨?_, ending, rfl⟩, rfl, rfl, rfl, going⟩, rfl, rfl⟩
          rw [State.tokens, upcoming]
      | some fault =>
          rw [ObeysAt, advance_of_fault upcoming ending]
          trivial

theorem obeysAt_advance_of_kind {kind : Token.Kind} (here : state.lookahead.kind = kind)
    (goes : kind.isTerminator = false) :
    ObeysAt (fun eaten token _ => eaten = [token] ∧ token = state.lookahead) advance state := by
  rw [← here] at goes
  exact obeysAt_advance goes

theorem obeys_eatAny {kinds : List Token.Kind}
    (going : ∀ kind ∈ kinds, kind.isTerminator = false) :
    Obeys (fun eaten token => eaten = [token] ∧ token.kind ∈ kinds) (eatAny kinds) := by
  intro state
  by_cases wanted : state.lookahead.kind ∈ kinds
  · rw [ObeysAt, eatAny_of_mem wanted]
    apply obeysAt_mono (obeysAt_advance (going _ wanted))
    rintro eaten token _ ⟨rfl, rfl⟩
    exact ⟨rfl, wanted⟩
  · cases ends : state.lookahead.kind.isTerminator with
    | true =>
        rw [ObeysAt, eatAny_of_terminator wanted ends]
        trivial
    | false =>
        rw [ObeysAt, eatAny_of_other wanted ends]
        trivial

theorem obeys_eat {kind : Token.Kind} (going : kind.isTerminator = false) :
    Obeys (fun eaten token => eaten = [token] ∧ token.kind = kind) (eat kind) := by
  intro state
  apply obeysAt_mono (obeys_eatAny (List.forall_mem_singleton.mpr going) state)
  rintro eaten token _ ⟨rfl, wanted⟩
  exact ⟨rfl, List.mem_singleton.mp wanted⟩

theorem obeys_enter : Obeys (fun eaten _ => eaten = []) enter := by
  intro state
  by_cases room : state.depth + 1 ≤ maxDepth
  · rw [ObeysAt, enter_of_le room]
    exact ⟨[], state.eats_nothing _, rfl⟩
  · rw [ObeysAt, enter_of_lt (Nat.not_le.mp room)]
    trivial

theorem obeys_nested {rule : List Token -> α -> Prop} {inner : Parser α}
    (inside : Obeys rule inner) : Obeys rule (nested inner) := by
  intro state
  apply obeysAt_bind (obeys_enter state)
  rintro _ _ deeper _ rfl
  apply obeysAt_bind (inside deeper)
  intro eaten value after _ met
  refine ⟨[], after.eats_nothing _, ?_⟩
  change rule (eaten ++ []) value
  rw [List.append_nil]
  exact met

/-- What every round of a loop keeps, with the tokens eaten since its start, is
kept by the loop. -/
theorem obeysAt_repeatWhile {kept : List Token -> α -> State -> Prop} {test : State -> Bool}
    {body : α -> Parser α}
    (round : ∀ eaten value between, state.Eats eaten between -> test between = true ->
      kept eaten value between -> ObeysAt (fun more => kept (eaten ++ more)) (body value) between)
    {value : α} (begun : kept [] value state) :
    ObeysAt kept (repeatWhile test body value) state := by
  apply repeatWhile_ensures
  · rintro value between goes ⟨eaten, eats, holds⟩
    apply (round eaten value between eats goes holds).mono
    · rintro next after ⟨more, eatsMore, holdsNext⟩
      exact ⟨eaten ++ more, eats.append eatsMore, holdsNext⟩
    · exact fun _ _ _ => trivial
  · exact ⟨[], state.eats_nothing state.depth, begun⟩

/-- A loop in which every round gets nearer to the end stops where its test
fails. -/
theorem obeysAt_repeatWhile_stop (kept : List Token -> α -> State -> Prop) {test : State -> Bool}
    {body : α -> Parser α}
    (round : ∀ eaten value between, state.Eats eaten between -> test between = true ->
      kept eaten value between ->
      ObeysAt (fun more next after => kept (eaten ++ more) next after
        ∧ after.remaining < between.remaining) (body value) between)
    {value : α} (begun : kept [] value state) :
    ObeysAt (fun eaten value after => kept eaten value after ∧ test after = false)
      (repeatWhile test body value) state := by
  have loop : Ensures
      (fun value after => (∃ eaten, state.Eats eaten after ∧ kept eaten value after)
        ∧ test after = false)
      (fun _ _ => True) (repeatWhile test body value state) := by
    apply repeatWhile_stops
    · rintro value between goes ⟨eaten, eats, holds⟩
      apply (round eaten value between eats goes holds).mono
      · rintro next after ⟨more, eatsMore, holdsNext, nearer⟩
        exact ⟨⟨eaten ++ more, eats.append eatsMore, holdsNext⟩, nearer⟩
      · exact fun _ _ _ => trivial
    · exact ⟨[], state.eats_nothing state.depth, begun⟩
  apply loop.mono
  · rintro value after ⟨⟨eaten, eats, holds⟩, stopped⟩
    exact ⟨eaten, eats, holds, stopped⟩
  · exact fun _ _ _ => trivial

end Parser
end LineShell
