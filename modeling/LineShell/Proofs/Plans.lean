import LineShell.Proofs.Segments

namespace LineShell

/-!
# Parsers taken apart

A parser is a function, so all that can be seen of it is what it comes to.  How
often its loops go round, and how many levels are entered when it leaves some,
is seen only along the way.  A plan is a parser taken apart into the steps that
it is made of, and a run of a plan is a record of what happens in them, in
order.  Nothing bounds a run: a loop goes round as long as its test holds, and a
plan may call for another primary expression at any place.

What keeps a run within bounds is stated of plans in one judgement, which goes
by the form of a plan.  It counts the levels that stand open before and after a
plan, and it ranks the places that a run can pass without having eaten a token
before.  From the judgement it follows that levels are left as often as they are
entered, that a place is passed again only behind a further token, that a plan
has a run, and that this run comes to what the parser comes to.
-/

open Steps

namespace Parser

variable {α β : Type}

/-! ## Going on in a line -/

namespace State

/-- The tokens that are left end as those of a line do. -/
def IsProper (state : State) : Prop :=
  Token.Cursor.EndsProperly state.tokens state.fault?

/-- A line that does not fail ends with the end of the line. -/
theorem IsProper.kind_of_last {state : State} (proper : state.IsProper)
    (last : state.upcoming = []) (whole : state.fault? = none) :
    state.lookahead.kind = .endOfLine := by
  rw [IsProper, State.tokens, last, whole] at proper
  obtain ⟨before, final, shape, ends, _⟩ := proper
  cases before with
  | nil => exact (List.cons.inj shape).1 ▸ ends
  | cons token more => cases more <;> cases (List.cons.inj shape).2

/-- The second state is further on in the same line.  A mild step eats no token
that ends a statement.  One that is not mild may eat the end of the line, which
then is all that is left. -/
structure Passes (mild : Bool) (state after : State) : Prop where
  tokens :
    (∃ eaten, state.tokens = eaten ++ after.tokens
        ∧ (mild = true -> ∀ token ∈ eaten, token.kind.isTerminator = false))
      ∨ mild = false ∧ state.fault? = none ∧ after.tokens = [endToken state.limit]
  fault : after.fault? = state.fault?
  limit : after.limit = state.limit

namespace Passes

variable {mild : Bool} {state between after : State}

/-- The levels and the warnings have no part in it. -/
theorem of_same (tokens : after.tokens = state.tokens) (fault : after.fault? = state.fault?)
    (limit : after.limit = state.limit) : state.Passes mild after where
  tokens := .inl ⟨[], tokens.symm, fun _ _ member => absurd member List.not_mem_nil⟩
  fault := fault
  limit := limit

theorem refl (state : State) : state.Passes mild state :=
  of_same rfl rfl rfl

theorem trans (first : state.Passes mild between) (second : between.Passes mild after) :
    state.Passes mild after where
  tokens := by
    rcases second.tokens with ⟨more, back, goingBack⟩ | ⟨strong, whole, ending⟩
    · rcases first.tokens with ⟨eaten, front, going⟩ | ⟨strong, whole, ending⟩
      · refine .inl ⟨eaten ++ more, by rw [front, back, List.append_assoc], ?_⟩
        intro isMild token member
        rcases List.mem_append.mp member with inFirst | inSecond
        · exact going isMild token inFirst
        · exact goingBack isMild token inSecond
      · -- Only the end of the line is left, so nothing can be eaten off its front.
        rw [ending] at back
        cases more with
        | nil => exact .inr ⟨strong, whole, back.symm⟩
        | cons token others =>
            have nothing := (List.cons.inj back).2
            cases others <;> cases nothing
    · rw [first.fault] at whole
      rw [first.limit] at ending
      exact .inr ⟨strong, whole, ending⟩
  fault := second.fault.trans first.fault
  limit := second.limit.trans first.limit

theorem isProper (passes : state.Passes mild after) (proper : state.IsProper) :
    after.IsProper := by
  rw [IsProper, passes.fault]
  rcases passes.tokens with ⟨eaten, front, _⟩ | ⟨_, whole, ending⟩
  · rw [IsProper, front] at proper
    exact proper.of_append (List.cons_ne_nil _ _)
  · rw [whole, ending]
    exact ⟨[], _, rfl, rfl, fun _ member => absurd member List.not_mem_nil⟩

theorem remaining_le (passes : state.Passes mild after) : after.remaining ≤ state.remaining := by
  rcases passes.tokens with ⟨eaten, front, _⟩ | ⟨_, _, ending⟩
  · have lengths := congrArg List.length front
    simp only [State.tokens, List.length_append, List.length_cons] at lengths
    simp only [State.remaining]
    omega
  · have last := (List.cons.inj ending).2
    simp only [State.remaining, last, List.length_nil, Nat.zero_le]

end Passes
end State

/-! ## Steps without levels -/

/-- In a state a step goes on in the line and leaves the levels alone, whether
it succeeds or fails.  If it is said to eat, then it gets nearer to the end
whenever it succeeds. -/
def SteadyAt (mild eats : Bool) (step : Parser α) (state : State) : Prop :=
  state.IsProper ->
    Ensures
      (fun _ after => (state.Passes mild after ∧ after.depth = state.depth)
        ∧ (eats = true -> after.remaining < state.remaining))
      (fun _ after => state.Passes mild after ∧ after.depth = state.depth) (step state)

/-- A step is steady in every state. -/
def Steady (mild eats : Bool) (step : Parser α) : Prop :=
  ∀ state, SteadyAt mild eats step state

section Steadiness

variable {mild eats : Bool} {state : State}

theorem steadyAt_pure (value : α) : SteadyAt mild false (pure value) state :=
  fun _ => ⟨⟨.refl state, rfl⟩, fun impossible => by cases impossible⟩

theorem steadyAt_throw (fault : Fault) :
    SteadyAt mild eats (throw fault : Parser α) state :=
  fun _ => ⟨.refl state, rfl⟩

theorem steadyAt_reject (misfit : Misfit) :
    SteadyAt mild eats (reject misfit : Parser α) state :=
  fun _ => ⟨.refl state, rfl⟩

theorem steadyAt_get {next : State -> Parser β} (second : SteadyAt mild eats (next state) state) :
    SteadyAt mild eats (get >>= next) state :=
  second

/-- A sequence eats something if one of its steps does. -/
theorem steadyAt_sequence {step : Parser α} {next : α -> Parser β} {eatsFirst : Bool}
    (first : SteadyAt mild eatsFirst step state)
    (second : ∀ value after, SteadyAt mild (!eatsFirst && eats) (next value) after) :
    SteadyAt mild eats (step >>= next) state := by
  intro proper
  apply (first proper).bind
  rintro value between ⟨⟨passes, depth⟩, nearer⟩
  apply (second value between (passes.isProper proper)).mono
  · rintro result after ⟨⟨passesMore, depthMore⟩, nearerMore⟩
    refine ⟨⟨passes.trans passesMore, depthMore.trans depth⟩, fun isEating => ?_⟩
    cases eatsFirst with
    | true => exact Nat.lt_of_le_of_lt passesMore.remaining_le (nearer rfl)
    | false => exact Nat.lt_of_lt_of_le (nearerMore isEating) passes.remaining_le
  · rintro fault after ⟨passesMore, depthMore⟩
    exact ⟨passes.trans passesMore, depthMore.trans depth⟩

theorem steadyAt_bind {step : Parser α} {next : α -> Parser β}
    (first : SteadyAt mild false step state)
    (second : ∀ value after, SteadyAt mild eats (next value) after) :
    SteadyAt mild eats (step >>= next) state :=
  steadyAt_sequence first second

theorem steadyAt_bind_eater {step : Parser α} {next : α -> Parser β}
    (first : SteadyAt mild true step state)
    (second : ∀ value after, SteadyAt mild false (next value) after) :
    SteadyAt mild eats (step >>= next) state :=
  steadyAt_sequence first second

theorem steadyAt_discard {step : Parser α} (steady : SteadyAt mild eats step state) :
    SteadyAt mild eats (discard step) state := by
  rw [← bind_pure (discard step)]
  intro proper
  rw [discard_bind]
  apply (steady proper).bind
  exact fun value after done => done

/-- A token that does not end the line has another one behind it, unless the
line fails there. -/
theorem steadyAt_advance (going : state.lookahead.kind ≠ .endOfLine)
    (goes : mild = true -> state.lookahead.kind.isTerminator = false) :
    SteadyAt mild eats advance state := by
  intro proper
  cases upcoming : state.upcoming with
  | cons following others =>
      rw [advance_of_upcoming upcoming]
      refine ⟨⟨⟨.inl ⟨[state.lookahead], ?_, ?_⟩, rfl, rfl⟩, rfl⟩, fun _ => ?_⟩
      · rw [State.tokens, upcoming]
        rfl
      · intro isMild
        exact List.forall_mem_singleton.mpr (goes isMild)
      · rw [State.remaining, State.remaining, upcoming]
        exact Nat.lt_succ_self _
  | nil =>
      cases ending : state.fault? with
      | some fault =>
          rw [advance_of_fault upcoming ending]
          exact ⟨.refl state, rfl⟩
      | none => exact absurd (proper.kind_of_last upcoming ending) going

/-- Eating the end of a line leaves the end of the line. -/
theorem steadyAt_advance_end (ends : state.lookahead.kind = .endOfLine) :
    SteadyAt false false advance state := by
  intro proper
  have last : state.upcoming = [] := proper.eq_nil ends
  cases ending : state.fault? with
  | some fault =>
      rw [State.IsProper, ending] at proper
      exact absurd ends (proper state.lookahead List.mem_cons_self)
  | none =>
      rw [advance_of_end last ending]
      exact ⟨⟨⟨.inr ⟨rfl, ending, rfl⟩, rfl, rfl⟩, rfl⟩, fun impossible => by cases impossible⟩

theorem steadyAt_advance_of_going (goes : state.lookahead.kind.isTerminator = false) :
    SteadyAt mild eats advance state := by
  apply steadyAt_advance
  · intro ends
    rw [ends] at goes
    cases goes
  · exact fun _ => goes

theorem steadyAt_eatAny {kinds : List Token.Kind}
    (wants : state.lookahead.kind ∈ kinds -> SteadyAt mild eats advance state) :
    SteadyAt mild eats (eatAny kinds) state := by
  intro proper
  by_cases wanted : state.lookahead.kind ∈ kinds
  · rw [eatAny_of_mem wanted]
    exact wants wanted proper
  · cases ends : state.lookahead.kind.isTerminator with
    | true =>
        rw [eatAny_of_terminator wanted ends]
        exact steadyAt_reject _ proper
    | false =>
        rw [eatAny_of_other wanted ends]
        exact steadyAt_reject _ proper

/-- Eating a token of a kind that does not end a statement. -/
theorem steady_eatAny {kinds : List Token.Kind}
    (going : kinds.all (fun kind => !kind.isTerminator) = true) :
    Steady mild eats (eatAny kinds) := by
  intro state
  apply steadyAt_eatAny
  intro wanted
  have goes := List.all_eq_true.mp going _ wanted
  exact steadyAt_advance_of_going ((Bool.not_eq_true' _).mp goes)

theorem steady_eat {kind : Token.Kind} (going : kind.isTerminator = false) :
    Steady mild eats (eat kind) :=
  steady_eatAny (by rw [List.all_cons, going]; rfl)

end Steadiness

/-- Loops whose rounds agree in what is kept agree. -/
theorem repeatWhile_congr {test : State -> Bool} {body other : α -> Parser α} {value : α}
    {state : State} (kept : α -> State -> Prop)
    (rounds : ∀ value state, test state = true -> kept value state ->
      body value state = other value state
        ∧ Ensures kept (fun _ _ => True) (body value state))
    (begun : kept value state) :
    repeatWhile test body value state = repeatWhile test other value state := by
  induction size : state.remaining using Nat.strongRecOn generalizing value state with
  | ind size ih =>
      rw [repeatWhile, repeatWhile]
      cases goes : test state with
      | false => rfl
      | true =>
          obtain ⟨same, keeps⟩ := rounds value state goes begun
          rw [← same]
          cases ran : body value state with
          | error fault after => rfl
          | ok next after =>
              rw [ran] at keeps
              by_cases nearer : after.remaining < state.remaining
              · simp only [if_pos nearer, if_true]
                exact ih after.remaining (size ▸ nearer) keeps rfl
              · simp only [if_neg nearer]

/-! ## Plans and their runs -/

/-- The places of the grammar that can be passed again and again: a further
operand of a chain, an item of an array, a piece of a path, a further statement
of a line, a primary expression, and what a primary expression without
parentheses is read as. -/
inductive Site where
  | operands
  | items
  | pieces
  | statements
  | primary
  | unary
  deriving DecidableEq, Repr

namespace Site

/-- Before a token is eaten, a place is passed only on the way from places of
higher rank. -/
def rank : Site -> Nat
  | .items => 2
  | .primary => 1
  | .operands | .pieces | .statements | .unary => 0

/-- A rank above every place. -/
def top : Nat := 3

theorem rank_lt_top (site : Site) : site.rank < top := by
  cases site with
  | items => exact Nat.lt_succ_self 2
  | primary => exact Nat.lt_of_sub_eq_succ rfl
  | operands | pieces | statements | unary => exact Nat.zero_lt_succ 2

end Site

/-- What is recorded of a run. -/
inductive Event where
  | entered
  | leaving (levels : Nat)
  | passing (site : Site)
  deriving DecidableEq, Repr

/-- The levels that are left at once. -/
def Event.departing : Event -> Nat
  | .leaving levels => levels
  | .entered | .passing _ => 0

/-- Something that happens in a run, and the state that it happens in.  A level
is counted in the state in which it is entered, and levels that are left are
still counted in the state in which they are. -/
structure Moment where
  event : Event
  state : State
  deriving DecidableEq, Repr

/-- A parser taken apart.  Its simple steps are parsers again. -/
inductive Plan : Type -> Type 1
  | give {α : Type} (value : α) : Plan α
  | step {α : Type} (parser : Parser α) : Plan α
  | look {α : Type} (next : State -> Plan α) : Plan α
  | andThen {α β : Type} (first : Plan α) (next : α -> Plan β) : Plan β
  | enter : Plan Unit
  | leave (levels : Nat) : Plan Unit
  | loop {α : Type} (site : Site) (test : State -> Bool) (each : α -> Plan α) (value : α) : Plan α
  | mark {α : Type} (site : Site) (inner : Plan α) : Plan α
  | call : Plan Expr

namespace Plan

/-- Reads something one level deeper. -/
def nested (inner : Plan α) : Plan α :=
  .andThen .enter fun _ => .andThen inner fun value => .andThen (.leave 1) fun _ => .give value

/-- The parser that a plan is for, given how primary expressions are read. -/
def parser (inner : Parser Expr) : {α : Type} -> Plan α -> Parser α
  | _, .give value => pure value
  | _, .step parser => parser
  | _, .look next => fun state => (next state).parser inner state
  | _, .andThen first next => first.parser inner >>= fun value => (next value).parser inner
  | _, .enter => Parser.enter
  | _, .leave levels => Parser.leave levels
  | _, .loop _ test each value => repeatWhile test (fun value => (each value).parser inner) value
  | _, .mark _ plan => plan.parser inner
  | _, .call => inner

section Parsers

variable (inner : Parser Expr)

theorem parser_give (value : α) : (give value).parser inner = pure value := rfl

theorem parser_step (parser : Parser α) : (step parser).parser inner = parser := rfl

theorem parser_look (next : State -> Plan α) :
    (look next).parser inner = fun state => (next state).parser inner state := rfl

theorem parser_andThen (first : Plan α) (next : α -> Plan β) :
    (andThen first next).parser inner
      = first.parser inner >>= fun value => (next value).parser inner := rfl

theorem parser_enter : enter.parser inner = Parser.enter := rfl

theorem parser_loop (site : Site) (test : State -> Bool) (each : α -> Plan α) (value : α) :
    (loop site test each value).parser inner
      = repeatWhile test (fun value => (each value).parser inner) value := rfl

theorem parser_mark (site : Site) (plan : Plan α) :
    (mark site plan).parser inner = plan.parser inner := rfl

theorem parser_call : call.parser inner = inner := rfl

end Parsers

/-- A plan can run from a state to a result, with what happens on the way, if
primary expressions are read as `body` says. -/
inductive Runs (body : Plan Expr) :
    {α : Type} -> Plan α -> State -> List Moment -> EStateM.Result Fault State α -> Prop
  | give {α : Type} {value : α} {state} : Runs body (.give value) state [] (.ok value state)
  | step {α : Type} {parser : Parser α} {state} :
      Runs body (.step parser) state [] (parser state)
  | look {α : Type} {next : State -> Plan α} {state moments result} :
      Runs body (next state) state moments result ->
      Runs body (.look next) state moments result
  | onward {α β : Type} {first : Plan α} {next : α -> Plan β}
      {state value between moments more result} :
      Runs body first state moments (.ok value between) ->
      Runs body (next value) between more result ->
      Runs body (.andThen first next) state (moments ++ more) result
  | failed {α β : Type} {first : Plan α} {next : α -> Plan β} {state fault after moments} :
      Runs body first state moments (.error fault after) ->
      Runs body (.andThen first next) state moments (.error fault after)
  | enter {state} :
      Runs body .enter state [⟨.entered, { state with depth := state.depth + 1 }⟩]
        (Parser.enter state)
  | leave {levels state} :
      Runs body (.leave levels) state [⟨.leaving levels, state⟩] (Parser.leave levels state)
  | stop {α : Type} {site test} {each : α -> Plan α} {value state} :
      test state = false ->
      Runs body (.loop site test each value) state [] (.ok value state)
  | round {α : Type} {site test} {each : α -> Plan α}
      {value state next between moments more result} :
      test state = true ->
      Runs body (each value) state moments (.ok next between) ->
      Runs body (.loop site test each next) between more result ->
      Runs body (.loop site test each value) state (⟨.passing site, state⟩ :: moments ++ more)
        result
  | broken {α : Type} {site test} {each : α -> Plan α} {value state fault after moments} :
      test state = true ->
      Runs body (each value) state moments (.error fault after) ->
      Runs body (.loop site test each value) state (⟨.passing site, state⟩ :: moments)
        (.error fault after)
  | mark {α : Type} {site} {inner : Plan α} {state moments result} :
      Runs body inner state moments result ->
      Runs body (.mark site inner) state (⟨.passing site, state⟩ :: moments) result
  | call {state moments result} :
      Runs body body state moments result ->
      Runs body .call state (⟨.passing .primary, state⟩ :: moments) result

/-! ## The judgement -/

/-- A plan is sound in the states `here` from a number of open levels, and
leaves the number open that `post` gives for its value.  Before it eats a token
it passes places below the given rank only, and calls for primary expressions
only with at least `least` levels open.  If it is said to eat, then it eats
something whenever it succeeds. -/
def Sound (mild : Bool) (least : Nat) :
    {α : Type} -> Plan α -> (here : State -> Prop) -> (rank level : Nat) -> (post : α -> Nat) ->
      (eats : Bool) -> Prop
  | _, .give value, _, _, level, post, eats => post value = level ∧ eats = false
  | _, .step parser, here, _, level, post, eats =>
      (∀ state, here state -> SteadyAt mild eats parser state) ∧ ∀ value, post value = level
  | _, .look next, here, rank, level, post, eats =>
      ∀ state, here state -> (next state).Sound mild least (· = state) rank level post eats
  | _, .andThen first next, here, rank, level, post, eats =>
      ∃ mid eatsFirst, first.Sound mild least here rank level mid eatsFirst
        ∧ ∀ value, (next value).Sound mild least (fun _ => True)
            (if eatsFirst then Site.top else rank) (mid value) post (!eatsFirst && eats)
  | _, .enter, _, _, level, post, eats => post () = level + 1 ∧ eats = false
  | _, .leave levels, _, _, level, post, eats =>
      levels ≤ level ∧ post () = level - levels ∧ eats = false
  | _, .loop site test each value, _, rank, level, post, eats =>
      site.rank < rank ∧ post value = level ∧ eats = false
        ∧ ∀ value, (each value).Sound mild least (fun state => test state = true) site.rank
            (post value) post true
  | _, .mark site inner, here, rank, level, post, _ =>
      site.rank < rank ∧ inner.Sound mild least here site.rank level post true
  | _, .call, _, rank, level, post, _ =>
      Site.primary.rank < rank ∧ least ≤ level ∧ ∀ value, post value = level

section Rules

variable {mild eats : Bool} {least rank level : Nat} {here : State -> Prop} {post : α -> Nat}

theorem sound_step {parser : Parser α}
    (steady : ∀ state, here state -> SteadyAt mild eats parser state) :
    (step parser).Sound mild least here rank level (fun _ => level) eats :=
  ⟨steady, fun _ => rfl⟩

/-- A step is taken in the state that has been looked at. -/
theorem sound_step_here {parser : Parser α} {state : State}
    (steady : SteadyAt mild eats parser state) :
    (step parser).Sound mild least (· = state) rank level (fun _ => level) eats := by
  apply sound_step
  rintro _ rfl
  exact steady

theorem sound_give (value : α) :
    (give value).Sound mild least here rank level (fun _ => level) false :=
  ⟨rfl, rfl⟩

theorem sound_andThen {first : Plan β} {next : β -> Plan α} {mid : β -> Nat}
    (isFirst : first.Sound mild least here rank level mid false)
    (isNext : ∀ value,
      (next value).Sound mild least (fun _ => True) rank (mid value) post eats) :
    (andThen first next).Sound mild least here rank level post eats :=
  ⟨mid, false, isFirst, isNext⟩

/-- Behind a token, all places may be passed. -/
theorem sound_andThen_eater {first : Plan β} {next : β -> Plan α} {mid : β -> Nat}
    (isFirst : first.Sound mild least here rank level mid true)
    (isNext : ∀ value,
      (next value).Sound mild least (fun _ => True) Site.top (mid value) post false) :
    (andThen first next).Sound mild least here rank level post eats :=
  ⟨mid, true, isFirst, by simpa only [if_true, Bool.not_true, Bool.false_and] using isNext⟩

theorem sound_nested {inner : Plan α}
    (isInner : inner.Sound mild least (fun _ => True) rank (level + 1) (fun _ => level + 1) eats) :
    (nested inner).Sound mild least here rank level (fun _ => level) eats := by
  have entered : enter.Sound mild least here rank level (fun _ => level + 1) false := ⟨rfl, rfl⟩
  apply sound_andThen entered
  intro _
  refine ⟨fun _ => level + 1, eats, isInner, fun value => ?_⟩
  rw [Bool.not_and_self]
  have left : (leave 1).Sound mild least (fun _ => True) (if eats then Site.top else rank)
      (level + 1) (fun _ => level) false := ⟨Nat.le_add_left 1 level, rfl, rfl⟩
  exact sound_andThen left fun _ => sound_give value

section Loops

variable {site : Site} {test : State -> Bool} {each : α -> Plan α} {value : α}

/-- Every round of a loop that is sound eats something. -/
theorem Sound.rounds
    (sound : (loop site test each value).Sound mild least here rank level post eats) (next : α) :
    (each next).Sound mild least (fun state => test state = true) site.rank (post next) post true :=
  sound.2.2.2 next

/-- A loop that is sound is sound after any number of rounds. -/
theorem Sound.again (sound : (loop site test each value).Sound mild least here rank level post eats)
    (next : α) :
    (loop site test each next).Sound mild least (fun _ => True) rank (post next) post eats :=
  ⟨sound.1, rfl, sound.2.2⟩

end Loops

end Rules

/-! ## How primary expressions are read inside -/

/-- A number of levels above the base is open, and if there are any, they are
not too many. -/
structure Stands (base level : Nat) (state : State) : Prop where
  proper : state.IsProper
  depth : state.depth = base + level
  room : 1 ≤ level -> state.depth ≤ maxDepth

/-- A parser that succeeds has left as many levels as it has entered. -/
def Balanced (inner : Parser Expr) : Prop :=
  ∀ state, state.IsProper ->
    Ensures (fun _ after => after.IsProper ∧ after.depth = state.depth) (fun _ _ => True)
      (inner state)

section Inside

variable {mild eats : Bool} {least rank level base : Nat} {here : State -> Prop} {post : α -> Nat}
  {inner other : Parser Expr}

theorem stands_after (balanced : Balanced inner) (plan : Plan α) {state : State}
    (sound : plan.Sound mild least here rank level post eats) (isHere : here state)
    (stands : Stands base level state) :
    Ensures (fun value after => Stands base (post value) after) (fun _ _ => True)
      (plan.parser inner state) := by
  induction plan generalizing here rank level eats state with
  | give value => exact ⟨stands.proper, sound.1 ▸ stands.depth, sound.1 ▸ stands.room⟩
  | step parser =>
      apply (sound.1 state isHere stands.proper).mono
      · rintro value after ⟨⟨passes, same⟩, _⟩
        rw [sound.2 value]
        exact ⟨passes.isProper stands.proper, same.trans stands.depth, same ▸ stands.room⟩
      · exact fun _ _ _ => trivial
  | look next ih => exact ih state (sound state isHere) rfl stands
  | andThen first next ihFirst ihNext =>
      obtain ⟨mid, eatsFirst, soundFirst, soundNext⟩ := sound
      apply (ihFirst soundFirst isHere stands).bind
      exact fun value between standsNext => ihNext value (soundNext value) trivial standsNext
  | enter =>
      by_cases room : state.depth + 1 ≤ maxDepth
      · rw [parser_enter, enter_of_le room]
        refine ⟨stands.proper, ?_, fun _ => room⟩
        rw [sound.1]
        exact congrArg (· + 1) stands.depth
      · rw [parser_enter, enter_of_lt (Nat.not_le.mp room)]
        trivial
  | leave levels =>
      obtain ⟨within, left, _⟩ := sound
      have depth : state.depth - levels = base + post () := by
        rw [left, stands.depth]
        exact Nat.add_sub_assoc within base
      refine ⟨stands.proper, depth, fun some => ?_⟩
      have opened : 1 ≤ level - levels := left ▸ some
      exact (Nat.sub_le _ _).trans (stands.room (opened.trans (Nat.sub_le _ _)))
  | loop site test each value ih =>
      apply repeatWhile_ensures
      · exact fun value between goes standsNext => ih value (sound.rounds value) goes standsNext
      · rw [sound.2.1]
        exact stands
  | mark site plan ih => exact ih sound.2 isHere stands
  | call =>
      apply (balanced state stands.proper).mono
      · rintro value after ⟨proper, same⟩
        rw [sound.2.2 value]
        exact ⟨proper, same.trans stands.depth, same ▸ stands.room⟩
      · exact fun _ _ _ => trivial

/-- A plan that calls for primary expressions only with levels open depends on
how they are read with no more levels open than there are. -/
theorem parser_congr (balanced : Balanced inner) (some : 1 ≤ least)
    (agree : ∀ state, state.IsProper -> base + least ≤ state.depth -> state.depth ≤ maxDepth ->
      inner state = other state)
    (plan : Plan α) {state : State} (sound : plan.Sound mild least here rank level post eats)
    (isHere : here state)
    (stands : Stands base level state) :
    plan.parser inner state = plan.parser other state := by
  induction plan generalizing here rank level eats state with
  | give value => rfl
  | step parser => rfl
  | look next ih => exact ih state (sound state isHere) rfl stands
  | andThen first next ihFirst ihNext =>
      obtain ⟨mid, eatsFirst, soundFirst, soundNext⟩ := sound
      have same := ihFirst soundFirst isHere stands
      have standsNext := stands_after balanced first soundFirst isHere stands
      cases ran : first.parser inner state with
      | error fault after =>
          rw [parser_andThen, parser_andThen, bind_of_error ran, bind_of_error (same ▸ ran)]
      | ok value between =>
          rw [ran] at standsNext
          rw [parser_andThen, parser_andThen, bind_of_ok ran, bind_of_ok (same ▸ ran)]
          exact ihNext value (soundNext value) trivial standsNext
  | enter => rfl
  | leave levels => rfl
  | loop site test each value ih =>
      apply repeatWhile_congr fun value state => Stands base (post value) state
      · intro value between goes standsNext
        exact ⟨ih value (sound.rounds value) goes standsNext,
          stands_after balanced (each value) (sound.rounds value) goes standsNext⟩
      · rw [sound.2.1]
        exact stands
  | mark site plan ih => exact ih sound.2 isHere stands
  | call =>
      have opened : 1 ≤ level := some.trans sound.2.1
      apply agree state stands.proper
      · rw [stands.depth]
        exact Nat.add_le_add_left sound.2.1 base
      · exact stands.room opened

end Inside

end Plan
end Parser
end LineShell
