import LineShell.Proofs.Derivation

namespace LineShell

/-!
# Reading does not look ahead of what it eats

What a parser comes to depends only on the tokens that it eats, and on the
first token behind them only in so far as that one is not eaten.  So a parser
comes to the same if the line is cut off behind the tokens that it eats: the
end of a line is a token at which every parser stops that can stop at all.

A state whose line is cut off is an excerpt of the state whose line goes on.
The levels that are entered need not agree, as long as the excerpt has entered
no more of them, and the parser on the excerpt may have been given more levels
to nest.  That is what it takes to read a command on its own that was read
somewhere inside an expression.
-/

open Steps

namespace Parser

/-! ## Excerpts -/

namespace State

/-- The excerpt has the tokens `shared` of the front of a state, and behind them
its line ends. -/
structure Excerpt (state : State) (shared : List Token) (excerpt : State) : Prop where
  front : shared <+: state.tokens
  tokens : ∃ ending, ending.kind = .endOfLine ∧ excerpt.tokens = shared ++ [ending]
  fault : excerpt.fault? = none
  lastEnd : excerpt.lastEnd = state.lastEnd
  depth : excerpt.depth ≤ state.depth

namespace Excerpt

variable {state excerpt : State} {shared : List Token}

/-- An excerpt that is not at its end has the same lookahead. -/
theorem lookahead_eq (cut : state.Excerpt shared excerpt) (some : shared ≠ []) :
    excerpt.lookahead = state.lookahead := by
  rcases cut.tokens with ⟨ending, _, tokens⟩
  rcases cut.front with ⟨rest, front⟩
  rcases List.exists_cons_of_ne_nil some with ⟨token, others, rfl⟩
  rw [(List.cons.inj tokens).1, ← (List.cons.inj front).1]

theorem ends (cut : state.Excerpt [] excerpt) : excerpt.lookahead.kind = .endOfLine := by
  rcases cut.tokens with ⟨ending, ends, tokens⟩
  rw [(List.cons.inj tokens).1]
  exact ends

theorem remaining_eq (cut : state.Excerpt shared excerpt) :
    excerpt.remaining = shared.length := by
  rcases cut.tokens with ⟨ending, _, tokens⟩
  have lengths := congrArg List.length tokens
  simpa [State.tokens, State.remaining] using lengths

/-- Tokens that are shared behind those that are eaten are shared by what is
left. -/
theorem shared_of_eats {eaten : List Token} {after : State}
    (cut : state.Excerpt (eaten ++ shared) excerpt) (eats : state.Eats eaten after) :
    shared <+: after.tokens := by
  have front := cut.front
  rcases eats.tokens with tokens | ⟨tokens, _, _⟩
  · rw [tokens] at front
    exact (List.prefix_append_right_inj eaten).mp front
  · rw [tokens] at front
    have nothing : shared = [] := by
      have lengths := front.length_le
      rw [List.length_append] at lengths
      exact List.length_eq_zero_iff.mp (by omega)
    rw [nothing]
    exact List.nil_prefix

end Excerpt

theorem Eats.front {state after : State} {eaten : List Token}
    (eats : state.Eats eaten after) : eaten <+: state.tokens := by
  rcases eats.tokens with front | ⟨whole, _, _⟩
  · exact ⟨after.tokens, front.symm⟩
  · exact whole ▸ List.prefix_refl _

/-- What is eaten between two states is determined by them. -/
theorem Eats.unique {state after : State} {eaten others : List Token}
    (eats : state.Eats eaten after) (eatsToo : state.Eats others after) : eaten = others := by
  -- The end of a line is not eaten, so the tokens cannot both run out and not.
  have clash : ∀ {first second : List Token}, state.Eats second after ->
      state.tokens = first ++ after.tokens -> state.tokens = second ->
      after.tokens = [endToken state.limit] -> False := by
    intro first second eatsSecond front whole ending
    have member : endToken state.limit ∈ second := by
      rw [← whole, front, ending]
      exact List.mem_append_right _ List.mem_cons_self
    have goes := eatsSecond.going _ member
    cases goes
  rcases eats.tokens with front | ⟨whole, _, ending⟩ <;>
    rcases eatsToo.tokens with frontToo | ⟨wholeToo, _, endingToo⟩
  · exact List.append_cancel_right (front.symm.trans frontToo)
  · exact (clash eatsToo front wholeToo endingToo).elim
  · exact (clash eats frontToo whole ending).elim
  · exact whole.symm.trans wholeToo

end State

variable {α β : Type} {state : State}

/-- What is known of a step in two ways is known of the same tokens. -/
theorem obeysAt_and {meets meetsToo : List Token -> α -> State -> Prop} {step : Parser α}
    (first : ObeysAt meets step state) (second : ObeysAt meetsToo step state) :
    ObeysAt (fun eaten value after => meets eaten value after ∧ meetsToo eaten value after)
      step state := by
  rw [ObeysAt] at first second ⊢
  cases ran : step state with
  | error fault after => trivial
  | ok value after =>
      rw [ran] at first second
      rcases first with ⟨eaten, eats, met⟩
      rcases second with ⟨others, eatsToo, metToo⟩
      rw [eatsToo.unique eats] at metToo
      exact ⟨eaten, eats, met, metToo⟩

/-- In a state a step eats something. -/
def SolidAt (step : Parser α) (state : State) : Prop :=
  ObeysAt (fun eaten _ _ => eaten ≠ []) step state

/-- A step always eats something. -/
def Solid (step : Parser α) : Prop :=
  ∀ state, SolidAt step state

theorem solidAt_bind {step : Parser α} {next : α -> Parser β} (first : SolidAt step state)
    (second : ∀ value, Obeys (fun _ _ => True) (next value)) : SolidAt (step >>= next) state := by
  apply obeysAt_bind first
  intro eaten value after _ some
  exact obeysAt_mono (second value after) fun _ _ _ _ =>
    List.append_ne_nil_of_left_ne_nil some _

theorem solidAt_discard {step : Parser α} {next : Unit -> Parser β} (first : SolidAt step state)
    (second : Obeys (fun _ _ => True) (next ())) : SolidAt (discard step >>= next) state := by
  rw [SolidAt, ObeysAt, discard_bind]
  exact solidAt_bind first fun _ => second

theorem solidAt_advance (goes : state.lookahead.kind.isTerminator = false) :
    SolidAt advance state :=
  obeysAt_mono (obeysAt_advance goes) fun _ _ _ met => met.1 ▸ List.cons_ne_nil _ _

theorem solid_eatAny {kinds : List Token.Kind}
    (going : ∀ kind ∈ kinds, kind.isTerminator = false) : Solid (eatAny kinds) :=
  fun state => obeysAt_mono (obeys_eatAny going state) fun _ _ _ met =>
    met.1 ▸ List.cons_ne_nil _ _

/-! ## Local steps -/

/-- In a state a step leaves the warnings alone, and on every excerpt that has
the tokens it eats and then those that are allowed, the other step comes to the
same and leaves an excerpt. -/
def LocalBefore (allowed : List Token -> Prop) (step again : Parser α) (state : State) : Prop :=
  ObeysAt
    (fun eaten value after => after.warnings = state.warnings
      ∧ ∀ shared excerpt, allowed shared -> state.Excerpt (eaten ++ shared) excerpt ->
          ∃ rest, again excerpt = .ok value rest ∧ after.Excerpt shared rest)
    step state

/-- In a state a step is local, whatever else the excerpt has. -/
def LocalAt (step again : Parser α) (state : State) : Prop :=
  LocalBefore (fun _ => True) step again state

/-- A step is local in every state. -/
def Local (step again : Parser α) : Prop :=
  ∀ state, LocalAt step again state

variable {allowed before : List Token -> Prop}

theorem LocalAt.localBefore {step again : Parser α} (isLocal : LocalAt step again state) :
    LocalBefore allowed step again state := by
  apply obeysAt_mono isLocal
  rintro eaten value after ⟨unwarned, onExcerpt⟩
  exact ⟨unwarned, fun shared excerpt _ cut => onExcerpt shared excerpt trivial cut⟩

theorem LocalAt.obeysAt {step again : Parser α} (isLocal : LocalAt step again state) :
    ObeysAt (fun _ _ _ => True) step state :=
  obeysAt_mono isLocal fun _ _ _ _ => trivial

theorem Local.obeys {step again : Parser α} (isLocal : Local step again) :
    Obeys (fun _ _ => True) step :=
  fun state => (isLocal state).obeysAt

theorem localAt_throw {again : Parser α} (fault : Fault) : LocalAt (throw fault) again state :=
  trivial

theorem localAt_reject {again : Parser α} (misfit : Misfit) :
    LocalAt (reject misfit) again state :=
  trivial

theorem local_pure (value : α) : Local (pure value) (pure value) := by
  intro state
  exact ⟨[], state.eats_nothing state.depth, rfl, fun _ excerpt _ cut => ⟨excerpt, rfl, cut⟩⟩

/-- What the second step eats is part of what stands behind the first one. -/
theorem localBefore_bind {step again : Parser α} {next nextAgain : α -> Parser β}
    (first : LocalBefore before step again state)
    (second : ∀ value between, LocalBefore allowed (next value) (nextAgain value) between)
    (leads : ∀ value between, ObeysAt
      (fun eaten _ _ => ∀ shared, allowed shared -> before (eaten ++ shared)) (next value)
      between) :
    LocalBefore allowed (step >>= next) (again >>= nextAgain) state := by
  apply obeysAt_bind first
  rintro eaten value between eats ⟨unwarned, onExcerpt⟩
  apply obeysAt_mono (obeysAt_and (second value between) (leads value between))
  rintro more result after ⟨⟨unwarnedToo, onRest⟩, lead⟩
  refine ⟨unwarnedToo.trans unwarned, ?_⟩
  intro shared excerpt isAllowed cut
  rw [List.append_assoc] at cut
  rcases onExcerpt _ _ (lead shared isAllowed) cut with ⟨rest, ran, cutRest⟩
  rcases onRest _ _ isAllowed cutRest with ⟨last, ranRest, cutLast⟩
  exact ⟨last, (bind_of_ok ran _).trans ranRest, cutLast⟩

theorem localAt_bind {step again : Parser α} {next nextAgain : α -> Parser β}
    (first : LocalAt step again state)
    (second : ∀ value, Local (next value) (nextAgain value)) :
    LocalAt (step >>= next) (again >>= nextAgain) state :=
  localBefore_bind first second fun value between =>
    obeysAt_mono (second value between) fun _ _ _ _ _ _ => trivial

theorem localAt_map {step again : Parser α} (isLocal : LocalAt step again state)
    (change : α -> β) :
    LocalAt (step >>= fun value => pure (change value) : Parser β)
      (again >>= fun value => pure (change value)) state :=
  localAt_bind isLocal fun value => local_pure (change value)

theorem discard_bind_eq (step : Parser α) (next : Unit -> Parser β) :
    discard step >>= next = step >>= fun _ => next () :=
  funext (discard_bind step next)

theorem localAt_discard {step again : Parser α} {next nextAgain : Unit -> Parser β}
    (first : LocalAt step again state)
    (second : Local (next ()) (nextAgain ())) :
    LocalAt (discard step >>= next) (discard again >>= nextAgain) state := by
  rw [discard_bind_eq, discard_bind_eq]
  exact localAt_bind first fun _ => second

/-- A step that looks at the lookahead sees the same one on every excerpt that
has what it eats, unless it eats nothing and the excerpt is at its end. -/
theorem localBefore_get {next nextAgain : State -> Parser α}
    (here : ∀ excerpt, excerpt.lookahead = state.lookahead ->
      LocalBefore allowed (next state) (nextAgain excerpt) state)
    (ended : ∀ excerpt, excerpt.lookahead.kind = .endOfLine -> allowed [] ->
      SolidAt (next state) state ∨ LocalBefore allowed (next state) (nextAgain excerpt) state) :
    LocalBefore allowed (get >>= next) (get >>= nextAgain) state := by
  have base := here state rfl
  rw [LocalBefore, ObeysAt, get_bind]
  cases ran : next state state with
  | error fault after => trivial
  | ok value after =>
      simp only [LocalBefore, SolidAt, ObeysAt, ran] at here ended base
      rcases base with ⟨eaten, eats, unwarned, _⟩
      refine ⟨eaten, eats, unwarned, ?_⟩
      intro shared excerpt isAllowed cut
      have elsewhere : ∀ others, state.Eats others after -> others = eaten :=
        fun others eatsToo => eatsToo.unique eats
      by_cases some : eaten ++ shared ≠ []
      · rcases here excerpt (cut.lookahead_eq some) with ⟨others, eatsToo, _, onExcerpt⟩
        rw [elsewhere others eatsToo] at onExcerpt
        exact onExcerpt shared excerpt isAllowed cut
      · rcases List.append_eq_nil_iff.mp (Decidable.not_not.mp some) with ⟨nothing, rfl⟩
        subst nothing
        rcases ended excerpt cut.ends isAllowed with
          ⟨others, eatsToo, solid⟩ | ⟨others, eatsToo, _, onExcerpt⟩
        · exact absurd (elsewhere others eatsToo) solid
        · rw [elsewhere others eatsToo] at onExcerpt
          exact onExcerpt [] excerpt isAllowed cut

theorem localAt_get {next nextAgain : State -> Parser α}
    (here : ∀ excerpt, excerpt.lookahead = state.lookahead ->
      LocalAt (next state) (nextAgain excerpt) state)
    (ended : ∀ excerpt, excerpt.lookahead.kind = .endOfLine ->
      SolidAt (next state) state ∨ LocalAt (next state) (nextAgain excerpt) state) :
    LocalAt (get >>= next) (get >>= nextAgain) state :=
  localBefore_get here fun excerpt ends _ => ended excerpt ends

/-- A step that always eats something never sees the end of an excerpt. -/
theorem localAt_get_of_solid {next nextAgain : State -> Parser α}
    (solid : SolidAt (next state) state)
    (here : ∀ excerpt, excerpt.lookahead = state.lookahead ->
      LocalAt (next state) (nextAgain excerpt) state) :
    LocalAt (get >>= next) (get >>= nextAgain) state :=
  localAt_get here fun _ _ => .inl solid

section Choices

variable {test : State -> Prop} [DecidablePred test] {step stepAgain : Parser α}
  {next nextAgain : α -> Parser β} {onward onwardAgain other otherAgain : Parser β}
  (sees : ∀ excerpt, excerpt.lookahead = state.lookahead -> (test excerpt ↔ test state))
include sees

/-- A step that goes on if the lookahead allows it, where the end of a line does
not, is local if going on eats something. -/
theorem localAt_ite_of_never
    (never : ∀ excerpt, excerpt.lookahead.kind = .endOfLine -> ¬test excerpt)
    (first : test state -> LocalAt step stepAgain state ∧ SolidAt step state)
    (second : ∀ value, Local (next value) (nextAgain value))
    (otherwise : ¬test state -> LocalAt other otherAgain state) :
    LocalAt (get >>= fun state => if test state then step >>= next else other)
      (get >>= fun state => if test state then stepAgain >>= nextAgain else otherAgain) state := by
  apply localAt_get
  · intro excerpt same
    by_cases holds : test state
    · rw [if_pos holds, if_pos ((sees excerpt same).mpr holds)]
      exact localAt_bind (first holds).1 second
    · rw [if_neg holds, if_neg (mt (sees excerpt same).mp holds)]
      exact otherwise holds
  · intro excerpt ends
    by_cases holds : test state
    · rw [if_pos holds]
      exact .inl (solidAt_bind (first holds).2 fun value => (second value).obeys)
    · rw [if_neg holds, if_neg (never excerpt ends)]
      exact .inr (otherwise holds)

/-- A step that goes on unless the lookahead ends it, as the end of a line does,
is local if going on eats something. -/
theorem localAt_ite_of_always
    (always : ∀ excerpt, excerpt.lookahead.kind = .endOfLine -> test excerpt)
    (ended : test state -> LocalAt other otherAgain state)
    (goes : ¬test state -> LocalAt onward onwardAgain state ∧ SolidAt onward state) :
    LocalAt (get >>= fun state => if test state then other else onward)
      (get >>= fun state => if test state then otherAgain else onwardAgain) state := by
  apply localAt_get
  · intro excerpt same
    by_cases holds : test state
    · rw [if_pos holds, if_pos ((sees excerpt same).mpr holds)]
      exact ended holds
    · rw [if_neg holds, if_neg (mt (sees excerpt same).mp holds)]
      exact (goes holds).1
  · intro excerpt ends
    by_cases holds : test state
    · rw [if_pos holds, if_pos (always excerpt ends)]
      exact .inr (ended holds)
    · rw [if_neg holds]
      exact .inl (goes holds).2

end Choices

/-! ## Eating tokens and levels -/

theorem advance_of_tokens {token next : Token} {others : List Token}
    (tokens : state.tokens = token :: next :: others) :
    advance state = .ok token
      { state with lookahead := next, upcoming := others, lastEnd := token.span.stop } := by
  rcases List.cons.inj tokens with ⟨rfl, more⟩
  exact advance_of_upcoming more

theorem advance_keeps {token : Token} {after : State} (ran : advance state = .ok token after) :
    after.depth = state.depth ∧ after.warnings = state.warnings := by
  cases upcoming : state.upcoming with
  | cons next others =>
      rw [advance_of_upcoming upcoming] at ran
      cases ran
      exact ⟨rfl, rfl⟩
  | nil =>
      cases ending : state.fault? with
      | none =>
          rw [advance_of_end upcoming ending] at ran
          cases ran
          exact ⟨rfl, rfl⟩
      | some fault =>
          rw [advance_of_fault upcoming ending] at ran
          cases ran

theorem localAt_advance (goes : state.lookahead.kind.isTerminator = false) :
    LocalAt advance advance state := by
  have obeys := obeysAt_advance goes
  rw [LocalAt, LocalBefore, ObeysAt]
  rw [ObeysAt] at obeys
  cases ran : advance state with
  | error fault after => trivial
  | ok token after =>
      rw [ran] at obeys
      rcases obeys with ⟨_, eats, rfl, rfl⟩
      rcases advance_keeps ran with ⟨depth, warnings⟩
      refine ⟨_, eats, warnings, ?_⟩
      intro shared excerpt _ cut
      rcases cut.tokens with ⟨ending, ends, tokens⟩
      obtain ⟨next, others, more⟩ : ∃ next others, shared ++ [ending] = next :: others :=
        List.exists_cons_of_ne_nil (List.append_ne_nil_of_right_ne_nil _ (List.cons_ne_nil _ _))
      rw [List.append_assoc, more] at tokens
      refine ⟨_, advance_of_tokens tokens, ?_⟩
      exact
        { front := cut.shared_of_eats eats
          tokens := ⟨ending, ends, more.symm⟩
          fault := cut.fault
          lastEnd := eats.lastEnd.symm
          depth := depth ▸ cut.depth }

theorem solidAt_advance_of_kind {kind : Token.Kind} (here : state.lookahead.kind = kind)
    (goes : kind.isTerminator = false) : SolidAt advance state := by
  rw [← here] at goes
  exact solidAt_advance goes

theorem localAt_advance_of_kind {kind : Token.Kind} (here : state.lookahead.kind = kind)
    (goes : kind.isTerminator = false) : LocalAt advance advance state := by
  rw [← here] at goes
  exact localAt_advance goes

theorem local_eatAny {kinds : List Token.Kind}
    (going : ∀ kind ∈ kinds, kind.isTerminator = false) :
    Local (eatAny kinds) (eatAny kinds) := by
  intro state
  by_cases wanted : state.lookahead.kind ∈ kinds
  · have steps := localAt_advance (going _ wanted)
    have eats := obeysAt_advance (going _ wanted)
    rw [LocalAt, LocalBefore, ObeysAt, eatAny_of_mem wanted]
    apply obeysAt_mono (obeysAt_and eats steps)
    rintro _ _ after ⟨⟨rfl, rfl⟩, unwarned, onExcerpt⟩
    refine ⟨unwarned, fun shared excerpt _ cut => ?_⟩
    have same := cut.lookahead_eq (List.cons_ne_nil _ _)
    rw [eatAny_of_mem (same ▸ wanted)]
    exact onExcerpt shared excerpt trivial cut
  · cases ends : state.lookahead.kind.isTerminator with
    | true =>
        rw [LocalAt, LocalBefore, ObeysAt, eatAny_of_terminator wanted ends]
        trivial
    | false =>
        rw [LocalAt, LocalBefore, ObeysAt, eatAny_of_other wanted ends]
        trivial

theorem local_eat {kind : Token.Kind} (going : kind.isTerminator = false) :
    Local (eat kind) (eat kind) :=
  local_eatAny (List.forall_mem_singleton.mpr going)

theorem local_enter : Local enter enter := by
  intro state
  by_cases room : state.depth + 1 ≤ maxDepth
  · rw [LocalAt, LocalBefore, ObeysAt, enter_of_le room]
    refine ⟨[], state.eats_nothing _, rfl, fun shared excerpt _ cut => ?_⟩
    have deeper : excerpt.depth + 1 ≤ state.depth + 1 := Nat.succ_le_succ cut.depth
    exact ⟨_, enter_of_le (deeper.trans room), { cut with depth := deeper }⟩
  · rw [LocalAt, LocalBefore, ObeysAt, enter_of_lt (Nat.not_le.mp room)]
    trivial

theorem local_leave (levels : Nat) : Local (leave levels) (leave levels) := by
  intro state
  refine ⟨[], state.eats_nothing _, rfl, fun shared excerpt _ cut => ?_⟩
  exact ⟨_, rfl, { cut with depth := Nat.sub_le_sub_right cut.depth levels }⟩

theorem localBefore_nested {inner again : Parser α}
    (inside : ∀ state, LocalBefore allowed inner again state) (state : State) :
    LocalBefore allowed (nested inner) (nested again) state := by
  have leaving : ∀ value : α, Local (leave 1 >>= fun _ => pure value)
      (leave 1 >>= fun _ => pure value) := fun value state =>
    localAt_bind (local_leave 1 state) fun _ => local_pure value
  have within : ∀ state, LocalBefore allowed
      (inner >>= fun value => leave 1 >>= fun _ => pure value)
      (again >>= fun value => leave 1 >>= fun _ => pure value) state := by
    intro state
    apply localBefore_bind (inside state) fun value between => (leaving value between).localBefore
    intro value between
    exact ⟨[], between.eats_nothing _, fun _ isAllowed => isAllowed⟩
  exact localBefore_bind (local_enter state) (fun _ => within) fun _ between =>
    obeysAt_mono (within between) fun _ _ _ _ _ _ => trivial

theorem local_nested {inner again : Parser α} (inside : Local inner again) :
    Local (nested inner) (nested again) :=
  localBefore_nested inside

theorem local_spanFrom (start : Nat) : Local (spanFrom start) (spanFrom start) := by
  intro state
  refine ⟨[], state.eats_nothing state.depth, rfl, fun shared excerpt _ cut => ?_⟩
  refine ⟨excerpt, ?_, cut⟩
  rw [spanFrom, get_bind, cut.lastEnd]
  rfl

/-! ## Repeating a round -/

/-- A loop comes to the same on an excerpt, provided that it also stops there.
Every round has to eat something, for the excerpt gets shorter only that way. -/
theorem obeysAt_repeatWhile_local {test : State -> Bool} {body again : α -> Parser α}
    (round : ∀ value between, test between = true ->
      LocalBefore allowed (body value) (again value) between
        ∧ SolidAt (body value) between)
    (closed : ∀ more shared, allowed shared -> allowed (more ++ shared))
    (sees : ∀ shared between excerpt, between.Excerpt shared excerpt -> shared ≠ [] ->
      test excerpt = test between)
    (value : α) (state : State) :
    ObeysAt
      (fun eaten value' after => after.warnings = state.warnings
        ∧ ∀ shared excerpt, allowed shared -> state.Excerpt (eaten ++ shared) excerpt ->
            (∀ rest, after.Excerpt shared rest -> test rest = false) ->
            ∃ rest, repeatWhile test again value excerpt = .ok value' rest
              ∧ after.Excerpt shared rest)
      (repeatWhile test body value) state := by
  induction size : state.remaining using Nat.strongRecOn generalizing value state with
  | ind size ih =>
      rw [ObeysAt]
      cases goes : test state with
      | false =>
          rw [repeatWhile_of_stop goes]
          refine ⟨[], state.eats_nothing state.depth, rfl, fun shared excerpt _ cut stops => ?_⟩
          exact ⟨excerpt, repeatWhile_of_stop (stops excerpt cut), cut⟩
      | true =>
          have once := obeysAt_and (round value state goes).1 (round value state goes).2
          rw [ObeysAt] at once
          cases ran : body value state with
          | error fault after =>
              rw [repeatWhile_of_error goes ran]
              trivial
          | ok next between =>
              rw [ran] at once
              rcases once with ⟨eaten, eats, ⟨unwarned, onExcerpt⟩, solid⟩
              -- On an excerpt the round is the same and gets nearer to the end.
              have continues : ∀ shared excerpt, allowed shared ->
                  state.Excerpt (eaten ++ shared) excerpt ->
                  ∃ rest, between.Excerpt shared rest
                    ∧ repeatWhile test again value excerpt = repeatWhile test again next rest := by
                intro shared excerpt isAllowed cut
                rcases onExcerpt shared excerpt isAllowed cut with ⟨rest, ranAgain, cutRest⟩
                have some := List.append_ne_nil_of_left_ne_nil solid shared
                have goesAgain := (sees _ _ _ cut some).trans goes
                refine ⟨rest, cutRest, repeatWhile_of_ok goesAgain ranAgain ?_⟩
                have positive := List.length_pos_iff.mpr solid
                rw [cut.remaining_eq, cutRest.remaining_eq, List.length_append]
                omega
              by_cases nearer : between.remaining < state.remaining
              · rw [repeatWhile_of_ok goes ran nearer]
                rw [size] at nearer
                apply (ih between.remaining nearer next between rfl).mono
                · rintro last after ⟨more, eatsMore, unwarnedToo, onRest⟩
                  refine ⟨eaten ++ more, eats.append eatsMore, unwarnedToo.trans unwarned, ?_⟩
                  intro shared excerpt isAllowed cut stops
                  rw [List.append_assoc] at cut
                  rcases continues _ _ (closed more shared isAllowed) cut with
                    ⟨rest, cutRest, same⟩
                  rw [same]
                  exact onRest shared rest isAllowed cutRest stops
                · exact fun _ _ _ => trivial
              · have stopped : repeatWhile test body value state = .ok next between := by
                  rw [repeatWhile]
                  simp only [goes, ran, nearer, if_true, if_false]
                rw [stopped]
                refine ⟨eaten, eats, unwarned, fun shared excerpt isAllowed cut stops => ?_⟩
                rcases continues _ _ isAllowed cut with ⟨rest, cutRest, same⟩
                rw [same]
                exact ⟨rest, repeatWhile_of_stop (stops rest cutRest), cutRest⟩

/-- A loop that goes on only before tokens that go on stops where its test
fails. -/
theorem obeysAt_repeatWhile_halts {test : State -> Bool} {body : α -> Parser α}
    (round : ∀ value between, test between = true -> SolidAt (body value) between)
    (halts : ∀ between, between.lookahead.kind.isTerminator = true -> test between = false)
    (value : α) (state : State) :
    ObeysAt (fun _ _ after => test after = false) (repeatWhile test body value) state := by
  induction size : state.remaining using Nat.strongRecOn generalizing value state with
  | ind size ih =>
      rw [ObeysAt]
      cases goes : test state with
      | false =>
          rw [repeatWhile_of_stop goes]
          exact ⟨[], state.eats_nothing state.depth, goes⟩
      | true =>
          have once := round value state goes
          rw [SolidAt, ObeysAt] at once
          cases ran : body value state with
          | error fault after =>
              rw [repeatWhile_of_error goes ran]
              trivial
          | ok next between =>
              rw [ran] at once
              rcases once with ⟨eaten, eats, solid⟩
              by_cases nearer : between.remaining < state.remaining
              · rw [repeatWhile_of_ok goes ran nearer]
                rw [size] at nearer
                apply (ih between.remaining nearer next between rfl).mono
                · rintro last after ⟨more, eatsMore, stopped⟩
                  exact ⟨eaten ++ more, eats.append eatsMore, stopped⟩
                · exact fun _ _ _ => trivial
              · have stopped : repeatWhile test body value state = .ok next between := by
                  rw [repeatWhile]
                  simp only [goes, ran, nearer, if_true, if_false]
                rw [stopped]
                refine ⟨eaten, eats, halts between ?_⟩
                exact Bool.not_eq_false _ ▸ mt (eats.remaining_lt solid) nearer

/-- A loop that goes on only before tokens that go on is local if its rounds
are, and if they eat something. -/
theorem local_repeatWhile {test : State -> Bool} {body again : α -> Parser α}
    (round : ∀ value between, test between = true ->
      LocalAt (body value) (again value) between ∧ SolidAt (body value) between)
    (sees : ∀ shared between excerpt, between.Excerpt shared excerpt -> shared ≠ [] ->
      test excerpt = test between)
    (halts : ∀ between, between.lookahead.kind.isTerminator = true -> test between = false)
    (value : α) : Local (repeatWhile test body value) (repeatWhile test again value) := by
  intro state
  have loop := obeysAt_repeatWhile_local round (fun _ _ isAllowed => isAllowed) sees value state
  have stops := obeysAt_repeatWhile_halts (fun value between goes => (round value between goes).2)
    halts value state
  apply obeysAt_mono (obeysAt_and loop stops)
  rintro eaten last after ⟨⟨unwarned, onExcerpt⟩, stopped⟩
  refine ⟨unwarned, fun shared excerpt _ cut => onExcerpt shared excerpt trivial cut ?_⟩
  intro rest cutRest
  by_cases nothing : shared = []
  · subst nothing
    apply halts
    rw [cutRest.ends]
    rfl
  · rw [sees _ _ _ cutRest nothing]
    exact stopped

end Parser
end LineShell
