import LineShell.Proofs.Plans

namespace LineShell

/-!
# Runs of sound plans

What the judgement on plans says of their runs.  Each statement is shown along
the rules for runs, and says what a run does from what its parts do.
-/

open Steps

namespace Parser
namespace Plan

variable {α β : Type}

/-! ## What runs do -/

section Running

variable {mild : Bool} {body : Plan Expr} {plan : Plan α} {state : State} {moments : List Moment}
  {result : EStateM.Result Fault State α} {least rank level : Nat} {here : State -> Prop}
  {post : α -> Nat} {eats : Bool}

/-- Primary expressions are read soundly: with no level open, and without
calling for another one before a level is entered. -/
def IsBody (mild : Bool) (body : Plan Expr) : Prop :=
  body.Sound mild 1 (fun _ => True) Site.primary.rank 0 (fun _ => 0) true

/-- A run goes on in the line, and eats something if its plan is said to. -/
theorem Runs.passes (isBody : IsBody mild body) (runs : Runs body plan state moments result)
    (sound : plan.Sound mild least here rank level post eats) (isHere : here state)
    (proper : state.IsProper) :
    Ensures
      (fun _ after => state.Passes mild after ∧ (eats = true -> after.remaining < state.remaining))
      (fun _ after => state.Passes mild after) result := by
  induction runs generalizing least here rank level eats with
  | give =>
      obtain ⟨_, rfl⟩ := sound
      exact ⟨.refl _, fun impossible => by cases impossible⟩
  | step =>
      apply (sound.1 _ isHere proper).mono
      · exact fun value after steady => ⟨steady.1.1, steady.2⟩
      · exact fun fault after steady => steady.1
  | look _ ih =>
      exact ih (sound _ isHere) rfl proper
  | @onward _ _ _ _ state value between _ _ _ _ _ ihFirst ihNext =>
      obtain ⟨mid, eatsFirst, soundFirst, soundNext⟩ := sound
      obtain ⟨passes, nearer⟩ := ihFirst soundFirst isHere proper
      apply (ihNext (soundNext value) trivial (passes.isProper proper)).mono
      · rintro result after ⟨passesMore, nearerMore⟩
        refine ⟨passes.trans passesMore, fun isEating => ?_⟩
        cases eatsFirst with
        | true => exact Nat.lt_of_le_of_lt passesMore.remaining_le (nearer rfl)
        | false => exact Nat.lt_of_lt_of_le (nearerMore isEating) passes.remaining_le
      · exact fun fault after passesMore => passes.trans passesMore
  | failed _ ih =>
      obtain ⟨mid, eatsFirst, soundFirst, _⟩ := sound
      exact ih soundFirst isHere proper
  | @enter state =>
      obtain ⟨_, rfl⟩ := sound
      by_cases room : state.depth + 1 ≤ maxDepth
      · rw [enter_of_le room]
        exact ⟨.of_same rfl rfl rfl, fun impossible => by cases impossible⟩
      · rw [enter_of_lt (Nat.not_le.mp room)]
        exact .of_same rfl rfl rfl
  | leave =>
      obtain ⟨_, _, rfl⟩ := sound
      exact ⟨.of_same rfl rfl rfl, fun impossible => by cases impossible⟩
  | stop =>
      obtain ⟨_, _, rfl, _⟩ := sound
      exact ⟨.refl _, fun impossible => by cases impossible⟩
  | round goes _ _ ihRound ihMore =>
      obtain ⟨passes, nearer⟩ := ihRound (sound.rounds _) goes proper
      apply (ihMore (sound.again _) trivial (passes.isProper proper)).mono
      · rintro value after ⟨passesMore, _⟩
        exact ⟨passes.trans passesMore, fun _ =>
          Nat.lt_of_le_of_lt passesMore.remaining_le (nearer rfl)⟩
      · exact fun fault after passesMore => passes.trans passesMore
  | broken goes _ ih =>
      have passes := ih (sound.rounds _) goes proper
      exact passes
  | mark _ ih =>
      apply (ih sound.2 isHere proper).mono
      · exact fun value after done => ⟨done.1, fun _ => done.2 rfl⟩
      · exact fun fault after done => done
  | call _ ih =>
      apply (ih isBody trivial proper).mono
      · exact fun value after done => ⟨done.1, fun _ => done.2 rfl⟩
      · exact fun fault after done => done

/-! ## Levels along a run -/

def entries (moments : List Moment) : Nat :=
  moments.countP fun moment => moment.event = .entered

def departures (moments : List Moment) : Nat :=
  moments.foldr (fun moment levels => moment.event.departing + levels) 0

theorem departures_append (moments more : List Moment) :
    departures (moments ++ more) = departures moments + departures more := by
  induction moments with
  | nil => exact (Nat.zero_add _).symm
  | cons moment moments ih =>
      exact (congrArg (moment.event.departing + ·) ih).trans (Nat.add_assoc _ _ _).symm

/-- The levels along a run, counted from a base.  Those that are entered and
left are all that changes their number.  What is left was entered, and nothing
below the base is.  A run that succeeds has entered no level too many, and ends
with as many as are said. -/
structure Counted (base : Nat) (post : α -> Nat) (state : State) (moments : List Moment)
    (result : EStateM.Result Fault State α) : Prop where
  ended :
    Ensures
      (fun value after => after.depth = base + post value
        ∧ ∀ deeper, ⟨.entered, deeper⟩ ∈ moments -> deeper.depth ≤ maxDepth)
      (fun _ after => base ≤ after.depth) result
  total :
    Ensures (fun _ after => after.depth + departures moments = state.depth + entries moments)
      (fun _ after => after.depth + departures moments = state.depth + entries moments) result
  leaving : ∀ levels before, ⟨.leaving levels, before⟩ ∈ moments -> base + levels ≤ before.depth

namespace Counted

variable {base : Nat}

/-- Nothing happens to the levels. -/
theorem of_nil
    (ended : Ensures (fun value after => after.depth = base + post value)
      (fun _ after => base ≤ after.depth) result)
    (same : Ensures (fun _ after => after.depth = state.depth)
      (fun _ after => after.depth = state.depth) result) :
    Counted base post state [] result where
  ended := ended.mono (fun _ _ depth => ⟨depth, fun _ member => absurd member List.not_mem_nil⟩)
    fun _ _ above => above
  total := same
  leaving := fun _ _ member => absurd member List.not_mem_nil

/-- Passing a place leaves the levels alone. -/
theorem passing {site : Site} {here : State} (counted : Counted base post state moments result) :
    Counted base post state (⟨.passing site, here⟩ :: moments) result where
  ended := by
    apply counted.ended.mono
    · rintro value after ⟨depth, entered⟩
      refine ⟨depth, fun deeper member => ?_⟩
      exact entered deeper (List.mem_of_ne_of_mem (by rintro ⟨⟩) member)
    · exact fun _ _ above => above
  total := by
    have entered : entries (⟨.passing site, here⟩ :: moments) = entries moments :=
      List.countP_cons_of_neg Bool.false_ne_true
    have left : departures (⟨.passing site, here⟩ :: moments) = departures moments :=
      Nat.zero_add _
    rw [entered, left]
    exact counted.total
  leaving := fun levels before member =>
    counted.leaving levels before (List.mem_of_ne_of_mem (by rintro ⟨⟩) member)

theorem append {mid : β -> Nat} {value : β} {between : State} {more : List Moment}
    (first : Counted base mid state moments (.ok value between))
    (second : Counted base post between more result) :
    Counted base post state (moments ++ more) result where
  ended := by
    apply second.ended.mono
    · rintro value after ⟨depth, entered⟩
      refine ⟨depth, fun deeper member => ?_⟩
      rcases List.mem_append.mp member with early | late
      · exact first.ended.2 deeper early
      · exact entered deeper late
    · exact fun _ _ above => above
  total := by
    have entered : entries (moments ++ more) = entries moments + entries more :=
      List.countP_append
    have early : between.depth + departures moments = state.depth + entries moments := first.total
    rw [entered, departures_append]
    exact second.total.mono (fun _ _ late => by omega) fun _ _ late => by omega
  leaving := fun levels before member => by
    rcases List.mem_append.mp member with early | late
    · exact first.leaving levels before early
    · exact second.leaving levels before late

end Counted

theorem Runs.counted {base : Nat} (isBody : IsBody mild body)
    (runs : Runs body plan state moments result)
    (sound : plan.Sound mild least here rank level post eats) (isHere : here state)
    (proper : state.IsProper) (depth : state.depth = base + level) :
    Counted base post state moments result := by
  induction runs generalizing least here rank level eats base with
  | give =>
      exact .of_nil (depth.trans (congrArg (base + ·) sound.1.symm)) rfl
  | step =>
      have steady := sound.1 _ isHere proper
      apply Counted.of_nil
      · apply steady.mono
        · exact fun value after done => (done.1.2.trans depth).trans (sound.2 value ▸ rfl)
        · exact fun fault after done => (done.2.trans depth).symm ▸ Nat.le_add_right base level
      · exact steady.mono (fun _ _ done => done.1.2) fun _ _ done => done.2
  | look _ ih =>
      exact ih (sound _ isHere) rfl proper depth
  | onward first _ ihFirst ihNext =>
      obtain ⟨mid, eatsFirst, soundFirst, soundNext⟩ := sound
      have properNext := (first.passes isBody soundFirst isHere proper).1.isProper proper
      have counted := ihFirst soundFirst isHere proper depth
      exact counted.append (ihNext (soundNext _) trivial properNext counted.ended.1)
  | failed _ ih =>
      obtain ⟨mid, eatsFirst, soundFirst, _⟩ := sound
      obtain ⟨above, total, leaving⟩ := ih soundFirst isHere proper depth
      exact ⟨above, total, leaving⟩
  | @enter state =>
      have above : base + (level + 1) = state.depth + 1 := by omega
      by_cases room : state.depth + 1 ≤ maxDepth
      · rw [enter_of_le room]
        refine ⟨⟨?_, fun deeper member => ?_⟩, rfl, fun _ _ member => ?_⟩
        · rw [sound.1]
          exact above.symm
        · cases List.mem_singleton.mp member
          exact room
        · cases List.mem_singleton.mp member
      · rw [enter_of_lt (Nat.not_le.mp room)]
        refine ⟨?_, rfl, fun _ _ member => ?_⟩
        · exact above ▸ Nat.le_add_right base _
        · cases List.mem_singleton.mp member
  | @leave levels state =>
      obtain ⟨within, left, _⟩ := sound
      have covered : base + levels ≤ state.depth := depth ▸ Nat.add_le_add_left within base
      refine ⟨⟨?_, fun _ member => ?_⟩, ?_, fun _ _ member => ?_⟩
      · rw [left]
        exact (congrArg (· - levels) depth).trans (Nat.add_sub_assoc within base)
      · cases List.mem_singleton.mp member
      · exact Nat.sub_add_cancel ((Nat.le_add_left levels base).trans covered)
      · cases List.mem_singleton.mp member
        exact covered
  | stop =>
      exact .of_nil (depth.trans (congrArg (base + ·) sound.2.1.symm)) rfl
  | round goes first _ ihRound ihMore =>
      have properNext := (first.passes isBody (sound.rounds _) goes proper).1.isProper proper
      have counted := ihRound (sound.rounds _) goes proper (sound.2.1 ▸ depth)
      exact counted.passing.append (ihMore (sound.again _) trivial properNext counted.ended.1)
  | broken goes _ ih =>
      exact (ih (sound.rounds _) goes proper (sound.2.1 ▸ depth)).passing
  | mark _ ih =>
      exact (ih sound.2 isHere proper depth).passing
  | call _ ih =>
      apply Counted.passing
      -- The call counts from the levels that are open where it is made.
      have counted := ih isBody trivial proper (depth.trans (Nat.add_zero _).symm)
      refine ⟨?_, counted.total, fun levels before member => ?_⟩
      · apply counted.ended.mono
        · rintro value after ⟨depthAfter, entered⟩
          rw [sound.2.2 value]
          exact ⟨depthAfter, entered⟩
        · exact fun _ _ above => (Nat.le_add_right base level).trans above
      · have above := counted.leaving levels before member
        omega

/-! ## Places along a run -/

/-- The states in which a place is passed, in order. -/
def visits (site : Site) (moments : List Moment) : List State :=
  moments.filterMap fun moment =>
    if moment.event = .passing site then some moment.state else none

/-- Each time a place is passed, fewer tokens are left than the time before.
Where nothing is eaten yet, only a place below the rank is passed, and a run
that succeeds has eaten something since. -/
structure Descends (site : Site) (rank : Nat) (state : State) (moments : List Moment)
    (result : EStateM.Result Fault State α) : Prop where
  within : ∀ visited ∈ visits site moments, visited.remaining ≤ state.remaining
    ∧ (visited.remaining = state.remaining -> site.rank < rank)
  ended :
    Ensures (fun _ after => ∀ visited ∈ visits site moments, after.remaining < visited.remaining)
      (fun _ _ => True) result
  pairwise : (visits site moments).Pairwise fun earlier later => later.remaining < earlier.remaining

namespace Descends

variable {site : Site}

theorem of_unvisited (unvisited : visits site moments = []) :
    Descends site rank state moments result := by
  refine ⟨?_, ?_, ?_⟩ <;> rw [unvisited]
  · exact fun _ member => absurd member List.not_mem_nil
  · cases result with
    | ok value after => exact fun _ member => absurd member List.not_mem_nil
    | error fault after => trivial
  · exact .nil

theorem append {value : β} {between : State} {more : List Moment} {rankNext : Nat}
    (first : Descends site rank state moments (.ok value between))
    (second : Descends site rankNext between more result)
    (onward : between.remaining ≤ state.remaining)
    (further : Ensures (fun _ after => after.remaining ≤ between.remaining) (fun _ _ => True)
      result)
    (ranked : between.remaining = state.remaining -> rankNext = rank) :
    Descends site rank state (moments ++ more) result := by
  have split : visits site (moments ++ more) = visits site moments ++ visits site more :=
    List.filterMap_append
  refine ⟨?_, ?_, ?_⟩ <;> rw [split]
  · intro visited member
    rcases List.mem_append.mp member with early | late
    · exact first.within visited early
    · obtain ⟨bound, below⟩ := second.within visited late
      refine ⟨bound.trans onward, fun same => ?_⟩
      have still : between.remaining = state.remaining := by omega
      exact ranked still ▸ below (same.trans still.symm)
  · cases result with
    | error fault after => trivial
    | ok result after =>
        intro visited member
        rcases List.mem_append.mp member with early | late
        · exact Nat.lt_of_le_of_lt further (first.ended visited early)
        · exact second.ended visited late
  · apply List.pairwise_append.mpr
    refine ⟨first.pairwise, second.pairwise, fun earlier early later late => ?_⟩
    exact Nat.lt_of_le_of_lt (second.within later late).1 (first.ended earlier early)

/-- A place is passed, and before a token is eaten behind it only places of a
lower rank are. -/
theorem passing {passed : Site} (descends : Descends site passed.rank state moments result)
    (ranked : passed.rank < rank)
    (nearer : Ensures (fun _ after => after.remaining < state.remaining) (fun _ _ => True) result) :
    Descends site rank state (⟨.passing passed, state⟩ :: moments) result := by
  by_cases same : passed = site
  · subst same
    have shape : visits passed (⟨.passing passed, state⟩ :: moments)
        = state :: visits passed moments := List.filterMap_cons_some (if_pos rfl)
    -- Behind the place itself, it is passed only when a token has been eaten.
    have below : ∀ visited ∈ visits passed moments, visited.remaining < state.remaining := by
      intro visited member
      obtain ⟨bound, lower⟩ := descends.within visited member
      have moved : visited.remaining ≠ state.remaining := fun still =>
        Nat.lt_irrefl _ (lower still)
      omega
    refine ⟨?_, ?_, ?_⟩ <;> rw [shape]
    · intro visited member
      rcases List.mem_cons.mp member with rfl | later
      · exact ⟨Nat.le_refl _, fun _ => ranked⟩
      · exact ⟨Nat.le_of_lt (below visited later), fun _ => ranked⟩
    · cases result with
      | error fault after => trivial
      | ok value after =>
          intro visited member
          rcases List.mem_cons.mp member with rfl | later
          · exact nearer
          · exact descends.ended visited later
    · exact List.pairwise_cons.mpr ⟨below, descends.pairwise⟩
  · have other : ¬ Event.passing passed = .passing site := fun alike => same (by cases alike; rfl)
    have shape : visits site (⟨.passing passed, state⟩ :: moments) = visits site moments :=
      List.filterMap_cons_none (if_neg other)
    refine ⟨?_, ?_, ?_⟩ <;> rw [shape]
    · intro visited member
      obtain ⟨bound, lower⟩ := descends.within visited member
      exact ⟨bound, fun still => (lower still).trans ranked⟩
    · exact descends.ended
    · exact descends.pairwise

/-- States that get nearer and nearer to the end are no more than the tokens that
are left. -/
theorem length_le_of_nearing {states : List State} {bound : Nat}
    (nearing : states.Pairwise fun earlier later => later.remaining < earlier.remaining)
    (below : ∀ visited ∈ states, visited.remaining < bound) : states.length ≤ bound := by
  induction states generalizing bound with
  | nil => exact Nat.zero_le bound
  | cons first others ih =>
      obtain ⟨later, rest⟩ := List.pairwise_cons.mp nearing
      have fewer := ih rest later
      have head := below first List.mem_cons_self
      exact Nat.succ_le_of_lt (Nat.lt_of_le_of_lt fewer head)

/-- A place is passed at most once for every token that is left. -/
theorem length_le (descends : Descends site rank state moments result) :
    (visits site moments).length ≤ state.tokens.length := by
  apply length_le_of_nearing descends.pairwise
  intro visited member
  exact Nat.lt_succ_of_le (descends.within visited member).1

end Descends

theorem Runs.descends (isBody : IsBody mild body) (runs : Runs body plan state moments result)
    (site : Site) (sound : plan.Sound mild least here rank level post eats) (isHere : here state)
    (proper : state.IsProper) : Descends site rank state moments result := by
  induction runs generalizing least here rank level eats with
  | give => exact .of_unvisited rfl
  | step => exact .of_unvisited rfl
  | look _ ih =>
      exact ih (sound _ isHere) rfl proper
  | onward first second ihFirst ihNext =>
      obtain ⟨mid, eatsFirst, soundFirst, soundNext⟩ := sound
      obtain ⟨passes, nearer⟩ := first.passes isBody soundFirst isHere proper
      have properNext := passes.isProper proper
      have further := second.passes isBody (soundNext _) trivial properNext
      apply (ihFirst soundFirst isHere proper).append (ihNext (soundNext _) trivial properNext)
        passes.remaining_le
      · exact further.mono (fun _ _ done => done.1.remaining_le) fun _ _ _ => trivial
      · intro still
        cases eatsFirst with
        | true => exact absurd still (Nat.ne_of_lt (nearer rfl))
        | false => rfl
  | failed _ ih =>
      obtain ⟨mid, eatsFirst, soundFirst, _⟩ := sound
      obtain ⟨within, _, pairwise⟩ := ih soundFirst isHere proper
      exact ⟨within, trivial, pairwise⟩
  | enter => exact .of_unvisited rfl
  | leave => exact .of_unvisited rfl
  | stop => exact .of_unvisited rfl
  | round goes first second ihRound ihMore =>
      obtain ⟨passes, nearer⟩ := first.passes isBody (sound.rounds _) goes proper
      have properNext := passes.isProper proper
      have further := second.passes isBody (sound.again _) trivial properNext
      apply ((ihRound (sound.rounds _) goes proper).passing sound.1 (nearer rfl)).append
        (ihMore (sound.again _) trivial properNext) passes.remaining_le
      · exact further.mono (fun _ _ done => done.1.remaining_le) fun _ _ _ => trivial
      · exact fun _ => rfl
  | broken goes _ ih =>
      exact (ih (sound.rounds _) goes proper).passing sound.1 trivial
  | mark inner ih =>
      apply (ih sound.2 isHere proper).passing sound.1
      exact (inner.passes isBody sound.2 isHere proper).mono (fun _ _ done => done.2 rfl)
        fun _ _ _ => trivial
  | call inner ih =>
      apply (ih isBody trivial proper).passing sound.1
      exact (inner.passes isBody isBody trivial proper).mono (fun _ _ done => done.2 rfl)
        fun _ _ _ => trivial

/-! ## Every sound plan runs -/

/-- The tokens that are left bound how long a run goes on: a place is passed
again only behind a token, and without one only on the way down the ranks. -/
theorem exists_runs (isBody : IsBody mild body) (size : Nat) (rank : Nat) :
    ∀ {α : Type} (plan : Plan α) {least level : Nat} {here : State -> Prop} {post : α -> Nat}
      {eats : Bool} {state : State}, plan.Sound mild least here rank level post eats ->
      here state -> state.IsProper -> state.remaining = size ->
      ∃ moments result, Runs body plan state moments result := by
  induction size using Nat.strongRecOn generalizing rank with
  | ind size fewer =>
      induction rank using Nat.strongRecOn with
      | ind rank lower =>
          intro α plan
          induction plan with
          | give value => exact fun _ _ _ _ => ⟨_, _, .give⟩
          | step parser => exact fun _ _ _ _ => ⟨_, _, .step⟩
          | look next ih =>
              intro least level here post eats state sound isHere proper left
              obtain ⟨moments, result, runs⟩ := ih state (sound state isHere) rfl proper left
              exact ⟨moments, result, .look runs⟩
          | andThen first next ihFirst ihNext =>
              intro least level here post eats state sound isHere proper left
              obtain ⟨mid, eatsFirst, soundFirst, soundNext⟩ := sound
              obtain ⟨moments, result, runs⟩ := ihFirst soundFirst isHere proper left
              have passed := runs.passes isBody soundFirst isHere proper
              cases result with
              | error fault after => exact ⟨_, _, .failed runs⟩
              | ok value between =>
                  obtain ⟨passes, nearer⟩ := passed
                  have properNext := passes.isProper proper
                  have onward := left ▸ passes.remaining_le
                  suffices more : ∃ moments result, Runs body (next value) between moments result by
                    obtain ⟨others, last, runsNext⟩ := more
                    exact ⟨_, _, .onward runs runsNext⟩
                  rcases Nat.lt_or_eq_of_le onward with closer | still
                  · exact fewer _ closer _ (next value) (soundNext value) trivial properNext rfl
                  · cases eatsFirst with
                    | true => exact absurd still (Nat.ne_of_lt (left ▸ nearer rfl))
                    | false => exact ihNext value (soundNext value) trivial properNext still
          | enter => exact fun _ _ _ _ => ⟨_, _, .enter⟩
          | leave levels => exact fun _ _ _ _ => ⟨_, _, .leave⟩
          | loop site test each value _ =>
              intro least level here post eats state sound isHere proper left
              cases goes : test state with
              | false => exact ⟨_, _, .stop goes⟩
              | true =>
                  obtain ⟨moments, result, runs⟩ :=
                    lower site.rank sound.1 (each value) (sound.rounds value) goes proper left
                  have passed := runs.passes isBody (sound.rounds value) goes proper
                  cases result with
                  | error fault after => exact ⟨_, _, .broken goes runs⟩
                  | ok following between =>
                      obtain ⟨passes, nearer⟩ := passed
                      obtain ⟨others, last, runsMore⟩ :=
                        fewer _ (left ▸ nearer rfl) rank (loop site test each following)
                          (sound.again following) trivial (passes.isProper proper) rfl
                      exact ⟨_, _, .round goes runs runsMore⟩
          | mark site inner _ =>
              intro least level here post eats state sound isHere proper left
              obtain ⟨moments, result, runs⟩ :=
                lower site.rank sound.1 inner sound.2 isHere proper left
              exact ⟨_, _, .mark runs⟩
          | call =>
              intro least level here post eats state sound isHere proper left
              obtain ⟨moments, result, runs⟩ :=
                lower Site.primary.rank sound.1 body isBody trivial proper left
              exact ⟨_, _, .call runs⟩

/-- A run comes to what the parser comes to. -/
theorem Runs.parser_eq {inner : Parser Expr} (isBody : IsBody mild body)
    (fixed : ∀ state, state.IsProper -> inner state = body.parser inner state)
    (runs : Runs body plan state moments result)
    (sound : plan.Sound mild least here rank level post eats) (isHere : here state)
    (proper : state.IsProper) : plan.parser inner state = result := by
  induction runs generalizing least here rank level eats with
  | give => rfl
  | step => rfl
  | look _ ih =>
      exact ih (sound _ isHere) rfl proper
  | onward first _ ihFirst ihNext =>
      obtain ⟨mid, eatsFirst, soundFirst, soundNext⟩ := sound
      have properNext := (first.passes isBody soundFirst isHere proper).1.isProper proper
      rw [parser_andThen, bind_of_ok (ihFirst soundFirst isHere proper)]
      exact ihNext (soundNext _) trivial properNext
  | failed _ ih =>
      obtain ⟨mid, eatsFirst, soundFirst, _⟩ := sound
      exact bind_of_error (ih soundFirst isHere proper) _
  | enter => rfl
  | leave => rfl
  | stop stops => exact repeatWhile_of_stop stops
  | round goes first _ ihRound ihMore =>
      obtain ⟨passes, nearer⟩ := first.passes isBody (sound.rounds _) goes proper
      rw [parser_loop, repeatWhile_of_ok goes (ihRound (sound.rounds _) goes proper) (nearer rfl)]
      exact ihMore (sound.again _) trivial (passes.isProper proper)
  | broken goes _ ih =>
      exact repeatWhile_of_error goes (ih (sound.rounds _) goes proper)
  | mark _ ih =>
      exact ih sound.2 isHere proper
  | call _ ih =>
      rw [parser_call, fixed _ proper]
      exact ih isBody trivial proper

end Running

end Plan
end Parser
end LineShell
