import LineShell.Proofs.Parsing
import LineShell.Proofs.Relocation
import Mathlib.Logic.Function.Basic

namespace LineShell
namespace Parser

/-!
# Two lines that are read side by side

The same statement may stand on two lines, in different places and with
different text behind it.  Whatever the parser does with the statement on one
line it does on the other: the two results are equal once positions are
forgotten, or moved to where they belong.

A pairing says how two lines correspond: to what the positions of either line
are moved, and how both go on behind the part that they share.  The relation
that is kept, token by token, says where the two parsers stand.
-/

open Steps

/-- Two lists of tokens, with the faults behind them, that end a statement in
the same way. -/
inductive EndsAlike (place place' : Nat -> Nat) (fault? fault'? : Option Fault) :
    List Token -> List Token -> Prop
  | terminator {last last' : Token} {more more' : List Token}
      (ends : last.kind.isTerminator = true) (ends' : last'.kind.isTerminator = true)
      (aligned : place last.span.start = place' last'.span.start) :
      EndsAlike place place' fault? fault'? (last :: more) (last' :: more')
  | fault {fault fault' : Fault} (known : fault? = some fault) (known' : fault'? = some fault')
      (alike : fault.relocate place = fault'.relocate place') :
      EndsAlike place place' fault? fault'? [] []

/-- Where something is read: the number of levels that are entered, and a bound
for the number of tokens behind the lookahead. -/
structure Frame where
  depth : Nat
  size : Nat

/-- The frame some levels deeper. -/
def Frame.deeper (frame : Frame) (levels : Nat) : Frame :=
  { frame with depth := frame.depth + levels }

/-- How two lines correspond: where the positions of each are moved to, and what
stands behind the part that they share. -/
structure Pairing where
  place : Nat -> Nat
  place' : Nat -> Nat
  tail : List Token
  tail' : List Token
  fault? : Option Fault
  fault'? : Option Fault
  ends : EndsAlike place place' fault? fault'? tail tail'

namespace Pairing

variable {α β γ δ : Type} {pairing : Pairing}

/-- Two values are the same up to the positions in them. -/
def Alike (pairing : Pairing) (move : (Nat -> Nat) -> α -> α) (value value' : α) : Prop :=
  move pairing.place value = move pairing.place' value'

/-- No two positions of a line are moved to the same place. -/
def Exact (pairing : Pairing) : Prop :=
  Function.Injective pairing.place ∧ Function.Injective pairing.place'

/-- A token that both lines have.  The one command that looks at the gaps
between tokens needs positions that are told apart. -/
structure Shared (pairing : Pairing) (token token' : Token) : Prop where
  alike : pairing.Alike Token.relocate token token'
  exact : token.text = "cd" -> pairing.Exact

/-- Tokens that both lines have, up to the tails of the two. -/
inductive Stream (pairing : Pairing) : List Token -> List Token -> Prop
  | tail {tokens tokens' : List Token} (same : tokens = pairing.tail)
      (same' : tokens' = pairing.tail') : Stream pairing tokens tokens'
  | token {token token' : Token} {tokens tokens' : List Token}
      (shared : pairing.Shared token token') (going : token.kind ≠ .endOfLine)
      (behind : Stream pairing tokens tokens') :
      Stream pairing (token :: tokens) (token' :: tokens')

/-- The two parsers stand at the same token, on the same level, and no further
from the end than the frame says. -/
structure At (pairing : Pairing) (frame : Frame) (state state' : State) : Prop where
  stream : pairing.Stream state.tokens state'.tokens
  fault_eq : state.fault? = pairing.fault?
  fault_eq' : state'.fault? = pairing.fault'?
  depth_eq : state.depth = frame.depth
  depth_eq' : state'.depth = frame.depth
  near : state.remaining ≤ frame.size
  lastEnd : pairing.place state.lastEnd = pairing.place' state'.lastEnd

theorem Shared.kind_eq {token token' : Token} (shared : pairing.Shared token token') :
    token.kind = token'.kind :=
  congrArg (fun moved => moved.kind) shared.alike

theorem Shared.text_eq {token token' : Token} (shared : pairing.Shared token token') :
    token.text = token'.text :=
  congrArg (fun moved => moved.text) shared.alike

theorem Shared.start {token token' : Token} (shared : pairing.Shared token token') :
    pairing.place token.span.start = pairing.place' token'.span.start :=
  congrArg (fun moved => moved.span.start) shared.alike

theorem Shared.stop {token token' : Token} (shared : pairing.Shared token token') :
    pairing.place token.span.stop = pairing.place' token'.span.stop :=
  congrArg (fun moved => moved.span.stop) shared.alike

/-- One line is ahead of the other by as much as its tail is longer. -/
theorem Stream.length {tokens tokens' : List Token} (stream : pairing.Stream tokens tokens') :
    tokens.length + pairing.tail'.length = tokens'.length + pairing.tail.length := by
  induction stream with
  | tail same same' =>
      rw [same, same', Nat.add_comm]
  | token shared going behind ih =>
      simp only [List.length_cons]
      omega

/-- Two streams both go on, or both end at faults that are alike. -/
theorem Stream.shape {tokens tokens' : List Token} (stream : pairing.Stream tokens tokens') :
    (∃ next more next' more', tokens = next :: more ∧ tokens' = next' :: more')
      ∨ (tokens = [] ∧ tokens' = [] ∧ ∃ fault fault', pairing.fault? = some fault
        ∧ pairing.fault'? = some fault' ∧ pairing.Alike Fault.relocate fault fault') := by
  cases stream with
  | tail same same' =>
      subst same same'
      have ends := pairing.ends
      generalize pairing.tail = tail, pairing.tail' = tail' at ends ⊢
      cases ends with
      | terminator => exact Or.inl ⟨_, _, _, _, rfl, rfl⟩
      | fault known known' alike => exact Or.inr ⟨rfl, rfl, _, _, known, known', alike⟩
  | token => exact Or.inl ⟨_, _, _, _, rfl, rfl⟩

/-- The first tokens of two streams are shared, or both end a statement at the
same place. -/
theorem Stream.first {next next' : Token} {more more' : List Token}
    (stream : pairing.Stream (next :: more) (next' :: more')) :
    (pairing.Shared next next' ∧ next.kind ≠ .endOfLine ∧ pairing.Stream more more')
      ∨ (next.kind.isTerminator = true ∧ next'.kind.isTerminator = true
        ∧ pairing.place next.span.start = pairing.place' next'.span.start
        ∧ next :: more = pairing.tail ∧ next' :: more' = pairing.tail') := by
  cases stream with
  | tail same same' =>
      have ends := pairing.ends
      rw [← same, ← same'] at ends
      cases ends with
      | terminator ends ends' aligned => exact Or.inr ⟨ends, ends', aligned, same, same'⟩
  | token shared going behind => exact Or.inl ⟨shared, going, behind⟩

theorem Stream.start {next next' : Token} {more more' : List Token}
    (stream : pairing.Stream (next :: more) (next' :: more')) :
    pairing.place next.span.start = pairing.place' next'.span.start := by
  rcases stream.first with ⟨shared, -⟩ | ⟨-, -, aligned, -⟩
  · exact shared.start
  · exact aligned

theorem At.loosen {frame : Frame} {size : Nat} {state state' : State}
    (stands : pairing.At { frame with size } state state') (room : size ≤ frame.size) :
    pairing.At frame state state' :=
  { stands with near := Nat.le_trans stands.near room }

/-! ## The lookahead -/

section Lookahead

variable {frame : Frame} {state state' : State}

theorem At.start (stands : pairing.At frame state state') :
    pairing.place state.lookahead.span.start = pairing.place' state'.lookahead.span.start :=
  stands.stream.start

/-- Before a token that ends no statement, both lines have that token. -/
theorem At.shared (stands : pairing.At frame state state')
    (going : state.lookahead.kind.isTerminator = false) :
    pairing.Shared state.lookahead state'.lookahead
      ∧ pairing.Stream state.upcoming state'.upcoming := by
  rcases stands.stream.first with ⟨shared, -, behind⟩ | ⟨ends, -⟩
  · exact ⟨shared, behind⟩
  · rw [going] at ends
    cases ends

theorem At.isTerminator_eq (stands : pairing.At frame state state') :
    state.lookahead.kind.isTerminator = state'.lookahead.kind.isTerminator := by
  rcases stands.stream.first with ⟨shared, -⟩ | ⟨ends, ends', -⟩
  · rw [shared.kind_eq]
  · rw [ends, ends']

/-- What is asked of the kind and the text of a token, and is not true of one
that ends a statement, has the same answer on both lines. -/
theorem At.test_eq (stands : pairing.At frame state state') (test : Token.Kind -> String -> Bool)
    (plain : ∀ kind text, kind.isTerminator = true -> test kind text = false) :
    test state.lookahead.kind state.lookahead.text
      = test state'.lookahead.kind state'.lookahead.text := by
  rcases stands.stream.first with ⟨shared, -⟩ | ⟨ends, ends', -⟩
  · rw [shared.kind_eq, shared.text_eq]
  · rw [plain _ _ ends, plain _ _ ends']

theorem At.kind_iff (stands : pairing.At frame state state') {kind : Token.Kind}
    (plain : kind.isTerminator = false) :
    state.lookahead.kind = kind ↔ state'.lookahead.kind = kind := by
  rw [← decide_eq_decide]
  apply stands.test_eq fun other _ => decide (other = kind)
  intro other text ends
  rw [decide_eq_false_iff_not]
  rintro rfl
  rw [plain] at ends
  cases ends

theorem At.isSymbol_eq (stands : pairing.At frame state state') {kind : Token.Kind}
    (plain : kind.isTerminator = false) (symbol : String) :
    state.lookahead.isSymbol kind symbol = state'.lookahead.isSymbol kind symbol := by
  apply stands.test_eq fun other text => decide (other = kind) && decide (text = symbol)
  intro other text ends
  have different : other ≠ kind := by
    rintro rfl
    rw [plain] at ends
    cases ends
  rw [decide_eq_false different, Bool.false_and]

end Lookahead

/-! ## Steps of the two parsers -/

/-- Two results are both values that are related as asked, with the parsers
standing side by side, or are both faults that are alike. -/
def Matches (pairing : Pairing) (frame : Frame) (onValues : α -> β -> Prop) :
    EStateM.Result Fault State α -> EStateM.Result Fault State β -> Prop :=
  Related (fun value after value' after' => onValues value value' ∧ pairing.At frame after after')
    (fun fault _ fault' _ => pairing.Alike Fault.relocate fault fault')

/-- Two parsers that stand side by side have results that match. -/
def Mirrors (pairing : Pairing) (onValues : α -> β -> Prop) (step : Parser α)
    (step' : Parser β) : Prop :=
  ∀ frame state state', pairing.At frame state state' ->
    pairing.Matches frame onValues (step state) (step' state')

section Steps

variable {onValues : α -> β -> Prop} {onNext : γ -> δ -> Prop} {frame frame' : Frame}
  {state state' : State}

theorem matches_bind {step : Parser α} {step' : Parser β} {next : α -> Parser γ}
    {next' : β -> Parser δ} (first : pairing.Matches frame onValues (step state) (step' state'))
    (second : ∀ value value' after after', onValues value value' -> pairing.At frame after after' ->
      pairing.Matches frame' onNext (next value after) (next' value' after')) :
    pairing.Matches frame' onNext ((step >>= next) state) ((step' >>= next') state') :=
  Related.bind first fun value after value' after' met =>
    second value value' after after' met.1 met.2

theorem matches_discard {step : Parser α} {step' : Parser β} {next : Unit -> Parser γ}
    {next' : Unit -> Parser δ} (first : pairing.Matches frame onValues (step state) (step' state'))
    (second : ∀ after after', pairing.At frame after after' ->
      pairing.Matches frame' onNext (next () after) (next' () after')) :
    pairing.Matches frame' onNext ((discard step >>= next) state)
      ((discard step' >>= next') state') := by
  rw [discard_bind, discard_bind]
  exact matches_bind first fun _ _ after after' _ there => second after after' there

theorem matches_pure {value : α} {value' : β} (met : onValues value value')
    (stands : pairing.At frame state state') :
    pairing.Matches frame onValues ((pure value : Parser α) state)
      ((pure value' : Parser β) state') :=
  ⟨met, stands⟩

/-- Both parsers fail at the token before them. -/
theorem matches_reject (misfit : Misfit) (stands : pairing.At frame state state') :
    pairing.Matches frame' onValues (reject misfit state) (reject misfit state') :=
  congrArg (Fault.grammatical misfit) stands.start

theorem matches_throw {fault fault' : Fault} (alike : pairing.Alike Fault.relocate fault fault') :
    pairing.Matches frame' onValues ((throw fault : Parser α) state)
      ((throw fault' : Parser β) state') :=
  alike

theorem mirrors_bind {step : Parser α} {step' : Parser β} {next : α -> Parser γ}
    {next' : β -> Parser δ} (first : pairing.Mirrors onValues step step')
    (second : ∀ value value', onValues value value' ->
      pairing.Mirrors onNext (next value) (next' value')) :
    pairing.Mirrors onNext (step >>= next) (step' >>= next') := by
  intro frame state state' stands
  apply matches_bind (first frame state state' stands)
  intro value value' after after' met there
  exact second value value' met frame after after' there

theorem mirrors_discard {step : Parser α} {step' : Parser β} {next : Unit -> Parser γ}
    {next' : Unit -> Parser δ} (first : pairing.Mirrors onValues step step')
    (second : pairing.Mirrors onNext (next ()) (next' ())) :
    pairing.Mirrors onNext (discard step >>= next) (discard step' >>= next') := by
  intro frame state state' stands
  apply matches_discard (first frame state state' stands)
  intro after after' there
  exact second frame after after' there

theorem mirrors_pure {value : α} {value' : β} (met : onValues value value') :
    pairing.Mirrors onValues (pure value) (pure value') := by
  intro frame state state' stands
  exact matches_pure met stands

theorem matches_advance (stands : pairing.At frame state state')
    (shared : pairing.Shared state.lookahead state'.lookahead)
    (behind : pairing.Stream state.upcoming state'.upcoming) :
    pairing.Matches frame pairing.Shared (advance state) (advance state') := by
  rcases behind.shape with ⟨next, more, next', more', shape, shape'⟩
    | ⟨last, last', fault, fault', known, known', alike⟩
  · rw [advance_of_upcoming shape, advance_of_upcoming shape']
    rw [shape, shape'] at behind
    have nearer : more.length ≤ frame.size := by
      have near := stands.near
      rw [State.remaining, shape, List.length_cons] at near
      omega
    exact ⟨shared, { stands with stream := behind, near := nearer, lastEnd := shared.stop }⟩
  · rw [advance_of_fault last (stands.fault_eq.trans known),
      advance_of_fault last' (stands.fault_eq'.trans known')]
    exact alike

/-- Both parsers eat a token that ends no statement. -/
theorem matches_advance_of_going (stands : pairing.At frame state state')
    (going : state.lookahead.kind.isTerminator = false) :
    pairing.Matches frame pairing.Shared (advance state) (advance state') := by
  rcases stands.shared going with ⟨shared, behind⟩
  exact matches_advance stands shared behind

theorem mirrors_eatAny {kinds : List Token.Kind}
    (plain : ∀ kind ∈ kinds, kind.isTerminator = false) :
    pairing.Mirrors pairing.Shared (eatAny kinds) (eatAny kinds) := by
  intro frame state state' stands
  by_cases ends : state.lookahead.kind.isTerminator = true
  · have ends' := ends
    rw [stands.isTerminator_eq] at ends'
    have unwanted : ∀ kind : Token.Kind, kind.isTerminator = true -> kind ∉ kinds := by
      intro kind ends member
      rw [plain kind member] at ends
      cases ends
    rw [eatAny_of_terminator (unwanted _ ends) ends, eatAny_of_terminator (unwanted _ ends') ends']
    exact matches_reject _ stands
  · rw [Bool.not_eq_true] at ends
    rcases stands.shared ends with ⟨shared, behind⟩
    by_cases wanted : state.lookahead.kind ∈ kinds
    · have wanted' := wanted
      rw [shared.kind_eq] at wanted'
      rw [eatAny_of_mem wanted, eatAny_of_mem wanted']
      exact matches_advance stands shared behind
    · have unwanted' := wanted
      have goes' := ends
      rw [shared.kind_eq] at unwanted' goes'
      rw [eatAny_of_other wanted ends, eatAny_of_other unwanted' goes', shared.kind_eq,
        shared.text_eq]
      exact matches_reject _ stands

theorem mirrors_eat {kind : Token.Kind} (plain : kind.isTerminator = false) :
    pairing.Mirrors pairing.Shared (eat kind) (eat kind) := by
  apply mirrors_eatAny
  intro other member
  rw [List.mem_singleton.mp member]
  exact plain

theorem matches_enter (stands : pairing.At frame state state') :
    pairing.Matches (frame.deeper 1) (fun _ _ => True) (enter state) (enter state') := by
  by_cases room : frame.depth + 1 ≤ maxDepth
  · rw [enter_of_le (by rw [stands.depth_eq]; exact room),
      enter_of_le (by rw [stands.depth_eq']; exact room)]
    exact ⟨trivial, { stands with
      depth_eq := congrArg (· + 1) stands.depth_eq
      depth_eq' := congrArg (· + 1) stands.depth_eq' }⟩
  · have full := Nat.not_le.mp room
    rw [enter_of_lt (by rw [stands.depth_eq]; exact full),
      enter_of_lt (by rw [stands.depth_eq']; exact full)]
    exact congrArg (Fault.grammatical .tooDeep) stands.start

theorem matches_leave {levels : Nat} (stands : pairing.At (frame.deeper levels) state state') :
    pairing.Matches frame (fun _ _ => True) (leave levels state) (leave levels state') := by
  have back : state.depth - levels = frame.depth := by
    rw [stands.depth_eq, Frame.deeper, Nat.add_sub_cancel]
  have back' : state'.depth - levels = frame.depth := by
    rw [stands.depth_eq', Frame.deeper, Nat.add_sub_cancel]
  exact ⟨trivial, { stands with depth_eq := back, depth_eq' := back' }⟩

theorem mirrors_nested {inner : Parser α} {inner' : Parser β}
    (mirrored : pairing.Mirrors onValues inner inner') :
    pairing.Mirrors onValues (nested inner) (nested inner') := by
  intro frame state state' stands
  apply matches_bind (matches_enter stands)
  intro _ _ entered entered' _ deeper
  apply matches_bind (mirrored _ _ _ deeper)
  intro value value' after after' met there
  apply matches_bind (matches_leave there)
  intro _ _ left left' _ back
  exact matches_pure met back

end Steps

/-! ## Loops -/

/-- Two loops correspond if their rounds do, as long as both are repeated, and
both are given up if a round gets no nearer to the end. -/
theorem related_repeatWhile {test test' : State -> Bool} {body : α -> Parser α}
    {body' : β -> Parser β} {kept : α -> State -> β -> State -> Prop}
    {onFaults : Fault -> State -> Fault -> State -> Prop}
    (tests : ∀ value state value' state', kept value state value' state' ->
      test state = test' state')
    (paces : ∀ value state value' state', kept value state value' state' ->
      ∀ next after next' after', kept next after next' after' ->
        (after.remaining < state.remaining ↔ after'.remaining < state'.remaining))
    (rounds : ∀ value state value' state', kept value state value' state' -> test state = true ->
      Related kept onFaults (body value state) (body' value' state'))
    (value : α) (state : State) (value' : β) (state' : State)
    (holds : kept value state value' state') :
    Related kept onFaults (repeatWhile test body value state)
      (repeatWhile test' body' value' state') := by
  induction size : state.remaining using Nat.strongRecOn
    generalizing value state value' state' with
  | ind size ih =>
      have sameTest := tests value state value' state' holds
      by_cases goes : test state = true
      · have goes' : test' state' = true := by
          rw [← sameTest]
          exact goes
        have round := rounds value state value' state' holds goes
        rw [repeatWhile.eq_def, repeatWhile.eq_def test']
        simp only [goes, goes', if_true]
        cases ran : body value state <;> cases ran' : body' value' state' <;>
          rw [ran, ran'] at round
        · rename_i next after next' after'
          have samePace := paces value state value' state' holds next after next' after' round
          by_cases nearer : after.remaining < state.remaining
          · simp only [nearer, samePace.mp nearer, if_true]
            exact ih after.remaining (by omega) next after next' after' round rfl
          · have notNearer' : ¬after'.remaining < state'.remaining :=
              fun nearer' => nearer (samePace.mpr nearer')
            simp only [nearer, notNearer', if_false]
            exact round
        · cases round
        · cases round
        · exact round
      · rw [Bool.not_eq_true] at goes
        have stops' : test' state' = false := by
          rw [← sameTest]
          exact goes
        rw [repeatWhile_of_stop goes, repeatWhile_of_stop stops']
        exact holds

/-- Two parsers that stand side by side get nearer to the ends of their lines by
the same number of tokens. -/
theorem At.pace {frame frame' : Frame} {state state' after after' : State}
    (stands : pairing.At frame state state') (there : pairing.At frame' after after') :
    after.remaining < state.remaining ↔ after'.remaining < state'.remaining := by
  have before := stands.stream.length
  have behind := there.stream.length
  simp only [State.tokens, List.length_cons] at before behind
  simp only [State.remaining]
  omega

/-- Loops that stay on their level are mirrored if their rounds are. -/
theorem mirrors_repeatWhile {test : State -> Bool} {body : α -> Parser α} {body' : β -> Parser β}
    {onValues : α -> β -> Prop}
    (tests : ∀ frame state state', pairing.At frame state state' -> test state = test state')
    (rounds : ∀ value value', onValues value value' ->
      ∀ frame state state', pairing.At frame state state' -> test state = true ->
        pairing.Matches frame onValues (body value state) (body' value' state'))
    {value : α} {value' : β} (met : onValues value value') :
    pairing.Mirrors onValues (repeatWhile test body value) (repeatWhile test body' value') := by
  intro frame state state' stands
  apply related_repeatWhile
  · intro value after value' after' holds
    exact tests frame after after' holds.2
  · intro value after value' after' holds next later next' later' holdsLater
    exact holds.2.pace holdsLater.2
  · intro value after value' after' holds goes
    exact rounds value value' holds.1 frame after after' holds.2 goes
  · exact ⟨met, stands⟩

end Pairing
end Parser
end LineShell
