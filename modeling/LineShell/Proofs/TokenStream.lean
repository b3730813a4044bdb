import LineShell.Proofs.Tiling
import Mathlib.Logic.Function.Iterate

namespace LineShell
namespace Token
namespace Cursor

/-!
# One stream of tokens

A cursor answers three calls: to show the next token, to take it, and to take the
rest of the line.  However these are mixed, the tokens that are taken are those
that taking one token at a time gives, in the same order.  This sequence goes on
forever, since a cursor at the end of its line keeps finding this end, and one that
stands before a fault keeps finding the fault.

Every call takes some tokens one by one, possibly none, so what holds of taking one
token carries over to all sequences of calls.
-/

/-! ## Calls -/

inductive Call where
  | peek
  | next
  | rest
  deriving DecidableEq, Repr

/-- How a call came out: what it hands back, the tokens that were taken, and the
cursor after it.  The tokens that were taken before a fault are not handed back. -/
structure Called where
  answer : Except Fault (List Token)
  taken : List Token
  cursor : Cursor

def perform (cursor : Cursor) : Call -> Called
  | .peek => { answer := cursor.peek.map fun token => [token], taken := [], cursor }
  | .next =>
      match cursor.next with
      | .ok (token, after) => { answer := .ok [token], taken := [token], cursor := after }
      | .error fault => { answer := .error fault, taken := [], cursor }
  | .rest =>
      { answer := match cursor.read.fault with
          | some fault => .error fault
          | none => .ok cursor.read.tokens
        taken := cursor.read.tokens
        cursor := cursor.read.cursor }

/-- Answers calls one after the other.  The tokens that they take are put together. -/
def performAll (cursor : Cursor) : List Call -> List Token × Cursor
  | [] => ([], cursor)
  | call :: calls =>
      let called := cursor.perform call
      let others := called.cursor.performAll calls
      (called.taken ++ others.1, others.2)

/-! ## The stream -/

/-- The cursor after taking one token, which stays where it is before a fault. -/
def step (cursor : Cursor) : Cursor :=
  (cursor.perform .next).cursor

/-- What the calls for one token each find, the first of them at index zero. -/
def stream (cursor : Cursor) (index : Nat) : Except Fault Token :=
  (step^[index] cursor).next.map Prod.fst

/-- The stream has these tokens at its front. -/
def StartsWith (found : Nat -> Except Fault Token) (tokens : List Token) : Prop :=
  tokens.map Except.ok = (List.range tokens.length).map found

/-- What is found behind the tokens of a line of the given size: the fault that
ended them, or else the end of the line, which has no text there. -/
def beyond (size : Nat) : Option Fault -> Except Fault Token
  | some fault => .error fault
  | none => .ok { kind := .endOfLine, text := "", span := { start := size, stop := size } }

/-- What a call hands back is what the stream has next.  A fault stands behind the
tokens that were taken before it. -/
def Called.Sees (called : Called) (found : Nat -> Except Fault Token) : Prop :=
  match called.answer with
  | .ok tokens => StartsWith found tokens
  | .error fault => found called.taken.length = .error fault

theorem stream_succ (cursor : Cursor) (index : Nat) :
    stream cursor (index + 1) = stream cursor.step index := by
  rw [stream, stream, Function.iterate_succ_apply]

section Steps

variable {cursor after : Cursor} {token : Token}

theorem step_of_next (moves : cursor.next = .ok (token, after)) : cursor.step = after := by
  rw [step, perform, moves]

theorem next_of_ahead {kind : Kind} {length : Nat} (found : cursor.ahead = .ok (kind, length)) :
    cursor.next = .ok (cursor.token kind length, cursor.advance length) := by
  rw [next, found]
  rfl

theorem next_of_fault {fault : Fault} (failed : cursor.ahead = .error fault) :
    cursor.next = .error fault := by
  rw [next, failed]
  rfl

theorem advance_of_next (moves : cursor.next = .ok (token, after)) :
    ∃ length, after = cursor.advance length := by
  cases found : cursor.ahead with
  | error fault =>
      rw [next_of_fault found] at moves
      cases moves
  | ok next =>
      rw [next_of_ahead found] at moves
      cases moves
      exact ⟨next.2, rfl⟩

theorem peek_eq_next (cursor : Cursor) : cursor.peek = cursor.next.map Prod.fst := by
  rw [peek, next]
  cases cursor.ahead <;> rfl

theorem stream_zero (cursor : Cursor) : stream cursor 0 = cursor.peek :=
  (peek_eq_next cursor).symm

theorem stream_zero_of_next (moves : cursor.next = .ok (token, after)) :
    stream cursor 0 = .ok token := by
  rw [stream_zero, peek_eq_next, moves]
  rfl

end Steps

/-- Taking the given tokens one by one leads from one cursor to another. -/
inductive Takes : Cursor -> List Token -> Cursor -> Prop
  | done {cursor : Cursor} : Takes cursor [] cursor
  | next {cursor between after : Cursor} {token : Token} {tokens : List Token}
      (moves : cursor.next = .ok (token, between)) (others : Takes between tokens after) :
      Takes cursor (token :: tokens) after

section Taking

variable {cursor between after : Cursor} {tokens others : List Token}

theorem Takes.append (first : Takes cursor tokens between) (second : Takes between others after) :
    Takes cursor (tokens ++ others) after := by
  induction first with
  | done => exact second
  | next moves _ ih => exact .next moves (ih second)

theorem takes_read (cursor : Cursor) : Takes cursor cursor.read.tokens cursor.read.cursor := by
  induction cursor using read_induction with
  | atFault cursor fault failed =>
      rw [read_of_fault failed]
      exact .done
  | atEnd cursor length found =>
      rw [read_of_end found]
      exact .next (next_of_ahead found) .done
  | atToken cursor kind length found going ih =>
      rw [read_of_token found going]
      exact .next (next_of_ahead found) ih

/-- A call takes tokens one by one. -/
theorem takes_perform (cursor : Cursor) (call : Call) :
    Takes cursor (cursor.perform call).taken (cursor.perform call).cursor := by
  cases call with
  | peek => exact .done
  | next =>
      cases moves : cursor.next with
      | ok found =>
          rw [perform, moves]
          exact .next moves .done
      | error fault =>
          rw [perform, moves]
          exact .done
  | rest => exact takes_read cursor

theorem takes_performAll (cursor : Cursor) (calls : List Call) :
    Takes cursor (cursor.performAll calls).1 (cursor.performAll calls).2 := by
  induction calls generalizing cursor with
  | nil => exact .done
  | cons call calls ih => exact (takes_perform cursor call).append (ih _)

/-- The tokens that are taken are the first ones of the stream, and what is left of
the stream is the stream from there. -/
theorem Takes.stream_eq (takes : Takes cursor tokens after) :
    StartsWith (stream cursor) tokens
      ∧ ∀ index, stream cursor (tokens.length + index) = stream after index := by
  induction takes with
  | done => exact ⟨rfl, fun index => by rw [List.length_nil, Nat.zero_add]⟩
  | @next cursor between after token tokens moves _ ih =>
      -- Behind its first token the stream is that of the cursor behind this token.
      have shifted (index : Nat) : stream cursor (index + 1) = stream between index := by
        rw [stream_succ, step_of_next moves]
      constructor
      · unfold StartsWith
        rw [List.length_cons, List.range_succ_eq_map, List.map_cons, List.map_cons, List.map_map,
          ih.1, stream_zero_of_next moves]
        congr 1
        exact List.map_congr_left fun index _ => (shifted index).symm
      · intro index
        rw [List.length_cons, Nat.add_right_comm, shifted, ih.2]

theorem Takes.isAt {line : String} (takes : Takes cursor tokens after)
    (stands : cursor.IsAt line) : after.IsAt line := by
  induction takes with
  | done => exact stands
  | next moves _ ih =>
      rcases advance_of_next moves with ⟨length, rfl⟩
      exact ih (stands.advance length)

theorem Takes.offset_le (takes : Takes cursor tokens after) : cursor.offset ≤ after.offset := by
  induction takes with
  | done => exact Nat.le_refl _
  | @next cursor between after token tokens moves _ ih =>
      rcases advance_of_next moves with ⟨length, rfl⟩
      have forward : cursor.offset ≤ (cursor.advance length).offset :=
        Nat.le_add_right_of_le (Nat.le_add_right _ _)
      exact Nat.le_trans forward ih

end Taking

/-! ## Where reading stops -/

section Stopping

variable {cursor : Cursor}

/-- A cursor that a call for a token does not move finds the same forever. -/
theorem stream_of_fixed (fixed : cursor.step = cursor) (index : Nat) :
    stream cursor index = cursor.peek := by
  rw [stream, Function.iterate_fixed fixed, peek_eq_next]

theorem step_of_fault {fault : Fault} (failed : cursor.ahead = .error fault) :
    cursor.step = cursor := by
  rw [step, perform, next_of_fault failed]

theorem peek_of_ahead_error {fault : Fault} (failed : cursor.ahead = .error fault) :
    cursor.peek = .error fault := by
  rw [peek, failed]
  rfl

theorem ahead_of_read {fault : Fault} (failed : cursor.read.fault = some fault) :
    cursor.read.cursor.ahead = .error fault := by
  induction cursor using read_induction with
  | atFault cursor other stops =>
      rw [read_of_fault stops] at failed ⊢
      cases failed
      exact stops
  | atEnd cursor length found =>
      rw [read_of_end found] at failed
      cases failed
  | atToken cursor kind length found going ih =>
      rw [read_of_token found going] at failed ⊢
      exact ih failed

theorem next_of_nothing (nothing : cursor.rest = []) :
    cursor.next = .ok
      ({ kind := .endOfLine, text := "", span := { start := cursor.offset, stop := cursor.offset } },
        cursor) := by
  rcases cursor with ⟨rest, offset⟩
  subst nothing
  rfl

/-- Behind what is read from a cursor of a line, the stream does not change any more. -/
theorem IsAt.stream_read {line : String} (stands : cursor.IsAt line) (index : Nat) :
    stream cursor.read.cursor index = beyond line.utf8ByteSize cursor.read.fault := by
  cases failed : cursor.read.fault with
  | some fault =>
      have stops := ahead_of_read failed
      rw [stream_of_fixed (step_of_fault stops), peek_of_ahead_error stops]
      rfl
  | none =>
      have reached := (takes_read cursor).isAt stands
      have nothing := (stop_of_whole failed).1
      have size := reached.size_eq
      rw [nothing, Text.byteSize_nil, Nat.add_zero] at size
      -- The end of the line has no characters left, so taking it goes nowhere.
      have again := next_of_nothing nothing
      rw [stream_of_fixed (step_of_next again), peek_eq_next, again, size]
      rfl

end Stopping

/-! ## Every sequence of calls -/

theorem answer_peek (cursor : Cursor) :
    (cursor.perform .peek).answer = (cursor.perform .next).answer := by
  rw [perform, peek_eq_next, perform]
  cases cursor.next <;> rfl

theorem cursor_of_next_error {cursor : Cursor} {fault : Fault}
    (failed : (cursor.perform .next).answer = .error fault) :
    (cursor.perform .next).cursor = cursor := by
  rw [perform] at failed ⊢
  split at failed
  · cases failed
  · rfl

theorem fault_of_answer {cursor : Cursor} {fault : Fault}
    (failed : (cursor.perform .rest).answer = .error fault) : cursor.read.fault = some fault := by
  rw [perform] at failed
  split at failed
  · rename_i stops
    cases failed
    exact stops
  · cases failed

/-- Each call shows the stream from where the cursor stands. -/
theorem sees_perform (cursor : Cursor) (call : Call) :
    (cursor.perform call).Sees (stream cursor) := by
  have single {token : Token} (found : stream cursor 0 = .ok token) :
      StartsWith (stream cursor) [token] := by
    unfold StartsWith
    rw [List.map_singleton, ← found]
    rfl
  cases call with
  | peek =>
      cases found : cursor.peek with
      | ok token =>
          rw [Called.Sees, perform, found]
          exact single ((stream_zero cursor).trans found)
      | error fault =>
          rw [Called.Sees, perform, found]
          exact (stream_zero cursor).trans found
  | next =>
      cases moves : cursor.next with
      | ok found =>
          rw [Called.Sees, perform, moves]
          exact single (stream_zero_of_next moves)
      | error fault =>
          have failed : stream cursor 0 = .error fault := by
            rw [stream_zero, peek_eq_next, moves]
            rfl
          rw [Called.Sees, perform, moves]
          exact failed
  | rest =>
      rcases (takes_read cursor).stream_eq with ⟨front, behind⟩
      rw [Called.Sees, perform]
      cases failed : cursor.read.fault with
      | none => exact front
      | some fault =>
          have stops := ahead_of_read failed
          exact (behind 0).trans ((stream_zero _).trans (peek_of_ahead_error stops))

/-- Calls of all kinds, in any order, take the tokens that calls for one token each
find, and what is found from there is what these find further on.  The stream is that
of the tokens of the line and what lies beyond them.  Showing a token neither
moves the cursor nor differs from taking it; a fault leaves the cursor at the place
that it names; and the cursor goes forward only, up to the end of the line. -/
theorem performAll_stream (line : String) (calls : List Call) :
    let found := stream (start line)
    let reading := (start line).read
    let taken := ((start line).performAll calls).1
    let cursor := ((start line).performAll calls).2
    (StartsWith found taken ∧ ∀ index, stream cursor index = found (taken.length + index))
      ∧ (StartsWith found reading.tokens ∧ EndsProperly reading.tokens reading.fault
        ∧ ∀ index, found (reading.tokens.length + index)
            = beyond line.utf8ByteSize reading.fault)
      ∧ (∀ call, (cursor.perform call).Sees (stream cursor))
      ∧ ((cursor.perform .peek).cursor = cursor
        ∧ (cursor.perform .peek).answer = (cursor.perform .next).answer)
      ∧ (∀ fault, (cursor.perform .next).answer = .error fault ->
          (cursor.perform .next).cursor = cursor)
      ∧ (∀ fault, (cursor.perform .rest).answer = .error fault ->
          (∃ char, fault = .lexical char (cursor.perform .rest).cursor.offset)
            ∧ (cursor.perform .rest).cursor.peek = .error fault)
      ∧ ∀ call, (start line).offset ≤ cursor.offset
          ∧ cursor.offset ≤ (cursor.perform call).cursor.offset
          ∧ (cursor.perform call).cursor.offset ≤ line.utf8ByteSize := by
  intro found reading taken cursor
  have takes : Takes (start line) taken cursor := takes_performAll (start line) calls
  have stands : cursor.IsAt line := takes.isAt (isAt_start line)
  refine ⟨?_, ?_, sees_perform cursor, ⟨rfl, answer_peek cursor⟩, ?_, ?_, ?_⟩
  · rcases takes.stream_eq with ⟨front, behind⟩
    exact ⟨front, fun index => (behind index).symm⟩
  · rcases (takes_read (start line)).stream_eq with ⟨front, behind⟩
    refine ⟨front, read_endsProperly _, fun index => ?_⟩
    exact (behind index).trans ((isAt_start line).stream_read index)
  · exact fun fault failed => cursor_of_next_error failed
  · intro fault failed
    have stops := fault_of_answer failed
    rcases fault_of_read stops with ⟨first, _, _, named⟩
    exact ⟨⟨first, named⟩, peek_of_ahead_error (ahead_of_read stops)⟩
  · intro call
    have further := takes_perform cursor call
    refine ⟨takes.offset_le, further.offset_le, ?_⟩
    rw [(further.isAt stands).size_eq]
    exact Nat.le_add_right _ _

theorem performAll_stream_tab :
    let line := "a  b\tc"
    let cursor := ((start line).performAll [.peek, .next, .peek]).2
    let stopped := (cursor.perform .rest).cursor
    (cursor.perform .rest).answer = .error (.lexical '\t' 4)
      ∧ stopped.peek = .error (.lexical '\t' 4)
      ∧ (stopped.perform .next).answer = .error (.lexical '\t' 4)
      ∧ (stopped.perform .next).cursor = stopped := by
  intro line cursor stopped
  have failed : (cursor.perform .rest).answer = .error (.lexical '\t' 4) := by
    have stops : cursor.read.fault = some (.lexical '\t' 4) := by decide +kernel
    rw [perform, stops]
  rcases performAll_stream line [.peek, .next, .peek] with ⟨_, _, _, _, _, rest, _⟩
  rcases performAll_stream line [.peek, .next, .peek, .rest] with ⟨_, _, _, ⟨_, same⟩, next, _⟩
  have peeked : stopped.peek = .error (.lexical '\t' 4) := (rest _ failed).2
  have again : (stopped.perform .next).answer = .error (.lexical '\t' 4) := by
    refine same.symm.trans ?_
    change stopped.peek.map _ = _
    rw [peeked]
    rfl
  exact ⟨failed, peeked, again, next _ again⟩

end Cursor
end Token
end LineShell
