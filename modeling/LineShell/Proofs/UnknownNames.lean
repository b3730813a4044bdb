import LineShell.Proofs.Slices

namespace LineShell

/-!
# Names that nothing answers to

A line that begins with a word is a call if the word is the name of a command.
Otherwise it is a write if the tokens behind the word say so, and else the word
is reported as unknown.  Both a call and a write may fail further on, and then
also with a name that is unknown, but not at the place of the first word.

That a fault points behind the place where reading began is not shown parser by
parser.  What is left of a line is read in the same way if it stands further to
the left, and moving it back to its place moves its faults along.
-/

open Steps

theorem Builtin.find?_of_mem {builtin : Builtin} (member : builtin ∈ Builtin.all) :
    Builtin.find? builtin.name = some builtin := by
  have every : ∀ builtin ∈ Builtin.all, Builtin.find? builtin.name = some builtin := by decide
  exact every builtin member

theorem Builtin.find?_eq_none {name : String} (free : name ∉ Builtin.names) :
    Builtin.find? name = none := by
  rw [Builtin.find?, List.find?_eq_none]
  intro builtin member same
  exact free (of_decide_eq_true same ▸ List.mem_map_of_mem member)

/-- A fault does not point before the given place. -/
def Fault.IsBehind (place : Nat) (fault : Fault) : Prop :=
  ∀ offset, fault.offset? = some offset -> place ≤ offset

theorem Fault.isBehind_relocate (place : Nat) (fault : Fault) :
    (fault.relocate (· + place)).IsBehind place := by
  intro offset points
  cases fault with
  | execution => cases points
  | _ =>
      cases points
      exact Nat.le_add_left place _

namespace Parser

/-! ## Reading further to the left -/

/-- What is left of a line could also stand further to the left, by as much as
the place says. -/
def State.IsMoved (place : Nat) (state : State) : Prop :=
  ∃ (pairing : Pairing) (frame : Frame) (other : State), pairing.Closed
    ∧ pairing.place = (· + place) ∧ pairing.place' = id ∧ pairing.At frame other state

/-- What is read is as asked, and neither what is left nor a fault is before the
place. -/
def StaysBehind {α : Type} (place : Nat) (asked : α -> Prop) :
    EStateM.Result Fault State α -> Prop :=
  Ensures (fun value after => asked value ∧ after.IsMoved place)
    (fun fault _ => fault.IsBehind place)

section Moving

variable {α β : Type} {place : Nat} {state : State}

theorem StaysBehind.bind {asked : α -> Prop} {askedNext : β -> Prop} {step : Parser α}
    {next : α -> Parser β} (first : StaysBehind place asked (step state))
    (second : ∀ value after, after.IsMoved place ->
      StaysBehind place askedNext (next value after)) :
    StaysBehind place askedNext ((step >>= next) state) :=
  Ensures.bind first fun value after holds => second value after holds.2

theorem isBehind_of_alike {pairing : Pairing} (shift : pairing.place = (· + place))
    (still : pairing.place' = id) {fault fault' : Fault}
    (alike : pairing.Alike Fault.relocate fault fault') : fault'.IsBehind place := by
  rw [Pairing.fault_of_alike still alike, shift]
  exact Fault.isBehind_relocate place fault

/-- A step that does the same on two lines stays behind the place. -/
theorem State.IsMoved.step {step : Parser α} {onValues : Pairing -> α -> α -> Prop}
    (moved : state.IsMoved place)
    (alike : ∀ (pairing : Pairing) (frame : Frame) (other : State), pairing.Exact ->
      pairing.At frame other state ->
      pairing.Matches frame (onValues pairing) (step other) (step state)) :
    StaysBehind place (fun _ => True) (step state) := by
  rcases moved with ⟨pairing, frame, other, closed, shift, still, stands⟩
  have exact : pairing.Exact := by
    rw [Pairing.Exact, shift, still]
    exact ⟨fun _ _ => Nat.add_right_cancel, Function.injective_id⟩
  apply (Related.second (alike pairing frame other exact stands)).mono
  · rintro _ after ⟨_, otherAfter, _, there⟩
    exact ⟨trivial, pairing, frame, otherAfter, closed, shift, still, there⟩
  · rintro _ _ ⟨_, _, alike⟩
    exact isBehind_of_alike shift still alike

theorem State.IsMoved.step_of_mirrors {step : Parser α} {onValues : Pairing -> α -> α -> Prop}
    (moved : state.IsMoved place)
    (mirrors : ∀ pairing : Pairing, pairing.Exact ->
      pairing.Mirrors (onValues pairing) step step) :
    StaysBehind place (fun _ => True) (step state) :=
  moved.step fun pairing frame other exact => mirrors pairing exact frame other state

theorem State.IsMoved.advance (moved : state.IsMoved place)
    (going : state.lookahead.kind.isTerminator = false) :
    StaysBehind place (fun _ => True) (Parser.advance state) :=
  moved.step fun _ _ _ _ stands =>
    Pairing.matches_advance_of_going stands (stands.isTerminator_eq.trans going)

theorem State.IsMoved.behind {token next : Token} {more : List Token}
    (moved : state.IsMoved place) (tokens : state.tokens = token :: next :: more)
    (going : token.kind.isTerminator = false) :
    (state.behind next more token.span.stop).IsMoved place := by
  have ahead : state.lookahead = token := (List.cons.inj tokens).1
  have eaten := moved.advance (ahead ▸ going)
  rw [advance_of_tokens tokens] at eaten
  exact eaten.2

theorem State.IsMoved.lineAfter (moved : state.IsMoved place) (commands : List Command) :
    Ensures (fun _ _ => True) (fun fault _ => fault.IsBehind place)
      (Parser.lineAfter commands state) := by
  rcases moved with ⟨pairing, frame, other, closed, shift, still, stands⟩
  -- The commands that were read before need not be moved: only one line has them.
  have continues : pairing.Continues commands [] commands := by
    rw [Pairing.Continues, still, Command.map_relocate_id]
    rfl
  apply (Related.second (Pairing.related_lineAfter closed continues stands)).mono
  · exact fun _ _ _ => trivial
  · rintro _ _ ⟨_, _, alike⟩
    exact isBehind_of_alike shift still alike

/-- If the first statement does not fail before a place, the line does not. -/
theorem ensures_line {asked : Command -> Prop}
    (stated : StaysBehind place asked (statement state)) :
    Ensures (fun commands _ => ∃ first more, commands = first :: more ∧ asked first)
      (fun fault _ => fault.IsBehind place) (line state) := by
  cases ran : line state with
  | ok commands after =>
      rcases head_of_line ran with ⟨first, between, more, begun, rfl⟩
      rw [begun] at stated
      exact ⟨first, more, rfl, stated.1⟩
  | error fault after =>
      have ends : ∀ pairing : Pairing, pairing.Exact ->
          pairing.Mirrors (fun _ _ => True) expectTerminator expectTerminator :=
        fun _ _ => Pairing.mirrors_expectTerminator
      have behind : Ensures (fun _ _ => True) (fun fault _ => fault.IsBehind place)
          (line state) := by
        rw [line_eq]
        apply Ensures.bind stated
        intro first between holds
        apply Ensures.bind (holds.2.step_of_mirrors ends)
        intro _ further holdsFurther
        exact holdsFurther.2.lineAfter [first]
      rw [ran] at behind
      exact behind

end Moving

/-- What stands behind the first token of a line could stand further to the
left, by as much as the token ends. -/
theorem isMoved_behind {line : String} {state : State} {first next : Token} {others : List Token}
    (shape : (Token.Cursor.start line).read.tokens = first :: next :: others)
    (going : first.kind ≠ .endOfLine)
    (fault : state.fault? = (Token.Cursor.start line).read.fault) :
    first.span.start < first.span.stop
      ∧ (state.behind next others first.span.stop).IsMoved first.span.stop := by
  rcases Token.Cursor.next_of_read shape going with ⟨kind, length, found, isToken, rfl, rest⟩
  let cursor := Token.Cursor.start line
  have solid : 0 < Text.byteSize (cursor.rest.take length) :=
    Text.byteSize_pos (Token.isNext_of_scan? (Token.Cursor.scan?_of_ahead found isToken)).nonempty
  have further : (cursor.advance length).read.fault = state.fault? := by
    rw [fault, Token.Cursor.read_of_token found isToken]
  -- The rest of the line, as if its first token were all that is before it.
  let left : Token.Cursor :=
    { rest := (cursor.advance length).rest
      offset := Token.run (· = ' ') (cursor.rest.drop length) }
  have right : left.moved (cursor.offset + Text.byteSize (cursor.rest.take length))
      = cursor.advance length := by
    rw [Token.Cursor.moved, Nat.add_comm]
    rfl
  rcases Pairing.exists_moved left (cursor.offset + Text.byteSize (cursor.rest.take length)) with
    ⟨pairing, closed, place, still, fault, fault', stream⟩
  rw [right] at fault' stream
  rw [rest] at stream
  refine ⟨Nat.lt_add_of_pos_right solid, pairing, ?_⟩
  rcases stream.shape with ⟨nextLeft, moreLeft, _, _, shapeLeft, _⟩ | ⟨_, none, _⟩
  · rw [shapeLeft] at stream
    refine ⟨{ depth := state.depth, size := moreLeft.length },
      { state with lookahead := nextLeft, upcoming := moreLeft, lastEnd := 0
                   fault? := left.read.fault }, closed, place, still, ?_⟩
    exact
      { stream, fault_eq := fault, fault_eq' := further.symm.trans fault', depth_eq := rfl
        depth_eq' := rfl, near := Nat.le_refl _
        lastEnd := by
          rw [place, still]
          exact Nat.zero_add _ }
  · cases none

/-! ## What begins a write -/

/-- The kinds of the operators between two operands. -/
def binaryKinds : List Token.Kind :=
  [.additive, .multiplicative, .bitwise]

/-- Tokens that say, behind a name, that a variable of that name is written. -/
inductive BeginsWrite : List Token -> Prop
  | value {sign : Token} {more : List Token} (isEquals : sign.kind = .equals) :
      BeginsWrite (sign :: more)
  | step {sign ending : Token} {more : List Token} (steps : sign.isStep = true)
      (ends : ending.kind.isTerminator = true) : BeginsWrite (sign :: ending :: more)
  | combination {sign equals : Token} {more : List Token} (joins : sign.kind ∈ binaryKinds)
      (isEquals : equals.kind = .equals) : BeginsWrite (sign :: equals :: more)

section Writes

variable {state : State} {sign next : Token} {more : List Token}

/-- Every operator that can be read joins two operands in some way. -/
theorem exists_operator {cursor : Token.Cursor} (member : sign ∈ cursor.read.tokens)
    (joins : sign.kind ∈ binaryKinds) :
    ∃ operator : BinaryOperator, sign.text = operator.symbol := by
  have listed : ∀ kind ∈ binaryKinds, kind ∉ Token.openKinds ∧ kind ≠ .endOfLine := by decide
  rcases listed sign.kind joins with ⟨isListed, going⟩
  rcases Token.Cursor.isNext_of_mem_read member going with ⟨_, isNext⟩
  rcases (Token.mem_pattern_of_listed isListed).mp isNext.mem_pattern with
    ⟨entry, isSymbol, kind, text⟩
  have every : ∀ entry ∈ Token.symbols, entry.2 ∈ binaryKinds ->
      ∃ operator ∈ BinaryOperator.all, entry.1 = operator.symbol := by decide
  rcases every entry isSymbol (kind ▸ joins) with ⟨operator, _, symbol⟩
  exact ⟨operator, (String.toList_injective text).trans symbol⟩

theorem unaryOperator_of_step (steps : sign.isStep = true)
    (tokens : state.tokens = sign :: next :: more) :
    ∃ operator, unaryOperator state = .ok operator (state.behind next more sign.span.stop) := by
  have ahead : state.lookahead = sign := (List.cons.inj tokens).1
  have isUnary : state.lookahead.kind = .unary := ahead ▸ kind_of_isStep steps
  have eaten : eat .unary state = .ok sign (state.behind next more sign.span.stop) := by
    rw [eat, eatAny_of_mem (List.mem_singleton.mpr isUnary)]
    exact advance_of_tokens tokens
  obtain ⟨operator, symbol⟩ : ∃ operator : UnaryOperator, sign.text = operator.symbol := by
    simp only [Token.isStep, Token.isSymbol, Bool.or_eq_true, Bool.and_eq_true,
      decide_eq_true_eq] at steps
    rcases steps with ⟨_, text⟩ | ⟨_, text⟩
    · exact ⟨.increment, text⟩
    · exact ⟨.decrement, text⟩
  refine ⟨operator, ?_⟩
  rw [unaryOperator, bind_of_ok eaten, symbol]
  simp only [UnaryOperator.ofSymbol?_symbol]
  rfl

theorem binaryOperator_of_symbol {operator : BinaryOperator} (symbol : sign.text = operator.symbol)
    (tokens : state.tokens = sign :: next :: more) :
    binaryOperator state = .ok operator (state.behind next more sign.span.stop) := by
  rw [binaryOperator, bind_of_ok (advance_of_tokens tokens), symbol]
  simp only [BinaryOperator.ofSymbol?_symbol]
  rfl

theorem assignment_of_binary (name : Token) (joins : state.lookahead.kind ∈ binaryKinds) :
    assignment name state = combination name state := by
  simp only [binaryKinds, List.mem_cons, List.not_mem_nil, or_false] at joins
  rcases joins with kind | kind | kind <;> simp only [assignment, get_bind, kind] <;> rfl

/-- Behind a token that is not the end of the line stands another one. -/
theorem exists_next {tokens : List Token}
    (proper : Token.Cursor.EndsProperly (sign :: tokens) none) (going : sign.kind ≠ .endOfLine) :
    ∃ next more, tokens = next :: more := by
  rcases proper with ⟨before, last, shape, ending, _⟩
  apply List.exists_cons_of_ne_nil
  rintro rfl
  cases before with
  | nil =>
      rw [(List.cons.inj shape).1] at going
      exact going ending
  | cons first others =>
      exact absurd (List.cons.inj shape).2.symm
        (List.append_ne_nil_of_right_ne_nil _ (List.cons_ne_nil _ _))

/-- A name is unknown if the tokens behind it do not say that it is written. -/
theorem assignment_of_other (name : Token)
    (known : state.lookahead.kind ∈ binaryKinds ->
      ∃ operator : BinaryOperator, state.lookahead.text = operator.symbol)
    (proper : Token.Cursor.EndsProperly state.tokens none)
    (other : ¬BeginsWrite state.tokens) :
    ∃ after, assignment name state
      = .error (.unknownCommand name.text name.span.start) after := by
  have split : ∀ going : state.lookahead.kind ≠ .endOfLine,
      ∃ next more, state.tokens = state.lookahead :: next :: more := by
    intro going
    rcases exists_next proper going with ⟨next, more, behind⟩
    exact ⟨next, more, congrArg (state.lookahead :: ·) behind⟩
  by_cases joins : state.lookahead.kind ∈ binaryKinds
  · have going : state.lookahead.kind ≠ .endOfLine := by
      intro ending
      rw [ending] at joins
      exact absurd joins (by decide)
    rcases split going with ⟨next, more, tokens⟩
    rcases known joins with ⟨operator, symbol⟩
    rw [tokens] at other
    have notEquals : next.kind ≠ .equals := fun isEquals => other (.combination joins isEquals)
    refine ⟨state.behind next more state.lookahead.span.stop, ?_⟩
    rw [assignment_of_binary name joins, combination,
      bind_of_ok (binaryOperator_of_symbol symbol tokens), get_bind]
    exact congrFun (if_neg notEquals) _
  · simp only [binaryKinds, List.mem_cons, List.not_mem_nil, or_false, not_or] at joins
    have notEquals : state.lookahead.kind ≠ .equals := fun isEquals => other (.value isEquals)
    by_cases steps : state.lookahead.isStep = true
    · have isUnary := kind_of_isStep steps
      rcases split (by rw [isUnary]; exact Token.Kind.noConfusion) with ⟨next, more, tokens⟩
      rcases unaryOperator_of_step steps tokens with ⟨operator, ran⟩
      rw [tokens] at other
      have goes : ¬next.kind.isTerminator = true := fun ends => other (.step steps ends)
      refine ⟨state.behind next more state.lookahead.span.stop, ?_⟩
      simp only [assignment, get_bind, isUnary, steps, if_true]
      rw [bind_of_ok ran, get_bind]
      exact congrFun (if_neg goes) _
    · refine ⟨state, ?_⟩
      simp only [assignment, get_bind]
      cases kind : state.lookahead.kind with
      | equals => exact absurd kind notEquals
      | unary => exact congrFun (if_neg steps) state
      | additive => exact absurd kind joins.1
      | multiplicative => exact absurd kind joins.2.1
      | bitwise => exact absurd kind joins.2.2
      | _ => rfl

end Writes

/-! ## Calls and writes -/

section Statements

variable {state : State} {place : Nat} (moved : state.IsMoved place) (name : Token)
include moved

theorem staysBehind_commandAfter (builtin : Builtin) :
    StaysBehind place
      (fun command => command.name = name.text ∧ command.action = builtin.action)
      (commandAfter expression builtin name state) := by
  have reads : ∀ pairing : Pairing, pairing.Exact ->
      pairing.Mirrors (pairing.Alike Argument.relocateAll)
        (nested (arguments expression builtin.action))
        (nested (arguments expression builtin.action)) := fun _ exact =>
    Pairing.mirrors_nested
      (Pairing.mirrors_arguments Pairing.readsAlike_expression builtin.action fun _ => exact)
  apply (moved.step_of_mirrors reads).bind
  intro parameters after there
  exact ⟨⟨rfl, rfl⟩, there⟩

/-- A command that writes a variable. -/
def IsWriteOf (name : Token) (command : Command) : Prop :=
  command.name = name.text ∧ (command.action = .assign ∨ command.action = .evaluate)

theorem staysBehind_assign (combine : Expr -> Expr) :
    StaysBehind place (IsWriteOf name)
      ((expression >>= fun value => assign name (combine value)) state) := by
  have reads : ∀ pairing : Pairing, pairing.Exact -> pairing.ReadsAlike expression :=
    fun _ _ => Pairing.readsAlike_expression
  apply (moved.step_of_mirrors reads).bind
  intro value after there
  exact ⟨⟨rfl, Or.inl rfl⟩, there⟩

/-- A write that is begun does not fail before the place where it is begun. -/
theorem staysBehind_assignment
    (known : state.lookahead.kind ∈ binaryKinds ->
      ∃ operator : BinaryOperator, state.lookahead.text = operator.symbol)
    (writes : BeginsWrite state.tokens) :
    StaysBehind place (IsWriteOf name) (assignment name state) := by
  generalize tokens : state.tokens = all at writes
  cases writes with
  | @value sign more isEquals =>
      rw [← (List.cons.inj tokens).1] at isEquals
      simp only [assignment, get_bind, isEquals, discard_bind]
      apply (moved.advance (by rw [isEquals]; rfl)).bind
      intro _ after there
      rw [get_bind]
      by_cases ends : after.lookahead.kind.isTerminator = true
      · rw [if_pos ends]
        exact ⟨⟨rfl, Or.inl rfl⟩, there⟩
      · rw [if_neg ends]
        exact staysBehind_assign there name id
  | @step sign ending more steps ends =>
      have there := moved.behind tokens (isTerminator_of_isStep steps)
      rcases unaryOperator_of_step steps tokens with ⟨operator, ran⟩
      rw [← (List.cons.inj tokens).1] at steps
      simp only [assignment, get_bind, kind_of_isStep steps, steps, if_true]
      have stops : (state.behind ending more sign.span.stop).lookahead.kind.isTerminator = true :=
        ends
      rw [bind_of_ok ran, get_bind, if_pos stops]
      exact ⟨⟨rfl, Or.inr rfl⟩, there⟩
  | @combination sign equals more joins isEquals =>
      have going : ∀ kind ∈ binaryKinds, kind.isTerminator = false := by decide
      have there := moved.behind tokens (going sign.kind joins)
      have ahead : state.lookahead = sign := (List.cons.inj tokens).1
      rw [← ahead] at joins
      rcases known joins with ⟨operator, symbol⟩
      have ran := binaryOperator_of_symbol (ahead ▸ symbol) tokens
      have assigns : (state.behind equals more sign.span.stop).lookahead.kind = .equals := isEquals
      rw [assignment_of_binary name joins, combination, bind_of_ok ran, get_bind, if_pos assigns,
        discard_bind]
      apply (there.advance (by rw [assigns]; rfl)).bind
      intro _ after further
      exact staysBehind_assign further name (.binary operator (.var name.text))

end Statements

/-- Where the parser starts on a line that begins with a word, and where it is
behind that word. -/
theorem start_of_word {line : String} {word : Token} {others : List Token}
    (whole : (Token.Cursor.start line).read.fault = none)
    (shape : (Token.Cursor.start line).read.tokens = word :: others)
    (isWord : word.kind = .word) :
    ∃ state between, start line = .ok state
      ∧ (∀ builtin, Builtin.find? word.text = some builtin ->
        statement state = commandAfter expression builtin word between)
      ∧ (Builtin.find? word.text = none -> statement state = assignment word between)
      ∧ between.tokens = others ∧ word.span.start < word.span.stop
      ∧ between.IsMoved word.span.stop := by
  have going : word.kind ≠ .endOfLine := by
    rw [isWord]
    exact Token.Kind.noConfusion
  have proper := (Token.Cursor.start line).read_endsProperly
  rw [whole, shape] at proper
  rcases exists_next proper going with ⟨next, more, rfl⟩
  rcases start_of_tokens shape with ⟨state, begun, lookahead, upcoming, fault, _, _⟩
  have tokens : state.tokens = [word] ++ next :: more := by
    rw [State.tokens, lookahead, upcoming]
    rfl
  exact ⟨state, state.behind next more word.span.stop, begun,
    fun _ found => opens_call isWord found state next more tokens,
    fun free => opens_name isWord free state next more tokens, rfl,
    isMoved_behind shape going fault⟩

end Parser

namespace Command

/-- What is known of the first statement of a line is known of the line. -/
theorem parseLine_of_first {line : String} {state : Parser.State} {place : Nat}
    {asked : Command -> Prop} (begun : Parser.start line = .ok state)
    (stated : Parser.StaysBehind place asked (Parser.statement state)) :
    (∀ fault, parseLine line = .error fault -> fault.IsBehind place)
      ∧ ∀ commands, parseLine line = .ok commands ->
        ∃ first more, commands = first :: more ∧ asked first := by
  have whole := Parser.ensures_line stated
  cases ran : Parser.line state with
  | ok commands after =>
      rw [ran] at whole
      rw [parseLine_of_ok begun ran]
      refine ⟨fun _ failed => (by cases failed), ?_⟩
      rintro _ ⟨rfl⟩
      exact whole
  | error fault after =>
      rw [ran] at whole
      rw [parseLine_of_error begun ran]
      refine ⟨?_, fun _ parsed => (by cases parsed)⟩
      rintro _ ⟨rfl⟩
      exact whole

/-- A line that begins with a word is a call if the word is the name of a
command, and a write if the tokens behind the word begin one.  Exactly the other
lines have the word as an unknown name, at the place of the word. -/
theorem parseLine_of_word {line : String} {word : Token} {others : List Token}
    (whole : (Token.Cursor.start line).read.fault = none)
    (shape : (Token.Cursor.start line).read.tokens = word :: others)
    (isWord : word.kind = .word) :
    (∀ builtin ∈ Builtin.all, builtin.name = word.text ->
        (∀ name, parseLine line ≠ .error (.unknownCommand name word.span.start))
          ∧ ∀ commands, parseLine line = .ok commands -> ∃ first more,
            commands = first :: more ∧ first.name = word.text ∧ first.action = builtin.action)
      ∧ (word.text ∉ Builtin.names ->
        (parseLine line = .error (.unknownCommand word.text word.span.start)
            ↔ ¬Parser.BeginsWrite others)
          ∧ ∀ commands, parseLine line = .ok commands -> ∃ first more,
            commands = first :: more ∧ first.name = word.text
              ∧ (first.action = .assign ∨ first.action = .evaluate)) := by
  rcases Parser.start_of_word whole shape isWord with
    ⟨state, between, begun, onCall, onWrite, tokens, solid, moved⟩
  have apart : ∀ name,
      ¬(Fault.unknownCommand name word.span.start).IsBehind word.span.stop := by
    intro name behind
    exact absurd (behind _ rfl) (Nat.not_le_of_lt solid)
  constructor
  · intro builtin member named
    have called := Parser.staysBehind_commandAfter moved word builtin
    rw [← onCall builtin (named ▸ Builtin.find?_of_mem member)] at called
    rcases parseLine_of_first begun called with ⟨onFault, onCommands⟩
    exact ⟨fun name failed => apart name (onFault _ failed), onCommands⟩
  · intro free
    have stated := onWrite (Builtin.find?_eq_none free)
    have member : between.lookahead ∈ (Token.Cursor.start line).read.tokens := by
      rw [shape, ← tokens]
      exact List.mem_cons_of_mem _ List.mem_cons_self
    have known := Parser.exists_operator member
    by_cases writes : Parser.BeginsWrite others
    · have written := Parser.staysBehind_assignment moved word known (tokens ▸ writes)
      rw [← stated] at written
      rcases parseLine_of_first begun written with ⟨onFault, onCommands⟩
      exact ⟨iff_of_false (fun failed => apart _ (onFault _ failed)) (not_not_intro writes),
        onCommands⟩
    · have proper := (Token.Cursor.start line).read_endsProperly
      rw [whole, shape, ← tokens] at proper
      have ends : Token.Cursor.EndsProperly ([word] ++ between.tokens) none := proper
      rcases Parser.assignment_of_other word known (ends.of_append (List.cons_ne_nil _ _))
        (tokens ▸ writes) with ⟨after, failed⟩
      have unknown := parseLine_of_error begun (Parser.line_of_error (stated.trans failed))
      refine ⟨iff_of_true unknown writes, ?_⟩
      intro commands parsed
      rw [unknown] at parsed
      cases parsed

theorem parseLine_of_word_twice :
    let line := "w ++; w"
    let word : Token := { kind := .word, text := "w", span := ⟨0, 1⟩ }
    let others : List Token :=
      [{ kind := .unary, text := "++", span := ⟨2, 4⟩ },
       { kind := .semicolon, text := ";", span := ⟨4, 5⟩ },
       { kind := .word, text := "w", span := ⟨6, 7⟩ },
       { kind := .endOfLine, text := "", span := ⟨7, 7⟩ }]
    (Token.Cursor.start line).read.fault = none
      ∧ (Token.Cursor.start line).read.tokens = word :: others
      ∧ word.kind = .word ∧ word.text ∉ Builtin.names ∧ Parser.BeginsWrite others
      ∧ parseLine line = .error (.unknownCommand "w" 6)
      ∧ parseLine line ≠ .error (.unknownCommand "w" 0) := by
  intro line word others
  have whole : (Token.Cursor.start line).read.fault = none := by decide +kernel
  have shape : (Token.Cursor.start line).read.tokens = word :: others := by decide +kernel
  have free : word.text ∉ Builtin.names := by decide
  have writes : Parser.BeginsWrite others := .step rfl rfl
  have failed : parseLine line = .error (.unknownCommand "w" 6) := by
    dsimp only [line]
    with_unfolding_all rfl
  have known := ((parseLine_of_word whole shape rfl).2 free).1
  exact ⟨whole, shape, rfl, free, writes, failed, fun unknown => known.mp unknown writes⟩

end Command
end LineShell
