import LineShell.Proofs.Joining
import LineShell.Proofs.PhraseParsing
import LineShell.Proofs.UnknownNames

namespace LineShell

/-!
# Values behind an opening

Some lines begin with a few known tokens, and all that follows is the text of a
value.  Behind such an opening the text has the same tokens as it has alone, only
further to the right.  So the same text behind two openings is read as the same
value, if one of the openings leaves at least as many levels to nest as the other
and the text can be read behind that other one.
-/

open Steps

/-! ## The tokens of an opening -/

namespace Token.Cursor

/-- In front of any text the opening is read as the given lexemes, and behind it
the text is read as it is read alone, further to the right. -/
def Leads (opening : String) (lexemes : List Lexeme) : Prop :=
  ∀ (text : String) (distance : Nat), ∃ front : List Token,
    front.map Token.lexeme = lexemes
      ∧ ((start (opening ++ text)).moved distance).read.tokens
        = front ++ ((start text).moved (distance + opening.utf8ByteSize)).read.tokens
      ∧ ((start (opening ++ text)).moved distance).read.fault
        = ((start text).moved (distance + opening.utf8ByteSize)).read.fault

theorem leads_nothing : Leads "" [] := by
  intro text distance
  rw [String.empty_append]
  exact ⟨[], rfl, rfl, rfl⟩

theorem start_space (text : String) : start (" " ++ text) = (start text).moved 1 := by
  have chars : (" " ++ text).toList = ' ' :: text.toList := by simp
  have spaces : run (fun char => decide (char = ' ')) (' ' :: text.toList)
      = run (fun char => decide (char = ' ')) text.toList + 1 := rfl
  rw [start, skipSpaces, chars, spaces, start, skipSpaces, moved]
  simp only [Nat.zero_add]
  rfl

variable {opening : String} {lexemes : List Lexeme}

theorem Leads.behindSpace (leads : Leads opening lexemes) : Leads (" " ++ opening) lexemes := by
  intro text distance
  have shift : (start (" " ++ opening ++ text)).moved distance
      = (start (opening ++ text)).moved (distance + 1) := by
    rw [String.append_assoc, start_space, moved, moved, moved, Nat.add_assoc, Nat.add_comm 1]
  have size : distance + (" " ++ opening).utf8ByteSize = distance + 1 + opening.utf8ByteSize := by
    rw [String.utf8ByteSize_append, Nat.add_assoc]
    rfl
  rw [shift, size]
  exact leads text (distance + 1)

/-- A token stands before an opening if whatever follows leaves it the longest
one. -/
theorem Leads.behindToken {lexeme : Lexeme} (leads : Leads opening lexemes)
    (scanned : ∀ more, scan? (lexeme.text.toList ++ (opening.toList ++ more))
      = some (lexeme.kind, lexeme.text.toList.length)) :
    Leads (lexeme.text ++ opening) (lexeme :: lexemes) := by
  intro text distance
  have chars : (lexeme.text ++ opening ++ text).toList
      = lexeme.text.toList ++ (opening ++ text).toList := by
    rw [String.append_assoc, String.toList_append]
  have found : scan? (lexeme.text.toList ++ (opening ++ text).toList)
      = some (lexeme.kind, lexeme.text.toList.length) := by
    rw [String.toList_append]
    exact scanned text.toList
  have begins : (start (lexeme.text ++ opening ++ text)).moved distance
      = ⟨lexeme.text.toList ++ (opening ++ text).toList, distance⟩ := by
    have skipped := skipSpaces_of_visible (fun _ member => absurd member List.not_mem_nil)
      (visible_of_scan? found) 0
    rw [start, chars, moved]
    rw [List.nil_append] at skipped
    rw [skipped]
    exact congrArg (Cursor.mk _) (Nat.zero_add distance)
  have further : advance ⟨lexeme.text.toList ++ (opening ++ text).toList, distance⟩
        lexeme.text.toList.length
      = (start (opening ++ text)).moved (distance + lexeme.text.utf8ByteSize) := by
    rw [advance, List.drop_left, List.take_left, Text.byteSize_toList, skipSpaces_start]
  have size : distance + (lexeme.text ++ opening).utf8ByteSize
      = distance + lexeme.text.utf8ByteSize + opening.utf8ByteSize := by
    rw [String.utf8ByteSize_append, Nat.add_assoc]
  rcases leads text (distance + lexeme.text.utf8ByteSize) with ⟨front, same, tokens, fault⟩
  rw [begins, read_of_token (ahead_of_scan? found) (kind_of_scan? found), further, size]
  refine ⟨_ :: front, ?_, congrArg (_ :: ·) tokens, fault⟩
  rw [List.map_cons, same]
  simp only [Token.lexeme, token, List.take_left, String.ofList_toList]

/-- A token stands before an opening if a separator comes first in the opening. -/
theorem Leads.behindWhole {lexeme : Lexeme} {separator : Char} {others : List Char}
    (leads : Leads opening lexemes) (whole : lexeme.IsWhole)
    (separates : separator ∈ separators) (first : opening.toList = separator :: others) :
    Leads (lexeme.text ++ opening) (lexeme :: lexemes) := by
  apply leads.behindToken
  intro more
  rw [first, List.cons_append]
  exact scan?_append separates whole _

theorem Leads.behindSpaced {lexeme : Lexeme} (leads : Leads opening lexemes)
    (whole : lexeme.IsWhole) : Leads (lexeme.text ++ (" " ++ opening)) (lexeme :: lexemes) := by
  have separates : ' ' ∈ separators := by decide
  apply leads.behindSpace.behindWhole whole separates
  rw [String.toList_append]
  rfl

/-- A text begins with a token that ends no statement. -/
def Goes (text : String) : Prop :=
  ∃ token others, (start text).read.tokens = token :: others ∧ token.kind.isTerminator = false

theorem Leads.goes {first : Lexeme} (leads : Leads opening (first :: lexemes))
    (going : first.kind.isTerminator = false) (text : String) : Goes (opening ++ text) := by
  have unmoved : start (opening ++ text) = (start (opening ++ text)).moved 0 := rfl
  rcases leads text 0 with ⟨front, same, tokens, _⟩
  rcases List.map_eq_cons_iff.mp same with ⟨token, others, rfl, isFirst, _⟩
  rw [← unmoved, List.cons_append] at tokens
  refine ⟨token, _, tokens, ?_⟩
  rw [← isFirst] at going
  exact going

/-- A text is cut into tokens to its end if it is so behind an opening. -/
theorem Leads.whole (leads : Leads opening lexemes) {text : String}
    (whole : (start (opening ++ text)).read.fault = none) : (start text).read.fault = none := by
  have unmoved : start (opening ++ text) = (start (opening ++ text)).moved 0 := rfl
  rcases leads text 0 with ⟨_, _, _, fault⟩
  rw [← unmoved, whole, (read_moved _ _).2] at fault
  exact Option.map_eq_none_iff.mp fault.symm

end Token.Cursor

namespace Parser

/-! ## Expressions forget what stands before them -/

section Forgetting

variable (state : State) (lastEnd : Nat)

theorem sameResult_literal :
    SameResult (literal state) (literal { state with lastEnd }) := by
  simp only [literal, get_bind]
  cases kind : state.lookahead.kind with
  | number => exact sameResult_discard (sameResult_advance state lastEnd) _
  | string => exact sameResult_bind (sameResult_advance state lastEnd) _
  | word => exact sameResult_bind (sameResult_advance state lastEnd) _
  | boolean => exact sameResult_bind (sameResult_advance state lastEnd) _
  | _ => rfl

theorem sameResult_unary (primary expression : Parser Expr) :
    SameResult (unary primary expression state)
      (unary primary expression { state with lastEnd }) := by
  simp only [unary, get_bind]
  cases kind : state.lookahead.kind with
  | unary => exact sameResult_bind (sameResult_bind (sameResult_eat .unary state lastEnd) _) _
  | dollar =>
      exact sameResult_bind (sameResult_discard (sameResult_eat .dollar state lastEnd) _) _
  | leftBracket => exact sameResult_discard (sameResult_eat .leftBracket state lastEnd) _
  | additive =>
      by_cases minus : state.lookahead.text = "-"
      · simp only [minus, if_true]
        exact sameResult_discard (sameResult_advance state lastEnd) _
      · simp only [minus, if_false]
        exact sameResult_literal state lastEnd
  | word =>
      cases found : Builtin.find? state.lookahead.text with
      | some builtin => exact sameResult_bind (sameResult_advance state lastEnd) _
      | none => exact sameResult_literal state lastEnd
  | _ => exact sameResult_literal state lastEnd

theorem sameResult_primaryOver (inner : Parser Expr) :
    SameResult (primaryOver inner state) (primaryOver inner { state with lastEnd }) := by
  simp only [primaryOver, get_bind]
  by_cases opens : state.lookahead.kind = .leftParen
  · simp only [opens, if_true]
    exact sameResult_discard (sameResult_eat .leftParen state lastEnd) _
  · simp only [opens, if_false]
    exact sameResult_unary state lastEnd _ _

/-- An expression starts with a token that it eats, so it does not matter where
the token before it ended. -/
theorem sameResult_expression :
    SameResult (expression state) (expression { state with lastEnd }) :=
  sameResult_bind (sameResult_bind (sameResult_bind
    (sameResult_primaryOver state lastEnd (primaryWithin maxDepth)) _) _) _

end Forgetting

/-! ## Lines of one command -/

/-- Two results of reading commands: the second one has more commands before. -/
def Grown (extra : List Command) : List Command -> State -> List Command -> State -> Prop :=
  fun commands after commands' after' => commands' = commands ++ extra ∧ after = after'

/-- Two results with the same fault. -/
def SameFault (fault : Fault) (_ : State) (fault' : Fault) (_ : State) : Prop :=
  fault' = fault

/-- Two sequences with the same first step correspond if what they go on with
does. -/
theorem related_bind_same {α β γ : Type} {onValues : β -> State -> γ -> State -> Prop}
    {step : Parser α} {next : α -> Parser β} {next' : α -> Parser γ} (state : State)
    (second : ∀ value after, Related onValues SameFault (next value after) (next' value after)) :
    Related onValues SameFault ((step >>= next) state) ((step >>= next') state) := by
  cases ran : step state with
  | ok value after =>
      rw [bind_of_ok ran, bind_of_ok ran]
      exact second value after
  | error fault after =>
      rw [bind_of_error ran, bind_of_error ran]
      rfl

section Growing

variable (commands extra : List Command) (state : State)

theorem grown_furtherStatement :
    Related (Grown extra) SameFault (furtherStatement commands state)
      (furtherStatement (commands ++ extra) state) := by
  rw [furtherStatement_eq, furtherStatement_eq, discard_bind, discard_bind]
  apply related_bind_same
  intro _ between
  simp only [afterSemicolon, get_bind]
  split
  · rw [discard_bind, discard_bind]
    apply related_bind_same
    intro _ behind
    apply related_bind_same
    intro _ warned
    apply related_bind_same
    intro _ after
    exact ⟨rfl, rfl⟩
  · apply related_bind_same
    intro command behind
    apply related_bind_same
    intro _ after
    exact ⟨rfl, rfl⟩

/-- Commands that were read before do not change how a line is read on. -/
theorem grown_lineAfter :
    Related (fun value after value' after' => value' = extra.reverse ++ value ∧ after = after')
      SameFault (lineAfter commands state) (lineAfter (commands ++ extra) state) := by
  have loop : Related (Grown extra) SameFault (statementLoop commands state)
      (statementLoop (commands ++ extra) state) := by
    apply Pairing.related_repeatWhile
    · rintro _ _ _ _ ⟨_, rfl⟩
      rfl
    · rintro _ _ _ _ ⟨_, rfl⟩ _ _ _ _ ⟨_, rfl⟩
      exact Iff.rfl
    · rintro value between _ _ ⟨rfl, rfl⟩ _
      exact grown_furtherStatement value extra between
    · exact ⟨rfl, rfl⟩
  apply Related.bind loop
  rintro value between _ _ ⟨rfl, rfl⟩
  rw [discard_bind, discard_bind]
  apply related_bind_same
  intro _ after
  refine ⟨?_, rfl⟩
  rw [List.reverse_append]

end Growing

/-- The line has no more commands. -/
def State.EndsLine (state : State) : Prop :=
  state.lookahead.kind.isTerminator = true ∧ ∃ last, lineAfter [] state = .ok [] last

/-- A line has a single command if its first statement is that command and no
other one follows. -/
theorem line_single_iff {state : State} {command : Command} :
    (∃ last, line state = .ok [command] last)
      ↔ ∃ after, statement state = .ok command after ∧ after.EndsLine := by
  constructor
  · rintro ⟨last, ran⟩
    rcases head_of_line ran with ⟨first, between, others, stated, same⟩
    rcases List.cons.inj same with ⟨rfl, rfl⟩
    refine ⟨between, stated, ?_⟩
    rw [line_eq, bind_of_ok stated] at ran
    cases ends : between.lookahead.kind.isTerminator with
    | false =>
        have trailing : expectTerminator between
            = reject (.trailing between.lookahead.kind between.lookahead.text) between := by
          simp only [expectTerminator, ends, Bool.false_eq_true, if_false]
        rw [bind_of_error trailing] at ran
        cases ran
    | true =>
        have terminated : expectTerminator between = .ok () between := by
          simp only [expectTerminator, ends, if_true]
        rw [bind_of_ok terminated] at ran
        have grown := grown_lineAfter [] [command] between
        rw [List.nil_append, ran] at grown
        cases alone : lineAfter [] between with
        | error fault after =>
            rw [alone] at grown
            cases grown
        | ok rest after =>
            rw [alone] at grown
            rcases grown with ⟨same, rfl⟩
            rcases List.cons.inj same with ⟨_, rfl⟩
            exact ⟨ends, after, alone⟩
  · rintro ⟨after, stated, ends, last, alone⟩
    have terminated : expectTerminator after = .ok () after := by
      simp only [expectTerminator, ends, if_true]
    have grown := grown_lineAfter [] [command] after
    rw [List.nil_append, alone] at grown
    rw [line_eq, bind_of_ok stated, bind_of_ok terminated]
    cases ran : lineAfter [command] after with
    | error fault failed =>
        rw [ran] at grown
        cases grown
    | ok commands ended =>
        rw [ran] at grown
        rcases grown with ⟨rfl, rfl⟩
        exact ⟨last, rfl⟩

theorem parseLine_single_iff {text : String} {state : State} {command : Command}
    (begun : start text = .ok state) :
    Command.parseLine text = .ok [command]
      ↔ ∃ after, statement state = .ok command after ∧ after.EndsLine := by
  rw [← line_single_iff]
  constructor
  · intro parsed
    rcases Command.run_of_parseLine parsed with ⟨again, last, begunAgain, ran⟩
    rw [begun] at begunAgain
    cases begunAgain
    exact ⟨last, ran⟩
  · rintro ⟨last, ran⟩
    exact Command.parseLine_of_ok begun ran

/-- Of two lines that go on alike, both have more commands or none has. -/
theorem Pairing.At.endsLine_iff {pairing : Pairing} {frame : Frame} {state state' : State}
    (stands : pairing.At frame state state') (closed : pairing.Closed) :
    state.EndsLine ↔ state'.EndsLine := by
  have related := Pairing.related_lineAfter closed
    (show pairing.Continues [] [] [] from rfl) stands
  rw [State.EndsLine, State.EndsLine, stands.isTerminator_eq]
  apply and_congr_right
  intro _
  cases ran : lineAfter [] state <;> cases ran' : lineAfter [] state' <;>
    rw [ran, ran'] at related
  · have same := related.1
    rw [List.reverse_nil, List.nil_append] at same
    constructor
    · rintro ⟨last, read⟩
      cases read
      rw [List.map_nil, eq_comm, List.map_eq_nil_iff] at same
      exact ⟨_, by rw [same]⟩
    · rintro ⟨last, read⟩
      cases read
      rw [List.map_nil, List.map_eq_nil_iff] at same
      exact ⟨_, by rw [same]⟩
  · cases related
  · cases related
  · constructor
    · rintro ⟨last, read⟩
      cases read
    · rintro ⟨last, read⟩
      cases read

/-! ## The same text at two places -/

/-- The parser stands before a text that is moved to the right, with the given
number of levels entered. -/
structure State.Before (state : State) (text : String) (distance depth : Nat) : Prop where
  tokens : state.tokens = ((Token.Cursor.start text).moved distance).read.tokens
  fault : state.fault? = ((Token.Cursor.start text).moved distance).read.fault
  depth_eq : state.depth = depth

/-- Two values are the same, the second one as much further to the right as the
two distances differ, and of the two lines both have more commands or none has,
on whatever level they are read on. -/
def SameValue (distance distance' : Nat) (value : Expr) (after : State) (value' : Expr)
    (after' : State) : Prop :=
  value' = value.relocate (· + (distance' - distance))
    ∧ ∀ depth, State.EndsLine { after with depth } ↔ State.EndsLine { after' with depth }

section Values

variable {state state' after after' : State} {text : String} {distance distance' depth : Nat}
  {value value' : Expr}

theorem State.Before.endsProperly (before : state.Before text distance depth) :
    Token.Cursor.EndsProperly state.tokens state.fault? := by
  rw [before.tokens, before.fault]
  exact Token.Cursor.read_endsProperly _

/-- A text is read as the same value at two places on the same level. -/
theorem State.Before.related (before : state.Before text distance depth)
    (before' : state'.Before text distance' depth) (order : distance ≤ distance') :
    Related (fun value after value' after' => SameValue distance distance' value after value' after'
        ∧ after.depth = depth)
      (fun _ _ _ _ => True) (expression state) (expression state') := by
  rcases Pairing.exists_moved ((Token.Cursor.start text).moved distance) (distance' - distance)
    with ⟨pairing, closed, place, still, fault, fault', stream⟩
  have twice : ((Token.Cursor.start text).moved distance).moved (distance' - distance)
      = (Token.Cursor.start text).moved distance' := by
    rw [Token.Cursor.moved, Token.Cursor.moved, Token.Cursor.moved, Nat.add_assoc,
      Nat.add_sub_of_le order]
  rw [twice, ← before'.fault] at fault'
  rw [twice, ← before.tokens, ← before'.tokens] at stream
  rw [← before.fault] at fault
  -- The token before the text may end anywhere.
  let moved : State := { state' with lastEnd := state.lastEnd + (distance' - distance) }
  have stands : pairing.At { depth, size := state.remaining } state moved :=
    { stream, fault_eq := fault, fault_eq' := fault', depth_eq := before.depth_eq
      depth_eq' := before'.depth_eq, near := Nat.le_refl _
      lastEnd := by rw [place, still]; rfl }
  have matched := Pairing.matches_of_sameResult (Pairing.readsAlike_expression _ _ _ stands)
    (sameResult_expression moved state'.lastEnd)
  apply Related.mono matched
  · rintro value after value' after' ⟨alike, there⟩
    refine ⟨⟨?_, ?_⟩, there.depth_eq⟩
    · rw [Pairing.Alike, place, still, Expr.relocate_id] at alike
      exact alike.symm
    · intro depth
      have shifted : pairing.At { depth, size := state.remaining } { after with depth }
          { after' with depth } := { there with depth_eq := rfl, depth_eq' := rfl }
      exact shifted.endsLine_iff closed
  · exact fun _ _ _ _ _ => trivial

/-- An expression leaves the levels that it has entered. -/
theorem State.Before.depth_after (before : state.Before text distance depth)
    (ran : expression state = .ok value after) : after.depth = depth := by
  have related := before.related before (Nat.le_refl distance)
  rw [ran] at related
  exact related.2

/-- With fewer levels entered, the same is read. -/
theorem State.Before.read_higher (before : state.Before text distance depth)
    (whole : state.fault? = none) (ran : expression state = .ok value after) {higher : Nat}
    (room : higher ≤ depth) :
    expression { state with depth := higher } = .ok value { after with depth := higher } := by
  have isLocal := local_expression state
  have isLocalAgain := local_expression { state with depth := higher }
  rw [LocalAt, LocalBefore, ObeysAt, ran] at isLocal
  rcases isLocal with ⟨eaten, eats, unwarned, onExcerpt⟩
  have proper := before.endsProperly
  have tokens := eats.tokens_eq proper
  rw [tokens, whole] at proper
  rcases proper.of_append (List.cons_ne_nil _ _) with ⟨shared, last, shape, ending, _⟩
  have cut : state.Excerpt (eaten ++ shared) { state with depth := higher } :=
    { front := ⟨[last], by rw [tokens, shape, List.append_assoc]⟩
      tokens := ⟨last, ending, by rw [List.append_assoc, ← shape]; exact tokens⟩
      fault := whole
      lastEnd := rfl
      depth := before.depth_eq ▸ room }
  rcases onExcerpt shared _ trivial cut with ⟨rest, ranAgain, cutRest⟩
  have higherBefore : State.Before { state with depth := higher } text distance higher :=
    { before with depth_eq := rfl }
  have depth := higherBefore.depth_after ranAgain
  rw [LocalAt, LocalBefore, ObeysAt, ranAgain] at isLocalAgain
  rcases isLocalAgain with ⟨eatenAgain, eatsAgain, unwarnedAgain, _⟩
  have tokensAgain := eatsAgain.tokens_eq higherBefore.endsProperly
  -- The excerpt is the whole line, so it also ends in the same token.
  have sameTokens : rest.tokens = after.tokens := by
    rcases cutRest.tokens with ⟨lastAgain, _, shapeAgain⟩
    have sameLine : eaten ++ shared ++ [last] = eatenAgain ++ shared ++ [lastAgain] := by
      rw [List.append_assoc, List.append_assoc, ← shape, ← shapeAgain, ← tokens]
      exact tokensAgain
    rw [shape, shapeAgain, (List.append_inj' sameLine rfl).2]
  have same : rest = { after with depth := higher } := by
    rcases List.cons.inj sameTokens with ⟨lookahead, upcoming⟩
    rcases rest with ⟨_, _, _, _, _, _, _⟩
    simp only [State.mk.injEq]
    exact ⟨lookahead, upcoming, eatsAgain.fault.trans eats.fault.symm,
      eatsAgain.limit.trans eats.limit.symm, cutRest.lastEnd, depth,
      unwarnedAgain.trans unwarned.symm⟩
  rw [ranAgain, same]

/-- What can be read before a text can be read before it at every other place. -/
theorem State.Before.read_elsewhere (before : state.Before text distance depth)
    (before' : state'.Before text distance' depth) (ran : expression state = .ok value after) :
    ∃ value' after', expression state' = .ok value' after'
      ∧ value.relocate (· + distance') = value'.relocate (· + distance)
      ∧ ∀ depth, State.EndsLine { after with depth } ↔ State.EndsLine { after' with depth } := by
  rcases Nat.le_total distance distance' with order | order
  · have related := before.related before' order
    have shift : (· + distance) ∘ (· + (distance' - distance)) = (· + distance') :=
      funext fun place => by simp only [Function.comp_apply]; omega
    rw [ran] at related
    cases ran' : expression state' with
    | error fault failed =>
        rw [ran'] at related
        cases related
    | ok value' after' =>
        rw [ran'] at related
        refine ⟨value', after', rfl, ?_, related.1.2⟩
        rw [related.1.1, Expr.relocate_relocate, shift]
  · have related := before'.related before order
    have shift : (· + distance') ∘ (· + (distance - distance')) = (· + distance) :=
      funext fun place => by simp only [Function.comp_apply]; omega
    rw [ran] at related
    cases ran' : expression state' with
    | error fault failed =>
        rw [ran'] at related
        cases related
    | ok value' after' =>
        rw [ran'] at related
        refine ⟨value', after', rfl, ?_, fun depth => (related.1.2 depth).symm⟩
        rw [related.1.1, Expr.relocate_relocate, shift]

end Values

/-! ## Openings -/

/-- A statement reads a value, some levels deeper, and makes a command of the
value and of the place where it ends. -/
structure ReadsValue (make : Expr -> Nat -> Command) (levels : Nat) (state between : State) :
    Prop where
  value : ∀ value after, expression between = .ok value after ->
    statement state = .ok (make value after.lastEnd) { after with depth := after.depth - levels }
  fault : ∀ fault after, expression between = .error fault after ->
    ∃ last, statement state = .error fault last

/-- The line of an opening and a text reads the text as a value, some levels
deeper, and makes a command of it. -/
def Introduces (opening : String) (levels : Nat) (make : Expr -> Nat -> Command)
    (text : String) : Prop :=
  ∃ state between, start (opening ++ text) = .ok state
    ∧ between.Before text opening.utf8ByteSize levels ∧ ReadsValue make levels state between

section Introducing

variable {opening opening' text : String} {levels levels' : Nat}
  {make make' : Expr -> Nat -> Command} {command : Command}

theorem ReadsValue.single_iff {state between : State} (begun : start text = .ok state)
    (reads : ReadsValue make levels state between) :
    Command.parseLine text = .ok [command]
      ↔ ∃ value after, expression between = .ok value after ∧ command = make value after.lastEnd
        ∧ State.EndsLine { after with depth := after.depth - levels } := by
  rw [parseLine_single_iff begun]
  constructor
  · rintro ⟨after, stated, ends⟩
    cases ran : expression between with
    | error fault failed =>
        rcases reads.fault fault failed ran with ⟨last, same⟩
        rw [same] at stated
        cases stated
    | ok value read =>
        rw [reads.value value read ran] at stated
        cases stated
        exact ⟨value, read, rfl, rfl, ends⟩
  · rintro ⟨value, after, ran, rfl, ends⟩
    exact ⟨_, reads.value value after ran, ends⟩

/-- An expression begins with a token that ends no statement. -/
theorem going_of_expression {state after : State} {value : Expr}
    (ran : expression state = .ok value after) : state.lookahead.kind.isTerminator = false := by
  have solid := solid_expression state
  rw [SolidAt, ObeysAt, ran] at solid
  rcases solid with ⟨eaten, eats, some⟩
  rcases List.exists_cons_of_ne_nil some with ⟨first, others, rfl⟩
  rw [eats.lookahead_eq]
  exact eats.going first List.mem_cons_self

/-- A text that is read as a value begins with a token that ends no statement. -/
theorem Introduces.goes_of_parsed (introduces : Introduces opening levels make text)
    (parsed : Command.parseLine (opening ++ text) = .ok [command]) :
    Token.Cursor.Goes text := by
  rcases introduces with ⟨state, between, begun, before, reads⟩
  rcases (reads.single_iff begun).mp parsed with ⟨value, after, ran, _⟩
  have tokens := before.tokens
  rw [(Token.Cursor.read_moved _ _).1] at tokens
  rcases List.map_eq_cons_iff.mp tokens.symm with ⟨token, others, shape, first, _⟩
  refine ⟨token, others, shape, ?_⟩
  have going := going_of_expression ran
  rw [← first] at going
  exact going

/-- Only text that is cut into tokens to its end is read as a command. -/
theorem whole_of_parsed {lexemes : List Token.Lexeme} {commands : List Command}
    (leads : Token.Cursor.Leads opening lexemes)
    (parsed : Command.parseLine (opening ++ text) = .ok commands) :
    (Token.Cursor.start text).read.fault = none := by
  have unmoved : Token.Cursor.start (opening ++ text)
      = (Token.Cursor.start (opening ++ text)).moved 0 := rfl
  exact leads.whole ((Command.parseLine_moved unmoved).1 commands parsed).2

/-- A text that is read as a value behind one opening is read as the same value
behind another one that is not deeper. -/
theorem Introduces.parseLine_elsewhere (first : Introduces opening levels make text)
    (second : Introduces opening' levels' make' text) (room : levels' ≤ levels)
    (whole : (Token.Cursor.start text).read.fault = none)
    (parsed : Command.parseLine (opening ++ text) = .ok [command]) :
    ∃ value stop value' stop', command = make value stop
      ∧ Command.parseLine (opening' ++ text) = .ok [make' value' stop']
      ∧ value.relocate (· + opening'.utf8ByteSize)
        = value'.relocate (· + opening.utf8ByteSize) := by
  rcases first with ⟨state, between, begun, before, reads⟩
  rcases second with ⟨state', between', begun', before', reads'⟩
  rcases (reads.single_iff begun).mp parsed with ⟨value, after, ran, rfl, ends⟩
  have deeper : State.Before { between' with depth := levels } text opening'.utf8ByteSize levels :=
    { before' with depth_eq := rfl }
  rcases before.read_elsewhere deeper ran with ⟨value', after', ran', same, alike⟩
  have unfaulted : between'.fault? = none := by
    rw [before'.fault, (Token.Cursor.read_moved _ _).2, whole]
    rfl
  have higher := deeper.read_higher unfaulted ran' room
  have itself : { between' with depth := levels' } = between' := by
    rw [← before'.depth_eq]
  rw [itself] at higher
  refine ⟨value, after.lastEnd, value', after'.lastEnd, rfl, ?_, same⟩
  rw [reads'.single_iff begun']
  refine ⟨value', _, higher, rfl, ?_⟩
  rw [before.depth_after ran, Nat.sub_self, alike] at ends
  simp only [Nat.sub_self]
  exact ends

/-- The parser starts on the tokens of the opening, and behind them stands the
text. -/
theorem exists_opened {lexemes : List Token.Lexeme} (leads : Token.Cursor.Leads opening lexemes)
    (whole : (Token.Cursor.start text).read.fault = none) :
    ∃ state front next rest, start (opening ++ text) = .ok state
      ∧ front.map Token.lexeme = lexemes ∧ state.tokens = front ++ next :: rest
      ∧ (Token.Cursor.Goes text -> next.kind.isTerminator = false)
      ∧ ∀ lastEnd, (state.behind next rest lastEnd).Before text opening.utf8ByteSize 0 := by
  have unmoved : Token.Cursor.start (opening ++ text)
      = (Token.Cursor.start (opening ++ text)).moved 0 := rfl
  rcases leads text 0 with ⟨front, same, tokens, fault⟩
  rw [← unmoved, Nat.zero_add] at tokens fault
  have proper := Token.Cursor.read_endsProperly (Token.Cursor.start text)
  rw [whole] at proper
  have moved := (Token.Cursor.read_moved (Token.Cursor.start text) opening.utf8ByteSize).1
  obtain ⟨first, others, shape⟩ : ∃ first others,
      (Token.Cursor.start text).read.tokens = first :: others := by
    rcases proper with ⟨before, last, shape, _⟩
    apply List.exists_cons_of_ne_nil
    rw [shape]
    exact List.append_ne_nil_of_right_ne_nil _ (List.cons_ne_nil _ _)
  rw [shape, List.map_cons] at moved
  obtain ⟨lookahead, upcoming, all⟩ : ∃ lookahead upcoming,
      (Token.Cursor.start (opening ++ text)).read.tokens = lookahead :: upcoming := by
    apply List.exists_cons_of_ne_nil
    rw [tokens, moved]
    exact List.append_ne_nil_of_right_ne_nil _ (List.cons_ne_nil _ _)
  rcases start_of_tokens all with ⟨state, begun, isFirst, areOthers, faults, _, level⟩
  refine ⟨state, front, first.relocate (· + opening.utf8ByteSize),
    others.map (Token.relocate (· + opening.utf8ByteSize)), begun, same, ?_, ?_, ?_⟩
  · rw [State.tokens, isFirst, areOthers, ← all, tokens, moved]
  · rintro ⟨token, more, again, going⟩
    rw [shape] at again
    rw [(List.cons.inj again).1]
    exact going
  · intro lastEnd
    exact { tokens := moved.symm, fault := faults.trans fault, depth_eq := level }

end Introducing
end Parser

theorem Command.exists_single {line : String}
    (single : (parseLine line).toOption.map List.length = some 1) :
    ∃ command, parseLine line = .ok [command] := by
  cases parsed : parseLine line with
  | error fault =>
      rw [parsed] at single
      cases single
  | ok commands =>
      rw [parsed] at single
      rcases List.length_eq_one_iff.mp (Option.some.inj single) with ⟨command, rfl⟩
      exact ⟨command, rfl⟩

end LineShell
