import LineShell.Proofs.Slices

namespace LineShell

/-!
# Paths without quotes

A path without quotes is cut into tokens before `cd` sees it: into words, numbers,
dots, slashes and shorter paths, as the characters happen to come.  No space is
between these tokens, so each begins where the one before it ends, and `cd` glues
them together again.

Two kinds of token are left out.  A path that begins with a slash which is a token
of its own is refused, though such a slash is taken later on; and a piece that
reads `true` or `false` is a boolean, and taken nowhere.
-/

open Steps

namespace Token

/-! ## Fragments of a path -/

/-- Whether a character is a letter, a digit, an underscore, a dot or a slash. -/
def isPlain (char : Char) : Bool :=
  char.isAlphanum || char = '_' || char = '.' || char = '/'

/-- A token that a plain text can be cut into. -/
def IsFragment (token : Token) : Prop :=
  token.kind ∈ Parser.pathKinds ∨ token.kind = .boolean
    ∨ token.isSymbol .multiplicative "/" = true

/-- Every token begins where the one before it ends. -/
inductive Abut : Nat -> List Token -> Nat -> Prop
  | nil (place : Nat) : Abut place [] place
  | cons {place stop : Nat} {token : Token} {tokens : List Token}
      (begins : token.span.start = place) (others : Abut token.span.stop tokens stop) :
      Abut place (token :: tokens) stop

theorem Abut.front {place stop : Nat} {front back : List Token} {token : Token}
    (abut : Abut place (front ++ token :: back) stop) : Abut place front token.span.start := by
  induction front generalizing place with
  | nil =>
      cases abut with
      | cons begins others =>
          rw [begins]
          exact .nil place
  | cons first front ih =>
      cases abut with
      | cons begins others => exact .cons begins (ih others)

/-- What stands at the start of a plain text. -/
theorem scan?_of_plain {first : Char} (plain : isPlain first = true) (rest : List Char) :
    ∃ kind length, scan? (first :: rest) = some (kind, length)
      ∧ (kind ∈ Parser.pathKinds ∨ kind = .boolean
        ∨ (kind = .multiplicative ∧ (first :: rest).take length = ['/'])) := by
  rcases sort_cases first with rfl | digit | start | mark
  · exact absurd plain (by decide)
  · exact ⟨.number, _, scan?_of_digit digit, .inl (by decide)⟩
  · refine ⟨_, _, scan?_of_wordStart start, ?_⟩
    rw [wordKind]
    split
    · exact .inr (.inl rfl)
    · exact .inl (by decide)
  · have others := mark
    simp only [isMark, isWordStart, Bool.and_eq_true, Bool.not_eq_true', Bool.or_eq_false_iff]
      at others
    have dotOrSlash : first = '.' ∨ first = '/' := by
      simpa only [isPlain, Char.isAlphanum, others.1.2, others.2.1, others.2.2, Bool.or_self,
        Bool.false_or, Bool.or_eq_true, decide_eq_true_eq] using plain
    cases path : pathLength? (first :: rest) with
    | some length => exact ⟨.path, length, scan?_of_path mark path, .inl (by decide)⟩
    | none =>
        rw [scan?_of_noPath mark path]
        rcases dotOrSlash with rfl | rfl
        · exact ⟨.dot, 1, rfl, .inl (by decide)⟩
        · exact ⟨.multiplicative, 1, rfl, .inr (.inr ⟨rfl, rfl⟩)⟩

namespace Cursor

variable {cursor : Cursor}

theorem ahead_of_plain {first : Char} {rest : List Char} (shape : cursor.rest = first :: rest)
    (plain : isPlain first = true) :
    ∃ kind length, cursor.ahead = .ok (kind, length) ∧ kind ≠ .endOfLine
      ∧ (cursor.token kind length).IsFragment := by
  rcases scan?_of_plain plain rest with ⟨kind, length, scanned, fragment⟩
  rw [← shape] at scanned fragment
  refine ⟨kind, length, ahead_of_scan? scanned, kind_of_scan? scanned, ?_⟩
  rcases fragment with among | isBoolean | ⟨rfl, isSlash⟩
  · exact .inl among
  · exact .inr (.inl isBoolean)
  · refine .inr (.inr ?_)
    rw [token, isSlash]
    rfl

/-- No space follows a token of a plain text. -/
theorem advance_of_plain (plain : ∀ char ∈ cursor.rest, isPlain char = true) (length : Nat) :
    cursor.advance length
      = { rest := cursor.rest.drop length
          offset := cursor.offset + Text.byteSize (cursor.rest.take length) } := by
  cases behind : cursor.rest.drop length with
  | nil =>
      rw [advance, behind]
      rfl
  | cons first others =>
      have inside : first ∈ cursor.rest := by
        apply List.mem_of_mem_drop
        rw [behind]
        exact List.mem_cons_self
      have visible : Visible (first :: others) := by
        refine ⟨first, others, rfl, ?_⟩
        rintro rfl
        exact absurd (plain _ inside) (by decide)
      rw [advance, behind]
      exact skipSpaces_of_visible (fun _ member => absurd member List.not_mem_nil) visible _

/-- A plain text is cut into fragments that abut, and that make up the text. -/
theorem read_of_plain (plain : ∀ char ∈ cursor.rest, isPlain char = true) :
    ∃ fragments, cursor.read.tokens
        = fragments ++ [Parser.endToken (cursor.offset + Text.byteSize cursor.rest)]
      ∧ cursor.read.fault = none
      ∧ Abut cursor.offset fragments (cursor.offset + Text.byteSize cursor.rest)
      ∧ (∀ fragment ∈ fragments, fragment.IsFragment)
      ∧ String.join (fragments.map Token.text) = String.ofList cursor.rest := by
  induction size : cursor.rest.length using Nat.strongRecOn generalizing cursor with
  | ind size ih =>
      cases shape : cursor.rest with
      | nil =>
          rcases cursor with ⟨rest, offset⟩
          obtain rfl : rest = [] := shape
          rw [read_nil]
          exact ⟨[], rfl, rfl, .nil _, fun _ member => absurd member List.not_mem_nil, rfl⟩
      | cons first rest =>
          rcases ahead_of_plain shape (plain first (shape ▸ List.mem_cons_self)) with
            ⟨kind, length, found, going, fragment⟩
          -- A token may hold many characters, so the induction is on how many are left.
          have shorter := advance_shorter found going
          have further := advance_of_plain plain length
          have parts := List.take_append_drop length cursor.rest
          have plainBehind : ∀ char ∈ (cursor.advance length).rest, isPlain char = true := by
            intro char member
            rw [further] at member
            exact plain char (List.mem_of_mem_drop member)
          rcases ih _ (size ▸ shorter) plainBehind rfl with
            ⟨fragments, tokens, whole, abut, areFragments, texts⟩
          have stop : (cursor.advance length).offset + Text.byteSize (cursor.advance length).rest
              = cursor.offset + Text.byteSize cursor.rest := by
            rw [further, Nat.add_assoc, ← Text.byteSize_append, parts]
          rw [stop] at tokens abut
          rw [← shape, read_of_token found going]
          refine ⟨cursor.token kind length :: fragments, ?_, whole, ?_, ?_, ?_⟩
          · rw [tokens]
            rfl
          · have behind : Abut (cursor.token kind length).span.stop fragments
                (cursor.offset + Text.byteSize cursor.rest) := by
              rw [further] at abut
              exact abut
            exact .cons rfl behind
          · exact List.forall_mem_cons.mpr ⟨fragment, areFragments⟩
          · rw [further] at texts
            rw [List.map_cons, String.join_cons, texts, token, ← String.ofList_append, parts]

end Cursor
end Token

namespace Parser

/-! ## Gluing -/

theorem isPathPiece_of_fragment {token : Token} (fragment : token.IsFragment)
    (other : token.kind ≠ .boolean) : isPathPiece token = true := by
  rw [isPathPiece]
  rcases fragment with among | isBoolean | isSlash
  · rw [decide_eq_true among]
    rfl
  · exact absurd isBoolean other
  · rw [isSlash, Bool.or_true, Bool.true_or]

theorem isPathPiece_of_boolean {token : Token} (isBoolean : token.kind = .boolean) :
    isPathPiece token = false := by
  rw [isPathPiece, Token.isSymbol, Token.isSymbol, isBoolean]
  rfl

section Pieces

variable {state : State} {pieces more : List Token} {last : Token} {place stop : Nat}

/-- Pieces that abut are glued up to a token that is none. -/
theorem pathFrom_of_abut (abut : Token.Abut place pieces stop)
    (arePieces : ∀ piece ∈ pieces, isPathPiece piece = true) (other : isPathPiece last = false)
    (tokens : state.tokens = pieces ++ last :: more) (behind : state.lastEnd = place)
    (path : String) :
    pathFrom path state
      = .ok (path ++ String.join (pieces.map Token.text)) (state.behind last more stop) := by
  induction abut generalizing state path with
  | nil place =>
      rcases List.cons.inj tokens with ⟨ahead, upcoming⟩
      have stops : (state.isAdjacent && isPathPiece state.lookahead) = false := by
        rw [ahead, other, Bool.and_false]
      have there : state.behind last more place = state := by
        rw [State.behind, ← ahead, ← upcoming, ← behind]
      rw [pathFrom, repeatWhile_of_stop stops, there, List.map_nil, String.join_nil,
        String.append_empty]
  | @cons place stop piece others begins abut ih =>
      -- The piece is eaten, and its end is where the next one has to begin.
      obtain ⟨next, rest, shape⟩ : ∃ next rest, others ++ last :: more = next :: rest :=
        List.exists_cons_of_ne_nil (List.append_ne_nil_of_right_ne_nil _ (List.cons_ne_nil _ _))
      rw [List.cons_append, shape] at tokens
      rcases List.forall_mem_cons.mp arePieces with ⟨isPiece, arePieces⟩
      have ahead : state.lookahead = piece := (List.cons.inj tokens).1
      have goes : (state.isAdjacent && isPathPiece state.lookahead) = true := by
        rw [State.isAdjacent, ahead, behind, isPiece, Bool.and_true]
        exact decide_eq_true begins
      have round : (do return path ++ (← advance).text : Parser String) state
          = .ok (path ++ piece.text) (state.behind next rest piece.span.stop) :=
        bind_of_ok (advance_of_tokens tokens) _
      have nearer : (state.behind next rest piece.span.stop).remaining < state.remaining := by
        rw [State.remaining, State.remaining, (List.cons.inj tokens).2]
        exact Nat.lt_succ_self rest.length
      have tokensBehind : (state.behind next rest piece.span.stop).tokens
          = others ++ last :: more := shape.symm
      have glued : pathFrom (path ++ piece.text) (state.behind next rest piece.span.stop)
          = .ok (path ++ piece.text ++ String.join (others.map Token.text))
            (state.behind last more stop) :=
        ih arePieces tokensBehind rfl _
      rw [pathFrom, repeatWhile_of_ok goes round nearer, ← pathFrom, glued, List.map_cons,
        String.join_cons, String.append_assoc]

/-- Pieces of a path are read by `cd` if the first one can begin a path. -/
theorem cdArguments_of_abut {first : Token} (begins : first.kind ∈ pathKinds)
    (abut : Token.Abut first.span.stop pieces stop)
    (arePieces : ∀ piece ∈ pieces, isPathPiece piece = true) (other : isPathPiece last = false)
    (tokens : state.tokens = first :: pieces ++ last :: more) :
    cdArguments state
      = .ok [.path (String.join ((first :: pieces).map Token.text))]
        (state.behind last more stop) := by
  have kinds : ∀ kind ∈ pathKinds,
      kind.isTerminator = false ∧ kind ≠ .string ∧ kind ≠ .unary := by decide
  rcases kinds first.kind begins with ⟨going, noString, noUnary⟩
  obtain ⟨next, rest, shape⟩ : ∃ next rest, pieces ++ last :: more = next :: rest :=
    List.exists_cons_of_ne_nil (List.append_ne_nil_of_right_ne_nil _ (List.cons_ne_nil _ _))
  rw [List.cons_append, shape] at tokens
  have ahead : state.lookahead = first := (List.cons.inj tokens).1
  have noTilde : first.isSymbol .unary "~" = false := by
    rw [Token.isSymbol, decide_eq_false noUnary, Bool.false_and]
  have eaten : eatAny pathKinds state = .ok first (state.behind next rest first.span.stop) := by
    rw [eatAny_of_mem (ahead ▸ begins)]
    exact advance_of_tokens tokens
  have tokensBehind : (state.behind next rest first.span.stop).tokens = pieces ++ last :: more :=
    shape.symm
  have glued : pathFrom first.text (state.behind next rest first.span.stop)
      = .ok (first.text ++ String.join (pieces.map Token.text)) (state.behind last more stop) :=
    pathFrom_of_abut abut arePieces other tokensBehind rfl _
  simp only [cdArguments, get_bind, ahead, going, noString, noTilde, Bool.false_eq_true, if_false]
  rw [bind_of_ok eaten, bind_of_ok glued, List.map_cons, String.join_cons]
  rfl

end Pieces

/-- What cannot begin a path is refused by `cd`. -/
theorem cdArguments_of_other {state : State} (fragment : state.lookahead.IsFragment)
    (other : state.lookahead.kind ∉ pathKinds) :
    cdArguments state
      = reject (.unexpected state.lookahead.kind state.lookahead.text "path | word | . | number")
        state := by
  have kinds : state.lookahead.kind = .boolean ∨ state.lookahead.kind = .multiplicative := by
    rcases fragment with among | isBoolean | isSlash
    · exact absurd among other
    · exact .inl isBoolean
    · exact .inr (of_decide_eq_true (Bool.and_eq_true_iff.mp isSlash).1)
  have going : state.lookahead.kind.isTerminator = false := by
    rcases kinds with kind | kind <;> rw [kind] <;> rfl
  have noString : state.lookahead.kind ≠ .string := by
    rcases kinds with kind | kind <;> rw [kind] <;> exact Token.Kind.noConfusion
  have noTilde : state.lookahead.isSymbol .unary "~" = false := by
    rcases kinds with kind | kind <;> rw [Token.isSymbol, kind] <;> rfl
  have refused := eatAny_of_other other going
  simp only [cdArguments, get_bind, going, noString, noTilde, Bool.false_eq_true, if_false]
  rw [bind_of_error refused]
  rfl

/-! ## The command -/

section Calling

variable {α : Type} {inner : Parser α} {state after : State} {fault : Fault}

theorem nested_of_ok {value : α} (room : state.depth + 1 ≤ maxDepth)
    (ran : inner { state with depth := state.depth + 1 } = .ok value after) :
    nested inner state = .ok value { after with depth := after.depth - 1 } := by
  rw [nested, bind_of_ok (enter_of_le room), bind_of_ok ran]
  rfl

theorem nested_of_error (room : state.depth + 1 ≤ maxDepth)
    (failed : inner { state with depth := state.depth + 1 } = .error fault after) :
    nested inner state = .error fault after := by
  rw [nested, bind_of_ok (enter_of_le room), bind_of_error failed]

variable {name first : Token} {builtin : Builtin} (action : builtin.action = .cd)
  (room : state.depth + 1 ≤ maxDepth)
include action room

theorem commandAfter_of_abut {pieces more : List Token} {last : Token} {stop : Nat}
    (begins : first.kind ∈ pathKinds) (abut : Token.Abut first.span.stop pieces stop)
    (arePieces : ∀ piece ∈ pieces, isPathPiece piece = true) (other : isPathPiece last = false)
    (tokens : state.tokens = first :: pieces ++ last :: more) :
    commandAfter expression builtin name state
      = .ok
        { name := name.text, action := .cd
          parameters := [.path (String.join ((first :: pieces).map Token.text))]
          span := { start := name.span.start, stop } }
        (state.behind last more stop) := by
  have tokensInside : { state with depth := state.depth + 1 }.tokens
      = first :: pieces ++ last :: more := tokens
  have ran : nested cdArguments state
      = .ok [.path (String.join ((first :: pieces).map Token.text))]
        (state.behind last more stop) :=
    nested_of_ok room (cdArguments_of_abut begins abut arePieces other tokensInside)
  rw [commandAfter, action, arguments, bind_of_ok ran]
  rfl

theorem commandAfter_of_other (fragment : state.lookahead.IsFragment)
    (other : state.lookahead.kind ∉ pathKinds) :
    ∃ after, commandAfter expression builtin name state
      = .error
        (.grammatical
          (.unexpected state.lookahead.kind state.lookahead.text "path | word | . | number")
          state.lookahead.span.start) after := by
  have refused : cdArguments { state with depth := state.depth + 1 }
      = reject (.unexpected state.lookahead.kind state.lookahead.text "path | word | . | number")
        { state with depth := state.depth + 1 } :=
    cdArguments_of_other fragment other
  refine ⟨{ state with depth := state.depth + 1 }, ?_⟩
  rw [commandAfter, action, arguments, bind_of_error (nested_of_error room refused)]

end Calling

section Ends

variable {state rest : State} {command : Command} (ran : statement state = .ok command rest)
include ran

theorem line_of_last {last : Token} (tokens : rest.tokens = [last]) (ends : last.kind = .endOfLine)
    (whole : rest.fault? = none) : ∃ after, line state = .ok [command] after := by
  have alone : rest.Excerpt [] rest :=
    { front := List.nil_prefix, tokens := ⟨last, ends, tokens⟩, fault := whole, lastEnd := rfl
      depth := Nat.le_refl _ }
  exact line_of_statement ran alone

theorem line_of_trailing (going : rest.lookahead.kind.isTerminator = false) :
    line state
      = .error
        (.grammatical (.trailing rest.lookahead.kind rest.lookahead.text)
          rest.lookahead.span.start) rest := by
  have left : expectTerminator rest
      = reject (.trailing rest.lookahead.kind rest.lookahead.text) rest := by
    simp only [expectTerminator, going, Bool.false_eq_true, if_false]
  rw [line_eq, bind_of_ok ran, bind_of_error left]

end Ends

end Parser

namespace Token
namespace Cursor

/-- The name `cd` at the start of a line. -/
def cdToken : Token :=
  { kind := .word, text := "cd", span := { start := 0, stop := 2 } }

/-- A path behind `cd` is read from its own place. -/
theorem read_cd {path : String} (nonempty : path ≠ "")
    (plain : ∀ char ∈ path.toList, isPlain char = true) :
    read (start ("cd " ++ path))
      = { tokens := cdToken :: (read ⟨path.toList, 3⟩).tokens
          cursor := (read ⟨path.toList, 3⟩).cursor
          fault := (read ⟨path.toList, 3⟩).fault } := by
  have begun : start ("cd " ++ path) = ⟨'c' :: 'd' :: ' ' :: path.toList, 0⟩ := by
    rw [start, String.toList_append]
    rfl
  have found : ahead ⟨'c' :: 'd' :: ' ' :: path.toList, 0⟩ = .ok (.word, 2) :=
    ahead_of_scan? rfl
  have visible : Visible path.toList := by
    cases shape : path.toList with
    | nil => exact absurd (String.toList_eq_nil_iff.mp shape) nonempty
    | cons first others =>
        refine ⟨first, others, rfl, ?_⟩
        rintro rfl
        exact absurd (plain ' ' (shape ▸ List.mem_cons_self)) (by decide)
  have space : ∀ char ∈ [' '], char = ' ' := List.forall_mem_singleton.mpr rfl
  have further : advance ⟨'c' :: 'd' :: ' ' :: path.toList, 0⟩ 2 = ⟨path.toList, 3⟩ :=
    skipSpaces_of_visible space visible 2
  rw [begun, read_of_token found Kind.noConfusion, further]
  rfl

/-- Behind `cd` a plain path is cut into fragments. -/
theorem exists_fragments {path : String} (nonempty : path ≠ "")
    (plain : ∀ char ∈ path.toList, isPlain char = true) :
    ∃ first others, (start ("cd " ++ path)).read.tokens
        = cdToken :: first :: (others ++ [Parser.endToken (3 + path.utf8ByteSize)])
      ∧ (start ("cd " ++ path)).read.fault = none
      ∧ first.span.start = 3 ∧ Abut first.span.stop others (3 + path.utf8ByteSize)
      ∧ (∀ fragment ∈ first :: others, fragment.IsFragment)
      ∧ String.join ((first :: others).map Token.text) = path := by
  let behind : Cursor := ⟨path.toList, 3⟩
  have plainBehind : ∀ char ∈ behind.rest, isPlain char = true := plain
  rcases read_of_plain plainBehind with ⟨fragments, tokens, whole, abut, areFragments, texts⟩
  rw [String.ofList_toList] at texts
  rw [Text.byteSize_toList] at tokens abut
  rw [read_cd nonempty plain]
  cases fragments with
  | nil => exact absurd texts.symm nonempty
  | cons first others =>
      cases abut with
      | cons begins abut =>
          refine ⟨first, others, ?_, whole, begins, abut, areFragments, texts⟩
          exact congrArg (cdToken :: ·) tokens

end Cursor
end Token

namespace Parser

/-- The parser calls the command that changes the directory if a line begins with
`cd`. -/
theorem start_of_cd {line : String} {first : Token} {others : List Token}
    (shape : (Token.Cursor.start line).read.tokens = Token.Cursor.cdToken :: first :: others)
    (whole : (Token.Cursor.start line).read.fault = none) :
    ∃ state between builtin, start line = .ok state
      ∧ statement state = commandAfter expression builtin Token.Cursor.cdToken between
      ∧ builtin.action = .cd ∧ between.tokens = first :: others ∧ between.fault? = none
      ∧ between.depth + 1 ≤ maxDepth := by
  rcases start_of_tokens shape with ⟨state, begun, lookahead, upcoming, fault, _, depth⟩
  have tokens : state.tokens = [Token.Cursor.cdToken] ++ first :: others := by
    rw [State.tokens, lookahead, upcoming]
    rfl
  obtain ⟨builtin, found, action⟩ :
      ∃ builtin, Builtin.find? Token.Cursor.cdToken.text = some builtin ∧ builtin.action = .cd :=
    ⟨_, rfl, rfl⟩
  have room : state.depth + 1 ≤ maxDepth := by
    rw [depth]
    decide
  exact ⟨state, _, builtin, begun, opens_call rfl found state first others tokens, action, rfl,
    fault.trans whole, room⟩

end Parser

namespace Command

/-- A plain path behind `cd` is glued together whole, if its first fragment can
begin a path and no later one is a boolean.  A first fragment that is a boolean or
a lone slash is refused, and a later boolean is left over. -/
theorem parseLine_cd {path : String} (nonempty : path ≠ "")
    (plain : ∀ char ∈ path.toList, Token.isPlain char = true) :
    ∃ name first others last,
      (Token.Cursor.start ("cd " ++ path)).read.tokens = name :: first :: others ++ [last]
      ∧ (∀ token ∈ first :: others, token.IsFragment)
      ∧ String.join ((first :: others).map Token.text) = path
      ∧ (first.kind ∈ Parser.pathKinds -> (∀ piece ∈ others, piece.kind ≠ .boolean) ->
        parseLine ("cd " ++ path)
          = .ok [{ name := "cd", action := .cd, parameters := [.path path]
                   span := { start := 0, stop := 3 + path.utf8ByteSize } }])
      ∧ (first.kind ∉ Parser.pathKinds ->
        parseLine ("cd " ++ path)
          = .error (.grammatical
            (.unexpected first.kind first.text "path | word | . | number") 3))
      ∧ ∀ front piece back, first.kind ∈ Parser.pathKinds -> others = front ++ piece :: back ->
        (∀ earlier ∈ front, earlier.kind ≠ .boolean) -> piece.kind = .boolean ->
        parseLine ("cd " ++ path)
          = .error (.grammatical (.trailing .boolean piece.text) piece.span.start) := by
  rcases Token.Cursor.exists_fragments nonempty plain with
    ⟨first, others, shape, whole, begins, abut, areFragments, texts⟩
  rcases Parser.start_of_cd shape whole with
    ⟨state, between, builtin, begun, stated, action, tokens, fault, room⟩
  rcases List.forall_mem_cons.mp areFragments with ⟨fragment, areFurther⟩
  have ahead : between.lookahead = first := (List.cons.inj tokens).1
  refine ⟨_, first, others, _, shape, areFragments, texts, ?_, ?_, ?_⟩
  · intro canBegin noBoolean
    have arePieces : ∀ piece ∈ others, Parser.isPathPiece piece = true := fun piece member =>
      Parser.isPathPiece_of_fragment (areFurther piece member) (noBoolean piece member)
    have glued := stated.trans
      (Parser.commandAfter_of_abut action room canBegin abut arePieces rfl tokens)
    rw [texts] at glued
    rcases Parser.line_of_last glued rfl rfl fault with ⟨after, ran⟩
    exact parseLine_of_ok begun ran
  · intro cannotBegin
    rw [← ahead] at cannotBegin fragment begins
    rcases Parser.commandAfter_of_other action room fragment cannotBegin with ⟨after, refused⟩
    rw [ahead] at refused begins
    rw [begins] at refused
    exact parseLine_of_error begun (Parser.line_of_error (stated.trans refused))
  · rintro front piece back canBegin rfl noBoolean isBoolean
    have arePieces : ∀ earlier ∈ front, Parser.isPathPiece earlier = true := fun earlier member =>
      Parser.isPathPiece_of_fragment (areFurther earlier (List.mem_append_left _ member))
        (noBoolean earlier member)
    have pieces : between.tokens
        = first :: front ++ piece :: (back ++ [Parser.endToken (3 + path.utf8ByteSize)]) := by
      rw [tokens, List.append_assoc]
      rfl
    have glued := stated.trans (Parser.commandAfter_of_abut action room canBegin abut.front
      arePieces (Parser.isPathPiece_of_boolean isBoolean) pieces)
    have going : piece.kind.isTerminator = false := by
      rw [isBoolean]
      rfl
    rw [← isBoolean]
    exact parseLine_of_error begun (Parser.line_of_trailing glued going)

theorem parseLine_cd_pieces :
    let path := "a.1/9_x../b"
    path ≠ "" ∧ (∀ char ∈ path.toList, Token.isPlain char = true)
      ∧ (Token.Cursor.start ("cd " ++ path)).read.tokens.map Token.text
        = ["cd", "a", ".", "1", "/", "9", "_x", "../b", ""]
      ∧ parseLine ("cd " ++ path)
        = .ok [{ name := "cd", action := .cd, parameters := [.path path]
                 span := { start := 0, stop := 14 } }] := by
  intro path
  have nonempty : path ≠ "" := by decide
  have plain : ∀ char ∈ path.toList, Token.isPlain char = true :=
    List.all_eq_true.mp (by decide)
  have texts : (Token.Cursor.start ("cd " ++ path)).read.tokens.map Token.text
      = ["cd", "a", ".", "1", "/", "9", "_x", "../b", ""] := by
    decide +kernel
  have isWord : (Token.Cursor.start ("cd " ++ path)).read.tokens[1]?.map Token.kind
      = some .word := by
    decide +kernel
  have noBoolean : ∀ token ∈ (Token.Cursor.start ("cd " ++ path)).read.tokens,
      token.kind ≠ .boolean := by
    decide +kernel
  rcases parseLine_cd nonempty plain with ⟨name, first, others, last, shape, _, _, glued, _⟩
  rw [shape] at isWord noBoolean
  have canBegin : first.kind ∈ Parser.pathKinds := by
    have kind : first.kind = .word := Option.some.inj isWord
    rw [kind]
    decide
  refine ⟨nonempty, plain, texts, glued canBegin fun piece member => noBoolean piece ?_⟩
  exact List.mem_append_left _ (List.mem_cons_of_mem _ (List.mem_cons_of_mem _ member))

/-- The root is a plain path, but `cd` does not take it without quotes. -/
theorem parseLine_cd_root :
    let path := "/"
    path ≠ "" ∧ (∀ char ∈ path.toList, Token.isPlain char = true)
      ∧ parseLine ("cd " ++ path)
        = .error (.grammatical (.unexpected .multiplicative "/" "path | word | . | number") 3) := by
  intro path
  refine ⟨by decide, List.all_eq_true.mp (by decide), ?_⟩
  dsimp only [path]
  with_unfolding_all rfl

end Command
end LineShell
