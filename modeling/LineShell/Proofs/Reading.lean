import LineShell.Proofs.Relocation
import LineShell.Proofs.Scanning
import LineShell.Token.Cursor
import Mathlib.Data.List.DropRight

namespace LineShell
namespace Token
namespace Cursor

/-!
# Reading a line to its end

A reading ends in one of two ways: at the end of the line, which is its last
token and the only one of its kind, or at a fault, and then it has no such
token.  The equations below take a reading apart token by token.  From them
follow the three ways in which lines are put together elsewhere: a line that is
moved to the right, two lines with a semicolon between them, and tokens with a
single space between them.
-/

/-! ## One token at a time -/

theorem readFrom_of_fault {cursor : Cursor} {fault : Fault} (failed : cursor.ahead = .error fault)
    (taken : List Token) :
    cursor.readFrom taken = { tokens := taken.reverse, cursor, fault := some fault } := by
  rw [readFrom]
  split <;> rename_i found <;> rw [failed] at found <;> cases found
  rfl

theorem readFrom_of_end {cursor : Cursor} {length : Nat}
    (ahead : cursor.ahead = .ok (.endOfLine, length)) (taken : List Token) :
    cursor.readFrom taken
      = { tokens := (cursor.token .endOfLine length :: taken).reverse
          cursor := cursor.advance length
          fault := none } := by
  rw [readFrom]
  split <;> rename_i found <;> rw [ahead] at found <;> cases found
  rw [dif_pos rfl]

theorem readFrom_of_token {cursor : Cursor} {kind : Kind} {length : Nat}
    (ahead : cursor.ahead = .ok (kind, length)) (going : kind ≠ .endOfLine) (taken : List Token) :
    cursor.readFrom taken
      = (cursor.advance length).readFrom (cursor.token kind length :: taken) := by
  rw [readFrom]
  split <;> rename_i found <;> rw [ahead] at found <;> cases found
  rw [dif_neg going]

/-- Induction over a reading: it stops at a fault, at the end of the line, or
goes on behind a token. -/
theorem read_induction {motive : Cursor -> Prop}
    (atFault : ∀ cursor fault, cursor.ahead = .error fault -> motive cursor)
    (atEnd : ∀ cursor length, cursor.ahead = .ok (.endOfLine, length) -> motive cursor)
    (atToken : ∀ cursor kind length, cursor.ahead = .ok (kind, length) -> kind ≠ .endOfLine ->
      motive (cursor.advance length) -> motive cursor)
    (cursor : Cursor) : motive cursor := by
  cases found : cursor.ahead with
  | error fault => exact atFault cursor fault found
  | ok next =>
      rcases next with ⟨kind, length⟩
      by_cases ending : kind = .endOfLine
      · subst ending
        exact atEnd cursor length found
      · exact atToken cursor kind length found ending
          (read_induction atFault atEnd atToken (cursor.advance length))
termination_by cursor.rest.length
decreasing_by exact advance_shorter found ending

theorem readFrom_eq (taken : List Token) (cursor : Cursor) :
    cursor.readFrom taken
      = { tokens := taken.reverse ++ cursor.read.tokens
          cursor := cursor.read.cursor
          fault := cursor.read.fault } := by
  induction cursor using read_induction generalizing taken with
  | atFault cursor fault failed =>
      simp only [read, readFrom_of_fault failed, List.reverse_nil, List.append_nil]
  | atEnd cursor length found =>
      simp only [read, readFrom_of_end found, List.reverse_cons, List.reverse_nil, List.nil_append]
  | atToken cursor kind length found going ih =>
      rw [read, readFrom_of_token found going, readFrom_of_token found going, ih, ih]
      simp only [List.reverse_cons, List.reverse_nil, List.nil_append, List.append_assoc]

theorem read_of_fault {cursor : Cursor} {fault : Fault} (failed : cursor.ahead = .error fault) :
    cursor.read = { tokens := [], cursor, fault := some fault } :=
  readFrom_of_fault failed []

theorem read_of_end {cursor : Cursor} {length : Nat}
    (found : cursor.ahead = .ok (.endOfLine, length)) :
    cursor.read = { tokens := [cursor.token .endOfLine length], cursor := cursor.advance length
                    fault := none } :=
  readFrom_of_end found []

theorem read_of_token {cursor : Cursor} {kind : Kind} {length : Nat}
    (found : cursor.ahead = .ok (kind, length)) (going : kind ≠ .endOfLine) :
    cursor.read = { tokens := cursor.token kind length :: (cursor.advance length).read.tokens
                    cursor := (cursor.advance length).read.cursor
                    fault := (cursor.advance length).read.fault } := by
  rw [read, readFrom_of_token found going, readFrom_eq]
  rfl

/-- The first token that is read is the one that comes next. -/
theorem peek_of_read {cursor : Cursor} {first : Token} {others : List Token}
    (shape : cursor.read.tokens = first :: others) : cursor.peek = .ok first := by
  cases found : cursor.ahead with
  | error fault =>
      rw [read_of_fault found] at shape
      cases shape
  | ok next =>
      rcases next with ⟨kind, length⟩
      by_cases ending : kind = .endOfLine
      · subst ending
        rw [read_of_end found] at shape
        rw [peek, found, ← (List.cons.inj shape).1]
        rfl
      · rw [read_of_token found ending] at shape
        rw [peek, found, ← (List.cons.inj shape).1]
        rfl

/-- How a list of tokens ends: without a fault the end of the line is its last
token, and there is no other; with a fault there is none at all. -/
def EndsProperly (tokens : List Token) (fault : Option Fault) : Prop :=
  match fault with
  | none => ∃ before last, tokens = before ++ [last] ∧ last.kind = .endOfLine
      ∧ ∀ token ∈ before, token.kind ≠ .endOfLine
  | some _ => ∀ token ∈ tokens, token.kind ≠ .endOfLine

theorem endsProperly_cons {token : Token} {tokens : List Token} {fault : Option Fault}
    (going : token.kind ≠ .endOfLine) (ends : EndsProperly tokens fault) :
    EndsProperly (token :: tokens) fault := by
  cases fault with
  | none =>
      rcases ends with ⟨before, last, rfl, ending, others⟩
      refine ⟨token :: before, last, rfl, ending, ?_⟩
      intro other member
      rcases List.mem_cons.mp member with rfl | member
      · exact going
      · exact others other member
  | some fault =>
      intro other member
      rcases List.mem_cons.mp member with rfl | member
      · exact going
      · exact ends other member

theorem read_endsProperly (cursor : Cursor) :
    EndsProperly cursor.read.tokens cursor.read.fault := by
  induction cursor using read_induction with
  | atFault cursor fault failed =>
      rw [read_of_fault failed]
      intro token member
      cases member
  | atEnd cursor length found =>
      rw [read_of_end found]
      exact ⟨[], _, rfl, rfl, fun _ member => absurd member List.not_mem_nil⟩
  | atToken cursor kind length found going ih =>
      rw [read_of_token found going]
      exact endsProperly_cons going ih

/-! ## What comes next -/

theorem ahead_of_blank {cursor : Cursor} (blank : cursor.rest.all Text.isBlank = true) :
    cursor.ahead = .ok (.endOfLine, cursor.rest.length) := by
  rw [ahead, if_pos blank]

theorem ahead_of_scan? {cursor : Cursor} {kind : Kind} {length : Nat}
    (scanned : scan? cursor.rest = some (kind, length)) : cursor.ahead = .ok (kind, length) := by
  have visible : ¬cursor.rest.all Text.isBlank = true := by
    intro blank
    cases shape : cursor.rest with
    | nil =>
        rw [shape] at scanned
        cases scanned
    | cons first rest =>
        rw [shape] at scanned blank
        rw [List.all_cons, isBlank_of_scan? scanned, Bool.false_and] at blank
        cases blank
  rw [ahead, if_neg visible, scanned]

theorem blank_of_ahead {cursor : Cursor} {length : Nat}
    (found : cursor.ahead = .ok (.endOfLine, length)) :
    cursor.rest.all Text.isBlank = true ∧ length = cursor.rest.length := by
  rw [ahead] at found
  split at found
  · rename_i blank
    cases found
    exact ⟨blank, rfl⟩
  · split at found
    · rename_i scanned
      cases found
      exact absurd rfl (kind_of_scan? scanned)
    · cases found

theorem scan?_of_ahead {cursor : Cursor} {kind : Kind} {length : Nat}
    (found : cursor.ahead = .ok (kind, length)) (going : kind ≠ .endOfLine) :
    scan? cursor.rest = some (kind, length) := by
  rw [ahead] at found
  split at found
  · cases found
    exact absurd rfl going
  · split at found
    · rename_i scanned
      cases found
      exact scanned
    · cases found

theorem ahead_of_unknown {cursor : Cursor} (visible : ¬cursor.rest.all Text.isBlank = true)
    (unknown : scan? cursor.rest = none) :
    cursor.ahead = .error (.lexical (cursor.rest.headD ' ') cursor.offset) := by
  rw [ahead, if_neg visible, unknown]

theorem unknown_of_ahead {cursor : Cursor} {fault : Fault} (failed : cursor.ahead = .error fault) :
    ¬cursor.rest.all Text.isBlank = true ∧ scan? cursor.rest = none
      ∧ fault = .lexical (cursor.rest.headD ' ') cursor.offset := by
  rw [ahead] at failed
  split at failed
  · cases failed
  · rename_i visible
    split at failed
    · cases failed
    · rename_i unknown
      cases failed
      exact ⟨visible, unknown, rfl⟩

/-! ## A line that is moved -/

/-- The cursor over the same text, further to the right. -/
def moved (cursor : Cursor) (distance : Nat) : Cursor :=
  { cursor with offset := cursor.offset + distance }

theorem ahead_moved_of_ok {cursor : Cursor} {kind : Kind} {length : Nat}
    (found : cursor.ahead = .ok (kind, length)) (distance : Nat) :
    (cursor.moved distance).ahead = .ok (kind, length) := by
  by_cases ending : kind = .endOfLine
  · subst ending
    rcases blank_of_ahead found with ⟨blank, rfl⟩
    have still : (cursor.moved distance).rest.all Text.isBlank = true := blank
    exact ahead_of_blank still
  · have scanned := scan?_of_ahead found ending
    have still : scan? (cursor.moved distance).rest = some (kind, length) := scanned
    exact ahead_of_scan? still

theorem ahead_moved_of_error {cursor : Cursor} {fault : Fault}
    (failed : cursor.ahead = .error fault) (distance : Nat) :
    (cursor.moved distance).ahead = .error (fault.relocate (· + distance)) := by
  rcases unknown_of_ahead failed with ⟨visible, unknown, rfl⟩
  have stillVisible : ¬(cursor.moved distance).rest.all Text.isBlank = true := visible
  have stillUnknown : scan? (cursor.moved distance).rest = none := unknown
  exact ahead_of_unknown stillVisible stillUnknown

theorem token_moved (cursor : Cursor) (kind : Kind) (length distance : Nat) :
    (cursor.moved distance).token kind length
      = (cursor.token kind length).relocate (· + distance) := by
  simp only [token, moved, relocate, Span.relocate, Token.mk.injEq, Span.mk.injEq, true_and]
  omega

theorem skipSpaces_moved (cursor : Cursor) (distance : Nat) :
    (cursor.moved distance).skipSpaces = cursor.skipSpaces.moved distance := by
  simp only [skipSpaces, moved, Cursor.mk.injEq, true_and]
  omega

theorem advance_moved (cursor : Cursor) (length distance : Nat) :
    (cursor.moved distance).advance length = (cursor.advance length).moved distance := by
  rw [advance, advance, ← skipSpaces_moved]
  simp only [moved, Nat.add_right_comm]

/-- Moving a line moves its tokens and its fault. -/
theorem read_moved (cursor : Cursor) (distance : Nat) :
    (cursor.moved distance).read.tokens = cursor.read.tokens.map (Token.relocate (· + distance))
      ∧ (cursor.moved distance).read.fault
        = cursor.read.fault.map (Fault.relocate (· + distance)) := by
  induction cursor using read_induction with
  | atFault cursor fault failed =>
      rw [read_of_fault failed, read_of_fault (ahead_moved_of_error failed distance)]
      exact ⟨rfl, rfl⟩
  | atEnd cursor length found =>
      rw [read_of_end found, read_of_end (ahead_moved_of_ok found distance), token_moved]
      exact ⟨rfl, rfl⟩
  | atToken cursor kind length found going ih =>
      rw [read_of_token found going, read_of_token (ahead_moved_of_ok found distance) going,
        token_moved, advance_moved]
      exact ⟨congrArg _ ih.1, ih.2⟩

/-! ## A line with a semicolon and more behind it -/

theorem skipSpaces_append {separator : Char} (visible : separator ≠ ' ') (chars more : List Char) :
    Text.skipSpaces (chars ++ separator :: more) = Text.skipSpaces chars ++ separator :: more := by
  have stops : List.dropWhile (fun char => decide (char = ' ')) (separator :: more)
      = separator :: more :=
    List.dropWhile_cons_of_neg (by simpa using visible)
  simp only [Text.skipSpaces, List.dropWhile_append, stops]
  split
  · rename_i none
    rw [List.isEmpty_iff.mp none, List.nil_append]
  · rfl

theorem skipSpaces_skipSpaces (chars : List Char) :
    Text.skipSpaces (Text.skipSpaces chars) = Text.skipSpaces chars :=
  List.dropWhile_idempotent _ _

/-- Whether the blank characters that end a text are all spaces. -/
def EndsInSpaces (chars : List Char) : Prop :=
  ∀ char ∈ chars.reverse.takeWhile Text.isBlank, char = ' '

instance (chars : List Char) : Decidable (EndsInSpaces chars) :=
  decidable_of_iff ((chars.reverse.takeWhile Text.isBlank).all (· = ' ') = true)
    (by simp only [List.all_eq_true, decide_eq_true_eq, EndsInSpaces])

theorem endsInSpaces_of_append {left right : List Char} (ends : EndsInSpaces (left ++ right)) :
    EndsInSpaces right := by
  intro char member
  apply ends
  rw [List.reverse_append, List.takeWhile_append]
  split
  · exact List.mem_append_left _ (List.takeWhile_subset _ member)
  · exact member

theorem eq_nil_of_blank {chars : List Char} (ends : EndsInSpaces chars)
    (blank : chars.all Text.isBlank = true) (skipped : Text.skipSpaces chars = chars) :
    chars = [] := by
  cases chars with
  | nil => rfl
  | cons first rest =>
      have whole : (first :: rest).reverse.takeWhile Text.isBlank = (first :: rest).reverse := by
        apply List.takeWhile_eq_self_iff.mpr
        intro char member
        exact List.all_eq_true.mp blank char (List.mem_reverse.mp member)
      have space : first = ' ' := by
        apply ends
        rw [whole]
        exact List.mem_reverse.mpr List.mem_cons_self
      have shorter : (Text.skipSpaces rest).length ≤ rest.length :=
        (List.dropWhile_sublist _).length_le
      rw [Text.skipSpaces, List.dropWhile_cons_of_pos (by simpa using space)] at skipped
      have equal := congrArg List.length skipped
      rw [List.length_cons] at equal
      rw [Text.skipSpaces] at shorter
      omega

theorem scan?_semicolon (more : List Char) : scan? (';' :: more) = some (.semicolon, 1) := by
  have noPath : pathLength? (';' :: more) = none := by
    cases more with
    | nil => rfl
    | cons second rest => simp [pathLength?]
  have symbol : symbol? (';' :: more) = some (.semicolon, 1) := rfl
  rw [scan?.eq_def]
  simp only [noPath, symbol]
  rfl

/-- The cursor over a line that a separator and more text were put behind. -/
def followed (cursor : Cursor) (separator : Char) (more : List Char) : Cursor :=
  { cursor with rest := cursor.rest ++ separator :: more }

section Followed

variable {separator : Char} (visible : separator ≠ ' ') (cursor : Cursor) (more : List Char)
include visible

theorem skipSpaces_followed :
    (cursor.followed separator more).skipSpaces = cursor.skipSpaces.followed separator more := by
  have sameSpaces : run (fun char => decide (char = ' ')) (cursor.rest ++ separator :: more)
      = run (fun char => decide (char = ' ')) cursor.rest :=
    run_append_separator (decide_eq_false visible) _ _
  simp only [skipSpaces, followed, skipSpaces_append visible, sameSpaces]

theorem advance_followed {length : Nat} (within : length ≤ cursor.rest.length) :
    (cursor.followed separator more).advance length
      = (cursor.advance length).followed separator more := by
  rw [advance, advance, ← skipSpaces_followed visible]
  simp only [followed, List.drop_append_of_le_length within, List.take_append_of_le_length within]

end Followed

/-- The cursor over a line that a semicolon and more text were put behind. -/
def joined (cursor : Cursor) (more : List Char) : Cursor :=
  cursor.followed ';' more

def semicolonAt (offset : Nat) : Token :=
  { kind := .semicolon, text := ";", span := { start := offset, stop := offset + 1 } }

theorem byteSize_skipSpaces (chars : List Char) :
    run (fun char => decide (char = ' ')) chars + Text.byteSize (Text.skipSpaces chars)
      = Text.byteSize chars := by
  induction chars with
  | nil => rfl
  | cons first rest ih =>
      by_cases space : first = ' '
      · subst space
        simp only [run, Text.skipSpaces, decide_true, List.takeWhile_cons_of_pos,
          List.dropWhile_cons_of_pos, List.length_cons, Text.byteSize_cons] at ih ⊢
        have single : ' '.utf8Size = 1 := rfl
        omega
      · simp only [run, Text.skipSpaces, space, decide_false, Bool.false_eq_true,
          not_false_eq_true, List.takeWhile_cons_of_neg, List.dropWhile_cons_of_neg,
          List.length_nil, Nat.zero_add]

theorem byteSize_advance (cursor : Cursor) (length : Nat) :
    (cursor.advance length).offset + Text.byteSize (cursor.advance length).rest
      = cursor.offset + Text.byteSize cursor.rest := by
  have parts : Text.byteSize (cursor.rest.take length) + Text.byteSize (cursor.rest.drop length)
      = Text.byteSize cursor.rest := by
    rw [← Text.byteSize_append, List.take_append_drop]
  have spaces := byteSize_skipSpaces (cursor.rest.drop length)
  simp only [advance, skipSpaces]
  omega

theorem endsInSpaces_skipSpaces {chars : List Char} (ends : EndsInSpaces chars) :
    EndsInSpaces (Text.skipSpaces chars) := by
  rw [← List.takeWhile_append_dropWhile (p := fun char => decide (char = ' ')) (l := chars)] at ends
  exact endsInSpaces_of_append ends

theorem suffix_advance (cursor : Cursor) (length : Nat) :
    (cursor.advance length).rest <:+ cursor.rest :=
  (List.dropWhile_suffix _).trans (List.drop_suffix _ _)

/-- The tokens of a line stay when a separator and more text are put behind it.
What follows them is read from behind the last token, where blank characters may
stand before the separator. -/
theorem read_followed {separator : Char} (separates : separator ∈ separators)
    (visible : separator ≠ ' ') (cursor : Cursor) (more : List Char)
    (skipped : Text.skipSpaces cursor.rest = cursor.rest) (whole : cursor.read.fault = none) :
    ∃ (before : List Token) (last : Token) (final : Cursor),
      cursor.read.tokens = before ++ [last] ∧ last.kind = .endOfLine
      ∧ (∀ token ∈ before, token.kind ≠ .endOfLine) ∧ last.span.start = final.offset
      ∧ final.rest <:+ cursor.rest ∧ final.rest.all Text.isBlank = true
      ∧ Text.skipSpaces final.rest = final.rest
      ∧ final.offset + Text.byteSize final.rest = cursor.offset + Text.byteSize cursor.rest
      ∧ (cursor.followed separator more).read.tokens
        = before ++ (final.followed separator more).read.tokens
      ∧ (cursor.followed separator more).read.fault
        = (final.followed separator more).read.fault := by
  induction cursor using read_induction with
  | atFault cursor fault failed =>
      rw [read_of_fault failed] at whole
      cases whole
  | atEnd cursor length found =>
      rcases blank_of_ahead found with ⟨blank, rfl⟩
      refine ⟨[], _, cursor, by rw [read_of_end found]; rfl, rfl, ?_, rfl, List.suffix_refl _,
        blank, skipped, rfl, rfl, rfl⟩
      intro token member
      cases member
  | atToken cursor kind length found going ih =>
      have scanned := scan?_of_ahead found going
      have within := scan?_le scanned
      have further : scan? (cursor.followed separator more).rest = some (kind, length) :=
        scan?_append separates scanned more
      have sameToken : (cursor.followed separator more).token kind length
          = cursor.token kind length := by
        simp only [token, followed, List.take_append_of_le_length within]
      rw [read_of_token found going] at whole
      rcases ih (skipSpaces_skipSpaces _) whole with
        ⟨before, last, final, tokens, ending, others, start, suffix, blank, still, place,
          followedTokens, followedFault⟩
      refine ⟨cursor.token kind length :: before, last, final, ?_, ending, ?_, start,
        suffix.trans (suffix_advance cursor length), blank, still, ?_, ?_, ?_⟩
      · rw [read_of_token found going, tokens, List.cons_append]
      · intro token member
        rcases List.mem_cons.mp member with rfl | member
        · exact going
        · exact others token member
      · rw [place, byteSize_advance]
      · rw [read_of_token (ahead_of_scan? further) going, advance_followed visible _ _ within,
          followedTokens, sameToken, List.cons_append]
      · rw [read_of_token (ahead_of_scan? further) going, advance_followed visible _ _ within,
          followedFault]

/-- The tokens of a line stay when a semicolon and another line are put behind
it: the end of the line becomes the semicolon, and the tokens of the other line
follow. -/
theorem read_joined (cursor : Cursor) (more : List Char)
    (skipped : Text.skipSpaces cursor.rest = cursor.rest) (ends : EndsInSpaces cursor.rest)
    (whole : cursor.read.fault = none) :
    ∃ before last offset, cursor.read.tokens = before ++ [last]
      ∧ offset = cursor.offset + Text.byteSize cursor.rest
      ∧ last.kind = .endOfLine ∧ last.span.start = offset
      ∧ (∀ token ∈ before, token.kind ≠ .endOfLine)
      ∧ (cursor.joined more).read.tokens
        = before ++ semicolonAt offset :: (skipSpaces ⟨more, offset + 1⟩).read.tokens
      ∧ (cursor.joined more).read.fault = (skipSpaces ⟨more, offset + 1⟩).read.fault := by
  have separates : ';' ∈ separators := by decide
  rcases read_followed separates (by decide) cursor more skipped whole with
    ⟨before, last, ⟨rest, offset⟩, tokens, ending, others, start, ⟨front, shape⟩, blank, still,
      place, followedTokens, followedFault⟩
  rw [← shape] at ends
  obtain rfl : rest = [] := eq_nil_of_blank (endsInSpaces_of_append ends) blank still
  have found : (followed ⟨[], offset⟩ ';' more).ahead = .ok (.semicolon, 1) :=
    ahead_of_scan? (scan?_semicolon more)
  have behind : (followed ⟨[], offset⟩ ';' more).read
      = { tokens := semicolonAt offset :: (skipSpaces ⟨more, offset + 1⟩).read.tokens
          cursor := (skipSpaces ⟨more, offset + 1⟩).read.cursor
          fault := (skipSpaces ⟨more, offset + 1⟩).read.fault } :=
    read_of_token found Kind.noConfusion
  rw [behind] at followedTokens followedFault
  exact ⟨before, last, offset, tokens, place, ending, start, others, followedTokens, followedFault⟩

end Cursor

/-! ## Tokens with single spaces between them -/

/-- A token apart from its place. -/
structure Lexeme where
  kind : Kind
  text : String
  deriving DecidableEq, Repr

def lexeme (token : Token) : Lexeme :=
  { kind := token.kind, text := token.text }

namespace Lexeme

/-- Whether the text of a lexeme is one token, of its kind. -/
def IsWhole (lexeme : Lexeme) : Prop :=
  scan? lexeme.text.toList = some (lexeme.kind, lexeme.text.toList.length)

/-- The line that lexemes make with a space between neighbours. -/
def spaced (lexemes : List Lexeme) : String :=
  String.intercalate " " (lexemes.map text)

/-- The lexeme of the end of a line without blanks. -/
def ending : Lexeme :=
  { kind := .endOfLine, text := "" }

theorem toList_spaced_cons (lexeme : Lexeme) {lexemes : List Lexeme} (more : lexemes ≠ []) :
    (spaced (lexeme :: lexemes)).toList = lexeme.text.toList ++ ' ' :: (spaced lexemes).toList := by
  have nonempty : lexemes.map text ≠ [] := by simpa using more
  rw [spaced, List.map_cons, String.intercalate_cons_of_ne_nil nonempty, spaced]
  simp

theorem skipSpaces_spaced {lexemes : List Lexeme} (whole : ∀ lexeme ∈ lexemes, lexeme.IsWhole) :
    Text.skipSpaces (spaced lexemes).toList = (spaced lexemes).toList := by
  have visible : ∀ lexeme : Lexeme, lexeme.IsWhole -> ∀ more,
      Text.skipSpaces (lexeme.text.toList ++ more) = lexeme.text.toList ++ more := by
    intro lexeme single more
    rw [IsWhole] at single
    cases shape : lexeme.text.toList with
    | nil =>
        rw [shape] at single
        cases single
    | cons first rest =>
        rw [shape] at single
        have notSpace : first ≠ ' ' := by
          rintro rfl
          exact absurd (isBlank_of_scan? single) (by decide)
        exact List.dropWhile_cons_of_neg (by simpa using notSpace)
  cases lexemes with
  | nil => rfl
  | cons lexeme lexemes =>
      have single := whole lexeme List.mem_cons_self
      by_cases last : lexemes = []
      · subst last
        have alone := visible lexeme single []
        rw [List.append_nil] at alone
        simpa only [spaced, List.map_cons, List.map_nil, String.intercalate_singleton] using alone
      · rw [toList_spaced_cons lexeme last]
        exact visible lexeme single _

end Lexeme

namespace Cursor

/-- Reading gives back lexemes that were written with single spaces. -/
theorem read_spaced (lexemes : List Lexeme) (offset : Nat)
    (whole : ∀ lexeme ∈ lexemes, lexeme.IsWhole) :
    (read ⟨(Lexeme.spaced lexemes).toList, offset⟩).tokens.map lexeme
        = lexemes ++ [Lexeme.ending]
      ∧ (read ⟨(Lexeme.spaced lexemes).toList, offset⟩).fault = none := by
  induction lexemes generalizing offset with
  | nil =>
      have found : ahead ⟨[], offset⟩ = .ok (.endOfLine, 0) := ahead_of_blank rfl
      rw [Lexeme.spaced, List.map_nil, String.intercalate_nil, String.toList_empty,
        read_of_end found]
      exact ⟨rfl, rfl⟩
  | cons lexeme lexemes ih =>
      have single : scan? lexeme.text.toList = some (lexeme.kind, lexeme.text.toList.length) :=
        whole lexeme List.mem_cons_self
      have others : ∀ other ∈ lexemes, other.IsWhole :=
        fun other member => whole other (List.mem_cons_of_mem _ member)
      have going := kind_of_scan? single
      by_cases last : lexemes = []
      · subst last
        have found : ahead ⟨lexeme.text.toList, offset⟩
            = .ok (lexeme.kind, lexeme.text.toList.length) := ahead_of_scan? single
        have next : advance ⟨lexeme.text.toList, offset⟩ lexeme.text.toList.length
            = ⟨[], offset + Text.byteSize lexeme.text.toList⟩ := by
          simp only [advance, List.drop_length, List.take_length]
          rfl
        have rest := ih (offset + Text.byteSize lexeme.text.toList) others
        simp only [Lexeme.spaced, List.map_nil, String.intercalate_nil, String.toList_empty] at rest
        rw [Lexeme.spaced, List.map_cons, List.map_nil, String.intercalate_singleton,
          read_of_token found going, next]
        refine ⟨?_, rest.2⟩
        rw [List.map_cons, rest.1]
        simp only [Token.lexeme, token, List.take_length, String.ofList_toList, List.nil_append,
          List.singleton_append]
      · have separates : ' ' ∈ separators := by decide
        have scanned := scan?_append separates single (Lexeme.spaced lexemes).toList
        have found : ahead ⟨lexeme.text.toList ++ ' ' :: (Lexeme.spaced lexemes).toList, offset⟩
            = .ok (lexeme.kind, lexeme.text.toList.length) := ahead_of_scan? scanned
        obtain ⟨behind, next⟩ : ∃ behind,
            advance ⟨lexeme.text.toList ++ ' ' :: (Lexeme.spaced lexemes).toList, offset⟩
              lexeme.text.toList.length = ⟨(Lexeme.spaced lexemes).toList, behind⟩ := by
          have skipped : Text.skipSpaces (' ' :: (Lexeme.spaced lexemes).toList)
              = (Lexeme.spaced lexemes).toList := Lexeme.skipSpaces_spaced others
          simp only [advance, List.drop_left, skipSpaces, skipped, Cursor.mk.injEq, true_and]
          exact ⟨_, rfl⟩
        have rest := ih behind others
        rw [Lexeme.toList_spaced_cons lexeme last, read_of_token found going, next]
        refine ⟨?_, rest.2⟩
        rw [List.map_cons, rest.1]
        simp only [Token.lexeme, token, List.take_left, String.ofList_toList, List.cons_append]

theorem read_start_spaced {lexemes : List Lexeme} (whole : ∀ lexeme ∈ lexemes, lexeme.IsWhole) :
    (start (Lexeme.spaced lexemes)).read.tokens.map lexeme = lexemes ++ [Lexeme.ending]
      ∧ (start (Lexeme.spaced lexemes)).read.fault = none := by
  obtain ⟨offset, begins⟩ : ∃ offset, start (Lexeme.spaced lexemes)
      = ⟨(Lexeme.spaced lexemes).toList, offset⟩ := by
    simp only [start, skipSpaces, Lexeme.skipSpaces_spaced whole]
    exact ⟨_, rfl⟩
  rw [begins]
  exact read_spaced lexemes offset whole

end Cursor
end Token
end LineShell
