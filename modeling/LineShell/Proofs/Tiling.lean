import LineShell.Proofs.LongestMatch
import Mathlib.Data.String.Basic

namespace LineShell

/-!
# Tokens tile their line

A token knows its text and the place where it stands.  Both belong together: the
text is what the line has at that place, and every place lies between two
characters, however many bytes these take.  The tokens stand one behind the
other with nothing but spaces around them, from the start of the line to its
end, or to the character at which reading stops.

The cursor carries characters and counts bytes.  So the argument goes through
the characters that stand on a stretch of the line, and is put into terms of
positions at the end.
-/

/-! ## Stretches of a line -/

theorem Text.byteSize_eq_utf8Len (chars : List Char) : byteSize chars = String.utf8Len chars := by
  rw [byteSize_eq, String.utf8ByteSize_ofList]

theorem Text.byteSize_replicate_space (count : Nat) :
    byteSize (List.replicate count ' ') = count := by
  induction count with
  | zero => rfl
  | succ count ih =>
      have single : ' '.utf8Size = 1 := rfl
      rw [List.replicate_succ, byteSize_cons, ih, single, Nat.add_comm]

theorem Text.prefix_of_byteSize_le {chars left right : List Char} (isLeft : left <+: chars)
    (isRight : right <+: chars) (fits : byteSize left ≤ byteSize right) : left <+: right := by
  rcases List.prefix_or_prefix_of_prefix isLeft isRight with shorter | ⟨rest, rfl⟩
  · exact shorter
  · cases rest with
    | nil => rw [List.append_nil]
    | cons first others =>
        have positive := byteSize_pos (List.cons_ne_nil first others)
        rw [byteSize_append] at fits
        omega

theorem Text.eq_of_byteSize_eq {chars left right : List Char} (isLeft : left <+: chars)
    (isRight : right <+: chars) (same : byteSize left = byteSize right) : left = right := by
  have leftFirst := prefix_of_byteSize_le isLeft isRight same.le
  have rightFirst := prefix_of_byteSize_le isRight isLeft same.ge
  exact leftFirst.eq_of_length (Nat.le_antisymm leftFirst.length_le rightFirst.length_le)

namespace Span

/-- The text on a stretch of a line. -/
def slice (line : String) (span : Span) : String :=
  String.Pos.Raw.extract line ⟨span.start⟩ ⟨span.stop⟩

/-- A stretch lies within a line, and both its ends stand between characters. -/
structure IsWithin (line : String) (span : Span) : Prop where
  start_le_stop : span.start ≤ span.stop
  start_valid : String.Pos.Raw.IsValid line ⟨span.start⟩
  stop_valid : String.Pos.Raw.IsValid line ⟨span.stop⟩

/-- A stretch of a line with nothing on it but spaces, one for each byte. -/
structure IsGap (line : String) (span : Span) : Prop extends IsWithin line span where
  slice_eq : span.slice line = Text.spaces (span.stop - span.start)

/-- The characters are those that stand on a stretch of a line. -/
def Holds (line : String) (span : Span) (chars : List Char) : Prop :=
  ∃ before after, line.toList = before ++ chars ++ after
    ∧ span = { start := Text.byteSize before
               stop := Text.byteSize before + Text.byteSize chars }

section Holding

variable {line : String} {span : Span} {chars : List Char}

theorem isValid_of_append {before after : List Char} (shape : line.toList = before ++ after) :
    String.Pos.Raw.IsValid line ⟨Text.byteSize before⟩ := by
  apply String.Pos.Raw.isValid_iff_exists_append.mpr
  refine ⟨String.ofList before, String.ofList after, ?_, ?_⟩
  · rw [← String.ofList_append, ← shape, String.ofList_toList]
  · rw [String.rawEndPos_ofList, Text.byteSize_eq_utf8Len]

theorem Holds.isWithin (holds : Holds line span chars) : span.IsWithin line := by
  rcases holds with ⟨before, after, shape, rfl⟩
  constructor
  · exact Nat.le_add_right _ _
  · rw [List.append_assoc] at shape
    exact isValid_of_append shape
  · have valid := isValid_of_append shape
    rw [Text.byteSize_append] at valid
    exact valid

theorem Holds.slice_eq (holds : Holds line span chars) :
    span.slice line = String.ofList chars := by
  rcases holds with ⟨before, after, shape, rfl⟩
  rw [slice, ← String.ofList_toList (s := line), shape, Text.byteSize_eq_utf8Len,
    Text.byteSize_eq_utf8Len, String.extract_of_valid]

theorem Holds.isGap (holds : Holds line span chars) (spaces : ∀ char ∈ chars, char = ' ') :
    span.IsGap line := by
  have uniform : chars = List.replicate chars.length ' ' := List.eq_replicate_of_mem spaces
  have size : span.stop - span.start = chars.length := by
    rcases holds with ⟨before, after, _, rfl⟩
    rw [Nat.add_sub_cancel_left, uniform, Text.byteSize_replicate_space, List.length_replicate]
  refine { holds.isWithin with slice_eq := ?_ }
  rw [holds.slice_eq, size, Text.spaces, ← uniform]

theorem prefix_of_isValid {place : Nat} (valid : String.Pos.Raw.IsValid line ⟨place⟩) :
    ∃ before, before <+: line.toList ∧ place = Text.byteSize before := by
  rcases String.Pos.Raw.isValid_iff_exists_append.mp valid with ⟨before, after, rfl, place⟩
  refine ⟨before.toList, ⟨after.toList, String.toList_append.symm⟩, ?_⟩
  rw [Text.byteSize_toList]
  exact congrArg String.Pos.Raw.byteIdx place

/-- Between two places that stand between characters stand characters. -/
theorem IsWithin.holds (within : span.IsWithin line) :
    span.Holds line (span.slice line).toList := by
  rcases prefix_of_isValid within.start_valid with ⟨before, isBefore, start⟩
  rcases prefix_of_isValid within.stop_valid with ⟨front, ⟨after, shape⟩, stop⟩
  obtain ⟨chars, rfl⟩ : before <+: front := by
    apply Text.prefix_of_byteSize_le isBefore ⟨after, shape⟩
    rw [← start, ← stop]
    exact within.start_le_stop
  have holds : span.Holds line chars := by
    refine ⟨before, after, shape.symm, ?_⟩
    rw [← Text.byteSize_append, ← start, ← stop]
  rw [holds.slice_eq, String.toList_ofList]
  exact holds

/-- The text on two stretches that follow each other. -/
theorem slice_append {start between stop : Nat}
    (first : IsWithin line { start, stop := between })
    (second : IsWithin line { start := between, stop }) :
    slice line { start, stop := between } ++ slice line { start := between, stop }
      = slice line { start, stop } := by
  rcases first.holds with ⟨before, after, shape, same⟩
  rcases second.holds with ⟨front, rest, shapeToo, sameToo⟩
  generalize slice line { start, stop := between } = left at shape same ⊢
  generalize slice line { start := between, stop } = right at shapeToo sameToo ⊢
  rcases Span.mk.inj same with ⟨rfl, rfl⟩
  rcases Span.mk.inj sameToo with ⟨meets, rfl⟩
  rw [← Text.byteSize_append] at meets
  obtain rfl : before ++ left.toList = front := by
    apply Text.eq_of_byteSize_eq ⟨after, shape.symm⟩ _ meets
    rw [shapeToo, List.append_assoc]
    exact List.prefix_append _ _
  have holds : Holds line
      { start := Text.byteSize before
        stop := Text.byteSize before + Text.byteSize (left.toList ++ right.toList) }
      (left.toList ++ right.toList) := by
    refine ⟨before, rest, ?_, rfl⟩
    rw [shapeToo]
    simp only [List.append_assoc]
  rw [Text.byteSize_append, ← Nat.add_assoc] at holds
  rw [Text.byteSize_append, holds.slice_eq, String.ofList_append, String.ofList_toList,
    String.ofList_toList]

end Holding
end Span

/-! ## Tilings -/

namespace Token

/-- Tokens tile a line from one byte to another: between them stand gaps, each
token has the text of its stretch, and a last gap leads to the end. -/
inductive Tiles (line : String) : Nat -> List Token -> Nat -> Prop
  | done {start stop : Nat} (gap : Span.IsGap line { start, stop }) : Tiles line start [] stop
  | token {start stop : Nat} {token : Token} {tokens : List Token}
      (gap : Span.IsGap line { start, stop := token.span.start })
      (within : token.span.IsWithin line) (text_eq : token.text = token.span.slice line)
      (others : Tiles line token.span.stop tokens stop) : Tiles line start (token :: tokens) stop

section Order

variable {line : String} {start stop : Nat} {tokens : List Token}

theorem Tiles.start_le (tiles : Tiles line start tokens stop) :
    ∀ token ∈ tokens, start ≤ token.span.start := by
  induction tiles with
  | done => exact fun _ member => absurd member List.not_mem_nil
  | token gap within _ _ ih =>
      intro other member
      rcases List.mem_cons.mp member with rfl | later
      · exact gap.start_le_stop
      · exact gap.start_le_stop.trans (within.start_le_stop.trans (ih other later))

/-- The stretches of the tokens do not overlap, and stand in order. -/
theorem Tiles.pairwise (tiles : Tiles line start tokens stop) :
    tokens.Pairwise fun earlier later => earlier.span.stop ≤ later.span.start := by
  induction tiles with
  | done => exact .nil
  | token _ _ _ others ih => exact .cons others.start_le ih

theorem Tiles.text_eq (tiles : Tiles line start tokens stop) :
    ∀ token ∈ tokens, token.span.IsWithin line ∧ token.text = token.span.slice line := by
  induction tiles with
  | done => exact fun _ member => absurd member List.not_mem_nil
  | token _ within text_eq _ ih =>
      intro other member
      rcases List.mem_cons.mp member with rfl | later
      · exact ⟨within, text_eq⟩
      · exact ih other later

end Order

/-! ## Reading -/

namespace Cursor

section Places

variable {line : String} {cursor : Cursor}

/-- The end of a line and the place of a cursor are as far apart as the rest has
bytes. -/
theorem IsAt.size_eq (stands : cursor.IsAt line) :
    line.utf8ByteSize = cursor.offset + Text.byteSize cursor.rest := by
  rcases stands with ⟨before, shape, place⟩
  rw [← Text.byteSize_toList, shape, Text.byteSize_append, place]

theorem IsAt.isValid (stands : cursor.IsAt line) :
    String.Pos.Raw.IsValid line ⟨cursor.offset⟩ := by
  rcases stands with ⟨before, shape, place⟩
  rw [place]
  exact Span.isValid_of_append shape

theorem IsAt.holds_take (stands : cursor.IsAt line) (length : Nat) :
    Span.Holds line
      { start := cursor.offset, stop := cursor.offset + Text.byteSize (cursor.rest.take length) }
      (cursor.rest.take length) := by
  rcases stands with ⟨before, shape, place⟩
  refine ⟨before, cursor.rest.drop length, ?_, ?_⟩
  · rw [List.append_assoc, List.take_append_drop]
    exact shape
  · rw [place]

theorem IsAt.get_eq (stands : cursor.IsAt line) {first : Char} {others : List Char}
    (shape : cursor.rest = first :: others) :
    String.Pos.Raw.get line ⟨cursor.offset⟩ = first := by
  rcases stands with ⟨before, parts, place⟩
  rw [← String.ofList_toList (s := line), parts, place, Text.byteSize_eq_utf8Len,
    String.get_of_valid, shape, List.headD_cons]

/-- The spaces that are skipped are a gap. -/
theorem IsAt.gap_skipSpaces (stands : cursor.IsAt line) :
    Span.IsGap line { start := cursor.offset, stop := cursor.skipSpaces.offset } := by
  have spaces : ∀ char ∈ cursor.rest.take (run (· = ' ') cursor.rest), char = ' ' :=
    fun char member => of_decide_eq_true (of_mem_take_run member)
  have size : Text.byteSize (cursor.rest.take (run (· = ' ') cursor.rest))
      = run (· = ' ') cursor.rest := by
    rw [List.eq_replicate_of_mem spaces, Text.byteSize_replicate_space,
      List.length_take_of_le (run_le_length _ _)]
  have holds := stands.holds_take (run (· = ' ') cursor.rest)
  rw [size] at holds
  exact holds.isGap spaces

/-- Between a token and the place that is reached behind it stands a gap. -/
theorem IsAt.gap_advance (stands : cursor.IsAt line) (kind : Kind) (length : Nat) :
    Span.IsGap line
      { start := (cursor.token kind length).span.stop, stop := (cursor.advance length).offset } :=
  (stands.drop length).gap_skipSpaces

theorem gap_start (line : String) :
    Span.IsGap line { start := 0, stop := (start line).offset } := by
  have stands : IsAt line { rest := line.toList, offset := 0 } := ⟨[], rfl, rfl⟩
  exact stands.gap_skipSpaces

end Places

section Tokens

variable {line : String} {cursor : Cursor}

/-- What is read from a place tiles the line from there, up to the place where
reading stops. -/
theorem IsAt.tiles_read (stands : cursor.IsAt line) {start : Nat}
    (gap : Span.IsGap line { start, stop := cursor.offset }) :
    Tiles line start cursor.read.tokens cursor.read.cursor.offset
      ∧ cursor.read.cursor.IsAt line := by
  induction cursor using read_induction generalizing start with
  | atFault cursor fault failed =>
      rw [read_of_fault failed]
      exact ⟨.done gap, stands⟩
  | atEnd cursor length found =>
      have holds := stands.holds_take length
      rw [read_of_end found]
      refine ⟨.token gap holds.isWithin holds.slice_eq.symm ?_, stands.advance length⟩
      exact .done (stands.gap_advance .endOfLine length)
  | atToken cursor kind length found going ih =>
      have holds := stands.holds_take length
      rcases ih (stands.advance length) (stands.gap_advance kind length) with ⟨others, ends⟩
      rw [read_of_token found going]
      exact ⟨.token gap holds.isWithin holds.slice_eq.symm others, ends⟩

/-- Every token before the end of the line has a text. -/
theorem text_ne_empty_of_mem_read {token : Token} (member : token ∈ cursor.read.tokens)
    (going : token.kind ≠ .endOfLine) : token.text ≠ "" := by
  rcases isNext_of_mem_read member going with ⟨_, next⟩
  intro empty
  apply next.nonempty
  rw [empty]
  rfl

/-- A reading that reaches the end of the line stops there, and so does its last
token. -/
theorem stop_of_whole (whole : cursor.read.fault = none) :
    cursor.read.cursor.rest = []
      ∧ ∀ last, cursor.read.tokens.getLast? = some last ->
          last.span.stop = cursor.offset + Text.byteSize cursor.rest := by
  induction cursor using read_induction with
  | atFault cursor fault failed =>
      rw [read_of_fault failed] at whole
      cases whole
  | atEnd cursor length found =>
      rcases blank_of_ahead found with ⟨_, rfl⟩
      rw [read_of_end found]
      constructor
      · simp only [advance, skipSpaces, List.drop_length]
        rfl
      · rintro last ⟨⟩
        simp only [token, List.take_length, List.getLast_singleton]
  | atToken cursor kind length found going ih =>
      rw [read_of_token found going] at whole ⊢
      rcases ih whole with ⟨nothing, ends⟩
      refine ⟨nothing, fun last isLast => ?_⟩
      have proper := read_endsProperly (cursor.advance length)
      rw [whole] at proper
      rcases proper with ⟨before, ending, shape, _, _⟩
      rw [← byteSize_advance cursor length]
      apply ends
      rw [shape, List.getLast?_concat]
      rw [shape, ← List.cons_append, List.getLast?_concat] at isLast
      exact isLast

/-- A reading that does not reach the end stops before the character that its
fault names. -/
theorem fault_of_read {fault : Fault} (failed : cursor.read.fault = some fault) :
    ∃ first others, cursor.read.cursor.rest = first :: others
      ∧ fault = .lexical first cursor.read.cursor.offset := by
  induction cursor using read_induction with
  | atFault cursor other stops =>
      rw [read_of_fault stops] at failed ⊢
      cases failed
      rcases unknown_of_ahead stops with ⟨visible, _, rfl⟩
      cases shape : cursor.rest with
      | nil =>
          rw [shape] at visible
          exact absurd rfl visible
      | cons first others => exact ⟨first, others, rfl, rfl⟩
  | atEnd cursor length found =>
      rw [read_of_end found] at failed
      cases failed
  | atToken cursor kind length found going ih =>
      rw [read_of_token found going] at failed ⊢
      exact ih failed

/-- A token that comes next at a place of the line has the text of its stretch. -/
theorem IsAt.slice_of_peek (stands : cursor.IsAt line) {token : Token}
    (peeked : cursor.peek = .ok token) :
    token.span.IsWithin line ∧ token.text = token.span.slice line := by
  rw [peek] at peeked
  cases found : cursor.ahead with
  | error fault =>
      rw [found] at peeked
      cases peeked
  | ok next =>
      rw [found] at peeked
      cases peeked
      have holds := stands.holds_take next.2
      exact ⟨holds.isWithin, holds.slice_eq.symm⟩

end Tokens

/-- The tokens of a line tile it, with gaps of spaces, up to its end, which is
the last token and the only one that may be empty; or they tile it up to a
character inside of it, which is then reported.  At no place that is reached is
text taken from outside of the line, or from the middle of a character. -/
theorem read_tiles (line : String) :
    ((start line).read.fault = none
        ∧ (∃ before last, (start line).read.tokens = before ++ [last] ∧ last.kind = .endOfLine
          ∧ last.span.stop = line.utf8ByteSize
          ∧ ∀ token ∈ before, token.kind ≠ .endOfLine ∧ token.text ≠ "")
        ∧ Tiles line 0 (start line).read.tokens line.utf8ByteSize
      ∨ ∃ fault char offset, (start line).read.fault = some fault ∧ fault = .lexical char offset
          ∧ fault.message
            = "ERR_LEX: Invalid symbol `" ++ char.toString ++ "` at position " ++ offset.repr
          ∧ char = String.Pos.Raw.get line ⟨offset⟩
          ∧ String.Pos.Raw.IsValid line ⟨offset⟩ ∧ offset < line.utf8ByteSize
          ∧ (∀ token ∈ (start line).read.tokens, token.kind ≠ .endOfLine ∧ token.text ≠ "")
          ∧ Tiles line 0 (start line).read.tokens offset)
      ∧ (start line).read.tokens.Pairwise
          (fun earlier later => earlier.span.stop ≤ later.span.start)
      ∧ ∀ cursor, Reached line cursor ->
          String.Pos.Raw.IsValid line ⟨cursor.offset⟩
            ∧ String.ofList cursor.rest
              = Span.slice line { start := cursor.offset, stop := line.utf8ByteSize }
            ∧ ∀ token, cursor.peek = .ok token ->
                token.span.IsWithin line ∧ token.text = token.span.slice line := by
  have begins := isAt_start line
  rcases begins.tiles_read (gap_start line) with ⟨tiles, stops⟩
  have ending := read_endsProperly (start line)
  refine ⟨?_, tiles.pairwise, ?_⟩
  · cases failed : (start line).read.fault with
    | none =>
        left
        rw [failed] at ending
        rcases ending with ⟨before, last, shape, kind, others⟩
        rcases stop_of_whole failed with ⟨nothing, ends⟩
        have size := stops.size_eq
        rw [nothing, Text.byteSize_nil, Nat.add_zero] at size
        refine ⟨rfl, ⟨before, last, shape, kind, ?_, ?_⟩, ?_⟩
        · rw [begins.size_eq]
          apply ends
          rw [shape, List.getLast?_concat]
        · intro token member
          have read : token ∈ (start line).read.tokens := by
            rw [shape]
            exact List.mem_append_left _ member
          exact ⟨others token member, text_ne_empty_of_mem_read read (others token member)⟩
        · rw [size]
          exact tiles
    | some fault =>
        right
        rw [failed] at ending
        rcases fault_of_read failed with ⟨first, others, shape, rfl⟩
        refine ⟨_, _, _, rfl, rfl, rfl, (stops.get_eq shape).symm, stops.isValid, ?_, ?_, tiles⟩
        · have inside := Text.byteSize_pos (List.cons_ne_nil first others)
          rw [stops.size_eq, shape]
          omega
        · intro token member
          exact ⟨ending token member, text_ne_empty_of_mem_read member (ending token member)⟩
  · intro cursor reached
    have stands := reached.isAt
    have rest := (stands.holds_take cursor.rest.length).slice_eq
    rw [List.take_length, ← stands.size_eq] at rest
    exact ⟨stands.isValid, rest.symm, fun token peeked => stands.slice_of_peek peeked⟩

theorem read_tiles_tab :
    let line := "a  \"é\"\tb"
    (start line).read.tokens
        = [{ kind := .word, text := "a", span := ⟨0, 1⟩ },
           { kind := .string, text := "\"é\"", span := ⟨3, 7⟩ }]
      ∧ (start line).read.fault = some (.lexical '\t' 7)
      ∧ '\t' = String.Pos.Raw.get line ⟨7⟩ ∧ String.Pos.Raw.IsValid line ⟨7⟩
      ∧ 7 < line.utf8ByteSize ∧ Tiles line 0 (start line).read.tokens 7
      ∧ ∃ cursor, Reached line cursor ∧ String.Pos.Raw.IsValid line ⟨cursor.offset⟩
        ∧ ∃ token, cursor.peek = .ok token ∧ token.text = "\"é\"" ∧ token.span.slice line = "\"é\"" := by
  intro line
  have read : (start line).read.tokens
      = [{ kind := .word, text := "a", span := ⟨0, 1⟩ },
         { kind := .string, text := "\"é\"", span := ⟨3, 7⟩ }] := by
    decide +kernel
  have failed : (start line).read.fault = some (.lexical '\t' 7) := by decide +kernel
  have moves : (start "a  \"é\"\tb").next
      = .ok ({ kind := .word, text := "a", span := ⟨0, 1⟩ }, ⟨"\"é\"\tb".toList, 3⟩) := by rfl
  have reached : Reached line ⟨"\"é\"\tb".toList, 3⟩ := .next .start moves
  have peeked : peek ⟨"\"é\"\tb".toList, 3⟩
      = .ok { kind := .string, text := "\"é\"", span := ⟨3, 7⟩ } := by rfl
  rcases read_tiles line with ⟨outcome, _, places⟩
  rcases places _ reached with ⟨valid, _, texts⟩
  rcases outcome with ⟨whole, _⟩ | ⟨_, char, offset, same, rfl, _, named, inside, before, _, tiles⟩
  · rw [failed] at whole
    cases whole
  · rw [failed] at same
    cases same
    exact ⟨read, failed, named, inside, before, tiles, _, reached, valid, _, peeked, rfl,
      (texts _ peeked).2.symm⟩

end Cursor
end Token
end LineShell
