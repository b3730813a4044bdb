import LineShell.Proofs.Patterns
import LineShell.Proofs.Reading

namespace LineShell
namespace Token

/-!
# The longest token

The scanner decides by the first character which patterns to measure.  That is
enough: at every place in a line it finds the longest text that any pattern
allows there, and nothing if no pattern allows any.  Where two patterns allow the
same longest text, one is that of words and the other that of booleans.
-/

open scoped Computability

/-! ## The scanner by first characters -/

section FirstCharacters

variable {first : Char} {rest : List Char}

theorem scan?_of_quote (rest : List Char) :
    scan? ('"' :: rest) = (closingQuote? 1 rest).map fun length => (.string, length) := by
  rw [scan?, if_pos rfl]

theorem scan?_of_digit (digit : first.isDigit = true) :
    scan? (first :: rest) = some (.number, numberLength (first :: rest)) := by
  have noQuote : first ≠ '"' := by
    rintro rfl
    exact absurd digit (by decide)
  rw [scan?, if_neg noQuote, if_pos digit]

theorem scan?_of_wordStart (start : isWordStart first = true) :
    scan? (first :: rest)
      = some (wordKind ((first :: rest).take (run isWordPart (first :: rest))),
          run isWordPart (first :: rest)) := by
  have noQuote : first ≠ '"' := by
    rintro rfl
    exact absurd start (by decide)
  have noDigit := isDigit_of_isWordStart start
  rw [scan?, if_neg noQuote, if_neg (Bool.not_eq_true _ ▸ noDigit), if_pos start]

/-- Whether a character can only start a path or a symbol. -/
def isMark (char : Char) : Bool :=
  char ≠ '"' && !char.isDigit && !isWordStart char

theorem scan?_of_path (mark : isMark first = true) {length : Nat}
    (path : pathLength? (first :: rest) = some length) :
    scan? (first :: rest) = some (.path, length) := by
  simp only [isMark, Bool.and_eq_true, decide_eq_true_eq, Bool.not_eq_true'] at mark
  simp only [scan?, mark.1.1, mark.1.2, mark.2, Bool.false_eq_true, if_false, path]

theorem scan?_of_noPath (mark : isMark first = true) (noPath : pathLength? (first :: rest) = none) :
    scan? (first :: rest) = symbol? (first :: rest) := by
  simp only [isMark, Bool.and_eq_true, decide_eq_true_eq, Bool.not_eq_true'] at mark
  simp only [scan?, mark.1.1, mark.1.2, mark.2, Bool.false_eq_true, if_false, noPath]

/-- The first character of a text is of one of four sorts. -/
theorem sort_cases (first : Char) :
    first = '"' ∨ first.isDigit = true ∨ isWordStart first = true ∨ isMark first = true := by
  rw [isMark]
  by_cases quote : first = '"'
  · exact .inl quote
  · cases digit : first.isDigit <;> cases start : isWordStart first <;> simp [quote]

end FirstCharacters

/-! ## Symbols -/

section Symbols

variable {chars : List Char}

theorem symbol?_mem {kind : Kind} {length : Nat} (found : symbol? chars = some (kind, length)) :
    chars.take length ∈ pattern kind ∧ kind ∉ openKinds := by
  have listed : ∀ entry ∈ symbols, entry.2 ∉ openKinds := by decide
  simp only [symbol?, Option.map_eq_some_iff, Prod.mk.injEq] at found
  rcases found with ⟨entry, found, rfl, rfl⟩
  have member := List.mem_of_find?_eq_some found
  have starts := List.isPrefixOf_iff_prefix.mp (List.find?_eq_some_iff_append.mp found).1
  refine ⟨(mem_pattern_of_listed (listed entry member)).mpr ⟨entry, member, rfl, ?_⟩,
    listed entry member⟩
  rw [← String.length_toList, ← List.prefix_iff_eq_take.mp starts]

/-- Where a symbol stands, a symbol is found that is no shorter, and if it is as
long, it is the same one. -/
theorem symbol?_covers {entry : String × Kind} (member : entry ∈ symbols)
    (starts : entry.1.toList <+: chars) :
    ∃ found length, symbol? chars = some (found, length) ∧ entry.1.toList.length ≤ length
      ∧ (entry.1.toList.length = length -> found = entry.2) := by
  have sorted : symbols.Pairwise fun one two => two.1.toList.length ≤ one.1.toList.length := by
    decide
  have single : ∀ one ∈ symbols, ∀ two ∈ symbols, one.1.toList = two.1.toList ->
      one.2 = two.2 := by
    decide
  have fits : entry.1.toList.isPrefixOf chars = true := List.isPrefixOf_iff_prefix.mpr starts
  cases search : symbols.find? fun entry => entry.1.toList.isPrefixOf chars with
  | none => exact absurd fits (List.find?_eq_none.mp search entry member)
  | some found =>
      rcases List.find?_eq_some_iff_append.mp search with ⟨foundFits, before, behind, shape, none⟩
      have noLonger : entry.1.toList.length ≤ found.1.toList.length := by
        rw [shape] at member sorted
        rcases List.mem_append.mp member with early | late
        · have misses := none entry early
          rw [fits] at misses
          cases misses
        · rcases List.mem_cons.mp late with rfl | late
          · exact Nat.le_refl _
          · exact (List.pairwise_cons.mp (List.pairwise_append.mp sorted).2.1).1 entry late
      refine ⟨found.2, found.1.length, ?_, ?_, ?_⟩
      · simp only [symbol?, search, Option.map_some]
      · rw [← String.length_toList]
        exact noLonger
      · intro same
        rw [← String.length_toList] at same
        have foundStarts := List.isPrefixOf_iff_prefix.mp foundFits
        have equal : entry.1.toList = found.1.toList :=
          (List.prefix_of_prefix_length_le starts foundStarts noLonger).eq_of_length same
        exact (single entry member found (List.mem_of_find?_eq_some search) equal).symm

end Symbols

/-! ## What the scanner finds -/

section Finding

variable {text rest : List Char} {kind : Kind} {length : Nat}

theorem word_of_boolean (boolean : text ∈ pattern .boolean) : text ∈ pattern .word := by
  rw [pattern, Language.mem_add, mem_fixed, mem_fixed] at boolean
  rw [mem_word]
  rcases boolean with rfl | rfl
  · exact ⟨'t', "rue".toList, rfl, List.all_eq_true.mp rfl, rfl⟩
  · exact ⟨'f', "alse".toList, rfl, List.all_eq_true.mp rfl, rfl⟩

theorem wordKind_mem (word : text ∈ pattern .word) :
    text ∈ pattern (wordKind text) ∧ (wordKind text = .word -> text ∉ pattern .boolean) := by
  rw [wordKind]
  split
  · rename_i boolean
    exact ⟨boolean, fun impossible => by cases impossible⟩
  · rename_i other
    exact ⟨word, fun _ => other⟩

theorem kind_of_wordKind (preferred : kind = .word -> text ∉ pattern .boolean)
    (member : text ∈ pattern kind) (wordlike : kind = .word ∨ kind = .boolean) :
    wordKind text = kind := by
  rw [wordKind]
  rcases wordlike with rfl | rfl
  · exact if_neg (preferred rfl)
  · exact if_pos member

/-- The scanner finds a token that is no shorter than the text, and if it is as
long, it is of the given kind, unless that is a word that could be a boolean. -/
def Covers (rest : List Char) (kind : Kind) (text : List Char) : Prop :=
  ∃ found length, scan? rest = some (found, length) ∧ text.length ≤ length
    ∧ (text.length = length -> (kind = .word -> text ∉ pattern .boolean) -> found = kind)

/-- What the scanner finds matches the pattern of its kind. -/
theorem scan?_mem (found : scan? rest = some (kind, length)) :
    rest.take length ∈ pattern kind ∧ (kind = .word -> rest.take length ∉ pattern .boolean) := by
  cases rest with
  | nil => cases found
  | cons first rest =>
      rcases sort_cases first with rfl | digit | start | mark
      · rw [scan?_of_quote, Option.map_eq_some_iff] at found
        rcases found with ⟨closing, closed, same⟩
        cases same
        rcases closingQuote?_mem closed with ⟨body, pieces, ⟨behind, rfl⟩, rfl⟩
        refine ⟨mem_string.mpr ⟨body, pieces, ?_⟩, fun impossible => by cases impossible⟩
        rw [List.take_succ_cons, Nat.add_comm 1]
        exact congrArg ('"' :: ·) (List.take_left' (by simp))
      · rw [scan?_of_digit digit] at found
        cases found
        exact ⟨numberLength_mem digit, fun impossible => by cases impossible⟩
      · rw [scan?_of_wordStart start] at found
        cases found
        apply wordKind_mem
        rw [mem_word, take_run, List.takeWhile_cons_of_pos (isWordPart_of_isWordStart start)]
        exact ⟨first, _, start, fun char member => List.mem_takeWhile_imp member, rfl⟩
      · cases path : pathLength? (first :: rest) with
        | some found' =>
            rw [scan?_of_path mark path] at found
            cases found
            exact ⟨(pathLength?_mem path).1, fun impossible => by cases impossible⟩
        | none =>
            rw [scan?_of_noPath mark path] at found
            rcases symbol?_mem found with ⟨member, listed⟩
            refine ⟨member, ?_⟩
            rintro rfl
            exact absurd (by decide) listed

theorem covers_symbol {entry : String × Kind} (member : entry ∈ symbols)
    (starts : entry.1.toList <+: rest) : Covers rest entry.2 entry.1.toList := by
  have marks : ∀ entry ∈ symbols, isMark (entry.1.toList.headD 'a') = true := by decide
  have doubled : ∀ entry ∈ symbols, entry.1.toList.length = 1
      ∨ entry.1.toList ∈ [['+', '+'], ['-', '-'], ['<', '<'], ['>', '>']] := by decide
  have mark := marks entry member
  have short := doubled entry member
  rcases starts with ⟨behind, rfl⟩
  cases shape : entry.1.toList with
  | nil =>
      rw [shape] at mark
      exact absurd mark (by decide)
  | cons first others =>
      rw [shape] at mark short
      cases path : pathLength? (first :: others ++ behind) with
      | none =>
          have starts : entry.1.toList <+: first :: others ++ behind :=
            shape ▸ List.prefix_append _ _
          rcases symbol?_covers member starts with ⟨found, length, scanned, longer, same⟩
          rw [shape] at longer same
          exact ⟨found, length, (scan?_of_noPath mark path).trans scanned, longer,
            fun equal _ => same equal⟩
      | some length =>
          -- Only symbols of one character can start a path, and a path has two or more.
          have longer : (first :: others).length < length := by
            have long := (pathLength?_mem path).2
            rcases short with one | two
            · omega
            · simp only [List.mem_cons, List.not_mem_nil, or_false, List.cons.injEq] at two
              rcases two with ⟨rfl, rfl⟩ | ⟨rfl, rfl⟩ | ⟨rfl, rfl⟩ | ⟨rfl, rfl⟩ <;>
                simp [pathLength?] at path
          exact ⟨.path, length, scan?_of_path mark path, Nat.le_of_lt longer,
            fun equal => absurd equal (Nat.ne_of_lt longer)⟩

theorem covers_string (starts : text <+: rest) (member : text ∈ pattern .string) :
    Covers rest .string text := by
  rcases mem_string.mp member with ⟨body, pieces, rfl⟩
  rcases starts with ⟨behind, rfl⟩
  have closed := closingQuote?_of_mem pieces (List.prefix_append _ behind) 1
  refine ⟨.string, 1 + body.length + 1, ?_, ?_, fun _ _ => rfl⟩
  · rw [List.cons_append, scan?_of_quote, closed]
    rfl
  · rw [List.length_cons, List.length_append, List.length_singleton]
    omega

theorem covers_number (starts : text <+: rest) (member : text ∈ pattern .number) :
    Covers rest .number text := by
  have within := le_numberLength starts member
  rcases mem_number.mp member with ⟨whole, nonempty, digits, shape⟩
  rcases List.exists_cons_of_ne_nil nonempty with ⟨first, others, rfl⟩
  have digit := digits first List.mem_cons_self
  obtain ⟨behind, rfl⟩ : ∃ behind, rest = first :: behind := by
    rcases starts with ⟨behind, rfl⟩
    rcases shape with rfl | ⟨places, _, _, rfl⟩
    · exact ⟨_, rfl⟩
    · exact ⟨_, rfl⟩
  exact ⟨.number, _, scan?_of_digit digit, within, fun _ _ => rfl⟩

theorem covers_word (starts : text <+: rest) (member : text ∈ pattern kind)
    (wordlike : kind = .word ∨ kind = .boolean) : Covers rest kind text := by
  have word : text ∈ pattern .word := by
    rcases wordlike with rfl | rfl
    · exact member
    · exact word_of_boolean member
  rcases mem_word.mp word with ⟨first, others, start, parts, rfl⟩
  have allParts : ∀ char ∈ first :: others, isWordPart char = true :=
    List.forall_mem_cons.mpr ⟨isWordPart_of_isWordStart start, parts⟩
  have within := le_run starts allParts
  rcases starts with ⟨behind, rfl⟩
  rw [List.cons_append] at within ⊢
  have scanned : scan? (first :: (others ++ behind)) = _ := scan?_of_wordStart start
  refine ⟨_, _, scanned, within, fun same preferred => ?_⟩
  rw [← same, ← List.cons_append, List.take_left]
  exact kind_of_wordKind preferred member wordlike

theorem covers_path (starts : text <+: rest) (member : text ∈ pattern .path) :
    Covers rest .path text := by
  rcases le_pathLength? starts member with ⟨length, path, within⟩
  obtain ⟨first, others, rfl, mark⟩ : ∃ first others, rest = first :: others
      ∧ isMark first = true := by
    rcases starts with ⟨behind, rfl⟩
    rcases mem_path.mp member with rfl | ⟨_, _, rfl | rfl | rfl | ⟨second, _, rfl⟩⟩
    all_goals exact ⟨_, _, rfl, by decide⟩
  exact ⟨.path, length, scan?_of_path mark path, within, fun _ _ => rfl⟩

theorem covers_of_mem (starts : text <+: rest) (member : text ∈ pattern kind) :
    Covers rest kind text := by
  by_cases listed : kind ∉ openKinds
  · rcases (mem_pattern_of_listed listed).mp member with ⟨entry, inTable, rfl, rfl⟩
    exact covers_symbol inTable starts
  · rw [not_not] at listed
    simp only [openKinds, List.mem_cons, List.not_mem_nil, or_false] at listed
    rcases listed with rfl | rfl | rfl | rfl | rfl
    · exact covers_string starts member
    · exact covers_path starts member
    · exact covers_number starts member
    · exact covers_word starts member (.inl rfl)
    · exact covers_word starts member (.inr rfl)

end Finding

/-! ## Longest match -/

/-- A text of a kind is the next token: no longer text of any pattern stands in
its place, and it is not a word that could be a boolean. -/
structure IsNext (rest : List Char) (kind : Kind) (text : List Char) : Prop where
  starts : text <+: rest
  nonempty : text ≠ []
  mem_pattern : text ∈ pattern kind
  longest : ∀ other otherKind, other <+: rest -> other ∈ pattern otherKind ->
    other.length ≤ text.length
  preferred : kind = .word -> text ∉ pattern .boolean

section Longest

variable {rest text : List Char} {kind : Kind} {length : Nat}

theorem isNext_of_scan? (found : scan? rest = some (kind, length)) :
    IsNext rest kind (rest.take length) := by
  have within := scan?_le found
  have taken : (rest.take length).length = length := List.length_take_of_le within
  constructor
  · exact List.take_prefix length rest
  · have positive := scan?_pos found
    rw [← List.length_pos_iff, taken]
    exact positive
  · exact (scan?_mem found).1
  · intro other otherKind starts member
    rcases covers_of_mem starts member with ⟨_, _, scanned, longer, _⟩
    rw [found] at scanned
    cases scanned
    rw [taken]
    exact longer
  · exact (scan?_mem found).2

theorem scan?_of_isNext (next : IsNext rest kind text) :
    scan? rest = some (kind, text.length) := by
  rcases covers_of_mem next.starts next.mem_pattern with ⟨found, length, scanned, longer, same⟩
  have other := isNext_of_scan? scanned
  have noLonger := next.longest _ found other.starts other.mem_pattern
  rw [List.length_take_of_le (scan?_le scanned)] at noLonger
  have equal : text.length = length := Nat.le_antisymm longer noLonger
  rw [scanned, equal, same equal next.preferred]

/-- The scanner finds nothing exactly where no pattern has a text. -/
theorem scan?_eq_none_iff :
    scan? rest = none
      ↔ ∀ text kind, text <+: rest -> text ≠ [] -> text ∉ pattern kind := by
  constructor
  · intro none text kind starts _ member
    rcases covers_of_mem starts member with ⟨_, _, scanned, _⟩
    rw [none] at scanned
    cases scanned
  · intro unmatched
    cases found : scan? rest with
    | none => rfl
    | some next =>
        have first := isNext_of_scan? found
        exact absurd first.mem_pattern (unmatched _ _ first.starts first.nonempty)

end Longest

/-! ## Strings that are not closed -/

/-- Every quote in the text is hidden by a backslash: it stands behind an odd
number of them. -/
def Unclosed (chars : List Char) : Prop :=
  ∀ before after, chars = before ++ '"' :: after ->
    (before.rtakeWhile (· = '\\')).length % 2 = 1

/-- Pieces of a string end in an even number of backslashes. -/
theorem backslashes_even {body : List Char} (pieces : body ∈ quotedPiece∗) :
    (body.rtakeWhile (· = '\\')).length % 2 = 0 := by
  rcases Language.mem_kstar.mp pieces with ⟨list, rfl, all⟩
  clear pieces
  induction list using List.reverseRecOn with
  | nil => rfl
  | append_singleton list piece ih =>
      have before := ih fun other member => all other (List.mem_append_left _ member)
      have last := all piece (List.mem_append_right _ (List.mem_singleton_self piece))
      rw [List.flatten_append, List.flatten_singleton]
      rcases last with ⟨char, ⟨_, noBackslash⟩, rfl⟩ | escape
      · rw [List.rtakeWhile_concat_neg]
        · rfl
        · simpa using noBackslash
      · rcases mem_fixed_mul.mp escape with ⟨_, ⟨escaped, _, rfl⟩, rfl⟩
        rw [← List.append_assoc]
        by_cases backslash : escaped = '\\'
        · have hidden : "\\".toList = ['\\'] := rfl
          subst backslash
          simp only [hidden, List.rtakeWhile_concat, decide_true, if_true, List.length_append,
            List.length_singleton]
          omega
        · rw [List.rtakeWhile_concat_neg]
          · rfl
          · simpa using backslash

theorem scan?_of_unclosed {rest : List Char} (unclosed : Unclosed rest) :
    scan? ('"' :: rest) = none := by
  rw [scan?_of_quote]
  cases closed : closingQuote? 1 rest with
  | none => rfl
  | some length =>
      rcases closingQuote?_mem closed with ⟨body, pieces, ⟨behind, rfl⟩, _⟩
      have odd := unclosed body behind (List.append_assoc _ _ _)
      rw [backslashes_even pieces] at odd
      cases odd

/-! ## Cursors -/

namespace Cursor

/-- The cursors that a line is read with: the one at its start, and the one after
each token. -/
inductive Reached (line : String) : Cursor -> Prop
  | start : Reached line (start line)
  | next {cursor after : Cursor} {token : Token} (before : Reached line cursor)
      (moves : cursor.next = .ok (token, after)) : Reached line after

/-- The cursor stands before a part of the line, at its place. -/
def IsAt (line : String) (cursor : Cursor) : Prop :=
  ∃ before, line.toList = before ++ cursor.rest ∧ cursor.offset = Text.byteSize before

section Places

variable {line : String} {cursor : Cursor}

theorem IsAt.skipSpaces (stands : cursor.IsAt line) : cursor.skipSpaces.IsAt line := by
  rcases stands with ⟨before, shape, place⟩
  let spaces := cursor.rest.takeWhile fun char => decide (char = ' ')
  have parts : spaces ++ Text.skipSpaces cursor.rest = cursor.rest :=
    List.takeWhile_append_dropWhile
  refine ⟨before ++ spaces, ?_, ?_⟩
  · rw [shape, List.append_assoc, ← parts]
    rfl
  · have sizes := byteSize_skipSpaces cursor.rest
    rw [← parts, Text.byteSize_append, parts] at sizes
    rw [Text.byteSize_append, ← place]
    change cursor.offset + run _ cursor.rest = _
    omega

theorem isAt_start (line : String) : (start line).IsAt line :=
  IsAt.skipSpaces ⟨[], rfl, rfl⟩

theorem IsAt.drop (stands : cursor.IsAt line) (length : Nat) :
    IsAt line { rest := cursor.rest.drop length
                offset := cursor.offset + Text.byteSize (cursor.rest.take length) } := by
  rcases stands with ⟨before, shape, place⟩
  refine ⟨before ++ cursor.rest.take length, ?_, ?_⟩
  · rw [List.append_assoc, List.take_append_drop]
    exact shape
  · rw [Text.byteSize_append, ← place]

theorem IsAt.advance (stands : cursor.IsAt line) (length : Nat) :
    (cursor.advance length).IsAt line :=
  (stands.drop length).skipSpaces

/-- Reading never leaves the line. -/
theorem Reached.isAt (reached : Reached line cursor) : cursor.IsAt line := by
  induction reached with
  | start => exact isAt_start line
  | @next cursor after token _ moves ih =>
      rw [Cursor.next] at moves
      cases found : cursor.ahead with
      | error fault =>
          rw [found] at moves
          cases moves
      | ok next =>
          rw [found] at moves
          cases moves
          exact ih.advance _

end Places

section Peeking

variable {cursor : Cursor}

theorem peek_of_blank (blank : cursor.rest.all Text.isBlank = true) :
    cursor.peek
      = .ok { kind := .endOfLine, text := String.ofList cursor.rest
              span := { start := cursor.offset
                        stop := cursor.offset + Text.byteSize cursor.rest } } := by
  rw [peek, ahead_of_blank blank]
  simp only [Except.map, token, List.take_length]

theorem peek_eq_ok_iff (visible : cursor.rest.all Text.isBlank = false) (token : Token) :
    cursor.peek = .ok token ↔ ∃ text, IsNext cursor.rest token.kind text
      ∧ token.text = String.ofList text
      ∧ token.span = { start := cursor.offset, stop := cursor.offset + Text.byteSize text } := by
  constructor
  · intro peeked
    rw [peek] at peeked
    cases found : cursor.ahead with
    | error fault =>
        rw [found] at peeked
        cases peeked
    | ok next =>
        rcases next with ⟨kind, length⟩
        rw [found] at peeked
        cases peeked
        have going : kind ≠ .endOfLine := by
          rintro rfl
          rw [(blank_of_ahead found).1] at visible
          cases visible
        exact ⟨_, isNext_of_scan? (scan?_of_ahead found going), rfl, rfl⟩
  · rintro ⟨text, next, spelled, spanned⟩
    have found := ahead_of_scan? (scan?_of_isNext next)
    have taken : cursor.rest.take text.length = text :=
      (List.prefix_iff_eq_take.mp next.starts).symm
    have same : cursor.token token.kind text.length = token := by
      rw [Cursor.token, taken, ← spelled, ← spanned]
    rw [peek, found]
    exact congrArg Except.ok same

theorem peek_eq_error_iff (visible : cursor.rest.all Text.isBlank = false) (fault : Fault) :
    cursor.peek = .error fault
      ↔ (∃ first others, cursor.rest = first :: others ∧ fault = .lexical first cursor.offset)
        ∧ ∀ text kind, text <+: cursor.rest -> text ≠ [] -> text ∉ pattern kind := by
  have visible : ¬cursor.rest.all Text.isBlank = true := by
    rw [visible]
    decide
  cases shape : cursor.rest with
  | nil =>
      rw [shape] at visible
      exact absurd rfl visible
  | cons first others =>
      rw [← shape, ← scan?_eq_none_iff]
      constructor
      · intro peeked
        rw [peek] at peeked
        cases found : cursor.ahead with
        | ok next =>
            rw [found] at peeked
            cases peeked
        | error other =>
            rw [found] at peeked
            cases peeked
            rcases unknown_of_ahead found with ⟨_, unknown, rfl⟩
            refine ⟨⟨first, others, shape, ?_⟩, unknown⟩
            rw [shape]
            rfl
      · rintro ⟨⟨_, _, same, rfl⟩, unknown⟩
        rw [shape] at same
        cases same
        rw [peek, ahead_of_unknown visible unknown, shape]
        rfl

/-- Every token that is read, but for the end of the line, is the next one
somewhere. -/
theorem isNext_of_mem_read {token : Token} (member : token ∈ cursor.read.tokens)
    (going : token.kind ≠ .endOfLine) : ∃ rest, IsNext rest token.kind token.text.toList := by
  induction cursor using read_induction with
  | atFault cursor fault failed =>
      rw [read_of_fault failed] at member
      cases member
  | atEnd cursor length found =>
      rw [read_of_end found, List.mem_singleton] at member
      rw [member] at going
      exact absurd rfl going
  | atToken cursor kind length found visible ih =>
      rw [read_of_token found visible] at member
      rcases List.mem_cons.mp member with rfl | later
      · have next := isNext_of_scan? (scan?_of_ahead found visible)
        rw [← String.toList_ofList (l := cursor.rest.take length)] at next
        exact ⟨cursor.rest, next⟩
      · exact ih later

end Peeking

/-- At every place that is reached in a line, the next token is the longest text
that a pattern allows there, of the kind that allows it, and a word only if it is
no boolean; where no pattern allows any text, the first character is reported.
The latter happens where a string is not closed.  A blank rest is the end of the
line. -/
theorem peek_longest {line : String} {cursor : Cursor} (reached : Reached line cursor) :
    (∃ before, line.toList = before ++ cursor.rest ∧ cursor.offset = Text.byteSize before)
      ∧ (cursor.rest.all Text.isBlank = true -> cursor.peek
          = .ok { kind := .endOfLine, text := String.ofList cursor.rest
                  span := { start := cursor.offset
                            stop := cursor.offset + Text.byteSize cursor.rest } })
      ∧ (cursor.rest.all Text.isBlank = false ->
          (∀ token, cursor.peek = .ok token ↔ ∃ text, IsNext cursor.rest token.kind text
            ∧ token.text = String.ofList text
            ∧ token.span
              = { start := cursor.offset, stop := cursor.offset + Text.byteSize text })
          ∧ ∀ fault, cursor.peek = .error fault
            ↔ (∃ first others, cursor.rest = first :: others
                ∧ fault = .lexical first cursor.offset)
              ∧ ∀ text kind, text <+: cursor.rest -> text ≠ [] -> text ∉ pattern kind)
      ∧ ∀ others, cursor.rest = '"' :: others -> Unclosed others ->
          cursor.peek = .error (.lexical '"' cursor.offset) := by
  refine ⟨reached.isAt, peek_of_blank, ?_, ?_⟩
  · intro visible
    exact ⟨peek_eq_ok_iff visible, peek_eq_error_iff visible⟩
  · intro others shape unclosed
    have visible : cursor.rest.all Text.isBlank = false := by
      rw [shape]
      rfl
    have unknown : scan? cursor.rest = none := by
      rw [shape]
      exact scan?_of_unclosed unclosed
    exact (peek_eq_error_iff visible _).mpr
      ⟨⟨'"', others, shape, rfl⟩, scan?_eq_none_iff.mp unknown⟩

theorem peek_longest_path :
    ∃ cursor, Reached "cd ../a=" cursor ∧ IsNext cursor.rest .path "../a".toList := by
  have moves : (start "cd ../a=").next
      = .ok ({ kind := .word, text := "cd", span := ⟨0, 2⟩ }, ⟨"../a=".toList, 3⟩) := by rfl
  have reached : Reached "cd ../a=" ⟨"../a=".toList, 3⟩ := .next .start moves
  have peeked : peek ⟨"../a=".toList, 3⟩
      = .ok { kind := .path, text := "../a", span := ⟨3, 7⟩ } := by rfl
  rcases (((peek_longest reached).2.2.1 rfl).1 _).mp peeked with ⟨text, next, spelled, _⟩
  have same : text = "../a".toList := by
    rw [← String.toList_ofList (l := text), ← spelled]
  rw [same] at next
  exact ⟨_, reached, next⟩

end Cursor
end Token
end LineShell
