import LineShell.Proofs.Scanning
import Mathlib.Computability.Language

namespace LineShell
namespace Token

/-!
# What tokens look like

Each kind of token has a pattern: a regular language, built from characters out
of given ranges and from fixed texts.  The patterns overlap, and they do not say
which of them is tried first.  Below they are taken apart into statements about
characters, and the functions that measure tokens are shown to find the longest
text of a pattern at the start of a line.
-/

open scoped Computability

/-! ## Patterns -/

/-- The character lies in one of the ranges. -/
def InRanges (ranges : List (Char × Char)) (char : Char) : Prop :=
  ∃ range ∈ ranges, range.1 ≤ char ∧ char ≤ range.2

/-- The texts of one character of the given sort. -/
def single (allowed : Char -> Prop) : Language Char :=
  {text | ∃ char, allowed char ∧ text = [char]}

def fixed (text : String) : Language Char :=
  {text.toList}

def digit : Language Char :=
  single (InRanges [('0', '9')])

def pathPart : Language Char :=
  single (InRanges [('a', 'z'), ('A', 'Z'), ('0', '9'), ('_', '_'), ('.', '.'), ('~', '~'),
    ('/', '/'), ('-', '-')])

/-- What stands between the quotes of a string, piece by piece: a character that
is no quote and no backslash, or a backslash before a character that is no
newline. -/
def quotedPiece : Language Char :=
  single (fun char => char ≠ '"' ∧ char ≠ '\\') + fixed "\\" * single (· ≠ '\n')

/-- The pattern of each kind of token.  The end of a line has none. -/
def pattern : Kind -> Language Char
  | .string => fixed "\"" * quotedPiece∗ * fixed "\""
  | .leftParen => fixed "("
  | .rightParen => fixed ")"
  | .leftBrace => fixed "\x7b"
  | .rightBrace => fixed "\x7d"
  | .leftBracket => fixed "["
  | .rightBracket => fixed "]"
  | .equals => fixed "="
  | .semicolon => fixed ";"
  | .colon => fixed ":"
  | .comma => fixed ","
  | .dot => fixed "."
  | .question => fixed "?"
  | .dollar => fixed "$"
  | .additive => fixed "+" + fixed "-"
  | .multiplicative => fixed "*" + fixed "/"
  | .bitwise => fixed "|" + fixed "&" + fixed "^" + fixed "<<" + fixed ">>"
  | .unary => fixed "++" + fixed "--" + fixed "~" + fixed "!"
  | .path =>
      fixed "~/" * pathPart∗ + fixed ".." * (1 + fixed "/" * pathPart∗) + fixed "./" * pathPart∗
        + fixed "/" * single (InRanges [('a', 'z'), ('A', 'Z'), ('_', '_'), ('.', '.'),
            ('~', '~')]) * pathPart∗
  | .number => digit * digit∗ * (1 + fixed "." * (digit * digit∗))
  | .word =>
      single (InRanges [('a', 'z'), ('A', 'Z'), ('_', '_')])
        * (single (InRanges [('a', 'z'), ('A', 'Z'), ('_', '_'), ('0', '9')]))∗
  | .boolean => fixed "true" + fixed "false"
  | .endOfLine => 0

/-! ## Taking patterns apart -/

section Languages

variable {allowed : Char -> Prop} {language : Language Char} {text : List Char}

theorem mem_fixed {word : String} : text ∈ fixed word ↔ text = word.toList :=
  Iff.rfl

theorem mem_fixed_mul {word : String} :
    text ∈ fixed word * language ↔ ∃ rest ∈ language, text = word.toList ++ rest := by
  rw [Language.mem_mul]
  constructor
  · rintro ⟨_, rfl, rest, member, rfl⟩
    exact ⟨rest, member, rfl⟩
  · rintro ⟨rest, member, rfl⟩
    exact ⟨_, rfl, rest, member, rfl⟩

theorem mem_single_mul :
    text ∈ single allowed * language ↔
      ∃ char rest, allowed char ∧ rest ∈ language ∧ text = char :: rest := by
  rw [Language.mem_mul]
  constructor
  · rintro ⟨_, ⟨char, passes, rfl⟩, rest, member, rfl⟩
    exact ⟨char, rest, passes, member, rfl⟩
  · rintro ⟨char, rest, passes, member, rfl⟩
    exact ⟨[char], ⟨char, passes, rfl⟩, rest, member, rfl⟩

theorem mem_single_kstar : text ∈ (single allowed)∗ ↔ ∀ char ∈ text, allowed char := by
  rw [Language.mem_kstar]
  constructor
  · rintro ⟨pieces, rfl, all⟩ char member
    rcases List.mem_flatten.mp member with ⟨piece, inside, here⟩
    rcases all piece inside with ⟨other, passes, rfl⟩
    rw [List.mem_singleton.mp here]
    exact passes
  · intro all
    refine ⟨text.map fun char => [char], ?_, ?_⟩
    · induction text with
      | nil => rfl
      | cons first rest ih =>
          rw [List.map_cons, List.flatten_cons, ← ih fun char member =>
            all char (List.mem_cons_of_mem _ member)]
          rfl
    · intro piece member
      rcases List.mem_map.mp member with ⟨char, inside, rfl⟩
      exact ⟨char, all char inside, rfl⟩

end Languages

/-! ## Ranges -/

theorem inRanges_nil (char : Char) : ¬InRanges [] char := by
  rintro ⟨range, member, -⟩
  cases member

theorem inRanges_cons (first last : Char) (ranges : List (Char × Char)) (char : Char) :
    InRanges ((first, last) :: ranges) char
      ↔ first.toNat ≤ char.toNat ∧ char.toNat ≤ last.toNat ∨ InRanges ranges char := by
  have order : ∀ one two : Char, one ≤ two ↔ one.toNat ≤ two.toNat :=
    fun _ _ => UInt32.le_iff_toNat_le
  simp only [InRanges, List.mem_cons, exists_eq_or_imp, order]

theorem inRanges_digit (char : Char) : InRanges [('0', '9')] char ↔ char.isDigit = true := by
  simp only [inRanges_cons, inRanges_nil, isDigit_iff, Char.reduceToNat, or_false]

theorem inRanges_wordStart (char : Char) :
    InRanges [('a', 'z'), ('A', 'Z'), ('_', '_')] char ↔ isWordStart char = true := by
  simp only [inRanges_cons, inRanges_nil, isWordStart, Bool.or_eq_true, isAlpha_iff,
    decide_eq_true_eq, ← Char.toNat_inj, Char.reduceToNat, or_false]
  omega

theorem inRanges_wordPart (char : Char) :
    InRanges [('a', 'z'), ('A', 'Z'), ('_', '_'), ('0', '9')] char ↔ isWordPart char = true := by
  simp only [inRanges_cons, inRanges_nil, isWordPart, Char.isAlphanum, Bool.or_eq_true,
    isAlpha_iff, isDigit_iff, decide_eq_true_eq, ← Char.toNat_inj, Char.reduceToNat, or_false]
  omega

theorem inRanges_pathStart (char : Char) :
    InRanges [('a', 'z'), ('A', 'Z'), ('_', '_'), ('.', '.'), ('~', '~')] char
      ↔ isPathStart char = true := by
  simp only [inRanges_cons, inRanges_nil, isPathStart, Bool.or_eq_true, isAlpha_iff,
    decide_eq_true_eq, ← Char.toNat_inj, Char.reduceToNat, or_false]
  omega

theorem inRanges_pathPart (char : Char) :
    InRanges [('a', 'z'), ('A', 'Z'), ('0', '9'), ('_', '_'), ('.', '.'), ('~', '~'),
      ('/', '/'), ('-', '-')] char ↔ isPathPart char = true := by
  simp only [inRanges_cons, inRanges_nil, isPathPart, Char.isAlphanum, Bool.or_eq_true,
    isAlpha_iff, isDigit_iff, decide_eq_true_eq, ← Char.toNat_inj, Char.reduceToNat, or_false]
  omega

/-! ## The patterns in terms of characters -/

section Characters

variable {text : List Char}

theorem mem_pathParts : text ∈ pathPart∗ ↔ ∀ char ∈ text, isPathPart char = true := by
  simp only [pathPart, mem_single_kstar, inRanges_pathPart]

theorem mem_word :
    text ∈ pattern .word ↔ ∃ first rest, isWordStart first = true
      ∧ (∀ char ∈ rest, isWordPart char = true) ∧ text = first :: rest := by
  simp only [pattern, mem_single_mul, mem_single_kstar, inRanges_wordStart, inRanges_wordPart]

theorem mem_digits_succ :
    text ∈ digit * digit∗ ↔ text ≠ [] ∧ ∀ char ∈ text, char.isDigit = true := by
  simp only [digit, mem_single_mul, mem_single_kstar, inRanges_digit]
  cases text with
  | nil => simp
  | cons first rest => simp

theorem mem_number :
    text ∈ pattern .number ↔ ∃ whole, whole ≠ [] ∧ (∀ char ∈ whole, char.isDigit = true)
      ∧ (text = whole ∨ ∃ places, places ≠ [] ∧ (∀ char ∈ places, char.isDigit = true)
        ∧ text = whole ++ '.' :: places) := by
  rw [pattern, Language.mem_mul]
  constructor
  · rintro ⟨whole, digits, behind, member, rfl⟩
    rw [mem_digits_succ] at digits
    refine ⟨whole, digits.1, digits.2, ?_⟩
    rw [Language.mem_add, Language.mem_one, mem_fixed_mul] at member
    rcases member with rfl | ⟨places, inPlaces, rfl⟩
    · exact .inl (List.append_nil whole)
    · rw [mem_digits_succ] at inPlaces
      exact .inr ⟨places, inPlaces.1, inPlaces.2, rfl⟩
  · rintro ⟨whole, nonempty, digits, shape⟩
    have inWhole := mem_digits_succ.mpr ⟨nonempty, digits⟩
    rcases shape with rfl | ⟨places, more, inPlaces, rfl⟩
    · exact ⟨_, inWhole, [], .inl rfl, List.append_nil _⟩
    · refine ⟨whole, inWhole, _, .inr ?_, rfl⟩
      exact mem_fixed_mul.mpr ⟨places, mem_digits_succ.mpr ⟨more, inPlaces⟩, rfl⟩

theorem mem_path :
    text ∈ pattern .path ↔ text = ['.', '.'] ∨ ∃ rest, (∀ char ∈ rest, isPathPart char = true)
      ∧ (text = '~' :: '/' :: rest ∨ text = '.' :: '.' :: '/' :: rest ∨ text = '.' :: '/' :: rest
        ∨ ∃ second, isPathStart second = true ∧ text = '/' :: second :: rest) := by
  rw [pattern, mul_assoc]
  simp only [Language.mem_add, mem_fixed_mul, Language.mem_one, mem_single_mul, mem_pathParts,
    inRanges_pathStart]
  constructor
  · rintro (((⟨rest, parts, rfl⟩ | ⟨_, rfl | ⟨rest, parts, rfl⟩, rfl⟩) | ⟨rest, parts, rfl⟩)
      | ⟨_, ⟨second, rest, start, parts, rfl⟩, rfl⟩)
    · exact .inr ⟨rest, parts, .inl rfl⟩
    · exact .inl rfl
    · exact .inr ⟨rest, parts, .inr (.inl rfl)⟩
    · exact .inr ⟨rest, parts, .inr (.inr (.inl rfl))⟩
    · exact .inr ⟨rest, parts, .inr (.inr (.inr ⟨second, start, rfl⟩))⟩
  · rintro (rfl | ⟨rest, parts, rfl | rfl | rfl | ⟨second, start, rfl⟩⟩)
    · exact .inl (.inl (.inr ⟨[], .inl rfl, rfl⟩))
    · exact .inl (.inl (.inl ⟨rest, parts, rfl⟩))
    · exact .inl (.inl (.inr ⟨_, .inr ⟨rest, parts, rfl⟩, rfl⟩))
    · exact .inl (.inr ⟨rest, parts, rfl⟩)
    · exact .inr ⟨_, ⟨second, rest, start, parts, rfl⟩, rfl⟩

theorem mem_string :
    text ∈ pattern .string ↔ ∃ body ∈ quotedPiece∗, text = '"' :: (body ++ ['"']) := by
  rw [pattern, mul_assoc, mem_fixed_mul]
  constructor
  · rintro ⟨_, member, rfl⟩
    rcases Language.mem_mul.mp member with ⟨body, pieces, _, rfl, rfl⟩
    exact ⟨body, pieces, rfl⟩
  · rintro ⟨body, pieces, rfl⟩
    exact ⟨_, Language.mem_mul.mpr ⟨body, pieces, _, rfl, rfl⟩, rfl⟩

/-- The kinds whose tokens are not listed one by one. -/
def openKinds : List Kind :=
  [.string, .path, .number, .word, .boolean]

theorem symbol_mem_pattern : ∀ entry ∈ symbols, entry.1.toList ∈ pattern entry.2 := by
  simp only [symbols, List.forall_mem_cons, pattern, Language.mem_add, mem_fixed, or_true, true_or,
    true_and, List.not_mem_nil, false_implies, implies_true]

theorem mem_pattern_of_listed {kind : Kind} (listed : kind ∉ openKinds) :
    text ∈ pattern kind ↔ ∃ entry ∈ symbols, entry.2 = kind ∧ text = entry.1.toList := by
  constructor
  · intro member
    cases kind with
    | string | path | number | word | boolean => exact absurd (by decide) listed
    | endOfLine => exact absurd member (Language.notMem_zero text)
    | additive | multiplicative =>
        rcases member with member | member
        all_goals exact ⟨(_, _), by decide, rfl, member⟩
    | bitwise =>
        rcases member with (((member | member) | member) | member) | member
        all_goals exact ⟨(_, _), by decide, rfl, member⟩
    | unary =>
        rcases member with ((member | member) | member) | member
        all_goals exact ⟨(_, _), by decide, rfl, member⟩
    | _ => exact ⟨(_, _), by decide, rfl, member⟩
  · rintro ⟨entry, member, rfl, rfl⟩
    exact symbol_mem_pattern entry member

end Characters

/-! ## Measuring -/

section Measuring

variable {test : Char -> Bool} {text chars : List Char}

theorem le_run (starts : text <+: chars) (passes : ∀ char ∈ text, test char = true) :
    text.length ≤ run test chars := by
  rcases starts with ⟨rest, rfl⟩
  rw [run, List.takeWhile_append_of_pos passes, List.length_append]
  exact Nat.le_add_right _ _

theorem take_run (test : Char -> Bool) (chars : List Char) :
    chars.take (run test chars) = chars.takeWhile test :=
  (List.prefix_iff_eq_take.mp (List.takeWhile_prefix test)).symm

theorem of_mem_take_run {char : Char} (member : char ∈ chars.take (run test chars)) :
    test char = true := by
  rw [take_run] at member
  exact List.mem_takeWhile_imp member

end Measuring

/-! ## Numbers -/

section Numbers

variable {text chars : List Char}

/-- A number either has places behind a point, or ends before whatever follows
its digits. -/
theorem numberLength_cases (chars : List Char) :
    (∃ fraction, chars.drop (run Char.isDigit chars) = '.' :: fraction
        ∧ 0 < run Char.isDigit fraction
        ∧ numberLength chars = run Char.isDigit chars + 1 + run Char.isDigit fraction)
      ∨ (numberLength chars = run Char.isDigit chars
        ∧ ∀ fraction, chars.drop (run Char.isDigit chars) = '.' :: fraction ->
          run Char.isDigit fraction = 0) := by
  rw [numberLength]
  split
  · rename_i fraction behind
    by_cases none : run Char.isDigit fraction = 0
    · right
      refine ⟨if_pos none, ?_⟩
      intro other same
      rw [behind] at same
      cases same
      exact none
    · exact .inl ⟨fraction, behind, Nat.pos_of_ne_zero none, if_neg none⟩
  · rename_i other
    exact .inr ⟨rfl, fun fraction behind => absurd behind (other fraction)⟩

theorem numberLength_mem {first : Char} {rest : List Char} (digit : first.isDigit = true) :
    (first :: rest).take (numberLength (first :: rest)) ∈ pattern .number := by
  have nonempty : (first :: rest).take (run Char.isDigit (first :: rest)) ≠ [] := by
    rw [take_run, List.takeWhile_cons_of_pos digit]
    exact List.cons_ne_nil _ _
  rw [mem_number]
  refine ⟨_, nonempty, fun char member => of_mem_take_run member, ?_⟩
  rcases numberLength_cases (first :: rest) with ⟨fraction, behind, some, length⟩ | ⟨length, -⟩
  · right
    refine ⟨fraction.take (run Char.isDigit fraction), ?_,
      fun char member => of_mem_take_run member, ?_⟩
    · rw [take_run]
      exact List.ne_nil_of_length_pos some
    · rw [length, Nat.add_assoc, List.take_add, behind, Nat.add_comm 1, List.take_succ_cons]
  · rw [length]
    exact .inl rfl

theorem le_numberLength (starts : text <+: chars) (number : text ∈ pattern .number) :
    text.length ≤ numberLength chars := by
  rcases mem_number.mp number with ⟨whole, -, digits, rfl | ⟨places, nonempty, more, rfl⟩⟩
  · have within := le_run starts digits
    rcases numberLength_cases chars with ⟨_, _, _, length⟩ | ⟨length, -⟩ <;> omega
  · rcases starts with ⟨rest, rfl⟩
    rw [List.append_assoc, List.cons_append]
    have ends : run Char.isDigit (whole ++ '.' :: (places ++ rest)) = whole.length := by
      rw [run, List.takeWhile_append_of_pos digits, List.takeWhile_cons_of_neg (by decide),
        List.append_nil]
    have behind : (whole ++ '.' :: (places ++ rest)).drop whole.length
        = '.' :: (places ++ rest) := List.drop_left
    have within := le_run (List.prefix_append places rest) more
    have some := List.length_pos_of_ne_nil nonempty
    rw [List.length_append, List.length_cons]
    rcases numberLength_cases (whole ++ '.' :: (places ++ rest)) with
      ⟨fraction, same, _, length⟩ | ⟨length, none⟩
    · rw [ends, behind] at same
      cases same
      rw [length, ends]
      omega
    · rw [ends] at none
      have impossible := none _ behind
      omega

end Numbers

/-! ## Paths -/

section Paths

variable {text chars : List Char}

theorem pathLength?_mem {length : Nat} (found : pathLength? chars = some length) :
    chars.take length ∈ pattern .path ∧ 2 ≤ length := by
  have parts : ∀ rest : List Char, ∀ char ∈ rest.take (run isPathPart rest),
      isPathPart char = true := fun rest char member => of_mem_take_run member
  rw [mem_path]
  revert found
  fun_cases pathLength? chars with
  | case1 second rest start =>
      rintro ⟨⟩
      refine ⟨.inr ⟨_, parts rest, ?_⟩, Nat.le_add_right 2 _⟩
      rw [Nat.add_comm 2, List.take_succ_cons, List.take_succ_cons]
      exact .inr (.inr (.inr ⟨second, start, rfl⟩))
  | case3 first rest _ start =>
      rintro ⟨⟩
      refine ⟨.inr ⟨_, parts rest, ?_⟩, Nat.le_add_right 2 _⟩
      rw [Nat.add_comm 2, List.take_succ_cons, List.take_succ_cons]
      rcases start with rfl | rfl
      · exact .inl rfl
      · exact .inr (.inr (.inl rfl))
  | case5 first second _ _ dots rest =>
      rintro ⟨⟩
      rcases dots with ⟨rfl, rfl⟩
      refine ⟨.inr ⟨_, parts rest, ?_⟩, Nat.le_trans (by decide) (Nat.le_add_right 3 _)⟩
      rw [Nat.add_comm 3, List.take_succ_cons, List.take_succ_cons, List.take_succ_cons]
      exact .inr (.inl rfl)
  | case6 first second _ _ dots third rest _ =>
      rintro ⟨⟩
      rcases dots with ⟨rfl, rfl⟩
      exact ⟨.inl rfl, Nat.le_refl 2⟩
  | case7 first second _ _ dots =>
      rintro ⟨⟩
      rcases dots with ⟨rfl, rfl⟩
      exact ⟨.inl rfl, Nat.le_refl 2⟩
  | _ => rintro ⟨⟩

theorem le_pathLength? (starts : text <+: chars) (path : text ∈ pattern .path) :
    ∃ length, pathLength? chars = some length ∧ text.length ≤ length := by
  rcases starts with ⟨behind, rfl⟩
  have within : ∀ rest : List Char, (∀ char ∈ rest, isPathPart char = true) ->
      rest.length ≤ run isPathPart (rest ++ behind) :=
    fun rest parts => le_run (List.prefix_append rest behind) parts
  rcases mem_path.mp path with rfl | ⟨rest, parts, rfl | rfl | rfl | ⟨second, start, rfl⟩⟩
  · cases behind with
    | nil => exact ⟨2, rfl, Nat.le_refl 2⟩
    | cons third rest =>
        by_cases slash : third = '/'
        · exact ⟨3 + run isPathPart rest, by simp [pathLength?, slash], by simp; omega⟩
        · exact ⟨2, by simp [pathLength?, slash], Nat.le_refl 2⟩
  · have inside := within rest parts
    exact ⟨2 + run isPathPart (rest ++ behind), by simp [pathLength?], by simp; omega⟩
  · have inside := within rest parts
    exact ⟨3 + run isPathPart (rest ++ behind), by simp [pathLength?], by simp; omega⟩
  · have inside := within rest parts
    exact ⟨2 + run isPathPart (rest ++ behind), by simp [pathLength?], by simp; omega⟩
  · have inside := within rest parts
    exact ⟨2 + run isPathPart (rest ++ behind), by simp [pathLength?, start], by simp; omega⟩

end Paths

/-! ## Strings -/

section Strings

variable {chars : List Char}

theorem nil_mem_pieces : [] ∈ quotedPiece∗ :=
  Language.nil_mem_kstar _

theorem append_mem_pieces {piece body : List Char} (first : piece ∈ quotedPiece)
    (others : body ∈ quotedPiece∗) : piece ++ body ∈ quotedPiece∗ := by
  rcases Language.mem_kstar.mp others with ⟨pieces, rfl, all⟩
  exact Language.mem_kstar.mpr ⟨piece :: pieces, rfl, List.forall_mem_cons.mpr ⟨first, all⟩⟩

/-- The quote that closes a string stands behind pieces of a string. -/
theorem closingQuote?_mem {count length : Nat} (found : closingQuote? count chars = some length) :
    ∃ body ∈ quotedPiece∗, body ++ ['"'] <+: chars ∧ length = count + body.length + 1 := by
  fun_induction closingQuote? count chars with
  | case2 count rest =>
      cases found
      exact ⟨[], nil_mem_pieces, ⟨rest, rfl⟩, rfl⟩
  | case5 count escaped rest visible _ ih =>
      rcases ih found with ⟨body, pieces, ⟨behind, rfl⟩, rfl⟩
      have piece : ['\\', escaped] ∈ quotedPiece :=
        .inr (mem_fixed_mul.mpr ⟨[escaped], ⟨escaped, visible, rfl⟩, rfl⟩)
      refine ⟨'\\' :: escaped :: body, append_mem_pieces piece pieces, ⟨behind, rfl⟩, ?_⟩
      simp only [List.length_cons]
      omega
  | case6 count char rest noQuote noBackslash ih =>
      rcases ih found with ⟨body, pieces, ⟨behind, rfl⟩, rfl⟩
      have piece : [char] ∈ quotedPiece := .inl ⟨char, ⟨noQuote, noBackslash⟩, rfl⟩
      refine ⟨char :: body, append_mem_pieces piece pieces, ⟨behind, rfl⟩, ?_⟩
      simp only [List.length_cons]
      omega
  | _ => cases found

/-- Behind pieces of a string, the first quote closes it. -/
theorem closingQuote?_of_mem {body : List Char} (pieces : body ∈ quotedPiece∗)
    (closes : body ++ ['"'] <+: chars) (count : Nat) :
    closingQuote? count chars = some (count + body.length + 1) := by
  rcases closes with ⟨behind, rfl⟩
  rcases Language.mem_kstar.mp pieces with ⟨list, rfl, all⟩
  clear pieces
  induction list generalizing count with
  | nil =>
      rw [closingQuote?.eq_def]
      rfl
  | cons piece list ih =>
      rw [List.forall_mem_cons] at all
      rcases all.1 with ⟨char, ⟨noQuote, noBackslash⟩, rfl⟩ | escape
      · have others := ih (count + 1) all.2
        rw [List.flatten_cons, List.singleton_append, List.cons_append, List.cons_append,
          closingQuote?.eq_def]
        simp only [noQuote, noBackslash, if_false, others, List.length_cons, Option.some.injEq]
        omega
      · rcases mem_fixed_mul.mp escape with ⟨_, ⟨escaped, visible, rfl⟩, rfl⟩
        have others := ih (count + 2) all.2
        have noQuote : '\\' ≠ '"' := by decide
        have shape : "\\".toList ++ [escaped] ++ list.flatten
            = '\\' :: escaped :: list.flatten := rfl
        rw [List.flatten_cons, shape, List.cons_append, List.cons_append, closingQuote?.eq_def]
        simp only [List.cons_append, noQuote, visible, if_false, if_true, others,
          List.length_cons, Option.some.injEq]
        omega

end Strings

end Token
end LineShell
