import LineShell.Text.Blank
import LineShell.Text.Quoted
import LineShell.Token.Scan
import Mathlib.Data.List.Find
import Mathlib.Data.List.TakeWhile

namespace LineShell
namespace Token

/-!
# Tokens before a separator

The scanner takes the longest token, so what it finds may depend on what
follows.  A space or a semicolon behind a token ends it, whatever comes after,
and so do a closing parenthesis and an equals sign: none of them continues a
number, a word, a path or a symbol, and a string ends with its own quote.  So a
text that is one token by itself is the same token in front of a separator.

The second half says which texts are one token: words, numbers, quoted texts
and symbols.
-/

/-- The characters that end every token they stand behind. -/
def separators : List Char :=
  [' ', ';', ')', '=']

theorem of_mem_separators {separator : Char} (separates : separator ∈ separators)
    (property : Char -> Prop) [DecidablePred property]
    (holds : (separators.all fun char => property char) = true) : property separator :=
  of_decide_eq_true (List.all_eq_true.mp holds separator separates)

/-! ## What stands behind a separator does not matter -/

theorem takeWhile_append_separator {test : Char -> Bool} {separator : Char}
    (stops : test separator = false) (chars more : List Char) :
    (chars ++ separator :: more).takeWhile test = chars.takeWhile test := by
  rw [List.takeWhile_append, List.takeWhile_cons_of_neg (by rw [stops]; exact Bool.false_ne_true),
    List.append_nil]
  split
  · rename_i whole
    exact (List.takeWhile_prefix test |>.eq_of_length whole).symm
  · rfl

theorem run_append_separator {test : Char -> Bool} {separator : Char}
    (stops : test separator = false) (chars more : List Char) :
    run test (chars ++ separator :: more) = run test chars := by
  rw [run, takeWhile_append_separator stops, run]

theorem run_le_length (test : Char -> Bool) (chars : List Char) :
    run test chars ≤ chars.length :=
  (List.takeWhile_sublist test).length_le

theorem closingQuote?_append {count length : Nat} {chars : List Char}
    (found : closingQuote? count chars = some length) (more : List Char) :
    closingQuote? count (chars ++ more) = some length := by
  fun_induction closingQuote? count chars with
  | case1 => cases found
  | case2 count rest =>
      rw [List.cons_append, closingQuote?.eq_def]
      exact found
  | case3 => cases found
  | case4 => cases found
  | case5 count escaped rest notNewline notQuote ih =>
      rw [List.cons_append, List.cons_append, closingQuote?.eq_def]
      simp only [notQuote, notNewline, if_false, if_true, ih found]
  | case6 count char rest notQuote notBackslash ih =>
      rw [List.cons_append, closingQuote?.eq_def]
      simp only [notQuote, notBackslash, if_false, ih found]

theorem numberLength_append {separator : Char} (separates : separator ∈ separators)
    (chars more : List Char) :
    numberLength (chars ++ separator :: more) = numberLength chars := by
  have stops := of_mem_separators separates (Char.isDigit · = false) (by decide)
  have noPoint := of_mem_separators separates (· ≠ '.') (by decide)
  have within := run_le_length Char.isDigit chars
  simp only [numberLength, run_append_separator stops]
  rw [List.drop_append_of_le_length within]
  cases behind : chars.drop (run Char.isDigit chars) with
  | nil =>
      rw [List.nil_append]
      split
      · rename_i equal
        exact absurd (List.cons.inj equal).1 noPoint
      · rfl
  | cons point fraction =>
      rw [List.cons_append]
      by_cases isPoint : point = '.'
      · subst isPoint
        simp only [run_append_separator stops]
      · split
        · rename_i equal
          exact absurd (List.cons.inj equal).1 isPoint
        · split
          · rename_i equal
            exact absurd (List.cons.inj equal).1 isPoint
          · rfl

theorem pathLength?_append {separator : Char} (separates : separator ∈ separators)
    {chars : List Char} (nonempty : chars ≠ []) (more : List Char) :
    pathLength? (chars ++ separator :: more) = pathLength? chars := by
  have stops := of_mem_separators separates (isPathPart · = false) (by decide)
  have noStart := of_mem_separators separates (isPathStart · = false) (by decide)
  have noSlash := of_mem_separators separates (· ≠ '/') (by decide)
  have noPoint := of_mem_separators separates (· ≠ '.') (by decide)
  match chars, nonempty with
  | [first], _ =>
      simp only [List.cons_append, List.nil_append, pathLength?, noStart, noSlash, noPoint,
        Bool.false_eq_true, if_false, and_false, ite_self]
  | [first, second], _ =>
      have alone : run isPathPart (separator :: more) = run isPathPart [] :=
        run_append_separator stops [] more
      simp only [List.cons_append, List.nil_append, pathLength?, alone, noSlash, if_false]
  | first :: second :: third :: rest, _ =>
      have beyond : run isPathPart (third :: rest ++ separator :: more)
          = run isPathPart (third :: rest) := run_append_separator stops _ more
      have further : run isPathPart (rest ++ separator :: more) = run isPathPart rest :=
        run_append_separator stops _ more
      simp only [List.cons_append, pathLength?] at beyond ⊢
      simp only [beyond, further]

theorem symbol?_append {separator : Char} (separates : separator ∈ separators)
    {chars : List Char} (nonempty : chars ≠ []) (more : List Char) :
    symbol? (chars ++ separator :: more) = symbol? chars := by
  have short : ∀ entry ∈ symbols, entry.1.toList.length ≤ 2 := by decide
  have plain := of_mem_separators separates
    (fun char => ∀ entry ∈ symbols, char ∉ entry.1.toList.tail) (by decide)
  have agree : ∀ entry ∈ symbols, entry.1.toList.isPrefixOf (chars ++ separator :: more)
      = entry.1.toList.isPrefixOf chars := by
    intro entry member
    have atMost := short entry member
    have absent := plain entry member
    match entry.1.toList, atMost, absent, chars, nonempty with
    | [], _, _, _, _ => rfl
    | [_], _, _, first :: rest, _ => rfl
    | [_, one], _, absent, [first], _ =>
        have different : one ≠ separator := fun equal => absent (by simp [equal])
        simp [List.isPrefixOf, different]
    | [_, _], _, _, first :: second :: rest, _ => rfl
  simp only [symbol?]
  rw [List.find?_congr agree]

/-- The token at the start of a text stays what it is when a separator and any
other text is put behind the text. -/
theorem scan?_append {separator : Char} (separates : separator ∈ separators)
    {chars : List Char} {kind : Kind} {length : Nat}
    (found : scan? chars = some (kind, length)) (more : List Char) :
    scan? (chars ++ separator :: more) = some (kind, length) := by
  have noPart := of_mem_separators separates (isWordPart · = false) (by decide)
  cases chars with
  | nil => cases found
  | cons first rest =>
      rw [List.cons_append, scan?.eq_def]
      rw [scan?.eq_def] at found
      simp only at found ⊢
      by_cases quote : first = '"'
      · simp only [quote, if_true, Option.map_eq_some_iff] at found ⊢
        rcases found with ⟨closing, closed, equal⟩
        exact ⟨closing, closingQuote?_append closed _, equal⟩
      · by_cases digit : first.isDigit = true
        · simp only [quote, digit, if_true, if_false] at found ⊢
          rw [← List.cons_append, numberLength_append separates, found]
        · by_cases start : isWordStart first = true
          · simp only [quote, digit, start, if_true, if_false, Bool.false_eq_true] at found ⊢
            rw [← List.cons_append, run_append_separator noPart,
              List.take_append_of_le_length (run_le_length _ _), found]
          · simp only [quote, digit, start, if_false, Bool.false_eq_true] at found ⊢
            rw [← List.cons_append, pathLength?_append separates (List.cons_ne_nil _ _),
              symbol?_append separates (List.cons_ne_nil _ _)]
            exact found

/-! ## Texts that are one token -/

/-- Whether a text has the form of a word: a letter or an underscore, and then
letters, digits and underscores. -/
def spellsWord : List Char -> Bool
  | [] => false
  | first :: rest => isWordStart first && rest.all isWordPart

/-- Whether a text has the form of a number: digits, and perhaps a point with
more digits behind it. -/
def spellsNumber (chars : List Char) : Bool :=
  chars.takeWhile Char.isDigit ≠ [] &&
    match chars.dropWhile Char.isDigit with
    | [] => true
    | point :: places => point = '.' && places ≠ [] && places.all Char.isDigit

theorem run_of_all {test : Char -> Bool} {chars : List Char} (passes : chars.all test = true) :
    run test chars = chars.length := by
  rw [run, List.takeWhile_eq_self_iff.mpr (List.all_eq_true.mp passes)]

theorem isWordPart_of_isWordStart {char : Char} (start : isWordStart char = true) :
    isWordPart char = true := by
  simp only [isWordStart, Bool.or_eq_true, isWordPart, Char.isAlphanum] at start ⊢
  exact start.imp_left Or.inl

/-- The places of the letters. -/
theorem isAlpha_iff (char : Char) :
    char.isAlpha = true
      ↔ 65 ≤ char.toNat ∧ char.toNat ≤ 90 ∨ 97 ≤ char.toNat ∧ char.toNat ≤ 122 := by
  change (decide (char.val ≥ 'A'.val ∧ char.val ≤ 'Z'.val)
    || (decide (char.val ≥ 'a'.val) && decide (char.val ≤ 'z'.val))) = true ↔ _
  simp only [Bool.or_eq_true, Bool.and_eq_true, decide_eq_true_eq, ge_iff_le,
    UInt32.le_iff_toNat_le]
  rfl

/-- The places of the digits. -/
theorem isDigit_iff (char : Char) :
    char.isDigit = true ↔ 48 ≤ char.toNat ∧ char.toNat ≤ 57 := by
  change (decide (char.val ≥ '0'.val) && decide (char.val ≤ '9'.val)) = true ↔ _
  simp only [Bool.and_eq_true, decide_eq_true_eq, ge_iff_le, UInt32.le_iff_toNat_le]
  rfl

theorem isDigit_of_isWordStart {char : Char} (start : isWordStart char = true) :
    char.isDigit = false := by
  simp only [isWordStart, Bool.or_eq_true, decide_eq_true_eq, isAlpha_iff] at start
  rw [← Bool.not_eq_true, isDigit_iff]
  rcases start with letter | rfl
  · omega
  · decide

theorem scan?_of_spellsWord {chars : List Char} (word : spellsWord chars = true) :
    scan? chars = some (wordKind chars, chars.length) := by
  cases chars with
  | nil => cases word
  | cons first rest =>
      rcases Bool.and_eq_true_iff.mp word with ⟨start, parts⟩
      have notQuote : first ≠ '"' := by
        rintro rfl
        exact absurd start (by decide)
      have whole : run isWordPart (first :: rest) = (first :: rest).length :=
        run_of_all (by rw [List.all_cons, isWordPart_of_isWordStart start, parts]; rfl)
      rw [scan?.eq_def]
      simp only [notQuote, isDigit_of_isWordStart start, start, if_false, if_true, whole,
        List.take_length, Bool.false_eq_true]

theorem numberLength_of_spellsNumber {chars : List Char} (number : spellsNumber chars = true) :
    numberLength chars = chars.length := by
  have parts : chars.takeWhile Char.isDigit ++ chars.dropWhile Char.isDigit = chars :=
    List.takeWhile_append_dropWhile
  have behind : chars.drop (run Char.isDigit chars) = chars.dropWhile Char.isDigit := by
    have divided := congrArg (List.drop (chars.takeWhile Char.isDigit).length) parts
    rw [List.drop_left] at divided
    exact divided.symm
  have size : chars.length = run Char.isDigit chars + (chars.dropWhile Char.isDigit).length := by
    rw [run, ← List.length_append, parts]
  simp only [spellsNumber, Bool.and_eq_true] at number
  simp only [numberLength, behind]
  cases shape : chars.dropWhile Char.isDigit with
  | nil =>
      rw [shape, List.length_nil] at size
      exact size.symm
  | cons point places =>
      rw [shape, List.length_cons] at size
      have spelled := number.2
      rw [shape] at spelled
      simp only [Bool.and_eq_true, decide_eq_true_eq] at spelled
      rcases spelled with ⟨⟨rfl, nonempty⟩, digits⟩
      have positive : places.length ≠ 0 := fun none => nonempty (List.length_eq_zero_iff.mp none)
      simp only [run_of_all digits, positive, if_false]
      omega

theorem scan?_of_spellsNumber {chars : List Char} (number : spellsNumber chars = true) :
    scan? chars = some (.number, chars.length) := by
  have digits : chars.takeWhile Char.isDigit ≠ [] := by
    simp only [spellsNumber, Bool.and_eq_true, decide_eq_true_eq] at number
    exact number.1
  cases chars with
  | nil => exact absurd rfl digits
  | cons first rest =>
      have digit : first.isDigit = true := by
        by_contra other
        exact digits (List.takeWhile_cons_of_neg other)
      have notQuote : first ≠ '"' := by
        rintro rfl
        exact absurd digit (by decide)
      rw [scan?.eq_def]
      simp only [notQuote, digit, if_false, if_true, numberLength_of_spellsNumber number]

theorem closingQuote?_escape (count : Nat) (chars rest : List Char) :
    closingQuote? count (Text.Quoted.escape chars ++ '"' :: rest)
      = some (count + (Text.Quoted.escape chars).length + 1) := by
  induction chars generalizing count with
  | nil =>
      rw [closingQuote?.eq_def]
      rfl
  | cons char chars ih =>
      rw [Text.Quoted.escape_cons]
      by_cases hidden : char = '"' ∨ char = '\\'
      · have notNewline : char ≠ '\n' := by
          rcases hidden with rfl | rfl <;> decide
        have backslash : '\\' ≠ '"' := by decide
        rw [if_pos hidden, List.cons_append, List.cons_append, closingQuote?.eq_def]
        simp only [List.nil_append, List.cons_append, if_true, notNewline, backslash, if_false, ih,
          List.length_cons, Option.some.injEq]
        omega
      · rw [if_neg hidden, List.cons_append, closingQuote?.eq_def]
        rw [not_or] at hidden
        simp only [List.nil_append, List.cons_append, hidden.1, hidden.2, if_false, ih,
          List.length_cons, Option.some.injEq]
        omega

/-- A text between quotes is one token. -/
theorem scan?_encode (text : String) :
    scan? (Text.Quoted.encode text).toList
      = some (.string, (Text.Quoted.encode text).toList.length) := by
  simp only [Text.Quoted.encode, String.toList_ofList]
  rw [List.cons_append, scan?.eq_def]
  simp only [if_true, closingQuote?_escape, Option.map_some, List.length_cons,
    List.length_append, List.length_nil]
  congr 2
  omega

/-! ## Tokens are not blank -/

theorem toNat_of_isBlank {char : Char} (blank : Text.isBlank char = true) :
    char.toNat ≤ 32 ∨ 133 ≤ char.toNat := by
  simp only [Text.isBlank, Text.blankRanges, List.any_cons, List.any_nil, Bool.or_eq_true,
    Bool.and_eq_true, decide_eq_true_eq, Bool.false_eq_true, or_false] at blank
  omega

theorem toNat_of_isAlphanum {char : Char} (part : char.isAlphanum = true) :
    48 ≤ char.toNat ∧ char.toNat ≤ 122 := by
  rw [Char.isAlphanum, Bool.or_eq_true, isAlpha_iff, isDigit_iff] at part
  omega

/-- The first character of a token is not blank. -/
theorem isBlank_of_scan? {first : Char} {rest : List Char} {found : Kind × Nat}
    (scanned : scan? (first :: rest) = some found) : Text.isBlank first = false := by
  by_contra blank
  rw [Bool.not_eq_false] at blank
  have place := toNat_of_isBlank blank
  have notQuote : first ≠ '"' := by
    rintro rfl
    exact absurd blank (by decide)
  have notDigit : first.isDigit = false := by
    by_contra digit
    have part : first.isAlphanum = true := by
      rw [Bool.not_eq_false] at digit
      simp [Char.isAlphanum, digit]
    have within := toNat_of_isAlphanum part
    omega
  have notStart : isWordStart first = false := by
    by_contra start
    simp only [isWordStart, Bool.not_eq_false, Bool.or_eq_true, decide_eq_true_eq] at start
    rcases start with letter | rfl
    · have part : first.isAlphanum = true := by simp [Char.isAlphanum, letter]
      have within := toNat_of_isAlphanum part
      omega
    · exact absurd blank (by decide)
  have notPath : pathLength? (first :: rest) = none := by
    have notSlash : first ≠ '/' := by
      rintro rfl
      exact absurd blank (by decide)
    have notTilde : first ≠ '~' := by
      rintro rfl
      exact absurd blank (by decide)
    have notPoint : first ≠ '.' := by
      rintro rfl
      exact absurd blank (by decide)
    cases rest with
    | nil => rfl
    | cons second rest =>
        simp only [pathLength?, notSlash, notTilde, notPoint, if_false, false_or, false_and,
          ite_self]
  have notSymbol : symbol? (first :: rest) = none := by
    have visible : ∀ entry ∈ symbols, entry.1.toList ≠ []
        ∧ entry.1.toList.all (fun char => !Text.isBlank char) = true := by
      decide
    rw [symbol?, Option.map_eq_none_iff, List.find?_eq_none]
    rintro ⟨symbol, kind⟩ member starts
    have starts : symbol.toList.isPrefixOf (first :: rest) = true := starts
    rcases visible (symbol, kind) member with ⟨nonempty, seen⟩
    cases shape : symbol.toList with
    | nil => exact nonempty shape
    | cons char chars =>
        rw [shape, List.isPrefixOf, Bool.and_eq_true, beq_iff_eq] at starts
        rw [shape, List.all_cons, starts.1, blank] at seen
        cases seen
  rw [scan?.eq_def] at scanned
  simp only [notQuote, notDigit, notStart, notPath, notSymbol, if_false,
    Bool.false_eq_true] at scanned
  cases scanned

/-- The scanner never finds the end of the line. -/
theorem kind_of_scan? {chars : List Char} {kind : Kind} {length : Nat}
    (scanned : scan? chars = some (kind, length)) : kind ≠ .endOfLine := by
  rintro rfl
  revert scanned
  fun_cases scan? chars with
  | case1 => simp
  | case2 => simp
  | case3 => simp
  | case4 =>
      simp only [wordKind]
      split <;> simp
  | case5 _ _ _ _ _ _ found => simp [found]
  | case6 first rest _ _ _ noPath =>
      have other : ∀ entry ∈ symbols, entry.2 ≠ .endOfLine := by decide
      simp only [noPath, symbol?]
      intro scanned
      simp only [Option.map_eq_some_iff, Prod.mk.injEq] at scanned
      rcases scanned with ⟨entry, member, equal, -⟩
      exact other entry (List.mem_of_find?_eq_some member) equal

/-! ## Tokens lie within the text -/

theorem closingQuote?_le {count length : Nat} {chars : List Char}
    (found : closingQuote? count chars = some length) : length ≤ count + chars.length := by
  fun_induction closingQuote? count chars with
  | case1 => cases found
  | case2 count rest =>
      simp only [Option.some.injEq] at found
      simp only [List.length_cons]
      omega
  | case3 => cases found
  | case4 => cases found
  | case5 count escaped rest _ _ ih =>
      have within := ih found
      simp only [List.length_cons]
      omega
  | case6 count char rest _ _ ih =>
      have within := ih found
      simp only [List.length_cons]
      omega

theorem numberLength_le (chars : List Char) : numberLength chars ≤ chars.length := by
  have within := run_le_length Char.isDigit chars
  have behind : (chars.drop (run Char.isDigit chars)).length
      = chars.length - run Char.isDigit chars := List.length_drop
  simp only [numberLength]
  split
  · rename_i fraction shape
    have places := run_le_length Char.isDigit fraction
    rw [shape, List.length_cons] at behind
    split <;> omega
  · exact within

theorem pathLength?_le {chars : List Char} {length : Nat}
    (found : pathLength? chars = some length) : length ≤ chars.length := by
  have bounded : ∀ rest, run isPathPart rest ≤ rest.length := run_le_length isPathPart
  revert found
  fun_cases pathLength? chars <;> intro found <;> simp_all only [reduceCtorEq, Option.some.injEq,
    List.length_cons, List.length_nil]
  all_goals grind

/-- A token that the scanner finds is no longer than the text. -/
theorem scan?_le {chars : List Char} {kind : Kind} {length : Nat}
    (scanned : scan? chars = some (kind, length)) : length ≤ chars.length := by
  revert scanned
  fun_cases scan? chars with
  | case1 => simp
  | case2 rest =>
      intro scanned
      simp only [Option.map_eq_some_iff, Prod.mk.injEq] at scanned
      rcases scanned with ⟨closing, closed, -, rfl⟩
      have within := closingQuote?_le closed
      simp only [List.length_cons]
      omega
  | case3 first rest _ digit =>
      intro scanned
      simp only [Option.some.injEq, Prod.mk.injEq] at scanned
      exact scanned.2 ▸ numberLength_le _
  | case4 first rest _ _ start =>
      intro scanned
      simp only [Option.some.injEq, Prod.mk.injEq] at scanned
      exact scanned.2 ▸ run_le_length _ _
  | case5 first rest _ _ _ length path =>
      intro scanned
      simp only [path, Option.some.injEq, Prod.mk.injEq] at scanned
      exact scanned.2 ▸ pathLength?_le path
  | case6 first rest _ _ _ noPath =>
      intro scanned
      simp only [noPath, symbol?, Option.map_eq_some_iff, Prod.mk.injEq] at scanned
      rcases scanned with ⟨entry, member, -, rfl⟩
      have starts := List.find?_some member
      exact (List.isPrefixOf_iff_prefix.mp starts).length_le

end Token
end LineShell
