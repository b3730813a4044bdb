import LineShell.Number.Numeral
import LineShell.Proofs.Binary64
import LineShell.Proofs.Patterns
import Mathlib.Data.List.Chain

namespace LineShell

/-!
# Which texts are numbers

A numeral is a sign, digits around a point and an exponent, and the reader takes
these parts off a text one after the other.  Each part is described by what it
stands for and how it is spelled, so that what the reader finds is settled part
by part: the text has one spelling, and the reader finds it.

A text counts as a number if it is a numeral or an infinity, or if it is blank;
blanks around it do not matter.  The reader also knows words.  They are kept from
it by a filter on characters, which lets every numeral through, and of the texts
that come through it the reader reads the numerals only.
-/

/-! ## Blanks around a text -/

namespace Text

/-- What is left of a text without the blanks at its ends. -/
structure Strips (chars stripped : List Char) : Prop where
  shape : ∃ before after, chars = before ++ stripped ++ after
    ∧ ∀ char ∈ before ++ after, isBlank char = true
  first : ∀ char, stripped.head? = some char -> isBlank char = false
  last : ∀ char, stripped.getLast? = some char -> isBlank char = false

theorem isBlank_of_head?_dropWhile {chars : List Char} {char : Char}
    (isFirst : (chars.dropWhile isBlank).head? = some char) : isBlank char = false := by
  have visible := List.head?_dropWhile_not isBlank chars
  rw [isFirst] at visible
  exact visible

theorem strips_trim (chars : List Char) : Strips chars (trim chars) := by
  have front := List.takeWhile_append_dropWhile (p := isBlank) (l := chars)
  have back := List.takeWhile_append_dropWhile (p := isBlank)
    (l := (chars.dropWhile isBlank).reverse)
  constructor
  · refine ⟨chars.takeWhile isBlank,
      ((chars.dropWhile isBlank).reverse.takeWhile isBlank).reverse, ?_, ?_⟩
    · rw [trim, List.append_assoc, ← List.reverse_append, back, List.reverse_reverse, front]
    · intro char member
      rw [List.mem_append, List.mem_reverse] at member
      rcases member with before | after
      · exact List.mem_takeWhile_imp before
      · exact List.mem_takeWhile_imp after
  · intro char isFirst
    -- The first character stays the first one while others are taken off the end.
    have stays : trim chars <+: chars.dropWhile isBlank := by
      rw [← List.reverse_suffix, trim, List.reverse_reverse]
      exact List.dropWhile_suffix isBlank
    rcases stays with ⟨others, shape⟩
    apply isBlank_of_head?_dropWhile
    rw [← shape, List.head?_append, isFirst, Option.some_or]
  · intro char isLast
    rw [trim, List.getLast?_reverse] at isLast
    exact isBlank_of_head?_dropWhile isLast

end Text

namespace Number

open scoped Computability
open Token (fixed digit mem_fixed mem_fixed_mul mem_digits_succ)

/-! ## The parts of a numeral -/

namespace Numeral

inductive SignSpelled : Bool -> List Char -> Prop
  | omitted : SignSpelled false []
  | plus : SignSpelled false ['+']
  | minus : SignSpelled true ['-']

/-- How digits before and after a point may be spelled.  There is a digit on one
of the two sides, and none has to follow the point. -/
inductive DigitsSpelled : List Char -> List Char -> List Char -> Prop
  | whole {whole : List Char} (nonempty : whole ≠ [])
      (digits : ∀ char ∈ whole, char.isDigit = true) : DigitsSpelled whole [] whole
  | pointed {whole places : List Char} (nonempty : whole ++ places ≠ [])
      (digits : ∀ char ∈ whole ++ places, char.isDigit = true) :
      DigitsSpelled whole places (whole ++ '.' :: places)

inductive ExponentSpelled : Int -> List Char -> Prop
  | omitted : ExponentSpelled 0 []
  | written {mark : Char} {negative : Bool} {sign digits : List Char}
      (isMark : mark = 'e' ∨ mark = 'E') (signSpelled : SignSpelled negative sign)
      (nonempty : digits ≠ []) (isDigits : ∀ char ∈ digits, char.isDigit = true) :
      ExponentSpelled (if negative then -digitsValue digits else digitsValue digits)
        (mark :: (sign ++ digits))

inductive Spelled : Numeral -> List Char -> Prop
  | mk {negative : Bool} {whole places sign digits mark : List Char} {exponent : Int}
      (signSpelled : SignSpelled negative sign)
      (digitsSpelled : DigitsSpelled whole places digits)
      (exponentSpelled : ExponentSpelled exponent mark) :
      Spelled { negative, whole, places, exponent } (sign ++ (digits ++ mark))

/-- A character that is neither a plus nor a minus. -/
def isUnsigned (char : Char) : Bool :=
  char ≠ '-' && char ≠ '+'

theorem isUnsigned_of_isDigit {char : Char} (isDigit : char.isDigit = true) :
    isUnsigned char = true := by
  rw [isUnsigned, Bool.and_eq_true, decide_eq_true_eq, decide_eq_true_eq]
  constructor
  · rintro rfl
    cases isDigit
  · rintro rfl
    cases isDigit

/-! ## Taking a numeral apart -/

theorem takeSign_append {negative : Bool} {sign rest : List Char}
    (spelled : SignSpelled negative sign)
    (unsigned : ∀ char, rest.head? = some char -> isUnsigned char = true) :
    takeSign (sign ++ rest) = (negative, rest) := by
  cases spelled with
  | plus => rfl
  | minus => rfl
  | omitted =>
      cases rest with
      | nil => rfl
      | cons first others =>
          have plain := unsigned first rfl
          rw [isUnsigned, Bool.and_eq_true, decide_eq_true_eq, decide_eq_true_eq] at plain
          rw [List.nil_append, takeSign, if_neg plain.1, if_neg plain.2]

theorem takeSign_spelled (chars : List Char) :
    ∃ sign, SignSpelled (takeSign chars).1 sign ∧ chars = sign ++ (takeSign chars).2 := by
  fun_cases takeSign chars with
  | case1 rest => exact ⟨['-'], .minus, rfl⟩
  | case2 rest => exact ⟨['+'], .plus, rfl⟩
  | case3 first rest => exact ⟨[], .omitted, rfl⟩
  | case4 => exact ⟨[], .omitted, rfl⟩

theorem exponent?_of_spelled {exponent : Int} {chars : List Char}
    (spelled : ExponentSpelled exponent chars) : exponent? chars = some exponent := by
  cases spelled with
  | omitted => rfl
  | @written mark negative sign digits isMark signSpelled nonempty isDigits =>
      have unsigned : ∀ char, digits.head? = some char -> isUnsigned char = true :=
        fun char isFirst => isUnsigned_of_isDigit (isDigits char (List.mem_of_head? isFirst))
      have accepted : ¬(digits.isEmpty || !digits.all Char.isDigit) = true := by
        rw [List.isEmpty_eq_false_iff.mpr nonempty, List.all_eq_true.mpr isDigits]
        exact Bool.false_ne_true
      rw [exponent?, if_pos isMark, takeSign_append signSpelled unsigned]
      dsimp only
      rw [if_neg accepted]
      split <;> rfl

theorem spelled_of_exponent? {exponent : Int} {chars : List Char}
    (found : exponent? chars = some exponent) : ExponentSpelled exponent chars := by
  cases chars with
  | nil =>
      cases found
      exact .omitted
  | cons mark rest =>
      rw [exponent?] at found
      split at found
      · rename_i isMark
        rcases takeSign_spelled rest with ⟨sign, signSpelled, shape⟩
        generalize takeSign rest = taken at found signSpelled shape
        rcases taken with ⟨negative, digits⟩
        dsimp only at found signSpelled shape
        subst shape
        split at found
        · cases found
        · rename_i accepted
          rw [Bool.or_eq_true, not_or, List.isEmpty_iff, Bool.not_eq_true',
            Bool.not_eq_false, List.all_eq_true] at accepted
          have written := ExponentSpelled.written isMark signSpelled accepted.1 accepted.2
          cases negative with
          | true =>
              cases found
              exact written
          | false =>
              cases found
              exact written
      · cases found

/-- What an exponent begins with belongs to no digits and to no point. -/
theorem ExponentSpelled.apart {exponent : Int} {chars : List Char}
    (spelled : ExponentSpelled exponent chars) :
    chars.takeWhile Char.isDigit = [] ∧ chars.dropWhile Char.isDigit = chars
      ∧ takePlaces chars = ([], chars) := by
  cases spelled with
  | omitted => exact ⟨rfl, rfl, rfl⟩
  | written isMark _ _ _ => rcases isMark with rfl | rfl <;> exact ⟨rfl, rfl, rfl⟩

theorem takePlaces_spelled (chars : List Char) :
    (∀ char ∈ (takePlaces chars).1, char.isDigit = true)
      ∧ (chars = '.' :: ((takePlaces chars).1 ++ (takePlaces chars).2)
        ∨ (takePlaces chars).1 = [] ∧ (takePlaces chars).2 = chars) := by
  fun_cases takePlaces chars with
  | case1 rest =>
      refine ⟨fun char member => List.mem_takeWhile_imp member, .inl ?_⟩
      rw [List.takeWhile_append_dropWhile]
  | case2 first rest => exact ⟨fun char member => absurd member List.not_mem_nil, .inr ⟨rfl, rfl⟩⟩
  | case3 => exact ⟨fun char member => absurd member List.not_mem_nil, .inr ⟨rfl, rfl⟩⟩

/-- Digits and a point are taken off a text up to the exponent. -/
theorem DigitsSpelled.taken {whole places digits mark : List Char} {exponent : Int}
    (spelled : DigitsSpelled whole places digits) (ends : ExponentSpelled exponent mark) :
    (digits ++ mark).takeWhile Char.isDigit = whole
      ∧ takePlaces ((digits ++ mark).dropWhile Char.isDigit) = (places, mark) := by
  rcases ends.apart with ⟨noDigit, apart, noPlaces⟩
  cases spelled with
  | whole nonempty isDigits =>
      rw [List.takeWhile_append_of_pos isDigits, List.dropWhile_append_of_pos isDigits, noDigit,
        apart]
      exact ⟨List.append_nil whole, noPlaces⟩
  | pointed nonempty isDigits =>
      have isWhole : ∀ char ∈ whole, char.isDigit = true :=
        fun char member => isDigits char (List.mem_append_left _ member)
      have isPlaces : ∀ char ∈ places, char.isDigit = true :=
        fun char member => isDigits char (List.mem_append_right _ member)
      rw [List.append_assoc, List.takeWhile_append_of_pos isWhole,
        List.dropWhile_append_of_pos isWhole]
      refine ⟨List.append_nil whole, ?_⟩
      change ((places ++ mark).takeWhile Char.isDigit, (places ++ mark).dropWhile Char.isDigit) = _
      rw [List.takeWhile_append_of_pos isPlaces, List.dropWhile_append_of_pos isPlaces, noDigit,
        apart, List.append_nil]

theorem DigitsSpelled.unsigned {whole places digits : List Char}
    (spelled : DigitsSpelled whole places digits) (mark : List Char) :
    ∀ char, (digits ++ mark).head? = some char -> isUnsigned char = true := by
  intro char isFirst
  cases spelled with
  | whole nonempty isDigits =>
      rw [List.head?_append_of_ne_nil _ nonempty] at isFirst
      exact isUnsigned_of_isDigit (isDigits char (List.mem_of_head? isFirst))
  | pointed nonempty isDigits =>
      cases whole with
      | nil =>
          cases isFirst
          rfl
      | cons first others =>
          cases isFirst
          exact isUnsigned_of_isDigit (isDigits _ List.mem_cons_self)

theorem DigitsSpelled.nonempty {whole places digits : List Char}
    (spelled : DigitsSpelled whole places digits) : whole ++ places ≠ [] := by
  cases spelled with
  | whole nonempty _ =>
      rw [List.append_nil]
      exact nonempty
  | pointed nonempty _ => exact nonempty

/-- The reader finds the one numeral that a text spells. -/
theorem ofChars?_eq_some_iff {numeral : Numeral} {chars : List Char} :
    ofChars? chars = some numeral ↔ Spelled numeral chars := by
  constructor
  · intro found
    rcases takeSign_spelled chars with ⟨sign, signSpelled, shape⟩
    rw [ofChars?] at found
    generalize takeSign chars = taken at found signSpelled shape
    rcases taken with ⟨negative, unsigned⟩
    dsimp only at found signSpelled shape
    have isWhole : ∀ char ∈ unsigned.takeWhile Char.isDigit, char.isDigit = true :=
      fun char member => List.mem_takeWhile_imp member
    have split := List.takeWhile_append_dropWhile (p := Char.isDigit) (l := unsigned)
    generalize unsigned.takeWhile Char.isDigit = whole at found isWhole split
    generalize unsigned.dropWhile Char.isDigit = behind at found split
    rcases takePlaces_spelled behind with ⟨isPlaces, point⟩
    generalize takePlaces behind = parts at found isPlaces point
    rcases parts with ⟨places, mark⟩
    dsimp only at found isPlaces point
    split at found
    · cases found
    · rename_i some
      rcases Option.map_eq_some_iff.mp found with ⟨exponent, marked, rfl⟩
      have ends := spelled_of_exponent? marked
      have nonempty : whole ++ places ≠ [] := by
        intro none
        rcases List.append_eq_nil_iff.mp none with ⟨rfl, rfl⟩
        exact some rfl
      subst shape split
      rcases point with rfl | ⟨rfl, rfl⟩
      · have digits : ∀ char ∈ whole ++ places, char.isDigit = true := by
          intro char member
          exact (List.mem_append.mp member).elim (isWhole char) (isPlaces char)
        have spelled := Spelled.mk signSpelled (.pointed nonempty digits) ends
        rwa [List.append_assoc] at spelled
      · rw [List.append_nil] at nonempty
        exact .mk signSpelled (.whole nonempty isWhole) ends
  · rintro ⟨signSpelled, digitsSpelled, exponentSpelled⟩
    rename_i negative whole places sign digits mark exponent
    rcases digitsSpelled.taken exponentSpelled with ⟨isWhole, isPlaces⟩
    have nonempty : ¬(whole.isEmpty && places.isEmpty) = true := by
      rw [Bool.and_eq_true, List.isEmpty_iff, List.isEmpty_iff, ← List.append_eq_nil_iff]
      exact digitsSpelled.nonempty
    rw [ofChars?, takeSign_append signSpelled (digitsSpelled.unsigned mark)]
    dsimp only
    rw [isWhole, isPlaces]
    dsimp only
    rw [if_neg nonempty, exponent?_of_spelled exponentSpelled]
    rfl

/-! ## The characters of a numeral -/

section Characters

variable {numeral : Numeral} {chars : List Char}

theorem isNumeralPart_of_isDigit {char : Char} (isDigit : char.isDigit = true) :
    isNumeralPart char = true := by
  rw [isNumeralPart, isDigit, Bool.true_or]

theorem SignSpelled.parts {negative : Bool} {sign : List Char}
    (spelled : SignSpelled negative sign) : ∀ char ∈ sign, isNumeralPart char = true := by
  cases spelled <;> exact List.all_eq_true.mp (by decide)

theorem DigitsSpelled.digit_or_point {whole places digits : List Char}
    (spelled : DigitsSpelled whole places digits) :
    ∀ char ∈ digits, char.isDigit = true ∨ char = '.' := by
  intro char member
  cases spelled with
  | whole _ isDigits => exact .inl (isDigits char member)
  | pointed _ isDigits =>
      rw [List.mem_append, List.mem_cons, or_left_comm, ← List.mem_append] at member
      exact member.symm.imp_left (isDigits char)

theorem DigitsSpelled.parts {whole places digits : List Char}
    (spelled : DigitsSpelled whole places digits) :
    ∀ char ∈ digits, isUnsigned char = true ∧ isNumeralPart char = true := by
  intro char member
  rcases spelled.digit_or_point char member with isDigit | rfl
  · exact ⟨isUnsigned_of_isDigit isDigit, isNumeralPart_of_isDigit isDigit⟩
  · exact ⟨rfl, rfl⟩

theorem ExponentSpelled.parts {exponent : Int} (spelled : ExponentSpelled exponent chars) :
    ∀ char ∈ chars, isNumeralPart char = true := by
  intro char member
  cases spelled with
  | omitted => exact absurd member List.not_mem_nil
  | written isMark signSpelled _ isDigits =>
      rw [List.mem_cons, List.mem_append] at member
      rcases member with rfl | inSign | inDigits
      · rcases isMark with rfl | rfl <;> rfl
      · exact signSpelled.parts char inSign
      · exact isNumeralPart_of_isDigit (isDigits char inDigits)

theorem Spelled.parts (spelled : Spelled numeral chars) :
    ∀ char ∈ chars, isNumeralPart char = true := by
  intro char member
  rcases spelled with ⟨signSpelled, digitsSpelled, exponentSpelled⟩
  rw [List.mem_append, List.mem_append] at member
  rcases member with inSign | inDigits | inExponent
  · exact signSpelled.parts char inSign
  · exact (digitsSpelled.parts char inDigits).2
  · exact exponentSpelled.parts char inExponent

/-- Of two neighbours, one is no sign. -/
def SignsApart (chars : List Char) : Prop :=
  chars.IsChain fun first second => isUnsigned first = true ∨ isUnsigned second = true

theorem signsApart_append {left right : List Char}
    (unsigned : ∀ char ∈ left, isUnsigned char = true) (apart : SignsApart right) :
    SignsApart (left ++ right) := by
  induction left with
  | nil => exact apart
  | cons first others ih =>
      have behind := ih fun char member => unsigned char (List.mem_cons_of_mem first member)
      refine List.IsChain.cons behind fun second _ => ?_
      exact .inl (unsigned first List.mem_cons_self)

theorem SignSpelled.signsApart {negative : Bool} {sign rest : List Char}
    (spelled : SignSpelled negative sign)
    (unsigned : ∀ char, rest.head? = some char -> isUnsigned char = true)
    (apart : SignsApart rest) : SignsApart (sign ++ rest) := by
  cases spelled with
  | omitted => exact apart
  | plus => exact List.IsChain.cons apart fun second isFirst => .inr (unsigned second isFirst)
  | minus => exact List.IsChain.cons apart fun second isFirst => .inr (unsigned second isFirst)

theorem signsApart_of_unsigned (unsigned : ∀ char ∈ chars, isUnsigned char = true) :
    SignsApart chars := by
  have apart := signsApart_append unsigned List.IsChain.nil
  rwa [List.append_nil] at apart

theorem ExponentSpelled.signsApart {exponent : Int} (spelled : ExponentSpelled exponent chars) :
    SignsApart chars := by
  cases spelled with
  | omitted => exact List.IsChain.nil
  | written isMark signSpelled _ isDigits =>
      have unsigned : ∀ char ∈ _, isUnsigned char = true :=
        fun char member => isUnsigned_of_isDigit (isDigits char member)
      have behind := signSpelled.signsApart
        (fun char isFirst => unsigned char (List.mem_of_head? isFirst))
        (signsApart_of_unsigned unsigned)
      refine List.IsChain.cons behind fun second _ => .inl ?_
      rcases isMark with rfl | rfl <;> rfl

theorem Spelled.signsApart (spelled : Spelled numeral chars) : SignsApart chars := by
  rcases spelled with ⟨signSpelled, digitsSpelled, exponentSpelled⟩
  apply signSpelled.signsApart (digitsSpelled.unsigned _)
  apply signsApart_append fun char member => (digitsSpelled.parts char member).1
  exact exponentSpelled.signsApart

theorem Spelled.exists_digit (spelled : Spelled numeral chars) :
    ∃ char ∈ chars, char.isDigit = true := by
  rcases spelled with ⟨signSpelled, digitsSpelled, exponentSpelled⟩
  cases digitsSpelled with
  | whole nonempty isDigits =>
      rcases List.exists_mem_of_ne_nil _ nonempty with ⟨char, member⟩
      exact ⟨char, List.mem_append_right _ (List.mem_append_left _ member), isDigits char member⟩
  | pointed nonempty isDigits =>
      rcases List.exists_mem_of_ne_nil _ nonempty with ⟨char, member⟩
      refine ⟨char, List.mem_append_right _ (List.mem_append_left _ ?_), isDigits char member⟩
      exact (List.mem_append.mp member).elim (List.mem_append_left _)
        fun inPlaces => List.mem_append_right _ (List.mem_cons_of_mem _ inPlaces)

/-- A numeral ends in a digit or a point. -/
theorem Spelled.last_digit_or_point (spelled : Spelled numeral chars) {last : Char}
    (isLast : chars.getLast? = some last) : last.isDigit = true ∨ last = '.' := by
  rcases spelled with ⟨signSpelled, digitsSpelled, exponentSpelled⟩
  rename_i negative whole places sign digits mark exponent
  cases exponentSpelled with
  | omitted =>
      have nonempty : digits ≠ [] := by
        cases digitsSpelled with
        | whole nonempty _ => exact nonempty
        | pointed _ _ => exact List.append_ne_nil_of_right_ne_nil _ (List.cons_ne_nil _ _)
      rw [List.append_nil, List.getLast?_append_of_ne_nil _ nonempty] at isLast
      exact digitsSpelled.digit_or_point last (List.mem_of_getLast? isLast)
  | @written mark _ exponentSign exponentDigits _ _ nonempty isDigits =>
      have shape : sign ++ (digits ++ mark :: (exponentSign ++ exponentDigits))
          = sign ++ digits ++ mark :: exponentSign ++ exponentDigits := by
        simp only [List.append_assoc, List.cons_append]
      rw [shape, List.getLast?_append_of_ne_nil _ nonempty] at isLast
      exact .inl (isDigits last (List.mem_of_getLast? isLast))

end Characters

end Numeral

/-! ## The languages of the parts -/

def signs : Language Char :=
  1 + fixed "+" + fixed "-"

/-- Digits with an optional point and optional further digits, or a point before
digits. -/
def mantissas : Language Char :=
  digit * digit∗ * (1 + fixed "." * digit∗) + fixed "." * (digit * digit∗)

/-- An optional mark with an optional sign and digits. -/
def exponents : Language Char :=
  1 + (fixed "e" + fixed "E") * (signs * (digit * digit∗))

def numerals : Language Char :=
  signs * (mantissas * exponents)

def infinities : Language Char :=
  signs * fixed "Infinity"

/-- The words that stand for numbers, in small or capital letters. -/
def words : Language Char :=
  {word | word.map Char.toLower ∈ ["inf".toList, "infinity".toList, "nan".toList]}

section Languages

open Numeral

variable {text : List Char}

theorem mem_digits : text ∈ digit∗ ↔ ∀ char ∈ text, char.isDigit = true := by
  simp only [digit, Token.mem_single_kstar, Token.inRanges_digit]

theorem mem_signs : text ∈ signs ↔ ∃ negative, SignSpelled negative text := by
  rw [signs, Language.mem_add, Language.mem_add, Language.mem_one, mem_fixed, mem_fixed]
  constructor
  · rintro ((rfl | rfl) | rfl)
    · exact ⟨_, .omitted⟩
    · exact ⟨_, .plus⟩
    · exact ⟨_, .minus⟩
  · rintro ⟨negative, spelled⟩
    cases spelled with
    | omitted => exact .inl (.inl rfl)
    | plus => exact .inl (.inr rfl)
    | minus => exact .inr rfl

theorem mem_mantissas : text ∈ mantissas ↔ ∃ whole places, DigitsSpelled whole places text := by
  rw [mantissas, Language.mem_add, Language.mem_mul, mem_fixed_mul]
  constructor
  · rintro (⟨whole, inWhole, behind, member, rfl⟩ | ⟨places, inPlaces, rfl⟩)
    · rw [mem_digits_succ] at inWhole
      rw [Language.mem_add, Language.mem_one, mem_fixed_mul] at member
      rcases member with rfl | ⟨places, inPlaces, rfl⟩
      · rw [List.append_nil]
        exact ⟨whole, [], .whole inWhole.1 inWhole.2⟩
      · rw [mem_digits] at inPlaces
        refine ⟨whole, places, .pointed (List.append_ne_nil_of_left_ne_nil inWhole.1 _) ?_⟩
        intro char member
        exact (List.mem_append.mp member).elim (inWhole.2 char) (inPlaces char)
    · rw [mem_digits_succ] at inPlaces
      exact ⟨[], places, .pointed inPlaces.1 inPlaces.2⟩
  · rintro ⟨whole, places, spelled⟩
    cases spelled with
    | whole nonempty digits =>
        left
        exact ⟨text, mem_digits_succ.mpr ⟨nonempty, digits⟩, [], .inl rfl, List.append_nil _⟩
    | pointed nonempty digits =>
        rcases List.eq_nil_or_concat' whole with rfl | ⟨_, _, isWhole⟩
        · right
          exact ⟨places, mem_digits_succ.mpr ⟨nonempty, digits⟩, rfl⟩
        · left
          have some : whole ≠ [] := by
            rw [isWhole]
            exact List.concat_ne_nil _ _
          refine ⟨whole, mem_digits_succ.mpr ⟨some, fun char member => ?_⟩, _, .inr ?_, rfl⟩
          · exact digits char (List.mem_append_left _ member)
          · refine mem_fixed_mul.mpr ⟨places, mem_digits.mpr fun char member => ?_, rfl⟩
            exact digits char (List.mem_append_right _ member)

theorem mem_exponents : text ∈ exponents ↔ ∃ exponent, ExponentSpelled exponent text := by
  rw [exponents, add_mul, Language.mem_add, Language.mem_one, Language.mem_add, mem_fixed_mul,
    mem_fixed_mul]
  constructor
  · rintro (rfl | ⟨_, member, rfl⟩ | ⟨_, member, rfl⟩)
    · exact ⟨0, .omitted⟩
    all_goals
      rcases Language.mem_mul.mp member with ⟨sign, isSign, digits, isDigits, rfl⟩
      rcases mem_signs.mp isSign with ⟨negative, signSpelled⟩
      rw [mem_digits_succ] at isDigits
      have spelled {mark : Char} (isMark : mark = 'e' ∨ mark = 'E') :=
        ExponentSpelled.written isMark signSpelled isDigits.1 isDigits.2
    · exact ⟨_, spelled (.inl rfl)⟩
    · exact ⟨_, spelled (.inr rfl)⟩
  · rintro ⟨exponent, spelled⟩
    cases spelled with
    | omitted => exact .inl rfl
    | written isMark signSpelled nonempty isDigits =>
        right
        have member := Language.append_mem_mul (mem_signs.mpr ⟨_, signSpelled⟩)
          (mem_digits_succ.mpr ⟨nonempty, isDigits⟩)
        rcases isMark with rfl | rfl
        · exact .inl ⟨_, member, rfl⟩
        · exact .inr ⟨_, member, rfl⟩

theorem mem_numerals : text ∈ numerals ↔ ∃ numeral, Spelled numeral text := by
  rw [numerals, Language.mem_mul]
  constructor
  · rintro ⟨sign, isSign, behind, member, rfl⟩
    rcases Language.mem_mul.mp member with ⟨digits, isDigits, mark, isMark, rfl⟩
    rcases mem_signs.mp isSign with ⟨negative, signSpelled⟩
    rcases mem_mantissas.mp isDigits with ⟨whole, places, digitsSpelled⟩
    rcases mem_exponents.mp isMark with ⟨exponent, exponentSpelled⟩
    exact ⟨_, .mk signSpelled digitsSpelled exponentSpelled⟩
  · rintro ⟨_, signSpelled, digitsSpelled, exponentSpelled⟩
    refine ⟨_, mem_signs.mpr ⟨_, signSpelled⟩, _, Language.append_mem_mul ?_ ?_, rfl⟩
    · exact mem_mantissas.mpr ⟨_, _, digitsSpelled⟩
    · exact mem_exponents.mpr ⟨_, exponentSpelled⟩

theorem mem_infinities :
    text ∈ infinities ↔ (text = "Infinity".toList ∨ text = "+Infinity".toList)
      ∨ text = "-Infinity".toList := by
  rw [infinities, signs, add_mul, add_mul, one_mul, Language.mem_add, Language.mem_add,
    mem_fixed_mul, mem_fixed_mul, mem_fixed]
  constructor
  · rintro ((rfl | ⟨_, rfl, rfl⟩) | ⟨_, rfl, rfl⟩)
    · exact .inl (.inl rfl)
    · exact .inl (.inr rfl)
    · exact .inr rfl
  · rintro ((rfl | rfl) | rfl)
    · exact .inl (.inl rfl)
    · exact .inl (.inr ⟨_, rfl, rfl⟩)
    · exact .inr ⟨_, rfl, rfl⟩

end Languages

/-! ## Texts that are no numerals -/

/-- What keeps a text from being a numeral: a character that no numeral has, two
signs side by side, no digit at all, or no digit before the exponent or in it. -/
inductive Malformed : List Char -> Prop
  | foreign {chars : List Char} {char : Char} (member : char ∈ chars)
      (noDigit : char.isDigit = false) (noMark : char ∉ "+-.eE".toList) : Malformed chars
  | doubledSign {before after : List Char} {first second : Char} (isSign : first ∈ "+-".toList)
      (isSignToo : second ∈ "+-".toList) : Malformed (before ++ first :: second :: after)
  | digitless {chars : List Char} (noDigit : ∀ char ∈ chars, char.isDigit = false) :
      Malformed chars
  | bareExponent {sign rest : List Char} {mark : Char} (isSign : sign ∈ signs)
      (isMark : mark ∈ "eE".toList) : Malformed (sign ++ mark :: rest)
  | openExponent {before : List Char} {last : Char} (isMark : last ∈ "eE+-".toList) :
      Malformed (before ++ [last])

section Malformed

open Numeral

theorem ofChars?_of_bareExponent {sign rest : List Char} {mark : Char} (isSign : sign ∈ signs)
    (isMark : mark ∈ "eE".toList) : ofChars? (sign ++ mark :: rest) = none := by
  rcases mem_signs.mp isSign with ⟨negative, spelled⟩
  have cases : mark = 'e' ∨ mark = 'E' := by simpa using isMark
  have taken : takeSign (sign ++ mark :: rest) = (negative, mark :: rest) := by
    apply takeSign_append spelled
    rintro char ⟨⟩
    rcases cases with rfl | rfl <;> rfl
  rw [ofChars?, taken]
  rcases cases with rfl | rfl <;> rfl

theorem ofChars?_of_malformed {chars : List Char} (malformed : Malformed chars) :
    ofChars? chars = none := by
  apply Option.eq_none_iff_forall_ne_some.mpr
  intro numeral found
  have spelled := ofChars?_eq_some_iff.mp found
  cases malformed with
  | foreign member noDigit noMark =>
      have part := spelled.parts _ member
      rw [isNumeralPart, noDigit, Bool.false_or, List.contains_iff_mem] at part
      exact noMark part
  | doubledSign isSign isSignToo =>
      have signed : ∀ char ∈ "+-".toList, ¬isUnsigned char = true := by
        simp [isUnsigned]
      have neighbours := (List.isChain_append_cons_cons.mp spelled.signsApart).2.1
      exact neighbours.elim (signed _ isSign) (signed _ isSignToo)
  | digitless noDigit =>
      rcases spelled.exists_digit with ⟨char, member, isDigit⟩
      rw [noDigit char member] at isDigit
      cases isDigit
  | bareExponent isSign isMark =>
      rw [ofChars?_of_bareExponent isSign isMark] at found
      cases found
  | openExponent isMark =>
      have marks : ∀ mark ∈ "eE+-".toList, (!mark.isDigit && mark ≠ '.') = true :=
        List.all_eq_true.mp (by decide)
      have apart := marks _ isMark
      rw [Bool.and_eq_true, Bool.not_eq_true', decide_eq_true_eq] at apart
      rcases spelled.last_digit_or_point List.getLast?_concat with isDigit | isPoint
      · rw [apart.1] at isDigit
        cases isDigit
      · exact apart.2 isPoint

end Malformed

/-! ## Numbers and texts -/

theorem nearestMagnitude_le (numerator denominator : Nat) :
    nearestMagnitude numerator denominator ≤ infinityMagnitude := by
  unfold nearestMagnitude
  split
  · exact Nat.zero_le _
  · exact Nat.min_le_right _ _

theorem Decimal.magnitude_le (decimal : Decimal) : decimal.magnitude ≤ infinityMagnitude := by
  unfold Decimal.magnitude
  split_ifs
  · exact Nat.zero_le _
  · exact Nat.le_refl _
  · exact Nat.zero_le _
  · exact nearestMagnitude_le _ _

/-- However great or small a numeral is, it is a number. -/
theorem isNaN_ofMagnitude {magnitude : Nat} (bound : magnitude ≤ infinityMagnitude)
    (negative : Bool) : (ofMagnitude negative magnitude).isNaN = false := by
  have small : magnitude < signWeight := bound.trans_lt (by decide)
  apply Bool.eq_false_iff.mpr
  rw [ne_eq, isNaN_iff, form_ofMagnitude small, formOf, bitsOf_mod small, if_neg bound.not_gt]
  split <;> exact Form.noConfusion

theorem isNaN_nan : nan.isNaN = true :=
  rfl

/-! ## The filter and the reader -/

section Filter

variable {chars : List Char}

/-- Of the texts that come through the filter, the reader reads the numerals. -/
theorem parse?_of_parts (parts : ∀ char ∈ chars, Numeral.isNumeralPart char = true) :
    parse? chars = (Numeral.ofChars? chars).map Numeral.toNumber := by
  rcases Numeral.takeSign_spelled chars with ⟨sign, _, shape⟩
  apply parse?_of_isNumeralPart
  intro first isFirst
  apply parts
  rw [shape]
  exact List.mem_append_right sign (List.mem_of_head? isFirst)

/-- The filter keeps no numeral back. -/
theorem filter_parse? (chars : List Char) :
    (if chars.all Numeral.isNumeralPart then (parse? chars).getD nan else nan)
      = ((Numeral.ofChars? chars).map Numeral.toNumber).getD nan := by
  by_cases parts : chars.all Numeral.isNumeralPart = true
  · rw [if_pos parts, parse?_of_parts (List.all_eq_true.mp parts)]
  · rw [if_neg parts]
    cases found : Numeral.ofChars? chars with
    | none => rfl
    | some numeral =>
        have spelled := Numeral.ofChars?_eq_some_iff.mp found
        exact absurd (List.all_eq_true.mpr spelled.parts) parts

/-- The reader reads words that the filter keeps back, for the sake of a letter
that no numeral has. -/
theorem parse?_of_word (isWord : chars ∈ signs * words) :
    (parse? chars).isSome = true ∧ Malformed chars := by
  rcases Language.mem_mul.mp isWord with ⟨sign, isSign, word, known, rfl⟩
  rcases mem_signs.mp isSign with ⟨negative, spelled⟩
  have letters : ∀ letters ∈ ["inf".toList, "infinity".toList, "nan".toList],
      'n' ∈ letters ∧ '-' ∉ letters ∧ '+' ∉ letters := by decide
  rcases letters _ known with ⟨inLetters, noMinus, noPlus⟩
  constructor
  · have unsigned : ∀ first, word.head? = some first -> Numeral.isUnsigned first = true := by
      intro first isFirst
      have lowered : first.toLower ∈ word.map Char.toLower :=
        List.mem_map_of_mem (List.mem_of_head? isFirst)
      rw [Numeral.isUnsigned, Bool.and_eq_true, decide_eq_true_eq, decide_eq_true_eq]
      refine ⟨?_, ?_⟩
      · rintro rfl
        exact noMinus lowered
      · rintro rfl
        exact noPlus lowered
    have taken := Numeral.takeSign_append spelled unsigned
    have found : (word? negative word).isSome = true := by
      rcases List.mem_cons.mp known with inf | others
      · rw [word?, if_pos (.inl inf)]
        rfl
      · rcases List.mem_cons.mp others with infinity | others
        · rw [word?, if_pos (.inr infinity)]
          rfl
        · rw [word?, List.mem_singleton.mp others]
          rfl
    rw [parse?, taken]
    dsimp only
    rw [Option.isSome_or, found, Bool.true_or]
  · rcases List.mem_map.mp inLetters with ⟨char, member, lowered⟩
    have noPart : ¬Numeral.isNumeralPart char = true := fun part =>
      (Numeral.toLower_of_isNumeralPart part).2 lowered
    rw [Numeral.isNumeralPart, Bool.or_eq_true, not_or, Bool.not_eq_true, List.contains_iff_mem]
      at noPart
    exact .foreign (List.mem_append_right sign member) noPart.1 noPart.2

end Filter

/-- What a text is read as, by what it is without the blanks around it. -/
theorem ofText_cases (text : String) :
    let stripped := Text.trim text.toList
    (stripped = [] ∧ ofText text = ofMagnitude false 0)
      ∨ (stripped ∈ infinities ∧ ofText text = infinity (Numeral.takeSign stripped).1)
      ∨ stripped ≠ [] ∧ stripped ∉ infinities
        ∧ ofText text = ((Numeral.ofChars? stripped).map Numeral.toNumber).getD nan := by
  rw [ofText]
  generalize Text.trim text.toList = stripped
  dsimp only
  by_cases blank : stripped = []
  · exact .inl ⟨blank, if_pos blank⟩
  · rw [if_neg blank]
    by_cases infinite : stripped ∈ infinities
    · refine .inr (.inl ⟨infinite, ?_⟩)
      rcases mem_infinities.mp infinite with (rfl | rfl) | rfl <;> rfl
    · refine .inr (.inr ⟨blank, infinite, ?_⟩)
      rw [mem_infinities, not_or] at infinite
      rw [if_neg infinite.1, if_neg infinite.2]
      exact filter_parse? stripped

theorem isNaN_ofText_iff (text : String) :
    let stripped := Text.trim text.toList
    (ofText text).isNaN = false ↔ stripped = [] ∨ stripped ∈ infinities ∨ stripped ∈ numerals := by
  intro stripped
  rcases ofText_cases text with ⟨blank, read⟩ | ⟨infinite, read⟩ | ⟨visible, finite, read⟩
  · rw [read]
    exact iff_of_true (isNaN_ofMagnitude (Nat.zero_le _) false) (.inl blank)
  · rw [read]
    exact iff_of_true (isNaN_ofMagnitude (Nat.le_refl _) _) (.inr (.inl infinite))
  · rw [read, mem_numerals]
    cases found : Numeral.ofChars? (Text.trim text.toList) with
    | some numeral =>
        have number : numeral.toNumber.isNaN = false :=
          isNaN_ofMagnitude (Decimal.magnitude_le _) _
        exact iff_of_true number (.inr (.inr ⟨numeral, Numeral.ofChars?_eq_some_iff.mp found⟩))
    | none =>
        refine iff_of_false (fun number => ?_) ?_
        · rw [Option.map_none, Option.getD_none, isNaN_nan] at number
          cases number
        · rintro (blank | infinite | ⟨numeral, spelled⟩)
          · exact visible blank
          · exact finite infinite
          · rw [Numeral.ofChars?_eq_some_iff.mpr spelled] at found
            cases found

/-- A text is a number just if, without the blanks around it, it is empty, an
infinity or a numeral; all other texts are no numbers.  Among them is what is
malformed, and so are the words, which the reader by itself would read. -/
theorem isNaN_ofText (text : String) :
    Text.Strips text.toList (Text.trim text.toList)
      ∧ let stripped := Text.trim text.toList
        ((ofText text).isNaN = false
          ↔ stripped = [] ∨ stripped ∈ infinities ∨ stripped ∈ numerals)
        ∧ (stripped ≠ [] -> stripped ∉ infinities -> Malformed stripped ->
            (ofText text).isNaN = true)
        ∧ (stripped ∈ signs * words ->
            (parse? stripped).isSome = true
              ∧ (stripped ∉ infinities -> (ofText text).isNaN = true)) := by
  refine ⟨Text.strips_trim text.toList, ?_⟩
  intro stripped
  have accepted := isNaN_ofText_iff text
  have rejected : stripped ≠ [] -> stripped ∉ infinities -> Malformed stripped ->
      (ofText text).isNaN = true := by
    intro visible finite malformed
    by_contra number
    rcases accepted.mp (Bool.eq_false_iff.mpr number) with blank | infinite | numeral
    · exact visible blank
    · exact finite infinite
    · rcases mem_numerals.mp numeral with ⟨numeral, spelled⟩
      have found := Numeral.ofChars?_eq_some_iff.mpr spelled
      rw [ofChars?_of_malformed malformed] at found
      cases found
  refine ⟨accepted, rejected, fun isWord => ?_⟩
  rcases parse?_of_word isWord with ⟨read, malformed⟩
  have visible : stripped ≠ [] := by
    intro blank
    rw [blank] at read
    cases read
  exact ⟨read, fun finite => rejected visible finite malformed⟩

theorem isNaN_ofText_malformed :
    let doubled := Text.trim " 1e--5\u2003".toList
    let word := Text.trim "\t-iNf".toList
    (doubled ≠ [] ∧ doubled ∉ infinities ∧ Malformed doubled
        ∧ (ofText " 1e--5\u2003").isNaN = true)
      ∧ word ∈ signs * words ∧ word ∉ infinities ∧ (parse? word).isSome = true
        ∧ (ofText "\t-iNf").isNaN = true := by
  intro doubled word
  constructor
  · have visible : doubled ≠ [] := by decide
    have finite : doubled ∉ infinities := mem_infinities.not.mpr (by decide)
    have shape : doubled = ['1', 'e'] ++ '-' :: '-' :: ['5'] := by decide
    have malformed : Malformed doubled := shape ▸ .doubledSign (by decide) (by decide)
    exact ⟨visible, finite, malformed, (isNaN_ofText _).2.2.1 visible finite malformed⟩
  · have finite : word ∉ infinities := mem_infinities.not.mpr (by decide)
    have shape : word = ['-'] ++ "iNf".toList := by decide
    have known : "iNf".toList ∈ words := .head _
    have isWord : word ∈ signs * words :=
      shape ▸ Language.append_mem_mul (mem_signs.mpr ⟨true, .minus⟩) known
    rcases (isNaN_ofText "\t-iNf").2.2.2 isWord with ⟨read, noNumber⟩
    exact ⟨isWord, finite, read, noNumber finite⟩

end Number
end LineShell
