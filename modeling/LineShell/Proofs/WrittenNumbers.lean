import LineShell.Value
import LineShell.Proofs.Numerals

namespace LineShell

/-!
# Numbers that are written and read again

A number is written as a decimal that reads as its magnitude.  The search for a
short one tries exponents from above and only takes what reads as the magnitude,
and it ends at an exponent for which the decimal has the value of the number
itself.  Whatever notation the decimal is written in, the text spells a numeral,
and the reader finds the same digits at the same places again.

With an exponent a number is written in two steps: the exponent has a minus at
most, and then a plus is put in behind the first `e`.  No other `e` stands there,
so the text is that of the decimal with a signed exponent.
-/

theorem Text.trim_of_visible {chars : List Char}
    (visible : ∀ char ∈ chars, isBlank char = false) : trim chars = chars := by
  have kept {some : List Char} (visible : ∀ char ∈ some, isBlank char = false) :
      some.dropWhile isBlank = some := by
    cases some with
    | nil => rfl
    | cons first others =>
        exact List.dropWhile_cons_of_neg (Bool.eq_false_iff.mp (visible first List.mem_cons_self))
  have reversed : ∀ char ∈ chars.reverse, isBlank char = false :=
    fun char member => visible char (List.mem_reverse.mp member)
  rw [trim, kept visible, kept reversed, List.reverse_reverse]

namespace Number

/-! ## Digits -/

theorem digitsValue_eq (digits : List Char) : digitsValue digits = Nat.ofDigitChars 10 digits 0 := by
  rw [digitsValue, Nat.ofDigitChars_eq_foldl]
  simp only [Nat.mul_comm]

theorem digitsValue_digitChars (value : Nat) : digitsValue (digitChars value) = value := by
  rw [digitsValue_eq]
  exact Nat.ofDigitChars_ten_toDigits

theorem isDigit_of_mem_digitChars {value : Nat} {char : Char} (member : char ∈ digitChars value) :
    char.isDigit = true :=
  Nat.isDigit_of_mem_toDigits (by decide) (by decide) member

theorem digitChars_ne_nil (value : Nat) : digitChars value ≠ [] :=
  Nat.toDigits_ne_nil

theorem digitsValue_append_zeros (digits : List Char) (count : Nat) :
    digitsValue (digits ++ List.replicate count '0') = digitsValue digits * 10 ^ count := by
  rw [digitsValue_eq, digitsValue_eq, Nat.ofDigitChars_append, Nat.ofDigitChars_replicate_zero,
    Nat.mul_comm]

theorem digitsValue_zeros_append (count : Nat) (digits : List Char) :
    digitsValue (List.replicate count '0' ++ digits) = digitsValue digits := by
  rw [digitsValue_eq, digitsValue_eq, Nat.ofDigitChars_append, Nat.ofDigitChars_replicate_zero,
    Nat.mul_zero]

/-! ## Decimals that read as a magnitude -/

theorem decimalAt?_magnitude {magnitude : Nat} {exponent : Int} {decimal : Decimal}
    (found : decimalAt? magnitude exponent = some decimal) : decimal.magnitude = magnitude := by
  unfold decimalAt? at found
  dsimp only at found
  split_ifs at found with lower both upper
  · cases found
    rw [Bool.and_eq_true, decide_eq_true_eq] at both
    exact both.1
  · cases found
    exact lower
  · cases found
    exact upper

theorem valueOf_eq_fraction (magnitude : Nat) :
    valueOf magnitude = ((fraction magnitude).1 / (fraction magnitude).2 : ℚ) :=
  dyadic_eq_div _ _

/-- With as many places as the denominator divides out, nothing is cut off. -/
theorem decimalFloor_exact {denominator places : Nat} (divides : denominator ∣ 10 ^ places)
    (numerator : Nat) :
    (decimalFloor numerator denominator (-places)).digits * denominator
      = numerator * 10 ^ places := by
  have whole : (-(places : Int)).toNat = 0 := by omega
  have fractional : (-(-(places : Int))).toNat = places := by omega
  simp only [decimalFloor, whole, fractional, Nat.pow_eq, pow_zero, mul_one]
  exact Nat.div_mul_cancel (divides.mul_left numerator)

theorem two_pow_le_digits {digits numerator denominator places : Nat} (positive : 0 < numerator)
    (small : denominator ≤ 2 ^ places) (same : digits * denominator = numerator * 10 ^ places) :
    2 ^ places ≤ digits := by
  have five : 10 ^ places = 5 ^ places * 2 ^ places := by
    rw [← Nat.mul_pow]
  have scaled : 5 ^ places * 2 ^ places ≤ digits * 2 ^ places := calc
    5 ^ places * 2 ^ places = 1 * 10 ^ places := by rw [five, one_mul]
    _ ≤ numerator * 10 ^ places := Nat.mul_le_mul_right _ positive
    _ = digits * denominator := same.symm
    _ ≤ digits * 2 ^ places := Nat.mul_le_mul_left _ small
  calc
    2 ^ places ≤ 5 ^ places := Nat.pow_le_pow_left (by decide) places
    _ ≤ digits := Nat.le_of_mul_le_mul_right scaled (Nat.two_pow_pos places)

theorem unpack_pos {magnitude : Nat} (positive : 0 < magnitude) : 0 < (unpack magnitude).1 := by
  refine Nat.pos_of_ne_zero fun nothing => Nat.ne_of_gt positive ?_
  have canonical := canonical_unpack magnitude
  have packed := pack_unpack magnitude
  rw [nothing] at canonical packed
  rw [← packed, canonical.full.resolve_left (by decide)]
  rfl

/-- Decimals are read as the magnitude of their value, if they have so many digits
that the bound on exponents does not matter. -/
theorem Decimal.magnitude_of_exact {magnitude digits places : Nat}
    (finite : magnitude < infinityMagnitude) (large : 2 ^ places ≤ digits)
    (same : (digits : ℚ) / (10 ^ places : Nat) = valueOf magnitude) :
    Decimal.magnitude { digits, exponent := -places } = magnitude := by
  have nonzero : digits ≠ 0 := Nat.ne_of_gt ((Nat.two_pow_pos places).trans_le large)
  have long : places ≤ digits.log2 := (Nat.le_log2 nonzero).mpr large
  have limit : exponentLimit = 400 := rfl
  have whole : (-(places : Int)).toNat = 0 := by omega
  have fractional : (-(-(places : Int))).toNat = places := by omega
  simp only [Decimal.magnitude, if_neg nonzero, limit]
  rw [if_neg (by omega), if_neg (by omega), whole, fractional, Nat.pow_eq, Nat.pow_eq, pow_zero,
    mul_one]
  exact nearestMagnitude_valueOf finite (Nat.pow_pos (by decide)) same

/-- The last exponent of the search makes every magnitude a decimal. -/
theorem decimalFloor_magnitude {magnitude : Nat} (positive : 0 < magnitude)
    (finite : magnitude < infinityMagnitude) :
    (decimalFloor (fraction magnitude).1 (fraction magnitude).2 leastExponent).magnitude
      = magnitude := by
  -- The number of places stays a variable, so that no power of it is computed.
  obtain ⟨places, least⟩ : ∃ places : Nat, leastExponent = -places := ⟨1074, rfl⟩
  have lowest := (canonical_unpack magnitude).least
  have numeratorPositive : 0 < (fraction magnitude).1 :=
    Nat.mul_pos (unpack_pos positive) (Nat.two_pow_pos _)
  have fits : (-(unpack magnitude).2).toNat ≤ places := by omega
  have small : (fraction magnitude).2 ≤ 2 ^ places := Nat.pow_le_pow_right Nat.two_pos fits
  have divides : (fraction magnitude).2 ∣ 10 ^ places :=
    (pow_dvd_pow 2 fits).trans (pow_dvd_pow_of_dvd (by decide) places)
  have denominatorPositive : (0 : ℚ) < (fraction magnitude).2 := by
    exact_mod_cast Nat.two_pow_pos _
  have exact := decimalFloor_exact divides (fraction magnitude).1
  rw [least]
  apply Decimal.magnitude_of_exact finite (two_pow_le_digits numeratorPositive small exact)
  rw [valueOf_eq_fraction, div_eq_div_iff (by positivity) denominatorPositive.ne']
  exact_mod_cast exact

/-- Every decimal that the search takes reads as the magnitude. -/
theorem shortestFrom_magnitude {magnitude : Nat} (positive : 0 < magnitude)
    (finite : magnitude < infinityMagnitude) (steps : Nat) :
    (shortestFrom magnitude steps).magnitude = magnitude := by
  induction steps with
  | zero => exact decimalFloor_magnitude positive finite
  | succ steps ih =>
      rw [shortestFrom]
      cases found : decimalAt? magnitude (leastExponent + (steps + 1)) with
      | some decimal => exact decimalAt?_magnitude found
      | none => exact ih

theorem shortest_magnitude {magnitude : Nat} (positive : 0 < magnitude)
    (finite : magnitude < infinityMagnitude) : (shortest magnitude).magnitude = magnitude :=
  shortestFrom_magnitude positive finite _

/-! ## Notations -/

namespace Decimal

open Numeral

/-- A text that spells digits and an exponent, which make up a decimal that reads
as the given one. -/
def WrittenAs (decimal : Decimal) (chars : List Char) : Prop :=
  ∃ whole places digits mark exponent, DigitsSpelled whole places digits
    ∧ ExponentSpelled exponent mark ∧ chars = digits ++ mark
    ∧ Decimal.magnitude
        { digits := digitsValue (whole ++ places), exponent := exponent - places.length }
      = decimal.magnitude

theorem magnitude_shift {decimal : Decimal} (whole : 0 ≤ decimal.exponent)
    (small : decimal.exponent ≤ exponentLimit) :
    Decimal.magnitude { digits := decimal.digits * 10 ^ decimal.exponent.toNat, exponent := 0 }
      = decimal.magnitude := by
  have limit : exponentLimit = 400 := rfl
  have noPlaces : (-decimal.exponent).toNat = 0 := by omega
  rcases Nat.eq_zero_or_pos decimal.digits with nothing | positive
  · simp only [Decimal.magnitude, nothing, Nat.zero_mul, if_true]
  · have positiveToo : 0 < decimal.digits * 10 ^ decimal.exponent.toNat :=
      Nat.mul_pos positive (Nat.pow_pos (by decide))
    rw [limit] at small
    simp only [Decimal.magnitude, if_neg (Nat.ne_of_gt positive), if_neg (Nat.ne_of_gt positiveToo),
      limit]
    rw [if_neg (by omega), if_neg (by omega), if_neg (by omega), if_neg (by omega), noPlaces]
    simp only [neg_zero, Int.toNat_zero, Nat.pow_eq, pow_zero, mul_one]

/-- How an exponent is written. -/
theorem exponentSpelled_digitChars (exponent : Int) :
    ExponentSpelled exponent
      ('e' :: (if exponent < 0 then '-' else '+') :: digitChars exponent.natAbs) := by
  have isDigits : ∀ char ∈ digitChars exponent.natAbs, char.isDigit = true :=
    fun char member => isDigit_of_mem_digitChars member
  have nonempty := digitChars_ne_nil exponent.natAbs
  have value := digitsValue_digitChars exponent.natAbs
  rcases lt_or_ge exponent 0 with negative | nonneg
  · have spelled := ExponentSpelled.written (.inl rfl) .minus nonempty isDigits
    have same : (-(exponent.natAbs : Int)) = exponent := by omega
    rw [value, if_pos rfl, same] at spelled
    rw [if_pos negative]
    exact spelled
  · have spelled := ExponentSpelled.written (.inl rfl) .plus nonempty isDigits
    have same : (exponent.natAbs : Int) = exponent := by omega
    rw [value, if_neg Bool.false_ne_true, same] at spelled
    rw [if_neg nonneg.not_gt]
    exact spelled

/-- Apart from zero, what reads as a finite magnitude has no great exponent. -/
theorem exponent_le_of_finite {decimal : Decimal} (positive : 0 < decimal.magnitude)
    (finite : decimal.magnitude < infinityMagnitude) : decimal.exponent ≤ exponentLimit := by
  by_contra beyond
  have nonzero : decimal.digits ≠ 0 := by
    intro nothing
    rw [Decimal.magnitude, if_pos nothing] at positive
    exact Nat.lt_irrefl 0 positive
  rw [Decimal.magnitude, if_neg nonzero, if_pos (not_le.mp beyond)] at finite
  exact Nat.lt_irrefl _ finite

theorem isDigit_digits (decimal : Decimal) :
    ∀ char ∈ digitChars decimal.digits, char.isDigit = true :=
  fun _ member => isDigit_of_mem_digitChars member

theorem writtenAs_positional {decimal : Decimal} (small : decimal.exponent ≤ exponentLimit) :
    decimal.WrittenAs decimal.positional := by
  have nonempty := digitChars_ne_nil decimal.digits
  have isDigits := decimal.isDigit_digits
  have value := digitsValue_digitChars decimal.digits
  unfold positional
  generalize digitChars decimal.digits = chars at nonempty isDigits value
  have isZeros (count : Nat) : ∀ char ∈ List.replicate count '0', char.isDigit = true := by
    intro char member
    rw [List.eq_of_mem_replicate member]
    rfl
  have split := List.take_append_drop (chars.length - (-decimal.exponent).toNat) chars
  dsimp only
  split_ifs with noPlaces inside
  · -- The zeros at the end belong to the digits that are read.
    have isWhole : ∀ char ∈ chars ++ List.replicate decimal.exponent.toNat '0',
        char.isDigit = true := by
      intro char member
      exact (List.mem_append.mp member).elim (isDigits char) (isZeros _ char)
    refine ⟨_, [], _, [], 0, .whole (List.append_ne_nil_of_left_ne_nil nonempty _) isWhole,
      .omitted, (List.append_nil _).symm, ?_⟩
    rw [List.append_nil, digitsValue_append_zeros, value]
    exact magnitude_shift (by omega) small
  · refine ⟨_, _, _, [], 0, .pointed (split.symm ▸ nonempty) (split.symm ▸ isDigits), .omitted,
      (List.append_nil _).symm, ?_⟩
    rw [split, value, List.length_drop]
    congr 2
    omega
  · have isPlaces : ∀ char ∈ ['0'] ++ (List.replicate ((-decimal.exponent).toNat - chars.length) '0'
        ++ chars), char.isDigit = true := by
      intro char member
      rw [List.mem_append, List.mem_append, List.mem_singleton] at member
      rcases member with rfl | inZeros | inChars
      · rfl
      · exact isZeros _ char inZeros
      · exact isDigits char inChars
    refine ⟨['0'], _, _, [], 0, .pointed (List.cons_ne_nil _ _) isPlaces, .omitted,
      (List.append_nil _).symm, ?_⟩
    have zero (count : Nat) :
        digitsValue (['0'] ++ (List.replicate count '0' ++ chars)) = digitsValue chars :=
      (digitsValue_zeros_append 1 _).trans (digitsValue_zeros_append count chars)
    rw [zero, value, List.length_append, List.length_replicate]
    congr 2
    omega

/-- The mantissa is spelled with the digits of the decimal, of which all but the
first one are places. -/
theorem digitsSpelled_mantissa (decimal : Decimal) :
    DigitsSpelled ((digitChars decimal.digits).take 1) ((digitChars decimal.digits).drop 1)
      decimal.mantissa := by
  have nonempty := digitChars_ne_nil decimal.digits
  have isDigits := decimal.isDigit_digits
  unfold mantissa
  generalize digitChars decimal.digits = chars at nonempty isDigits
  have split := List.take_append_drop 1 chars
  dsimp only
  split_ifs with single
  · rw [List.drop_of_length_le single, List.take_of_length_le single, List.append_nil,
      List.append_nil]
    exact .whole nonempty isDigits
  · rw [List.append_assoc]
    exact .pointed (split.symm ▸ nonempty) (split.symm ▸ isDigits)

/-- A decimal with a signed exponent. -/
def marked (decimal : Decimal) : List Char :=
  decimal.mantissa
    ++ 'e' :: (if decimal.leading < 0 then '-' else '+') :: digitChars decimal.leading.natAbs

theorem writtenAs_marked (decimal : Decimal) : decimal.WrittenAs decimal.marked := by
  have positive := List.length_pos_iff.mpr (digitChars_ne_nil decimal.digits)
  refine ⟨_, _, _, _, _, decimal.digitsSpelled_mantissa, exponentSpelled_digitChars _, rfl, ?_⟩
  rw [List.take_append_drop, digitsValue_digitChars, List.length_drop, leading]
  congr 2
  omega

/-- The one `e` that a decimal is written with stands before its exponent, which
begins with a minus or with a digit. -/
theorem markExponent_scientific (negative : Bool) (decimal : Decimal) :
    markExponent (signed negative decimal.scientific) = signed negative decimal.marked := by
  have absent : 'e' ∉ signed negative decimal.mantissa := by
    have inMantissa : 'e' ∉ decimal.mantissa := by
      intro member
      rcases decimal.digitsSpelled_mantissa.digit_or_point 'e' member with isDigit | isPoint
      · cases isDigit
      · cases isPoint
    cases negative with
    | false => exact inMantissa
    | true => exact List.not_mem_cons_of_ne_of_not_mem (by decide) inMantissa
  have append (rest : List Char) : signed negative (decimal.mantissa ++ rest)
      = signed negative decimal.mantissa ++ rest := by
    cases negative <;> rfl
  rw [scientific, append, markExponent, Text.splitOnce_append absent, marked, append]
  dsimp only
  by_cases small : decimal.leading < 0
  · rw [decide_eq_true small, if_pos small]
    rfl
  · have unsigned : ¬(digitChars decimal.leading.natAbs).head? = some '-' := by
      intro isMinus
      cases isDigit_of_mem_digitChars (List.mem_of_head? isMinus)
    rw [decide_eq_false small, if_neg small, signed, if_neg Bool.false_ne_true, if_neg unsigned]

end Decimal

/-! ## Reading what was written -/

theorem signSpelled_signed (negative : Bool) (chars : List Char) :
    ∃ sign, Numeral.SignSpelled negative sign ∧ signed negative chars = sign ++ chars := by
  cases negative with
  | false => exact ⟨[], .omitted, rfl⟩
  | true => exact ⟨['-'], .minus, rfl⟩

theorem Numeral.isBlank_of_isNumeralPart {char : Char} (part : isNumeralPart char = true) :
    Text.isBlank char = false := by
  rw [isNumeralPart, Bool.or_eq_true, List.contains_iff_mem] at part
  rcases part with isDigit | isMark
  · rw [Token.isDigit_iff] at isDigit
    apply Bool.eq_false_iff.mpr
    intro blank
    have place := Token.toNat_of_isBlank blank
    omega
  · have marks : ∀ mark ∈ "+-.eE".toList, (!Text.isBlank mark) = true :=
      List.all_eq_true.mp (by decide)
    exact (Bool.not_eq_true' _).mp (marks char isMark)

/-- A numeral is read as the number nearest to it. -/
theorem ofText_of_spelled {numeral : Numeral} {chars : List Char}
    (spelled : Numeral.Spelled numeral chars) :
    ofText (String.ofList chars) = numeral.toNumber := by
  have visible : ∀ char ∈ chars, Text.isBlank char = false :=
    fun char member => Numeral.isBlank_of_isNumeralPart (spelled.parts char member)
  have found := Numeral.ofChars?_eq_some_iff.mpr spelled
  have read := ofText_cases (String.ofList chars)
  rw [String.toList_ofList, Text.trim_of_visible visible] at read
  rcases read with ⟨rfl, _⟩ | ⟨infinite, _⟩ | ⟨_, _, read⟩
  · cases found
  · -- An infinity has a letter that no numeral has.
    have letter : 'I' ∈ chars := by
      rcases mem_infinities.mp infinite with (rfl | rfl) | rfl <;> decide
    exact absurd (spelled.parts 'I' letter) Bool.false_ne_true
  · rw [read, found]
    rfl

theorem ofText_signed {decimal : Decimal} {chars : List Char} (written : decimal.WrittenAs chars)
    (negative : Bool) :
    ofText (String.ofList (signed negative chars)) = ofMagnitude negative decimal.magnitude := by
  rcases signSpelled_signed negative chars with ⟨sign, signSpelled, shape⟩
  rcases written with
    ⟨whole, places, digits, mark, exponent, digitsSpelled, exponentSpelled, written, same⟩
  rw [shape, written, ofText_of_spelled (.mk signSpelled digitsSpelled exponentSpelled), ← same]
  rfl

theorem of_form_finite {number : Float} {negative : Bool} {mantissa : Nat} {exponent : Int}
    (isForm : form number = .finite negative mantissa exponent) :
    isNegative number = negative ∧ magnitude number < infinityMagnitude
      ∧ unpack (magnitude number) = (mantissa, exponent) := by
  unfold form at isForm
  dsimp only at isForm
  split_ifs at isForm with beyond infinite
  rcases Form.finite.inj isForm with ⟨sign, isMantissa, isExponent⟩
  exact ⟨sign, by omega, Prod.ext isMantissa isExponent⟩

/-- How a number comes back that is written and read: what is no number stays so,
and of the others only the negative zero loses its sign. -/
def ComesBack (word : UInt64) (number : Float) : Prop :=
  if (Float.ofBits word).isNaN = true then number.isNaN = true
  else number.toBits = if word = 0x8000000000000000 then 0 else word

theorem isNaN_ofBits_iff (word : UInt64) :
    (Float.ofBits word).isNaN = true ↔ formOf word.toNat = .nan := by
  rw [isNaN_iff, form_ofBits]

theorem comesBack_of_eq {word : UInt64} (known : formOf word.toNat ≠ .nan)
    (nonzero : magnitude (Float.ofBits word) ≠ 0) : ComesBack word (Float.ofBits word) := by
  have number : ¬(Float.ofBits word).isNaN = true := mt (isNaN_ofBits_iff word).mp known
  have other : word ≠ 0x8000000000000000 := by
    rintro rfl
    exact nonzero rfl
  rw [ComesBack, if_neg number, if_neg other]
  exact toBits_ofBits known

theorem comesBack_infinite {word : UInt64} {negative : Bool}
    (known : formOf word.toNat = .infinite negative) :
    ComesBack word (ofText (render (Float.ofBits word))) := by
  have number : formOf word.toNat ≠ .nan := known.trans_ne Form.noConfusion
  have written : render (Float.ofBits word) = String.ofList (signed negative "Infinity".toList) := by
    rw [render, form_ofBits, known]
  have read : ofText (String.ofList (signed negative "Infinity".toList)) = infinity negative := by
    cases negative <;> rfl
  have same : infinity negative = Float.ofBits word := by
    have bits := bits_formOf word.toNat_lt number
    rw [known, Form.bits] at bits
    change Float.ofBits (UInt64.ofNat (bitsOf negative infinityMagnitude)) = _
    rw [bits, UInt64.ofNat_toNat]
  rw [written, read, same]
  apply comesBack_of_eq number
  intro zero
  have finite : formOf word.toNat = .finite (isNegative (Float.ofBits word)) 0 leastExponent := by
    rw [← form_ofBits, form, zero]
    rfl
  rw [known] at finite
  cases finite

theorem comesBack_zero {word : UInt64} {negative : Bool} {exponent : Int}
    (known : formOf word.toNat = .finite negative 0 exponent) :
    ComesBack word (ofText (render (Float.ofBits word))) := by
  have number : formOf word.toNat ≠ .nan := known.trans_ne Form.noConfusion
  have written : render (Float.ofBits word) = "0" := by
    rw [render, form_ofBits, known]
    rfl
  have lowest : exponent = leastExponent := by
    have proper := proper_formOf word.toNat
    rw [known] at proper
    exact proper.1.full.resolve_left (by decide)
  have bits := bits_formOf word.toNat_lt number
  rw [known, lowest, Form.bits] at bits
  have isNumber : ¬(Float.ofBits word).isNaN = true := mt (isNaN_ofBits_iff word).mp number
  have zero : (ofText "0").toBits = 0 := by decide +kernel
  rw [ComesBack, if_neg isNumber, written, zero]
  cases negative with
  | false =>
      have isZero : word = 0 := UInt64.toNat_inj.mp bits.symm
      rw [isZero]
      rfl
  | true =>
      have isZero : word = 0x8000000000000000 := UInt64.toNat_inj.mp bits.symm
      rw [if_pos isZero]

theorem comesBack_finite {word : UInt64} {negative : Bool} {mantissa : Nat} {exponent : Int}
    (known : formOf word.toNat = .finite negative mantissa exponent) (nonzero : mantissa ≠ 0) :
    ComesBack word (ofText (render (Float.ofBits word))) := by
  have number : formOf word.toNat ≠ .nan := known.trans_ne Form.noConfusion
  rcases of_form_finite ((form_ofBits word).trans known) with ⟨sign, finite, unpacked⟩
  have positive : magnitude (Float.ofBits word) ≠ 0 := by
    intro zero
    rw [zero] at unpacked
    exact nonzero (Prod.ext_iff.mp unpacked).1.symm
  have back := shortest_magnitude (Nat.pos_of_ne_zero positive) finite
  have small : (shortest (magnitude (Float.ofBits word))).exponent ≤ Decimal.exponentLimit :=
    Decimal.exponent_le_of_finite (back.symm ▸ Nat.pos_of_ne_zero positive) (back.symm ▸ finite)
  have read : ofText (render (Float.ofBits word)) = Float.ofBits word := by
    rw [render, form_ofBits, known]
    dsimp only
    rw [if_neg nonzero]
    -- Whichever notation the number is great enough for, it is read from it.
    split
    · rw [ofText_signed (Decimal.writtenAs_positional small), back, ← sign,
        ofMagnitude_magnitude number]
    · rw [Decimal.markExponent_scientific, ofText_signed (Decimal.writtenAs_marked _), back, ← sign,
        ofMagnitude_magnitude number]
  rw [read]
  exact comesBack_of_eq number positive

theorem comesBack_ofText_render (word : UInt64) :
    ComesBack word (ofText (render (Float.ofBits word))) := by
  cases known : formOf word.toNat with
  | nan =>
      have noNumber : (Float.ofBits word).isNaN = true := (isNaN_ofBits_iff word).mpr known
      have written : render (Float.ofBits word) = "NaN" := by
        rw [render, form_ofBits, known]
        rfl
      rw [ComesBack, if_pos noNumber, written]
      rfl
  | infinite negative => exact comesBack_infinite known
  | finite negative mantissa exponent =>
      rcases eq_or_ne mantissa 0 with rfl | nonzero
      · exact comesBack_zero known
      · exact comesBack_finite known nonzero

end Number

/-! ## Values that hold a number -/

namespace Value

/-- A list of one value, inside as many further lists of one value as `depth`
says. -/
def enclose (depth : Nat) (value : Value) : Value :=
  match depth with
  | 0 => .list [value]
  | depth + 1 => .list [enclose depth value]

theorem render_singleton (value : Value) : (Value.list [value]).render = value.render := by
  rw [render, renderItems, renderItems]
  exact String.intercalate_singleton

theorem render_enclose (depth : Nat) (value : Value) :
    (enclose depth value).render = value.render := by
  induction depth with
  | zero => exact render_singleton value
  | succ depth ih => exact (render_singleton _).trans ih

theorem toNumber_enclose (depth : Nat) (value : Value) :
    (enclose depth value).toNumber = Number.ofText value.render := by
  have read (items : List Value) :
      (Value.list items).toNumber = Number.ofText (Value.list items).render := rfl
  rw [← render_enclose depth value]
  cases depth with
  | zero => exact read _
  | succ depth => exact read _

/-- Every number survives that it is written and read again, as a text of its own
and inside of lists. -/
theorem number_survives (word : UInt64) :
    Number.ComesBack word (Number.ofText (Number.render (Float.ofBits word)))
      ∧ Number.ComesBack word (Value.text (Value.number (Float.ofBits word)).render).toNumber
      ∧ ∀ depth, Number.ComesBack word (enclose depth (.number (Float.ofBits word))).toNumber := by
  have back := Number.comesBack_ofText_render word
  refine ⟨back, back, fun depth => ?_⟩
  rw [toNumber_enclose]
  exact back

end Value
end LineShell
