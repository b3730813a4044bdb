import LineShell.Proofs.Magnitudes

namespace LineShell
namespace Number

open Float.Model (UnpackedFloat Format)

/-!
# Words of 64 bits as numbers

The arithmetic of numbers takes words of 64 bits apart into signs, mantissas and
exponents, and puts a word together again from those of the result.  A word that
is taken apart and put together is the same word, except that there is only one
that is no number.
-/

/-! ## The fields of a word -/

/-- What a word of 64 bits is as a number. -/
def formOf (bits : Nat) : Form :=
  if infinityMagnitude < bits % signWeight then .nan
  else if bits % signWeight = infinityMagnitude then .infinite (signWeight ≤ bits)
  else
    .finite (signWeight ≤ bits) (unpack (bits % signWeight)).1 (unpack (bits % signWeight)).2

theorem form_eq_formOf (number : Float) : form number = formOf number.toBits.toNat := rfl

theorem signWeight_eq : signWeight = 2 ^ 63 := rfl

/-- What a word is, by its exponent field and its fraction field. -/
theorem formOf_fields (bits : Nat) :
    formOf bits =
      if bits / 2 ^ 52 % 2 ^ 11 = 2047 then
        if bits % 2 ^ 52 = 0 then .infinite (signWeight ≤ bits) else .nan
      else if bits / 2 ^ 52 % 2 ^ 11 = 0 then
        .finite (signWeight ≤ bits) (bits % 2 ^ 52) leastExponent
      else
        .finite (signWeight ≤ bits) (2 ^ 52 + bits % 2 ^ 52)
          (leastExponent + (bits / 2 ^ 52 % 2 ^ 11 : Nat) - 1) := by
  have field : bits % signWeight / 2 ^ 52 = bits / 2 ^ 52 % 2 ^ 11 := by
    rw [signWeight_eq]
    omega
  have fraction : bits % signWeight % 2 ^ 52 = bits % 2 ^ 52 := by
    rw [signWeight_eq]
    omega
  have bound : bits % signWeight < 2 ^ 63 := Nat.mod_lt bits (by decide)
  rw [← field, ← fraction, formOf]
  generalize bits % signWeight = magnitude at bound
  rw [infinityMagnitude_eq]
  rcases Nat.lt_trichotomy magnitude (2047 * 2 ^ 52) with finite | infinite | beyond
  · rw [if_neg (by omega), if_neg (by omega), if_neg (by omega)]
    rcases Nat.lt_or_ge magnitude (2 ^ 52) with subnormal | normal
    · rw [if_pos (by omega), unpack_of_lt subnormal, Nat.mod_eq_of_lt subnormal]
    · rw [if_neg (by omega), unpack_of_le normal, fractionSize_eq]
  · rw [if_neg (by omega), if_pos infinite, if_pos (by omega), if_pos (by omega)]
  · rw [if_pos beyond, if_pos (by omega), if_neg (by omega)]

/-! ## Words taken apart -/

def signOf (negative : Bool) : UnpackedFloat.Sign :=
  if negative then .negative else .positive

/-- What a number is taken apart into. -/
def Form.unpacked : Form -> UnpackedFloat
  | .nan => .notANumber
  | .infinite negative => .infinity (signOf negative)
  | .finite negative mantissa exponent =>
      if positive : 0 < mantissa then .finite (signOf negative) mantissa exponent positive
      else .zero (signOf negative)

theorem Form.unpacked_of_pos {mantissa : Nat} (positive : 0 < mantissa) (negative : Bool)
    (exponent : Int) :
    (Form.finite negative mantissa exponent).unpacked
      = .finite (signOf negative) mantissa exponent positive :=
  dif_pos positive

theorem toNat_unpackMantissa (word : BitVec 64) :
    (@UnpackedFloat.unpackMantissa .binary64 word).toNat = word.toNat % 2 ^ 52 := by
  simp [UnpackedFloat.unpackMantissa]

theorem toNat_unpackExponent (word : BitVec 64) :
    (@UnpackedFloat.unpackExponent .binary64 word).toNat = word.toNat / 2 ^ 52 % 2 ^ 11 := by
  simp [UnpackedFloat.unpackExponent, Nat.shiftRight_eq_div_pow]

theorem toNat_unpackSign (word : BitVec 64) :
    (@UnpackedFloat.unpackSign .binary64 word).toNat = word.toNat / 2 ^ 63 % 2 :=
  congrArg (· % 2) (Nat.shiftRight_eq_div_pow word.toNat 63)

theorem ofBitVec_unpackSign (word : BitVec 64) :
    UnpackedFloat.Sign.ofBitVec (@UnpackedFloat.unpackSign .binary64 word)
      = signOf (signWeight ≤ word.toNat) := by
  have bit := toNat_unpackSign word
  have bound := word.isLt
  rw [UnpackedFloat.Sign.ofBitVec, signOf, signWeight_eq]
  by_cases negative : 2 ^ 63 ≤ word.toNat
  · rw [if_neg fun zero => ?_, if_pos (decide_eq_true negative)]
    rw [zero, BitVec.toNat_zero] at bit
    omega
  · rw [if_pos (BitVec.eq_of_toNat_eq ?_), if_neg (mt of_decide_eq_true negative)]
    rw [bit, BitVec.toNat_zero]
    omega

theorem toNat_implicit_append (fraction : BitVec 52) :
    (1#1 ++ fraction).toNat = 2 ^ 52 + fraction.toNat := by
  rw [BitVec.toNat_append, ← Nat.shiftLeft_add_eq_or_of_lt fraction.isLt]
  rfl

theorem unpack_word (word : BitVec 64) :
    UnpackedFloat.unpack .binary64 word = (formOf word.toNat).unpacked := by
  have mantissa := toNat_unpackMantissa word
  have exponent := toNat_unpackExponent word
  have top : @UnpackedFloat.unpackExponent .binary64 word = -1#_
      ↔ word.toNat / 2 ^ 52 % 2 ^ 11 = 2047 := by
    rw [← exponent, ← BitVec.toNat_inj]
    rfl
  have bottom : @UnpackedFloat.unpackExponent .binary64 word = 0#_
      ↔ word.toNat / 2 ^ 52 % 2 ^ 11 = 0 := by
    rw [← exponent, ← BitVec.toNat_inj]
    rfl
  have empty : @UnpackedFloat.unpackMantissa .binary64 word = 0#_ ↔ word.toNat % 2 ^ 52 = 0 := by
    rw [← mantissa, ← BitVec.toNat_inj]
    rfl
  rw [formOf_fields]
  unfold UnpackedFloat.unpack
  dsimp only
  rw [ofBitVec_unpackSign]
  by_cases special : word.toNat / 2 ^ 52 % 2 ^ 11 = 2047
  · rw [if_pos (top.mpr special), if_pos special]
    by_cases isInfinite : word.toNat % 2 ^ 52 = 0
    · rw [if_pos (empty.mpr isInfinite), if_pos isInfinite]
      rfl
    · rw [if_neg (mt empty.mp isInfinite), if_neg isInfinite]
      rfl
  · rw [if_neg (mt top.mp special), if_neg special]
    by_cases subnormal : word.toNat / 2 ^ 52 % 2 ^ 11 = 0
    · rw [if_pos (bottom.mpr subnormal), if_pos subnormal]
      by_cases isZero : word.toNat % 2 ^ 52 = 0
      · rw [dif_pos (empty.mpr isZero), isZero]
        rfl
      · rw [dif_neg (mt empty.mp isZero), Form.unpacked_of_pos (Nat.pos_of_ne_zero isZero),
          UnpackedFloat.finite.injEq, exponent, subnormal]
        exact ⟨rfl, mantissa, rfl⟩
    · have bias : Format.binary64.exponentBias = 1023 := rfl
      rw [if_neg (mt bottom.mp subnormal), if_neg subnormal, Form.unpacked_of_pos (by omega),
        UnpackedFloat.finite.injEq, exponent, bias, leastExponent_eq]
      exact ⟨rfl, (toNat_implicit_append _).trans (by rw [mantissa]), by omega⟩

/-! ## Words put together -/

/-- The word with a sign and a magnitude. -/
def bitsOf (negative : Bool) (magnitude : Nat) : Nat :=
  if negative then signWeight + magnitude else magnitude

theorem bitsOf_mod {magnitude : Nat} (bound : magnitude < signWeight) (negative : Bool) :
    bitsOf negative magnitude % signWeight = magnitude := by
  cases negative with
  | false => exact Nat.mod_eq_of_lt bound
  | true => exact (Nat.add_mod_left _ _).trans (Nat.mod_eq_of_lt bound)

theorem le_bitsOf {magnitude : Nat} (bound : magnitude < signWeight) (negative : Bool) :
    decide (signWeight ≤ bitsOf negative magnitude) = negative := by
  cases negative with
  | false => exact decide_eq_false (Nat.not_le_of_lt bound)
  | true => exact decide_eq_true (Nat.le_add_right _ _)

theorem bitsOf_eq (negative : Bool) (magnitude : Nat) :
    bitsOf negative magnitude = (signOf negative).toBitVec.toNat * 2 ^ 63 + magnitude := by
  cases negative with
  | false => exact (Nat.zero_add magnitude).symm
  | true => rfl

namespace Form

/-- The word that is put together for a number. -/
def bits : Form -> Nat
  | .nan => infinityMagnitude + fractionSize / 2
  | .infinite negative => bitsOf negative infinityMagnitude
  | .finite negative mantissa exponent => bitsOf negative (pack mantissa exponent)

/-- A finite number has a canonical mantissa and exponent. -/
def Proper : Form -> Prop
  | .finite _ mantissa exponent => Canonical mantissa exponent ∧ exponent ≤ greatestExponent
  | _ => True

theorem proper_zero (negative : Bool) : (Form.finite negative 0 leastExponent).Proper :=
  ⟨⟨by decide, le_refl _, .inr rfl⟩, by decide⟩

theorem proper_unpack {magnitude : Nat} (finite : magnitude < infinityMagnitude)
    (negative : Bool) :
    (Form.finite negative (unpack magnitude).1 (unpack magnitude).2).Proper := by
  have canonical := canonical_unpack magnitude
  refine ⟨canonical, canonical.pack_lt_iff.mp ?_⟩
  rwa [pack_unpack]

theorem formOf_bits {form : Form} (proper : form.Proper) : formOf form.bits = form := by
  cases form with
  | nan => rfl
  | infinite negative => cases negative <;> rfl
  | finite negative mantissa exponent =>
      rcases proper with ⟨canonical, greatest⟩
      have finite := canonical.pack_lt_iff.mpr greatest
      have bound : pack mantissa exponent < signWeight := finite.trans (by decide)
      rw [bits, formOf, bitsOf_mod bound, le_bitsOf bound, if_neg finite.not_gt,
        if_neg finite.ne, canonical.unpack_pack]

end Form

theorem proper_formOf (bits : Nat) : (formOf bits).Proper := by
  unfold formOf
  split_ifs with beyond infinite
  · trivial
  · trivial
  · exact Form.proper_unpack (by omega) _

theorem toNat_packComponents (sign : UnpackedFloat.Sign) (exponent : BitVec 11)
    (fraction : BitVec 52) :
    (UnpackedFloat.packComponents .binary64 sign exponent fraction).toNat
      = sign.toBitVec.toNat * 2 ^ 63 + (exponent.toNat * 2 ^ 52 + fraction.toNat) := by
  rw [UnpackedFloat.packComponents, BitVec.toNat_append, BitVec.toNat_append,
    ← Nat.shiftLeft_add_eq_or_of_lt exponent.isLt, ← Nat.shiftLeft_add_eq_or_of_lt fraction.isLt,
    Nat.shiftLeft_eq, Nat.shiftLeft_eq]
  ring

theorem pack_finite (sign : UnpackedFloat.Sign) {mantissa : Nat} (positive : 0 < mantissa)
    (exponent : Int) :
    UnpackedFloat.pack .binary64 (.finite sign mantissa exponent positive)
      = if 2 ^ 11 ≤ (exponent + 1023 + 52).toNat + 1 then
          UnpackedFloat.packedInfinity .binary64 sign
        else if mantissa.log2 + 1 = 53 then
          UnpackedFloat.packComponents .binary64 sign (.ofNat 11 (exponent + 1023 + 52).toNat)
            (.ofNat 52 mantissa)
        else UnpackedFloat.packComponents .binary64 sign 0#11 (.ofNat 52 mantissa) :=
  rfl

theorem Canonical.toNat_pack {mantissa : Nat} {exponent : Int}
    (canonical : Canonical mantissa exponent) (greatest : exponent ≤ greatestExponent)
    (positive : 0 < mantissa) (sign : UnpackedFloat.Sign) :
    (UnpackedFloat.pack .binary64 (.finite sign mantissa exponent positive)).toNat
      = sign.toBitVec.toNat * 2 ^ 63 + pack mantissa exponent := by
  rcases canonical with ⟨fits, least, full⟩
  rw [pack_finite]
  simp only [pack, fractionSize_eq, leastExponent_eq, greatestExponent_eq] at *
  rw [if_neg (by omega)]
  rcases Nat.lt_or_ge mantissa (2 ^ 52) with short | long
  · have log : mantissa.log2 < 52 := (Nat.log2_lt (Nat.ne_of_gt positive)).mpr short
    rw [if_neg (by omega), toNat_packComponents, BitVec.toNat_ofNat, BitVec.toNat_ofNat]
    omega
  · have log : mantissa.log2 < 53 := (Nat.log2_lt (Nat.ne_of_gt positive)).mpr fits
    have log' : 52 ≤ mantissa.log2 := (Nat.le_log2 (Nat.ne_of_gt positive)).mpr long
    rw [if_pos (by omega), toNat_packComponents, BitVec.toNat_ofNat, BitVec.toNat_ofNat]
    omega

theorem toNat_pack {form : Form} (proper : form.Proper) :
    (UnpackedFloat.pack .binary64 form.unpacked).toNat = form.bits := by
  cases form with
  | nan => rfl
  | infinite negative => cases negative <;> rfl
  | finite negative mantissa exponent =>
      rcases proper with ⟨canonical, greatest⟩
      rcases Nat.eq_zero_or_pos mantissa with rfl | positive
      · rw [Form.bits, canonical.full.resolve_left (by decide)]
        cases negative <;> rfl
      · rw [Form.unpacked_of_pos positive, Form.bits, bitsOf_eq]
        exact canonical.toNat_pack greatest positive (signOf negative)

theorem form_pack {form' : Form} (proper : form'.Proper) :
    form { toModel := .pack form'.unpacked } = form' := by
  rw [form_eq_formOf]
  refine Eq.trans (congrArg formOf ?_) (Form.formOf_bits proper)
  exact toNat_pack proper

/-- Words are numbers as their fields say, also those that are replaced by the one
that is no number. -/
theorem form_ofBits (bits : UInt64) : form (Float.ofBits bits) = formOf bits.toNat := by
  have unpacked : UnpackedFloat.unpack .binary64 bits.toBitVec = (formOf bits.toNat).unpacked :=
    unpack_word bits.toBitVec
  rw [Float.ofBits, Float.Model.ofBits, unpacked]
  exact form_pack (proper_formOf bits.toNat)

theorem unpack_toModel (number : Float) : number.toModel.unpack = (form number).unpacked :=
  unpack_word number.toModel.toBits.toBitVec

theorem isNaN_iff (number : Float) : number.isNaN = true ↔ form number = .nan := by
  rw [Float.isNaN, Float.Model.isNaN, unpack_toModel]
  cases form number with
  | nan => exact iff_of_true rfl rfl
  | infinite negative => exact iff_of_false Bool.false_ne_true Form.noConfusion
  | finite negative mantissa exponent =>
      refine iff_of_false ?_ Form.noConfusion
      rcases Nat.eq_zero_or_pos mantissa with rfl | positive
      · exact Bool.false_ne_true
      · rw [Form.unpacked_of_pos positive]
        exact Bool.false_ne_true

/-! ## Signs and magnitudes of words -/

theorem form_ofMagnitude {magnitude : Nat} (bound : magnitude < signWeight) (negative : Bool) :
    form (ofMagnitude negative magnitude) = formOf (bitsOf negative magnitude) := by
  have fits : bitsOf negative magnitude < 2 ^ 64 := by
    rw [bitsOf]
    rw [signWeight_eq] at bound ⊢
    split_ifs <;> omega
  change form (Float.ofBits (UInt64.ofNat (bitsOf negative magnitude))) = _
  rw [form_ofBits, UInt64.toNat_ofNat_of_lt' fits]

theorem bitsOf_sign_magnitude {bits : Nat} (bound : bits < 2 ^ 64) :
    bitsOf (signWeight ≤ bits) (bits % signWeight) = bits := by
  rw [bitsOf, signWeight_eq]
  split_ifs with negative
  · rw [decide_eq_true_eq] at negative
    omega
  · rw [decide_eq_true_eq] at negative
    omega

theorem bits_formOf {bits : Nat} (bound : bits < 2 ^ 64) (known : formOf bits ≠ .nan) :
    (formOf bits).bits = bits := by
  unfold formOf at known ⊢
  split_ifs at known ⊢ with beyond infinite
  · exact absurd rfl known
  · rw [Form.bits, ← infinite, bitsOf_sign_magnitude bound]
  · rw [Form.bits, pack_unpack, bitsOf_sign_magnitude bound]

/-- A word that is a number stays as it is. -/
theorem toBits_ofBits {word : UInt64} (known : formOf word.toNat ≠ .nan) :
    (Float.ofBits word).toBits = word := by
  have unpacked : UnpackedFloat.unpack .binary64 word.toBitVec = (formOf word.toNat).unpacked :=
    unpack_word word.toBitVec
  apply UInt64.toNat_inj.mp
  rw [Float.ofBits, Float.Model.ofBits, unpacked]
  exact (toNat_pack (proper_formOf word.toNat)).trans (bits_formOf word.toNat_lt known)

/-- A number is put together again from its sign and its magnitude. -/
theorem ofMagnitude_magnitude {word : UInt64} (known : formOf word.toNat ≠ .nan) :
    ofMagnitude (isNegative (Float.ofBits word)) (magnitude (Float.ofBits word))
      = Float.ofBits word := by
  have bits : bitsOf (isNegative (Float.ofBits word)) (magnitude (Float.ofBits word))
      = word.toNat := by
    rw [isNegative, magnitude, toBits_ofBits known, bitsOf_sign_magnitude word.toNat_lt]
  change Float.ofBits (UInt64.ofNat (bitsOf _ _)) = _
  rw [bits, UInt64.ofNat_toNat]

/-! ## Values of words -/

def withSign (negative : Bool) (value : ℚ) : ℚ :=
  if negative then -value else value

/-- The value that a number of some form has, if it is finite. -/
def Form.value? : Form -> Option ℚ
  | .finite negative mantissa exponent => some (withSign negative (dyadic mantissa exponent))
  | _ => none

def value? (number : Float) : Option ℚ :=
  (form number).value?

/-- The value of a word of 64 bits as a floating-point number.  The sign comes
first, then eleven bits of an exponent and 52 bits of a fraction.  The greatest
exponent has no values, and the least one lacks the leading bit of the others. -/
def wordValue? (word : UInt64) : Option ℚ :=
  let sign : ℚ := (-1) ^ (word.toNat / 2 ^ 63)
  let exponent : Nat := word.toNat / 2 ^ 52 % 2 ^ 11
  let fraction : Nat := word.toNat % 2 ^ 52
  if exponent = 2047 then none
  else if exponent = 0 then some (sign * fraction * 2 ^ (-1074 : Int))
  else some (sign * (2 ^ 52 + fraction) * 2 ^ (exponent - 1075 : Int))

theorem value?_formOf (word : UInt64) : (formOf word.toNat).value? = wordValue? word := by
  have sign (value : ℚ) : withSign (signWeight ≤ word.toNat) value
      = (-1) ^ (word.toNat / 2 ^ 63) * value := by
    have bound := word.toNat_lt
    rw [withSign, signWeight_eq]
    rcases Nat.lt_or_ge word.toNat (2 ^ 63) with positive | negative
    · rw [if_neg (mt of_decide_eq_true (Nat.not_le_of_lt positive)), Nat.div_eq_of_lt positive,
        pow_zero, one_mul]
    · have bit : word.toNat / 2 ^ 63 = 1 := by omega
      rw [if_pos (decide_eq_true negative), bit, pow_one, neg_one_mul]
  rw [formOf_fields, wordValue?]
  split_ifs with special infinite subnormal
  · rfl
  · rfl
  · rw [Form.value?, sign, dyadic, ← mul_assoc, leastExponent_eq]
  · have place : (-1074 + (word.toNat / 2 ^ 52 % 2 ^ 11 : Nat) - 1 : Int)
        = (word.toNat / 2 ^ 52 % 2 ^ 11 : Nat) - 1075 := by
      ring
    rw [Form.value?, sign, dyadic, ← mul_assoc, leastExponent_eq, place, Nat.cast_add,
      Nat.cast_pow, Nat.cast_ofNat]

theorem value?_ofBits (word : UInt64) : value? (Float.ofBits word) = wordValue? word := by
  rw [value?, form_ofBits, value?_formOf]

theorem wordValue?_toBits (number : Float) : wordValue? number.toBits = value? number :=
  (value?_formOf number.toBits).symm

end Number
end LineShell
