import LineShell.Number.Word
import LineShell.Proofs.Binary64

namespace LineShell
namespace Number

open Float.Model (UnpackedFloat Format)

/-!
# Arithmetic without rounding

Arithmetic on numbers gives the number nearest to the exact result.  If the exact
result is the value of a number, nothing is rounded.  Fractions that are cut off
and remainders of divisions are always values of numbers, so they are exact; sums
and casts to words are exact under conditions.
-/

/-! ## Numbers from values -/

theorem exists_form {number : Float} {value : ℚ} (known : value? number = some value) :
    ∃ negative mantissa exponent, form number = .finite negative mantissa exponent
      ∧ Canonical mantissa exponent ∧ exponent ≤ greatestExponent
      ∧ withSign negative (dyadic mantissa exponent) = value := by
  have proper : (form number).Proper := proper_formOf _
  rw [value?] at known
  cases isForm : form number with
  | nan =>
      rw [isForm] at known
      cases known
  | infinite negative =>
      rw [isForm] at known
      cases known
  | finite negative mantissa exponent =>
      rw [isForm] at known proper
      exact ⟨negative, mantissa, exponent, rfl, proper.1, proper.2, Option.some.inj known⟩

theorem value?_pack {form : Form} (proper : form.Proper) :
    value? { toModel := .pack form.unpacked } = form.value? := by
  rw [value?, form_pack proper]

theorem value?_ofMagnitude {magnitude : Nat} (finite : magnitude < infinityMagnitude)
    (negative : Bool) :
    value? (ofMagnitude negative magnitude) = some (withSign negative (valueOf magnitude)) := by
  have bound : magnitude < signWeight := finite.trans (by decide)
  have word : bitsOf negative magnitude
      = (Form.finite negative (unpack magnitude).1 (unpack magnitude).2).bits := by
    rw [Form.bits, pack_unpack]
  rw [value?, form_ofMagnitude bound, word, Form.formOf_bits (Form.proper_unpack finite negative)]
  rfl

/-- Of a fraction that is the value of a magnitude, the nearest number has this
value. -/
theorem value?_nearest {numerator denominator : Nat} (positive : 0 < denominator)
    (exact : Representable (numerator / denominator)) (negative : Bool) :
    value? (ofMagnitude negative (nearestMagnitude numerator denominator))
      = some (withSign negative (numerator / denominator)) := by
  rcases exact with ⟨magnitude, finite, same⟩
  rw [nearestMagnitude_valueOf finite positive same.symm, value?_ofMagnitude finite, same]

theorem value?_scale {mantissa : Nat} {exponent : Int}
    (exact : Representable (dyadic mantissa exponent)) (negative : Bool) :
    value? (scale negative mantissa exponent)
      = some (withSign negative (dyadic mantissa exponent)) := by
  rw [dyadic_eq_div] at exact ⊢
  exact value?_nearest (Nat.two_pow_pos _) exact negative

theorem representable_natCast {value : Nat} (bound : value < 2 ^ 53) :
    Representable (value : ℚ) := by
  rw [← dyadic_zero]
  exact representable_dyadic bound (by decide) (by decide)

theorem withSign_zero (negative : Bool) (exponent : Int) :
    withSign negative (dyadic 0 exponent) = 0 := by
  simp [withSign, dyadic]

theorem abs_withSign (negative : Bool) {value : ℚ} (nonneg : 0 ≤ value) :
    |withSign negative value| = value := by
  cases negative with
  | false => exact abs_of_nonneg nonneg
  | true => exact (abs_neg value).trans (abs_of_nonneg nonneg)

theorem withSign_abs {negative : Bool} {value : ℚ} (sign : negative = true ↔ value < 0) :
    withSign negative |value| = value := by
  cases negative with
  | false => exact abs_of_nonneg (not_lt.mp (mt sign.mpr Bool.false_ne_true))
  | true => exact (congrArg Neg.neg (abs_of_neg (sign.mp rfl))).trans (neg_neg value)

theorem value?_ofInt {value : Int} (bound : value.natAbs < 2 ^ 53) :
    value? (ofInt value) = some (value : ℚ) := by
  have exact : Representable ((value.natAbs : ℚ) / (1 : Nat)) := by
    rw [Nat.cast_one, div_one]
    exact representable_natCast bound
  rw [ofInt, value?_nearest Nat.one_pos exact, Nat.cast_one, div_one, Nat.cast_natAbs,
    Int.cast_abs, withSign_abs]
  rw [decide_eq_true_iff, Int.cast_lt_zero]

/-! ## Tests and signs -/

theorem isFinite_eq (number : Float) : number.isFinite = (value? number).isSome := by
  rw [Float.isFinite, Float.Model.isFinite, unpack_toModel, value?]
  cases form number with
  | nan => rfl
  | infinite negative => rfl
  | finite negative mantissa exponent =>
      rcases Nat.eq_zero_or_pos mantissa with rfl | positive
      · rfl
      · rw [Form.unpacked_of_pos positive]
        rfl

theorem value?_abs {number : Float} {value : ℚ} (known : value? number = some value) :
    value? number.abs = some |value| := by
  rcases exists_form known with ⟨negative, mantissa, exponent, isForm, canonical, greatest, same⟩
  have positive : (form number).unpacked.abs = (Form.finite false mantissa exponent).unpacked := by
    rw [isForm]
    rcases Nat.eq_zero_or_pos mantissa with rfl | positive
    · rfl
    · rw [Form.unpacked_of_pos positive, Form.unpacked_of_pos positive]
      rfl
  rw [Float.abs, Float.Model.abs, unpack_toModel, positive]
  have proper : (Form.finite false mantissa exponent).Proper := ⟨canonical, greatest⟩
  rw [value?_pack proper, ← same, abs_withSign _ (dyadic_nonneg _ _)]
  rfl

theorem lt_zero_iff {number : Float} {value : ℚ} (known : value? number = some value) :
    number < ofInt 0 ↔ value < 0 := by
  rcases exists_form known with ⟨negative, mantissa, exponent, isForm, -, -, rfl⟩
  have zero : (ofInt 0).toModel.unpack = .zero .positive := rfl
  have compared : number < ofInt 0
      ↔ UnpackedFloat.lt (form number).unpacked (.zero .positive) = true := by
    rw [← unpack_toModel, ← zero]
    exact decide_eq_true_iff
  rw [compared, isForm]
  rcases Nat.eq_zero_or_pos mantissa with rfl | positive
  · exact iff_of_false Bool.false_ne_true (withSign_zero negative exponent).not_lt
  · have valuePositive : 0 < dyadic mantissa exponent := dyadic_pos.mpr positive
    rw [Form.unpacked_of_pos positive]
    cases negative with
    | false => exact iff_of_false Bool.false_ne_true valuePositive.not_gt
    | true => exact iff_of_true rfl (neg_lt_zero.mpr valuePositive)

/-! ## Sums -/

theorem shiftRight_mul (mantissa count : Nat) :
    (UnpackedFloat.ExtendedMantissa.mk (mantissa * 2 ^ count) false false) >>> count
      = .mk mantissa false false := by
  induction count generalizing mantissa with
  | zero =>
      rw [pow_zero, mul_one]
      rfl
  | succ count ih =>
      have double : mantissa * 2 ^ (count + 1) = 2 * mantissa * 2 ^ count := by ring
      calc
        _ = ((UnpackedFloat.ExtendedMantissa.mk (2 * mantissa * 2 ^ count) false false)
              >>> count).shiftRightOne := by
          rw [double]
          rfl
        _ = .mk mantissa false false := by
          rw [ih]
          simp [UnpackedFloat.ExtendedMantissa.shiftRightOne]

/-- Bits that are shifted out are zeros if the mantissa before and the one after
have the same value. -/
theorem shiftToExponent_eq {mantissa mantissa' : Nat} {exponent exponent' : Int}
    (same : dyadic mantissa exponent = dyadic mantissa' exponent')
    (lower : exponent ≤ exponent') :
    UnpackedFloat.shiftToExponent mantissa exponent .exact exponent'
      = (.mk mantissa' false false, exponent') := by
  have place : exponent + (exponent' - exponent).toNat = exponent' := by omega
  have zeros : mantissa = mantissa' * 2 ^ (exponent' - exponent).toNat := by
    rw [← @dyadic_inj _ _ exponent, dyadic_shift, place, same]
  refine Prod.ext ?_ place
  exact (congrArg (fun bits => UnpackedFloat.ExtendedMantissa.mk bits false false
    >>> (exponent' - exponent).toNat) zeros).trans (shiftRight_mul _ _)

theorem dyadic_decreaseExponent (mantissa : Nat) (exponent unit : Int) :
    dyadic (UnpackedFloat.decreaseExponent mantissa exponent unit).1
        (UnpackedFloat.decreaseExponent mantissa exponent unit).2
      = dyadic mantissa exponent := by
  rw [UnpackedFloat.decreaseExponent, Nat.shiftLeft_eq, dyadic_shift, sub_add_cancel]

theorem decreaseExponent_le (mantissa : Nat) (exponent unit : Int) :
    (UnpackedFloat.decreaseExponent mantissa exponent unit).2 ≤ unit := by
  simp only [UnpackedFloat.decreaseExponent]
  omega

theorem targetExponent_eq {mantissa : Nat} (positive : 0 < mantissa) (exponent : Int) :
    Format.binary64.targetExponent (Float.Model.totalExponent mantissa exponent)
      = max (Int.log 2 (dyadic mantissa exponent) - 52) leastExponent := by
  have bits : Format.binary64.mantissaBits = 53 := rfl
  have least : Format.binary64.minExponent = leastExponent := rfl
  rw [Format.targetExponent, Float.Model.totalExponent, log_dyadic positive, bits, least]
  omega

/-- What is put together of a mantissa and an exponent after rounding. -/
def finish (sign : UnpackedFloat.Sign) (rounded : UnpackedFloat.ExtendedMantissa × Int) :
    UnpackedFloat :=
  if isZero : rounded.1.mantissa = 0 then .zero sign
  else .finite sign rounded.1.mantissa rounded.2 (Nat.pos_of_ne_zero isZero)

section Rounding

variable {mantissa mantissa' : Nat} {exponent exponent' : Int}
  (canonical : Canonical mantissa' exponent') (positive' : 0 < mantissa')
  (same : dyadic mantissa exponent = dyadic mantissa' exponent')

include canonical positive' same

theorem targetExponent_of_canonical :
    Format.binary64.targetExponent (Float.Model.totalExponent mantissa exponent) = exponent' := by
  have positive : 0 < mantissa := dyadic_pos.mp (same ▸ dyadic_pos.mpr positive')
  rw [targetExponent_eq positive, same]
  exact (canonical.exponent_eq positive').symm

theorem shiftToTargetExponent_eq (lower : exponent ≤ exponent') :
    UnpackedFloat.shiftToTargetExponent .binary64 mantissa exponent .exact
      = (.mk mantissa' false false, exponent') := by
  rw [UnpackedFloat.shiftToTargetExponent, targetExponent_of_canonical canonical positive' same]
  exact shiftToExponent_eq same lower

theorem roundWithAccuracy_eq (lower : exponent ≤ exponent') (sign : UnpackedFloat.Sign) :
    UnpackedFloat.roundWithAccuracy .binary64 sign mantissa exponent .exact
      = .finite sign mantissa' exponent' positive' := by
  -- The first shift drops zeros, so there is nothing to round, and the second
  -- shift has nothing to do.
  have first := shiftToTargetExponent_eq canonical positive' same lower
  have second := shiftToTargetExponent_eq canonical positive' rfl (le_refl exponent')
  calc
    _ = finish sign (UnpackedFloat.shiftToTargetExponent .binary64 mantissa' exponent' .exact) := by
      change finish sign (UnpackedFloat.shiftToTargetExponent .binary64
        (UnpackedFloat.shiftToTargetExponent .binary64 mantissa exponent .exact).1.roundedMantissa
        (UnpackedFloat.shiftToTargetExponent .binary64 mantissa exponent .exact).2 .exact) = _
      rw [first]
      rfl
    _ = .finite sign mantissa' exponent' positive' := by
      rw [second]
      exact dif_neg (Nat.ne_of_gt positive')

/-- A value that has a canonical mantissa and exponent is not rounded. -/
theorem round_eq (sign : UnpackedFloat.Sign) :
    UnpackedFloat.round .binary64 sign mantissa exponent
      = .finite sign mantissa' exponent' positive' := by
  have lowered := (dyadic_decreaseExponent mantissa exponent exponent').trans same
  rw [UnpackedFloat.round, targetExponent_of_canonical canonical positive' same]
  exact roundWithAccuracy_eq canonical positive' lowered (decreaseExponent_le _ _ _) sign

end Rounding

theorem normalize_of_ne {mantissa : Int} (nonzero : mantissa ≠ 0) (exponent : Int) :
    UnpackedFloat.normalize .binary64 mantissa exponent .positive
      = .round .binary64 (signOf (mantissa < 0)) mantissa.natAbs exponent := by
  unfold UnpackedFloat.normalize
  rcases lt_or_gt_of_ne nonzero with negative | positive
  · have magnitude : (-mantissa).toNat = mantissa.natAbs := by omega
    rw [compare_lt_iff_lt.mpr negative, magnitude, decide_eq_true negative]
    rfl
  · have magnitude : mantissa.toNat = mantissa.natAbs := by omega
    rw [compare_gt_iff_gt.mpr positive, magnitude, decide_eq_false positive.not_gt]
    rfl

/-- What is put together of a signed mantissa and an exponent has their value, if
it is the value of a number. -/
theorem exists_normalize {mantissa exponent : Int}
    (exact : Representable |mantissa * 2 ^ exponent|) :
    ∃ form : Form, form.Proper ∧ form.value? = some (mantissa * 2 ^ exponent : ℚ)
      ∧ UnpackedFloat.normalize .binary64 mantissa exponent .positive = form.unpacked := by
  rcases eq_or_ne mantissa 0 with rfl | nonzero
  · refine ⟨.finite false 0 leastExponent, Form.proper_zero false, ?_, rfl⟩
    rw [Form.value?, withSign_zero, Int.cast_zero, zero_mul]
  · rcases exact with ⟨magnitude, finite, same⟩
    have natural : dyadic mantissa.natAbs exponent = valueOf magnitude := by
      rw [same, dyadic, abs_mul, abs_zpow, abs_two, Nat.cast_natAbs, Int.cast_abs]
    have positive : 0 < (unpack magnitude).1 :=
      dyadic_pos.mp (natural ▸ dyadic_pos.mpr (Int.natAbs_pos.mpr nonzero))
    have sign : decide (mantissa < 0) = true ↔ (mantissa * 2 ^ exponent : ℚ) < 0 := by
      have powerPositive : (0 : ℚ) < 2 ^ exponent := zpow_pos two_pos exponent
      have cast : (mantissa : ℚ) < 0 ↔ mantissa < 0 := Int.cast_lt_zero
      rw [decide_eq_true_iff, ← cast, ← not_le, ← not_le,
        mul_nonneg_iff_of_pos_right powerPositive]
    refine ⟨.finite (mantissa < 0) (unpack magnitude).1 (unpack magnitude).2,
      Form.proper_unpack finite _, ?_, ?_⟩
    · rw [Form.value?, ← valueOf, same, withSign_abs sign]
    · rw [normalize_of_ne nonzero, round_eq (canonical_unpack magnitude) positive natural,
        Form.unpacked_of_pos positive]

theorem apply_decreaseExponent (negative : Bool) (mantissa : Nat) {exponent unit : Int}
    (lower : unit ≤ exponent) :
    ((signOf negative).apply (UnpackedFloat.decreaseExponent mantissa exponent unit).1 : ℚ)
        * 2 ^ unit
      = withSign negative (dyadic mantissa exponent) := by
  have place : (UnpackedFloat.decreaseExponent mantissa exponent unit).2 = unit := by
    simp only [UnpackedFloat.decreaseExponent]
    omega
  rw [← dyadic_decreaseExponent mantissa exponent unit, place, dyadic]
  cases negative with
  | false => exact congrArg (· * _) (Int.cast_natCast _)
  | true =>
      rw [signOf, if_pos rfl, withSign, if_pos rfl, UnpackedFloat.Sign.apply, Int.cast_neg,
        Int.cast_natCast, neg_mul]

/-- A sum is exact if it is the value of a number. -/
theorem value?_add {left right : Float} {value value' : ℚ} (known : value? left = some value)
    (known' : value? right = some value') (exact : Representable |value + value'|) :
    value? (left + right) = some (value + value') := by
  rcases exists_form known with ⟨negative, mantissa, exponent, isForm, canonical, greatest, rfl⟩
  rcases exists_form known' with
    ⟨negative', mantissa', exponent', isForm', canonical', greatest', rfl⟩
  have proper : (Form.finite negative mantissa exponent).Proper := ⟨canonical, greatest⟩
  have proper' : (Form.finite negative' mantissa' exponent').Proper := ⟨canonical', greatest'⟩
  change value? { toModel := .pack (.add .binary64 left.toModel.unpack right.toModel.unpack) } = _
  rw [unpack_toModel, unpack_toModel, isForm, isForm']
  -- A zero has no mantissa that could be lined up, and is added in cases of its own.
  rcases Nat.eq_zero_or_pos mantissa with rfl | positive
  · rw [withSign_zero, zero_add]
    rcases Nat.eq_zero_or_pos mantissa' with rfl | positive'
    · have sum : UnpackedFloat.add .binary64 (Form.finite negative 0 exponent).unpacked
          (Form.finite negative' 0 exponent').unpacked
            = (Form.finite (negative && negative') 0 leastExponent).unpacked := by
        cases negative <;> cases negative' <;> rfl
      rw [sum, value?_pack (Form.proper_zero _), Form.value?, withSign_zero, withSign_zero]
    · rw [← Form.value?, ← value?_pack proper', Form.unpacked_of_pos positive']
      rfl
  · rcases Nat.eq_zero_or_pos mantissa' with rfl | positive'
    · rw [withSign_zero, add_zero, ← Form.value?, ← value?_pack proper,
        Form.unpacked_of_pos positive]
      rfl
    · rw [Form.unpacked_of_pos positive, Form.unpacked_of_pos positive']
      rw [← apply_decreaseExponent negative mantissa (min_le_left exponent exponent'),
        ← apply_decreaseExponent negative' mantissa' (min_le_right exponent exponent'),
        ← add_mul, ← Int.cast_add] at exact ⊢
      rcases exists_normalize exact with ⟨form, formProper, value, normalized⟩
      rw [← value, ← value?_pack formProper, ← normalized]
      rfl

/-! ## Casts to words -/

theorem roundToInt_eq {mantissa whole : Nat} {exponent : Int}
    (same : dyadic mantissa exponent = whole) (sign : UnpackedFloat.Sign) :
    UnpackedFloat.roundToInt sign mantissa exponent = sign.apply whole := by
  have lowered := (dyadic_decreaseExponent mantissa exponent 0).trans
    (same.trans (dyadic_zero whole).symm)
  have shifted := shiftToExponent_eq lowered (decreaseExponent_le mantissa exponent 0)
  simp only [UnpackedFloat.roundToInt, shifted]

/-- A number that is the value of a word is cast to it. -/
theorem toNat_toUInt32 {number : Float} {word : Nat} (known : value? number = some (word : ℚ))
    (bound : word < 2 ^ 32) : number.toUInt32.toNat = word := by
  rcases exists_form known with ⟨negative, mantissa, exponent, isForm, -, -, same⟩
  have whole (least greatest : Int) : (form number).unpacked.toInt least greatest = word := by
    rw [isForm]
    rcases Nat.eq_zero_or_pos mantissa with rfl | positive
    · rw [withSign_zero] at same
      have nothing : word = 0 := by exact_mod_cast same.symm
      rw [nothing]
      rfl
    · rw [Form.unpacked_of_pos positive]
      cases negative with
      | false => exact roundToInt_eq same .positive
      | true =>
          have valuePositive : 0 < dyadic mantissa exponent := dyadic_pos.mpr positive
          have wordNonneg : (0 : ℚ) ≤ word := Nat.cast_nonneg word
          rw [← same] at wordNonneg
          exact absurd (neg_nonneg.mp wordNonneg) valuePositive.not_ge
  have inRange : word < UInt32.size := bound
  rw [Float.toUInt32, Float.Model.toUInt32, unpack_toModel, UnpackedFloat.toUInt32, whole,
    Int.toNat_natCast, UInt32.ofNatClamp, dif_pos inRange]
  rfl

/-! ## Fractions and remainders -/

/-- The whole number next to a value in the direction of zero. -/
def towardZero (value : ℚ) : Int :=
  if value < 0 then ⌈value⌉ else ⌊value⌋

theorem towardZero_of_nonneg {value : ℚ} (nonneg : 0 ≤ value) : towardZero value = ⌊value⌋ :=
  if_neg nonneg.not_gt

theorem towardZero_neg (value : ℚ) : towardZero (-value) = -towardZero value := by
  unfold towardZero
  rcases lt_trichotomy value 0 with negative | rfl | positive
  · rw [if_pos negative, if_neg (neg_pos.mpr negative).not_gt, Int.floor_neg]
  · simp
  · rw [if_neg positive.not_gt, if_pos (neg_lt_zero.mpr positive), Int.ceil_neg]

theorem towardZero_intCast (whole : Int) : towardZero whole = whole := by
  rw [towardZero, Int.ceil_intCast, Int.floor_intCast, ite_self]

theorem towardZero_withSign (negative : Bool) {value : ℚ} (nonneg : 0 ≤ value) :
    (towardZero (withSign negative value) : ℚ) = withSign negative ⌊value⌋ := by
  cases negative with
  | false => exact congrArg Int.cast (towardZero_of_nonneg nonneg)
  | true =>
      rw [withSign, if_pos rfl, withSign, if_pos rfl, towardZero_neg, Int.cast_neg,
        towardZero_of_nonneg nonneg]

theorem abs_sub_towardZero (value : ℚ) : |value - towardZero value| < 1 := by
  rw [abs_lt, towardZero]
  split_ifs
  · have below := Int.ceil_lt_add_one value
    have above := Int.le_ceil value
    constructor <;> linarith
  · have below := Int.floor_le value
    have above := Int.lt_floor_add_one value
    constructor <;> linarith

/-- A remainder is less than the modulus. -/
theorem abs_sub_mul_towardZero (value : ℚ) {value' : ℚ} (nonzero : value' ≠ 0) :
    |value - value' * towardZero (value / value')| < |value'| := by
  have factored : value - value' * towardZero (value / value')
      = value' * (value / value' - towardZero (value / value')) := by
    rw [mul_sub, mul_div_cancel₀ value nonzero]
  rw [factored, abs_mul]
  exact mul_lt_of_lt_one_right (abs_pos.mpr nonzero) (abs_sub_towardZero _)

theorem floor_dyadic (mantissa : Nat) (exponent : Int) :
    ⌊dyadic mantissa exponent⌋
      = (mantissa * Nat.pow 2 exponent.toNat / Nat.pow 2 (-exponent).toNat : Nat) := by
  rw [dyadic_eq_div, Rat.floor_natCast_div_natCast, Int.natCast_ediv]

/-- Cutting off the fraction is exact. -/
theorem value?_cut {number : Float} {value : ℚ} (known : value? number = some value) :
    value? (cut number) = some (towardZero value : ℚ) := by
  rcases exists_form known with ⟨negative, mantissa, exponent, isForm, canonical, greatest, rfl⟩
  have exact : Representable
      (dyadic (mantissa * Nat.pow 2 exponent.toNat / Nat.pow 2 (-exponent).toNat) 0) := by
    rcases le_total 0 exponent with whole | fractional
    · have none : (-exponent).toNat = 0 := by omega
      have place : 0 + (exponent.toNat : Int) = exponent := by omega
      rw [none, Nat.pow_eq, Nat.pow_eq, pow_zero, Nat.div_one, dyadic_shift, place]
      exact canonical.representable greatest
    · have none : exponent.toNat = 0 := by omega
      rw [none, dyadic_zero, Nat.pow_eq, pow_zero, mul_one]
      exact representable_natCast ((Nat.div_le_self _ _).trans_lt canonical.fits)
  simp only [cut, isForm]
  rw [value?_scale exact, dyadic_zero, towardZero_withSign _ (dyadic_nonneg _ _), floor_dyadic,
    Int.cast_natCast]

theorem dyadic_lower (mantissa : Nat) {exponent unit : Int} (lower : unit ≤ exponent) :
    dyadic (mantissa * Nat.pow 2 (exponent - unit).toNat) unit = dyadic mantissa exponent := by
  have place : unit + ((exponent - unit).toNat : Int) = exponent := by omega
  rw [Nat.pow_eq, dyadic_shift, place]

theorem withSign_div (negative negative' : Bool) (value value' : ℚ) :
    withSign negative value / withSign negative' value'
      = withSign (negative ^^ negative') (value / value') := by
  cases negative <;> cases negative' <;> simp [withSign, neg_div, div_neg]

theorem withSign_mul_xor (negative negative' : Bool) (value value' : ℚ) :
    withSign negative' value * withSign (negative ^^ negative') value'
      = withSign negative (value * value') := by
  cases negative <;> cases negative' <;> simp [withSign]

theorem withSign_sub (negative : Bool) (value value' : ℚ) :
    withSign negative value - withSign negative value' = withSign negative (value - value') := by
  cases negative with
  | false => rfl
  | true => exact (neg_sub' value value').symm

/-- Remainders of values are remainders of whole numbers of units. -/
theorem sub_mul_towardZero (negative negative' : Bool) (total step : Nat) (unit : Int) :
    withSign negative (dyadic total unit) - withSign negative' (dyadic step unit)
        * towardZero (withSign negative (dyadic total unit) / withSign negative' (dyadic step unit))
      = withSign negative (dyadic (total % step) unit) := by
  have ratio : dyadic total unit / dyadic step unit = total / step := by
    rw [dyadic, dyadic, mul_div_mul_right _ _ (by positivity)]
  have whole : (total : ℚ) - step * (total / step : Nat) = (total % step : Nat) := by
    rw [sub_eq_iff_eq_add']
    exact_mod_cast (Nat.div_add_mod total step).symm
  rw [withSign_div, ratio, towardZero_withSign _ (by positivity), Rat.floor_natCast_div_natCast,
    withSign_mul_xor, withSign_sub, ← Int.natCast_ediv, Int.cast_natCast]
  congr 1
  rw [dyadic, dyadic, dyadic, ← whole]
  ring

/-- A remainder is exact: of the two numbers, the one with the lesser exponent has
a mantissa that counts units of the remainder, and the remainder is not greater. -/
theorem value?_remainder {number modulus : Float} {value value' : ℚ}
    (known : value? number = some value) (known' : value? modulus = some value')
    (nonzero : value' ≠ 0) :
    value? (remainder number modulus)
      = some (value - value' * towardZero (value / value')) := by
  rcases exists_form known with ⟨negative, mantissa, exponent, isForm, canonical, greatest, rfl⟩
  rcases exists_form known' with ⟨negative', size, place, isForm', canonical', -, rfl⟩
  have positive : 0 < size := by
    refine Nat.pos_of_ne_zero fun empty => nonzero ?_
    rw [empty, withSign_zero]
  have fits : mantissa * Nat.pow 2 (exponent - min exponent place).toNat
      % (size * Nat.pow 2 (place - min exponent place).toNat) < 2 * fractionSize := by
    rcases le_total exponent place with lower | lower
    · rw [min_eq_left lower, sub_self, Int.toNat_zero, Nat.pow_eq, pow_zero, mul_one]
      exact (Nat.mod_le _ _).trans_lt canonical.fits
    · rw [min_eq_right lower, sub_self, Int.toNat_zero, Nat.pow_eq, Nat.pow_eq, pow_zero, mul_one]
      exact (Nat.mod_lt _ positive).trans canonical'.fits
  have exact := representable_dyadic fits (le_min canonical.least canonical'.least)
    ((min_le_left exponent place).trans greatest)
  simp only [remainder, isForm, isForm', if_neg (Nat.ne_of_gt positive)]
  rw [value?_scale exact, ← sub_mul_towardZero negative negative',
    dyadic_lower mantissa (min_le_left exponent place),
    dyadic_lower size (min_le_right exponent place)]

end Number
end LineShell
