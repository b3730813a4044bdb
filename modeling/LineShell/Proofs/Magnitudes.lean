import LineShell.Number.Binary
import Mathlib.Algebra.Order.Field.Power
import Mathlib.Data.Int.Log
import Mathlib.Data.Rat.Floor
import Mathlib.Tactic.Ring

namespace LineShell
namespace Number

/-!
# Magnitudes and their values

A finite magnitude stands for a mantissa times a power of two.  Most values can
be written like this in several ways, and a magnitude has the one with the
longest mantissa that fits, as far as the exponent can be lowered.  A fraction
that is the value of a magnitude has this magnitude for its nearest one.
-/

/-! ## Mantissas and exponents -/

theorem fractionSize_eq : fractionSize = 2 ^ 52 := rfl

theorem leastExponent_eq : leastExponent = -1074 := rfl

theorem infinityMagnitude_eq : infinityMagnitude = 2047 * 2 ^ 52 := rfl

theorem unpack_of_lt {magnitude : Nat} (subnormal : magnitude < fractionSize) :
    unpack magnitude = (magnitude, leastExponent) := by
  rw [unpack, if_pos (Nat.div_eq_of_lt subnormal), Nat.mod_eq_of_lt subnormal]

theorem unpack_of_le {magnitude : Nat} (normal : fractionSize ≤ magnitude) :
    unpack magnitude = (fractionSize + magnitude % fractionSize,
      leastExponent + (magnitude / fractionSize : Nat) - 1) := by
  have field : magnitude / fractionSize ≠ 0 :=
    Nat.ne_of_gt (Nat.div_pos normal (by decide))
  rw [unpack, if_neg field]

/-- A mantissa and an exponent as a magnitude has them. -/
structure Canonical (mantissa : Nat) (exponent : Int) : Prop where
  fits : mantissa < 2 * fractionSize
  least : leastExponent ≤ exponent
  full : fractionSize ≤ mantissa ∨ exponent = leastExponent

def pack (mantissa : Nat) (exponent : Int) : Nat :=
  (exponent - leastExponent).toNat * fractionSize + mantissa

def greatestExponent : Int := 971

theorem greatestExponent_eq : greatestExponent = 971 := rfl

theorem Canonical.pack_lt_iff {mantissa : Nat} {exponent : Int}
    (canonical : Canonical mantissa exponent) :
    pack mantissa exponent < infinityMagnitude ↔ exponent ≤ greatestExponent := by
  rcases canonical with ⟨fits, least, full⟩
  simp only [pack, infinityMagnitude_eq, fractionSize_eq, leastExponent_eq,
    greatestExponent_eq] at *
  omega

theorem canonical_unpack (magnitude : Nat) :
    Canonical (unpack magnitude).1 (unpack magnitude).2 := by
  rcases Nat.lt_or_ge magnitude fractionSize with subnormal | normal
  · rw [unpack_of_lt subnormal]
    exact ⟨by dsimp only; omega, le_refl _, .inr rfl⟩
  · have bound : magnitude % fractionSize < fractionSize := Nat.mod_lt _ (by decide)
    have field : 0 < magnitude / fractionSize := Nat.div_pos normal (by decide)
    rw [unpack_of_le normal]
    exact ⟨by dsimp only; omega, by dsimp only; omega, .inl (Nat.le_add_right _ _)⟩

theorem pack_unpack (magnitude : Nat) :
    pack (unpack magnitude).1 (unpack magnitude).2 = magnitude := by
  rcases Nat.lt_or_ge magnitude fractionSize with subnormal | normal
  · rw [unpack_of_lt subnormal, pack, sub_self, Int.toNat_zero, Nat.zero_mul, Nat.zero_add]
  · rw [unpack_of_le normal]
    simp only [pack, fractionSize_eq, leastExponent_eq] at normal ⊢
    omega

theorem Canonical.unpack_pack {mantissa : Nat} {exponent : Int}
    (canonical : Canonical mantissa exponent) :
    unpack (pack mantissa exponent) = (mantissa, exponent) := by
  rcases canonical with ⟨fits, least, full⟩
  rcases Nat.lt_or_ge (pack mantissa exponent) fractionSize with subnormal | normal
  · rw [unpack_of_lt subnormal]
    simp only [pack, fractionSize_eq, leastExponent_eq] at *
    exact Prod.ext (by dsimp only; omega) (by dsimp only; omega)
  · rw [unpack_of_le normal]
    simp only [pack, fractionSize_eq, leastExponent_eq] at *
    exact Prod.ext (by dsimp only; omega) (by dsimp only; omega)

/-! ## Values -/

/-- The value of a mantissa and an exponent. -/
def dyadic (mantissa : Nat) (exponent : Int) : ℚ :=
  mantissa * 2 ^ exponent

theorem two_zpow_eq_div (exponent : Int) :
    (2 : ℚ) ^ exponent = 2 ^ exponent.toNat / 2 ^ (-exponent).toNat := by
  rw [eq_div_iff (by positivity), ← zpow_natCast, ← zpow_natCast, ← zpow_add₀ two_ne_zero]
  congr 1
  omega

theorem dyadic_eq_div (mantissa : Nat) (exponent : Int) :
    dyadic mantissa exponent
      = (mantissa * Nat.pow 2 exponent.toNat : Nat) / (Nat.pow 2 (-exponent).toNat : Nat) := by
  rw [dyadic, two_zpow_eq_div, Nat.pow_eq, Nat.pow_eq]
  push_cast
  rw [mul_div_assoc]

theorem dyadic_shift (mantissa count : Nat) (exponent : Int) :
    dyadic (mantissa * 2 ^ count) exponent = dyadic mantissa (exponent + count) := by
  rw [dyadic, dyadic, zpow_add₀ two_ne_zero, zpow_natCast]
  push_cast
  ring

theorem dyadic_inj {mantissa mantissa' : Nat} {exponent : Int} :
    dyadic mantissa exponent = dyadic mantissa' exponent ↔ mantissa = mantissa' := by
  rw [dyadic, dyadic, mul_left_inj' (by positivity), Nat.cast_inj]

theorem dyadic_pos {mantissa : Nat} {exponent : Int} :
    0 < dyadic mantissa exponent ↔ 0 < mantissa := by
  rw [dyadic, mul_pos_iff_of_pos_right (by positivity), Nat.cast_pos]

theorem dyadic_nonneg (mantissa : Nat) (exponent : Int) : 0 ≤ dyadic mantissa exponent := by
  unfold dyadic
  positivity

theorem dyadic_zero (mantissa : Nat) : dyadic mantissa 0 = mantissa := by
  rw [dyadic, zpow_zero, mul_one]

/-- A value can be written with a canonical mantissa and exponent as soon as it
has a mantissa that fits and an exponent that is great enough.  The mantissa is
doubled until it is full, and the exponent lowered. -/
theorem exists_canonical {mantissa : Nat} {exponent : Int} (fits : mantissa < 2 * fractionSize)
    (least : leastExponent ≤ exponent) :
    ∃ mantissa' exponent', Canonical mantissa' exponent' ∧ exponent' ≤ exponent
      ∧ dyadic mantissa' exponent' = dyadic mantissa exponent := by
  generalize steps : (exponent - leastExponent).toNat = count
  induction count generalizing mantissa exponent with
  | zero => exact ⟨mantissa, exponent, ⟨fits, least, .inr (by omega)⟩, le_refl _, rfl⟩
  | succ count ih =>
      rcases Nat.lt_or_ge mantissa fractionSize with short | full
      · have shortToo : mantissa * 2 ^ 1 < 2 * fractionSize := by omega
        have leastToo : leastExponent ≤ exponent - 1 := by omega
        rcases ih shortToo leastToo (by omega) with
          ⟨mantissa', exponent', canonical, lower, same⟩
        rw [dyadic_shift, Nat.cast_one, sub_add_cancel] at same
        exact ⟨mantissa', exponent', canonical, by omega, same⟩
      · exact ⟨mantissa, exponent, ⟨fits, least, .inl full⟩, le_refl _, rfl⟩

theorem log_dyadic {mantissa : Nat} (positive : 0 < mantissa) (exponent : Int) :
    Int.log 2 (dyadic mantissa exponent) = mantissa.log2 + exponent := by
  have valuePositive : 0 < dyadic mantissa exponent := dyadic_pos.mpr positive
  have lower : (2 : ℚ) ^ (mantissa.log2 + exponent : Int) ≤ dyadic mantissa exponent := by
    rw [zpow_add₀ two_ne_zero, zpow_natCast, dyadic]
    gcongr
    exact_mod_cast Nat.log2_self_le (Nat.ne_of_gt positive)
  have upper : dyadic mantissa exponent < (2 : ℚ) ^ (mantissa.log2 + exponent + 1 : Int) := by
    rw [add_right_comm, zpow_add₀ two_ne_zero, dyadic]
    gcongr
    exact_mod_cast Nat.lt_log2_self
  have atLeast := (Int.zpow_le_iff_le_log Nat.one_lt_two valuePositive).mp lower
  have atMost := (Int.lt_zpow_iff_log_lt Nat.one_lt_two valuePositive).mp upper
  omega

/-- A canonical exponent can be read off the value. -/
theorem Canonical.exponent_eq {mantissa : Nat} {exponent : Int}
    (canonical : Canonical mantissa exponent) (positive : 0 < mantissa) :
    exponent = max (Int.log 2 (dyadic mantissa exponent) - 52) leastExponent := by
  have short : mantissa.log2 < 53 := (Nat.log2_lt (Nat.ne_of_gt positive)).mpr canonical.fits
  have least := canonical.least
  rw [log_dyadic positive]
  rcases canonical.full with full | lowest
  · have long : 52 ≤ mantissa.log2 := (Nat.le_log2 (Nat.ne_of_gt positive)).mpr full
    omega
  · omega

/-! ## Nearest magnitudes -/

theorem divideByPower_value (numerator denominator : Nat) (exponent : Int) :
    ((divideByPower numerator denominator exponent).1 : ℚ)
        / (divideByPower numerator denominator exponent).2
      = (numerator / denominator) / 2 ^ exponent := by
  simp only [divideByPower, Nat.pow_eq, two_zpow_eq_div exponent]
  push_cast
  rw [div_div_div_eq]

theorem divideByPower_pos {denominator : Nat} (positive : 0 < denominator) (numerator : Nat)
    (exponent : Int) : 0 < (divideByPower numerator denominator exponent).2 :=
  Nat.mul_pos positive (Nat.two_pow_pos _)

theorem leadingExponent_eq_log {numerator denominator : Nat} (positive : 0 < numerator)
    (positive' : 0 < denominator) :
    leadingExponent numerator denominator = Int.log 2 (numerator / denominator : ℚ) := by
  have valuePositive : (0 : ℚ) < numerator / denominator := by positivity
  -- The difference of the two logarithms is right or one too great.
  have lower : (2 : ℚ) ^ (numerator.log2 - denominator.log2 - 1 : Int)
      ≤ numerator / denominator := by
    rw [sub_sub, zpow_sub₀ two_ne_zero]
    gcongr
    · exact_mod_cast Nat.log2_self_le (Nat.ne_of_gt positive)
    · exact_mod_cast Nat.lt_log2_self.le
  have upper : (numerator / denominator : ℚ)
      < 2 ^ (numerator.log2 - denominator.log2 + 1 : Int) := by
    rw [← add_sub_right_comm, zpow_sub₀ two_ne_zero]
    refine div_lt_div₀ ?_ ?_ (by positivity) (by positivity)
    · exact_mod_cast Nat.lt_log2_self
    · exact_mod_cast Nat.log2_self_le (Nat.ne_of_gt positive')
  have decides : (divideByPower numerator denominator (numerator.log2 - denominator.log2)).2
        ≤ (divideByPower numerator denominator (numerator.log2 - denominator.log2)).1
      ↔ (numerator.log2 - denominator.log2 : Int) ≤ Int.log 2 (numerator / denominator : ℚ) := by
    rw [← Int.zpow_le_iff_le_log Nat.one_lt_two valuePositive, Nat.cast_ofNat,
      ← one_le_div (by positivity : (0 : ℚ) < 2 ^ (numerator.log2 - denominator.log2 : Int)),
      ← divideByPower_value, one_le_div (by exact_mod_cast divideByPower_pos positive' _ _),
      Nat.cast_le]
  have atLeast := (Int.zpow_le_iff_le_log Nat.one_lt_two valuePositive).mp lower
  have atMost := (Int.lt_zpow_iff_log_lt Nat.one_lt_two valuePositive).mp upper
  simp only [leadingExponent, decides]
  split <;> omega

theorem roundQuotient_mul {unit : Nat} (positive : 0 < unit) (quotient : Nat) :
    roundQuotient (quotient * unit) unit = quotient := by
  rw [roundQuotient, Nat.mul_mod_left, Nat.mul_zero, if_pos positive,
    Nat.mul_div_cancel _ positive]

/-- A fraction that is the value of a magnitude has it for its nearest one. -/
theorem Canonical.nearestMagnitude_eq {mantissa numerator denominator : Nat} {exponent : Int}
    (canonical : Canonical mantissa exponent) (positive : 0 < denominator)
    (finite : pack mantissa exponent < infinityMagnitude)
    (same : (numerator / denominator : ℚ) = dyadic mantissa exponent) :
    nearestMagnitude numerator denominator = pack mantissa exponent := by
  have denominatorNonzero : (denominator : ℚ) ≠ 0 := by positivity
  rcases Nat.eq_zero_or_pos mantissa with rfl | mantissaPositive
  · have nothing : (numerator : ℚ) = 0 := by
      rw [← div_mul_cancel₀ (numerator : ℚ) denominatorNonzero, same]
      simp [dyadic]
    rw [nearestMagnitude, if_pos (by exact_mod_cast nothing),
      canonical.full.resolve_left (by decide)]
    rfl
  · have valuePositive : (0 : ℚ) < numerator / denominator := by
      rw [same]
      exact dyadic_pos.mpr mantissaPositive
    have numeratorPositive : 0 < numerator := by
      refine Nat.pos_of_ne_zero fun nothing => ?_
      simp [nothing] at valuePositive
    have place : max (leadingExponent numerator denominator - fractionBits) leastExponent
        = exponent := by
      rw [leadingExponent_eq_log numeratorPositive positive, same]
      exact (canonical.exponent_eq mantissaPositive).symm
    -- Counted in units of the last place the fraction is whole, so rounding keeps it.
    have exact : (divideByPower numerator denominator exponent).1
        = mantissa * (divideByPower numerator denominator exponent).2 := by
      have unitPositive := divideByPower_pos positive numerator exponent
      have value := divideByPower_value numerator denominator exponent
      rw [same, dyadic, mul_div_cancel_right₀ _ (by positivity),
        div_eq_iff (by positivity)] at value
      exact_mod_cast value
    simp only [nearestMagnitude, if_neg (Nat.ne_of_gt numeratorPositive), place, exact]
    rw [roundQuotient_mul (divideByPower_pos positive numerator exponent)]
    exact Nat.min_eq_left finite.le

/-! ## Values of magnitudes -/

/-- What a finite magnitude stands for. -/
def valueOf (magnitude : Nat) : ℚ :=
  dyadic (unpack magnitude).1 (unpack magnitude).2

theorem nearestMagnitude_valueOf {magnitude numerator denominator : Nat}
    (finite : magnitude < infinityMagnitude) (positive : 0 < denominator)
    (same : (numerator / denominator : ℚ) = valueOf magnitude) :
    nearestMagnitude numerator denominator = magnitude := by
  have canonical := canonical_unpack magnitude
  rw [canonical.nearestMagnitude_eq positive (by rwa [pack_unpack]) same, pack_unpack]

/-- The values of finite magnitudes. -/
def Representable (value : ℚ) : Prop :=
  ∃ magnitude < infinityMagnitude, valueOf magnitude = value

theorem Canonical.representable {mantissa : Nat} {exponent : Int}
    (canonical : Canonical mantissa exponent) (greatest : exponent ≤ greatestExponent) :
    Representable (dyadic mantissa exponent) := by
  refine ⟨pack mantissa exponent, canonical.pack_lt_iff.mpr greatest, ?_⟩
  rw [valueOf, canonical.unpack_pack]

/-- A mantissa that fits and an exponent that is neither too small nor too great
make up the value of a magnitude. -/
theorem representable_dyadic {mantissa : Nat} {exponent : Int} (fits : mantissa < 2 * fractionSize)
    (least : leastExponent ≤ exponent) (greatest : exponent ≤ greatestExponent) :
    Representable (dyadic mantissa exponent) := by
  rcases exists_canonical fits least with ⟨mantissa', exponent', canonical, lower, same⟩
  rw [← same]
  exact canonical.representable (lower.trans greatest)

end Number
end LineShell
