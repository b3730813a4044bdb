import LineShell.Value
import LineShell.Proofs.ExactArithmetic
import Mathlib.Data.Int.ModEq

namespace LineShell

/-!
# Words of 32 bits

Bitwise operators take their operands as words of 32 bits, and a word is what is
left of a number without its fraction modulo the number of words.  No step on the
way rounds, so the last number is a whole one in the range of unsigned words and
its cast loses nothing.
-/

namespace Number

/-! ## Numbers as words -/

/-- The least remainder of a whole number is exact as long as the modulus has a
mantissa of its own. -/
theorem value?_leastRemainder {number modulus : Float} {whole : Int} {size : Nat}
    (known : value? number = some (whole : ℚ)) (known' : value? modulus = some (size : ℚ))
    (positive : 0 < size) (small : size < 2 ^ 53) :
    value? (leastRemainder number modulus) = some ((whole % size : Int) : ℚ) := by
  have sizePositive : (0 : ℚ) < size := Nat.cast_pos.mpr positive
  have restKnown := value?_remainder known known' sizePositive.ne'
  have near := abs_sub_mul_towardZero whole sizePositive.ne'
  generalize towardZero (whole / size) = count at restKnown near
  have rest : (whole : ℚ) - size * count = (whole - size * count : Int) := by push_cast; rfl
  rw [rest] at restKnown near
  have bounded : |whole - size * count| < size := by
    rw [Nat.abs_cast] at near
    exact_mod_cast near
  have congruent : whole % size = (whole - size * count) % size := by
    rw [sub_eq_add_neg, ← mul_neg, Int.add_mul_emod_self_left]
  generalize whole - size * count = remaining at restKnown bounded congruent
  rw [congruent, leastRemainder]
  rcases abs_lt.mp bounded with ⟨above, below⟩
  -- What remains is whole, so adding the modulus to it cannot round up to the modulus.
  rcases lt_or_ge remaining 0 with negative | nonneg
  · have isNegative := (lt_zero_iff restKnown).mpr (Int.cast_lt_zero.mpr negative)
    have raised : remaining % size = remaining + size := by
      rw [← Int.add_emod_right, Int.emod_eq_of_lt (by omega) (by omega)]
    have sum : (remaining : ℚ) + size = (remaining % size : Int) := by
      rw [raised, Int.cast_add, Int.cast_natCast]
    have exact : Representable |(remaining : ℚ) + size| := by
      rw [sum, ← Int.cast_abs, ← Nat.cast_natAbs]
      exact representable_natCast (by omega)
    have absKnown := value?_abs known'
    rw [Nat.abs_cast] at absKnown
    rw [if_pos isNegative, value?_add restKnown absKnown exact, sum]
  · have notNegative : ¬remainder number modulus < ofInt 0 := fun isNegative =>
      nonneg.not_gt (Int.cast_lt_zero.mp ((lt_zero_iff restKnown).mp isNegative))
    rw [if_neg notNegative, restKnown, Int.emod_eq_of_lt nonneg below]

theorem value?_wrap {number : Float} {value : ℚ} (known : value? number = some value) :
    value? (wrap number) = some ((towardZero value % 2 ^ 32 : Int) : ℚ) := by
  have countKnown : value? (ofInt wordCount) = some (wordCount : ℚ) := value?_ofInt (by decide)
  exact value?_leastRemainder (value?_cut known) countKnown (by decide) (by decide)

/-- The cast to an unsigned word gets a whole number that such a word can have. -/
theorem toNat_toUInt32_wrap {number : Float} {value : ℚ} (known : value? number = some value) :
    ((wrap number).toUInt32.toNat : Int) = towardZero value % 2 ^ 32 := by
  have nonneg : 0 ≤ towardZero value % 2 ^ 32 := Int.emod_nonneg _ (by decide)
  have below : towardZero value % 2 ^ 32 < 2 ^ 32 := Int.emod_lt_of_pos _ (by decide)
  rcases Int.eq_ofNat_of_zero_le nonneg with ⟨word, isWord⟩
  have wrapped := value?_wrap known
  rw [isWord] at wrapped below ⊢
  rw [Int.cast_natCast] at wrapped
  exact congrArg Nat.cast (toNat_toUInt32 wrapped (by exact_mod_cast below))

theorem toInt_toInt32 {number : Float} {value : ℚ} (known : value? number = some value) :
    (toInt32 number).toInt = (towardZero value).bmod (2 ^ 32) := by
  have finite : number.isFinite = true := by rw [isFinite_eq, known, Option.isSome_some]
  rw [toInt32, if_pos finite, ← Int.emod_bmod]
  exact (BitVec.toInt_eq_toNat_bmod _).trans
    (congrArg (Int.bmod · (2 ^ 32)) (toNat_toUInt32_wrap known))

/-- The cast keeps the value of the wrapped number. -/
theorem value?_wrap_toUInt32 {number : Float} {value : ℚ} (known : value? number = some value) :
    value? (wrap number) = some ((wrap number).toUInt32.toNat : ℚ) := by
  rw [value?_wrap known, ← toNat_toUInt32_wrap known, Int.cast_natCast]

theorem toInt_toInt32_iff {number : Float} {value : ℚ} (known : value? number = some value)
    (word : Int) :
    (toInt32 number).toInt = word
      ↔ -2 ^ 31 ≤ word ∧ word < 2 ^ 31 ∧ word ≡ towardZero value [ZMOD 2 ^ 32] := by
  rw [toInt_toInt32 known, Int.bmod_eq_iff (by decide), Int.modEq_comm, Int.modEq_iff_dvd]
  rfl

theorem toInt32_of_none {number : Float} (unknown : value? number = none) :
    toInt32 number = 0 := by
  have infinite : ¬number.isFinite = true := by
    rw [isFinite_eq, unknown]
    exact Bool.false_ne_true
  rw [toInt32, if_neg infinite]

theorem toInt32_ofInt (word : Int32) : toInt32 (ofInt word.toInt) = word := by
  have above := word.le_toInt
  have below := word.toInt_lt
  rw [← Int32.toInt_inj, toInt_toInt32 (value?_ofInt (by omega)), towardZero_intCast,
    Int.bmod_eq_iff (by decide)]
  exact ⟨above, below, by rw [sub_self]; exact Int.dvd_zero _⟩

end Number

/-! ## Shifts -/

namespace Value

theorem toNat_and_31 (count : BitVec 32) : (count &&& 31#32).toNat = (count.toInt % 32).toNat := by
  have low : (count &&& 31#32).toNat = count.toNat % 2 ^ 5 :=
    Nat.and_two_pow_sub_one_eq_mod count.toNat 5
  rw [low, BitVec.toInt_eq_toNat_cond]
  split <;> omega

/-- The low five bits are not changed by what a shift does with its count. -/
theorem smod_and_31 (count : BitVec 32) : (count &&& 31#32).smod 32#32 = count &&& 31#32 := by
  have bound : (count &&& 31#32).toNat < 32 := Nat.lt_succ_of_le Nat.and_le_right
  have positive : (count &&& 31#32).msb = false := by
    rw [BitVec.msb_eq_decide]
    exact decide_eq_false (by omega)
  have positive' : (32#32).msb = false := rfl
  rw [BitVec.smod_eq, positive, positive']
  exact BitVec.eq_of_toNat_eq (Nat.mod_eq_of_lt bound)

theorem toNat_shiftAmount (count : Value) :
    (count.shiftAmount.toBitVec.smod 32).toNat = (count.toInt32.toInt % 32).toNat :=
  (congrArg BitVec.toNat (smod_and_31 count.toInt32.toBitVec)).trans (toNat_and_31 _)

theorem toInt_shiftLeft (word : Int32) (count : Value) :
    (word <<< count.shiftAmount).toInt
      = (word.toInt * 2 ^ (count.toInt32.toInt % 32).toNat).bmod (2 ^ 32) := by
  rw [← toNat_shiftAmount]
  refine BitVec.toInt_shiftLeft.trans ?_
  rw [Nat.shiftLeft_eq, Nat.cast_mul, Nat.cast_pow, Nat.cast_ofNat, ← Int.bmod_mul_bmod,
    ← BitVec.toInt_eq_toNat_bmod]
  rfl

theorem toInt_shiftRight (word : Int32) (count : Value) :
    (word >>> count.shiftAmount).toInt
      = word.toInt / 2 ^ (count.toInt32.toInt % 32).toNat := by
  rw [← toNat_shiftAmount]
  refine BitVec.toInt_sshiftRight.trans ?_
  rw [Int.shiftRight_eq_div_pow]
  rfl

/-! ## Operators -/

theorem toInt32_ofInt32 (word : Int32) : (ofInt32 word).toInt32 = word :=
  Number.toInt32_ofInt word

end Value

namespace BinaryOperator

/-- Bitwise operators are arithmetic of machine words on their operands.  A number
counts as the word that its whole part is congruent to, if it is finite, and as
zero otherwise, where the cast on the way keeps the value that it gets; a word
that is made a number counts as itself; and an operator gives the word that it
has for the words of its operands.  A shift to the left drops the high bits, one
to the right rounds down, and both go by their count modulo 32. -/
theorem bitwise_on_words :
    (∀ pattern : UInt64,
      match Number.wordValue? pattern with
      | none => Number.toInt32 (Float.ofBits pattern) = 0
      | some value =>
          (∀ word : Int, (Number.toInt32 (Float.ofBits pattern)).toInt = word
            ↔ -2 ^ 31 ≤ word ∧ word < 2 ^ 31 ∧ word ≡ Number.towardZero value [ZMOD 2 ^ 32])
          ∧ Number.wordValue? (Number.wrap (Float.ofBits pattern)).toBits
            = some ((Number.wrap (Float.ofBits pattern)).toUInt32.toNat : ℚ))
    ∧ (∀ word : Int32, Number.toInt32 (Number.ofInt word.toInt) = word)
    ∧ ∀ left right : Value,
      (bitOr.apply left right).toInt32 = left.toInt32 ||| right.toInt32
      ∧ (bitAnd.apply left right).toInt32 = left.toInt32 &&& right.toInt32
      ∧ (bitXor.apply left right).toInt32 = left.toInt32 ^^^ right.toInt32
      ∧ (shiftLeft.apply left right).toInt32.toInt
        = (left.toInt32.toInt * 2 ^ (right.toInt32.toInt % 32).toNat).bmod (2 ^ 32)
      ∧ (shiftRight.apply left right).toInt32.toInt
        = left.toInt32.toInt / 2 ^ (right.toInt32.toInt % 32).toNat := by
  refine ⟨fun pattern => ?_, Number.toInt32_ofInt, fun left right => ⟨?_, ?_, ?_, ?_, ?_⟩⟩
  · have value := Number.value?_ofBits pattern
    cases known : Number.wordValue? pattern with
    | none => exact Number.toInt32_of_none (value.trans known)
    | some exact =>
        rw [known] at value
        refine ⟨Number.toInt_toInt32_iff value, ?_⟩
        rw [Number.wordValue?_toBits]
        exact Number.value?_wrap_toUInt32 value
  · exact Value.toInt32_ofInt32 _
  · exact Value.toInt32_ofInt32 _
  · exact Value.toInt32_ofInt32 _
  · exact (congrArg Int32.toInt (Value.toInt32_ofInt32 _)).trans (Value.toInt_shiftLeft _ _)
  · exact (congrArg Int32.toInt (Value.toInt32_ofInt32 _)).trans (Value.toInt_shiftRight _ _)

example : (shiftRight.apply (.list [.list [.text "-9.5"]]) (.text "-31")).toInt32 = -5 := by
  decide +kernel

end BinaryOperator
end LineShell
