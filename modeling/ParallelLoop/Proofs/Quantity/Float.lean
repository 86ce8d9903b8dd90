/-
# Floating point quantities

Floating point numbers obey the laws of quantities, infinities and what is no number included.
A number is unpacked into a sign, a mantissa and an exponent, multiplied, rounded and packed
again; rounding a product by one shifts out the bits that the multiplication shifted in.
-/

import Mathlib
import ParallelLoop.Proofs.Quantity

namespace ParallelLoop

open Float.Model (Format UnpackedFloat totalExponent)
open Float.Model.UnpackedFloat

namespace Binary

variable {format : Format} {mantissa : Nat} {exponent : Int}

/-- The mantissa and the exponent are as rounding leaves them. -/
def IsCanonical (format : Format) (mantissa : Nat) (exponent : Int) : Prop :=
  format.targetExponent (totalExponent mantissa exponent) = exponent

/-- Bits that were shifted in are shifted out again, and nothing is lost. -/
theorem shiftRight_shifted (mantissa bits : Nat) :
    (⟨2 ^ bits * mantissa, false, false⟩ : ExtendedMantissa) >>> bits =
      ⟨mantissa, false, false⟩ := by
  change bits.repeat ExtendedMantissa.shiftRightOne _ = _
  induction bits generalizing mantissa with
  | zero => simp [Nat.repeat]
  | succ bits ih =>
    rw [Nat.repeat, show 2 ^ (bits + 1) * mantissa = 2 ^ bits * (2 * mantissa) by ring, ih]
    simp [ExtendedMantissa.shiftRightOne]

theorem log2_shifted (positive : 0 < mantissa) (bits : Nat) :
    (2 ^ bits * mantissa).log2 = mantissa.log2 + bits := by
  induction bits with
  | zero => simp
  | succ bits ih =>
    have shifted : 0 < 2 ^ bits * mantissa := Nat.mul_pos (Nat.two_pow_pos bits) positive
    rw [show 2 ^ (bits + 1) * mantissa = 2 * (2 ^ bits * mantissa) by ring,
      Nat.log2_two_mul shifted.ne', ih, Nat.add_assoc]

/-- Rounding a canonical number gives it back, however many bits were shifted in. -/
theorem roundWithAccuracy_shifted (positive : 0 < mantissa)
    (canonical : IsCanonical format mantissa exponent) (sign : Sign) (bits : Nat) :
    roundWithAccuracy format sign (2 ^ bits * mantissa) (exponent - bits) .exact =
      .finite sign mantissa exponent positive := by
  have total : totalExponent (2 ^ bits * mantissa) (exponent - bits) =
      totalExponent mantissa exponent := by
    rw [totalExponent, totalExponent, log2_shifted positive]
    push_cast
    ring
  have first : shiftToTargetExponent format (2 ^ bits * mantissa) (exponent - bits) .exact =
      (⟨mantissa, false, false⟩, exponent) := by
    rw [shiftToTargetExponent, total, canonical, shiftToExponent,
      show (exponent - (exponent - bits)).toNat = bits by omega]
    exact Prod.ext (shiftRight_shifted mantissa bits) (by dsimp only; omega)
  have second : shiftToTargetExponent format mantissa exponent .exact =
      (⟨mantissa, false, false⟩, exponent) := by
    rw [shiftToTargetExponent, canonical, shiftToExponent, Int.sub_self]
    exact Prod.ext rfl (by dsimp only; omega)
  rw [roundWithAccuracy, first]
  -- The mantissa is not rounded up, so the second shift finds it in its place.
  change (match shiftToTargetExponent format mantissa exponent .exact with
    | (rounded, exponent) =>
      if zero : rounded.mantissa = 0 then UnpackedFloat.zero sign
      else .finite sign rounded.mantissa exponent (Nat.pos_of_ne_zero zero)) = _
  rw [second]
  exact dif_neg positive.ne'

/-! ### Words -/

/-- The mantissa of a normal number, with the bit in front that is not stored. -/
theorem toNat_implicit {bits : Nat} (stored : BitVec bits) :
    (1#1 ++ stored).toNat = 2 ^ bits + stored.toNat := by
  rw [BitVec.toNat_append, ← Nat.shiftLeft_add_eq_or_of_lt stored.isLt, Nat.shiftLeft_eq]
  simp

theorem log2_implicit {bits : Nat} (stored : BitVec bits) :
    (1#1 ++ stored).toNat.log2 = bits := by
  have inside := stored.isLt
  have positive : 0 < 2 ^ bits := Nat.two_pow_pos bits
  rw [toNat_implicit, Nat.log2_eq_iff (by omega)]
  exact ⟨by omega, by rw [Nat.pow_succ]; omega⟩

theorem toNat_pos_of_ne_zero {bits : Nat} {stored : BitVec bits} (nonzero : stored ≠ 0#_) :
    0 < stored.toNat :=
  Nat.pos_of_ne_zero fun zero => nonzero (BitVec.eq_of_toNat_eq (by simpa using zero))

theorem log2_stored_lt {bits : Nat} {stored : BitVec bits} (nonzero : stored ≠ 0#_) :
    stored.toNat.log2 < bits :=
  (Nat.log2_lt (toNat_pos_of_ne_zero nonzero).ne').mpr stored.isLt

theorem minExponent_eq (format : Format) : format.minExponent =
    1 - ((format.exponentBias : Int) + format.mantissaBitsWithoutImplicit) := by
  have positive : 1 ≤ 2 ^ (format.exponentBits - 1) := Nat.one_le_pow _ _ (by decide)
  unfold Format.minExponent Format.exponentBias Format.mantissaBits
  rw [Nat.cast_sub positive]
  push_cast
  ring

/-- What is unpacked is canonical. -/
theorem isCanonical_unpack {word : BitVec format.numBits} {sign : Sign} {positive : 0 < mantissa}
    (finite : unpack format word = .finite sign mantissa exponent positive) :
    IsCanonical format mantissa exponent := by
  have least := minExponent_eq format
  unfold IsCanonical Format.targetExponent Format.mantissaBits totalExponent
  unfold unpack at finite
  dsimp only at finite
  split at finite
  next => split at finite <;> cases finite
  next proper =>
    split at finite
    next zero =>
      split at finite
      next => cases finite
      next nonzero =>
        obtain ⟨-, rfl, rfl⟩ := UnpackedFloat.finite.inj finite
        -- A subnormal number has the least exponent and fewer digits.
        have short := log2_stored_lt nonzero
        rw [zero, BitVec.toNat_zero]
        push_cast
        omega
    next some =>
      obtain ⟨-, rfl, rfl⟩ := UnpackedFloat.finite.inj finite
      -- Any other one has all digits, the implicit one included.
      have positive := toNat_pos_of_ne_zero some
      rw [log2_implicit]
      push_cast
      omega

end Binary

namespace Quantity

/-- One times an unpacked number is that number. -/
theorem mul_one_unpack {word : BitVec Format.binary64.numBits} {one : 0 < 2 ^ 52} :
    UnpackedFloat.mul .binary64 (.finite .positive (2 ^ 52) (-52) one) (unpack .binary64 word) =
      unpack .binary64 word := by
  cases unpacked : unpack .binary64 word with
  | infinity sign => cases sign <;> rfl
  | notANumber => rfl
  | zero sign => cases sign <;> rfl
  | finite sign mantissa exponent positive =>
    have canonical := Binary.isCanonical_unpack unpacked
    have sign_eq : Sign.positive * sign = sign := by cases sign <;> rfl
    rw [UnpackedFloat.mul, sign_eq, show (-52 : Int) + exponent = exponent - (52 : Nat) by omega]
    exact Binary.roundWithAccuracy_shifted positive canonical sign 52

theorem float_one_mul (a : Float) : ofNat 1 * a = a := by
  have one : (ofNat 1 : Float).toModel.unpack = .finite .positive (2 ^ 52) (-52) (by decide) := rfl
  have product : (ofNat 1 * a).toModel.toBits.toBitVec = a.toModel.toBits.toBitVec := by
    change pack .binary64 (UnpackedFloat.mul .binary64 (ofNat 1 : Float).toModel.unpack
      a.toModel.unpack) = _
    rw [one, Float.Model.unpack, mul_one_unpack]
    exact pack_unpack_of_valid a.toModel.valid
  exact Float.toBits_inj.mp (UInt64.toBitVec_inj.mp product)

theorem float_le_iff {a b : Float} : a ≤ b ↔ a.toModel.unpack.le b.toModel.unpack = true := by
  change decide (a.toModel ≤ b.toModel) = true ↔ _
  rw [decide_eq_true_eq]
  rfl

/-- A number is at least zero if it is zero or has no sign in front of it. -/
def isNonneg : UnpackedFloat → Bool
  | .zero _ | .infinity .positive | .finite .positive .. => true
  | _ => false

theorem float_zero_le_iff {a : Float} : zero ≤ a ↔ isNonneg a.toModel.unpack = true := by
  have none : (zero : Float).toModel.unpack = .zero .positive := rfl
  rw [float_le_iff, none]
  rcases a.toModel.unpack with (_ | _) | _ | (_ | _) | ⟨_ | _, _, _, _⟩ <;> rfl

theorem isNonneg_of_le {a b : UnpackedFloat} (nonneg : isNonneg a = true) (le : a.le b = true) :
    isNonneg b = true := by
  rcases a with (_ | _) | _ | (_ | _) | ⟨_ | _, _, _, _⟩ <;>
    rcases b with (_ | _) | _ | (_ | _) | ⟨_ | _, _, _, _⟩ <;> trivial

instance : IsLawful Float where
  one_mul := float_one_mul
  zero_le_zero := by decide
  zero_le_of_le nonneg le :=
    float_zero_le_iff.mpr (isNonneg_of_le (float_zero_le_iff.mp nonneg) (float_le_iff.mp le))

instance : IsWordSized Float where
  ceil_le a := Nat.le_of_lt_succ (UInt64.toNat_lt a.ceil.toUInt64)

end Quantity

end ParallelLoop
