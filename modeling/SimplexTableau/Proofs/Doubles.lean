import Mathlib
import SimplexTableau.Cell

namespace SimplexTableau

open Float.Model (Format UnpackedFloat)
open Float.Model.UnpackedFloat

/-!
# Finite doubles

A double is a word of 64 bits, and an operation on doubles takes the words apart, computes with
sign, mantissa and exponent, and packs the result.

* `isFinite_unpack_iff` — a word stands for a finite number unless its exponent is the greatest;
* `isFinite_unpack_pack` — packing keeps a number finite if its exponent fits;
* `isFinite_neg` — the negative of a double is finite exactly if the double is.
-/

/-- The exponent of the words that stand for no number. -/
def greatestExponent : BitVec Format.binary64.exponentBits := -1#11

/-- A word stands for a finite number unless its exponent is the greatest. -/
theorem isFinite_unpack_iff (word : BitVec Format.binary64.numBits) :
    (unpack Format.binary64 word).isFinite = true ↔ unpackExponent word ≠ greatestExponent := by
  unfold unpack
  simp only
  split
  case isTrue h =>
    have h : unpackExponent word = greatestExponent := h
    split <;> simp [UnpackedFloat.isFinite, h]
  case isFalse h =>
    have h : unpackExponent word ≠ greatestExponent := h
    split
    · split <;> simp [UnpackedFloat.isFinite, h]
    · simp [UnpackedFloat.isFinite, h]

/-- The exponent of a finite number is below the greatest one when it is packed. -/
def FitsWord : UnpackedFloat → Prop
  | .finite _ _ exponent _ => exponent + 1075 < 2047
  | .infinity _ | .notANumber | .zero _ => True

/-- What stands in a word fits. -/
theorem fitsWord_unpack (word : BitVec Format.binary64.numBits) :
    FitsWord (unpack Format.binary64 word) := by
  unfold unpack
  simp only
  split
  case isTrue => split <;> trivial
  case isFalse h =>
    have hlt : (unpackExponent word).toNat < 2047 := by
      have hbits := (unpackExponent word).isLt
      have hne : (unpackExponent word).toNat ≠ 2047 := fun heq => h (BitVec.eq_of_toNat_eq heq)
      have hbits : (unpackExponent word).toNat < 2048 := hbits
      omega
    split
    case isTrue hzero =>
      split
      · trivial
      · simp [FitsWord, hzero, Format.exponentBias]
    case isFalse =>
      simp only [FitsWord, Format.exponentBias]
      omega

/-- A number that fits is packed with an exponent below the greatest one. -/
theorem unpackExponent_pack_ne {u : UnpackedFloat} (hu : FitsWord u) (hfinite : u.isFinite = true) :
    unpackExponent (pack Format.binary64 u) ≠ greatestExponent := by
  cases u with
  | infinity sign => cases hfinite
  | notANumber => cases hfinite
  | zero sign =>
    rw [pack, packedZero, unpackExponent_packComponents]
    decide
  | finite sign mantissa exponent pos =>
    have hu : exponent + 1075 < 2047 := hu
    have hbias : (exponent + Format.exponentBias Format.binary64
        + Format.mantissaBitsWithoutImplicit Format.binary64).toNat = (exponent + 1075).toNat := by
      simp only [Format.exponentBias]
      omega
    unfold pack
    simp only [hbias]
    rw [if_neg (by show ¬ 2048 ≤ _; omega)]
    split
    · rw [unpackExponent_packComponents]
      intro heq
      have hmod : (exponent + 1075).toNat % 2048 = 2047 := congrArg BitVec.toNat heq
      omega
    · rw [unpackExponent_packComponents]
      decide

/-- **Packing** a number that fits keeps it finite, and what is no number stays none. -/
theorem isFinite_unpack_pack {u : UnpackedFloat} (hu : FitsWord u) :
    (unpack Format.binary64 (pack Format.binary64 u)).isFinite = u.isFinite := by
  cases hfinite : u.isFinite with
  | true => exact (isFinite_unpack_iff _).mpr (unpackExponent_pack_ne hu hfinite)
  | false =>
    rw [Bool.eq_false_iff, Ne, isFinite_unpack_iff, Decidable.not_not]
    cases u with
    | infinity sign => rw [pack, packedInfinity, unpackExponent_packComponents]; rfl
    | notANumber => rw [pack, packedNaN, unpackExponent_packComponents]; rfl
    | zero sign => cases hfinite
    | finite sign mantissa exponent pos => cases hfinite

/-- **The negative** of a double is finite exactly if the double is. -/
theorem isFinite_neg (x : Float) : (-x).isFinite = x.isFinite := by
  have hfits : ∀ u : UnpackedFloat, FitsWord u → FitsWord u.neg := by
    intro u hu
    cases u <;> exact hu
  have hneg : ∀ u : UnpackedFloat, u.neg.isFinite = u.isFinite := by
    intro u
    cases u <;> rfl
  calc (-x).isFinite
      = (unpack Format.binary64 (pack Format.binary64 x.toModel.unpack.neg)).isFinite := rfl
    _ = x.toModel.unpack.neg.isFinite := isFinite_unpack_pack (hfits _ (fitsWord_unpack _))
    _ = x.isFinite := hneg _

end SimplexTableau
