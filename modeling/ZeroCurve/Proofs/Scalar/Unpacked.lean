import Mathlib
import ZeroCurve.Scalar.Double

/-!
# Doubles taken apart

`Dyadic.ofFloat?` reads the fields of a double off its bits. Here it is tied to the unpacked numbers
on which the arithmetic of doubles is defined, and the doubles of decimal numerals are found to be
neither negative nor undefined.
-/

namespace ZeroCurve.Double

open Float.Model
open Float.Model.UnpackedFloat

/-- The parts of an unpacked number that is finite. -/
def dyadic? : UnpackedFloat → Option Dyadic
  | .notANumber | .infinity _ => none
  | .zero s => some ⟨s == .negative, 0, -1074⟩
  | .finite s m e _ => some ⟨s == .negative, m, e⟩

theorem toNat_biased (bits : UInt64) :
    ((bits >>> 52) &&& 0x7ff).toNat = bits.toNat / 2 ^ 52 % 2 ^ 11 := by
  have hmask := Nat.and_two_pow_sub_one_eq_mod (bits >>> 52).toNat 11
  rw [UInt64.toNat_shiftRight, Nat.shiftRight_eq_div_pow] at hmask
  rw [UInt64.toNat_and, UInt64.toNat_shiftRight, Nat.shiftRight_eq_div_pow]
  exact hmask

theorem toNat_fraction (bits : UInt64) :
    (bits &&& 0xfffffffffffff).toNat = bits.toNat % 2 ^ 52 := by
  rw [UInt64.toNat_and]
  exact Nat.and_two_pow_sub_one_eq_mod _ 52

theorem toNat_sign (bits : UInt64) : (bits >>> 63).toNat = bits.toNat / 2 ^ 63 % 2 := by
  have hlt := bits.toNat_lt
  rw [UInt64.toNat_shiftRight, Nat.shiftRight_eq_div_pow]
  simp only [UInt64.reduceToNat, Nat.reduceMod]
  omega

theorem toNat_unpackExponent (bits : UInt64) :
    (@unpackExponent Format.binary64 bits.toBitVec).toNat =
      bits.toNat / 2 ^ 52 % 2 ^ 11 := by
  simp [unpackExponent, Nat.shiftRight_eq_div_pow]

theorem toNat_unpackMantissa (bits : UInt64) :
    (@unpackMantissa Format.binary64 bits.toBitVec).toNat = bits.toNat % 2 ^ 52 := by
  simp [unpackMantissa]

theorem toNat_unpackSign (bits : UInt64) :
    (@unpackSign Format.binary64 bits.toBitVec).toNat = bits.toNat / 2 ^ 63 % 2 := by
  simp [unpackSign, Nat.shiftRight_eq_div_pow]

theorem sign_eq (bits : UInt64) :
    (bits >>> 63 == 1) =
      (Sign.ofBitVec (@unpackSign Format.binary64 bits.toBitVec) == .negative) := by
  have hunpacked := toNat_unpackSign bits
  have hbits := toNat_sign bits
  rcases Nat.mod_two_eq_zero_or_one (bits.toNat / 2 ^ 63) with h | h
  · have h₀ : @unpackSign Format.binary64 bits.toBitVec = 0#1 :=
      BitVec.eq_of_toNat_eq (hunpacked.trans h)
    have h₁ : bits >>> 63 = 0 := UInt64.toNat_inj.1 (hbits.trans h)
    rw [h₀, h₁]
    rfl
  · have h₀ : @unpackSign Format.binary64 bits.toBitVec = 1#1 :=
      BitVec.eq_of_toNat_eq (hunpacked.trans h)
    have h₁ : bits >>> 63 = 1 := UInt64.toNat_inj.1 (hbits.trans h)
    rw [h₀, h₁]
    rfl

/-- A mantissa with its implicit bit. -/
theorem toNat_implicit (m : BitVec 52) : (1#1 ++ m).toNat = m.toNat + 0x10000000000000 := by
  rw [BitVec.toNat_append, ← Nat.shiftLeft_add_eq_or_of_lt m.isLt, Nat.add_comm]
  rfl

theorem ofFloat?_eq (v : Float) : Dyadic.ofFloat? v = dyadic? v.toModel.unpack := by
  unfold Dyadic.ofFloat? Float.toBits Float.Model.unpack UnpackedFloat.unpack
  generalize v.toModel.toBits = bits
  have hexponent := toNat_unpackExponent bits
  have hmantissa := toNat_unpackMantissa bits
  simp only [toNat_biased, toNat_fraction, sign_eq, ← hexponent, ← hmantissa]
  generalize @unpackExponent Format.binary64 bits.toBitVec = e
  have hmax : e = -1#11 ↔ e.toNat = 2047 := by
    rw [← BitVec.toNat_inj]
    rfl
  have hzero : e = 0#11 ↔ e.toNat = 0 := by
    rw [← BitVec.toNat_inj]
    rfl
  have hbias : ((Format.binary64.exponentBias : Int) + (52 : Nat)) = 1075 := rfl
  simp only [hmax, hzero, hbias]
  split
  · split <;> rfl
  split
  next he =>
    split
    next hm => simp [dyadic?, hm]
    next hm => simp [dyadic?, he]
  next he => simp only [dyadic?, toNat_implicit]

theorem ofFloat?_zero : Dyadic.ofFloat? (Scalar.ofInt 0) = some ⟨false, 0, -1074⟩ := by
  decide

theorem isFinite_eq (v : Float) : v.isFinite = (Dyadic.ofFloat? v).isSome := by
  rw [ofFloat?_eq]
  show v.toModel.unpack.isFinite = _
  cases v.toModel.unpack <;> rfl

theorem isFinite_of_parts {v : Float} {d : Dyadic} (h : Dyadic.ofFloat? v = some d) :
    v.isFinite = true := by
  rw [isFinite_eq, h]
  rfl

theorem isInf_of_isFinite {v : Float} (h : v.isFinite = true) : v.isInf = false := by
  show v.toModel.unpack.isInf = false
  have hmodel : v.toModel.unpack.isFinite = true := h
  cases hu : v.toModel.unpack with
  | infinity s => simp [hu, UnpackedFloat.isFinite] at hmodel
  | _ => rfl

theorem isNaN_of_isFinite {v : Float} (h : v.isFinite = true) : v.isNaN = false := by
  show v.toModel.unpack.isNaN = false
  have hmodel : v.toModel.unpack.isFinite = true := h
  cases hu : v.toModel.unpack with
  | notANumber => simp [hu, UnpackedFloat.isFinite] at hmodel
  | _ => rfl

theorem eq_of_unpack_eq {v w : Float} (h : v.toModel.unpack = w.toModel.unpack) : v = w := by
  have hbits := (unpack_inj_of_valid v.toModel.valid w.toModel.valid).1 h
  exact Float.toBits_inj.1 (UInt64.toBitVec_inj.1 hbits)

theorem eq_infinity_of_unpack {v : Float} (h : v.toModel.unpack = .infinity .positive) :
    v = infinity := by
  have hinfinity : infinity.toModel.unpack = .infinity .positive := by rfl
  exact eq_of_unpack_eq (h.trans hinfinity.symm)

/-- Zero, a positive number or infinity; of the zeros the positive one. -/
def IsNonneg : UnpackedFloat → Prop
  | .notANumber => False
  | .infinity s | .zero s | .finite s _ _ _ => s = .positive

theorem isNonneg_unpack_packComponents {e : BitVec 11} {m : BitVec 52}
    (h : e = -1#11 → m = 0#52) :
    IsNonneg (UnpackedFloat.unpack Format.binary64
      (packComponents Format.binary64 .positive e m)) := by
  unfold UnpackedFloat.unpack
  simp only [unpackMantissa_packComponents, unpackExponent_packComponents,
    unpackSign_packComponents, Sign.ofBitVec_toBitVec]
  split
  next he =>
    rw [if_pos (h he)]
    rfl
  · split
    · split <;> rfl
    · rfl

/-- Packing keeps the sign, and makes no number undefined. -/
theorem isNonneg_unpack_pack {u : UnpackedFloat} (h : IsNonneg u) :
    IsNonneg (Float.Model.pack u).unpack := by
  show IsNonneg (UnpackedFloat.unpack _ (UnpackedFloat.pack _ u))
  cases u with
  | notANumber => exact h.elim
  | infinity s | zero s =>
    cases h
    exact isNonneg_unpack_packComponents fun _ => rfl
  | finite s m e hm =>
    cases h
    simp only [UnpackedFloat.pack]
    split
    · exact isNonneg_unpack_packComponents fun _ => rfl
    next hfits =>
      split
      · refine isNonneg_unpack_packComponents fun hmax => ?_
        have := congrArg BitVec.toNat hmax
        rw [BitVec.toNat_ofNat] at this
        have hones : (-1#11).toNat = 2047 := rfl
        simp only [hones] at this
        omega
      · exact isNonneg_unpack_packComponents fun hmax => absurd hmax (by decide)

theorem isNonneg_roundWithAccuracy (m : Nat) (e : Int) (a : Accuracy) :
    IsNonneg (roundWithAccuracy Format.binary64 .positive m e a) := by
  unfold roundWithAccuracy
  dsimp only
  split <;> rfl

theorem isNonneg_ofNat (n : Nat) : IsNonneg (UnpackedFloat.ofNat Format.binary64 n) := by
  unfold UnpackedFloat.ofNat UnpackedFloat.ofInt UnpackedFloat.normalize
  split
  next h =>
    rw [Int.compare_eq_lt] at h
    omega
  next => rfl
  next => exact isNonneg_roundWithAccuracy _ _ _

theorem isNonneg_ofScientific (m : Nat) (e : Int) :
    IsNonneg (UnpackedFloat.ofScientific Format.binary64 m e) := by
  unfold UnpackedFloat.ofScientific
  split
  · rfl
  split
  · rfl
  split
  · rfl
  split
  · exact isNonneg_roundWithAccuracy _ _ _
  · exact isNonneg_roundWithAccuracy _ _ _

/-- Whether a number is positive and not infinite. -/
def isPositive : UnpackedFloat → Bool
  | .finite .positive _ _ _ => true
  | _ => false

theorem isPositive_powerOfTen : ∀ v ∈ Float.exactlyRepresentablePowersOfTen,
    isPositive v.toModel.unpack = true := by
  decide

theorem isNonneg_div {a b : UnpackedFloat} (ha : IsNonneg a) (hb : isPositive b = true) :
    IsNonneg (UnpackedFloat.div Format.binary64 a b) := by
  cases b with
  | finite s m e hm =>
    cases s with
    | negative => cases hb
    | positive =>
      cases a with
      | notANumber => exact ha.elim
      | infinity s | zero s =>
        cases ha
        rfl
      | finite s m' e' hm' =>
        cases ha
        exact isNonneg_roundWithAccuracy _ _ _
  | _ => cases hb

theorem isNonneg_ofDecimal (d : Decimal) :
    IsNonneg (Scalar.ofDecimal d : Float).toModel.unpack := by
  show IsNonneg (Float.ofScientific d.digits true d.places).toModel.unpack
  unfold Float.ofScientific
  split
  next h =>
    have hdigits : IsNonneg d.digits.toUInt64.toFloat.toModel.unpack :=
      isNonneg_unpack_pack (isNonneg_ofNat _)
    exact isNonneg_unpack_pack (isNonneg_div hdigits (isPositive_powerOfTen _ (Array.getElem_mem _)))
  next h => exact isNonneg_unpack_pack (isNonneg_ofScientific _ _)

/-- A decimal numeral stands for infinity or for a finite double without a minus sign. -/
theorem ofDecimal_cases (d : Decimal) :
    (Scalar.ofDecimal d : Float) = infinity ∨
      ∃ p, Dyadic.ofFloat? (Scalar.ofDecimal d) = some p ∧ p.negative = false := by
  have h := isNonneg_ofDecimal d
  rw [ofFloat?_eq]
  cases hu : (Scalar.ofDecimal d : Float).toModel.unpack with
  | notANumber =>
    rw [hu] at h
    exact h.elim
  | infinity s =>
    rw [hu] at h
    cases h
    exact .inl (eq_infinity_of_unpack hu)
  | zero s =>
    rw [hu] at h
    cases h
    exact .inr ⟨_, rfl, rfl⟩
  | finite s m e hm =>
    rw [hu] at h
    cases h
    exact .inr ⟨_, rfl, rfl⟩

end ZeroCurve.Double
