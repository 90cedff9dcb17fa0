import ZeroCurve.Proofs.Scalar.Exact

/-!
# Extended numbers

Exact arithmetic with two infinities and an undefined number, as far as a function may have them for
values. As with doubles, nothing compares with the undefined number, and operations without a limit
give it. There is one zero only, so a quotient with divisor zero has no sign and is undefined too.
-/

namespace ZeroCurve

/-- A rational number, an infinity, or no number. -/
inductive Extended where
  | number (q : ℚ)
  | infinite (negative : Bool)
  | undefined
deriving DecidableEq, Repr

namespace Extended

/-- The opposite. -/
def neg : Extended → Extended
  | .number q => .number (-q)
  | .infinite negative => .infinite !negative
  | .undefined => .undefined

/-- The sum; that of opposite infinities is undefined. -/
def add : Extended → Extended → Extended
  | .number a, .number b => .number (a + b)
  | .number _, .infinite negative => .infinite negative
  | .infinite negative, .number _ => .infinite negative
  | .infinite s, .infinite t => if s = t then .infinite s else .undefined
  | _, _ => .undefined

/-- The product; that of zero and an infinity is undefined. -/
def mul : Extended → Extended → Extended
  | .number a, .number b => .number (a * b)
  | .number a, .infinite negative | .infinite negative, .number a =>
    if a = 0 then .undefined else .infinite (negative != decide (a < 0))
  | .infinite s, .infinite t => .infinite (s != t)
  | _, _ => .undefined

/-- The quotient; that of infinities is undefined. -/
def div : Extended → Extended → Extended
  | .number a, .number b => if b = 0 then .undefined else .number (a / b)
  | .number _, .infinite _ => .number 0
  | .infinite negative, .number b =>
    if b = 0 then .undefined else .infinite (negative != decide (b < 0))
  | _, _ => .undefined

/-- Whether a number is less than another. -/
def less : Extended → Extended → Bool
  | .number a, .number b => a < b
  | .number _, .infinite negative => !negative
  | .infinite negative, .number _ => negative
  | .infinite s, .infinite t => s && !t
  | _, _ => false

/-- The remainder with the sign of the divisor. -/
def floorMod : Extended → Extended → Extended
  | .number a, .number b => if b = 0 then .undefined else .number (Scalar.floorMod a b)
  | .number a, .infinite negative =>
    if a = 0 ∨ decide (a < 0) = negative then .number a else .infinite negative
  | _, _ => .undefined

instance : Scalar Extended where
  add := add
  sub a b := add a (neg b)
  mul := mul
  div := div
  neg := neg
  lt a b := less a b = true
  decLt a b := inferInstanceAs (Decidable (less a b = true))
  ofInt n := .number n
  ofDecimal d := .number (Scalar.ofDecimal d)
  isZero a := a = .number 0
  isFinite
    | .number _ => true
    | _ => false
  trunc
    | .number q => Exact.trunc q
    | _ => 0
  floorMod := floorMod
  zero_lt_one := by decide +kernel

variable {a b : Extended}

theorem ofInt_zero : (Scalar.ofInt 0 : Extended) = .number 0 :=
  congrArg number Int.cast_zero

theorem isZero_eq_false_iff : Scalar.isZero a = false ↔ a ≠ .number 0 := decide_eq_false_iff_not

theorem isZero_eq_true_iff : Scalar.isZero a = true ↔ a = .number 0 := decide_eq_true_iff

theorem number_lt_number_iff {p q : ℚ} : number p < number q ↔ p < q := decide_eq_true_iff

theorem neg_number (q : ℚ) : -number q = number (-q) := rfl

theorem not_undefined_lt (a : Extended) : ¬ undefined < a := Bool.false_ne_true

theorem not_lt_undefined (a : Extended) : ¬ a < undefined := by
  cases a <;> exact Bool.false_ne_true

theorem not_infinity_lt (a : Extended) : ¬ infinite false < a := by
  cases a <;> exact Bool.false_ne_true

theorem ne_undefined_of_zero_lt (h : number 0 < a) : a ≠ .undefined := by
  rintro rfl
  exact not_lt_undefined _ h

/-- What is above zero is a positive number or infinity. -/
theorem zero_lt_iff : number 0 < a ↔ (∃ q, 0 < q ∧ a = .number q) ∨ a = .infinite false := by
  cases a with
  | number q => simp [number_lt_number_iff]
  | infinite negative => cases negative <;> simp [LT.lt, less]
  | undefined => simp [not_lt_undefined]

theorem not_lt_zero_of_zero_lt (h : number 0 < a) : ¬ a < number 0 := by
  obtain ⟨q, hq, rfl⟩ | rfl := zero_lt_iff.1 h
  · rw [number_lt_number_iff]
    exact hq.not_gt
  · exact not_infinity_lt _

/-- Numbers and infinities are ordered in a row. -/
theorem lt_or_eq_or_gt (ha : a ≠ .undefined) (hb : b ≠ .undefined) : a < b ∨ a = b ∨ b < a := by
  cases a with
  | number p =>
    cases b with
    | number q => simpa [number_lt_number_iff] using lt_trichotomy p q
    | infinite negative => cases negative <;> simp [LT.lt, less]
    | undefined => exact absurd rfl hb
  | infinite negative =>
    cases b with
    | number q => cases negative <;> simp [LT.lt, less]
    | infinite negative' => cases negative <;> cases negative' <;> simp [LT.lt, less]
    | undefined => exact absurd rfl hb
  | undefined => exact absurd rfl ha

theorem ofInt_mul_ne_zero {n : Int} (hn : n ≠ 0) (h : a ≠ .number 0) :
    Scalar.ofInt n * a ≠ number 0 := by
  have hn' : (n : ℚ) ≠ 0 := by exact_mod_cast hn
  cases a with
  | number q =>
    have hq : q ≠ 0 := fun hq => h (congrArg number hq)
    exact fun hproduct => mul_ne_zero hn' hq (number.inj hproduct)
  | infinite negative =>
    show (if (n : ℚ) = 0 then undefined else infinite (negative != decide ((n : ℚ) < 0))) ≠ _
    rw [if_neg hn']
    nofun
  | undefined => nofun

section Magnitude

open Scalar

theorem magnitude_number (q : ℚ) : magnitude (number q) = .number |q| := by
  rw [magnitude, ofInt_zero]
  split
  next hneg => rw [neg_number, abs_of_neg (number_lt_number_iff.1 hneg)]
  next hnonneg => rw [abs_of_nonneg (not_lt.1 (mt number_lt_number_iff.2 hnonneg))]

theorem magnitude_infinite (negative : Bool) : magnitude (infinite negative) = .infinite false := by
  cases negative <;> rfl

theorem magnitude_ne_undefined (h : a ≠ .undefined) : magnitude a ≠ .undefined := by
  cases a with
  | number q => simp [magnitude_number]
  | infinite negative => simp [magnitude_infinite]
  | undefined => exact absurd rfl h

theorem magnitude_of_zero_lt (h : number 0 < a) : magnitude a = a := by
  obtain ⟨q, hq, rfl⟩ | rfl := zero_lt_iff.1 h
  · rw [magnitude_number, abs_of_pos hq]
  · rfl

theorem magnitude_neg_of_zero_lt (h : number 0 < a) : magnitude (-a) = a := by
  obtain ⟨q, hq, rfl⟩ | rfl := zero_lt_iff.1 h
  · rw [neg_number, magnitude_number, abs_neg, abs_of_pos hq]
  · rfl

theorem neg_lt_zero (h : number 0 < a) : -a < number 0 := by
  obtain ⟨q, hq, rfl⟩ | rfl := zero_lt_iff.1 h
  · rw [neg_number, number_lt_number_iff]
    exact neg_neg_of_pos hq
  · rfl

/-- Only what is above zero is above the size of a number. -/
theorem zero_lt_of_magnitude_lt (h : magnitude a < b) : number 0 < b := by
  cases a with
  | number q =>
    rw [magnitude_number] at h
    cases b with
    | number r =>
      rw [number_lt_number_iff] at h ⊢
      exact (abs_nonneg q).trans_lt h
    | infinite negative => exact h
    | undefined => exact absurd h (not_lt_undefined _)
  | infinite negative =>
    rw [magnitude_infinite] at h
    exact absurd h (not_infinity_lt b)
  | undefined => exact absurd h (not_undefined_lt b)

end Magnitude

end Extended

end ZeroCurve
