import Mathlib.Data.Int.Log
import Mathlib.Data.Rat.Floor
import Mathlib.Tactic.Linarith

/-!
# Rounding to a binary format

A `BinaryFormat` has the numbers `m * 2 ^ e` whose `m` has at most `precision` digits and whose
`e` is at least `minExponent`. `BinaryFormat.round` takes a rational to a nearest one of them,
the even one where two are as near, as if there were no greatest exponent. A multiple of the
last digit is not rounded (`BinaryFormat.round_eq_self`), nor is a whole number of at most
`precision` digits (`BinaryFormat.round_intCast`).
-/

/-- A binary floating-point format, where no exponent is too large. -/
structure BinaryFormat where
  precision : ℕ
  minExponent : ℤ

/-- The nearest whole number, the even one where two are as near. -/
def roundEven (q : ℚ) : ℤ :=
  if q - ⌊q⌋ < 1 / 2 then ⌊q⌋
  else if 1 / 2 < q - ⌊q⌋ then ⌊q⌋ + 1
  else ⌊q⌋ + ⌊q⌋ % 2

@[simp] theorem roundEven_intCast (n : ℤ) : roundEven n = n := by
  simp [roundEven]

namespace BinaryFormat

/-- The doubles. -/
def binary64 : BinaryFormat :=
  ⟨53, -1074⟩

variable (F : BinaryFormat)

/-- The exponent of the last digit of the numbers next to `q`. -/
def exponent (q : ℚ) : ℤ :=
  max (Int.log 2 |q| + 1 - F.precision) F.minExponent

/-- The last digit of the numbers next to `q`. -/
def ulp (q : ℚ) : ℚ :=
  2 ^ F.exponent q

/-- The nearest number of the format, where a tie goes to the even one. -/
def round (q : ℚ) : ℚ :=
  roundEven (q / F.ulp q) * F.ulp q

variable {F}

theorem round_eq_self {q : ℚ} {m : ℤ} (h : q = m * F.ulp q) : F.round q = q := by
  have hulp : F.ulp q ≠ 0 := zpow_ne_zero _ two_ne_zero
  have hquotient : q / F.ulp q = m := (div_eq_iff hulp).mpr h
  rw [round, hquotient, roundEven_intCast, ← h]

/-- A whole number that has few enough digits is not rounded. -/
theorem round_intCast {n : ℤ} (hmin : F.minExponent ≤ 0) (hn : |n| < 2 ^ F.precision) :
    F.round n = n := by
  rcases eq_or_ne n 0 with rfl | hne
  · exact round_eq_self (m := 0) (by simp)
  have hlog : Int.log 2 |(n : ℚ)| < F.precision := by
    rw [← Int.lt_zpow_iff_log_lt one_lt_two (by simpa using hne)]
    exact_mod_cast hn
  have hexponent : F.exponent n ≤ 0 := max_le (by omega) hmin
  obtain ⟨k, hk⟩ := Int.eq_ofNat_of_zero_le (neg_nonneg.mpr hexponent)
  have hk' : F.exponent n = -(k : ℤ) := by omega
  refine round_eq_self (m := n * 2 ^ k) ?_
  rw [ulp, hk', zpow_neg, zpow_natCast]
  push_cast
  rw [mul_assoc, mul_inv_cancel₀ (pow_ne_zero k two_ne_zero), mul_one]

end BinaryFormat
