import Mathlib.Algebra.Order.Field.Power
import Mathlib.Data.Int.Log
import Mathlib.Data.Rat.Floor
import Mathlib.Tactic.Linarith
import Mathlib.Tactic.NormNum
import Mathlib.Tactic.Positivity

/-!
# Rounding to binary64

The value a decimal literal has as a 64-bit float: the nearest multiple of the
unit in the last place, ties to even, with gradual underflow, and no value at
all where the rounded result would overflow.  The one fact callers need is that
small integers survive: `binary64_intCast`.
-/

namespace PumaDev

/-- Round to the nearest integer, ties to even. -/
def roundTiesEven (q : ℚ) : ℤ :=
  let n := ⌊q⌋
  if q - n < 1 / 2 then n
  else if 1 / 2 < q - n then n + 1
  else if n % 2 = 0 then n
  else n + 1

/-- The exponent of the unit in the last place at `x`: 53 significant bits,
and no unit below the smallest subnormal. -/
def ulpExponent (x : ℚ) : ℤ := max (Int.log 2 |x| - 52) (-1074)

/-- The binary64 value nearest to `x`; `none` when it overflows. -/
def binary64 (x : ℚ) : Option ℚ :=
  if x = 0 then some 0
  else
    let unit := (2 : ℚ) ^ ulpExponent x
    let y := roundTiesEven (x / unit) * unit
    if |y| < (2 : ℚ) ^ (1024 : ℕ) then some y else none

theorem roundTiesEven_intCast (n : ℤ) : roundTiesEven (n : ℚ) = n := by
  simp [roundTiesEven]

/-- The unit in the last place of a small nonzero integer divides one. -/
theorem ulpExponent_intCast_nonpos {n : ℤ} (small : |n| < 2 ^ 53) :
    ulpExponent (n : ℚ) ≤ 0 := by
  have asNat : |(n : ℚ)| = (n.natAbs : ℚ) := by
    rw [← Int.cast_abs, Int.abs_eq_natAbs, Int.cast_natCast]
  have bound : n.natAbs < 2 ^ 53 := by
    have cast : (n.natAbs : ℤ) < 2 ^ 53 := by rwa [← Int.abs_eq_natAbs]
    exact_mod_cast cast
  have log : Nat.log 2 n.natAbs < 53 :=
    Nat.log_lt_of_lt_pow' (by decide) bound
  rw [ulpExponent, asNat, Int.log_natCast]
  omega

/-- **Integers of magnitude below `2 ^ 53` are binary64 values.** -/
theorem binary64_intCast {n : ℤ} (small : |n| < 2 ^ 53) :
    binary64 (n : ℚ) = some (n : ℚ) := by
  by_cases zero : (n : ℚ) = 0
  · rw [binary64, if_pos zero, zero]
  · obtain ⟨k, hk⟩ : ∃ k : ℕ, ulpExponent (n : ℚ) = -(k : ℤ) :=
      ⟨(ulpExponent (n : ℚ)).natAbs, by
        have := ulpExponent_intCast_nonpos small
        omega⟩
    have unit : (2 : ℚ) ^ ulpExponent (n : ℚ) = ((2 : ℚ) ^ k)⁻¹ := by
      rw [hk, zpow_neg, zpow_natCast]
    have scaled : (n : ℚ) / (2 : ℚ) ^ ulpExponent (n : ℚ) = ((n * 2 ^ k : ℤ) : ℚ) := by
      rw [unit, div_inv_eq_mul]
      push_cast
      ring
    have restored : (roundTiesEven ((n : ℚ) / (2 : ℚ) ^ ulpExponent (n : ℚ)) : ℚ) *
        (2 : ℚ) ^ ulpExponent (n : ℚ) = n := by
      rw [scaled, roundTiesEven_intCast, unit]
      push_cast
      field_simp
    have bound : |(n : ℚ)| < (2 : ℚ) ^ (1024 : ℕ) := by
      have cast : |(n : ℚ)| < (2 : ℚ) ^ (53 : ℕ) := by exact_mod_cast small
      exact cast.trans (pow_lt_pow_right₀ (by norm_num) (by norm_num))
    rw [binary64, if_neg zero]
    simp only [restored]
    exact if_pos bound

end PumaDev
