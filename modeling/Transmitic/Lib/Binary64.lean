/-
  File:      Transmitic/Lib/Binary64.lean
  Subject:   ROUNDING TO DOUBLE PRECISION. Nothing here knows a particular program.

  A quotient of two numbers is rounded to the nearest of 53 bits, a tie to the even one.

  * `roundHalfEven` -- rounding to an integer;
  * `binary64`, `abs_binary64_sub` -- the number of 53 bits next to a rational, and how far it is away;
  * `binary64_natCast` -- **what has 53 bits is not rounded**;
  * `ceil_binary64` -- where the rounding does not reach the next integer, the ceiling is what it was.
-/
import Mathlib

namespace Transmitic.Lib

/-! ## 1. Rounding to an integer -/

/-- The nearest integer; of two, the even one. -/
def roundHalfEven (x : ℚ) : ℤ :=
  if x - ⌊x⌋ < 1 / 2 ∨ (x - ⌊x⌋ = 1 / 2 ∧ ⌊x⌋ % 2 = 0) then ⌊x⌋ else ⌊x⌋ + 1

theorem roundHalfEven_intCast (n : ℤ) : roundHalfEven n = n := by
  unfold roundHalfEven
  rw [if_pos (.inl (by simp))]
  exact Int.floor_intCast n

/-- An integer is at most a half away. -/
theorem abs_roundHalfEven_sub (x : ℚ) : |(roundHalfEven x : ℚ) - x| ≤ 1 / 2 := by
  have hle := Int.floor_le x
  have hlt := Int.lt_floor_add_one x
  unfold roundHalfEven
  split
  · rename_i h
    have hhalf : x - ⌊x⌋ ≤ 1 / 2 := h.elim le_of_lt fun h => le_of_eq h.1
    rw [abs_le]
    constructor <;> linarith
  · rename_i h
    have hhalf : 1 / 2 ≤ x - ⌊x⌋ := by
      by_contra hlow
      exact h (.inl (not_le.mp hlow))
    push_cast
    rw [abs_le]
    constructor <;> linarith

/-! ## 2. Rounding to 53 bits -/

/-- The distance of two neighbours of 53 bits at `x`, for `x` at least one. -/
def ulp (x : ℚ) : ℚ := 2 ^ ((Nat.log2 ⌊x⌋.toNat : ℤ) - 52)

/-- The number of 53 bits next to `x`, for `x` at least one, or zero. -/
def binary64 (x : ℚ) : ℚ := roundHalfEven (x / ulp x) * ulp x

theorem ulp_pos (x : ℚ) : 0 < ulp x := zpow_pos (by norm_num) _

/-- **The rounding is off by half a distance at most.** -/
theorem abs_binary64_sub (x : ℚ) : |binary64 x - x| ≤ ulp x / 2 := by
  have hpos := ulp_pos x
  have hround := abs_roundHalfEven_sub (x / ulp x)
  have hx : binary64 x - x = ((roundHalfEven (x / ulp x) : ℚ) - x / ulp x) * ulp x := by
    unfold binary64
    field_simp
  calc |binary64 x - x| = |(roundHalfEven (x / ulp x) : ℚ) - x / ulp x| * ulp x := by
        rw [hx, abs_mul, abs_of_pos hpos]
    _ ≤ 1 / 2 * ulp x := mul_le_mul_of_nonneg_right hround hpos.le
    _ = ulp x / 2 := by ring

/-- A bound on the distance. -/
theorem ulp_le {x : ℚ} {k : ℕ} (h : x < 2 ^ (k + 1)) : ulp x ≤ 2 ^ ((k : ℤ) - 52) := by
  have hlog : Nat.log2 ⌊x⌋.toNat ≤ k := by
    by_cases hzero : ⌊x⌋.toNat = 0
    · rw [hzero]
      simp
    · have hfloor : ⌊x⌋ < 2 ^ (k + 1) := by
        have hlt : (⌊x⌋ : ℚ) < 2 ^ (k + 1) := lt_of_le_of_lt (Int.floor_le x) h
        exact_mod_cast hlt
      have hnat : ⌊x⌋.toNat < 2 ^ (k + 1) := by
        have hcast : ((2 : ℤ) ^ (k + 1)) = ((2 ^ (k + 1) : ℕ) : ℤ) := by push_cast; rfl
        omega
      have hlt := (Nat.log2_lt hzero).mpr hnat
      omega
  unfold ulp
  exact zpow_le_zpow_right₀ (by norm_num) (by omega)

/-- **What has 53 bits is not rounded.** -/
theorem binary64_natCast {n : ℕ} (h : n < 2 ^ 53) : binary64 n = n := by
  have hfloor : ⌊(n : ℚ)⌋.toNat = n := by simp
  have hlog : Nat.log2 n ≤ 52 := by
    by_cases hzero : n = 0
    · rw [hzero]
      simp
    · have hlt := (Nat.log2_lt hzero).mpr h
      omega
  have hexp : (Nat.log2 n : ℤ) - 52 = -((52 - Nat.log2 n : ℕ) : ℤ) := by omega
  have hulp : ulp (n : ℚ) = ((2 : ℚ) ^ (52 - Nat.log2 n : ℕ))⁻¹ := by
    unfold ulp
    rw [hfloor, hexp, zpow_neg, zpow_natCast]
  have hmantissa : (n : ℚ) / ulp n = ((n * 2 ^ (52 - Nat.log2 n : ℕ) : ℤ) : ℚ) := by
    rw [hulp, div_inv_eq_mul]
    push_cast
    rfl
  unfold binary64
  rw [hmantissa, roundHalfEven_intCast, ← hmantissa]
  exact div_mul_cancel₀ _ (ulp_pos _).ne'

/-- **The ceiling of a rounded number**, where the rounding reaches no integer. -/
theorem ceil_binary64 {x : ℚ} {q : ℤ} (hlow : q + ulp x / 2 < x) (hhigh : x + ulp x / 2 ≤ q + 1) :
    ⌈binary64 x⌉ = q + 1 := by
  obtain ⟨hge, hle⟩ := abs_le.mp (abs_binary64_sub x)
  rw [Int.ceil_eq_iff]
  push_cast
  constructor <;> linarith

end Transmitic.Lib
