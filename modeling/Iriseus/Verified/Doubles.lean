import Mathlib.Data.Int.Log
import Mathlib.Data.Rat.Floor
import Mathlib.Tactic.Linarith
import Mathlib.Tactic.Positivity
import Mathlib.Tactic.NormNum
import Mathlib.Tactic.GCongr

/-!
# Rounding to double precision

The result of an operation on doubles is its exact result rounded to the nearest
number with a significand of 53 bits, to the even one if two are equally near.
`toDouble` is this rounding for numbers in the range of doubles.

## Main results

* `abs_toDouble_sub_le` — the relative error of a rounded number.
* `floor_toDouble_le` — what is at most a little above a small integer does not
  get past it.
-/

namespace Iriseus.Verified.Doubles

/-- The nearest integer, the even one of two. -/
def roundHalfEven (x : ℚ) : ℤ :=
  if x - ⌊x⌋ < 1 / 2 then ⌊x⌋
  else if 1 / 2 < x - ⌊x⌋ then ⌊x⌋ + 1
  else if ⌊x⌋ % 2 = 0 then ⌊x⌋
  else ⌊x⌋ + 1

/-- The distance of the doubles next to `x`. -/
def ulp (x : ℚ) : ℚ := 2 ^ (max (Int.log 2 |x|) (-1022) - 52)

/-- `x` rounded to a double. -/
def toDouble (x : ℚ) : ℚ := roundHalfEven (x / ulp x) * ulp x

theorem abs_roundHalfEven_sub_le (x : ℚ) : |(roundHalfEven x : ℚ) - x| ≤ 1 / 2 := by
  have hle := Int.floor_le x
  have hlt := Int.lt_floor_add_one x
  unfold roundHalfEven
  split
  · rw [abs_le]
    constructor <;> linarith
  · split
    · push_cast
      rw [abs_le]
      constructor <;> linarith
    · split
      · rw [abs_le]
        constructor <;> linarith
      · push_cast
        rw [abs_le]
        constructor <;> linarith

theorem ulp_pos (x : ℚ) : 0 < ulp x := zpow_pos two_pos _

/-- Half the distance of the doubles next to a number that is not too small. -/
theorem ulp_le {x : ℚ} (hx : 2 ^ (-1022 : ℤ) ≤ x) : ulp x ≤ x / 2 ^ 52 := by
  have hpos : 0 < x := lt_of_lt_of_le (zpow_pos two_pos _) hx
  have hlog : (-1022 : ℤ) ≤ Int.log 2 x := by
    rw [← Int.zpow_le_iff_le_log Nat.one_lt_two hpos]
    exact_mod_cast hx
  have hself : ((2 : ℕ) : ℚ) ^ Int.log 2 x ≤ x := Int.zpow_log_le_self Nat.one_lt_two hpos
  rw [ulp, abs_of_pos hpos, max_eq_left hlog, zpow_sub₀ two_ne_zero]
  norm_cast at hself ⊢
  gcongr

/-- **The relative error of a rounded number.** -/
theorem abs_toDouble_sub_le {x : ℚ} (hx : 2 ^ (-1022 : ℤ) ≤ x) :
    |toDouble x - x| ≤ x / 2 ^ 53 := by
  have hulp := ulp_pos x
  have hsplit : toDouble x - x = (roundHalfEven (x / ulp x) - x / ulp x) * ulp x := by
    rw [toDouble, sub_mul, div_mul_cancel₀ _ hulp.ne']
  calc |toDouble x - x| = |(roundHalfEven (x / ulp x) : ℚ) - x / ulp x| * ulp x := by
        rw [hsplit, abs_mul, abs_of_pos hulp]
    _ ≤ 1 / 2 * (x / 2 ^ 52) := by
        gcongr
        · exact abs_roundHalfEven_sub_le _
        · exact ulp_le hx
    _ = x / 2 ^ 53 := by ring

theorem toDouble_le {x : ℚ} (hx : 2 ^ (-1022 : ℤ) ≤ x) : toDouble x ≤ x * (1 + 1 / 2 ^ 53) := by
  have herror := (abs_le.mp (abs_toDouble_sub_le hx)).2
  linarith

theorem le_toDouble {x : ℚ} (hx : 2 ^ (-1022 : ℤ) ≤ x) : x * (1 - 1 / 2 ^ 53) ≤ toDouble x := by
  have herror := (abs_le.mp (abs_toDouble_sub_le hx)).1
  linarith

theorem toDouble_nonneg {x : ℚ} (hx : 0 ≤ x) : 0 ≤ toDouble x := by
  have hulp := ulp_pos x
  have hfloor : 0 ≤ ⌊x / ulp x⌋ := Int.floor_nonneg.mpr (div_nonneg hx hulp.le)
  have hround : 0 ≤ roundHalfEven (x / ulp x) := by
    unfold roundHalfEven
    (repeat' split) <;> omega
  exact mul_nonneg (by exact_mod_cast hround) hulp.le

/-- The quotients of two numbers of the size of an `int` are not too small. -/
theorem normal_of_le {x : ℚ} (hx : 1 / 2 ^ 64 ≤ x) : (2 : ℚ) ^ (-1022 : ℤ) ≤ x := by
  calc (2 : ℚ) ^ (-1022 : ℤ) ≤ 2 ^ (-64 : ℤ) := zpow_le_zpow_right₀ one_le_two (by norm_num)
    _ = 1 / 2 ^ 64 := by norm_num
    _ ≤ x := hx

/-- **Truncation after rounding.**  A number that is not more than the rounding
error of two operations above an `int` is not truncated to more than it. -/
theorem floor_toDouble_le {x : ℚ} {n : ℕ} (hn : n < 2 ^ 31) (hx : 2 ^ (-1022 : ℤ) ≤ x)
    (hle : x ≤ n * (1 + 1 / 2 ^ 52)) : ⌊toDouble x⌋₊ ≤ n := by
  have hn' : (n : ℚ) < 2 ^ 31 := by exact_mod_cast hn
  have hnonneg : 0 ≤ x := le_trans (zpow_pos two_pos _).le hx
  have hlt : toDouble x < ((n + 1 : ℕ) : ℚ) := by
    calc toDouble x ≤ x * (1 + 1 / 2 ^ 53) := toDouble_le hx
      _ ≤ n * (1 + 1 / 2 ^ 52) * (1 + 1 / 2 ^ 53) := by gcongr
      _ < ((n + 1 : ℕ) : ℚ) := by
          push_cast
          linarith
  exact Nat.lt_succ_iff.mp ((Nat.floor_lt (toDouble_nonneg hnonneg)).mpr hlt)

end Iriseus.Verified.Doubles
