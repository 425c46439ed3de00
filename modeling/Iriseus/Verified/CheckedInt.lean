import Mathlib.Algebra.Order.Ring.Int
import Mathlib.Algebra.Order.Floor.Defs
import Mathlib.Data.Rat.Floor
import Mathlib.Order.Bounds.Defs

/-!
# `int` arithmetic that does not overflow

Arithmetic on a signed 32-bit `int` is defined as long as the result is one:
`add?`, `sub?` and `mul?` give the result, or nothing on overflow.  Besides, the
conversion of a number to `int` and the mask `& ~1`.

## Main results

* `InRange.add?`, `InRange.sub?`, `InRange.mul?` — results in range are given.
* `isGreatest_maskLowBit` — masking gives the largest even number not above.
-/

namespace Iriseus.Verified.CheckedInt

/-! ## Checked operations -/

/-- A value of `int`. -/
def InRange (n : ℤ) : Prop := -2 ^ 31 ≤ n ∧ n < 2 ^ 31

instance (n : ℤ) : Decidable (InRange n) := inferInstanceAs (Decidable (_ ∧ _))

/-- The result of an operation, unless it overflows. -/
def result? (n : ℤ) : Option ℤ := if InRange n then some n else none

def add? (a b : ℤ) : Option ℤ := result? (a + b)

def sub? (a b : ℤ) : Option ℤ := result? (a - b)

def mul? (a b : ℤ) : Option ℤ := result? (a * b)

theorem InRange.add? {a b : ℤ} (h : InRange (a + b)) : CheckedInt.add? a b = some (a + b) :=
  if_pos h

theorem InRange.sub? {a b : ℤ} (h : InRange (a - b)) : CheckedInt.sub? a b = some (a - b) :=
  if_pos h

theorem InRange.mul? {a b : ℤ} (h : InRange (a * b)) : CheckedInt.mul? a b = some (a * b) :=
  if_pos h

/-! ## Truncation and the mask -/

/-- The conversion of a number to `int`: towards zero. -/
def truncate (x : ℚ) : ℤ := if 0 ≤ x then ⌊x⌋ else ⌈x⌉

/-- `n & ~1` -/
def maskLowBit (n : ℤ) : ℤ := n / 2 * 2

theorem truncate_of_nonneg {x : ℚ} (hx : 0 ≤ x) : truncate x = ⌊x⌋ := if_pos hx

/-- The largest even number that is not above. -/
theorem isGreatest_maskLowBit (n : ℤ) : IsGreatest {k : ℤ | k % 2 = 0 ∧ k ≤ n} (maskLowBit n) := by
  unfold maskLowBit
  constructor
  · change n / 2 * 2 % 2 = 0 ∧ n / 2 * 2 ≤ n
    omega
  · rintro k ⟨heven, hle⟩
    omega

theorem maskLowBit_le (n : ℤ) : maskLowBit n ≤ n := (isGreatest_maskLowBit n).1.2

theorem truncate_le {x : ℚ} {n : ℤ} (hx : 0 ≤ x) (hle : x ≤ n) : truncate x ≤ n := by
  rw [truncate_of_nonneg hx]
  exact_mod_cast (Int.floor_le x).trans hle

end Iriseus.Verified.CheckedInt
