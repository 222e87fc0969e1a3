import Mathlib

/-!
# Interpolation in whole steps

A point a number of equal parts of the way from one bound to another, rounded down to an
integer: it stays between the bounds, follows the parts, and is less than one below the
exact point.
-/

namespace OpenServo.Interpolation

variable {lo hi n k k' : ℤ}

/-- `k` of `n` parts of the way from `lo` to `hi`, rounded down. -/
def point (lo hi n k : ℤ) : ℤ := lo + (hi - lo) * k / n

theorem lo_le_point (hle : lo ≤ hi) (hn : 0 < n) (hk : 0 ≤ k) : lo ≤ point lo hi n k := by
  have hspan : 0 ≤ hi - lo := sub_nonneg.mpr hle
  exact le_add_of_nonneg_right (Int.ediv_nonneg (mul_nonneg hspan hk) hn.le)

theorem point_le_hi (hle : lo ≤ hi) (hn : 0 < n) (hkn : k ≤ n) : point lo hi n k ≤ hi := by
  have hspan : 0 ≤ hi - lo := sub_nonneg.mpr hle
  have hpart : (hi - lo) * k / n ≤ hi - lo := by
    calc
      (hi - lo) * k / n ≤ (hi - lo) * n / n :=
        Int.ediv_le_ediv hn (mul_le_mul_of_nonneg_left hkn hspan)
      _ = hi - lo := Int.mul_ediv_cancel _ hn.ne'
  rw [point]
  omega

theorem point_mono (hle : lo ≤ hi) (hn : 0 < n) (h : k ≤ k') :
    point lo hi n k ≤ point lo hi n k' := by
  have hspan : 0 ≤ hi - lo := sub_nonneg.mpr hle
  exact Int.add_le_add_left (Int.ediv_le_ediv hn (mul_le_mul_of_nonneg_left h hspan)) lo

section

variable {K : Type*} [Field K] [LinearOrder K] [IsStrictOrderedRing K]

/-- The exact point. -/
def exact (K : Type*) [Field K] (lo hi n k : ℤ) : K := lo + (hi - lo) * k / n

theorem point_le_exact (hn : 0 < n) : (point lo hi n k : K) ≤ exact K lo hi n k := by
  have hpos : (0 : K) < n := Int.cast_pos.mpr hn
  have hpart : ((hi - lo) * k / n * n : ℤ) ≤ (hi - lo) * k := Int.ediv_mul_le _ hn.ne'
  rw [point, exact, Int.cast_add, add_le_add_iff_left, le_div_iff₀ hpos]
  exact_mod_cast hpart

theorem exact_lt_point_add_one (hn : 0 < n) :
    exact K lo hi n k < (point lo hi n k : K) + 1 := by
  have hpos : (0 : K) < n := Int.cast_pos.mpr hn
  have hpart : (hi - lo) * k < ((hi - lo) * k / n + 1) * n := Int.lt_ediv_add_one_mul_self _ hn
  rw [point, exact, Int.cast_add, add_assoc, add_lt_add_iff_left, div_lt_iff₀ hpos]
  exact_mod_cast hpart

end

end OpenServo.Interpolation
