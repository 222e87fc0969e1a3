import Mathlib.Algebra.Order.Archimedean.Basic
import Mathlib.Algebra.Order.Group.Abs

/-!
# Railed pursuit

A controller that walks toward a target, moves by at most one stride a turn
and may not leave its rails.  However far it starts it comes to rest, at the
point of the rails closest to the target.
-/

namespace OpenServo.Pursuit

variable {α : Type*} [AddCommGroup α] [LinearOrder α]

/-- The point within `bound` of zero that is closest to `x`. -/
def clamp (bound x : α) : α := max (-bound) (min bound x)

/-- One turn: at most a stride toward the target, never off the rails. -/
def pursue (rail stride target place : α) : α :=
  clamp rail (place + clamp stride (target - place))

variable [IsOrderedAddMonoid α] {rail stride target place : α}

theorem abs_clamp_le (hbound : 0 ≤ rail) (x : α) : |clamp rail x| ≤ rail := by
  rw [abs_le]
  constructor
  · exact le_max_left _ _
  · exact max_le (neg_le_self hbound) (min_le_left _ _)

theorem clamp_eq_self {x : α} (hx : |x| ≤ rail) : clamp rail x = x := by
  obtain ⟨hlow, hhigh⟩ := abs_le.mp hx
  rw [clamp, min_eq_right hhigh, max_eq_right hlow]

/-- Within the rails, the pursuit of a target is the pursuit of the closest
point the rails allow. -/
theorem pursue_eq (hstride : 0 ≤ stride) (hplace : |place| ≤ rail) :
    pursue rail stride target place = place + clamp stride (clamp rail target - place) := by
  obtain ⟨hlow, hhigh⟩ := abs_le.mp hplace
  unfold pursue clamp
  grind

theorem abs_pursue_le (hrail : 0 ≤ rail) : |pursue rail stride target place| ≤ rail :=
  abs_clamp_le hrail _

/-- A stride is taken off the gap, or the gap is closed. -/
theorem gap_pursue (hstride : 0 ≤ stride) (hplace : |place| ≤ rail) :
    |clamp rail target - pursue rail stride target place| =
      max 0 (|clamp rail target - place| - stride) := by
  have hleft : ∀ gap : α, |gap - clamp stride gap| = max 0 (|gap| - stride) := by
    intro gap
    unfold clamp
    rcases abs_cases gap with ⟨habs, hsign⟩ | ⟨habs, hsign⟩ <;> grind
  rw [pursue_eq hstride hplace, ← sub_sub, hleft]

theorem gap_iterate (hstride : 0 ≤ stride) (hrail : 0 ≤ rail) (hplace : |place| ≤ rail) (n : ℕ) :
    |clamp rail target - (pursue rail stride target)^[n] place| ≤
      max 0 (|clamp rail target - place| - n • stride) ∧
    |(pursue rail stride target)^[n] place| ≤ rail := by
  induction n with
  | zero =>
      rw [zero_nsmul, sub_zero]
      exact ⟨le_max_right _ _, hplace⟩
  | succ n ih =>
      obtain ⟨hgap, hwithin⟩ := ih
      rw [Function.iterate_succ_apply']
      constructor
      · rw [gap_pursue hstride hwithin, succ_nsmul, ← sub_sub]
        rcases le_max_iff.mp hgap with hclosed | hopen
        · rw [max_eq_left ((sub_le_self _ hstride).trans hclosed)]
          exact le_max_left _ _
        · exact max_le_max le_rfl (sub_le_sub_right hopen _)
      · exact abs_pursue_le hrail

variable [Archimedean α]

/-- The pursuit comes to rest. -/
theorem comes_to_rest (hstride : 0 < stride) (hrail : 0 ≤ rail) (hplace : |place| ≤ rail) :
    ∃ n, ∀ m, n ≤ m → (pursue rail stride target)^[m] place = clamp rail target := by
  obtain ⟨n, hn⟩ := Archimedean.arch (|clamp rail target - place|) hstride
  refine ⟨n, fun m hm => ?_⟩
  have hreach : |clamp rail target - place| ≤ m • stride :=
    hn.trans (nsmul_le_nsmul_left hstride.le hm)
  have hgap := (@gap_iterate _ _ _ _ _ _ target _ hstride.le hrail hplace m).1
  rw [max_eq_left (sub_nonpos.mpr hreach)] at hgap
  have hclosed := abs_eq_zero.mp (le_antisymm hgap (abs_nonneg _))
  exact (sub_eq_zero.mp hclosed).symm

end OpenServo.Pursuit
