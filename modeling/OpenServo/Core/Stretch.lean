import Mathlib

/-!
# Stretches of a sequence

The values of a sequence from one index up to another, as a list: what a queue
holds when its producer and its consumer are both counted.
-/

namespace OpenServo

variable {α : Type*}

/-- The values of `seq` at `lo, …, hi - 1`. -/
def stretch (seq : ℕ → α) (lo hi : ℕ) : List α := (List.Ico lo hi).map seq

namespace stretch

variable (seq : ℕ → α) {lo mid hi : ℕ}

@[simp]
theorem length (lo hi : ℕ) : (stretch seq lo hi).length = hi - lo := by
  simp [stretch]

theorem eq_nil (h : hi ≤ lo) : stretch seq lo hi = [] := by
  rw [stretch, List.Ico.eq_nil_of_le h, List.map_nil]

theorem eq_nil_iff : stretch seq lo hi = [] ↔ hi ≤ lo := by
  rw [← List.length_eq_zero_iff, length]
  omega

theorem eq_cons (h : lo < hi) : stretch seq lo hi = seq lo :: stretch seq (lo + 1) hi := by
  rw [stretch, List.Ico.eq_cons h, List.map_cons, stretch]

theorem append (hlo : lo ≤ mid) (hhi : mid ≤ hi) :
    stretch seq lo mid ++ stretch seq mid hi = stretch seq lo hi := by
  rw [stretch, stretch, ← List.map_append, List.Ico.append_consecutive hlo hhi, stretch]

/-- The producer adds one value at the end. -/
theorem snoc (h : lo ≤ hi) : stretch seq lo hi ++ [seq hi] = stretch seq lo (hi + 1) := by
  have hlast : [seq hi] = stretch seq hi (hi + 1) := by
    rw [eq_cons seq (by omega), eq_nil seq le_rfl]
  rw [hlast, append seq h (by omega)]

/-- The consumer takes up to `count` values at the front. -/
theorem take (count : ℕ) (h : lo ≤ hi) :
    (stretch seq lo hi).take count = stretch seq lo (min hi (lo + count)) := by
  have hsplit := append seq (show lo ≤ min hi (lo + count) by omega) (min_le_left hi (lo + count))
  by_cases hall : hi ≤ lo + count
  · rw [min_eq_left hall, List.take_of_length_le (by rw [length]; omega)]
  · have hlen : (stretch seq lo (min hi (lo + count))).length = count := by
      rw [length]
      omega
    rw [← hsplit]
    exact List.take_left' hlen

theorem drop (count : ℕ) (h : lo ≤ hi) :
    (stretch seq lo hi).drop count = stretch seq (min hi (lo + count)) hi := by
  have hsplit := append seq (show lo ≤ min hi (lo + count) by omega) (min_le_left hi (lo + count))
  apply @List.append_cancel_left _ (stretch seq lo (min hi (lo + count)))
  rw [hsplit, ← take seq count h, List.take_append_drop]

end stretch

end OpenServo
