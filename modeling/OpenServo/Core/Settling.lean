import Mathlib

/-!
# Coming to rest

A map that lowers a measure whenever it moves comes to rest.  The gap a first-order
filter has still to close is such a map: each turn takes the `n`-th part of it, rounded
down.  Rounding down favours one side: a negative gap closes, a positive one comes to
rest as soon as it is shorter than `n`.
-/

namespace OpenServo.Settling

section

variable {α : Type*} {f : α → α}

theorem exists_rest (measure : α → ℕ) (hmoves : ∀ x, f x ≠ x → measure (f x) < measure x)
    (x : α) : ∃ n rest, f rest = rest ∧ ∀ m, n ≤ m → f^[m] x = rest := by
  induction hmeasure : measure x using Nat.strong_induction_on generalizing x with
  | h size ih =>
      by_cases hfixed : f x = x
      · exact ⟨0, x, hfixed, fun m _ => Function.iterate_fixed hfixed m⟩
      · obtain ⟨n, rest, hrest, hends⟩ := ih _ (hmeasure ▸ hmoves x hfixed) (f x) rfl
        refine ⟨n + 1, rest, hrest, fun m hm => ?_⟩
        obtain ⟨m, rfl⟩ : ∃ k, m = k + 1 := ⟨m - 1, by omega⟩
        exact hends m (by omega)

end

variable {n gap : ℤ}

/-- What is left of a gap after its `n`-th part has been taken off. -/
def ease (n gap : ℤ) : ℤ := gap - gap / n

theorem ease_of_nonneg (hn : 0 < n) (hgap : 0 ≤ gap) : 0 ≤ ease n gap ∧ ease n gap ≤ gap := by
  have hpart : gap / n ≤ gap := Int.ediv_le_self n hgap
  have hpos : 0 ≤ gap / n := Int.ediv_nonneg hgap hn.le
  rw [ease]
  omega

theorem ease_of_neg (hn : 0 < n) (hgap : gap < 0) : gap < ease n gap ∧ ease n gap ≤ 0 := by
  have hneg : gap / n < 0 := Int.ediv_neg_of_neg_of_pos hgap hn
  have hpart : gap ≤ gap / n := by
    rw [Int.le_ediv_iff_mul_le hn]
    have hscale : gap * n ≤ gap * 1 := mul_le_mul_of_nonpos_left hn hgap.le
    rwa [mul_one] at hscale
  rw [ease]
  omega

theorem ease_of_lt (hgap : 0 ≤ gap) (hlt : gap < n) : ease n gap = gap := by
  rw [ease, Int.ediv_eq_zero_of_lt hgap hlt, sub_zero]

/-- A gap no shorter than `n` is not brought below `n - 1`. -/
theorem ease_of_le (hn : 0 < n) (hle : n ≤ gap) : n - 1 ≤ ease n gap ∧ ease n gap < gap := by
  have hpart : 1 ≤ gap / n := by rwa [Int.le_ediv_iff_mul_le hn, one_mul]
  have hsplit : n * (gap / n) + gap % n = gap := Int.mul_ediv_add_emod gap n
  have hrem : 0 ≤ gap % n := Int.emod_nonneg gap hn.ne'
  have hrest : 0 ≤ (n - 1) * (gap / n - 1) := mul_nonneg (by omega) (by omega)
  rw [ease]
  constructor
  · linarith only [hsplit, hrem, hrest]
  · omega

theorem ease_eq_self_iff (hn : 0 < n) : ease n gap = gap ↔ 0 ≤ gap ∧ gap < n := by
  constructor
  · intro hfixed
    constructor
    · by_contra hneg
      have hmoved := (ease_of_neg hn (not_le.mp hneg)).1
      omega
    · by_contra hge
      have hmoved := (ease_of_le hn (not_lt.mp hge)).2
      omega
  · rintro ⟨hgap, hlt⟩
    exact ease_of_lt hgap hlt

/-- Where a gap comes to rest. -/
def rest (n gap : ℤ) : ℤ := max 0 (min gap (n - 1))

theorem rest_ease (hn : 0 < n) : rest n (ease n gap) = rest n gap := by
  rcases lt_or_ge gap 0 with hneg | hgap
  · have hnext := ease_of_neg hn hneg
    simp only [rest]
    omega
  · rcases lt_or_ge gap n with hlt | hle
    · rw [ease_of_lt hgap hlt]
    · have hnext := ease_of_le hn hle
      simp only [rest]
      omega

theorem ease_rests (hn : 0 < n) (gap : ℤ) :
    ∃ k, ∀ m, k ≤ m → (ease n)^[m] gap = rest n gap := by
  have hmoves : ∀ d, ease n d ≠ d → (ease n d).natAbs < d.natAbs := by
    intro d hmoved
    rcases lt_or_ge d 0 with hneg | hd
    · have hnext := ease_of_neg hn hneg
      omega
    · have hnext := ease_of_nonneg hn hd
      omega
  obtain ⟨k, last, hfixed, hends⟩ := exists_rest Int.natAbs hmoves gap
  refine ⟨k, fun m hm => ?_⟩
  have hkept : ∀ m, rest n ((ease n)^[m] gap) = rest n gap := by
    intro m
    induction m with
    | zero => rfl
    | succ m ih => rw [Function.iterate_succ_apply', rest_ease hn, ih]
  obtain ⟨hlast, hlt⟩ := (ease_eq_self_iff hn).mp hfixed
  have hself : rest n last = last := by
    simp only [rest]
    omega
  rw [hends m hm, ← hkept m, hends m hm, hself]

end OpenServo.Settling
