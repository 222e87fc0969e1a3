import Mathlib

/-!
# Lines known by their edges

A two-level or many-level line is recorded as its edges: the instants at which it
changes, each with the level it changes to.  The level at an instant is that of the
latest edge.  A line that shows a string of symbols, each for the same time, gives them
back wherever it is sampled within them.
-/

namespace OpenServo.Waveform

structure Edge (τ ℓ : Type*) where
  time : τ
  level : ℓ
  deriving DecidableEq, Repr

section

variable {τ ℓ : Type*} [LinearOrder τ] {idle : ℓ} {es pre post : List (Edge τ ℓ)} {t : τ}

/-- The level after the latest edge at or before `t`; `idle` before any. -/
def levelAt (idle : ℓ) : List (Edge τ ℓ) → τ → ℓ
  | [], _ => idle
  | e :: es, t => if e.time ≤ t then levelAt e.level es t else idle

theorem levelAt_eq_getLast? :
    levelAt idle es t =
      ((es.takeWhile fun e => decide (e.time ≤ t)).getLast?.map Edge.level).getD idle := by
  induction es generalizing idle with
  | nil => rfl
  | cons e es ih =>
      by_cases hfirst : e.time ≤ t
      · have htake : (e :: es).takeWhile (fun e => decide (e.time ≤ t)) =
            e :: es.takeWhile fun e => decide (e.time ≤ t) :=
          List.takeWhile_cons_of_pos (by simpa using hfirst)
        rw [levelAt, if_pos hfirst, ih, htake, List.getLast?_cons, Option.map_some,
          Option.getD_some]
        cases (es.takeWhile fun e => decide (e.time ≤ t)).getLast? <;> rfl
      · have htake : (e :: es).takeWhile (fun e => decide (e.time ≤ t)) = [] :=
          List.takeWhile_cons_of_neg (by simpa using hfirst)
        rw [levelAt, if_neg hfirst, htake]
        rfl

/-- What came before only leaves its level. -/
theorem levelAt_append_of_le (h : ∀ e ∈ pre, e.time ≤ t) :
    levelAt idle (pre ++ es) t = levelAt (levelAt idle pre t) es t := by
  induction pre generalizing idle with
  | nil => rfl
  | cons e pre ih =>
      have hfirst := h e List.mem_cons_self
      rw [List.cons_append, levelAt, levelAt, if_pos hfirst, if_pos hfirst]
      exact ih fun e he => h e (List.mem_cons_of_mem _ he)

theorem levelAt_of_lt (h : ∀ e ∈ post, t < e.time) : levelAt idle post t = idle := by
  cases post with
  | nil => rfl
  | cons e post => rw [levelAt, if_neg (not_le.mpr (h e List.mem_cons_self))]

/-- What comes later does not show yet. -/
theorem levelAt_append_of_lt (h : ∀ e ∈ post, t < e.time) :
    levelAt idle (es ++ post) t = levelAt idle es t := by
  induction es generalizing idle with
  | nil => exact levelAt_of_lt h
  | cons e es ih =>
      rw [List.cons_append, levelAt, levelAt]
      split
      · exact ih
      · rfl

end

section

variable {τ ℓ : Type*} [AddCommGroup τ] [DecidableEq ℓ] {level : ℓ} {t b at' : τ}
  {symbols : List ℓ}

/-- The edges of a line that shows each symbol for `b`, the first from `t` on, and came
in at `level`. -/
def edgesOf (level : ℓ) (t b : τ) : List ℓ → List (Edge τ ℓ)
  | [] => []
  | symbol :: symbols =>
      if symbol ≠ level then ⟨t, symbol⟩ :: edgesOf symbol (t + b) b symbols
      else edgesOf level (t + b) b symbols

/-- A line without edges stays where it came in. -/
theorem eq_of_edgesOf_eq_nil (h : edgesOf level t b symbols = []) :
    ∀ symbol ∈ symbols, symbol = level := by
  induction symbols generalizing t with
  | nil => exact fun _ hmem => absurd hmem List.not_mem_nil
  | cons symbol symbols ih =>
      rw [edgesOf] at h
      split at h
      · cases h
      · rename_i hsame
        intro other hmem
        rcases List.mem_cons.mp hmem with rfl | hmem
        · exact not_not.mp hsame
        · exact ih h other hmem

variable [LinearOrder τ] [IsOrderedAddMonoid τ]

theorem mem_edgesOf (hb : 0 ≤ b) {e : Edge τ ℓ} (he : e ∈ edgesOf level t b symbols) :
    t ≤ e.time ∧ e.time + b ≤ t + symbols.length • b := by
  induction symbols generalizing level t with
  | nil => cases he
  | cons symbol symbols ih =>
      have hspan : t + (symbol :: symbols).length • b = t + b + symbols.length • b := by
        rw [List.length_cons, succ_nsmul', add_assoc]
      have hlater : t ≤ t + b := le_add_of_nonneg_right hb
      have hrest : 0 ≤ symbols.length • b := nsmul_nonneg hb _
      rw [hspan]
      rw [edgesOf] at he
      split at he
      · rcases List.mem_cons.mp he with rfl | he
        · exact ⟨le_rfl, le_add_of_nonneg_right hrest⟩
        · obtain ⟨hlow, hhigh⟩ := ih he
          exact ⟨hlater.trans hlow, hhigh⟩
      · obtain ⟨hlow, hhigh⟩ := ih he
        exact ⟨hlater.trans hlow, hhigh⟩

theorem edgesOf_pairwise (hb : 0 ≤ b) :
    (edgesOf level t b symbols).Pairwise fun e f => e.time ≤ f.time := by
  induction symbols generalizing level t with
  | nil => exact List.Pairwise.nil
  | cons symbol symbols ih =>
      rw [edgesOf]
      split
      · refine List.pairwise_cons.mpr ⟨fun e he => ?_, ih⟩
        exact (le_add_of_nonneg_right hb).trans (mem_edgesOf hb he).1
      · exact ih

/-- Sampled within a symbol's time, the line shows the symbol. -/
theorem levelAt_edgesOf (hb : 0 ≤ b) {k : ℕ} (hk : k < symbols.length) (hlow : t + k • b ≤ at')
    (hhigh : at' < t + (k + 1) • b) :
    levelAt level (edgesOf level t b symbols) at' = symbols[k] := by
  induction symbols generalizing level t k with
  | nil => exact absurd hk (Nat.not_lt_zero k)
  | cons symbol symbols ih =>
      have hstart : t ≤ at' := (le_add_of_nonneg_right (nsmul_nonneg hb k)).trans hlow
      have hskip : levelAt level (edgesOf level t b (symbol :: symbols)) at' =
          levelAt symbol (edgesOf symbol (t + b) b symbols) at' := by
        rw [edgesOf]
        split
        · rw [levelAt, if_pos hstart]
        · rename_i hsame
          rw [not_not.mp hsame]
      rw [hskip]
      cases k with
      | zero =>
          rw [zero_add, one_nsmul] at hhigh
          exact levelAt_of_lt fun e he => hhigh.trans_le (mem_edgesOf hb he).1
      | succ k =>
          rw [succ_nsmul', ← add_assoc] at hlow
          rw [succ_nsmul', ← add_assoc] at hhigh
          exact ih (Nat.lt_of_succ_lt_succ hk) hlow hhigh

end

end OpenServo.Waveform
