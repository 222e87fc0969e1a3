import Mathlib

/-!
# Fixed-capacity vectors

A growable sequence with a compile-time capacity: pushing past the capacity
fails and leaves the vector as it was, truncation always succeeds.  The bound
is a field of the structure, so no vector longer than its capacity exists.
-/

namespace OpenServo

structure BoundedVec (α : Type*) (cap : ℕ) where
  val : List α
  bound : val.length ≤ cap

namespace BoundedVec

variable {α : Type*} {cap : ℕ}

instance [DecidableEq α] : DecidableEq (BoundedVec α cap) := fun left right =>
  if h : left.val = right.val then
    .isTrue (by cases left; cases right; simp_all)
  else
    .isFalse (by rintro rfl; exact h rfl)

theorem ext_val {left right : BoundedVec α cap} (h : left.val = right.val) :
    left = right := by
  cases left
  cases right
  simp_all

def empty : BoundedVec α cap := ⟨[], Nat.zero_le _⟩

def length (v : BoundedVec α cap) : ℕ := v.val.length

/-- Append a whole slice, or fail without touching the vector. -/
def extend (v : BoundedVec α cap) (src : List α) : Option (BoundedVec α cap) :=
  if h : (v.val ++ src).length ≤ cap then some ⟨v.val ++ src, h⟩ else none

def push (v : BoundedVec α cap) (x : α) : Option (BoundedVec α cap) :=
  v.extend [x]

def truncate (v : BoundedVec α cap) (n : ℕ) : BoundedVec α cap :=
  ⟨v.val.take n, by
    have := v.bound
    simp only [List.length_take]
    omega⟩

@[simp]
theorem val_empty : (empty : BoundedVec α cap).val = [] := rfl

@[simp]
theorem val_truncate (v : BoundedVec α cap) (n : ℕ) :
    (v.truncate n).val = v.val.take n := rfl

theorem extend_eq_some {v w : BoundedVec α cap} {src : List α} :
    v.extend src = some w ↔ w.val = v.val ++ src := by
  constructor
  · intro h
    simp only [extend] at h
    split at h
    · simp only [Option.some.injEq] at h
      rw [← h]
    · exact absurd h (by simp)
  · intro h
    have hbound : (v.val ++ src).length ≤ cap := h ▸ w.bound
    simp only [extend, dif_pos hbound, Option.some.injEq]
    exact ext_val h.symm

theorem extend_eq_none {v : BoundedVec α cap} {src : List α} :
    v.extend src = none ↔ cap < v.val.length + src.length := by
  simp [extend, not_le]

theorem push_eq_some {v w : BoundedVec α cap} {x : α} :
    v.push x = some w ↔ w.val = v.val ++ [x] :=
  extend_eq_some

theorem push_eq_none {v : BoundedVec α cap} {x : α} :
    v.push x = none ↔ cap ≤ v.val.length := by
  rw [push, extend_eq_none, List.length_singleton]
  omega

/-- Truncating to the old length undoes any extension. -/
theorem truncate_of_extend {v w : BoundedVec α cap} {src : List α}
    (h : w.val = v.val ++ src) : w.truncate v.length = v := by
  apply ext_val
  simp [h, length]

end BoundedVec

end OpenServo
