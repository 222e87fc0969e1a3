import OpenServo.Core.RingQueue

/-!
# Overwritten rings

A producer writes entry after entry around a ring and waits for nobody.  The
ring then holds the newest of all that was written, each entry in the place its
number has in the ring, until it is written over one lap later.
-/

namespace OpenServo

variable {β : Type*} {cap : ℕ} {ring hist : List β}

/-- The ring after `hist` was written around it: what is less than a lap old is in its place. -/
structure Retains (cap : ℕ) (ring hist : List β) : Prop where
  size : ring.length = cap
  newest : ∀ i, i < hist.length → hist.length ≤ i + cap → ring[i % cap]? = hist[i]?

namespace Retains

theorem nil (hsize : ring.length = cap) : Retains cap ring [] :=
  ⟨hsize, fun _ hi => absurd hi (Nat.not_lt_zero _)⟩

/-- An entry more takes the place of the one a lap before it. -/
theorem record (h : Retains cap ring hist) (hpos : 0 < cap) (b : β) :
    Retains cap (ring.set (hist.length % cap) b) (hist ++ [b]) := by
  refine ⟨by rw [List.length_set, h.size], fun i hi hlap => ?_⟩
  rw [List.length_append, List.length_singleton] at hi hlap
  obtain hold | rfl : i < hist.length ∨ i = hist.length := by omega
  · have hne : i % cap ≠ hist.length % cap := RingQueue.place_ne hold (by omega)
    rw [List.getElem?_set_ne hne.symm, List.getElem?_append_left hold,
      h.newest i hold (by omega)]
  · have hplace : hist.length % cap < ring.length := by
      rw [h.size]
      exact Nat.mod_lt _ hpos
    rw [List.getElem?_set_self hplace, List.getElem?_concat_length]

/-- What is read at the place of an entry that is still there is the entry. -/
theorem entry [Inhabited β] (h : Retains cap ring hist) {i : ℕ} (hi : i < hist.length)
    (hlap : hist.length ≤ i + cap) : ring.getD (i % cap) default = hist.getD i default := by
  rw [List.getD_eq_getElem?_getD, List.getD_eq_getElem?_getD, h.newest i hi hlap]

end Retains

end OpenServo
