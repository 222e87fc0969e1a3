import Mathlib

/-!
# Unambiguous encodings

Words that can be told off the front of any stream are told off a whole stream, one after
the other.  Messages under labels of one width are told apart by the label first.
-/

namespace OpenServo.Unambiguous

variable {α ι : Type*}

/-- Whatever follows, the word at the front of a stream is settled. -/
def PrefixFree (words : Set (List α)) : Prop :=
  ∀ u ∈ words, ∀ v ∈ words, ∀ s t, u ++ s = v ++ t → u = v

/-- Words whose length can be read off the front of a stream. -/
theorem prefixFree_of_length {words : Set (List α)} {size : List α → ℕ}
    (hsize : ∀ w ∈ words, ∀ rest, size (w ++ rest) = w.length) : PrefixFree words := by
  intro u hu v hv s t heq
  have hlen : u.length = v.length := by
    calc
      u.length = size (u ++ s) := (hsize u hu s).symm
      _ = size (v ++ t) := by rw [heq]
      _ = v.length := hsize v hv t
  exact (List.append_inj heq hlen).1

theorem PrefixFree.flatten_injective {words : Set (List α)} (hfree : PrefixFree words)
    (hsome : [] ∉ words) {left right : List (List α)} (hleft : ∀ w ∈ left, w ∈ words)
    (hright : ∀ w ∈ right, w ∈ words) (heq : left.flatten = right.flatten) : left = right := by
  have hstart : ∀ (u : List α) (rest : List (List α)), u ∈ words → (u :: rest).flatten ≠ [] := by
    intro u rest hu hnil
    rw [List.flatten_cons, List.append_eq_nil_iff] at hnil
    exact hsome (hnil.1 ▸ hu)
  induction left generalizing right with
  | nil =>
      cases right with
      | nil => rfl
      | cons v right => exact absurd heq.symm (hstart v right (hright v (by simp)))
  | cons u left ih =>
      cases right with
      | nil => exact absurd heq (hstart u left (hleft u (by simp)))
      | cons v right =>
          rw [List.flatten_cons, List.flatten_cons] at heq
          obtain rfl := hfree u (hleft u (by simp)) v (hright v (by simp)) _ _ heq
          rw [ih (fun w hw => hleft w (by simp [hw])) (fun w hw => hright w (by simp [hw]))
            (List.append_cancel_left heq)]

/-- A message: a role and that role's fields. -/
abbrev Message (fields : ι → Type*) := Σ role, fields role

theorem labelled_injective {fields : ι → Type*} {label : ι → List α} {width : ℕ}
    (hwidth : ∀ role, (label role).length = width) (hlabel : Function.Injective label)
    {body : (role : ι) → fields role → List α} (hbody : ∀ role, Function.Injective (body role)) :
    Function.Injective fun m : Message fields => label m.1 ++ body m.1 m.2 := by
  rintro ⟨role, x⟩ ⟨role', x'⟩ heq
  obtain ⟨hlabels, hbodies⟩ :=
    List.append_inj heq ((hwidth role).trans (hwidth role').symm)
  have hrole : role = role' := hlabel hlabels
  subst hrole
  exact congrArg (Sigma.mk role) (hbody role hbodies)

end OpenServo.Unambiguous
