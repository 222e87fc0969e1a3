import Mathlib

/-!
# Machines that answer

A machine takes inputs one at a time and answers each of them.  What it owes to
whom is a state of its own, and a law says which answers may be given in which
state and what is owed afterwards.  A log of answers follows the law when every
answer of it does.
-/

namespace OpenServo.Ledger

variable {σ ι β τ : Type*}

/-- A log that follows `law`, from one state of the books to another. -/
inductive Follows (law : τ → β → τ → Prop) : τ → List β → τ → Prop where
  | nil (books : τ) : Follows law books [] books
  | cons {books next last : τ} {answer : β} {log : List β} :
      law books answer next → Follows law next log last → Follows law books (answer :: log) last

namespace Follows

variable {law : τ → β → τ → Prop} {books middle last : τ} {left right : List β}

theorem append (hleft : Follows law books left middle) (hright : Follows law middle right last) :
    Follows law books (left ++ right) last := by
  induction hleft with
  | nil => exact hright
  | cons hlaw _ ih => exact .cons hlaw (ih hright)

theorem split (h : Follows law books (left ++ right) last) :
    ∃ middle, Follows law books left middle ∧ Follows law middle right last := by
  induction left generalizing books with
  | nil => exact ⟨books, .nil books, h⟩
  | cons answer left ih =>
      cases h with
      | cons hlaw hrest =>
          obtain ⟨middle, hleft, hright⟩ := ih hrest
          exact ⟨middle, .cons hlaw hleft, hright⟩

/-- In books that only an answer of kind `closing` changes, either no such answer
comes, or one comes after answers that leave the books as they are. -/
theorem until_closing {closing : β → Prop} (hkeep : ∀ answer next, law books answer next →
    closing answer ∨ next = books) (h : Follows law books right last) :
    (last = books ∧ ∀ answer ∈ right, law books answer books) ∨
      ∃ waiting answer rest, right = waiting ++ answer :: rest ∧ closing answer ∧
        (∃ next, law books answer next ∧ Follows law next rest last) ∧
        ∀ answer ∈ waiting, law books answer books := by
  induction right generalizing last with
  | nil =>
      cases h
      exact Or.inl ⟨rfl, by simp⟩
  | cons answer right ih =>
      cases h with
      | @cons _ next _ _ _ hlaw hrest =>
          obtain hclosing | rfl := hkeep answer next hlaw
          · exact Or.inr ⟨[], answer, right, rfl, hclosing, ⟨next, hlaw, hrest⟩, by simp⟩
          · obtain ⟨hlast, hall⟩ | ⟨waiting, closer, rest, rfl, hclosing, hnext, hall⟩ := ih hrest
            · exact Or.inl ⟨hlast, by simpa using ⟨hlaw, hall⟩⟩
            · exact Or.inr ⟨answer :: waiting, closer, rest, rfl, hclosing, hnext,
                by simpa using ⟨hlaw, hall⟩⟩

/-- Books that only an answer of kind `opening` brings about were brought about by one,
and every answer since leaves them as they are. -/
theorem since_opening {opening : β → Prop} {target : τ} (hopen : ∀ earlier answer,
    law earlier answer target → opening answer ∨ earlier = target)
    (h : Follows law books left target) (hne : books ≠ target) :
    ∃ early answer waiting, left = early ++ answer :: waiting ∧ opening answer ∧
      ∀ answer ∈ waiting, law target answer target := by
  induction left using List.reverseRecOn with
  | nil =>
      cases h
      exact absurd rfl hne
  | append_singleton log answer ih =>
      obtain ⟨middle, hlog, hlast⟩ := h.split
      cases hlast with
      | cons hlaw hnil =>
          cases hnil
          obtain hopening | rfl := hopen middle answer hlaw
          · exact ⟨log, answer, [], rfl, hopening, by simp⟩
          · obtain ⟨early, opener, waiting, rfl, hopening, hall⟩ := ih hlog
            refine ⟨early, opener, waiting ++ [answer], by simp, hopening, ?_⟩
            intro kept hkept
            obtain hkept | hkept := List.mem_append.mp hkept
            · exact hall kept hkept
            · rw [List.mem_singleton.mp hkept]
              exact hlaw

end Follows

/-! ## Runs of a machine -/

variable (step : σ → ι → β × σ)

/-- The state after a list of inputs. -/
def final : σ → List ι → σ
  | state, [] => state
  | state, input :: inputs => final (step state input).2 inputs

/-- The answers along a list of inputs. -/
def outputs : σ → List ι → List β
  | _, [] => []
  | state, input :: inputs => (step state input).1 :: outputs (step state input).2 inputs

/-- How many of the inputs the machine was waiting for when they came. -/
def awaitedCount (awaited : σ → ι → Bool) : σ → List ι → ℕ
  | _, [] => 0
  | state, input :: inputs =>
      (if awaited state input then 1 else 0) + awaitedCount awaited (step state input).2 inputs

/-- A machine whose every step is lawful follows the law in every run. -/
theorem follows_outputs (law : τ → β → τ → Prop) (books : σ → τ) (inv : σ → Prop)
    (hstep : ∀ state input, inv state →
      law (books state) (step state input).1 (books (step state input).2) ∧
        inv (step state input).2)
    {state : σ} (hinit : inv state) (inputs : List ι) :
    Follows law (books state) (outputs step state inputs) (books (final step state inputs)) ∧
      inv (final step state inputs) := by
  induction inputs generalizing state with
  | nil => exact ⟨.nil _, hinit⟩
  | cons input inputs ih =>
      obtain ⟨hlaw, hinv⟩ := hstep state input hinit
      obtain ⟨hrest, hlast⟩ := ih hinv
      exact ⟨.cons hlaw hrest, hlast⟩

/-- A machine whose awaited inputs use up a rank, and whose other inputs never
raise it, answers before more awaited inputs have come than the rank. -/
theorem exists_output_of_rank (inv active : σ → Prop) {rank : σ → ℕ} {awaited : σ → ι → Bool}
    {closing : β → Prop} (hpos : ∀ state, inv state → active state → 0 < rank state)
    (hstep : ∀ state input, inv state → active state →
      inv (step state input).2 ∧ (closing (step state input).1 ∨
        active (step state input).2 ∧
          rank (step state input).2 + (if awaited state input then 1 else 0) ≤ rank state))
    {state : σ} (hinit : inv state) (hactive : active state) {inputs : List ι}
    (henough : rank state ≤ awaitedCount step awaited state inputs) :
    ∃ answer ∈ outputs step state inputs, closing answer := by
  induction inputs generalizing state with
  | nil =>
      have hrank := hpos state hinit hactive
      simp only [awaitedCount] at henough
      omega
  | cons input inputs ih =>
      obtain ⟨hinv, hclosing | ⟨hstill, hrank⟩⟩ := hstep state input hinit hactive
      · exact ⟨_, List.mem_cons_self, hclosing⟩
      · simp only [awaitedCount] at henough
        obtain ⟨answer, hmem, hclosing⟩ := ih hinv hstill (by omega)
        exact ⟨answer, List.mem_cons_of_mem _ hmem, hclosing⟩

end OpenServo.Ledger
