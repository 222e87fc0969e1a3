import Mathlib

/-!
# Runs of a step function

A component is a total step function on its state; a run applies a list of
actions in order.  `Meets` says that every action of a run satisfies a
condition on the state it is taken in, and `Meets.invariant` is the induction
principle every safety statement of the development is proved with.
-/

namespace OpenServo.Transition

variable {σ α : Type*} (step : σ → α → σ)

/-- The state after a list of actions. -/
def run (state : σ) (actions : List α) : σ :=
  actions.foldl step state

/-- Every action satisfies `cond` in the state it is taken in. -/
def Meets (cond : σ → α → Prop) : σ → List α → Prop
  | _, [] => True
  | state, action :: actions =>
      cond state action ∧ Meets cond (step state action) actions

instance Meets.decidable (cond : σ → α → Prop) [∀ state action, Decidable (cond state action)] :
    ∀ (state : σ) (actions : List α), Decidable (Meets step cond state actions)
  | _, [] => .isTrue trivial
  | state, action :: actions =>
      haveI := Meets.decidable cond (step state action) actions
      inferInstanceAs (Decidable (_ ∧ _))

@[simp]
theorem run_nil (state : σ) : run step state [] = state := rfl

@[simp]
theorem run_cons (state : σ) (action : α) (actions : List α) :
    run step state (action :: actions) = run step (step state action) actions := rfl

theorem run_append (state : σ) (left right : List α) :
    run step state (left ++ right) = run step (run step state left) right := by
  simp [run]

theorem Meets.append {cond : σ → α → Prop} {state : σ} {left right : List α} :
    Meets step cond state (left ++ right) ↔
      Meets step cond state left ∧ Meets step cond (run step state left) right := by
  induction left generalizing state with
  | nil => simp [Meets]
  | cons action actions ih => simp [Meets, ih, and_assoc]

theorem Meets.mono {cond weaker : σ → α → Prop} {state : σ} {actions : List α}
    (hweaker : ∀ state action, cond state action → weaker state action)
    (hmeets : Meets step cond state actions) : Meets step weaker state actions := by
  induction actions generalizing state with
  | nil => trivial
  | cons action actions ih => exact ⟨hweaker _ _ hmeets.1, ih hmeets.2⟩

theorem Meets.congr {cond cond' : σ → α → Prop}
    (hiff : ∀ state action, cond state action ↔ cond' state action) (state : σ)
    (actions : List α) : Meets step cond state actions ↔ Meets step cond' state actions :=
  ⟨Meets.mono step fun state action => (hiff state action).mp,
    Meets.mono step fun state action => (hiff state action).mpr⟩

theorem Meets.and {cond cond' : σ → α → Prop} {state : σ} {actions : List α}
    (hleft : Meets step cond state actions) (hright : Meets step cond' state actions) :
    Meets step (fun state action => cond state action ∧ cond' state action) state actions := by
  induction actions generalizing state with
  | nil => trivial
  | cons action actions ih => exact ⟨⟨hleft.1, hright.1⟩, ih hleft.2 hright.2⟩

/-- What every conditioned step preserves holds after every conditioned run. -/
theorem Meets.invariant {cond : σ → α → Prop} (inv : σ → Prop)
    (hstep : ∀ state action, inv state → cond state action → inv (step state action))
    {state : σ} {actions : List α} (hinit : inv state)
    (hmeets : Meets step cond state actions) : inv (run step state actions) := by
  induction actions generalizing state with
  | nil => exact hinit
  | cons action actions ih => exact ih (hstep _ _ hinit hmeets.1) hmeets.2

/-- Under an invariant of the conditioned steps, what they guarantee holds of
every step of the run. -/
theorem Meets.forward {cond goal : σ → α → Prop} (inv : σ → Prop)
    (hstep : ∀ state action, inv state → cond state action → inv (step state action))
    (hgoal : ∀ state action, inv state → cond state action → goal state action)
    {state : σ} {actions : List α} (hinit : inv state)
    (hmeets : Meets step cond state actions) : Meets step goal state actions := by
  induction actions generalizing state with
  | nil => trivial
  | cons action actions ih =>
      exact ⟨hgoal _ _ hinit hmeets.1, ih (hstep _ _ hinit hmeets.1) hmeets.2⟩

/-- What an invariant of every step guarantees of a step holds of each step of a run. -/
theorem Meets.of_invariant {goal : σ → α → Prop} (inv : σ → Prop)
    (hstep : ∀ state action, inv state → inv (step state action))
    (hgoal : ∀ state action, inv state → goal state action)
    {state : σ} (hinit : inv state) (actions : List α) : Meets step goal state actions := by
  induction actions generalizing state with
  | nil => trivial
  | cons action actions ih => exact ⟨hgoal _ _ hinit, ih (hstep _ _ hinit)⟩

/-- A property that each step keeps exactly if it meets a condition holds all along a run
exactly if every step meets it. -/
theorem Meets.iff_always {cond : σ → α → Prop} (frame inv : σ → Prop)
    (hframe : ∀ state action, frame state → frame (step state action))
    (hstep : ∀ state action, frame state → inv state →
      (inv (step state action) ↔ cond state action))
    {state : σ} {actions : List α} (hin : frame state) (hinit : inv state) :
    (∀ done, done <+: actions → inv (run step state done)) ↔ Meets step cond state actions := by
  induction actions generalizing state with
  | nil =>
      refine ⟨fun _ => trivial, fun _ done hdone => ?_⟩
      rw [List.prefix_nil.mp hdone]
      exact hinit
  | cons action actions ih =>
      have hfirst := hstep state action hin hinit
      constructor
      · intro halways
        have hnext : inv (step state action) := halways [action] (by simp)
        refine ⟨hfirst.mp hnext, (ih (hframe _ _ hin) hnext).mp fun done hdone => ?_⟩
        exact halways (action :: done) (List.cons_prefix_cons.mpr ⟨rfl, hdone⟩)
      · rintro ⟨hcond, hrest⟩ done hdone
        cases done with
        | nil => exact hinit
        | cons head done =>
            obtain ⟨rfl, htail⟩ := List.cons_prefix_cons.mp hdone
            exact (ih (hframe _ _ hin) (hfirst.mpr hcond)).mpr hrest done htail

/-- A measure that every conditioned step raises counts the steps of a run. -/
theorem Meets.length_le {cond : σ → α → Prop} (measure : σ → ℕ)
    (hstep : ∀ state action, cond state action → measure state < measure (step state action))
    {state : σ} {actions : List α} (hmeets : Meets step cond state actions) :
    measure state + actions.length ≤ measure (run step state actions) := by
  induction actions generalizing state with
  | nil => exact le_rfl
  | cons action actions ih =>
      have hfirst := hstep _ _ hmeets.1
      have hrest := ih hmeets.2
      simp only [List.length_cons, run_cons]
      omega

/-- What every step preserves holds after every run. -/
theorem run_invariant (inv : σ → Prop)
    (hstep : ∀ state action, inv state → inv (step state action))
    {state : σ} (hinit : inv state) (actions : List α) :
    inv (run step state actions) := by
  induction actions generalizing state with
  | nil => exact hinit
  | cons action actions ih => exact ih (hstep _ _ hinit)

/-- Two machines that stay related step by step stay related over a run. -/
theorem run_simulation {τ : Type*} (step' : τ → α → τ) (rel : σ → τ → Prop)
    (hstep : ∀ left right action, rel left right → rel (step left action) (step' right action))
    {left : σ} {right : τ} (hinit : rel left right) (actions : List α) :
    rel (run step left actions) (run step' right actions) := by
  induction actions generalizing left right with
  | nil => exact hinit
  | cons action actions ih => exact ih (hstep _ _ _ hinit)

end OpenServo.Transition
