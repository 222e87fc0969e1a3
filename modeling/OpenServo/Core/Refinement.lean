import OpenServo.Core.Ledger
import OpenServo.Core.Transition

/-!
# Refinement

An abstract machine is a relation that says how it may move under an action.  A
step function refines it along a relation of states if every step is matched by
a move; then every step of a run is a move between states related to those it
leads from and to.  A machine that answers refines another one if it answers the
same as long as the inputs meet what the abstract machine asks of them.
-/

namespace OpenServo.Transition

variable {σ τ α : Type*}

/-- Each step of a run whose steps are matched is a move of the abstract machine. -/
theorem Meets.matched (step : σ → α → σ) {moves : α → τ → τ → Prop} {rel : σ → τ → Prop}
    {inv : σ → Prop} (hinv : ∀ state action, inv state → inv (step state action))
    (hstep : ∀ state action here, inv state → rel state here →
      ∃ next, moves action here next ∧ rel (step state action) next)
    {state : σ} {first : τ} (hin : inv state) (hinit : rel state first) (actions : List α) :
    Meets step (fun state action => ∃ here next, rel state here ∧ moves action here next ∧
      rel (step state action) next) state actions := by
  refine Meets.of_invariant step (fun state => inv state ∧ ∃ here, rel state here) ?_ ?_
    ⟨hin, first, hinit⟩ actions
  · rintro state action ⟨hin, here, hrel⟩
    obtain ⟨next, -, hnext⟩ := hstep state action here hin hrel
    exact ⟨hinv state action hin, next, hnext⟩
  · rintro state action ⟨hin, here, hrel⟩
    obtain ⟨next, hmove, hnext⟩ := hstep state action here hin hrel
    exact ⟨here, next, hrel, hmove, hnext⟩

/-! ## Machines that answer -/

variable {β : Type*}

/-- Two machines that answer alike and stay related, step by step, do so over a run. -/
theorem outputs_refine {step : σ → α → β × σ} {step' : τ → α → β × τ} {cond : τ → α → Prop}
    (rel : σ → τ → Prop)
    (hstep : ∀ state here input, rel state here → cond here input →
      (step state input).1 = (step' here input).1 ∧ rel (step state input).2 (step' here input).2)
    {state : σ} {here : τ} (hinit : rel state here) {inputs : List α}
    (hmeets : Meets (fun here input => (step' here input).2) cond here inputs) :
    Ledger.outputs step state inputs = Ledger.outputs step' here inputs ∧
      rel (Ledger.final step state inputs) (Ledger.final step' here inputs) := by
  induction inputs generalizing state here with
  | nil => exact ⟨rfl, hinit⟩
  | cons input inputs ih =>
      obtain ⟨hanswer, hrel⟩ := hstep state here input hinit hmeets.1
      obtain ⟨hrest, hlast⟩ := ih hrel hmeets.2
      exact ⟨congrArg₂ List.cons hanswer hrest, hlast⟩

end OpenServo.Transition
