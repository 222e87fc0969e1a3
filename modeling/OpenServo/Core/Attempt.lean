import Mathlib.Logic.Basic

/-!
# Attempts

A stateful computation that may fail keeps the state it reached when it does:
what has been sent stays sent.  Failures pass through a sequence untouched, so
the errors a sequence never answers are those none of its parts answers.
-/

namespace OpenServo

universe u v w

def Attempt (σ : Type u) (ε : Type v) (α : Type w) := σ → Except ε α × σ

namespace Attempt

variable {σ : Type u} {ε : Type v} {α β : Type w}

protected def pure (value : α) : Attempt σ ε α := fun state => (.ok value, state)

def fail (err : ε) : Attempt σ ε α := fun state => (.error err, state)

protected def bind (act : Attempt σ ε α) (next : α → Attempt σ ε β) : Attempt σ ε β :=
  fun state =>
    match act state with
    | (.ok value, state) => next value state
    | (.error err, state) => (.error err, state)

instance : Monad (Attempt σ ε) where
  pure := Attempt.pure
  bind := Attempt.bind

variable {act : Attempt σ ε α} {next : α → Attempt σ ε β} {state state' : σ} {err : ε}

theorem bind_ok {value : α} (hact : act state = (.ok value, state')) :
    (act >>= next) state = next value state' := by
  change Attempt.bind act next state = _
  rw [Attempt.bind, hact]

theorem bind_error (hact : act state = (.error err, state')) :
    (act >>= next) state = (.error err, state') := by
  change Attempt.bind act next state = _
  rw [Attempt.bind, hact]

/-- A sequence fails in its first part, or in what follows its success. -/
theorem bind_eq_error (hfailed : (act >>= next) state = (.error err, state')) :
    act state = (.error err, state') ∨
      ∃ value middle, act state = (.ok value, middle) ∧
        next value middle = (.error err, state') := by
  rcases hact : act state with ⟨answer | value, middle⟩
  · left
    rw [bind_error hact] at hfailed
    obtain ⟨hanswer, rfl⟩ := Prod.mk.inj hfailed
    rw [Except.error.inj hanswer]
  · right
    rw [bind_ok hact] at hfailed
    exact ⟨value, middle, rfl, hfailed⟩

/-! ## Errors never answered -/

/-- From no state does the computation fail this way. -/
def Avoids (err : ε) (act : Attempt σ ε α) : Prop := ∀ state, (act state).1 ≠ .error err

theorem Avoids.pure (err : ε) (value : α) : Avoids err (pure value : Attempt σ ε α) := by
  intro state hfailed
  cases hfailed

theorem Avoids.fail {other : ε} (hne : other ≠ err) : Avoids err (fail other : Attempt σ ε α) := by
  intro state hfailed
  exact hne (Except.error.inj hfailed)

theorem Avoids.bind (hact : Avoids err act) (hnext : ∀ value, Avoids err (next value)) :
    Avoids err (act >>= next) := by
  intro state
  rcases hresult : act state with ⟨answer | value, middle⟩
  · rw [bind_error hresult]
    have hfirst := hact state
    rw [hresult] at hfirst
    exact fun hfailed => hfirst (congrArg Except.error (Except.error.inj hfailed))
  · rw [bind_ok hresult]
    exact hnext value middle

end Attempt

end OpenServo
