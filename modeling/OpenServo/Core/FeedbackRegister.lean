import Mathlib

/-!
# Linear feedback registers

A register over a module: a symbol is added to the state through a tap, and a linear step
follows.  Streams added symbol by symbol superpose, so what a disturbed stream leaves behind
is decided by the disturbance alone.
-/

namespace OpenServo

/-- A linear step, and the state a unit symbol adds before it. -/
structure FeedbackRegister (R V : Type*) [CommRing R] [AddCommGroup V] [Module R V] where
  step : V →ₗ[R] V
  tap : V

namespace FeedbackRegister

variable {R V : Type*} [CommRing R] [AddCommGroup V] [Module R V]
variable (reg : FeedbackRegister R V)

def feed (v : V) (symbols : List R) : V :=
  symbols.foldl (fun v a => reg.step (v + a • reg.tap)) v

@[simp] theorem feed_nil (v : V) : reg.feed v [] = v := rfl

@[simp] theorem feed_cons (v : V) (a : R) (symbols : List R) :
    reg.feed v (a :: symbols) = reg.feed (reg.step (v + a • reg.tap)) symbols := rfl

theorem feed_append (v : V) (left right : List R) :
    reg.feed v (left ++ right) = reg.feed (reg.feed v left) right :=
  List.foldl_append

/-! ## Superposition -/

theorem feed_add {left right : List R} (hlen : left.length = right.length) (v w : V) :
    reg.feed (v + w) (List.zipWith (· + ·) left right) = reg.feed v left + reg.feed w right := by
  induction left generalizing right v w with
  | nil =>
      rw [List.eq_nil_of_length_eq_zero hlen.symm]
      rfl
  | cons a left ih =>
      cases right with
      | nil => cases hlen
      | cons b right =>
          have hsum : v + w + (a + b) • reg.tap = (v + a • reg.tap) + (w + b • reg.tap) := by
            rw [add_smul]
            abel
          rw [List.zipWith_cons_cons, feed_cons, hsum, map_add]
          exact ih (Nat.succ_injective hlen) _ _

theorem feed_zeros (v : V) (n : ℕ) : reg.feed v (List.replicate n 0) = reg.step^[n] v := by
  induction n generalizing v with
  | zero => rfl
  | succ n ih =>
      rw [List.replicate_succ, feed_cons, zero_smul, add_zero, ih]
      rfl

/-! ## A conserved functional counts the symbols -/

theorem feed_conserved {φ : V →ₗ[R] R} (hstep : ∀ v, φ (reg.step v) = φ v) (v : V)
    (symbols : List R) : φ (reg.feed v symbols) = φ v + symbols.sum * φ reg.tap := by
  induction symbols generalizing v with
  | nil => rw [feed_nil, List.sum_nil, zero_mul, add_zero]
  | cons a symbols ih =>
      rw [feed_cons, ih, hstep, map_add, map_smul, List.sum_cons, smul_eq_mul, add_mul, add_assoc]

/-! ## Two symbols -/

/-- Two symbols a distance apart, in a stream of zeros. -/
def pair (before gap after : ℕ) (a b : R) : List R :=
  List.replicate before 0 ++ a :: (List.replicate gap 0 ++ b :: List.replicate after 0)

theorem iterate_smul (n : ℕ) (a : R) (v : V) : reg.step^[n] (a • v) = a • reg.step^[n] v := by
  induction n with
  | zero => rfl
  | succ n ih => rw [Function.iterate_succ_apply', ih, map_smul, Function.iterate_succ_apply']

theorem feed_pair (before gap after : ℕ) (a b : R) :
    reg.feed 0 (pair before gap after a b) =
      reg.step^[after + 1] (a • reg.step^[gap + 1] reg.tap + b • reg.tap) := by
  have hfirst : reg.step^[gap] (reg.step (a • reg.tap)) = a • reg.step^[gap + 1] reg.tap :=
    reg.iterate_smul (gap + 1) a reg.tap
  rw [pair, feed_append, feed_zeros, iterate_map_zero, feed_cons, zero_add, feed_append,
    feed_zeros, feed_cons, feed_zeros, hfirst]
  rfl

/-! ## A short stream -/

/-- The symbols laid along a ladder of states. -/
def packed : (ℕ → V) → List R → V
  | _, [] => 0
  | rung, a :: symbols => a • rung 0 + packed (fun k => rung (k + 1)) symbols

/-- Each rung falls to the one below, the first one from the tap. -/
structure Ladder (rung : ℕ → V) (height : ℕ) : Prop where
  tap : rung 0 = reg.tap
  falls : ∀ k, k + 1 < height → reg.step (rung (k + 1)) = rung k

variable {reg}

theorem step_packed {rung : ℕ → V} {symbols : List R}
    (hfalls : ∀ k < symbols.length, reg.step (rung (k + 1)) = rung k) :
    reg.step (packed (fun k => rung (k + 1)) symbols) = packed rung symbols := by
  induction symbols generalizing rung with
  | nil => exact map_zero _
  | cons a symbols ih =>
      have hrest := @ih (fun k => rung (k + 1)) (fun k hk => hfalls (k + 1) (by
        rw [List.length_cons]
        omega))
      rw [packed, packed, map_add, map_smul, hrest, hfalls 0 (Nat.succ_pos _)]

/-- A stream no longer than the ladder enters as if it had been added to the state at once. -/
theorem Ladder.feed {rung : ℕ → V} {height : ℕ} (ladder : reg.Ladder rung height) (v : V)
    {symbols : List R} (hlen : symbols.length ≤ height) :
    reg.feed v symbols = reg.step^[symbols.length] (v + packed rung symbols) := by
  induction symbols generalizing v with
  | nil => rw [feed_nil, packed, add_zero]; rfl
  | cons a symbols ih =>
      rw [List.length_cons] at hlen
      have hrest : reg.step (packed (fun k => rung (k + 1)) symbols) = packed rung symbols :=
        step_packed fun k hk => ladder.falls k (by omega)
      rw [feed_cons, ih _ (by omega), List.length_cons, Function.iterate_succ_apply, packed,
        ladder.tap, ← hrest, ← map_add, add_assoc]

end FeedbackRegister

end OpenServo
