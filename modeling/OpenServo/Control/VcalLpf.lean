import OpenServo.Core.Settling
import OpenServo.Core.Transition

/-!
# The reference low-pass filter

The reference voltage is smoothed by a first-order filter that keeps six bits below the
ADC code and takes a 128th of the gap a sample, by an arithmetic shift.  The shift rounds
down, so a filter above its input comes down onto it and a filter below its input stops
short.
-/

namespace OpenServo.Control

open Settling Transition

structure VcalLpf where
  stateQ6 : Int32
  initialized : Bool
  deriving DecidableEq, Repr

/-- `(raw as i32) << 6`. -/
def q6 (raw : UInt16) : Int32 := raw.toUInt32.toInt32 <<< 6

namespace VcalLpf

def new : VcalLpf := ⟨0, false⟩

/-- `(self.state_q6 >> 6) as u16`. -/
def reading (lpf : VcalLpf) : UInt16 := (lpf.stateQ6 >>> 6).toUInt32.toUInt16

/-- One sample: the filtered code, and the filter after it. -/
def update (lpf : VcalLpf) (raw : UInt16) : UInt16 × VcalLpf :=
  let x := q6 raw
  let stateQ6 := if !lpf.initialized then x else lpf.stateQ6 + ((x - lpf.stateQ6) >>> 7)
  let lpf := ⟨stateQ6, true⟩
  (lpf.reading, lpf)

def feed (lpf : VcalLpf) (raw : UInt16) : VcalLpf := (lpf.update raw).2

/-! ## Machine integers -/

theorem toInt_shiftRight_7 (x : Int32) : (x >>> 7).toInt = x.toInt / 128 := by
  have hbits : (x >>> 7).toInt = x.toInt >>> (7 : ℕ) := BitVec.toInt_sshiftRight' (y := 7)
  rw [hbits, Int.shiftRight_eq_div_pow]
  rfl

theorem toInt_shiftRight_6 (x : Int32) : (x >>> 6).toInt = x.toInt / 64 := by
  have hbits : (x >>> 6).toInt = x.toInt >>> (6 : ℕ) := BitVec.toInt_sshiftRight' (y := 6)
  rw [hbits, Int.shiftRight_eq_div_pow]
  rfl

theorem toInt_q6 (raw : UInt16) : (q6 raw).toInt = 64 * raw.toNat := by
  have hlt := raw.toNat_lt
  have hbits : (q6 raw).toInt = ((raw.toUInt32.toNat <<< 6 % 2 ^ 32 : ℕ) : ℤ).bmod (2 ^ 32) :=
    BitVec.toInt_eq_toNat_bmod _
  have hshift : raw.toNat <<< 6 % 2 ^ 32 = 64 * raw.toNat := by
    rw [Nat.shiftLeft_eq]
    omega
  rw [hbits, UInt16.toNat_toUInt32, hshift]
  exact Int.bmod_eq_of_le (by omega) (by omega)

theorem toNat_toUInt32_of_nonneg {x : Int32} (h : 0 ≤ x.toInt) :
    (x.toUInt32.toNat : ℤ) = x.toInt := by
  have hbits : x.toInt = if 2 * x.toUInt32.toNat < 2 ^ 32 then (x.toUInt32.toNat : ℤ)
      else (x.toUInt32.toNat : ℤ) - (2 ^ 32 : ℕ) := BitVec.toInt_eq_toNat_cond _
  have hlt := x.toUInt32.toNat_lt
  split at hbits
  · exact hbits.symm
  · omega

/-! ## The gap to a held input -/

/-- The state stays below the widest sample. -/
structure Ranged (lpf : VcalLpf) : Prop where
  started : lpf.initialized = true
  low : 0 ≤ lpf.stateQ6.toInt
  high : lpf.stateQ6.toInt ≤ 64 * 65535

/-- How far the state is below an input, in the filter's sub-codes. -/
def gap (lpf : VcalLpf) (x : UInt16) : ℤ := 64 * x.toNat - lpf.stateQ6.toInt

theorem Ranged.toNat_reading {lpf : VcalLpf} (h : lpf.Ranged) (x : UInt16) :
    (lpf.reading.toNat : ℤ) = (64 * x.toNat - lpf.gap x) / 64 := by
  have hlow := h.low
  have hhigh := h.high
  have hshift := toInt_shiftRight_6 lpf.stateQ6
  have hword := toNat_toUInt32_of_nonneg (show 0 ≤ (lpf.stateQ6 >>> 6).toInt by omega)
  have hcode : lpf.reading.toNat = (lpf.stateQ6 >>> 6).toUInt32.toNat % 2 ^ 16 :=
    UInt32.toNat_toUInt16 _
  rw [gap]
  omega

/-- One sample takes the 128th part of the gap, rounded down. -/
theorem Ranged.feed {lpf : VcalLpf} (h : lpf.Ranged) (x : UInt16) :
    (lpf.feed x).Ranged ∧ (lpf.feed x).gap x = ease 128 (lpf.gap x) := by
  have hlow := h.low
  have hhigh := h.high
  have hx := x.toNat_lt
  have hgap : (q6 x - lpf.stateQ6).toInt = lpf.gap x := by
    rw [Int32.toInt_sub, toInt_q6]
    exact Int.bmod_eq_of_le (by omega) (by omega)
  have hstate : (lpf.feed x).stateQ6.toInt = lpf.stateQ6.toInt + lpf.gap x / 128 := by
    rw [VcalLpf.feed, update, h.started]
    simp only [Bool.not_true, Bool.false_eq_true, if_false]
    rw [Int32.toInt_add, toInt_shiftRight_7, hgap, gap]
    exact Int.bmod_eq_of_le (by omega) (by omega)
  refine ⟨⟨rfl, ?_, ?_⟩, ?_⟩
  · rw [hstate, gap]
    omega
  · rw [hstate, gap]
    omega
  · rw [gap, hstate, ease, gap]
    ring

/-- The first sample is taken as it is. -/
theorem feed_new (first : UInt16) :
    (new.feed first).Ranged ∧ (new.feed first).stateQ6.toInt = 64 * first.toNat := by
  have hlt := first.toNat_lt
  have hstate : (new.feed first).stateQ6.toInt = 64 * first.toNat := toInt_q6 first
  exact ⟨⟨rfl, by omega, by omega⟩, hstate⟩

/-- The filter after a first sample and those behind it. -/
def fed (first : UInt16) (samples : List UInt16) : VcalLpf :=
  run VcalLpf.feed (new.feed first) samples

theorem ranged_fed (first : UInt16) (samples : List UInt16) : (fed first samples).Ranged :=
  run_invariant VcalLpf.feed Ranged (fun _ raw h => (h.feed raw).1) (feed_new first).1 samples

/-! ## A held input -/

/-- The filter after `m` samples of the same input. -/
def held (lpf : VcalLpf) (x : UInt16) (m : ℕ) : VcalLpf := (fun lpf => lpf.feed x)^[m] lpf

theorem held_succ (lpf : VcalLpf) (x : UInt16) (m : ℕ) :
    lpf.held x (m + 1) = (lpf.held x m).feed x :=
  Function.iterate_succ_apply' _ _ _

theorem Ranged.held {lpf : VcalLpf} (h : lpf.Ranged) (x : UInt16) (m : ℕ) :
    (lpf.held x m).Ranged ∧ (lpf.held x m).gap x = (ease 128)^[m] (lpf.gap x) := by
  induction m with
  | zero => exact ⟨h, rfl⟩
  | succ m ih =>
      obtain ⟨hranged, hgap⟩ := ih
      obtain ⟨hnext, heased⟩ := hranged.feed x
      rw [held_succ, Function.iterate_succ_apply', ← hgap]
      exact ⟨hnext, heased⟩

/-- `y` lies between `a` and `b`. -/
def Between (a y b : UInt16) : Prop := a ≤ y ∧ y ≤ b ∨ b ≤ y ∧ y ≤ a

/-- Held at an input, the filter reads it from some sample on, and never leaves the
way there. -/
structure Tracks (lpf : VcalLpf) (x : UInt16) : Prop where
  settles : ∃ n, ∀ m, n ≤ m → (lpf.held x m).reading = x
  between : ∀ m, Between (lpf.held x m).reading (lpf.held x (m + 1)).reading x

theorem Ranged.between {lpf : VcalLpf} (h : lpf.Ranged) (x : UInt16) :
    Between lpf.reading (lpf.feed x).reading x := by
  obtain ⟨hnext, hgap⟩ := h.feed x
  have hcode := h.toNat_reading x
  have hcode' := hnext.toNat_reading x
  rw [hgap] at hcode'
  rcases lt_or_ge (lpf.gap x) 0 with hneg | hpos
  · have heased := ease_of_neg (show (0 : ℤ) < 128 by decide) hneg
    refine .inr ⟨?_, ?_⟩
    · rw [UInt16.le_iff_toNat_le]
      omega
    · rw [UInt16.le_iff_toNat_le]
      omega
  · have heased := ease_of_nonneg (show (0 : ℤ) < 128 by decide) hpos
    refine .inl ⟨?_, ?_⟩
    · rw [UInt16.le_iff_toNat_le]
      omega
    · rw [UInt16.le_iff_toNat_le]
      omega

/-- The reading comes to rest on the input from above, and up to two codes short of
it from below. -/
theorem Ranged.comes_to_rest {lpf : VcalLpf} (h : lpf.Ranged) (x : UInt16) :
    ∃ n, ∀ m, n ≤ m →
      ((lpf.held x m).reading.toNat : ℤ) = (64 * x.toNat - rest 128 (lpf.gap x)) / 64 := by
  obtain ⟨n, hrests⟩ := ease_rests (show (0 : ℤ) < 128 by decide) (lpf.gap x)
  refine ⟨n, fun m hm => ?_⟩
  obtain ⟨hranged, hgap⟩ := h.held x m
  rw [hranged.toNat_reading x, hgap, hrests m hm]

theorem Ranged.tracks_iff {lpf : VcalLpf} (h : lpf.Ranged) (x : UInt16) :
    lpf.Tracks x ↔ q6 x ≤ lpf.stateQ6 := by
  rw [Int32.le_iff_toInt_le, toInt_q6]
  obtain ⟨n, hrests⟩ := h.comes_to_rest x
  constructor
  · intro htracks
    obtain ⟨k, hsettled⟩ := htracks.settles
    have hlast := hrests (max n k) (le_max_left n k)
    rw [hsettled (max n k) (le_max_right n k), rest, gap] at hlast
    omega
  · intro habove
    constructor
    case settles =>
        refine ⟨n, fun m hm => ?_⟩
        have hlast := hrests m hm
        rw [rest, gap] at hlast
        apply UInt16.toNat_inj.mp
        omega
    case between =>
        intro m
        rw [held_succ]
        exact (h.held x m).1.between x

/-- Right after the first sample the filter tracks an input no higher than it; later
on, an input no higher than its state. -/
theorem tracks_iff_from_above (first x : UInt16) :
    ((fed first []).Tracks x ↔ x ≤ first) ∧
      ∀ samples, (fed first samples).Tracks x ↔ q6 x ≤ (fed first samples).stateQ6 := by
  constructor
  · rw [(ranged_fed first []).tracks_iff, Int32.le_iff_toInt_le, toInt_q6,
      UInt16.le_iff_toNat_le]
    have hfirst : (fed first []).stateQ6.toInt = 64 * first.toNat := (feed_new first).2
    rw [hfirst]
    omega
  · intro samples
    exact (ranged_fed first samples).tracks_iff x

/-- From 0 the filter never reads 1000. -/
theorem step_up_stops_short :
    ¬ ∀ first x : UInt16, x < 4096 → (fed first []).Tracks x := by
  intro hclaim
  have hreached := ((ranged_fed 0 []).tracks_iff 1000).mp (hclaim 0 1000 (by decide))
  exact absurd hreached (by decide)

end VcalLpf

end OpenServo.Control
