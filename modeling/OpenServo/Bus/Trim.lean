import OpenServo.Bus.Clock
import OpenServo.Core.Pursuit

/-!
# The trim loop against a plant

The controller divides by restoring twenty quotient bits, rounds to the
nearest step of the gain it believes in, and replaces that gain by what its
last correction showed.  Closed around a noiseless plant it is a railed
pursuit of the nearest trim once a first correction has been taken; before
that it holds the deadband of the seed, and on an exact half step it never
comes to rest.
-/

namespace OpenServo.Bus

open Pursuit

/-! ## The restoring division -/

theorem divideBits_eq {span : ℕ} (hspan : 0 < span) (bits rem q : ℕ)
    (hrem : rem < span * 2 ^ bits) :
    divideBits bits span rem q = q + rem / span := by
  induction bits generalizing rem q with
  | zero =>
      rw [pow_zero, mul_one] at hrem
      rw [divideBits, Nat.div_eq_of_lt hrem, add_zero]
  | succ bits ih =>
      rw [pow_succ, ← mul_assoc] at hrem
      rw [divideBits]
      by_cases hbit : rem ≥ span * 2 ^ bits
      · have hquotient : (rem - span * 2 ^ bits) / span + 2 ^ bits = rem / span := by
          rw [← Nat.add_mul_div_left _ _ hspan, Nat.sub_add_cancel hbit]
        rw [if_pos hbit, ih _ _ (by omega), add_assoc, add_comm (2 ^ bits), hquotient]
      · rw [if_neg hbit, ih _ _ (by omega)]

/-- Within its domain the division is exact, truncated toward zero. -/
theorem ppm_eq {err : ℤ} {span : ℕ} (hdomain : err.natAbs * 1000000 < span * 2 ^ 20) :
    ppm err span = (err * 1000000).tdiv span := by
  have hspan : 0 < span := by
    by_contra hzero
    rw [Nat.eq_zero_of_not_pos hzero, zero_mul] at hdomain
    exact absurd hdomain (Nat.not_lt_zero _)
  have hq : divideBits 20 span (err.natAbs * 1000000) 0 = err.natAbs * 1000000 / span := by
    rw [divideBits_eq hspan _ _ _ hdomain, zero_add]
  simp only [ppm, ge_iff_le, if_neg (Nat.not_le.mpr hdomain), hq]
  obtain ⟨mag, hmag | hmag⟩ := Int.eq_nat_or_neg err
  · subst hmag
    rw [if_neg (by omega), Int.natAbs_natCast]
    norm_cast
  · subst hmag
    rw [Int.natAbs_neg, Int.natAbs_natCast, neg_mul, Int.neg_tdiv]
    by_cases hzero : mag = 0
    · subst hzero
      simp
    · rw [if_pos (by omega)]
      norm_cast

theorem ppm_saturates {err : ℤ} {span : ℕ} (hdomain : span * 2 ^ 20 ≤ err.natAbs * 1000000) :
    ppm err span = if err < 0 then -1048575 else 1048575 := by
  simp only [ppm, ge_iff_le, if_pos hdomain]
  norm_num

/-! ## One window -/

namespace TrimLoop

variable {trim : TrimLoop} {reading : ℤ}

/-- The thresholds met are counted up to the cap. -/
theorem stepsFor_eq {count : ℕ}
    (hmet : ∀ k < stepsMax, (2 * k + 1) * trim.stepPpm.toNat ≤ 2 * reading.natAbs ↔ k < count) :
    trim.stepsFor reading =
      if reading < 0 then -((min stepsMax count : ℕ) : ℤ) else (min stepsMax count : ℕ) := by
  have hthresholds : (List.range stepsMax).filter
      (fun k => decide (2 * reading.natAbs ≥ (2 * k + 1) * trim.stepPpm.toNat)) =
      (List.range stepsMax).filter fun k => decide (k < count) := by
    refine List.filter_congr fun k hk => ?_
    rw [decide_eq_decide]
    exact hmet k (List.mem_range.mp hk)
  have hcounted : ((List.range stepsMax).filter fun k => decide (k < count)).length =
      min stepsMax count := by
    rcases Nat.lt_or_ge count stepsMax with hcount | hcount
    · rw [min_eq_right hcount.le]
      unfold stepsMax at *
      interval_cases count <;> decide
    · rw [min_eq_left hcount, List.filter_eq_self.mpr, List.length_range]
      intro k hk
      exact decide_eq_true ((List.mem_range.mp hk).trans_le hcount)
  simp only [stepsFor]
  rw [hthresholds, hcounted]

theorem abs_stepsFor_le (trim : TrimLoop) (reading : ℤ) : |trim.stepsFor reading| ≤ stepsMax := by
  have hcount : ((List.range stepsMax).filter fun k =>
      decide (2 * reading.natAbs ≥ (2 * k + 1) * trim.stepPpm.toNat)).length ≤ stepsMax := by
    simpa using List.length_filter_le (l := List.range stepsMax) (p := fun k =>
      decide (2 * reading.natAbs ≥ (2 * k + 1) * trim.stepPpm.toNat))
  simp only [stepsFor]
  split <;> rw [abs_le] <;> omega

/-- Off the exact half steps, the loop asks for the nearest trim, a capped
stride at a time. -/
theorem stepsFor_nearest {steps : ℤ} (hgain : 0 < trim.stepPpm)
    (hnearest : 2 * |reading - steps * trim.stepPpm| < trim.stepPpm) :
    trim.stepsFor reading = clamp (stepsMax : ℤ) steps := by
  have hmagnitudes : 2 * |(|reading| - |steps| * trim.stepPpm)| < trim.stepPpm := by
    have hreverse := abs_abs_sub_abs_le reading (steps * trim.stepPpm)
    rw [abs_mul, abs_of_pos hgain] at hreverse
    linarith
  have hcount : ∀ k < stepsMax,
      (2 * k + 1) * trim.stepPpm.toNat ≤ 2 * reading.natAbs ↔ k < steps.natAbs := by
    intro k _
    have hclose := abs_le.mp (le_refl |(|reading| - |steps| * trim.stepPpm)|)
    zify
    rw [Int.toNat_of_nonneg hgain.le]
    constructor
    · intro hmet
      by_contra hbeyond
      have hbelow := mul_le_mul_of_nonneg_right (not_lt.mp hbeyond) hgain.le
      linarith
    · intro hwithin
      have habove := mul_le_mul_of_nonneg_right (Int.add_one_le_of_lt hwithin) hgain.le
      linarith
  have hclose := abs_le.mp (le_refl |reading - steps * trim.stepPpm|)
  rw [stepsFor_eq hcount]
  by_cases hsign : reading < 0
  · have hsteps : steps ≤ 0 := by
      by_contra hpositive
      have hstep := mul_le_mul_of_nonneg_right (Int.add_one_le_of_lt (not_le.mp hpositive)) hgain.le
      linarith
    rw [if_pos hsign, clamp]
    omega
  · have hsteps : 0 ≤ steps := by
      by_contra hnegative
      have hstep := mul_le_mul_of_nonneg_right (Int.le_sub_one_of_lt (not_le.mp hnegative)) hgain.le
      linarith
    rw [if_neg hsign, clamp]
    omega

/-- On an exact half step the loop rounds away from where it stands. -/
theorem stepsFor_tie {steps : ℤ} (hgain : 0 < trim.stepPpm)
    (htie : 2 * reading = (2 * steps + 1) * trim.stepPpm) :
    trim.stepsFor reading = clamp (stepsMax : ℤ) (if 0 ≤ steps then steps + 1 else steps) := by
  have hcount : ∀ k < stepsMax, (2 * k + 1) * trim.stepPpm.toNat ≤ 2 * reading.natAbs ↔
      k < (if 0 ≤ steps then steps + 1 else steps).natAbs := by
    intro k _
    have hmagnitude : 2 * |reading| = |2 * steps + 1| * trim.stepPpm := by
      have habs := congrArg abs htie
      rwa [abs_mul, abs_two, abs_mul, abs_of_pos hgain] at habs
    zify
    rw [Int.toNat_of_nonneg hgain.le, hmagnitude, mul_le_mul_iff_left₀ hgain]
    split <;> grind
  have hsign : reading < 0 ↔ steps < 0 := by
    constructor
    · intro hneg
      by_contra hsteps
      have hproduct := mul_nonneg (by omega : 0 ≤ 2 * steps + 1) hgain.le
      linarith
    · intro hneg
      have hproduct := mul_neg_of_neg_of_pos (by omega : 2 * steps + 1 < 0) hgain
      linarith
  rw [stepsFor_eq hcount]
  by_cases hsteps : 0 ≤ steps
  · rw [if_neg (by omega), if_pos hsteps, clamp]
    omega
  · rw [if_pos (by omega), if_neg hsteps, clamp]
    omega

/-- A reading far beyond the widest gain draws the whole stride. -/
theorem stepsFor_far (hgain : trim.stepPpm ≤ stepPpmMax) (hfar : 14000 ≤ |reading|) :
    trim.stepsFor reading = if reading < 0 then -(stepsMax : ℤ) else stepsMax := by
  rw [@stepsFor_eq _ _ stepsMax, min_self]
  intro k hk
  constructor
  · exact fun _ => hk
  · intro _
    unfold stepPpmMax at hgain
    unfold stepsMax at hk
    rw [Int.abs_eq_natAbs] at hfar
    have hthreshold : (2 * k + 1) * trim.stepPpm.toNat ≤ 7 * 4000 :=
      Nat.mul_le_mul (by omega) (by omega)
    omega

theorem stepsFor_ne_zero (houtside : trim.stepPpm ≤ 2 * |reading|) : trim.stepsFor reading ≠ 0 := by
  have hfirst : 0 ∈ (List.range stepsMax).filter fun k =>
      decide (2 * reading.natAbs ≥ (2 * k + 1) * trim.stepPpm.toNat) := by
    rw [Int.abs_eq_natAbs] at houtside
    exact List.mem_filter.mpr ⟨by decide, decide_eq_true (by omega)⟩
  have hsome := List.length_pos_of_mem hfirst
  simp only [stepsFor]
  split <;> omega

theorem stepsFor_inside (hinside : 2 * |reading| < trim.stepPpm) : trim.stepsFor reading = 0 := by
  have hgain : 0 < trim.stepPpm := lt_of_le_of_lt (mul_nonneg zero_le_two (abs_nonneg _)) hinside
  have hnearest : 2 * |reading - 0 * trim.stepPpm| < trim.stepPpm := by
    rwa [zero_mul, sub_zero]
  rw [stepsFor_nearest hgain hnearest]
  rfl

/-- The gain believed stays inside the acceptance band. -/
theorem observe_band (hlow : stepPpmMin ≤ trim.stepPpm) (hhigh : trim.stepPpm ≤ stepPpmMax) :
    stepPpmMin ≤ (trim.observe reading).stepPpm ∧ (trim.observe reading).stepPpm ≤ stepPpmMax := by
  grind [observe]

@[simp] theorem observe_total : (trim.observe reading).total = trim.total := by
  grind [observe]

/-- A plant answers a correction with its gain, and the loop reads it. -/
theorem observe_gain {gain : ℤ} (hlow : stepPpmMin ≤ gain) (hhigh : gain ≤ stepPpmMax)
    (hsteps : |trim.lastSteps| ≤ stepsMax)
    (hanswer : reading = trim.lastPpm - gain * trim.lastSteps)
    (hknown : trim.lastSteps = 0 → trim.stepPpm = gain) :
    (trim.observe reading).stepPpm = gain := by
  unfold observe
  by_cases hnone : trim.lastSteps = 0
  · rw [if_pos (beq_iff_eq.mpr hnone)]
    exact hknown hnone
  · have hdelta : trim.lastPpm - reading = gain * trim.lastSteps := by
      rw [hanswer, sub_sub_cancel]
    have hpositive : 0 < gain := lt_of_lt_of_le (by decide) hlow
    have hcap : min trim.lastSteps.natAbs stepsMax = trim.lastSteps.natAbs := by
      rw [Int.abs_eq_natAbs] at hsteps
      exact min_eq_left (by exact_mod_cast hsteps)
    have hsize : ((gain * trim.lastSteps).natAbs : ℤ) / (trim.lastSteps.natAbs : ℤ) = gain := by
      rw [Int.natCast_natAbs, abs_mul, Int.natCast_natAbs, abs_of_pos hpositive,
        Int.mul_ediv_cancel _ (abs_ne_zero.mpr hnone)]
    have hsign : (gain * trim.lastSteps < 0) = (trim.lastSteps < 0) := by
      exact propext (smul_neg_iff_of_pos_left hpositive)
    rw [if_neg (by rwa [beq_iff_eq])]
    simp only [hdelta, hcap, hsize, hsign, beq_self_eq_true, if_true]
    simp [hlow, hhigh]

/-- Where one window leaves the trim. -/
def aim (trim : TrimLoop) (reading : ℤ) : ℤ :=
  clamp totalMax (trim.total + (trim.observe reading).stepsFor reading)

/-- The window's answer and everything it leaves behind. -/
theorem onWindow_eq (trim : TrimLoop) (err : ℤ) {span : ℕ} (hspan : span ≠ 0) :
    trim.onWindow err span =
      (if trim.aim (ppm err span) = trim.total then none else some (trim.aim (ppm err span)),
        { total := trim.aim (ppm err span)
          stepPpm := (trim.observe (ppm err span)).stepPpm
          lastPpm := ppm err span
          lastSteps := trim.aim (ppm err span) - trim.total }) := by
  have haim : max (-totalMax) (min totalMax (trim.total +
      (trim.observe (ppm err span)).stepsFor (ppm err span))) = trim.aim (ppm err span) := rfl
  simp only [onWindow, beq_iff_eq, if_neg hspan, observe_total, haim, sub_eq_zero]
  by_cases hstill : trim.aim (ppm err span) = trim.total
  · simp only [hstill, if_true]
  · simp only [if_neg hstill]

theorem abs_aim_le (trim : TrimLoop) (reading : ℤ) : |trim.aim reading| ≤ totalMax :=
  abs_clamp_le (by decide) _

theorem abs_aim_sub_le (hwithin : |trim.total| ≤ totalMax) :
    |trim.aim reading - trim.total| ≤ stepsMax := by
  have hsteps := abs_le.mp ((trim.observe reading).abs_stepsFor_le reading)
  obtain ⟨hlow, hhigh⟩ := abs_le.mp hwithin
  unfold totalMax at hlow hhigh
  unfold stepsMax at hsteps
  rw [abs_le]
  unfold aim clamp totalMax stepsMax
  omega

end TrimLoop

/-! ## The plant -/

/-- One trim step of the chip: 60 kHz of its 24 MHz. -/
def clockTrimStepPpm : ℕ := 2500

/-- A chip with a true clock offset and a true step effect, measured through
noiseless windows. -/
structure Plant where
  offsetPpm : ℤ
  stepPpm : ℤ
  trim : TrimLoop
  applied : ℤ

namespace Plant

def new (offsetPpm stepPpm : ℤ) : Plant := ⟨offsetPpm, stepPpm, .new clockTrimStepPpm, 0⟩

def residual (plant : Plant) : ℤ := plant.offsetPpm - plant.applied * plant.stepPpm

/-- One window of a million ticks, where ticks of excess are ppm. -/
def window (plant : Plant) : Option ℤ × Plant :=
  match plant.trim.onWindow plant.residual 1000000 with
  | (some total, trim) => (some total, { plant with trim, applied := total })
  | (none, trim) => (none, { plant with trim })

/-- The plant after some windows. -/
def after (plant : Plant) (windows : ℕ) : Plant := (fun now => now.window.2)^[windows] plant

theorem after_succ (plant : Plant) (windows : ℕ) :
    plant.after (windows + 1) = (plant.after windows).window.2 :=
  Function.iterate_succ_apply' _ _ _

/-- What the loop reads of the residual. -/
def reading (plant : Plant) : ℤ := ppm plant.residual 1000000

theorem reading_eq {plant : Plant} (hnear : |plant.residual| < 2 ^ 20) :
    plant.reading = plant.residual := by
  rw [Int.abs_eq_natAbs] at hnear
  rw [reading, ppm_eq (by omega)]
  exact Int.mul_tdiv_cancel _ (by decide)

/-- Past the divider's domain the reading saturates, sign kept. -/
theorem reading_far {plant : Plant} (hfar : 14000 ≤ |plant.residual|) :
    14000 ≤ |plant.reading| ∧ (plant.reading < 0 ↔ plant.residual < 0) := by
  by_cases hnear : |plant.residual| < 2 ^ 20
  · rw [reading_eq hnear]
    exact ⟨hfar, Iff.rfl⟩
  · rw [Int.abs_eq_natAbs] at hnear
    rw [reading, ppm_saturates (by omega)]
    split <;> simp [*]

/-- The register holds what the loop believes it applied. -/
structure Synced (plant : Plant) : Prop where
  applied : plant.applied = plant.trim.total
  within : |plant.applied| ≤ totalMax

variable {plant : Plant}

theorem window_eq (hsynced : plant.Synced) :
    plant.window =
      (if plant.trim.aim plant.reading = plant.applied then none
        else some (plant.trim.aim plant.reading),
        { plant with
          applied := plant.trim.aim plant.reading
          trim :=
            { total := plant.trim.aim plant.reading
              stepPpm := (plant.trim.observe plant.reading).stepPpm
              lastPpm := plant.reading
              lastSteps := plant.trim.aim plant.reading - plant.applied } }) := by
  rw [window, TrimLoop.onWindow_eq _ _ (by decide), ← reading, ← hsynced.applied]
  split_ifs with hstill
  · simp only [hstill]
  · rfl

theorem Synced.window (hsynced : plant.Synced) : plant.window.2.Synced := by
  rw [window_eq hsynced]
  constructor
  case applied => rfl
  case within => exact plant.trim.abs_aim_le _

theorem Synced.after (hsynced : plant.Synced) (n : ℕ) : (plant.after n).Synced := by
  induction n with
  | zero => exact hsynced
  | succ n ih =>
      rw [after_succ]
      exact ih.window

theorem synced_new (offset gain : ℤ) : (Plant.new offset gain).Synced := by
  constructor
  case applied => rfl
  case within => exact abs_nonneg (0 : ℤ) |>.trans (by decide)

@[simp] theorem window_stepPpm (plant : Plant) : plant.window.2.stepPpm = plant.stepPpm := by
  unfold window
  split <;> rfl

@[simp] theorem window_offsetPpm (plant : Plant) : plant.window.2.offsetPpm = plant.offsetPpm := by
  unfold window
  split <;> rfl

@[simp] theorem after_stepPpm (plant : Plant) (n : ℕ) :
    (plant.after n).stepPpm = plant.stepPpm := by
  induction n with
  | zero => rfl
  | succ n ih => rw [after_succ, window_stepPpm, ih]

@[simp] theorem after_offsetPpm (plant : Plant) (n : ℕ) :
    (plant.after n).offsetPpm = plant.offsetPpm := by
  induction n with
  | zero => rfl
  | succ n ih => rw [after_succ, window_offsetPpm, ih]

theorem window_applied (hsynced : plant.Synced) :
    plant.window.2.applied = plant.trim.aim plant.reading := by
  rw [window_eq hsynced]

theorem window_eq_none (hsynced : plant.Synced) :
    plant.window.1 = none ↔ plant.window.2.applied = plant.applied := by
  rw [window_eq hsynced]
  by_cases hstill : plant.trim.aim plant.reading = plant.applied <;> simp [hstill]

/-! ## Coming to rest -/

/-- The loop is silent for good, within half a step or at the rail. -/
def Settles (plant : Plant) : Prop :=
  ∃ n, (∀ m, n ≤ m → (plant.after m).window.1 = none) ∧
    (2 * |(plant.after n).residual| ≤ plant.stepPpm ∨ |(plant.after n).applied| = totalMax)

theorem applied_of_silent (hsynced : plant.Synced) {n : ℕ}
    (hsilent : ∀ m, n ≤ m → (plant.after m).window.1 = none) (k : ℕ) :
    (plant.after (n + k)).applied = (plant.after n).applied := by
  induction k with
  | zero => rfl
  | succ k ih =>
      have hstill := (window_eq_none (hsynced.after _)).mp (hsilent (n + k) (Nat.le_add_right n k))
      rw [← after_succ] at hstill
      exact hstill.trans ih

/-- The first windows do not decide whether the loop settles. -/
theorem settles_after (hsynced : plant.Synced) (k : ℕ) :
    (plant.after k).Settles ↔ plant.Settles := by
  have hafter : ∀ m, (plant.after k).after m = plant.after (m + k) := fun m =>
    (Function.iterate_add_apply _ m k plant).symm
  constructor
  · rintro ⟨n, hsilent, hend⟩
    refine ⟨n + k, fun m hm => ?_, ?_⟩
    · rw [← Nat.sub_add_cancel (Nat.le_of_add_left_le hm), ← hafter]
      exact hsilent _ (Nat.le_sub_of_add_le hm)
    · rwa [hafter, after_stepPpm] at hend
  · rintro ⟨n, hsilent, hend⟩
    refine ⟨n, fun m hm => ?_, ?_⟩
    · rw [hafter]
      exact hsilent _ (Nat.le_add_right_of_le hm)
    · rw [hafter, after_stepPpm, residual, applied_of_silent hsynced hsilent, after_offsetPpm,
        after_stepPpm]
      rwa [residual, after_offsetPpm, after_stepPpm] at hend

/-- A loop that pursues one trim settles on the closest trim of the rails. -/
theorem settles_of_pursuit (hsynced : plant.Synced) {target : ℤ}
    (hpursues : ∀ n, (plant.after (n + 1)).applied =
      pursue totalMax (stepsMax : ℤ) target (plant.after n).applied)
    (hend : 2 * |plant.offsetPpm - target * plant.stepPpm| ≤ plant.stepPpm ∨ totalMax ≤ |target|) :
    plant.Settles := by
  have hiterate : ∀ n, (plant.after n).applied =
      (pursue totalMax (stepsMax : ℤ) target)^[n] plant.applied := by
    intro n
    induction n with
    | zero => rfl
    | succ n ih => rw [hpursues, ih, Function.iterate_succ_apply']
  have hstride : (0 : ℤ) < stepsMax := by decide
  obtain ⟨n, hrest⟩ := @comes_to_rest _ _ _ _ _ _ target _ _ hstride (by decide) hsynced.within
  refine ⟨n, fun m hm => ?_, ?_⟩
  · rw [window_eq_none (hsynced.after m), ← after_succ, hiterate, hiterate, hrest m hm,
      hrest (m + 1) (Nat.le_succ_of_le hm)]
  · rw [residual, hiterate, hrest n le_rfl, after_offsetPpm, after_stepPpm]
    by_cases hinside : |target| ≤ totalMax
    · rw [clamp_eq_self hinside]
      exact hend.imp_right (le_antisymm hinside)
    · right
      unfold clamp totalMax at *
      grind

/-- Too far off for the rails to reach: every window draws the whole stride. -/
structure Railed (plant : Plant) : Prop where
  synced : plant.Synced
  far : 74000 ≤ |plant.offsetPpm|
  effect : 0 ≤ plant.stepPpm ∧ plant.stepPpm ≤ stepPpmMax
  believed : stepPpmMin ≤ plant.trim.stepPpm ∧ plant.trim.stepPpm ≤ stepPpmMax

theorem abs_applied_mul_le (hsynced : plant.Synced) (hpositive : 0 ≤ plant.stepPpm)
    (heffect : plant.stepPpm ≤ stepPpmMax) : |plant.applied * plant.stepPpm| ≤ 60000 := by
  have hproduct : |plant.applied * plant.stepPpm| ≤ totalMax * stepPpmMax := by
    rw [abs_mul, abs_of_nonneg hpositive]
    exact mul_le_mul hsynced.within heffect hpositive (by decide)
  exact hproduct

theorem Railed.window (hrailed : plant.Railed) : plant.window.2.Railed := by
  constructor
  case synced => exact hrailed.synced.window
  case far => simpa only [window_offsetPpm] using hrailed.far
  case effect => simpa only [window_stepPpm] using hrailed.effect
  case believed =>
      rw [window_eq hrailed.synced]
      exact TrimLoop.observe_band hrailed.believed.1 hrailed.believed.2

theorem Railed.pursues (hrailed : plant.Railed) :
    plant.window.2.applied = pursue totalMax (stepsMax : ℤ)
      (if plant.offsetPpm < 0 then -19 else 19) plant.applied := by
  have hthrow := abs_applied_mul_le hrailed.synced hrailed.effect.1 hrailed.effect.2
  have hfar := hrailed.far
  have hwithin := hrailed.synced.within
  have hresidual : 14000 ≤ |plant.residual| ∧ (plant.residual < 0 ↔ plant.offsetPpm < 0) := by
    unfold residual
    generalize plant.applied * plant.stepPpm = throw at hthrow
    grind
  obtain ⟨hreading, hsign⟩ := reading_far hresidual.1
  have hband := @TrimLoop.observe_band _ plant.reading hrailed.believed.1
    hrailed.believed.2
  rw [window_applied hrailed.synced, TrimLoop.aim, TrimLoop.stepsFor_far hband.2 hreading,
    ← hrailed.synced.applied, pursue]
  simp only [hsign, hresidual.2]
  unfold clamp totalMax stepsMax at *
  grind

theorem Railed.settles (hrailed : plant.Railed) : plant.Settles := by
  have hafter : ∀ n, (plant.after n).Railed := by
    intro n
    induction n with
    | zero => exact hrailed
    | succ n ih =>
        rw [after_succ]
        exact ih.window
  have hpursues : ∀ n, (plant.after (n + 1)).applied = pursue totalMax (stepsMax : ℤ)
      (if plant.offsetPpm < 0 then -19 else 19) (plant.after n).applied := by
    intro n
    rw [after_succ, (hafter n).pursues, after_offsetPpm]
  exact settles_of_pursuit hrailed.synced hpursues (Or.inr (by split <;> decide))

/-- The loop has read, or is about to read, the true step effect. -/
structure Measured (plant : Plant) : Prop where
  synced : plant.Synced
  near : |plant.offsetPpm| < 74000
  effect : stepPpmMin ≤ plant.stepPpm ∧ plant.stepPpm ≤ stepPpmMax
  gain : (plant.trim.observe plant.reading).stepPpm = plant.stepPpm

theorem reading_near (hsynced : plant.Synced) (hnear : |plant.offsetPpm| < 74000)
    (hpositive : 0 ≤ plant.stepPpm) (heffect : plant.stepPpm ≤ stepPpmMax) :
    plant.reading = plant.residual := by
  have hthrow := abs_applied_mul_le hsynced hpositive heffect
  refine reading_eq (lt_of_le_of_lt (abs_sub _ _) ?_)
  linarith

theorem stepPpmMin_pos {effect : ℤ} (heffect : stepPpmMin ≤ effect) : 0 < effect :=
  lt_of_lt_of_le (by decide) heffect

theorem Measured.reading_eq (hmeasured : plant.Measured) : plant.reading = plant.residual :=
  reading_near hmeasured.synced hmeasured.near (stepPpmMin_pos hmeasured.effect.1).le
    hmeasured.effect.2

/-- A window that knows the gain, or takes a correction, leaves it known. -/
theorem measured_window (hsynced : plant.Synced) (hnear : |plant.offsetPpm| < 74000)
    (heffect : stepPpmMin ≤ plant.stepPpm ∧ plant.stepPpm ≤ stepPpmMax)
    (hknown : plant.window.2.applied = plant.applied →
      (plant.trim.observe plant.reading).stepPpm = plant.stepPpm) :
    plant.window.2.Measured := by
  have hpositive := (stepPpmMin_pos heffect.1).le
  have happlied := window_applied hsynced
  constructor
  case synced => exact hsynced.window
  case near => rwa [window_offsetPpm]
  case effect => rwa [window_stepPpm]
  case gain =>
      have hnext : plant.window.2.reading = plant.window.2.residual :=
        reading_near hsynced.window (by rwa [window_offsetPpm])
          (by rwa [window_stepPpm]) (by rw [window_stepPpm]; exact heffect.2)
      have hthis := reading_near hsynced hnear hpositive heffect.2
      rw [window_stepPpm]
      refine TrimLoop.observe_gain heffect.1 heffect.2 ?_ ?_ ?_
      · rw [window_eq hsynced]
        rw [hsynced.applied]
        exact TrimLoop.abs_aim_sub_le (hsynced.applied ▸ hsynced.within)
      · rw [hnext, residual, window_offsetPpm, window_stepPpm, happlied, window_eq hsynced, hthis,
          residual]
        ring
      · intro hnone
        rw [window_eq hsynced] at hnone ⊢
        exact hknown (by rw [happlied]; exact sub_eq_zero.mp hnone)

theorem Measured.after (hmeasured : plant.Measured) (n : ℕ) : (plant.after n).Measured := by
  induction n with
  | zero => exact hmeasured
  | succ n ih =>
      rw [after_succ]
      exact measured_window ih.synced ih.near ih.effect fun _ => ih.gain

/-- The plant is off the half steps: one trim is the nearest. -/
theorem Measured.pursues (hmeasured : plant.Measured) {target : ℤ}
    (hnearest : 2 * |plant.offsetPpm - target * plant.stepPpm| < plant.stepPpm) :
    plant.window.2.applied = pursue totalMax (stepsMax : ℤ) target plant.applied := by
  have hresidual : plant.residual - (target - plant.applied) * plant.stepPpm =
      plant.offsetPpm - target * plant.stepPpm := by
    unfold residual
    ring
  rw [window_applied hmeasured.synced, TrimLoop.aim, ← hmeasured.synced.applied, pursue,
    @TrimLoop.stepsFor_nearest _ _ (target - plant.applied)]
  · rw [hmeasured.gain]
    exact stepPpmMin_pos hmeasured.effect.1
  · rwa [hmeasured.gain, hmeasured.reading_eq, hresidual]

/-- The plant is on a half step: the loop aims at whichever of the two
nearest trims it does not stand on. -/
theorem Measured.straddles (hmeasured : plant.Measured) {target : ℤ}
    (htie : 2 * plant.offsetPpm = (2 * target + 1) * plant.stepPpm) :
    plant.window.2.applied = pursue totalMax (stepsMax : ℤ)
      (if plant.applied ≤ target then target + 1 else target) plant.applied := by
  have hresidual : 2 * plant.residual = (2 * (target - plant.applied) + 1) * plant.stepPpm := by
    unfold residual
    linear_combination htie
  rw [window_applied hmeasured.synced, TrimLoop.aim, ← hmeasured.synced.applied, pursue,
    @TrimLoop.stepsFor_tie _ _ (target - plant.applied)]
  · congr 3
    split_ifs <;> omega
  · rw [hmeasured.gain]
    exact stepPpmMin_pos hmeasured.effect.1
  · rwa [hmeasured.gain, hmeasured.reading_eq]

theorem Measured.settles_nearest (hmeasured : plant.Measured) {target : ℤ}
    (hnearest : 2 * |plant.offsetPpm - target * plant.stepPpm| < plant.stepPpm) :
    plant.Settles := by
  refine settles_of_pursuit hmeasured.synced (fun n => ?_) (Or.inl hnearest.le)
  rw [after_succ, (hmeasured.after n).pursues]
  rwa [after_offsetPpm, after_stepPpm]

theorem Measured.settles_beyond (hmeasured : plant.Measured) {target : ℤ}
    (htie : 2 * plant.offsetPpm = (2 * target + 1) * plant.stepPpm)
    (hbeyond : target < -totalMax ∨ totalMax ≤ target) : plant.Settles := by
  refine @settles_of_pursuit _ hmeasured.synced
    (if totalMax ≤ target then target + 1 else target) (fun n => ?_) (Or.inr ?_)
  · have hwithin := abs_le.mp (hmeasured.after n).synced.within
    rw [after_succ, @Measured.straddles _ (hmeasured.after n) target]
    · congr 1
      split_ifs <;> omega
    · rwa [after_offsetPpm, after_stepPpm]
  · unfold totalMax at *
    grind

/-- Between the rails a half step never comes to rest. -/
theorem Measured.not_settles (hmeasured : plant.Measured) {target : ℤ}
    (htie : 2 * plant.offsetPpm = (2 * target + 1) * plant.stepPpm)
    (hinside : -totalMax ≤ target ∧ target < totalMax) : ¬plant.Settles := by
  rintro ⟨n, hsilent, -⟩
  have hnow := hmeasured.after n
  have hstill := (window_eq_none hnow.synced).mp (hsilent n le_rfl)
  rw [hnow.straddles (by rwa [after_offsetPpm, after_stepPpm])] at hstill
  have hwithin := hnow.synced.within
  unfold pursue clamp totalMax stepsMax at *
  grind

/-! ## From the seed -/

/-- Inside the deadband of a gain that no correction has tested. -/
structure Untested (plant : Plant) : Prop where
  synced : plant.Synced
  idle : plant.applied = 0
  untouched : plant.trim.lastSteps = 0
  inside : 2 * |plant.reading| < plant.trim.stepPpm

theorem Untested.observe (huntested : plant.Untested) :
    plant.trim.observe plant.reading = plant.trim :=
  if_pos (beq_iff_eq.mpr huntested.untouched)

theorem Untested.aim (huntested : plant.Untested) : plant.trim.aim plant.reading = 0 := by
  rw [TrimLoop.aim, huntested.observe, TrimLoop.stepsFor_inside huntested.inside,
    ← huntested.synced.applied, huntested.idle]
  rfl

theorem Untested.window (huntested : plant.Untested) : plant.window.2.Untested := by
  have hreading : plant.window.2.reading = plant.reading := by
    rw [reading, reading, residual, residual, window_applied huntested.synced, huntested.aim,
      huntested.idle, window_offsetPpm, window_stepPpm]
  constructor
  case synced => exact huntested.synced.window
  case idle => rw [window_applied huntested.synced, huntested.aim]
  case untouched =>
      rw [window_eq huntested.synced]
      exact sub_eq_zero.mpr (by rw [huntested.aim, huntested.idle])
  case inside =>
      rw [hreading, window_eq huntested.synced, huntested.observe]
      exact huntested.inside

theorem Untested.after (huntested : plant.Untested) (n : ℕ) : (plant.after n).Untested := by
  induction n with
  | zero => exact huntested
  | succ n ih =>
      rw [after_succ]
      exact ih.window

theorem Untested.settles_iff (huntested : plant.Untested) :
    plant.Settles ↔ 2 * |plant.offsetPpm| ≤ plant.stepPpm := by
  have hresidual : ∀ n, (plant.after n).residual = plant.offsetPpm := by
    intro n
    rw [residual, (huntested.after n).idle, zero_mul, sub_zero, after_offsetPpm]
  constructor
  · rintro ⟨n, -, hhalf | hrail⟩
    · rwa [hresidual] at hhalf
    · rw [(huntested.after n).idle] at hrail
      exact absurd hrail (by decide)
  · intro hhalf
    refine ⟨0, fun n _ => ?_, Or.inl (by rwa [hresidual])⟩
    rw [window_eq_none (huntested.after n).synced, (huntested.after n).window.idle,
      (huntested.after n).idle]

section FromTheSeed

variable {offset gain : ℤ}

theorem residual_new (offset gain : ℤ) : (Plant.new offset gain).residual = offset := by
  rw [residual, new, zero_mul, sub_zero]

theorem untested_new (hinside : 2 * |offset| < 2500) : (Plant.new offset gain).Untested := by
  have hreading : (Plant.new offset gain).reading = offset := by
    rw [reading_eq] <;> rw [residual_new]
    linarith
  constructor
  case synced => exact synced_new offset gain
  case idle => rfl
  case untouched => rfl
  case inside =>
      rw [hreading]
      exact hinside

theorem railed_new (hlow : stepPpmMin ≤ gain) (hhigh : gain ≤ stepPpmMax)
    (hfar : 74000 ≤ |offset|) : (Plant.new offset gain).Railed := by
  constructor
  case synced => exact synced_new offset gain
  case far => exact hfar
  case effect => exact ⟨(stepPpmMin_pos hlow).le, hhigh⟩
  case believed =>
      exact ⟨(by decide : stepPpmMin ≤ 2500), (by decide : (2500 : ℤ) ≤ stepPpmMax)⟩

/-- Outside the seed's deadband the first window takes a correction. -/
theorem measured_new (hlow : stepPpmMin ≤ gain) (hhigh : gain ≤ stepPpmMax)
    (hnear : |offset| < 74000) (houtside : 2500 ≤ 2 * |offset|) :
    ((Plant.new offset gain).after 1).Measured := by
  have hsynced := synced_new offset gain
  have hreading : (Plant.new offset gain).reading = offset := by
    rw [reading_eq] <;> rw [residual_new]
    linarith
  refine measured_window hsynced hnear ⟨hlow, hhigh⟩ fun hstill => ?_
  rw [window_applied hsynced, hreading] at hstill
  have hmoves : (Plant.new offset gain).trim.stepsFor offset ≠ 0 :=
    TrimLoop.stepsFor_ne_zero houtside
  have hcap := abs_le.mp (TrimLoop.abs_stepsFor_le (Plant.new offset gain).trim offset)
  have haim : clamp totalMax ((Plant.new offset gain).trim.stepsFor offset) = 0 := by
    have hobserve : (Plant.new offset gain).trim.observe offset =
        (Plant.new offset gain).trim := rfl
    rwa [TrimLoop.aim, hobserve, show (Plant.new offset gain).trim.total = 0 from rfl,
      zero_add] at hstill
  unfold clamp totalMax stepsMax at *
  grind

/-- A whole number is nearest to a multiple of the gain or halfway between
two. -/
theorem nearest_or_tie (hgain : 0 < gain) (offset : ℤ) :
    (∃ steps, 2 * |offset - steps * gain| < gain) ∨
      ∃ steps, 2 * offset = (2 * steps + 1) * gain := by
  have hpositive : 0 < 2 * gain := by linarith
  have hlow := Int.ediv_mul_le (2 * offset + gain) hpositive.ne'
  have hhigh := Int.lt_ediv_add_one_mul_self (2 * offset + gain) hpositive
  rcases eq_or_lt_of_le hlow with htie | hlow
  · right
    exact ⟨(2 * offset + gain) / (2 * gain) - 1, by linear_combination -htie⟩
  · left
    refine ⟨(2 * offset + gain) / (2 * gain), ?_⟩
    generalize (2 * offset + gain) / (2 * gain) = steps at hlow hhigh
    have hclose : |2 * (offset - steps * gain)| < gain := by
      rw [abs_lt]
      constructor <;> linarith
    rwa [abs_mul, abs_two] at hclose

/-- Counted without sign, the half steps between the rails are the odd
multiples of half a step below twice the rail. -/
theorem half_step_iff (hgain : 0 < gain) (offset : ℤ) :
    (∃ target, (-totalMax ≤ target ∧ target < totalMax) ∧ 2 * offset = (2 * target + 1) * gain) ↔
      ∃ halves : ℕ, Odd halves ∧ halves < 2 * totalMax ∧ 2 * |offset| = halves * gain := by
  constructor
  · rintro ⟨target, ⟨hlow, hhigh⟩, htie⟩
    refine ⟨(2 * target + 1).natAbs, by grind, by omega, ?_⟩
    have habs := congrArg abs htie
    rwa [abs_mul, abs_two, abs_mul, abs_of_pos hgain, Int.abs_eq_natAbs (2 * target + 1)] at habs
  · rintro ⟨halves, ⟨half, rfl⟩, hbound, htie⟩
    push_cast at hbound htie
    rcases abs_cases offset with ⟨habs, -⟩ | ⟨habs, -⟩
    · exact ⟨half, ⟨by omega, by omega⟩, by rw [← habs, htie]⟩
    · exact ⟨-half - 1, ⟨by omega, by omega⟩, by linear_combination 2 * habs - htie⟩

end FromTheSeed

theorem Measured.settles_iff (hmeasured : plant.Measured) :
    plant.Settles ↔ ¬∃ target, (-totalMax ≤ target ∧ target < totalMax) ∧
      2 * plant.offsetPpm = (2 * target + 1) * plant.stepPpm := by
  have hpositive := stepPpmMin_pos hmeasured.effect.1
  constructor
  · rintro hsettles ⟨target, hinside, htie⟩
    exact hmeasured.not_settles htie hinside hsettles
  · intro hoff
    rcases nearest_or_tie hpositive plant.offsetPpm with ⟨target, hnearest⟩ | ⟨target, htie⟩
    · exact hmeasured.settles_nearest hnearest
    · refine hmeasured.settles_beyond htie ?_
      by_contra hinside
      rw [not_or, not_lt, not_le] at hinside
      exact hoff ⟨target, hinside, htie⟩

/-- From its nominal seed the loop settles, within half a step of the chip's
own or at the rail, unless the seed's deadband hides a residual wider than
that or the plant lies on a half step between the rails. -/
theorem trim_settles {offset gain : ℤ} (hlow : stepPpmMin ≤ gain) (hhigh : gain ≤ stepPpmMax) :
    (Plant.new offset gain).Settles ↔
      (2 * |offset| < clockTrimStepPpm → 2 * |offset| ≤ gain) ∧
      (clockTrimStepPpm ≤ 2 * |offset| →
        ∀ halves : ℕ, Odd halves → halves < 2 * totalMax → 2 * |offset| ≠ halves * gain) := by
  have hseed : (clockTrimStepPpm : ℤ) = 2500 := rfl
  have hpositive := stepPpmMin_pos hlow
  rw [hseed]
  rcases lt_or_ge (2 * |offset|) 2500 with hinside | houtside
  · rw [(untested_new hinside).settles_iff]
    exact ⟨fun hhalf => ⟨fun _ => hhalf, fun hout => absurd hinside (not_lt.mpr hout)⟩,
      fun hheld => hheld.1 hinside⟩
  · have hunless : ((2 * |offset| < 2500 → 2 * |offset| ≤ gain) ∧ (2500 ≤ 2 * |offset| →
        ∀ halves : ℕ, Odd halves → halves < 2 * totalMax → 2 * |offset| ≠ halves * gain)) ↔
        ¬∃ target, (-totalMax ≤ target ∧ target < totalMax) ∧
          2 * offset = (2 * target + 1) * gain := by
      rw [half_step_iff hpositive]
      push Not
      exact ⟨fun hheld => hheld.2 houtside, fun hoff =>
        ⟨fun hin => absurd hin (not_lt.mpr houtside),
        fun _ => hoff⟩⟩
    rw [hunless]
    rcases lt_or_ge |offset| 74000 with hnear | hfar
    · have hmeasured := measured_new hlow hhigh hnear houtside
      rw [← settles_after (synced_new offset gain) 1, hmeasured.settles_iff, after_offsetPpm,
        after_stepPpm]
      rfl
    · refine iff_of_true (railed_new hlow hhigh hfar).settles ?_
      rintro ⟨target, hinside, htie⟩
      have hreach : |2 * target + 1| * gain ≤ 29 * stepPpmMax :=
        mul_le_mul (by unfold totalMax at hinside; grind) hhigh hpositive.le (by decide)
      have habs := congrArg abs htie
      rw [abs_mul, abs_two, abs_mul, abs_of_pos hpositive] at habs
      unfold stepPpmMax at hreach
      linarith

/-- A coarse chip outside the seed's deadband and off the half steps. -/
theorem coarse_step_chip_settles :
    (stepPpmMin ≤ 3200 ∧ 3200 ≤ stepPpmMax) ∧ (Plant.new 1700 3200).Settles := by
  have hband : stepPpmMin ≤ 3200 ∧ 3200 ≤ stepPpmMax := by decide
  refine ⟨hband, (trim_settles hband.1 hband.2).mpr ⟨fun hinside => absurd hinside (by decide), ?_⟩⟩
  intro _ halves _ _ htie
  rw [abs_of_pos (by decide)] at htie
  omega

/-- A chip at the nominal step, half a step off: every window retrims it. -/
theorem half_step_chip_never_settles : ¬∀ offset gain : ℤ,
    stepPpmMin ≤ gain → gain ≤ stepPpmMax → (Plant.new offset gain).Settles := by
  intro hall
  have hsettles := hall 1250 2500 (by decide) (by decide)
  have hmeasured : ((Plant.new 1250 2500).after 1).Measured :=
    measured_new (by decide) (by decide) (by decide) (by decide)
  rw [← settles_after (synced_new 1250 2500) 1] at hsettles
  have htie : 2 * ((Plant.new 1250 2500).after 1).offsetPpm =
      (2 * 0 + 1) * ((Plant.new 1250 2500).after 1).stepPpm := by
    rw [after_offsetPpm, after_stepPpm]
    rfl
  exact hmeasured.not_settles htie (by decide) hsettles

end Plant

end OpenServo.Bus
