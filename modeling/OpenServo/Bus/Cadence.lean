import OpenServo.Bus.ServoBus
import OpenServo.Bus.Trim
import OpenServo.Core.Transition
import OpenServo.Protocol.Grammar

/-!
# Cadence measurements

Whatever reaches the tracker, in whatever order, its sums stay exact: each is
a count of measurements times a bound on one of them, and the counts are cut
off before the product leaves the word.  What `poll` hands to the trim loop is
then inside the domain of the division.
-/

namespace OpenServo.Bus

/-! ## Sums of bounded measurements -/

/-- The sum of `count` measurements of at most `bound` each. -/
def Summed (sum : Int32) (count bound : ℕ) : Prop := sum.toInt.natAbs ≤ count * bound

theorem Summed.zero (bound : ℕ) : Summed 0 0 bound := Nat.zero_le _

section Sums

variable {sum x : Int32} {count bound : ℕ}

theorem toInt_add_of_fits (hfits : (sum.toInt + x.toInt).natAbs < 2 ^ 31) :
    (sum + x).toInt = sum.toInt + x.toInt := by
  rw [Int32.toInt_add]
  exact Int.bmod_eq_of_le (by omega) (by omega)

theorem toInt_sub_of_fits (hfits : (sum.toInt - x.toInt).natAbs < 2 ^ 31) :
    (sum - x).toInt = sum.toInt - x.toInt := by
  rw [Int32.toInt_sub]
  exact Int.bmod_eq_of_le (by omega) (by omega)

theorem room_below {cap : ℕ} (hcap : count < cap) (hroom : cap * bound < 2 ^ 31) :
    (count + 1) * bound < 2 ^ 31 :=
  (Nat.mul_le_mul_right bound hcap).trans_lt hroom

theorem Summed.natAbs_le (hsum : Summed sum count bound) (hx : x.toInt.natAbs ≤ bound) :
    (sum.toInt + x.toInt).natAbs ≤ (count + 1) * bound := by
  unfold Summed at hsum
  rw [Nat.succ_mul]
  omega

/-- One more measurement is added exactly. -/
theorem Summed.exact (hsum : Summed sum count bound) (hx : x.toInt.natAbs ≤ bound)
    (hroom : (count + 1) * bound < 2 ^ 31) : (sum + x).toInt = sum.toInt + x.toInt :=
  toInt_add_of_fits ((hsum.natAbs_le hx).trans_lt hroom)

theorem Summed.add (hsum : Summed sum count bound) (hx : x.toInt.natAbs ≤ bound)
    (hroom : (count + 1) * bound < 2 ^ 31) : Summed (sum + x) (count + 1) bound := by
  unfold Summed
  rw [hsum.exact hx hroom]
  exact hsum.natAbs_le hx

end Sums

namespace ClockTracker

/-! ## What reaches a tracker -/

inductive ClockAct where
  /-- A dispatched MGMT CAL, with its argument bytes. -/
  | announce (args : FrameBytes)
  | calBreak (now : UInt32) (cursor : ℕ)
  /-- A drift break on a wire of this rate. -/
  | driftBreak (now : UInt32) (cursor len : ℕ) (rate : BaudRate)
  /-- A verified frame, with its length byte. -/
  | verified (len : Byte) (silent : Bool)
  | rateChange
  | abandon
  | poll

def act (chip : Chip) (clock : ClockTracker) : ClockAct → ClockTracker
  | .announce args =>
      match CalReq.parse args with
      | some req => { clock with pendingCal := some (req.gapUs, req.gaps) }
      | none => clock
  | .calBreak now cursor => (clock.onCalBreak now cursor chip.ticksPerUs).2
  | .driftBreak now cursor len rate => clock.onDriftBreak now cursor len (tpbFor chip rate)
  | .verified len silent => clock.noteVerified (footprint len) silent
  | .rateChange => clock.restart
  | .abandon => clock.abandonCal
  | .poll => clock.poll.2

/-! ## The measurements -/

/-- The error of a gap of the train, when it passes the gate. -/
def gapError (cal : CalRun) (now : UInt32) : Option Int32 :=
  let err := (now - cal.lastBreak - cal.gapTicks).toInt32
  if unsignedAbs err ≤ (cal.gapTicks >>> trimGateShift).toNat then some err else none

/-- The error and span of a drift pair, when it passes the gates. -/
def pairError (clock : ClockTracker) (now : UInt32) (cursor len : ℕ) (tpb : UInt32) :
    Option (Int32 × UInt32) :=
  match clock.driftPrev, clock.driftSeen with
  | some (t1, c1), .one footprint true =>
      if len == 0 || ringWrap (cursor + len - c1) len != footprint then none
      else
        let span := UInt32.ofNat footprint * tpb
        let err := (now - t1 - span).toInt32
        if unsignedAbs err > (span >>> trimGateShift).toNat then none else some (err, span)
  | _, _ => none

/-- The measurement a poll hands to the trim loop. -/
def handed (clock : ClockTracker) : Option (ℤ × ℕ) :=
  let err := clock.cadenceErr.toInt
  let span := clock.cadenceSpan.toNat
  if clock.calReady then some (err, span)
  else if !clock.driftReady then none
  else if span == 0 then none
  else if err.natAbs * 1000000 ≥ (driftSanityPpm + 1) * span then none
  else some (err, span)

variable {clock : ClockTracker}

/-- The loop sees what is handed and nothing else. -/
theorem poll_handed (clock : ClockTracker) :
    (clock.poll.1, clock.poll.2.trim) =
      match clock.handed with
      | some (err, span) => clock.trim.onWindow err span
      | none => (none, clock.trim) := by
  unfold poll handed
  by_cases hcal : clock.calReady
  · simp [hcal, restart]
  · by_cases hdrift : clock.driftReady
    · by_cases hspan : clock.cadenceSpan.toNat = 0
      · simp [hcal, hdrift, hspan]
      · by_cases hsanity :
          clock.cadenceErr.toInt.natAbs * 1000000 ≥ (driftSanityPpm + 1) * clock.cadenceSpan.toNat
        · simp [hcal, hdrift, hspan, hsanity]
        · rcases hwindow : clock.trim.onWindow clock.cadenceErr.toInt clock.cadenceSpan.toNat with
            ⟨_ | total, trim⟩ <;> simp [hcal, hdrift, hspan, hsanity, hwindow, restart]
    · simp [hcal, hdrift]

theorem onDriftBreak_eq (clock : ClockTracker) (now : UInt32) (cursor len : ℕ) (tpb : UInt32) :
    clock.onDriftBreak now cursor len tpb =
      match clock.pairError now cursor len tpb with
      | some (err, span) =>
          ({ clock with driftPrev := some (now, cursor), driftSeen := .none }).driftPair err span
      | none => { clock with driftPrev := some (now, cursor), driftSeen := .none } := by
  unfold onDriftBreak pairError
  rcases clock.driftPrev with _ | ⟨t1, c1⟩
  · rfl
  · rcases clock.driftSeen with _ | ⟨footprint, silent⟩ | _
    · rfl
    · cases silent with
      | false => rfl
      | true =>
          simp only
          split_ifs <;> rfl
    · rfl

theorem gapError_le {cal : CalRun} {now : UInt32} {err : Int32}
    (herr : gapError cal now = some err) :
    err.toInt.natAbs ≤ cal.gapTicks.toNat / 16 := by
  simp only [gapError, Option.ite_none_right_eq_some, Option.some.injEq] at herr
  obtain ⟨hgate, rfl⟩ := herr
  rw [UInt32.toNat_shiftRight, Nat.shiftRight_eq_div_pow] at hgate
  exact hgate

theorem calGap_eq (cal : CalRun) (now : UInt32) (cursor : ℕ) :
    calGap cal now cursor =
      let passed := { cal with
        cursor, lastBreak := now, gapsLeft := if cal.gapsLeft == 0 then 0 else cal.gapsLeft - 1 }
      match gapError cal now with
      | some err =>
          { passed with
            err := cal.err + err, span := cal.span + cal.gapTicks, valid := cal.valid + 1 }
      | none => passed := by
  unfold calGap gapError
  dsimp only
  split_ifs <;> rfl

/-! ## Exact sums -/

/-- A gap of the train is added without a wrap. -/
structure ExactGap (cal : CalRun) (err : Int32) : Prop where
  err : (cal.err + err).toInt = cal.err.toInt + err.toInt
  span : (cal.span + cal.gapTicks).toNat = cal.span.toNat + cal.gapTicks.toNat
  valid : (cal.valid + 1).toNat = cal.valid.toNat + 1

/-- A pair is added to the baseline, or shifted by it and added to the
window, without a wrap and without saturating. -/
def ExactPair (clock : ClockTracker) (err : Int32) (span : UInt32) : Prop :=
  match clock.driftBase with
  | none =>
      (clock.driftBaseErr + err).toInt = clock.driftBaseErr.toInt + err.toInt ∧
        (clock.driftBaseN + 1).toNat = clock.driftBaseN.toNat + 1
  | some base =>
      (clock.driftWinErr + (err - base)).toInt =
          clock.driftWinErr.toInt + (err.toInt - base.toInt) ∧
        (saturatingAdd clock.driftWinSpan span).toNat = clock.driftWinSpan.toNat + span.toNat ∧
        (clock.driftWinN + 1).toNat = clock.driftWinN.toNat + 1

/-- No accumulator that the act adds to wraps. -/
def ActsExactly (chip : Chip) (clock : ClockTracker) : ClockAct → Prop
  | .calBreak now cursor => clock.pendingCal = none → ∀ cal err, clock.cal = some cal →
      cursor ≠ cal.cursor → gapError cal now = some err → ExactGap cal err
  | .driftBreak now cursor len rate => ∀ err span,
      clock.pairError now cursor len (tpbFor chip rate) = some (err, span) →
        clock.ExactPair err span
  | _ => True

/-! ## The invariant -/

/-- The longest span of a pair: the largest frame at the slowest rate. -/
def pairSpanMax : ℕ := 258 * 5140

def pairErrorMax : ℕ := pairSpanMax / 16

/-- A live train. -/
structure TrainSums (chip : Chip) (cal : CalRun) : Prop where
  gap : 0 < cal.gapTicks.toNat ∧ cal.gapTicks.toNat ≤ 65535 * chip.ticksPerUs.toNat
  running : 0 < cal.gapsLeft.toNat
  count : cal.valid.toNat + cal.gapsLeft.toNat ≤ cal.total.toNat
  err : Summed cal.err cal.valid.toNat (cal.gapTicks.toNat / 16)
  span : cal.span.toNat = cal.valid.toNat * cal.gapTicks.toNat

/-- The sums of the drift tracker, each within its count of bounded pairs. -/
structure DriftSums (verified : VerifiedSpan) (baseline : Option Int32) (baseErr : Int32)
    (baseN : UInt8) (winErr : Int32) (winSpan : UInt32) (winN : UInt8) : Prop where
  seen : ∀ size silent, verified = .one size silent → size ≤ 258
  base : baseline = none → baseN.toNat < 32 ∧ Summed baseErr baseN.toNat pairErrorMax
  seam : ∀ shift, baseline = some shift → shift.toInt.natAbs ≤ pairErrorMax
  window : winN.toNat < 128 ∧ Summed winErr winN.toNat (2 * pairErrorMax)
  windowSpan : winSpan.toNat ≤ winN.toNat * pairSpanMax

structure Cadenced (chip : Chip) (clock : ClockTracker) : Prop where
  announced : ∀ gapUs gaps, clock.pendingCal = some (gapUs, gaps) →
    (0 < gapUs ∧ gapUs < 65536) ∧ gaps ≠ 0
  train : ∀ cal, clock.cal = some cal → TrainSums chip cal
  drift : DriftSums clock.driftSeen clock.driftBase clock.driftBaseErr clock.driftBaseN
    clock.driftWinErr clock.driftWinSpan clock.driftWinN
  ready : clock.calReady →
    0 < clock.cadenceSpan.toNat ∧ clock.cadenceErr.toInt.natAbs ≤ clock.cadenceSpan.toNat

variable {chip : Chip}

theorem driftSums_fresh : DriftSums .none none 0 0 0 0 0 := by
  constructor <;> simp [Summed]

theorem cadenced_new (stepPpm : ℕ) : Cadenced chip (ClockTracker.new stepPpm) := by
  constructor
  case drift => exact driftSums_fresh
  all_goals simp [ClockTracker.new]

theorem Cadenced.restart (hclock : Cadenced chip clock) : Cadenced chip clock.restart :=
  ⟨hclock.announced, hclock.train, driftSums_fresh, hclock.ready⟩

theorem Cadenced.abandonCal (hclock : Cadenced chip clock) : Cadenced chip clock.abandonCal := by
  constructor
  case announced => simp [ClockTracker.abandonCal]
  case train => simp [ClockTracker.abandonCal]
  case drift => exact hclock.drift
  case ready => exact hclock.ready

theorem Cadenced.announce (hclock : Cadenced chip clock) (args : FrameBytes) :
    Cadenced chip (clock.act chip (.announce args)) := by
  cases hparse : CalReq.parse args with
  | none =>
      simp only [act, hparse]
      exact hclock
  | some req =>
      obtain ⟨⟨hlt, hgap, hgaps⟩, -⟩ := (CalReq.accepts args req).mp hparse
      simp only [act, hparse]
      constructor
      case announced =>
          rintro gapUs gaps heq
          obtain ⟨rfl, rfl⟩ := Prod.mk.inj (Option.some.inj heq)
          exact ⟨⟨Nat.pos_of_ne_zero hgap, hlt⟩, hgaps⟩
      case train => exact hclock.train
      case drift => exact hclock.drift
      case ready => exact hclock.ready

theorem Cadenced.noteVerified (hclock : Cadenced chip clock) (len : Byte) (silent : Bool) :
    Cadenced chip (clock.noteVerified (footprint len) silent) := by
  have hseen : ∀ size mute,
      (clock.noteVerified (footprint len) silent).driftSeen = .one size mute → size ≤ 258 := by
    intro size mute hone
    have hlen := len.toNat_lt
    simp only [ClockTracker.noteVerified] at hone
    split at hone
    · obtain ⟨rfl, -⟩ := VerifiedSpan.one.inj hone
      simp only [footprint]
      omega
    · cases hone
  exact ⟨hclock.announced, hclock.train, { hclock.drift with seen := hseen }, hclock.ready⟩

/-! ## Trains -/

theorem TrainSums.fits {cal : CalRun} (hsums : TrainSums chip cal)
    (hfits : chip.ticksPerUs.toNat ≤ 257) : 255 * cal.gapTicks.toNat < 2 ^ 32 := by
  have hgap := hsums.gap.2
  have hproduct := Nat.mul_le_mul_left 65535 hfits
  omega

theorem TrainSums.exact {cal : CalRun} (hsums : TrainSums chip cal)
    (hfits : chip.ticksPerUs.toNat ≤ 257) {now : UInt32} {err : Int32}
    (herr : gapError cal now = some err) : ExactGap cal err := by
  have hspan := hsums.fits hfits
  have htotal := cal.total.toNat_lt
  have hrunning := hsums.running
  have hcount := hsums.count
  have hvalid : cal.valid.toNat + 1 ≤ 255 := by omega
  constructor
  case err =>
      refine hsums.err.exact (gapError_le herr) ?_
      have hproduct := Nat.mul_le_mul_right (cal.gapTicks.toNat / 16) hvalid
      omega
  case span =>
      have hproduct := Nat.mul_le_mul_right cal.gapTicks.toNat hvalid
      rw [Nat.succ_mul, ← hsums.span] at hproduct
      rw [UInt32.toNat_add, Nat.mod_eq_of_lt (hproduct.trans_lt hspan)]
  case valid =>
      rw [UInt8.toNat_add]
      exact Nat.mod_eq_of_lt (by simpa using Nat.lt_succ_of_le hvalid)

theorem TrainSums.accept {cal : CalRun} (hsums : TrainSums chip cal)
    (hfits : chip.ticksPerUs.toNat ≤ 257) {now : UInt32} {err : Int32}
    (herr : gapError cal now = some err) :
    Summed (cal.err + err) (cal.valid + 1).toNat (cal.gapTicks.toNat / 16) ∧
      (cal.span + cal.gapTicks).toNat = (cal.valid + 1).toNat * cal.gapTicks.toNat := by
  have hexact := hsums.exact hfits herr
  have hle := gapError_le herr
  rw [hexact.valid]
  constructor
  · unfold Summed
    rw [hexact.err]
    exact hsums.err.natAbs_le hle
  · rw [hexact.span, hsums.span, Nat.succ_mul]

/-- A ruler mark of a train that keeps running. -/
theorem TrainSums.gap_passed {cal : CalRun} (hsums : TrainSums chip cal)
    (hfits : chip.ticksPerUs.toNat ≤ 257) (now : UInt32) (cursor : ℕ) :
    Summed (calGap cal now cursor).err (calGap cal now cursor).valid.toNat
        ((calGap cal now cursor).gapTicks.toNat / 16) ∧
      (calGap cal now cursor).span.toNat =
        (calGap cal now cursor).valid.toNat * (calGap cal now cursor).gapTicks.toNat ∧
      (calGap cal now cursor).valid.toNat + (calGap cal now cursor).gapsLeft.toNat ≤
        (calGap cal now cursor).total.toNat := by
  have hrunning := hsums.running
  have hcount := hsums.count
  have hleft : (if cal.gapsLeft == 0 then 0 else cal.gapsLeft - 1).toNat =
      cal.gapsLeft.toNat - 1 := by
    have hne : cal.gapsLeft ≠ 0 := fun hzero => by simp [hzero] at hrunning
    rw [if_neg (by simpa using hne)]
    exact UInt8.toNat_sub_of_le _ _ (UInt8.le_iff_toNat_le.mpr hrunning)
  rw [calGap_eq]
  cases herr : gapError cal now with
  | none =>
      refine ⟨hsums.err, hsums.span, ?_⟩
      simp only [hleft]
      omega
  | some err =>
      obtain ⟨hsum, hspan⟩ := hsums.accept hfits herr
      refine ⟨hsum, hspan, ?_⟩
      simp only [hleft, (hsums.exact hfits herr).valid]
      omega

theorem calGap_fixed (cal : CalRun) (now : UInt32) (cursor : ℕ) :
    (calGap cal now cursor).gapTicks = cal.gapTicks ∧
      (calGap cal now cursor).total = cal.total := by
  rw [calGap_eq]
  cases gapError cal now <;> exact ⟨rfl, rfl⟩

theorem trainSums_start (hticks : 0 < chip.ticksPerUs.toNat) (hfits : chip.ticksPerUs.toNat ≤ 257)
    {gapUs : ℕ} {gaps : Byte} (hannounced : (0 < gapUs ∧ gapUs < 65536) ∧ gaps ≠ 0) (now : UInt32)
    (cursor : ℕ) :
    TrainSums chip ⟨UInt32.ofNat gapUs * chip.ticksPerUs, gaps, gaps, 0, now, cursor, 0, 0⟩ := by
  obtain ⟨⟨hpos, hlt⟩, hgaps⟩ := hannounced
  have hproduct := Nat.mul_le_mul (Nat.le_of_lt_succ hlt) hfits
  have hticksOf : (UInt32.ofNat gapUs * chip.ticksPerUs).toNat = gapUs * chip.ticksPerUs.toNat := by
    rw [UInt32.toNat_mul, UInt32.toNat_ofNat_of_lt' (hlt.trans (by decide)),
      Nat.mod_eq_of_lt (by omega)]
  constructor
  case gap =>
      rw [hticksOf]
      exact ⟨Nat.mul_pos hpos hticks, Nat.mul_le_mul_right _ (Nat.le_of_lt_succ hlt)⟩
  case running => exact Nat.pos_of_ne_zero fun hzero => hgaps (UInt8.toNat_inj.mp hzero)
  case count => exact (Nat.zero_add _).le
  case err => exact Summed.zero _
  case span => simp

theorem Cadenced.onCalBreak (hclock : Cadenced chip clock) (hticks : 0 < chip.ticksPerUs.toNat)
    (hfits : chip.ticksPerUs.toNat ≤ 257) (now : UInt32) (cursor : ℕ) :
    Cadenced chip (clock.onCalBreak now cursor chip.ticksPerUs).2 := by
  unfold ClockTracker.onCalBreak
  cases hpending : clock.pendingCal with
  | some announced =>
      have hstart := trainSums_start hticks hfits (hclock.announced _ _ hpending) now cursor
      refine ⟨by simp [ClockTracker.restart], ?_, driftSums_fresh, hclock.ready⟩
      rintro cal ⟨⟩
      exact hstart
  | none =>
      have hannounced : ∀ (gapUs : ℕ) (gaps : Byte), none = some (gapUs, gaps) →
          (0 < gapUs ∧ gapUs < 65536) ∧ gaps ≠ 0 := by
        rintro _ _ ⟨⟩
      cases hcal : clock.cal with
      | none => exact hclock
      | some cal =>
          have hsums := hclock.train cal hcal
          obtain ⟨hsum, hspan, hcount⟩ := hsums.gap_passed hfits now cursor
          obtain ⟨hgap, htotal⟩ := calGap_fixed cal now cursor
          dsimp only
          split_ifs with hsame hleft hclean
          · exact hclock
          · refine ⟨hannounced, ?_, hclock.drift, hclock.ready⟩
            rintro _ ⟨⟩
            constructor
            case gap =>
                rw [hgap]
                exact hsums.gap
            case running =>
                exact Nat.pos_of_ne_zero fun hzero =>
                  bne_iff_ne.mp hleft (UInt8.toNat_inj.mp hzero)
            case count => exact hcount
            case err => exact hsum
            case span => exact hspan
          · refine ⟨hannounced, by rintro _ ⟨⟩, hclock.drift, fun _ => ?_⟩
            have hrunning := hsums.running
            have hgaps := hsums.count
            rw [htotal] at hclean
            have hvalid : 0 < (calGap cal now cursor).valid.toNat := by omega
            have hpositive : 0 < (calGap cal now cursor).gapTicks.toNat := by
              rw [hgap]
              exact hsums.gap.1
            rw [hspan]
            exact ⟨Nat.mul_pos hvalid hpositive,
              hsum.trans (Nat.mul_le_mul_left _ (Nat.div_le_self _ _))⟩
          · exact ⟨hannounced, by rintro _ ⟨⟩, hclock.drift, hclock.ready⟩

/-! ## Drift pairs -/

theorem tpbFor_le (hfits : chip.ticksPerUs.toNat ≤ 257) (rate : BaudRate) :
    (tpbFor chip rate).toNat ≤ 5140 := by
  have hbytes : chip.ticksPerUs.toNat * byteTimeNumerator / rate.asHz ≤ 5140 := by
    have hproduct := Nat.mul_le_mul_right byteTimeNumerator hfits
    calc chip.ticksPerUs.toNat * byteTimeNumerator / rate.asHz
        ≤ 257 * byteTimeNumerator / rate.asHz := Nat.div_le_div_right hproduct
      _ ≤ 257 * byteTimeNumerator / 500000 :=
          Nat.div_le_div_left (by cases rate <;> decide) (by decide)
      _ = 5140 := by decide
  rw [tpbFor, UInt32.toNat_ofNat_of_lt' (hbytes.trans_lt (by decide))]
  exact hbytes

theorem pairError_le (hfits : chip.ticksPerUs.toNat ≤ 257)
    (hseen : ∀ size silent, clock.driftSeen = .one size silent → size ≤ 258) {now : UInt32}
    {cursor len : ℕ} {rate : BaudRate} {err : Int32} {span : UInt32}
    (hpair : clock.pairError now cursor len (tpbFor chip rate) = some (err, span)) :
    err.toInt.natAbs ≤ pairErrorMax ∧ span.toNat ≤ pairSpanMax := by
  unfold pairError at hpair
  split at hpair
  case h_1 hprev hone =>
      dsimp only at hpair
      split_ifs at hpair with hinexact hgated
      obtain ⟨rfl, rfl⟩ := Prod.mk.inj (Option.some.inj hpair)
      have hsize := hseen _ _ hone
      have htpb := tpbFor_le hfits rate
      have hproduct := Nat.mul_le_mul hsize htpb
      rename_i size
      have hspan :
          (UInt32.ofNat size * tpbFor chip rate).toNat = size * (tpbFor chip rate).toNat := by
        rw [UInt32.toNat_mul, UInt32.toNat_ofNat_of_lt' (hsize.trans_lt (by decide)),
          Nat.mod_eq_of_lt (hproduct.trans_lt (by decide))]
      have hle : (UInt32.ofNat size * tpbFor chip rate).toNat ≤ pairSpanMax := by
        rw [hspan]
        exact hproduct
      rw [not_lt, UInt32.toNat_shiftRight, Nat.shiftRight_eq_div_pow] at hgated
      exact ⟨hgated.trans (Nat.div_le_div_right hle), hle⟩
  case h_2 => cases hpair

theorem toNat_saturatingAdd {a b : UInt32} (hfits : a.toNat + b.toNat < 2 ^ 32) :
    (saturatingAdd a b).toNat = a.toNat + b.toNat := by
  rw [saturatingAdd, if_pos (Nat.le_of_lt_succ hfits), UInt32.toNat_add, Nat.mod_eq_of_lt hfits]

theorem toNat_succ {n : UInt8} (hfits : n.toNat < 255) : (n + 1).toNat = n.toNat + 1 := by
  rw [UInt8.toNat_add]
  exact Nat.mod_eq_of_lt (by simpa using Nat.add_lt_add_right hfits 1)

section Pair

variable {err : Int32} {span : UInt32} (herr : err.toInt.natAbs ≤ pairErrorMax)
  (hspan : span.toNat ≤ pairSpanMax)

include herr in
theorem shifted {base : Int32} (hbase : base.toInt.natAbs ≤ pairErrorMax) :
    (err - base).toInt = err.toInt - base.toInt ∧
      (err - base).toInt.natAbs ≤ 2 * pairErrorMax := by
  have hmax : pairErrorMax = 82882 := rfl
  have hexact : (err - base).toInt = err.toInt - base.toInt := toInt_sub_of_fits (by omega)
  exact ⟨hexact, by omega⟩

/-- The sums a tracker can be asked for, all inside their words. -/
theorem pair_rooms : 32 * pairErrorMax < 2 ^ 31 ∧ 128 * (2 * pairErrorMax) < 2 ^ 31 ∧
    128 * pairSpanMax < 2 ^ 32 := by
  decide

include hspan in
theorem DriftSums.windowSpan_add {verified : VerifiedSpan} {baseline : Option Int32}
    {baseErr winErr : Int32} {baseN winN : UInt8} {winSpan : UInt32}
    (hdrift : DriftSums verified baseline baseErr baseN winErr winSpan winN) :
    (saturatingAdd winSpan span).toNat = winSpan.toNat + span.toNat ∧
      winSpan.toNat + span.toNat ≤ (winN.toNat + 1) * pairSpanMax := by
  have hwindow := hdrift.windowSpan
  have hsum : winSpan.toNat + span.toNat ≤ (winN.toNat + 1) * pairSpanMax := by
    rw [Nat.succ_mul]
    exact Nat.add_le_add hwindow hspan
  have hcap := Nat.mul_le_mul_right pairSpanMax (Nat.succ_le_of_lt hdrift.window.1)
  exact ⟨toNat_saturatingAdd ((hsum.trans hcap).trans_lt pair_rooms.2.2), hsum⟩

include herr hspan in
theorem Cadenced.exactPair (hclock : Cadenced chip clock) : clock.ExactPair err span := by
  have hdrift := hclock.drift
  unfold ExactPair
  cases hbase : clock.driftBase with
  | none =>
      obtain ⟨hcount, hsum⟩ := hdrift.base hbase
      exact ⟨hsum.exact herr (room_below hcount pair_rooms.1), toNat_succ (by omega)⟩
  | some base =>
      obtain ⟨hcount, hsum⟩ := hdrift.window
      obtain ⟨hshift, hshifted⟩ := shifted herr (hdrift.seam base hbase)
      refine ⟨?_, (hdrift.windowSpan_add hspan).1, toNat_succ (by omega)⟩
      rw [hsum.exact hshifted (room_below hcount pair_rooms.2.1), hshift]

/-- The mean of the baseline is no larger than one of its pairs. -/
theorem natAbs_mean {sum : Int32} (hsum : Summed sum 32 pairErrorMax) :
    (sum / 32).toInt.natAbs ≤ pairErrorMax := by
  have hmax : pairErrorMax = 82882 := rfl
  have hquotient : (sum.toInt.tdiv 32).natAbs ≤ pairErrorMax := by
    rw [Int.natAbs_tdiv]
    exact Nat.div_le_of_le_mul hsum
  have hdiv : (sum / 32).toInt = sum.toInt.tdiv 32 := by
    rw [Int32.toInt_div]
    change (sum.toInt.tdiv 32).bmod (2 ^ 32) = sum.toInt.tdiv 32
    exact Int.bmod_eq_of_le (by omega) (by omega)
  rwa [hdiv]

include herr hspan in
theorem Cadenced.driftPair (hclock : Cadenced chip clock) :
    Cadenced chip (clock.driftPair err span) := by
  have hdrift := hclock.drift
  have hexact := hclock.exactPair herr hspan
  unfold ClockTracker.driftPair
  unfold ExactPair at hexact
  cases hbase : clock.driftBase with
  | none =>
      simp only [hbase] at hexact
      rw [hbase] at hdrift
      obtain ⟨hcount, hsum⟩ := hdrift.base rfl
      have hadded := hsum.add herr (room_below hcount pair_rooms.1)
      dsimp only
      split_ifs with hfull
      · have hthirtyTwo : clock.driftBaseN.toNat + 1 = 32 := by
          have hfull := UInt8.le_iff_toNat_le.mp hfull
          rw [hexact.2] at hfull
          exact le_antisymm hcount hfull
        rw [hthirtyTwo] at hadded
        refine ⟨hclock.announced, hclock.train, { hdrift with base := ?_, seam := ?_ },
          hclock.ready⟩
        · rintro ⟨⟩
        · rintro _ ⟨⟩
          exact natAbs_mean hadded
      · have hbelow : clock.driftBaseN.toNat + 1 < 32 := by
          have hfull := (not_congr UInt8.le_iff_toNat_le).mp hfull
          rw [hexact.2] at hfull
          exact not_le.mp hfull
        refine ⟨hclock.announced, hclock.train, { hdrift with base := ?_ }, hclock.ready⟩
        intro _
        rw [hexact.2]
        exact ⟨hbelow, hadded⟩
  | some base =>
      simp only [hbase] at hexact
      rw [hbase] at hdrift
      obtain ⟨hcount, hsum⟩ := hdrift.window
      obtain ⟨hshift, hshifted⟩ := shifted herr (hdrift.seam base rfl)
      have hadded := hsum.add hshifted (room_below hcount pair_rooms.2.1)
      obtain ⟨hspanAdd, hspanLe⟩ := hdrift.windowSpan_add hspan
      have hfresh := driftSums_fresh
      dsimp only
      split_ifs with hfull hidle
      · refine ⟨hclock.announced, hclock.train, ?_, ?_⟩
        · exact { hdrift with window := hfresh.window, windowSpan := hfresh.windowSpan }
        · intro hcal
          simp [show clock.calReady = true from hcal] at hidle
      · refine ⟨hclock.announced, hclock.train, ?_, hclock.ready⟩
        exact { hdrift with window := hfresh.window, windowSpan := hfresh.windowSpan }
      · have hbelow : clock.driftWinN.toNat + 1 < 128 := by
          have hfull := (not_congr UInt8.le_iff_toNat_le).mp hfull
          rw [hexact.2.2] at hfull
          exact not_le.mp hfull
        refine ⟨hclock.announced, hclock.train, { hdrift with window := ?_, windowSpan := ?_ },
          hclock.ready⟩
        · rw [hexact.2.2]
          exact ⟨hbelow, hadded⟩
        · rw [hexact.2.2, hspanAdd]
          exact hspanLe

end Pair

theorem Cadenced.onDriftBreak (hclock : Cadenced chip clock) (hfits : chip.ticksPerUs.toNat ≤ 257)
    (now : UInt32) (cursor len : ℕ) (rate : BaudRate) :
    Cadenced chip (clock.onDriftBreak now cursor len (tpbFor chip rate)) := by
  have hopened : Cadenced chip { clock with driftPrev := some (now, cursor), driftSeen := .none } :=
    ⟨hclock.announced, hclock.train, { hclock.drift with seen := by rintro _ _ ⟨⟩ }, hclock.ready⟩
  rw [onDriftBreak_eq]
  cases hpair : clock.pairError now cursor len (tpbFor chip rate) with
  | none => exact hopened
  | some pair =>
      obtain ⟨herr, hspan⟩ := pairError_le hfits hclock.drift.seen hpair
      exact hopened.driftPair herr hspan

theorem Cadenced.retrim (hclock : Cadenced chip clock) (trim : TrimLoop) :
    Cadenced chip { clock with trim } :=
  ⟨hclock.announced, hclock.train, hclock.drift, hclock.ready⟩

theorem Cadenced.poll (hclock : Cadenced chip clock) : Cadenced chip clock.poll.2 := by
  unfold ClockTracker.poll
  dsimp only
  by_cases hcal : clock.calReady = true
  · have hspent :
        Cadenced chip { clock with calReady := false, cadenceErr := 0, cadenceSpan := 0 } :=
      ⟨hclock.announced, hclock.train, hclock.drift, by rintro ⟨⟩⟩
    rw [if_pos hcal]
    exact hspent.restart.retrim _
  · have hspent : Cadenced chip
        { clock with driftReady := false, cadenceErr := 0, cadenceSpan := 0 } :=
      ⟨hclock.announced, hclock.train, hclock.drift, fun hready => absurd hready hcal⟩
    rw [if_neg hcal]
    split_ifs with hidle hempty hinsane hmoved
    · exact hclock
    · exact hspent
    · exact hspent
    · exact (hspent.retrim _).restart
    · exact hspent.retrim _

/-! ## What the loop is handed -/

/-- A measurement inside the domain of the division, and sums that do not
wrap. -/
structure Disciplined (chip : Chip) (clock : ClockTracker) : Prop where
  passes : (clock.poll.1, clock.poll.2.trim) =
    match clock.handed with
    | some (err, span) => clock.trim.onWindow err span
    | none => (none, clock.trim)
  span : ∀ err span, clock.handed = some (err, span) → 0 < span
  bounded : ∀ err span, clock.handed = some (err, span) → err.natAbs ≤ span
  divides : ∀ err span, clock.handed = some (err, span) →
    ppm err span = (err * 1000000).tdiv span
  exact : ∀ act, clock.ActsExactly chip act

theorem Cadenced.act (hclock : Cadenced chip clock) (hticks : 0 < chip.ticksPerUs.toNat)
    (hfits : chip.ticksPerUs.toNat ≤ 257) (act : ClockAct) :
    Cadenced chip (clock.act chip act) := by
  cases act with
  | announce args => exact hclock.announce args
  | calBreak now cursor => exact hclock.onCalBreak hticks hfits now cursor
  | driftBreak now cursor len rate => exact hclock.onDriftBreak hfits now cursor len rate
  | verified len silent => exact hclock.noteVerified len silent
  | rateChange => exact hclock.restart
  | abandon => exact hclock.abandonCal
  | poll => exact hclock.poll

theorem Cadenced.handed (hclock : Cadenced chip clock) {err : ℤ} {span : ℕ}
    (hhanded : clock.handed = some (err, span)) : 0 < span ∧ err.natAbs ≤ span := by
  unfold ClockTracker.handed at hhanded
  dsimp only at hhanded
  split_ifs at hhanded with hcal hidle hempty hinsane
  · obtain ⟨rfl, rfl⟩ := Prod.mk.inj (Option.some.inj hhanded)
    exact hclock.ready hcal
  · obtain ⟨rfl, rfl⟩ := Prod.mk.inj (Option.some.inj hhanded)
    rw [show driftSanityPpm + 1 = 8001 from rfl] at hinsane
    exact ⟨Nat.pos_of_ne_zero (by simpa using hempty), by omega⟩

theorem Cadenced.disciplined (hclock : Cadenced chip clock) (hfits : chip.ticksPerUs.toNat ≤ 257) :
    Disciplined chip clock := by
  constructor
  case passes => exact clock.poll_handed
  case span => exact fun err span hhanded => (hclock.handed hhanded).1
  case bounded => exact fun err span hhanded => (hclock.handed hhanded).2
  case divides =>
      intro err span hhanded
      obtain ⟨hspan, hbounded⟩ := hclock.handed hhanded
      exact ppm_eq (by omega)
  case exact =>
      intro act
      cases act with
      | calBreak now cursor =>
          intro _ cal err hcal _ herr
          exact (hclock.train cal hcal).exact hfits herr
      | driftBreak now cursor len rate =>
          intro err span hpair
          obtain ⟨herr, hspan⟩ := pairError_le hfits hclock.drift.seen hpair
          exact hclock.exactPair herr hspan
      | _ => trivial

/-- After any acts in any order the sums are exact and what the loop is handed
is in the domain of its division.  The bound on the tick rate keeps the longest
train, 255 gaps of 65535 us, inside a word. -/
theorem cadence_is_disciplined (hticks : 0 < chip.ticksPerUs.toNat)
    (hfits : chip.ticksPerUs.toNat ≤ 257) (stepPpm : ℕ) (acts : List ClockAct) :
    Disciplined chip (Transition.run (ClockTracker.act chip) (ClockTracker.new stepPpm) acts) :=
  (Transition.run_invariant _ (Cadenced chip) (fun _ act hclock => hclock.act hticks hfits act)
    (cadenced_new stepPpm) acts).disciplined hfits

/-- A train of one gap, ten ticks long against the announced millisecond. -/
theorem one_gap_train_is_disciplined :
    let clock := Transition.run (ClockTracker.act ⟨48, clockTrimStepPpm⟩)
      (ClockTracker.new clockTrimStepPpm)
      [.announce (.ofList [0xE8, 0x03, 1]), .calBreak 0 1, .calBreak 48010 2]
    clock.handed = some (10, 48000) ∧ Disciplined ⟨48, clockTrimStepPpm⟩ clock :=
  ⟨by decide, cadence_is_disciplined (by decide) (by decide) clockTrimStepPpm _⟩

end ClockTracker

end OpenServo.Bus
