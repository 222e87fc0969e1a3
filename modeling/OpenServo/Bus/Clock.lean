import OpenServo.Bus.Ring

/-!
# Clock discipline

The trim controller that folds windowed cadence error into chip trim steps,
and the tracker that measures that error from MGMT CAL break trains and from
pairs of breaks around one silent instruction.
-/

namespace OpenServo.Bus

/-! ## The trim loop -/

def stepPpmMin : ℤ := 800
def stepPpmMax : ℤ := 4000
def stepsMax : ℕ := 4
def totalMax : ℤ := 15

structure TrimLoop where
  /-- Applied trim, in chip steps from the factory default. -/
  total : ℤ
  stepPpm : ℤ
  lastPpm : ℤ
  lastSteps : ℤ
  deriving DecidableEq, Repr

/-- The restoring division: twenty quotient bits of `rem / span`. -/
def divideBits : ℕ → ℕ → ℕ → ℕ → ℕ
  | 0, _, _, q => q
  | bits + 1, span, rem, q =>
      let shifted := span * 2 ^ bits
      if rem ≥ shifted then divideBits bits span (rem - shifted) (q + 2 ^ bits)
      else divideBits bits span rem q

/-- `err * 1_000_000 / span`, truncated toward zero and saturated. -/
def ppm (err : ℤ) (span : ℕ) : ℤ :=
  let rem := err.natAbs * 1000000
  let q := if rem ≥ span * 2 ^ 20 then 2 ^ 20 - 1 else divideBits 20 span rem 0
  if err < 0 then -(q : ℤ) else q

namespace TrimLoop

def new (stepPpmNominal : ℕ) : TrimLoop := ⟨0, stepPpmNominal, 0, 0⟩

/-- The step effect the last correction shows, when it is believable. -/
def observe (trim : TrimLoop) (ppm : ℤ) : TrimLoop :=
  if trim.lastSteps == 0 then trim
  else
    let delta := trim.lastPpm - ppm
    let q : ℤ := delta.natAbs / min trim.lastSteps.natAbs stepsMax
    let observed := if (delta < 0) == (trim.lastSteps < 0) then q else -q
    if stepPpmMin ≤ observed && observed ≤ stepPpmMax then { trim with stepPpm := observed }
    else trim

/-- Threshold compares at the odd multiples of half a step. -/
def stepsFor (trim : TrimLoop) (ppm : ℤ) : ℤ :=
  let t := 2 * ppm.natAbs
  let mag : ℕ := ((List.range stepsMax).filter fun k => t ≥ (2 * k + 1) * trim.stepPpm.toNat).length
  if ppm < 0 then -(mag : ℤ) else mag

/-- One measurement window: the new trim total when it changed. -/
def onWindow (trim : TrimLoop) (errTicks : ℤ) (spanTicks : ℕ) : Option ℤ × TrimLoop :=
  if spanTicks == 0 then (none, trim)
  else
    let ppm := ppm errTicks spanTicks
    let trim := trim.observe ppm
    let total := max (-totalMax) (min totalMax (trim.total + trim.stepsFor ppm))
    let applied := total - trim.total
    let trim := { trim with lastPpm := ppm, lastSteps := applied }
    if applied == 0 then (none, trim) else (some total, { trim with total })

end TrimLoop

/-! ## The tracker -/

def trimGateShift : UInt32 := 4
def calWatchdogGaps : UInt32 := 2
def driftBaselinePairs : UInt8 := 32
def driftWindowPairs : UInt8 := 128
def driftSanityPpm : ℕ := 8000

/-- A live CAL break train. -/
structure CalRun where
  gapTicks : UInt32
  gapsLeft : UInt8
  total : UInt8
  valid : UInt8
  lastBreak : UInt32
  cursor : ℕ
  err : Int32
  span : UInt32
  deriving DecidableEq, Repr

/-- What the wire delivered between two break stamps. -/
inductive VerifiedSpan where
  | none
  | one (footprint : ℕ) (silent : Bool)
  | many
  deriving DecidableEq, Repr

structure ClockTracker where
  /-- An announced train that has not started. -/
  pendingCal : Option (ℕ × Byte)
  cal : Option CalRun
  calReady : Bool
  driftPrev : Option (UInt32 × ℕ)
  driftSeen : VerifiedSpan
  driftBase : Option Int32
  driftBaseErr : Int32
  driftBaseN : UInt8
  driftWinErr : Int32
  driftWinSpan : UInt32
  driftWinN : UInt8
  driftReady : Bool
  cadenceErr : Int32
  cadenceSpan : UInt32
  trim : TrimLoop
  deriving DecidableEq

/-- `x.unsigned_abs()` of an `i32`. -/
def unsignedAbs (x : Int32) : ℕ := x.toInt.natAbs

namespace ClockTracker

def new (stepPpm : ℕ) : ClockTracker where
  pendingCal := none
  cal := none
  calReady := false
  driftPrev := none
  driftSeen := .none
  driftBase := none
  driftBaseErr := 0
  driftBaseN := 0
  driftWinErr := 0
  driftWinSpan := 0
  driftWinN := 0
  driftReady := false
  cadenceErr := 0
  cadenceSpan := 0
  trim := .new stepPpm

/-- A live or announced train: breaks are ruler marks, not traffic. -/
def calActive (clock : ClockTracker) : Bool := clock.cal.isSome || clock.pendingCal.isSome

/-- Baseline, window and pair continuity all drop. -/
def restart (clock : ClockTracker) : ClockTracker :=
  { clock with
    driftPrev := none
    driftSeen := .none
    driftBase := none
    driftBaseErr := 0
    driftBaseN := 0
    driftWinErr := 0
    driftWinSpan := 0
    driftWinN := 0
    driftReady := false }

/-- The train's silence bound. -/
def calWatchdogAt (now gapTicks : UInt32) : UInt32 := now + gapTicks * calWatchdogGaps

/-- One gap of a live train. -/
def calGap (cal : CalRun) (now : UInt32) (cursor : ℕ) : CalRun :=
  let delta := now - cal.lastBreak
  let err := (delta - cal.gapTicks).toInt32
  let cal := { cal with cursor, lastBreak := now }
  let cal :=
    if unsignedAbs err ≤ (cal.gapTicks >>> trimGateShift).toNat then
      { cal with err := cal.err + err, span := cal.span + cal.gapTicks, valid := cal.valid + 1 }
    else cal
  { cal with gapsLeft := if cal.gapsLeft == 0 then 0 else cal.gapsLeft - 1 }

/-- One CAL ruler mark: the framer deadline to arm, if any. -/
def onCalBreak (clock : ClockTracker) (now : UInt32) (cursor : ℕ) (ticksPerUs : UInt32) :
    Option UInt32 × ClockTracker :=
  match clock.pendingCal with
  | some (gapUs, gaps) =>
      let gapTicks := UInt32.ofNat gapUs * ticksPerUs
      (some (calWatchdogAt now gapTicks),
        { ({ clock with pendingCal := none } : ClockTracker).restart with
          cal := some ⟨gapTicks, gaps, gaps, 0, now, cursor, 0, 0⟩ })
  | none =>
      match clock.cal with
      | none => (none, clock)
      | some cal =>
          if cursor == cal.cursor then (none, clock)
          else
            let cal := calGap cal now cursor
            if cal.gapsLeft != 0 then
              (some (calWatchdogAt now cal.gapTicks), { clock with cal := some cal })
            else
              let clock := { clock with cal := none }
              let clock :=
                if cal.valid.toNat * 2 ≥ cal.total.toNat then
                  { clock with cadenceErr := cal.err, cadenceSpan := cal.span, calReady := true }
                else clock
              (some now, clock)

/-- The watchdog fired: the train or a dangling announce dies. -/
def abandonCal (clock : ClockTracker) : ClockTracker :=
  { clock with cal := none, pendingCal := none }

/-- `a.saturating_add(b)` on `u32`. -/
def saturatingAdd (a b : UInt32) : UInt32 :=
  if a.toNat + b.toNat ≤ 0xFFFFFFFF then a + b else 0xFFFFFFFF

/-- An accepted pair error enters the baseline or the window. -/
def driftPair (clock : ClockTracker) (err : Int32) (span : UInt32) : ClockTracker :=
  match clock.driftBase with
  | none =>
      let clock :=
        { clock with driftBaseErr := clock.driftBaseErr + err, driftBaseN := clock.driftBaseN + 1 }
      if clock.driftBaseN ≥ driftBaselinePairs then
        { clock with driftBase := some (clock.driftBaseErr / 32) }
      else clock
  | some base =>
      let clock :=
        { clock with
          driftWinErr := clock.driftWinErr + (err - base)
          driftWinSpan := saturatingAdd clock.driftWinSpan span
          driftWinN := clock.driftWinN + 1 }
      if clock.driftWinN ≥ driftWindowPairs then
        let clock :=
          if !clock.calReady && !clock.driftReady then
            { clock with
              cadenceErr := clock.driftWinErr
              cadenceSpan := clock.driftWinSpan
              driftReady := true }
          else clock
        { clock with driftWinErr := 0, driftWinSpan := 0, driftWinN := 0 }
      else clock

/-- A break stamp closes a pair around exactly one silent verified frame. -/
def onDriftBreak (clock : ClockTracker) (now : UInt32) (cursor len : ℕ) (tpb : UInt32) :
    ClockTracker :=
  let prev := clock.driftPrev
  let seen := clock.driftSeen
  let clock := { clock with driftPrev := some (now, cursor), driftSeen := .none }
  match prev, seen with
  | some (t1, c1), .one footprint true =>
      if len == 0 || ringWrap (cursor + len - c1) len != footprint then clock
      else
        let span := UInt32.ofNat footprint * tpb
        let err := (now - t1 - span).toInt32
        if unsignedAbs err > (span >>> trimGateShift).toNat then clock
        else clock.driftPair err span
  | _, _ => clock

/-- The pair is still open for its one verified frame. -/
def pairOpen (clock : ClockTracker) : Bool := clock.driftSeen == .none

def noteVerified (clock : ClockTracker) (footprint : ℕ) (silent : Bool) : ClockTracker :=
  { clock with
    driftSeen := match clock.driftSeen with
      | .none => .one footprint silent
      | _ => .many }

/-- Drain a completed measurement through the trim loop. -/
def poll (clock : ClockTracker) : Option ℤ × ClockTracker :=
  let err := clock.cadenceErr.toInt
  let span := clock.cadenceSpan.toNat
  if clock.calReady then
    let clock := { clock with calReady := false, cadenceErr := 0, cadenceSpan := 0 }.restart
    let (out, trim) := clock.trim.onWindow err span
    (out, { clock with trim })
  else if !clock.driftReady then (none, clock)
  else
    let clock := { clock with driftReady := false, cadenceErr := 0, cadenceSpan := 0 }
    if span == 0 then (none, clock)
    else if err.natAbs * 1000000 ≥ (driftSanityPpm + 1) * span then (none, clock)
    else
      let (out, trim) := clock.trim.onWindow err span
      let clock := { clock with trim }
      (out, if out.isSome then clock.restart else clock)

end ClockTracker

end OpenServo.Bus
