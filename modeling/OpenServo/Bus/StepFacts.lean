import OpenServo.Bus.FrameFacts

/-!
# What a step outside the resolver leaves alone

Only the resolver turns bytes into effects.  Every other step keeps the
dispatcher; it keeps the ring unless it lands a byte, the security context
unless it is told to change it, the pending frame unless it is a rescue, and
the configuration unless it carries out a request that is already there.
-/

namespace OpenServo.Bus

open Security

namespace ClockTracker

variable (clock : ClockTracker)

theorem pendingCal_driftPair (err : Int32) (span : UInt32) :
    (clock.driftPair err span).pendingCal = clock.pendingCal := by
  simp only [driftPair]
  repeat' split
  all_goals rfl

theorem pendingCal_onDriftBreak (now : UInt32) (cursor len : ℕ) (tpb : UInt32) :
    (clock.onDriftBreak now cursor len tpb).pendingCal = clock.pendingCal := by
  simp only [onDriftBreak]
  repeat' split
  all_goals first
    | rfl
    | exact pendingCal_driftPair _ _ _

theorem pendingCal_poll : clock.poll.2.pendingCal = clock.pendingCal := by
  simp only [poll]
  repeat' split
  all_goals rfl

end ClockTracker

/-- What outlives a step outside the resolver. -/
structure Standing where
  security : SecurityContext
  ring : Ring
  pending : Option Pending
  config : Config
  deriving DecidableEq

namespace ServoBus

def standing (bus : ServoBus) : Standing := ⟨bus.security, bus.ring, bus.pending, bus.config⟩

variable (bus : ServoBus) (chip : Chip)

@[simp]
theorem standing_routeChain (out : ChainOut) : (bus.routeChain out).standing = bus.standing := by
  obtain ⟨_, _, _, _, h⟩ := bus.routeChain_eq out
  rw [h]
  rfl

@[simp]
theorem standing_armDeadline : bus.armDeadline.standing = bus.standing := rfl

theorem standing_breakHead : bus.breakHead.2.standing = bus.standing := by
  simp only [breakHead]
  split
  · simp only [standing, config, ClockTracker.pendingCal_onDriftBreak]
  · rfl

theorem standing_breakTail (fresh : Bool) (now : UInt32) :
    (bus.breakTail fresh now).standing = bus.standing := by
  simp only [breakTail, standing_armDeadline, standing_routeChain]
  split <;> split <;> rfl

theorem standing_chainDue (now : UInt32) : (bus.chainDue now).standing = bus.standing := by
  simp only [chainDue]
  split
  · simp only [standing_routeChain]
    rfl
  · rfl

theorem standing_pollClockTrim : bus.pollClockTrim.2.standing = bus.standing := by
  simp only [pollClockTrim, standing, config, ClockTracker.pendingCal_poll]

/-- A rescue forgets the pending frame, or does nothing under a live reply. -/
theorem standing_onRescueBreak :
    (bus.onRescueBreak chip).standing =
      if bus.tx.streaming then bus.standing else { bus.standing with pending := none } := by
  simp only [onRescueBreak]
  split <;> rfl

theorem standing_onTxComplete :
    (bus.onTxComplete chip).standing =
      { bus.standing with config := (bus.onTxComplete chip).config } := by
  simp only [onTxComplete]
  split
  · rfl
  · split <;> split <;> rfl

theorem standing_takeReboot :
    bus.takeReboot.2.standing = { bus.standing with config := bus.takeReboot.2.config } := by
  simp only [takeReboot]
  split <;> rfl

theorem standing_framerDue :
    bus.framerDue.standing = { bus.standing with config := bus.framerDue.config } := by
  simp only [framerDue]
  split <;> rfl

theorem standing_onCalBreak :
    (bus.onCalBreak chip).standing =
      { bus.standing with config := (bus.onCalBreak chip).config } := by
  simp only [onCalBreak]
  split <;> rfl

end ServoBus

namespace Act

/-- A turn of the resolver. -/
def drives : Act → Bool
  | .drive _ => true
  | _ => false

def installs : Act → Bool
  | .install _ => true
  | _ => false

/-- Steps that carry out a request an earlier frame left behind. -/
def executes : Act → Bool
  | .txComplete | .takeReboot | .framerDue | .calBreak => true
  | _ => false

end Act

namespace World

variable {σ : Type} [ConfigStore σ] (chip : Chip) (w : World σ)

theorem disp_step {act : Act} (h : act.drives = false) : (step chip w act).disp = w.disp := by
  cases act with
  | drive late => cases h
  | _ => rfl

/-- What a step outside the resolver does to the standing state. -/
theorem standing_step {act : Act} (h : act.drives = false) :
    (step chip w act).bus.standing =
      match act with
      | .receive b => { w.bus.standing with ring := w.bus.ring.push b }
      | .install keys => { w.bus.standing with security := w.bus.security.install keys }
      | .setPolicy policy => { w.bus.standing with security := w.bus.security.setPolicy policy }
      | .rescue =>
          if w.bus.tx.streaming then w.bus.standing else { w.bus.standing with pending := none }
      | act =>
          if act.executes then { w.bus.standing with config := (step chip w act).bus.config }
          else w.bus.standing := by
  cases act with
  | drive late => cases h
  | receive b => rfl
  | install keys => rfl
  | setPolicy policy => rfl
  | rescue => exact w.bus.standing_onRescueBreak chip
  | breakHead => exact w.bus.standing_breakHead
  | breakTail fresh now => exact w.bus.standing_breakTail fresh now
  | chainDue now => exact w.bus.standing_chainDue now
  | pollTrim => exact w.bus.standing_pollClockTrim
  | txComplete => exact w.bus.standing_onTxComplete chip
  | takeReboot => exact w.bus.standing_takeReboot
  | framerDue => exact w.bus.standing_framerDue
  | calBreak =>
      simp only [step, onBus, Act.executes, if_true]
      split
      · exact w.bus.standing_onCalBreak chip
      · rfl
  | tick now => rfl
  | stall stalled => rfl
  | yield => rfl
  | arm => rfl

theorem security_step {act : Act} (h : act.drives = false) :
    (step chip w act).bus.security =
      match act with
      | .install keys => w.bus.security.install keys
      | .setPolicy policy => w.bus.security.setPolicy policy
      | _ => w.bus.security := by
  have hstep := congrArg Standing.security (standing_step chip w h)
  refine Eq.trans hstep ?_
  cases act with
  | drive late => cases h
  | rescue =>
      dsimp only
      split <;> rfl
  | _ => rfl

/-- Only the execution of earlier requests moves the configuration. -/
theorem config_step {act : Act} (h : act.drives = false) (hexecutes : act.executes = false) :
    (step chip w act).bus.config = w.bus.config := by
  refine Eq.trans (congrArg Standing.config (standing_step chip w h)) ?_
  cases act with
  | drive late => cases h
  | txComplete | takeReboot | framerDue | calBreak => cases hexecutes
  | rescue =>
      dsimp only
      split <;> rfl
  | _ => rfl

/-! ## A turn of the resolver -/

/-- What the resolver makes of the ring. -/
def resolved : FramerOut := (w.bus.framer.resolve w.bus.ring w.bus.now w.bus.tpb).2

/-- The world once the resolver has moved the ladder and read the clock. -/
def resolving (late : UInt32) : World σ :=
  { w with
    bus := { w.bus with
      framer := (w.bus.framer.resolve w.bus.ring w.bus.now w.bus.tpb).1
      now := late } }

theorem step_drive (late : UInt32) :
    step chip w (.drive late) =
      match w.resolved with
      | .none => (w.resolving late).onBus fun bus => { bus with framerAt := none }
      | .wait due => (w.resolving late).onBus fun bus => { bus with framerAt := some due }
      | .covered span due =>
          routeFrame chip span false
            ((w.resolving late).onBus fun bus => { bus with framerAt := some due })
      | .frame span => onFrameEnd chip span (w.resolving late) := by
  simp only [step, driveOnce, resolved]
  cases (w.bus.framer.resolve w.bus.ring w.bus.now w.bus.tpb).2 <;> rfl

omit [ConfigStore σ] in
theorem spans_of_resolved {span : FrameSpan} (h : w.resolved.subject = some span) :
    Framer.Spans w.bus.ring span :=
  (w.bus.framer.resolve_spec w.bus.ring w.bus.now w.bus.tpb).1 span h

end World

end OpenServo.Bus
