import OpenServo.Protocol.Wire

/-!
# Enforcement policy

Which frames must arrive authenticated is decided on the servo and never by
the frame: `FLAG_AUTH` only says what a frame carries.
-/

namespace OpenServo.Security

/-- Consecutive tag failures before effects are refused altogether. -/
def defaultLockout : UInt8 := 3

structure Policy where
  requireAuth : Bool
  requireAuthOnReads : Bool
  tagReplies : Bool
  lockoutAfter : UInt8
  deriving DecidableEq, Repr

namespace Policy

def flight : Policy where
  requireAuth := true
  requireAuthOnReads := false
  tagReplies := true
  lockoutAfter := defaultLockout

def «open» : Policy where
  requireAuth := false
  requireAuthOnReads := false
  tagReplies := false
  lockoutAfter := defaultLockout

/-- Does this instruction carry an effect that authentication must gate?
Held writes only stage: the COMMIT tag over the stream covers them. -/
def effectBearing (inst : Inst) : Bool :=
  match inst.opcode with
  | some .commit | some .mgmt => true
  | some .write | some .gwrite => !inst.hold
  | some .ping | some .read | some .gread => false
  | none => false

/-- Is this frame folded into the stream digest?  Writes only, held or not. -/
def foldsIntoStream (inst : Inst) : Bool :=
  if inst.isStatus then false
  else
    match inst.opcode with
    | some .write | some .gwrite => true
    | _ => false

/-- Does this frame need a valid tag under this policy? -/
def requiresTag (policy : Policy) (inst : Inst) : Bool :=
  if !policy.requireAuth then false
  else if effectBearing inst then true
  else policy.requireAuthOnReads

theorem requiresTag_of_effectBearing {policy : Policy} {inst : Inst}
    (heffect : effectBearing inst) : policy.requiresTag inst = policy.requireAuth := by
  cases hauth : policy.requireAuth <;> simp [requiresTag, hauth, heffect]

end Policy

/-- The message plane's verdict on one frame. -/
inductive AuthVerdict where
  | pass
  | missing
  | badTag
  | replay
  | noSession
  | lockedOut
  deriving DecidableEq, Repr

namespace AuthVerdict

def isPass (verdict : AuthVerdict) : Bool := verdict == .pass

/-- Does this verdict count toward the lockout counter? -/
def isAttackEvidence (verdict : AuthVerdict) : Bool :=
  match verdict with
  | .badTag | .replay => true
  | _ => false

end AuthVerdict

end OpenServo.Security
