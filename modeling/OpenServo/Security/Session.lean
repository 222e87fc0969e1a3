import OpenServo.Security.Mac
import OpenServo.Security.Policy

/-!
# The message-plane session

Session keys, the authentication trailer, the replay window, the stream digest
and the `SecurityContext` that the transport calls: `fold` at the covered
checkpoint and `verify` beside the CRC verdict.
-/

namespace OpenServo.Security

/-! ## Keys -/

structure Epoch where
  value : UInt16
  deriving DecidableEq, Repr

def Epoch.toLeBytes (epoch : Epoch) : List Byte :=
  [epoch.value.toUInt8, (epoch.value >>> 8).toUInt8]

structure SessionKeys where
  unicast : MacKey
  group : MacKey
  epoch : Epoch
  deriving DecidableEq, Repr

namespace SessionKeys

def unset : SessionKeys := ⟨.zero, .zero, ⟨0⟩⟩

def isReady (keys : SessionKeys) : Bool := !keys.unicast.isZero && !keys.group.isZero

/-- Broadcast frames ride the group key, everything else the unicast key. -/
def forFrame (keys : SessionKeys) (broadcast : Bool) : MacKey :=
  if broadcast then keys.group else keys.unicast

end SessionKeys

/-! ## The trailer -/

def trailerLen : ℕ := 5
def seqLen : ℕ := 1
def tagLen : ℕ := 4

structure Trailer where
  seq : Byte
  tag : Tag
  taggedPrefix : List Byte
  deriving DecidableEq, Repr

namespace Trailer

/-- Split a CRC-covered span into its tagged prefix and trailer; `none` when
the span is too short to hold a trailer. -/
def split (covered : List Byte) : Option Trailer :=
  if covered.length < 3 + trailerLen then none
  else
    let cut := covered.length - tagLen
    let tagBytes := covered.drop cut
    some {
      seq := covered.getD (cut - seqLen) 0
      tag := .fromBytes (tagBytes.getD 0 0) (tagBytes.getD 1 0) (tagBytes.getD 2 0)
        (tagBytes.getD 3 0)
      taggedPrefix := covered.take cut }

/-- Payload bytes left for a dispatcher once the trailer is taken off. -/
def strip (payloadLen : ℕ) : ℕ := payloadLen - trailerLen

end Trailer

/-! ## The replay window -/

def forwardWindow : Byte := 127

inductive SeqReject where
  | replay
  deriving DecidableEq, Repr

structure ReplayWindow where
  last : Byte
  /-- False until the first sequence is accepted. -/
  primed : Bool
  deriving DecidableEq, Repr

namespace ReplayWindow

def new : ReplayWindow := ⟨0, false⟩

/-- Test `seq` without consuming it. -/
def check (window : ReplayWindow) (seq : Byte) : Except SeqReject Unit :=
  if !window.primed then .ok ()
  else
    let ahead := seq - window.last
    if ahead == 0 then .error .replay
    else if ahead ≤ forwardWindow then .ok ()
    else .error .replay

def commit (_ : ReplayWindow) (seq : Byte) : ReplayWindow := ⟨seq, true⟩

end ReplayWindow

/-! ## The stream digest -/

def domainFrame : Byte := 1
def domainCommit : Byte := 2
def domainStream : Byte := 3

structure StreamDigest where
  hasher : HalfSipHasher
  key : MacKey
  /-- Frames folded since the last reset, saturating. -/
  frames : UInt16
  deriving DecidableEq

namespace StreamDigest

def new (key : MacKey) : StreamDigest where
  hasher := (HalfSipHasher.new key).update [domainStream]
  key := key
  frames := 0

/-- Fold one covered span, handed over as its ring segments. -/
def foldFrame (stream : StreamDigest) (segA segB : List Byte) : StreamDigest :=
  { stream with
    hasher := (stream.hasher.update segA).update segB
    frames := if stream.frames == 0xFFFF then stream.frames else stream.frames + 1 }

def digest (stream : StreamDigest) : Tag := stream.hasher.finish

end StreamDigest

/-! ## The security context -/

inductive SecurityState where
  | unsecured
  | establishing
  | secured
  | lockedOut
  deriving DecidableEq, Repr

structure SecurityContext where
  state : SecurityState
  keys : SessionKeys
  stream : StreamDigest
  replay : ReplayWindow
  policy : Policy
  /-- Consecutive attack-evidence verdicts, saturating. -/
  consecutiveFails : UInt8
  authFailCount : UInt32
  replayDropCount : UInt32
  deriving DecidableEq

def saturatingSucc8 (n : UInt8) : UInt8 := if n == 0xFF then n else n + 1

def saturatingSucc32 (n : UInt32) : UInt32 := if n == 0xFFFFFFFF then n else n + 1

namespace SecurityContext

def new (policy : Policy) : SecurityContext where
  state := .unsecured
  keys := .unset
  stream := .new .zero
  replay := .new
  policy := policy
  consecutiveFails := 0
  authFailCount := 0
  replayDropCount := 0

def setPolicy (ctx : SecurityContext) (policy : Policy) : SecurityContext :=
  { ctx with policy }

/-- Install a freshly derived session: the remedy for every message-plane
failure. -/
def install (ctx : SecurityContext) (keys : SessionKeys) : SecurityContext :=
  { ctx with
    stream := .new keys.group
    replay := .new
    consecutiveFails := 0
    keys := keys
    state := .secured }

/-- Tear the session down. -/
def clear (ctx : SecurityContext) : SecurityContext :=
  { ctx with
    keys := .unset
    stream := .new .zero
    replay := .new
    state := .unsecured }

/-- Fold a covered span into the stream digest, before any verdict. -/
def fold (ctx : SecurityContext) (inst : Inst) (segA segB : List Byte) : SecurityContext :=
  if ctx.state != .secured || !Policy.foldsIntoStream inst then ctx
  else { ctx with stream := ctx.stream.foldFrame segA segB }

/-- Abandon the current stream after a failed cycle. -/
def rollbackStream (ctx : SecurityContext) : SecurityContext :=
  if ctx.state == .secured then { ctx with stream := .new ctx.keys.group } else ctx

/-- Tag over an inline-authenticated frame. -/
def frameTag (ctx : SecurityContext) (key : MacKey) (seq : Byte) (tagged : List Byte) : Tag :=
  let h := HalfSipHasher.new key
  let h := h.update [domainFrame]
  let h := h.update ctx.keys.epoch.toLeBytes
  let h := h.update [seq]
  let h := h.update tagged
  h.finish

/-- Tag over a COMMIT: the closed stream digest is part of the message. -/
def commitTag (ctx : SecurityContext) (key : MacKey) (seq : Byte) (tagged : List Byte) : Tag :=
  let h := HalfSipHasher.new key
  let h := h.update [domainCommit]
  let h := h.update ctx.keys.epoch.toLeBytes
  let h := h.update [seq]
  let h := h.update ctx.stream.digest.toBytes
  let h := h.update tagged
  h.finish

/-- The verdict logic; only a fully verified frame advances the sequence. -/
def evaluate (ctx : SecurityContext) (inst : Inst) (broadcast : Bool) (covered : List Byte) :
    AuthVerdict × SecurityContext :=
  if ctx.state == .lockedOut then
    (if ctx.policy.requiresTag inst then .lockedOut else .pass, ctx)
  else
    let needs := ctx.policy.requiresTag inst
    let carries := inst.authenticated
    if !carries then
      (if needs then .missing else .pass, ctx)
    else if ctx.state != .secured || !ctx.keys.isReady then (.noSession, ctx)
    else
      match Trailer.split covered with
      | none => (.badTag, ctx)
      | some trailer =>
          match ctx.replay.check trailer.seq with
          | .error _ => (.replay, ctx)
          | .ok () =>
              let key := ctx.keys.forFrame broadcast
              let expected :=
                if inst.opcode == some .commit then
                  ctx.commitTag key trailer.seq trailer.taggedPrefix
                else ctx.frameTag key trailer.seq trailer.taggedPrefix
              if !expected.ctEq trailer.tag then (.badTag, ctx)
              else (.pass, { ctx with replay := ctx.replay.commit trailer.seq })

/-- Counters, alert state and lockout. -/
def record (ctx : SecurityContext) (verdict : AuthVerdict) : SecurityContext :=
  if verdict == .pass then { ctx with consecutiveFails := 0 }
  else
    let ctx := { ctx with authFailCount := saturatingSucc32 ctx.authFailCount }
    let ctx :=
      if verdict == .replay then
        { ctx with replayDropCount := saturatingSucc32 ctx.replayDropCount }
      else ctx
    if verdict.isAttackEvidence then
      let ctx := { ctx with consecutiveFails := saturatingSucc8 ctx.consecutiveFails }
      if ctx.consecutiveFails ≥ ctx.policy.lockoutAfter && ctx.state == .secured then
        { ctx with state := .lockedOut }
      else ctx
    else ctx

/-- The message plane's verdict on one frame; `covered` includes the trailer. -/
def verify (ctx : SecurityContext) (inst : Inst) (broadcast : Bool) (covered : List Byte) :
    AuthVerdict × SecurityContext :=
  let (verdict, ctx) := ctx.evaluate inst broadcast covered
  (verdict, ctx.record verdict)

/-- A COMMIT verdict has been applied: open a fresh stream. -/
def closeCycle (ctx : SecurityContext) : SecurityContext :=
  if ctx.state == .secured then { ctx with stream := .new ctx.keys.group } else ctx

/-- Should status frames carry a tag right now? -/
def tagsReplies (ctx : SecurityContext) : Bool :=
  ctx.policy.tagReplies && ctx.state == .secured

end SecurityContext

end OpenServo.Security
