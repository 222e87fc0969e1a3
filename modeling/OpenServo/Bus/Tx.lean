import OpenServo.Dispatch.Request
import OpenServo.Protocol.Crc

/-!
# The CRC engine and the reply transmitter

One hardware CRC engine serves reception and transmission: it accumulates the
spans it is fed until it is reset, and keeps a snapshot buffer that both the
wire and the engine stream from.  The transmitter stages a status frame as up
to four DMA arms and patches the CRC into the last one while the first are
already on the wire.
-/

namespace OpenServo.Bus

/-! ## The CRC engine -/

structure CrcEngine where
  value : UInt16
  /-- The spans fed since the reset: where each begins in its buffer, and its bytes. -/
  fed : List (ℕ × List Byte)
  snapshot : List Byte
  /-- A sick engine answers no poll, however long it is spun on. -/
  stalled : Bool
  deriving DecidableEq, Repr

namespace CrcEngine

def new : CrcEngine := ⟨0, [], [], false⟩

def reset (crc : CrcEngine) : CrcEngine := { crc with value := 0, fed := [] }

/-- Feed the bytes that begin at `off` of a buffer; every buffer is halfword-aligned. -/
def feed (crc : CrcEngine) (off : ℕ) (span : List Byte) : CrcEngine :=
  { crc with
    value := Crc.oscCrcContinue crc.value span
    fed := crc.fed ++ [(off, span)] }

/-- Copy `src` into the snapshot buffer at byte offset `off`. -/
def snapshotAt (crc : CrcEngine) (off : ℕ) (src : List Byte) : CrcEngine :=
  let snap := crc.snapshot ++ List.replicate (off + src.length - crc.snapshot.length) 0
  { crc with snapshot := snap.take off ++ src ++ snap.drop (off + src.length) }

/-- The CRC over everything fed since reset, `none` on a spin miss. -/
def result (crc : CrcEngine) : Option UInt16 := if crc.stalled then none else some crc.value

end CrcEngine

/-! ## The wire -/

inductive WireOp where
  | startFrame
  | send (span : List Byte)
  | release
  deriving DecidableEq, Repr

/-! ## The transmitter -/

def replyBuf : ℕ := 16
def smallCopyMax : ℕ := 2

inductive TxOut where
  | armed
  | released
  deriving DecidableEq, Repr

/-- One DMA arm or CRC feed: a span of the frame buffer, or of the snapshot. -/
inductive Arm where
  | buf (off len : ℕ)
  | ext (len : ℕ)
  deriving DecidableEq, Repr

/-- Where an arm begins in its buffer. -/
def Arm.off : Arm → ℕ
  | .buf off _ => off
  | .ext _ => 0

/-- The odd covered byte left for the software fold at patch time. -/
inductive TailByte where
  | buf (off : ℕ)
  | ext (off : ℕ)
  deriving DecidableEq, Repr

inductive TxState where
  | idle
  | staged (slotKey : Option Byte)
  | streaming (next : ℕ)
  deriving DecidableEq, Repr

inductive SendError where
  | busy
  | overflow
  deriving DecidableEq, Repr

structure TxEngine where
  /-- Everything the engine asked of the wire, in order. -/
  wire : List WireOp
  buf : List Byte
  arms : List Arm
  feeds : List Arm
  crcOff : ℕ
  state : TxState
  result : ResultCode
  tail : Option TailByte
  alert : Bool
  crcMisses : UInt32
  deriving DecidableEq, Repr

namespace TxEngine

def new : TxEngine where
  wire := []
  buf := List.replicate replyBuf 0
  arms := []
  feeds := []
  crcOff := 0
  state := .idle
  result := .ok
  tail := none
  alert := false
  crcMisses := 0

def busy (tx : TxEngine) : Bool := tx.state != .idle

def staged (tx : TxEngine) : Bool :=
  match tx.state with
  | .staged _ => true
  | _ => false

def streaming (tx : TxEngine) : Bool :=
  match tx.state with
  | .streaming _ => true
  | _ => false

/-- A collision-tolerant staged reply's slot-delay key. -/
def slotKey (tx : TxEngine) : Option Byte :=
  match tx.state with
  | .staged slotKey => slotKey
  | _ => none

def collisionTolerant (tx : TxEngine) : Bool := tx.slotKey.isSome

def markCollisionTolerant (tx : TxEngine) (key : Byte) : TxEngine :=
  match tx.state with
  | .staged _ => { tx with state := .staged (some key) }
  | _ => tx

/-- The bytes of an arm. -/
def resolveArm (tx : TxEngine) (crc : CrcEngine) : Arm → List Byte
  | .buf off len => (tx.buf.drop off).take len
  | .ext len => crc.snapshot.take len

/-- Copy the nonempty spans into the snapshot at their cumulative offsets. -/
def snapshotSpans (crc : CrcEngine) : ℕ → List (List Byte) → CrcEngine
  | _, [] => crc
  | off, span :: spans =>
      if span.isEmpty then snapshotSpans crc off spans
      else snapshotSpans (crc.snapshotAt off span) (off + span.length) spans

/-- Small payloads are copied into the frame buffer. -/
def stageSmall (tx : TxEngine) (id : Byte) (inst : Inst) (payload : List Byte) : TxEngine :=
  let p := payload.length
  let len := lenFor (UInt8.ofNat p)
  let cov := coveredLen len
  let bulk := cov - cov % 2
  { tx with
    buf := copyAt (copyAt tx.buf 0 [0, id, len, inst.byte]) 4 payload
    arms := [.buf 1 (cov - 1), .buf cov 2]
    feeds := [.buf 0 bulk]
    tail := if cov % 2 == 1 then some (.buf (cov - 1)) else none
    crcOff := cov }

/-- Larger payloads stream from the snapshot. -/
def stageLarge (tx : TxEngine) (id : Byte) (inst : Inst) (p : ℕ) : TxEngine :=
  { tx with
    buf := copyAt tx.buf 0 [0, id, lenFor (UInt8.ofNat p), inst.byte]
    arms := [.buf 1 3, .ext p, .buf 4 2]
    feeds := [.buf 0 4, .ext (p - p % 2)]
    tail := if p % 2 == 1 then some (.ext (p - 1)) else none
    crcOff := 4 }

/-- Build the frame layout of a gathered status reply; touches no wire state. -/
def stageGather (tx : TxEngine) (crc : CrcEngine) (id : Byte) (result : ResultCode) (alert : Bool)
    (spans : List (List Byte)) : Except SendError Unit × TxEngine × CrcEngine :=
  if tx.busy then (.error .busy, tx, crc)
  else
    let payload := spans.flatten
    if payload.length > maxPayload then (.error .overflow, tx, crc)
    else
      let inst := Inst.status result alert
      let (tx, crc) :=
        if payload.length ≤ smallCopyMax then (tx.stageSmall id inst payload, crc)
        else (tx.stageLarge id inst payload.length, snapshotSpans crc 0 spans)
      (.ok (), { tx with
        buf := copyAt tx.buf tx.crcOff [0, 0]
        result := result
        alert := alert
        state := .staged none }, crc)

def stage (tx : TxEngine) (crc : CrcEngine) (id : Byte) (result : ResultCode) (alert : Bool)
    (data : List Byte) : Except SendError Unit × TxEngine × CrcEngine :=
  tx.stageGather crc id result alert [data]

/-- Finalize and start: break, first arm, first CRC feed. -/
def trigger (tx : TxEngine) (crc : CrcEngine) (overResult : Option ResultCode) :
    TxEngine × CrcEngine :=
  if !tx.staged then (tx, crc)
  else
    let inst := Inst.status (overResult.getD tx.result) tx.alert
    let tx := { tx with buf := copyAt tx.buf 3 [inst.byte] }
    let crc := crc.reset
    let span := tx.resolveArm crc (tx.arms.getD 0 (.buf 0 0))
    let feed := tx.feeds.getD 0 (.buf 0 0)
    let crc := crc.feed feed.off (tx.resolveArm crc feed)
    ({ tx with wire := tx.wire ++ [.startFrame, .send span], state := .streaming 1 }, crc)

/-- Patch the two CRC bytes, folding the odd covered byte. -/
def patchCrc (tx : TxEngine) (crc : CrcEngine) : TxEngine :=
  match crc.result with
  | none => { tx with crcMisses := tx.crcMisses + 1 }
  | some v =>
      let v : UInt16 := match tx.tail with
        | some (.buf off) => Crc.oscCrcContinue v [tx.buf.getD off 0]
        | some (.ext off) => Crc.oscCrcContinue v [crc.snapshot.getD off 0]
        | none => v
      { tx with buf := copyAt tx.buf tx.crcOff [v.toUInt8, (v >>> 8).toUInt8] }

/-- Per-arm DMA completion. -/
def onArmComplete (tx : TxEngine) (crc : CrcEngine) : TxOut × TxEngine × CrcEngine :=
  match tx.state with
  | .streaming next =>
      if next < tx.arms.length then
        let (tx, crc) :=
          if next < tx.feeds.length then
            let feed := tx.feeds.getD next (.buf 0 0)
            (tx, crc.feed feed.off (tx.resolveArm crc feed))
          else (tx.patchCrc crc, crc)
        let span := tx.resolveArm crc (tx.arms.getD next (.buf 0 0))
        (.armed, { tx with wire := tx.wire ++ [.send span], state := .streaming (next + 1) }, crc)
      else (.released, { tx with wire := tx.wire ++ [.release], state := .idle }, crc)
  -- a spurious completion leaves the wire alone
  | _ => (.released, tx, crc)

/-- Drop anything staged or streaming and release the wire. -/
def abort (tx : TxEngine) : TxEngine :=
  if tx.busy then { tx with wire := tx.wire ++ [.release], state := .idle } else tx

theorem busy_eq (tx : TxEngine) : tx.busy = (tx.staged || tx.streaming) := by
  simp only [busy, staged, streaming]
  cases tx.state <;> simp

@[simp]
theorem busy_abort (tx : TxEngine) : tx.abort.busy = false := by
  simp only [abort]
  split
  · rfl
  · rename_i h
    simpa using h

end TxEngine

end OpenServo.Bus
