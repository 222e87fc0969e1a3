import OpenServo.Bus.Chain
import OpenServo.Bus.Clock
import OpenServo.Bus.Decode
import OpenServo.Bus.Tx
import OpenServo.Security.Session

/-!
# The bus composite

The state of the transport, its CRC and message-plane hooks over the ring, and
the reply surface it lends to the dispatcher.  The compare that multiplexes the
two deadline slots is part of the state; the clock is the tick the provider
reads next.
-/

namespace OpenServo.Bus

open Security

/-- The chip constants of the deadline provider. -/
structure Chip where
  ticksPerUs : UInt32
  clockTrimStepPpm : ℕ
  deriving DecidableEq, Repr

def byteTimeNumerator : ℕ := 10000000
def frameAllowanceSlackBytes : UInt32 := 8
def deadlineDrainMax : ℕ := 8
def framesPerWake : ℕ := 16
def replyGapUs : UInt32 := 12

/-- Largest covered span the authenticator copies. -/
def authSpanMax : ℕ := 96

/-- Ticks per byte-time at `rate`. -/
def tpbFor (chip : Chip) (rate : BaudRate) : UInt32 :=
  UInt32.ofNat (chip.ticksPerUs.toNat * byteTimeNumerator / rate.asHz)

/-- A frame dispatched ahead of its CRC verdict. -/
structure Pending where
  anchor : ℕ
  footprint : ℕ
  packetEnd : UInt32
  slot : ℕ
  /-- A reply awaits the send verdict. -/
  staged : Bool
  /-- A write awaits commit or revert in the dispatcher. -/
  table : Bool
  deriving DecidableEq, Repr

/-- Does the pending frame sit where this one does? -/
def Pending.isAt (p : Pending) (span : FrameSpan) : Bool :=
  p.anchor == span.anchor && p.footprint == span.footprint

structure ServoBus where
  framer : Framer
  chain : Chain
  tx : TxEngine
  crc : CrcEngine
  ring : Ring
  /-- The tick the clock reads. -/
  now : UInt32
  /-- The armed compare. -/
  compare : Option UInt32
  id : Byte
  rate : BaudRate
  tpb : UInt32
  responseDeadlineUs : ℕ
  pendingId : Option Byte
  pendingBaud : Option BaudRate
  pendingReboot : Option BootMode
  crcFails : UInt32
  pending : Option Pending
  framerAt : Option UInt32
  chainAt : Option UInt32
  clock : ClockTracker
  security : SecurityContext
  deriving DecidableEq

/-! ## The reply surface -/

/-- The reply surface over the fields the dispatcher may touch. -/
structure ReplyHandle where
  tx : TxEngine
  crc : CrcEngine
  id : Byte
  pendingId : Option Byte
  pendingBaud : Option BaudRate
  pendingReboot : Option BootMode
  pendingCal : Option (ℕ × Byte)
  responseDeadlineUs : ℕ
  staged : Bool
  tolerant : Bool
  deriving DecidableEq

/-- The slot key of an ENUM reply: its payload's CRC folded to a byte. -/
def slotKey (payload : List Byte) : Byte :=
  let crc := Crc.oscCrc payload
  (crc ^^^ (crc >>> 8)).toUInt8

namespace ReplyHandle

def sendGather (h : ReplyHandle) (result : ResultCode) (alert : Bool) (spans : List (List Byte)) :
    ReplyHandle :=
  match h.tx.stageGather h.crc h.id result alert spans with
  | (.error _, tx, crc) => { h with tx, crc }
  | (.ok (), tx, crc) =>
      { h with
        tx := if h.tolerant then tx.markCollisionTolerant (slotKey spans.flatten) else tx
        crc := crc
        staged := true }

instance : Reply ReplyHandle where
  sendStatus h status := h.sendGather status.result status.alert [status.data]
  sendStatusGather := sendGather
  stageId h id := { h with pendingId := some id }
  setId h id := { h with id }
  stageBaud h baud := { h with pendingBaud := some baud }
  setResponseDeadline h us := { h with responseDeadlineUs := us }
  stageReboot h mode := { h with pendingReboot := some mode }
  beginClockCal h gapUs gaps := { h with pendingCal := some (gapUs, gaps) }

end ReplyHandle

namespace ServoBus

def new (chip : Chip) (ring : Ring) (now : UInt32) (id : Byte) (rate : BaudRate)
    (responseDeadlineUs : ℕ) : ServoBus where
  framer := .new
  chain := .new
  tx := .new
  crc := .new
  ring := ring
  now := now
  compare := none
  id := id
  rate := rate
  tpb := tpbFor chip rate
  responseDeadlineUs := responseDeadlineUs
  pendingId := none
  pendingBaud := none
  pendingReboot := none
  crcFails := 0
  pending := none
  framerAt := none
  chainAt := none
  clock := .new chip.clockTrimStepPpm
  security := .new .open

def replyHandle (bus : ServoBus) (tolerant : Bool) : ReplyHandle where
  tx := bus.tx
  crc := bus.crc
  id := bus.id
  pendingId := bus.pendingId
  pendingBaud := bus.pendingBaud
  pendingReboot := bus.pendingReboot
  pendingCal := bus.clock.pendingCal
  responseDeadlineUs := bus.responseDeadlineUs
  staged := false
  tolerant := tolerant

/-- Give the borrowed fields back. -/
def withHandle (bus : ServoBus) (h : ReplyHandle) : ServoBus :=
  { bus with
    tx := h.tx
    crc := h.crc
    id := h.id
    pendingId := h.pendingId
    pendingBaud := h.pendingBaud
    pendingReboot := h.pendingReboot
    clock := { bus.clock with pendingCal := h.pendingCal }
    responseDeadlineUs := h.responseDeadlineUs }

/-! ## The CRC over the ring -/

/-- The INST byte of the frame at `anchor`. -/
def ringInst (bus : ServoBus) (anchor : ℕ) : Inst := ⟨bus.ring.byteAt (anchor + 3)⟩

/-- Feed the even bulk of the covered span, from the first even index on. -/
def crcFeed (bus : ServoBus) (anchor footprint : ℕ) : ServoBus :=
  let len := bus.ring.len
  let start := anchor + anchor % 2
  let stop := anchor + footprint - 2
  let bulkEnd := stop - (stop - start) % 2
  let crc := bus.crc.reset
  { bus with
    crc :=
      if bulkEnd ≤ len then crc.feed start (bus.ring.slice start bulkEnd)
      else (crc.feed start (bus.ring.slice start len)).feed 0 (bus.ring.slice 0 (bulkEnd - len)) }

/-- The covered byte the even bulk left behind. -/
def crcTail (bus : ServoBus) (anchor footprint : ℕ) : Option Byte :=
  let start := anchor + anchor % 2
  let stop := anchor + footprint - 2
  if (stop - start) % 2 == 1 then some (bus.ring.byteAt (stop - 1)) else none

/-- The engine's CRC of the fed span, tail folded, against the wire's. -/
def crcVerify (bus : ServoBus) (anchor footprint : ℕ) : Bool :=
  let stop := anchor + (footprint - 2)
  let wire := (bus.ring.byteAt stop).toUInt16 ||| ((bus.ring.byteAt (stop + 1)).toUInt16 <<< 8)
  match bus.crc.result with
  | none => false
  | some v =>
      match bus.crcTail anchor footprint with
      | some b => Crc.oscCrcContinue v [b] == wire
      | none => v == wire

/-- Feed, then verify. -/
def crcOk (bus : ServoBus) (anchor footprint : ℕ) : Bool × ServoBus :=
  if bus.ring.len == 0 || footprint < 2 then (false, bus)
  else
    let bus := bus.crcFeed anchor footprint
    (bus.crcVerify anchor footprint, bus)

/-! ## The message-plane hooks -/

/-- Ring start and length of a frame's CRC-covered span. -/
def coveredSpan (anchor footprint ringLen : ℕ) : ℕ × ℕ := ((anchor + 1) % ringLen, footprint - 3)

/-- The covered span as its ring segments. -/
def coveredSegments (ring : Ring) (anchor footprint : ℕ) : List Byte × List Byte :=
  let len := ring.len
  let (start, covered) := coveredSpan anchor footprint len
  let stop := start + covered
  if stop ≤ len then (ring.slice start stop, [])
  else (ring.slice start len, ring.slice 0 (stop - len))

/-- Fold a write into the stream digest, straight from the ring segments. -/
def securityFold (bus : ServoBus) (anchor footprint : ℕ) : ServoBus :=
  let inst := bus.ringInst anchor
  if !Policy.foldsIntoStream inst then bus
  else if bus.ring.len == 0 then bus
  else
    let (segA, segB) := coveredSegments bus.ring anchor footprint
    { bus with security := bus.security.fold inst segA segB }

/-- The authenticity verdict for a frame whose CRC has passed. -/
def authVerify (bus : ServoBus) (anchor footprint : ℕ) : Bool × ServoBus :=
  let inst := bus.ringInst anchor
  let len := bus.ring.len
  if len == 0 then (false, bus)
  else
    let (start, covered) := coveredSpan anchor footprint len
    let broadcast := bus.ring.byteAt start == Id.broadcast.byte
    if covered > authSpanMax then
      (!bus.security.policy.requiresTag inst && !inst.authenticated, bus)
    else
      let (verdict, security) := bus.security.verify inst broadcast (bus.ring.window start covered)
      let security :=
        if inst.opcode == some .commit then security.closeCycle else security
      (verdict.isPass, { bus with security })

/-! ## Small parts -/

def replyGap (chip : Chip) : UInt32 := replyGapUs * chip.ticksPerUs

def reclaim (bus : ServoBus) (chip : Chip) : UInt32 :=
  UInt32.ofNat bus.responseDeadlineUs * chip.ticksPerUs

def frameAllowance (bus : ServoBus) : UInt32 :=
  (UInt32.ofNat frameMax + frameAllowanceSlackBytes) * bus.tpb

/-- COMMIT, MGMT and anything undecodable: effects that cannot stage. -/
def verdictFirst (bus : ServoBus) (anchor : ℕ) : Bool :=
  match (bus.ringInst anchor).opcode with
  | some .ping | some .read | some .gread | some .write | some .gwrite => false
  | _ => true

def newestIsBreakByte (bus : ServoBus) (cursor : ℕ) : Bool :=
  let len := bus.ring.len
  len != 0 && bus.ring.byteAt (cursor + len - 1) == 0x00

/-- Record a verified frame with the drift tracker. -/
def driftNoteVerified (bus : ServoBus) (anchor footprint : ℕ) : ServoBus :=
  if !bus.clock.pairOpen then { bus with clock := bus.clock.noteVerified footprint false }
  else
    let inst := bus.ringInst anchor
    if bus.ring.len == 0 then bus
    else
      let id := bus.ring.byteAt (anchor + 1)
      let silent := match inst.opcode with
        | some .gwrite => true
        | some .write | some .commit => inst.noreply || id == Id.broadcast.byte
        | _ => false
      { bus with clock := bus.clock.noteVerified footprint silent }

/-- Count a rejected frame and rewind the ladder. -/
def rejectFrame (bus : ServoBus) (anchor : ℕ) : ServoBus :=
  { bus with
    crcFails := if !bus.framer.probing then bus.crcFails + 1 else bus.crcFails
    framer := bus.framer.onFrameRejected anchor bus.ring.len
    security := bus.security.rollbackStream }

/-- Drop a staged reply and any sequencing it began. -/
def dropStaged (bus : ServoBus) : ServoBus :=
  { bus with
    tx := if bus.tx.staged then bus.tx.abort else bus.tx
    chain := bus.chain.reset
    chainAt := none }

/-- The chain loop: a wait already reached is consumed in place. -/
def routeChainLoop : ℕ → ChainOut → ServoBus → ServoBus
  | 0, _, bus => bus
  | fuel + 1, out, bus =>
      match out with
      | .none => bus
      | .wait due =>
          if !tickReached bus.now due then { bus with chainAt := some due }
          else
            let (chain, out) := bus.chain.onDeadline bus.now
            routeChainLoop fuel out { bus with chain }
      | .trigger predecessorSilent =>
          let overResult := if predecessorSilent then some .predecessorSilent else none
          let (tx, crc) := bus.tx.trigger bus.crc overResult
          { bus with tx, crc }

/-- Every turn of the loop uses a turn of the chain up. -/
def routeChain (bus : ServoBus) (out : ChainOut) : ServoBus :=
  routeChainLoop (bus.chain.turns + 2) out bus

/-- Sequence a staged reply onto the snoop chain. -/
def sequenceReply (bus : ServoBus) (chip : Chip) (slot : ℕ) (packetEnd : UInt32) : ServoBus :=
  let gap := match bus.tx.slotKey with
    | some key =>
        let draw := (key ^^^ bus.now.toUInt8) &&& (enumReplySlots - 1)
        replyGap chip + draw.toUInt32 * bus.tpb
    | none => replyGap chip
  let (chain, out) :=
    bus.chain.onReplyStaged slot packetEnd gap (bus.reclaim chip) bus.frameAllowance
  ({ bus with chain } : ServoBus).routeChain out

/-- Arm the compare at the soonest live slot. -/
def armDeadline (bus : ServoBus) : ServoBus :=
  let remaining (due : UInt32) : UInt32 := if tickReached bus.now due then 0 else due - bus.now
  let best := match bus.framerAt, bus.chainAt with
    | some f, some c => some (if remaining f ≤ remaining c then f else c)
    | some f, none => some f
    | none, c => c
  { bus with compare := best }

/-- The rescue pulse: bootstrap the ladder at the rescue rate. -/
def onRescueBreak (bus : ServoBus) (chip : Chip) : ServoBus :=
  if bus.tx.streaming then bus
  else
    armDeadline { bus with
      rate := .b500000
      tpb := tpbFor chip .b500000
      clock := bus.clock.restart
      framer := bus.framer.resync bus.ring.cursor
      chain := bus.chain.reset
      tx := bus.tx.abort
      pending := none
      framerAt := none
      chainAt := none }

/-- TX arm completion; deferred config lands once the reply has drained. -/
def onTxComplete (bus : ServoBus) (chip : Chip) : ServoBus :=
  let (out, tx, crc) := bus.tx.onArmComplete bus.crc
  let bus := { bus with tx, crc }
  if out != .released then bus
  else
    let bus := match bus.pendingId with
      | some id => { bus with id, pendingId := none }
      | none => bus
    match bus.pendingBaud with
    | some rate =>
        { bus with rate, tpb := tpbFor chip rate, clock := bus.clock.restart, pendingBaud := none }
    | none => bus

/-- Main-loop poll for a deferred reboot. -/
def takeReboot (bus : ServoBus) : Option BootMode × ServoBus :=
  if bus.tx.busy then (none, bus) else (bus.pendingReboot, { bus with pendingReboot := none })

def pollClockTrim (bus : ServoBus) : Option ℤ × ServoBus :=
  let (out, clock) := bus.clock.poll
  (out, { bus with clock })

/-- The ruler mark of a live CAL train. -/
def onCalBreak (bus : ServoBus) (chip : Chip) : ServoBus :=
  let (due, clock) := bus.clock.onCalBreak bus.now bus.ring.cursor chip.ticksPerUs
  let bus := { bus with clock }
  match due with
  | some due => armDeadline { bus with framerAt := some due }
  | none => bus

end ServoBus

end OpenServo.Bus
