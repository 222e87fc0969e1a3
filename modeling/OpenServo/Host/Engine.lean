import OpenServo.Bus.Reading
import OpenServo.Host.Capture
import OpenServo.Host.Framer
import OpenServo.Security.Session

/-!
# The host engine

One outstanding command, or one instrument wire operation, owns the wire at a time.
A call is handed what the providers show it (the clock and the receive ring) and
records what it asks of them, in order.  Callbacks may come at any time; `poll`
yields at most one event a call.
-/

namespace OpenServo.Host

open Bus Security

/-- What the providers show the engine during one call. -/
structure Inputs where
  ticksPerUs : UInt32
  now : UInt32
  ring : List Byte
  cursor : UInt16
  deriving DecidableEq, Repr

/-- What the engine asks of its providers: the wire, the compare, the UART rate. -/
inductive Op where
  | claim
  | sendBreak
  | send (span : List Byte)
  | holdLow
  | release
  | set (tick : UInt32)
  | cancel
  | apply (rate : BaudRate)
  | applyRaw (bps : UInt32)
  deriving DecidableEq, Repr

/-- One logical command. -/
inductive Command where
  | exchange (id : Id) (inst : Inst) (payload : List Byte)
  /-- Rescue pulse, then the host UART drops to the rescue rate. -/
  | rescue
  | hostBaud (rate : BaudRate)
  | setResponseDeadline (us : UInt16)
  deriving DecidableEq, Repr

/-- One instrument operation on the raw wire. -/
inductive WireOp where
  | send (bytes : List Byte)
  /-- Length-prefixed frames, back to back. -/
  | burst (stream : List Byte)
  | pulse (us : UInt16)
  | train (announce : List Byte) (gapUs : UInt16) (breaks : Byte)
  | baud (bps : UInt32)
  deriving DecidableEq, Repr

inductive SubmitError where
  /-- One outstanding command, ever, an unconsumed terminal included. -/
  | busy
  | invalid (reason : InvalidReason)
  deriving DecidableEq, Repr

/-- Wire-level evidence gathered over one command. -/
structure WireEvidence where
  /-- CRC-clean status frames delivered. -/
  statuses : Byte
  /-- Ring bytes that anchored no clean status. -/
  garble : UInt16
  /-- Garble arrived after the last clean frame. -/
  garbleAfterLastFrame : Bool
  deriving DecidableEq, Repr

def WireEvidence.default : WireEvidence := ⟨0, 0, false⟩

inductive Outcome where
  | sent
  | complete
  | timeout (slot : Byte)
  deriving DecidableEq, Repr

/-- The one record that closes a command. -/
structure Terminal where
  outcome : Outcome
  tick : UInt32
  evidence : WireEvidence
  deriving DecidableEq, Repr

inductive Event where
  | status (slot : Byte) (id : Id) (inst : Inst) (payload : FrameBytes)
  | done (terminal : Terminal)
  | wireDone (tick : UInt32)
  deriving DecidableEq, Repr

inductive State where
  | idle
  /-- Enforced silence before the transmission. -/
  | pacing
  | transmitting
  /-- CAL train: breaks still to send on the `gap`-tick grid. -/
  | training (left : Byte) (gap : UInt32)
  | rescueHold
  | awaiting
  | wireTx
  | wirePulse
  | wireTrain (left : Byte) (gap : UInt32)
  deriving DecidableEq, Repr

/-- One break-framed span, or length-prefixed frames fired back to back. -/
inductive Mode where
  | single
  | stream
  deriving DecidableEq, Repr

structure WireJob where
  bytes : List Byte
  cursor : ℕ
  mode : Mode
  /-- Break train staged behind the announce. -/
  train : Option (Byte × UInt32)
  deriving DecidableEq, Repr

def WireJob.new : WireJob := ⟨[], 0, .single, none⟩

structure HostBus where
  framer : Framer
  buf : List Byte
  state : State
  /-- The active exchange's plan. -/
  plan : Option Shape
  rate : BaudRate
  responseDeadlineUs : UInt16
  /-- Enforced-quiet end after garble evidence or a rate change. -/
  paceUntil : Option UInt32
  deadlineAt : UInt32
  /-- Wire progress pushes the window out by this. -/
  window : UInt32
  /-- Statuses delivered for the active command. -/
  got : Byte
  lastCursor : UInt16
  evidence : WireEvidence
  pendingDone : Option Terminal
  wireJob : WireJob
  pendingWireDone : Option UInt32
  edges : EdgeCapture
  ops : List Op
  deriving DecidableEq, Repr

def rescueHoldUs : UInt32 := 1000
def windowMarginBytes : UInt32 := 16
def slowOpExtraUs : UInt32 := 50000
def defaultResponseDeadlineUs : UInt16 := 60

/-- Raw TX staging bound. -/
def wireCap : ℕ := 640

def saturatingAdd16 (a b : UInt16) : UInt16 :=
  if a.toNat + b.toNat < 65536 then a + b else 0xFFFF

/-- Wrap-aware "`a` is at or after `b`". -/
def tickReached (a b : UInt32) : Bool := a - b < 0x7FFFFFFF

namespace HostBus

def new (rate : BaudRate) (edges : EdgeCapture) : HostBus where
  framer := .new
  buf := []
  state := .idle
  plan := none
  rate := rate
  responseDeadlineUs := defaultResponseDeadlineUs
  paceUntil := none
  deadlineAt := 0
  window := 0
  got := 0
  lastCursor := 0
  evidence := .default
  pendingDone := none
  wireJob := .new
  pendingWireDone := none
  edges := edges
  ops := []

def emit (bus : HostBus) (op : Op) : HostBus := { bus with ops := bus.ops ++ [op] }

def arm (bus : HostBus) (tick : UInt32) : HostBus :=
  { bus with deadlineAt := tick }.emit (.set tick)

/-- Ticks per 10-bit character at the current rate. -/
def byteTicks (bus : HostBus) (inp : Inputs) : UInt32 :=
  inp.ticksPerUs * 10000000 / UInt32.ofNat bus.rate.asHz

/-- One starve horizon of enforced silence at the current rate. -/
def pace (bus : HostBus) (inp : Inputs) : HostBus :=
  { bus with paceUntil := some (inp.now + starveHorizonByteTimes * bus.byteTicks inp) }

/-- Close the command: the terminal is queued for the next `poll`. -/
def finish (bus : HostBus) (inp : Inputs) (outcome : Outcome) : HostBus :=
  let bus := if 0 < bus.evidence.garble then bus.pace inp else bus
  { bus with
    pendingDone := some ⟨outcome, inp.now, bus.evidence⟩
    evidence := .default
    state := .idle
    plan := none }

def startTx (bus : HostBus) : HostBus :=
  let bus := (bus.emit .claim).emit .sendBreak
  { bus.emit (.send bus.buf.tail) with state := .transmitting }

/-- Await window: the response deadline, the expected reply's wire time, a margin. -/
def windowFor (bus : HostBus) (inp : Inputs) (plan : Shape) : UInt32 :=
  let byte := bus.byteTicks inp
  let w := bus.responseDeadlineUs.toUInt32 * inp.ticksPerUs +
    UInt32.ofNat plan.replyFootprint * byte + windowMarginBytes * byte
  let w := if plan.replies = .collect then w + enumReplySlots.toUInt32 * byte else w
  if plan.slow then w + slowOpExtraUs * inp.ticksPerUs else w

def ready (bus : HostBus) : Bool :=
  bus.state == .idle && bus.pendingDone.isNone && bus.pendingWireDone.isNone

/-! ## Commands -/

def submit (bus : HostBus) (inp : Inputs) (cmd : Command) : Except SubmitError Unit × HostBus :=
  if !bus.ready then (.error .busy, bus)
  else
    let bus := { bus with evidence := .default }
    match cmd with
    | .setResponseDeadline us =>
        (.ok (), { bus with responseDeadlineUs := us }.finish inp .complete)
    | .hostBaud rate =>
        let bus := { bus.emit (.apply rate) with rate }
        (.ok (), (bus.pace inp).finish inp .complete)
    | .rescue =>
        let bus := { (bus.emit .claim).emit .holdLow with state := .rescueHold }
        (.ok (), bus.arm (inp.now + rescueHoldUs * inp.ticksPerUs))
    | .exchange id inst payload =>
        match Shape.derive id inst payload with
        | .error reason => (.error (.invalid reason), bus)
        | .ok plan =>
            let quiet := bus.paceUntil
            let bus := { bus with
              buf := wireFrame id inst payload
              plan := some plan
              framer := bus.framer.resync inp.cursor.toNat
              paceUntil := none }
            match quiet with
            | some tick =>
                if !tickReached inp.now tick then
                  (.ok (), { bus with state := .pacing }.arm tick)
                else (.ok (), bus.startTx)
            | none => (.ok (), bus.startTx)

/-! ## Instrument operations -/

/-- Stage `bytes` as one break-framed span and put it on the wire. -/
def startWire (bus : HostBus) (job : WireJob) : HostBus :=
  let bus := ({ bus with wireJob := job }.emit .claim).emit .sendBreak
  { bus.emit (.send job.bytes) with state := .wireTx }

/-- One law break and `bytes`, raw. -/
def wireSend (bus : HostBus) (bytes : List Byte) : Except SubmitError Unit × HostBus :=
  if !bus.ready then (.error .busy, bus)
  else if bytes.isEmpty then (.error (.invalid .badPayload), bus)
  else if bytes.length > wireCap then (.error (.invalid .tooLong), bus)
  else (.ok (), bus.startWire { bus.wireJob with bytes, mode := .single, train := none })

/-- Announce frame and bare breaks `gapUs` apart on the deadline grid. -/
def wireTrain (bus : HostBus) (inp : Inputs) (announce : List Byte) (gapUs : UInt16)
    (breaks : Byte) : Except SubmitError Unit × HostBus :=
  if !bus.ready then (.error .busy, bus)
  else if announce.isEmpty || gapUs == 0 || breaks == 0 then (.error (.invalid .badPayload), bus)
  else if announce.length > wireCap then (.error (.invalid .tooLong), bus)
  else
    (.ok (), bus.startWire { bus.wireJob with
      bytes := announce
      mode := .single
      train := some (breaks, gapUs.toUInt32 * inp.ticksPerUs) })

/-- The catalog rate nearest `bps`, the first of equals. -/
def nearestRate (bps : UInt32) : BaudRate :=
  let diff (rate : BaudRate) : ℕ := max (rate.asHz - bps.toNat) (bps.toNat - rate.asHz)
  [BaudRate.b1000000, .b2000000, .b3000000].foldl
    (fun best rate => if diff rate < diff best then rate else best) .b500000

/-- Arbitrary host UART rate; completes at once. -/
def wireBaud (bus : HostBus) (inp : Inputs) (bps : UInt32) : Except SubmitError Unit × HostBus :=
  if !bus.ready then (.error .busy, bus)
  else if bps == 0 then (.error (.invalid .badPayload), bus)
  else
    let bus := { bus.emit (.applyRaw bps) with rate := nearestRate bps }
    (.ok (), { bus.pace inp with pendingWireDone := some inp.now })

/-- Where the length-prefixed frames of `stream` end, `none` for a malformed one. -/
def burstEnd (stream : List Byte) : ℕ → ℕ → Option ℕ
  | 0, pos => some pos
  | fuel + 1, pos =>
      if pos < stream.length then
        let flen := (stream.getD pos 0).toNat
        if flen == 0 || pos + 1 + flen > stream.length then none
        else burstEnd stream fuel (pos + 1 + flen)
      else some pos

def wireNextFrame (bus : HostBus) : HostBus :=
  let pos := bus.wireJob.cursor
  let flen := (bus.wireJob.bytes.getD pos 0).toNat
  let bus := { bus with wireJob.cursor := pos + 1 + flen }
  (bus.emit .sendBreak).emit (.send ((bus.wireJob.bytes.drop (pos + 1)).take flen))

/-- Length-prefixed frames fired back to back, each break-framed. -/
def wireBurst (bus : HostBus) (stream : List Byte) : Except SubmitError Unit × HostBus :=
  if !bus.ready then (.error .busy, bus)
  else if stream.length > wireCap then (.error (.invalid .tooLong), bus)
  else
    match burstEnd stream stream.length 0 with
    | none => (.error (.invalid .badPayload), bus)
    | some pos =>
        if pos == 0 then (.error (.invalid .badPayload), bus)
        else
          let job := { bus.wireJob with bytes := stream, cursor := 0, mode := .stream }
          let bus := { bus with wireJob := job }.emit .claim
          (.ok (), { bus.wireNextFrame with state := .wireTx })

/-- Hold the wire dominant for `us` microseconds. -/
def wirePulseLow (bus : HostBus) (inp : Inputs) (us : UInt16) : Except SubmitError Unit × HostBus :=
  if !bus.ready then (.error .busy, bus)
  else if us == 0 then (.error (.invalid .badPayload), bus)
  else
    let bus := { (bus.emit .claim).emit .holdLow with state := .wirePulse }
    (.ok (), bus.arm (inp.now + us.toUInt32 * inp.ticksPerUs))

/-- The instrument operation a caller asks for. -/
def wireOp (bus : HostBus) (inp : Inputs) : WireOp → Except SubmitError Unit × HostBus
  | .send bytes => bus.wireSend bytes
  | .burst stream => bus.wireBurst stream
  | .pulse us => bus.wirePulseLow inp us
  | .train announce gapUs breaks => bus.wireTrain inp announce gapUs breaks
  | .baud bps => bus.wireBaud inp bps

def wireFinish (bus : HostBus) (inp : Inputs) : HostBus :=
  { bus.emit .release with state := .idle, pendingWireDone := some inp.now }

/-- Transmission complete on a wire operation: the train, the next frame, or the end. -/
def wireAdvance (bus : HostBus) (inp : Inputs) : HostBus :=
  match bus.wireJob.train with
  | some (left, gap) =>
      let bus := { bus with wireJob.train := none, state := .wireTrain left gap }
      bus.arm (inp.now + gap)
  | none =>
      if bus.wireJob.mode = .stream ∧ bus.wireJob.cursor < bus.wireJob.bytes.length then
        bus.wireNextFrame
      else bus.wireFinish inp

/-! ## Callbacks -/

/-- The armed frame span drained. -/
def onTxComplete (bus : HostBus) (inp : Inputs) : HostBus :=
  match bus.state with
  | .wireTx => bus.wireAdvance inp
  | .transmitting =>
      match bus.plan with
      | none => (bus.emit .release).finish inp .sent
      | some plan =>
          match plan.train with
          | some (gapUs, gaps) =>
              -- the wire stays claimed for the whole train
              let gap := UInt32.ofNat gapUs * inp.ticksPerUs
              { bus with state := .training (gaps + 1) gap }.arm (inp.now + gap)
          | none =>
              let bus := bus.emit .release
              if plan.replies = .none then bus.finish inp .sent
              else
                let bus := { bus with
                  window := bus.windowFor inp plan
                  got := 0
                  lastCursor := inp.cursor
                  state := .awaiting }
                bus.arm (inp.now + bus.window)
  | _ => bus

/-- One break of a train; the last one is followed by `close`. -/
def trainBreak (bus : HostBus) (left : Byte) (gap : UInt32) (next : Byte → UInt32 → State)
    (close : HostBus → HostBus) : HostBus :=
  let bus := bus.emit .sendBreak
  if left ≤ 1 then close bus
  else
    -- the next slot is on the grid from the previous target, not from now
    { bus with state := next (left - 1) gap }.arm (bus.deadlineAt + gap)

/-- The compare fired; only the trains act here. -/
def onDeadline (bus : HostBus) (inp : Inputs) : HostBus :=
  match bus.state with
  | .training left gap =>
      bus.trainBreak left gap .training fun bus => (bus.emit .release).finish inp .sent
  | .wireTrain left gap => bus.trainBreak left gap .wireTrain fun bus => bus.wireFinish inp
  | _ => bus

/-! ## Polling -/

/-- Wire progress: the window starts again. -/
def rearm (bus : HostBus) (inp : Inputs) : HostBus := bus.arm (inp.now + bus.window)

/-- Ring bytes that anchored no status. -/
def addGarble (bus : HostBus) (bytes : ℕ) : HostBus :=
  { bus with
    evidence.garble := saturatingAdd16 bus.evidence.garble (UInt16.ofNat bytes)
    evidence.garbleAfterLastFrame := true }

/-- Ring content no verdict has consumed is evidence, not silence. -/
def foldUnresolved (bus : HostBus) (inp : Inputs) : HostBus :=
  let left := unresolved bus.framer.anchor inp.cursor.toNat inp.ring.length
  if 0 < left then bus.addGarble left else bus

/-- A status frame of the awaited reply. -/
def onStatus (bus : HostBus) (inp : Inputs) (expected : Option Byte) (frame : Frame) :
    Event × HostBus :=
  let paceAt := inp.now + starveHorizonByteTimes * bus.byteTicks inp
  let bus := { bus with
    got := saturatingSucc8 bus.got
    evidence.statuses := saturatingSucc8 bus.evidence.statuses
    evidence.garbleAfterLastFrame := false }
  let bus :=
    if expected = some bus.got then
      let bus := ({ bus.emit .cancel with state := .idle }).foldUnresolved inp
      let bus := if 0 < bus.evidence.garble then { bus with paceUntil := some paceAt } else bus
      { bus with
        pendingDone := some ⟨.complete, inp.now, bus.evidence⟩
        evidence := .default
        plan := none }
    else bus.rearm inp
  let bus := { bus with lastCursor := inp.cursor }
  (.status (bus.got - 1) frame.id frame.inst
    (payloadView inp.ring frame.payloadPos frame.payload.len), bus)

/-- Walk the ring up to the next status frame, if there is one. -/
def awaitWalk (inp : Inputs) (expected : Option Byte) : ℕ → HostBus → Option Event × HostBus
  | 0, bus => (none, bus)
  | fuel + 1, bus =>
      match bus.framer.step inp.ring inp.cursor.toNat with
      | (.frame frame, framer) =>
          let bus := { bus with framer }
          if frame.inst.isStatus then
            let (event, bus) := bus.onStatus inp expected frame
            (some event, bus)
          else
            -- a rogue talker: junk for the evidence, but still wire progress
            awaitWalk inp expected fuel ((bus.addGarble (frame.payload.len + 6)).rearm inp)
      | (.garble n, framer) =>
          let bus := { bus with framer }
          awaitWalk inp expected fuel ((bus.addGarble n).rearm inp)
      | (.parked, framer) | (.idle, framer) => (none, { bus with framer })

def takeDone (bus : HostBus) : Option Event × HostBus :=
  (bus.pendingDone.map .done, { bus with pendingDone := none })

def takeWireDone (bus : HostBus) : Option Event × HostBus :=
  (bus.pendingWireDone.map .wireDone, { bus with pendingWireDone := none })

/-- The quiet end of an await window. -/
def expire (bus : HostBus) (inp : Inputs) (replies : Replies) : HostBus :=
  let bus := (bus.emit .cancel).foldUnresolved inp
  -- for a collecting command the quiet horizon is the completion
  bus.finish inp (if replies = .collect then .complete else .timeout bus.got)

def expectedReplies : Replies → Option Byte
  | .single | .none => some 1
  | .chain n => some n
  | .collect => none

def pollAwait (bus : HostBus) (inp : Inputs) : Option Event × HostBus :=
  match bus.plan with
  | none => (none, bus)
  | some plan =>
      let fuel := unresolved bus.framer.anchor inp.cursor.toNat inp.ring.length + 1
      match awaitWalk inp (expectedReplies plan.replies) fuel bus with
      | (some event, bus) => (some event, bus)
      | (none, bus) =>
          -- progress is read off the ring, never off the line going idle
          let progressed := inp.cursor != bus.lastCursor
          let bus := { bus with lastCursor := inp.cursor }
          let bus :=
            if progressed then bus.rearm inp
            else if tickReached inp.now bus.deadlineAt then bus.expire inp plan.replies
            else bus
          bus.takeDone

/-- What a due compare means to the states that only wait for it. -/
def pollDue (bus : HostBus) (inp : Inputs) : HostBus :=
  match bus.state with
  | .pacing => if tickReached inp.now bus.deadlineAt then bus.startTx else bus
  | .rescueHold =>
      if tickReached inp.now bus.deadlineAt then
        let bus := { (bus.emit .release).emit (.apply .b500000) with rate := .b500000 }
        (bus.pace inp).finish inp .sent
      else bus
  | .wirePulse => if tickReached inp.now bus.deadlineAt then bus.wireFinish inp else bus
  | _ => bus

/-- Advance from ring and clock; at most one event a call. -/
def poll (bus : HostBus) (inp : Inputs) : Option Event × HostBus :=
  if bus.pendingDone.isSome then bus.takeDone
  else if bus.pendingWireDone.isSome then bus.takeWireDone
  else if bus.state = .awaiting then bus.pollAwait inp
  else
    let bus := bus.pollDue inp
    if bus.pendingWireDone.isSome then bus.takeWireDone else bus.takeDone

end HostBus

end OpenServo.Host
