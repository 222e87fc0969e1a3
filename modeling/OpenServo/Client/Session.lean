import OpenServo.Host.Record

/-!
# The client's session

Record framing over the pipe's byte stream, both directions.  The pipe is what
it will answer to sends and what it will deliver, in order; a pipe with nothing
left to deliver stalls past the guard.
-/

namespace OpenServo

/-! ## The instruction byte, both ways -/

def Opcode.toBits : Opcode → Byte
  | .ping => 1
  | .read => 2
  | .write => 3
  | .commit => 4
  | .gread => 5
  | .gwrite => 6
  | .mgmt => 7

/-- The already extracted field; higher values are reserved. -/
def ResultCode.fromBits (bits : Byte) : Option ResultCode :=
  match bits.toNat with
  | 0 => some .ok
  | 1 => some .instruction
  | 2 => some .range
  | 3 => some .access
  | 4 => some .validation
  | 5 => some .busy
  | 6 => some .limit
  | 7 => some .predecessorSilent
  | 8 => some .hardware
  | 9 => some .unauthenticated
  | 10 => some .securityLockout
  | _ => none

namespace Inst

/-- Bit 0's read-side name. -/
def flagProfile : Byte := flagHold

def instruction (op : Opcode) (flags : Byte) : Inst := ⟨op.toBits <<< 4 ||| (flags &&& 0x0F)⟩

/-- Result of a status frame; `none` for instructions or a reserved code. -/
def result (inst : Inst) : Option ResultCode :=
  if !inst.isStatus then none else ResultCode.fromBits ((inst.byte >>> 2) &&& 0x1F)

def alert (inst : Inst) : Bool := inst.byte &&& alertBit != 0

end Inst

namespace Client

open Host

/-! ## Records from the adapter -/

inductive Record where
  | info (version : Byte) (ticksPerUs : UInt32)
  | status (seq : UInt16) (slot id : Byte) (inst : Inst) (payload : List Byte)
  | terminal (seq : UInt16) (outcome : Outcome) (tick : UInt32) (statuses : Byte) (garble : UInt16)
      (trailing : Bool)
  | rejected (seq : UInt16) (reason : Byte)
  | bootloaderAck
  | railsAck (state : Byte)
  /-- A wire instrument operation released the wire. -/
  | wireDone (seq : UInt16) (tick : UInt32)
  | edges (overflow : Bool) (now : UInt32) (falls rises : List UInt16)
  | captureAck
  | unknown (rtype : Byte)
  deriving DecidableEq, Repr

inductive PipeError where
  | io (message : String)
  /-- Nothing within the guard window. -/
  | stalled
  deriving DecidableEq, Repr

inductive RejectReason where
  | badId
  | badInst
  | badPayload
  | tooLong
  | busy
  | malformed
  | other (reason : Byte)
  deriving DecidableEq, Repr

def RejectReason.fromByte (b : Byte) : RejectReason :=
  if b = reasonBadId then .badId
  else if b = reasonBadInst then .badInst
  else if b = reasonBadPayload then .badPayload
  else if b = reasonTooLong then .tooLong
  else if b = reasonBusy then .busy
  else if b = reasonMalformed then .malformed
  else .other b

inductive LinkError where
  | rejected (reason : RejectReason)
  /-- A record the session cannot reconcile. -/
  | desync (expected : String) (got : Record)
  /-- A record that does not parse at all. -/
  | malformed
  deriving DecidableEq, Repr

inductive ClientError where
  | pipe (err : PipeError)
  | link (err : LinkError)
  | timeout (slot : Byte)
  /-- The servo's own refusal, or the caller's bug answered in its words. -/
  | servo (code : ResultCode)
  deriving DecidableEq, Repr

/-- The edge ticks of a drain, two bytes each. -/
def readTicks : List Byte → List UInt16
  | lo :: hi :: rest => seqFromLe lo hi :: readTicks rest
  | _ => []

/-- Type and body of one record; bytes past the last field are ignored. -/
def decode : List Byte → Except LinkError Record
  | [] => .error .malformed
  | rtype :: body =>
      if rtype = recInfo then
        match body with
        | version :: t0 :: t1 :: t2 :: t3 :: _ => .ok (.info version (u32FromLe t0 t1 t2 t3))
        | _ => .error .malformed
      else if rtype = recStatus then
        match body with
        | s0 :: s1 :: slot :: id :: inst :: payload =>
            .ok (.status (seqFromLe s0 s1) slot id ⟨inst⟩ payload)
        | _ => .error .malformed
      else if rtype = recTerminal then
        match body with
        | s0 :: s1 :: code :: slot :: t0 :: t1 :: t2 :: t3 :: statuses :: g0 :: g1 :: flags :: _ =>
            let done (outcome : Outcome) : Except LinkError Record :=
              .ok (.terminal (seqFromLe s0 s1) outcome (u32FromLe t0 t1 t2 t3) statuses
                (seqFromLe g0 g1) (flags &&& flagGarbleAfterLastFrame != 0))
            if code = outcomeSent then done .sent
            else if code = outcomeComplete then done .complete
            else if code = outcomeTimeout then done (.timeout slot)
            else .error .malformed
        | _ => .error .malformed
      else if rtype = recRejected then
        match body with
        | s0 :: s1 :: reason :: _ => .ok (.rejected (seqFromLe s0 s1) reason)
        | _ => .error .malformed
      else if rtype = recBootloaderAck then .ok .bootloaderAck
      else if rtype = recRailsAck then
        match body with
        | state :: _ => .ok (.railsAck state)
        | [] => .error .malformed
      else if rtype = recWireDone then
        match body with
        | s0 :: s1 :: t0 :: t1 :: t2 :: t3 :: _ =>
            .ok (.wireDone (seqFromLe s0 s1) (u32FromLe t0 t1 t2 t3))
        | _ => .error .malformed
      else if rtype = recEdges then
        match body with
        | flags :: n0 :: n1 :: n2 :: n3 :: fallN :: riseN :: ticks =>
            let (falls, rises) := (fallN.toNat, riseN.toNat)
            if ticks.length < 2 * (falls + rises) then .error .malformed
            else
              .ok (.edges (flags &&& 1 != 0) (u32FromLe n0 n1 n2 n3)
                (readTicks (ticks.take (2 * falls)))
                (readTicks ((ticks.drop (2 * falls)).take (2 * rises))))
        | _ => .error .malformed
      else if rtype = recCaptureAck then .ok .captureAck
      else if rtype = recUnknown then
        match body with
        | rtype :: _ => .ok (.unknown rtype)
        | [] => .error .malformed
      else .error .malformed

/-! ## The session -/

structure Session where
  rx : List Byte
  nextSeq : UInt16
  deriving DecidableEq

namespace Session

def new : Session := ⟨[], 0⟩

def allocSeq (session : Session) : UInt16 × Session :=
  let next := session.nextSeq + 1
  (session.nextSeq, { session with nextSeq := if next = seqNone then 0 else next })

def commandBytes : Command → List Byte
  | .exchange id inst payload => verbExchange :: id.byte :: inst.byte :: payload
  | .rescue => [verbRescue]
  | .hostBaud rate => [verbHostBaud, rate.asIdx]
  | .setResponseDeadline us => verbSetResponseDeadline :: u16ToLe us.toNat

/-- Encode a SUBMIT, with the seq that will tag its answer. -/
def encodeSubmit (session : Session) (cmd : Command) : UInt16 × List Byte × Session :=
  let (seq, session) := session.allocSeq
  (seq, sealed (recSubmit :: u16ToLe seq.toNat ++ commandBytes cmd), session)

def onBytes (session : Session) (chunk : List Byte) : Session :=
  { session with rx := session.rx ++ chunk }

/-- Pop the next complete record, if one has fully arrived. -/
def nextRecord (session : Session) : Except LinkError (Option Record) × Session :=
  match session.rx with
  | lo :: hi :: rest =>
      let len := u16FromLe lo hi
      if len = 0 then (.error .malformed, session)
      else if rest.length < len then (.ok none, session)
      else
        match decode (rest.take len) with
        | .ok record => (.ok (some record), { session with rx := rest.drop len })
        | .error err => (.error err, session)
  | _ => (.ok none, session)

theorem nextRecord_some {session session' : Session} {record : Record}
    (hcut : session.nextRecord = (.ok (some record), session')) :
    session'.rx.length < session.rx.length := by
  unfold nextRecord at hcut
  split at hcut
  case h_1 lo hi rest hrx =>
      rw [hrx]
      dsimp only at hcut
      split_ifs at hcut with hzero hshort
      · cases hcut
      · cases hcut
      · split at hcut
        · obtain ⟨-, rfl⟩ := Prod.mk.inj hcut
          simp only [List.length_drop, List.length_cons]
          omega
        · cases hcut
  case h_2 => cases hcut

theorem nextRecord_none {session session' : Session}
    (hcut : session.nextRecord = (.ok none, session')) : session' = session := by
  unfold nextRecord at hcut
  split at hcut
  case h_1 lo hi rest hrx =>
      dsimp only at hcut
      split_ifs at hcut with hzero hshort
      · cases hcut
      · exact (Prod.mk.inj hcut).2.symm
      · split at hcut <;> cases hcut
  case h_2 => exact (Prod.mk.inj hcut).2.symm

end Session

/-- What the pipe answers to the n-th send, what it delivers, and what it was
given. -/
structure Pipe where
  accepts : ℕ → Except PipeError Unit
  delivers : List (Except PipeError (List Byte))
  sent : List (List Byte)

namespace Pipe

def send (pipe : Pipe) (bytes : List Byte) : Except PipeError Unit × Pipe :=
  (pipe.accepts pipe.sent.length, { pipe with sent := pipe.sent ++ [bytes] })

/-- Bytes still to be delivered. -/
def inFlight (delivers : List (Except PipeError (List Byte))) : ℕ :=
  (delivers.map fun
    | .ok chunk => chunk.length
    | .error _ => 0).sum

end Pipe

end Client

end OpenServo
