import OpenServo.Core.Framing
import OpenServo.Host.Engine

/-!
# Pipe records

The vocabulary between adapter and client over a reliable ordered byte pipe.  A
record is its length on two bytes, its type and its body; carrier transfers carry
no meaning.
-/

namespace OpenServo.Host

/-! ## Little-endian fields -/

def u32FromLe (b0 b1 b2 b3 : Byte) : UInt32 :=
  UInt32.ofNat (u16FromLe b0 b1 + 65536 * u16FromLe b2 b3)

def u32ToLe (v : UInt32) : List Byte := u16ToLe v.toNat ++ u16ToLe (v.toNat / 65536)

theorem ofNat_u16FromLe (v : UInt16) :
    UInt16.ofNat (u16FromLe (UInt8.ofNat v.toNat) (UInt8.ofNat (v.toNat / 256))) = v := by
  rw [u16FromLe_ofNat v.toNat_lt, UInt16.ofNat_toNat]

theorem u32FromLe_ofNat (v : UInt32) :
    u32FromLe (UInt8.ofNat v.toNat) (UInt8.ofNat (v.toNat / 256))
      (UInt8.ofNat (v.toNat / 65536)) (UInt8.ofNat (v.toNat / 65536 / 256)) = v := by
  have hv := v.toNat_lt
  apply UInt32.toNat_inj.mp
  simp only [u32FromLe, u16FromLe, UInt32.toNat_ofNat', UInt8.toNat_ofNat']
  omega

/-! ## Types, verbs and codes -/

def recHello : Byte := 0x00
def recSubmit : Byte := 0x01
def recEnterBootloader : Byte := 0x40
def recSetRails : Byte := 0x60
def recWireSend : Byte := 0x61
def recWireBurst : Byte := 0x62
def recWirePulse : Byte := 0x63
def recEdgeDrain : Byte := 0x64
def recCaptureReset : Byte := 0x65
def recWireTrain : Byte := 0x66
def recWireBaud : Byte := 0x67
def recInfo : Byte := 0x80
def recStatus : Byte := 0x81
def recTerminal : Byte := 0x82
def recRejected : Byte := 0x83
def recUnknown : Byte := 0x84
def recBootloaderAck : Byte := 0x48
def recRailsAck : Byte := 0x68
def recWireDone : Byte := 0x69
def recEdges : Byte := 0x6C
def recCaptureAck : Byte := 0x6D

def verbExchange : Byte := 0x00
def verbRescue : Byte := 0x01
def verbHostBaud : Byte := 0x02
def verbSetResponseDeadline : Byte := 0x03

def reasonBadId : Byte := 0x00
def reasonBadInst : Byte := 0x01
def reasonBadPayload : Byte := 0x02
def reasonTooLong : Byte := 0x03
def reasonBusy : Byte := 0x04
def reasonMalformed : Byte := 0x05

def outcomeSent : Byte := 0x00
def outcomeComplete : Byte := 0x01
def outcomeTimeout : Byte := 0x02

def flagGarbleAfterLastFrame : Byte := 1

def linkVersion : Byte := 1

/-- Rails state out of adapter boot: both on. -/
def railsBootState : Byte := 0b11

/-- The seq of a record that no command owns. -/
def seqNone : UInt16 := 0xFFFF

def reasonCode : InvalidReason → Byte
  | .badId => reasonBadId
  | .badInst => reasonBadInst
  | .badPayload => reasonBadPayload
  | .tooLong => reasonTooLong

/-! ## Framing -/

/-- `len(2 LE)` covering type and body. -/
def lenCodec : Framing.Codec Byte where
  width := 2
  bound := 65536
  put := u16ToLe
  get bytes := u16FromLe (bytes.getD 0 0) (bytes.getD 1 0)
  length_put := length_u16ToLe
  get_put := by
    intro n rest hn
    exact u16FromLe_ofNat hn

/-- Prefix a type and body with their length. -/
def sealed (body : List Byte) : List Byte := Framing.frame lenCodec body

/-! ## Adapter to client -/

/-- What the server puts on the pipe. -/
inductive Sent where
  | info (ticksPerUs : UInt32)
  | status (seq : UInt16) (slot id inst : Byte) (payload : FrameBytes)
  | terminal (seq : UInt16) (terminal : Terminal)
  | rejected (seq : UInt16) (reason : Byte)
  | unknown (rtype : Byte)
  | bootloaderAck
  | railsAck (state : Byte)
  | wireDone (seq : UInt16) (tick : UInt32)
  | edges (overflow : Bool) (now : UInt32) (falls rises : List UInt16)
  | captureAck
  deriving DecidableEq, Repr

namespace Sent

def seqToLe (seq : UInt16) : List Byte := u16ToLe seq.toNat

def outcomeBytes : Outcome → List Byte
  | .sent => [outcomeSent, 0]
  | .complete => [outcomeComplete, 0]
  | .timeout slot => [outcomeTimeout, slot]

/-- Type and body of a record. -/
def body : Sent → List Byte
  | info ticksPerUs => recInfo :: linkVersion :: u32ToLe ticksPerUs
  | status seq slot id inst payload =>
      recStatus :: (seqToLe seq ++ [slot, id, inst] ++ (payload.segments.1 ++ payload.segments.2))
  | terminal seq t =>
      recTerminal :: (seqToLe seq ++ outcomeBytes t.outcome ++ u32ToLe t.tick ++
        [t.evidence.statuses] ++ u16ToLe t.evidence.garble.toNat ++
        [if t.evidence.garbleAfterLastFrame then flagGarbleAfterLastFrame else 0])
  | rejected seq reason => recRejected :: (seqToLe seq ++ [reason])
  | unknown rtype => [recUnknown, rtype]
  | bootloaderAck => [recBootloaderAck]
  | railsAck state => [recRailsAck, state]
  | wireDone seq tick => recWireDone :: (seqToLe seq ++ u32ToLe tick)
  | edges overflow now falls rises =>
      recEdges :: overflow.toUInt8 :: (u32ToLe now ++
        [UInt8.ofNat falls.length, UInt8.ofNat rises.length] ++
        (falls ++ rises).flatMap fun tick => u16ToLe tick.toNat)
  | captureAck => [recCaptureAck]

/-- The bytes of a record on the pipe. -/
def bytes (sent : Sent) : List Byte := sealed sent.body

/-- The seq a record carries, for the records that carry one. -/
def seq? : Sent → Option UInt16
  | status seq _ _ _ _ | terminal seq _ | rejected seq _ | wireDone seq _ => some seq
  | _ => none

end Sent

/-! ## Client to adapter -/

/-- A client record as the server takes it apart; a wire operation or a command is
missing when its arguments do not parse. -/
inductive Asked where
  | hello
  | enterBootloader
  | setRails (state mask : Byte)
  | wire (seq : UInt16) (op : Option WireOp)
  | edgeDrain (max : Byte)
  | captureReset
  | submit (seq : UInt16) (cmd : Option Command)
  | unknown (rtype : Byte)
  deriving DecidableEq, Repr

def seqFromLe (lo hi : Byte) : UInt16 := UInt16.ofNat (u16FromLe lo hi)

/-- The body of an instrument record. -/
def readWireOp (rtype : Byte) (body : List Byte) : Option WireOp :=
  if rtype = recWireSend then some (.send body)
  else if rtype = recWireBurst then some (.burst body)
  else if rtype = recWirePulse then
    match body with
    | [u0, u1] => some (.pulse (seqFromLe u0 u1))
    | _ => none
  else if rtype = recWireTrain then
    match body with
    | g0 :: g1 :: breaks :: announce =>
        -- `body.len() >= 4`: an empty announce never reaches the engine
        if announce.isEmpty then none else some (.train announce (seqFromLe g0 g1) breaks)
    | _ => none
  else
    match body with
    | [b0, b1, b2, b3] => some (.baud (u32FromLe b0 b1 b2 b3))
    | _ => none

/-- The verb and arguments of a SUBMIT. -/
def readCommand (verb : Byte) (args : List Byte) : Option Command :=
  if verb = verbExchange then
    match args with
    | id :: inst :: payload => some (.exchange ⟨id⟩ ⟨inst⟩ payload)
    | _ => none
  else if verb = verbRescue then if args.isEmpty then some .rescue else none
  else if verb = verbHostBaud then
    match args with
    | [idx] => (BaudRate.fromIdx idx).map .hostBaud
    | _ => none
  else if verb = verbSetResponseDeadline then
    match args with
    | [u0, u1] => some (.setResponseDeadline (seqFromLe u0 u1))
    | _ => none
  else none

def isWireRecord (rtype : Byte) : Bool :=
  rtype ∈ [recWireSend, recWireBurst, recWirePulse, recWireTrain, recWireBaud]

/-- One complete record, type and body; the server never sees an empty one. -/
def readRecord : List Byte → Asked
  | [] => .unknown 0
  | rtype :: body =>
      if rtype = recHello then .hello
      else if rtype = recEnterBootloader then .enterBootloader
      else if isWireRecord rtype then
        match body with
        | s0 :: s1 :: args => .wire (seqFromLe s0 s1) (readWireOp rtype args)
        | _ => .unknown rtype
      else if rtype = recCaptureReset then .captureReset
      else if rtype = recSubmit then
        match body with
        | s0 :: s1 :: verb :: args => .submit (seqFromLe s0 s1) (readCommand verb args)
        | _ => .unknown rtype
      else
        match body with
        | b :: rest =>
            if rtype = recSetRails then .setRails b (rest.headD 0b11 &&& 0b11)
            else if rtype = recEdgeDrain then .edgeDrain b
            else .unknown rtype
        | [] => .unknown rtype

end OpenServo.Host
