import Mathlib

/-!
# Wire primitives

Frame identifiers, the packed `INST` byte and the span arithmetic of the
osc-native frame `BREAK | ID | LEN | INST | payload | CRC_lo | CRC_hi`.
Identifiers and `INST` are kept as raw bytes, as on the wire: every bit
pattern is representable and validity comes from the accessors.
-/

namespace OpenServo

abbrev Byte := UInt8

/-- `dst[off..off + src.len()].copy_from_slice(src)`. -/
def copyAt (dst : List Byte) (off : ℕ) (src : List Byte) : List Byte :=
  dst.take off ++ src ++ dst.drop (off + src.length)

/-- `u16::to_le_bytes`, of the value modulo `2^16`. -/
def u16ToLe (n : ℕ) : List Byte := [UInt8.ofNat n, UInt8.ofNat (n / 256)]

/-- `u16::to_le_bytes`. -/
def leBytes16 (v : UInt16) : List Byte := [v.toUInt8, (v >>> 8).toUInt8]

/-- `u32::to_le_bytes`. -/
def leBytes32 (v : UInt32) : List Byte :=
  [v.toUInt8, (v >>> 8).toUInt8, (v >>> 16).toUInt8, (v >>> 24).toUInt8]

/-- `u16::from_le_bytes`. -/
def fromLeBytes16 (lo hi : Byte) : UInt16 := lo.toUInt16 ||| (hi.toUInt16 <<< 8)

/-! ## Identifiers -/

structure Id where
  byte : Byte
  deriving DecidableEq, Repr

namespace Id

def broadcast : Id := ⟨0xFE⟩

/-- Validated unicast constructor; accepts only `0x01..=0xF9`. -/
def tryUnicast (b : Byte) : Option Id :=
  if 0x01 ≤ b ∧ b ≤ 0xF9 then some ⟨b⟩ else none

def isBroadcast (id : Id) : Bool := id.byte == 0xFE

/-- Is a frame with this ID byte for the servo `other`? -/
def addresses (id other : Id) : Bool := id.isBroadcast || id.byte == other.byte

end Id

/-! ## Baud rates -/

inductive BaudRate where
  | b500000
  | b1000000
  | b2000000
  | b3000000
  deriving DecidableEq, Repr

def BaudRate.asHz : BaudRate → ℕ
  | .b500000 => 500000
  | .b1000000 => 1000000
  | .b2000000 => 2000000
  | .b3000000 => 3000000

/-- The `baud_rate_idx` register value is the discriminant. -/
def BaudRate.fromIdx (idx : Byte) : Option BaudRate :=
  match idx.toNat with
  | 0 => some .b500000
  | 1 => some .b1000000
  | 2 => some .b2000000
  | 3 => some .b3000000
  | _ => none

def BaudRate.asIdx : BaudRate → Byte
  | .b500000 => 0
  | .b1000000 => 1
  | .b2000000 => 2
  | .b3000000 => 3

/-! ## Opcodes and result codes -/

inductive Opcode where
  | ping
  | read
  | write
  | commit
  | gread
  | gwrite
  | mgmt
  deriving DecidableEq, Repr

def Opcode.fromBits (bits : ℕ) : Option Opcode :=
  match bits with
  | 1 => some .ping
  | 2 => some .read
  | 3 => some .write
  | 4 => some .commit
  | 5 => some .gread
  | 6 => some .gwrite
  | 7 => some .mgmt
  | _ => none

inductive ResultCode where
  | ok
  | instruction
  | range
  | access
  | validation
  | busy
  | limit
  | predecessorSilent
  | hardware
  | unauthenticated
  | securityLockout
  deriving DecidableEq, Repr

def ResultCode.toBits : ResultCode → Byte
  | .ok => 0
  | .instruction => 1
  | .range => 2
  | .access => 3
  | .validation => 4
  | .busy => 5
  | .limit => 6
  | .predecessorSilent => 7
  | .hardware => 8
  | .unauthenticated => 9
  | .securityLockout => 10

/-- MGMT sub-operation, payload byte 0. -/
inductive MgmtOp where
  | enum
  | assign
  | save
  | reboot
  | factory
  | cal
  | secInit
  | secKey
  | secAttest
  | secRekey
  deriving DecidableEq, Repr

def MgmtOp.fromByte (b : Byte) : Option MgmtOp :=
  match b.toNat with
  | 1 => some .enum
  | 2 => some .assign
  | 3 => some .save
  | 4 => some .reboot
  | 5 => some .factory
  | 6 => some .cal
  | 7 => some .secInit
  | 8 => some .secKey
  | 9 => some .secAttest
  | 10 => some .secRekey
  | _ => none

/-- The `repr(u8)` discriminant. -/
def MgmtOp.toByte : MgmtOp → Byte
  | .enum => 1
  | .assign => 2
  | .save => 3
  | .reboot => 4
  | .factory => 5
  | .cal => 6
  | .secInit => 7
  | .secKey => 8
  | .secAttest => 9
  | .secRekey => 10

theorem MgmtOp.fromByte_eq_some {b : Byte} {op : MgmtOp} :
    MgmtOp.fromByte b = some op ↔ b = op.toByte := by
  constructor
  · intro h
    apply UInt8.toNat_inj.mp
    simp only [MgmtOp.fromByte] at h
    split at h
    all_goals cases h
    all_goals assumption
  · rintro rfl
    cases op <;> rfl

/-! ## The packed instruction byte -/

structure Inst where
  byte : Byte
  deriving DecidableEq, Repr

namespace Inst

def flagHold : Byte := 1
def flagAuth : Byte := 2
def flagNoreply : Byte := 4
def flagPerTarget : Byte := 8
def statusBit : Byte := 0x80
def alertBit : Byte := 1

def status (result : ResultCode) (alert : Bool) : Inst :=
  let b := statusBit ||| (result.toBits <<< 2)
  ⟨if alert then b ||| alertBit else b⟩

def isStatus (inst : Inst) : Bool := inst.byte &&& statusBit != 0

/-- Opcode of an instruction frame; `none` for status frames or opcode `0`. -/
def opcode (inst : Inst) : Option Opcode :=
  if inst.isStatus then none
  else Opcode.fromBits ((inst.byte >>> 4) &&& 0x07).toNat

def hold (inst : Inst) : Bool := inst.byte &&& flagHold != 0

/-- Bit 0's read-side meaning: the payload names a profile slot. -/
def profile (inst : Inst) : Bool := inst.hold

/-- Does this frame carry an AUTH trailer? -/
def authenticated (inst : Inst) : Bool := inst.byte &&& flagAuth != 0

def noreply (inst : Inst) : Bool := inst.byte &&& flagNoreply != 0

def perTarget (inst : Inst) : Bool := inst.byte &&& flagPerTarget != 0

end Inst

/-! ## Span arithmetic -/

def maxPayload : ℕ := 252

def uidLen : ℕ := 16

def enumReplySlots : Byte := 16

/-- Byte-times of ring silence that kill a parked partial frame. -/
def starveHorizonByteTimes : UInt32 := 64

/-- `LEN` for a `p`-byte payload. -/
def lenFor (p : Byte) : Byte := 3 + p

/-- Payload length recovered from `LEN`, an unchecked `u8` subtraction. -/
def payloadLen (len : Byte) : ℕ := (len - 3).toNat

/-- Ring bytes of a frame including the break byte. -/
def footprint (len : Byte) : ℕ := 3 + len.toNat

/-- Anchor-inclusive length of the CRC-covered span. -/
def coveredLen (len : Byte) : ℕ := 1 + len.toNat

/-- Largest legal frame footprint in ring bytes. -/
def frameMax : ℕ := footprint 255

end OpenServo
