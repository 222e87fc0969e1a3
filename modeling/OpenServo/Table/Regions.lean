import OpenServo.Table.Map

/-!
# The control table

The host-visible register state as one flat 1024-byte map.  Blocks list their
fields in declaration order, which is address order with no padding; the
derived metadata (writable mask, rule arrays, section stripes) is computed from
these lists the way the table derive does it.
-/

namespace OpenServo.Table

/-! ## Field lists -/

/-- One field of a block; a skipped or read-only field only takes up space. -/
structure Field where
  width : ℕ
  writable : Bool
  signed : Bool
  abs : Bool
  allowed : Option (List Byte)
  compares : List (CmpOp × Rhs)

namespace Field

def reserved (width : ℕ) : Field := ⟨width, false, false, false, none, []⟩
def ro (width : ℕ) : Field := ⟨width, false, false, false, none, []⟩
def uint (width : ℕ) (compares : List (CmpOp × Rhs)) : Field :=
  ⟨width, true, false, false, none, compares⟩
def int (width : ℕ) (compares : List (CmpOp × Rhs)) : Field :=
  ⟨width, true, true, false, none, compares⟩
def intAbs (width : ℕ) (compares : List (CmpOp × Rhs)) : Field :=
  ⟨width, true, true, true, none, compares⟩
/-- A `u8` whose byte must be one of the enum's discriminants. -/
def enum (allowed : List Byte) : Field := ⟨1, true, false, false, some allowed, []⟩
def bool : Field := enum [0, 1]

end Field

structure Section where
  base : ℕ
  size : ℕ
  fields : List Field

/-! ## Derived metadata -/

/-- Fields with their table-absolute addresses. -/
def layout : ℕ → List Field → List (ℕ × Field)
  | _, [] => []
  | addr, field :: fields => (addr, field) :: layout (addr + field.width) fields

def Section.placed (sec : Section) : List (ℕ × Field) := layout sec.base sec.fields

def Section.allowedRulesAbs (sec : Section) : List AllowedRule :=
  sec.placed.filterMap fun (addr, field) => field.allowed.map fun allowed => ⟨addr, allowed⟩

def cmpRuleOf (addr : ℕ) (field : Field) : CmpOp × Rhs → CmpRule
  | (op, .imm value) =>
      ⟨addr, spec (UInt16.ofNat field.width) field.signed field.abs op, UInt32.ofNat value.toNat⟩
  | (op, .reg reg) =>
      ⟨addr, spec (UInt16.ofNat field.width) field.signed field.abs op ||| specRhsReg,
        UInt32.ofNat reg⟩

def Section.cmpRulesAbs (sec : Section) : List CmpRule :=
  sec.placed.flatMap fun (addr, field) => field.compares.map (cmpRuleOf addr field)

def writableByte (placed : List (ℕ × Field)) (i : ℕ) : Bool :=
  placed.any fun (addr, field) => field.writable && addr ≤ i && i < addr + field.width

def writableWord (placed : List (ℕ × Field)) (wi : ℕ) : UInt32 :=
  (List.range 32).foldl (fun word bit =>
    if writableByte placed (wi * 32 + bit) then word ||| (1 <<< UInt32.ofNat bit) else word) 0

/-- Section stripes: each starts where the rules of the sections before end. -/
def sectionMetas : ℕ → ℕ → List Section → List SectionMeta
  | _, _, [] => []
  | cmp, allowed, sec :: secs =>
      let cmpEnd := cmp + sec.cmpRulesAbs.length
      let allowedEnd := allowed + sec.allowedRulesAbs.length
      ⟨sec.base, sec.size, (cmp, cmpEnd), (allowed, allowedEnd)⟩ ::
        sectionMetas cmpEnd allowedEnd secs

def deriveMap (size : ℕ) (secs : List Section) : RegisterMap where
  size := size
  writable := (List.range ((size + 31) / 32)).map (writableWord (secs.flatMap Section.placed))
  sections := sectionMetas 0 0 secs
  cmpRules := secs.flatMap Section.cmpRulesAbs
  allowedRules := secs.flatMap Section.allowedRulesAbs

/-! ## Addresses -/

def configBaseAddr : ℕ := 0x000
def calibBaseAddr : ℕ := 0x080
def controlBaseAddr : ℕ := 0x180
def telemetryBaseAddr : ℕ := 0x200
def profileBaseAddr : ℕ := 0x280

def configRegionSize : ℕ := 128
def calibRegionSize : ℕ := 256
def controlRegionSize : ℕ := 128
def telemetryRegionSize : ℕ := 128
def profileRegionSize : ℕ := 64

def tableSize : ℕ := 1024

namespace Addr

def modelNumber : ℕ := 0x000
def firmwareVersion : ℕ := 0x002
def hardwareRevision : ℕ := 0x003
def id : ℕ := 0x010
def baudRateIdx : ℕ := 0x011
def responseDeadlineUs : ℕ := 0x012
def posMinPhysUrad : ℕ := 0x020
def posMaxPhysUrad : ℕ := 0x024
def posMinSoftUrad : ℕ := 0x028
def posMaxSoftUrad : ℕ := 0x02C
def windingCutoffCc : ℕ := 0x040
def windingRecoverCc : ℕ := 0x042
def maxEffort : ℕ := 0x05A
def vddMv : ℕ := 0x060
def torqueEnable : ℕ := 0x180
def bootMode : ℕ := 0x19C
def faultFlags : ℕ := 0x200
def statusFlags : ℕ := 0x201

end Addr

/-! ## Blocks and sections -/

def configCommon : List Field :=
  [.ro 2, .ro 1, .ro 1, .ro 4, .reserved 8,
    .uint 1 [(.ge, .imm 1), (.le, .imm 249)],
    .uint 1 [(.le, .imm 3)],
    .uint 2 [], .reserved 12]

def configPosLimits : List Field :=
  [.int 4 [(.lt, .reg Addr.posMaxPhysUrad)],
    .int 4 [(.gt, .reg Addr.posMinPhysUrad)],
    .int 4 [(.ge, .reg Addr.posMinPhysUrad), (.le, .reg Addr.posMaxPhysUrad),
      (.lt, .reg Addr.posMaxSoftUrad)],
    .int 4 [(.ge, .reg Addr.posMinPhysUrad), (.le, .reg Addr.posMaxPhysUrad),
      (.gt, .reg Addr.posMinSoftUrad)]]

def configStall : List Field :=
  [.enum [0, 1], .reserved 1, .int 2 [], .uint 4 [], .uint 2 [], .uint 2 []]

def configThermal : List Field :=
  [.uint 2 [], .uint 2 [], .int 2 [(.gt, .reg Addr.windingRecoverCc)],
    .int 2 [(.lt, .reg Addr.windingCutoffCc)], .uint 2 [], .reserved 2]

def configControlPosition : List Field :=
  [.uint 2 [], .uint 2 [], .uint 2 [], .reserved 2, .int 4 [], .uint 4 [],
    .uint 1 [(.le, .imm 50)], .bool, .int 2 [], .uint 2 [], .reserved 2]

def configCalibration : List Field := [.uint 2 [], .reserved 2]

def configRegs : Section where
  base := configBaseAddr
  size := configRegionSize
  fields := configCommon ++ configPosLimits ++ configStall ++ configThermal ++
    configControlPosition ++ configCalibration ++ [.reserved 28]

def calibRegs : Section where
  base := calibBaseAddr
  size := calibRegionSize
  fields := [.uint 2 [], .uint 2 [], .int 220 []] ++
    [.uint 2 [], .uint 2 [], .uint 2 [], .uint 2 []] ++ [.reserved 24]

def controlLifecycle : List Field :=
  [.bool, .enum [0, 1], .reserved 2,
    .int 4 [(.ge, .reg Addr.posMinSoftUrad), (.le, .reg Addr.posMaxSoftUrad)],
    .int 4 [], .intAbs 2 [(.le, .reg Addr.maxEffort)], .reserved 2]

def controlStreaming : List Field :=
  [.bool, .uint 1 [], .uint 2 [(.ge, .imm 1)], .uint 4 [], .ro 4]

def controlSystem : List Field := [.enum [0, 1]]

def controlRegs : Section where
  base := controlBaseAddr
  size := controlRegionSize
  fields := controlLifecycle ++ controlStreaming ++ controlSystem ++ [.reserved 99]

def telemetryCommon : List Field :=
  [.ro 1, .ro 1, .ro 1, .reserved 1, .uint 4 [], .uint 4 [], .reserved 20]

def telemetryRegs : Section where
  base := telemetryBaseAddr
  size := telemetryRegionSize
  fields := telemetryCommon ++ [.ro 96]

def profileRegs : Section where
  base := profileBaseAddr
  size := profileRegionSize
  fields := [.uint 64 []]

/-- The map behind `ControlTable`. -/
def controlMap : RegisterMap :=
  deriveMap tableSize [configRegs, calibRegs, controlRegs, telemetryRegs, profileRegs]

abbrev ControlTable := Storage controlMap.size

-- Each section fills its declared budget, so the layout has no gaps.
example : [configRegs, calibRegs, controlRegs, telemetryRegs, profileRegs].all
    (fun sec => (sec.fields.map Field.width).sum == sec.size) = true := by decide

/-! ## Table accessors -/

namespace ControlTable

def new : ControlTable := .zeroed controlMap.size

def torqueEnable (t : ControlTable) : Bool := t.get Addr.torqueEnable != 0

def responseDeadlineUs (t : ControlTable) : ℕ :=
  (t.get Addr.responseDeadlineUs).toNat + 256 * (t.get (Addr.responseDeadlineUs + 1)).toNat

end ControlTable

/-! ## Boot-time seeding -/

/-- Board defaults for the config region; the limits are `i32` bit patterns. -/
structure ConfigDefaults where
  posMinPhysUrad : UInt32
  posMaxPhysUrad : UInt32
  vddMv : UInt16
  id : Byte
  baud : BaudRate
  responseDeadlineUs : UInt16
  deriving DecidableEq, Repr

def firmwareVersion : Byte := 1

namespace ControlTable

/-- Soft limits start at the physical limits. -/
def seedConfigDefaults (t : ControlTable) (defaults : ConfigDefaults) : ControlTable :=
  let t := t.copy Addr.posMinPhysUrad (leBytes32 defaults.posMinPhysUrad)
  let t := t.copy Addr.posMaxPhysUrad (leBytes32 defaults.posMaxPhysUrad)
  let t := t.copy Addr.posMinSoftUrad (leBytes32 defaults.posMinPhysUrad)
  let t := t.copy Addr.posMaxSoftUrad (leBytes32 defaults.posMaxPhysUrad)
  let t := t.copy Addr.vddMv (leBytes16 defaults.vddMv)
  let t := t.set Addr.id defaults.id
  let t := t.set Addr.baudRateIdx defaults.baud.asIdx
  t.copy Addr.responseDeadlineUs (leBytes16 defaults.responseDeadlineUs)

/-- Stamp the read-only identity block. -/
def seedIdentity (t : ControlTable) (model : UInt16) (hwRev : Byte) : ControlTable :=
  let t := t.copy Addr.modelNumber (leBytes16 model)
  let t := t.set Addr.hardwareRevision hwRev
  t.set Addr.firmwareVersion OpenServo.Table.firmwareVersion

end ControlTable

/-! ## Read profiles -/

def profileSlots : Byte := 4
def spansPerSlot : ℕ := 8

/-- A span word `[addr:10][count:6]`; a zero count disables it. -/
def spanOf (word : ℕ) : Option (ℕ × ℕ) :=
  let count := word % 64
  if count == 0 then none else some (word / 64, count)

def slotWords (t : ControlTable) (slot : Byte) : Option (List ℕ) :=
  if slot ≥ profileSlots then none
  else
    some ((List.range spansPerSlot).map fun i =>
      let at_ := profileBaseAddr + 2 * (slot.toNat * spansPerSlot + i)
      (t.get at_).toNat + 256 * (t.get (at_ + 1)).toNat)

end OpenServo.Table
