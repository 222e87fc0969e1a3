import OpenServo.Table.Stage

/-!
# The register map

A flat byte map with compile-time metadata: the writable-byte mask, the
sections with their stripes of field rules, and live storage.  A write is
validated against bounds, then the mask, then the rules, on a view of live
storage with the write laid over it; staged writes reach storage only through
`commitStaged` and `commitFrom`.
-/

namespace OpenServo.Table

/-! ## Field rules as data -/

inductive CmpOp where
  | lt
  | le
  | gt
  | ge
  | eq
  | ne
  deriving DecidableEq, Repr

def CmpOp.code : CmpOp → UInt16
  | .lt => 0
  | .le => 1
  | .gt => 2
  | .ge => 3
  | .eq => 4
  | .ne => 5

def specSigned : UInt16 := 0x10
def specAbs : UInt16 := 0x20
def specRhsReg : UInt16 := 0x40

/-- Pack a compare rule's shape: width low, sign, abs, and the op on top. -/
def spec (width : UInt16) (signed abs : Bool) (op : CmpOp) : UInt16 :=
  width ||| (if signed then specSigned else 0) ||| (if abs then specAbs else 0) |||
    (op.code <<< 8)

structure CmpRule where
  addr : ℕ
  spec : UInt16
  /-- An immediate's bits, or the right-hand register's address. -/
  val : UInt32
  deriving DecidableEq, Repr

structure AllowedRule where
  addr : ℕ
  allowed : List Byte
  deriving DecidableEq, Repr

structure SectionMeta where
  base : ℕ
  size : ℕ
  cmpRules : ℕ × ℕ
  allowedRules : ℕ × ℕ
  deriving DecidableEq, Repr

/-- Compile-time description of a flat register map. -/
structure RegisterMap where
  size : ℕ
  /-- Bit `i % 32` of word `i / 32` set means byte `i` is host-writable. -/
  writable : List UInt32
  sections : List SectionMeta
  cmpRules : List CmpRule
  allowedRules : List AllowedRule
  deriving DecidableEq, Repr

/-! ## Live storage -/

/-- The bytes behind a map of `size` addresses. -/
structure Storage (size : ℕ) where
  bytes : List Byte
  length_eq : bytes.length = size
  deriving DecidableEq

namespace Storage

variable {size : ℕ}

theorem length_zeros (size : ℕ) : (List.replicate size (0 : Byte)).length = size :=
  List.length_replicate

def zeroed (size : ℕ) : Storage size := ⟨List.replicate size 0, length_zeros size⟩

def get (storage : Storage size) (addr : ℕ) : Byte := storage.bytes.getD addr 0

/-- Copy `data` to `addr`; a span that leaves the map is skipped. -/
def copy (storage : Storage size) (addr : ℕ) (data : List Byte) : Storage size :=
  if h : addr + data.length ≤ size then
    ⟨storage.bytes.take addr ++ data ++ storage.bytes.drop (addr + data.length), by
      have hlen := storage.length_eq
      simp only [List.length_append, List.length_take, List.length_drop]
      omega⟩
  else storage

def set (storage : Storage size) (addr : ℕ) (b : Byte) : Storage size :=
  storage.copy addr [b]

/-- `RegisterFile::read`. -/
def read (storage : Storage size) (addr len : ℕ) : Except Error (List Byte) :=
  if addr + len > size then .error .outOfRange
  else .ok ((storage.bytes.drop addr).take len)

end Storage

/-! ## The pending view -/

/-- Live storage with one pending overlay, split where the ring wraps. -/
structure View where
  base : List Byte
  size : ℕ
  overlayAddr : ℕ
  o1 : List Byte
  o2 : List Byte

namespace View

/-- Up to four bytes from `p`, zero-padded. -/
def loadLe4 (p : List Byte) (len : ℕ) : List Byte :=
  let got := p.take (min len 4)
  got ++ List.replicate (4 - got.length) 0

/-- Overlay-edge straddles and seam splits: pick byte by byte. -/
def readMixed (view : View) (lo len oLo split oHi : ℕ) : List Byte :=
  (List.range 4).map fun i =>
    if i < len then
      let a := lo + i
      if a ≥ oLo ∧ a < split then view.o1.getD (a - oLo) 0
      else if a ≥ split ∧ a < oHi then view.o2.getD (a - split) 0
      else view.base.getD a 0
    else 0

/-- Load `[addr, addr + len)` as four little-endian bytes, from the overlay
where it covers and from live storage elsewhere. -/
def readFixed (view : View) (addr len : ℕ) : Except Error (List Byte) :=
  let lo := addr
  let hi := lo + len
  if hi > view.size then .error .outOfRange
  else
    let oLo := view.overlayAddr
    let split := oLo + view.o1.length
    let oHi := split + view.o2.length
    if hi ≤ oLo ∨ lo ≥ oHi then .ok (loadLe4 (view.base.drop lo) len)
    else if lo ≥ oLo ∧ hi ≤ split then .ok (loadLe4 (view.o1.drop (lo - oLo)) len)
    else .ok (view.readMixed lo len oLo split oHi)

end View

/-! ## Rule bodies -/

/-- Two's complement reading of `n` at `bits`. -/
def signExtend (bits n : ℕ) : ℤ := if n < 2 ^ (bits - 1) then n else (n : ℤ) - 2 ^ bits

def leNat (bytes : List Byte) : ℕ := bytes.foldr (fun b acc => b.toNat + 256 * acc) 0

/-- Load a field widened to `i32` with per-width sign extension. -/
def widen (view : View) (addr width : ℕ) (signed : Bool) : Except Error ℤ := do
  let b ← view.readFixed addr width
  return match width, signed with
    | 1, false => leNat (b.take 1)
    | 1, true => signExtend 8 (leNat (b.take 1))
    | 2, false => leNat (b.take 2)
    | 2, true => signExtend 16 (leNat (b.take 2))
    | _, _ => signExtend 32 (leNat b)

def checkAllowed (view : View) (addr : ℕ) (allowed : List Byte) : Except Error Unit := do
  let b ← view.readFixed addr 1
  if allowed.contains (b.getD 0 0) then .ok () else .error (.validationError .enum)

inductive Rhs where
  | imm (value : ℤ)
  | reg (addr : ℕ)
  deriving DecidableEq, Repr

/-- `i32::saturating_abs` clamped to the field width's positive maximum. -/
def saturatingAbs (width : ℕ) (a : ℤ) : ℤ :=
  let satMax : ℤ := match width with
    | 1 => 2 ^ 7 - 1
    | 2 => 2 ^ 15 - 1
    | _ => 2 ^ 31 - 1
  min (min |a| (2 ^ 31 - 1)) satMax

/-- The comparison an op code names; every code past `OP_EQ` is `!=`. -/
def cmpHolds (op : ℕ) (a r : ℤ) : Bool :=
  match op with
  | 0 => a < r
  | 1 => a ≤ r
  | 2 => a > r
  | 3 => a ≥ r
  | 4 => a == r
  | _ => a != r

def checkCmp (view : View) (addr : ℕ) (spec : UInt16) (rhs : Rhs) : Except Error Unit := do
  let width := (spec &&& 0xF).toNat
  let signed := spec &&& specSigned != 0
  let a ← widen view addr width signed
  let r ← match rhs with
    | .imm value => .ok value
    | .reg reg => widen view reg width signed
  let (a, r) :=
    if spec &&& specAbs != 0 then (saturatingAbs width a, saturatingAbs width r) else (a, r)
  if cmpHolds ((spec >>> 8) &&& 0xFF).toNat a r then .ok ()
  else .error (.validationError .compare)

/-! ## Validation -/

/-- `[aLo, aLo + aLen)` meets `[lo, hi)`. -/
def overlaps (aLo aLen lo hi : ℕ) : Bool := aLo < hi && aLo + aLen > lo

/-- The bits of mask word `wi` that `[lo, hi)` covers. -/
def wordMask (lo hi wi : ℕ) : UInt32 :=
  let wordLo := wi * 32
  let startBit := lo - wordLo
  let endBit := min (hi - wordLo) 32
  let covered : UInt32 := if endBit == 32 then 0xFFFFFFFF else (1 <<< UInt32.ofNat endBit) - 1
  covered &&& ~~~((1 <<< UInt32.ofNat startBit) - 1)

/-- Every byte of `[lo, hi)` is host-writable, a mask word at a time. -/
def writableSpan (map : RegisterMap) (lo hi : ℕ) : Bool :=
  let first := lo / 32
  let last := (hi - 1) / 32
  (List.range' first (last + 1 - first)).all fun wi =>
    let mask := wordMask lo hi wi
    (map.writable.getD wi 0) &&& mask == mask

/-- `get(a..b)` of a rule stripe. -/
def stripe {α : Type} (rules : List α) (range : ℕ × ℕ) : List α :=
  if range.1 ≤ range.2 ∧ range.2 ≤ rules.length then
    (rules.drop range.1).take (range.2 - range.1)
  else []

def checkAllowedRules (view : View) (lo hi : ℕ) : List AllowedRule → Except Error Unit
  | [] => .ok ()
  | r :: rs =>
      if r.addr ≥ hi then .ok ()
      else if overlaps r.addr 1 lo hi then do
        checkAllowed view r.addr r.allowed
        checkAllowedRules view lo hi rs
      else checkAllowedRules view lo hi rs

def checkCmpRules (view : View) (lo hi : ℕ) : List CmpRule → Except Error Unit
  | [] => .ok ()
  | r :: rs =>
      if r.addr ≥ hi then .ok ()
      else
        let width := (r.spec &&& 0xF).toNat
        if overlaps r.addr width lo hi then do
          let rhs :=
            if r.spec &&& specRhsReg != 0 then Rhs.reg (r.val.toNat % 65536)
            else Rhs.imm (signExtend 32 r.val.toNat)
          checkCmp view r.addr r.spec rhs
          checkCmpRules view lo hi rs
        else checkCmpRules view lo hi rs

/-- Within a section allowed rules run before compare rules. -/
def checkSections (map : RegisterMap) (view : View) (lo hi : ℕ) :
    List SectionMeta → Except Error Unit
  | [] => .ok ()
  | sec :: secs =>
      if !overlaps sec.base sec.size lo hi then checkSections map view lo hi secs
      else do
        checkAllowedRules view lo hi (stripe map.allowedRules sec.allowedRules)
        checkCmpRules view lo hi (stripe map.cmpRules sec.cmpRules)
        checkSections map view lo hi secs

/-- Bounds, then the writable mask, then the rules. -/
def validate (map : RegisterMap) (storage : Storage map.size) (addr : ℕ) (o1 o2 : List Byte) :
    Except Error Unit :=
  let total := o1.length + o2.length
  if total == 0 then .ok ()
  else
    let lo := addr
    let hi := lo + total
    if hi > map.size then .error .outOfRange
    else if !writableSpan map lo hi then .error .accessError
    else checkSections map ⟨storage.bytes, map.size, addr, o1, o2⟩ lo hi map.sections

/-! ## The register file -/

variable {map : RegisterMap}

/-- Copy every staged entry pushed since `snap` into live storage. -/
def applyEntries (storage : Storage map.size) (items : List (ℕ × List Byte)) :
    Storage map.size :=
  items.foldl (fun storage (addr, data) => storage.copy addr data) storage

/-- `write_split`: a plain write has no tail. -/
def writeSplit (storage : Storage map.size) (addr : ℕ) (head tail : List Byte) :
    Except Error (Storage map.size) := do
  validate map storage addr head tail
  .ok ((storage.copy addr head).copy (addr + head.length) tail)

def stageSplit (storage : Storage map.size) (addr : ℕ) (head tail : List Byte)
    (staged : StagedWrites) : Except Error StagedWrites := do
  validate map storage addr head tail
  staged.pushSplit addr head tail

def commitStaged (storage : Storage map.size) (staged : StagedWrites) :
    Storage map.size × StagedWrites :=
  (applyEntries storage staged.iterAll, staged.clear)

/-- Apply what was pushed since `snap` and truncate back to it. -/
def commitFrom (storage : Storage map.size) (staged : StagedWrites) (snap : Snapshot) :
    Storage map.size × StagedWrites :=
  (applyEntries storage (staged.iterFrom snap), staged.revertTo snap)

theorem applyEntries_append (storage : Storage map.size) (left right : List (ℕ × List Byte)) :
    applyEntries storage (left ++ right) = applyEntries (applyEntries storage left) right := by
  simp [applyEntries]

end OpenServo.Table
