import OpenServo.Protocol.FrameBytes

/-!
# Payload parsers

The header over a frame anchor and the zero-copy payload parsers of every
instruction: plain requests, MGMT sub-operations, and the uniform and
per-target forms of the group operations.  The group iterators consume their
view entry by entry; `unfold` runs such an iterator on a fuel that its caller
sets to the view's length, which every entry shortens.
-/

namespace OpenServo

/-- The four fixed bytes at a frame anchor. -/
structure Header where
  brk : Byte
  id : Id
  len : Byte
  inst : Inst
  deriving DecidableEq, Repr

namespace Header

def size : ℕ := 4

def fromBytes (b0 b1 b2 b3 : Byte) : Header := ⟨b0, ⟨b1⟩, b2, ⟨b3⟩⟩

def frameEnd (h : Header) : ℕ := footprint h.len

def payloadLen (h : Header) : ℕ := OpenServo.payloadLen h.len

end Header

/-! ## Plain requests -/

structure ReadReq where
  addr : ℕ
  count : ℕ
  deriving DecidableEq, Repr

def ReadReq.parse (payload : FrameBytes) : Option ReadReq :=
  if payload.len ≠ 4 then none
  else do
    let addr ← payload.u16LeAt 0
    let count ← payload.u16LeAt 2
    return ⟨addr, count⟩

structure ProfileReq where
  slot : Byte
  deriving DecidableEq, Repr

def ProfileReq.parse (payload : FrameBytes) : Option ProfileReq :=
  if payload.len ≠ 1 then none
  else do
    let slot ← payload.u8At 0
    return ⟨slot⟩

/-- `a.checked_sub(b)` on `usize`. -/
def checkedSub (a b : ℕ) : Option ℕ := if b ≤ a then some (a - b) else none

structure WriteReq where
  addr : ℕ
  data : FrameBytes
  deriving DecidableEq, Repr

def WriteReq.parse (payload : FrameBytes) : Option WriteReq := do
  let addr ← payload.u16LeAt 0
  let n ← checkedSub payload.len 2
  let data ← payload.sub 2 n
  return ⟨addr, data⟩

structure MgmtReq where
  op : MgmtOp
  args : FrameBytes
  deriving DecidableEq, Repr

def MgmtReq.parse (payload : FrameBytes) : Option MgmtReq := do
  let b ← payload.u8At 0
  let op ← MgmtOp.fromByte b
  let n ← checkedSub payload.len 1
  let args ← payload.sub 1 n
  return ⟨op, args⟩

/-! ## Management arguments -/

structure EnumReq where
  prefixLen : Byte
  pre : List Byte
  deriving DecidableEq, Repr

def EnumReq.maxPrefixBits : Byte := 128

def EnumReq.parse (args : FrameBytes) : Option EnumReq := do
  let prefixLen ← args.u8At 0
  if prefixLen > EnumReq.maxPrefixBits then none
  else
    let n := (prefixLen.toNat + 7) / 8
    if args.len ≠ 1 + n then none
    else
      let view ← args.sub 1 n
      let (done, copied) := view.copyInto (List.replicate n 0)
      let _ ← done
      return ⟨prefixLen, copied ++ List.replicate (uidLen - n) 0⟩

/-- Does `uid` begin with the `prefixLen`-bit LSB-first prefix? -/
def uidPrefixMatches (uid : List Byte) (prefixLen : Byte) (pre : List Byte) : Bool :=
  let full := prefixLen.toNat / 8
  let rem := prefixLen.toNat % 8
  if uid.take full ≠ pre.take full then false
  else
    rem == 0 ||
      ((uid.getD full 0 ^^^ pre.getD full 0) &&& ((1 <<< UInt8.ofNat rem) - 1)) == 0

structure AssignReq where
  uid : List Byte
  newId : Byte
  deriving DecidableEq, Repr

def AssignReq.parse (args : FrameBytes) : Option AssignReq :=
  if args.len ≠ uidLen + 1 then none
  else do
    let view ← args.sub 0 uidLen
    let (done, uid) := view.copyInto (List.replicate uidLen 0)
    let _ ← done
    let newId ← args.u8At uidLen
    return ⟨uid, newId⟩

structure CalReq where
  gapUs : ℕ
  gaps : Byte
  deriving DecidableEq, Repr

def CalReq.parse (args : FrameBytes) : Option CalReq :=
  if args.len ≠ 3 then none
  else do
    let gapUs ← args.u16LeAt 0
    let gaps ← args.u8At 2
    if gapUs == 0 || gaps == 0 then none else return ⟨gapUs, gaps⟩

/-! ## Group payloads -/

/-- Drain an iterator, at most `fuel` items. -/
def unfold {σ α : Type} (next : σ → Option (α × σ)) : ℕ → σ → List α
  | 0, _ => []
  | fuel + 1, rest =>
      match next rest with
      | none => []
      | some (item, rest) => item :: unfold next fuel rest

/-- `iter().enumerate().find(p).map(|(i, t)| (i as u8, t))`. -/
def findEnum {α : Type} (p : α → Bool) (items : List α) : Option (ℕ × α) :=
  (items.zipIdx.find? fun (item, _) => p item).map fun (item, i) => (i % 256, item)

/-- `bytes().position(|b| b == id).map(|p| p as u8)`. -/
def slotOf (ids : FrameBytes) (id : Id) : Option ℕ :=
  (ids.bytes.findIdx? fun b => b == id.byte).map fun p => p % 256

structure GreadUniform where
  addr : ℕ
  count : ℕ
  ids : FrameBytes
  deriving DecidableEq, Repr

def GreadUniform.parse (payload : FrameBytes) : Option GreadUniform := do
  let addr ← payload.u16LeAt 0
  let count ← payload.u16LeAt 2
  let n ← checkedSub payload.len 4
  let ids ← payload.sub 4 n
  if ids.isEmpty then none else return ⟨addr, count, ids⟩

structure GreadTarget where
  id : Id
  addr : ℕ
  count : ℕ
  deriving DecidableEq, Repr

def GreadTarget.next (rest : FrameBytes) : Option (GreadTarget × FrameBytes) :=
  if rest.len < 5 then none
  else do
    let id ← rest.u8At 0
    let addr ← rest.u16LeAt 1
    let count ← rest.u16LeAt 3
    let rest ← rest.sub 5 (rest.len - 5)
    return (⟨⟨id⟩, addr, count⟩, rest)

structure GreadPerTarget where
  entries : FrameBytes
  deriving DecidableEq, Repr

def GreadPerTarget.parse (payload : FrameBytes) : Option GreadPerTarget :=
  if payload.isEmpty || payload.len % 5 != 0 then none else some ⟨payload⟩

def GreadPerTarget.iter (g : GreadPerTarget) : List GreadTarget :=
  unfold GreadTarget.next g.entries.len g.entries

def GreadPerTarget.find (g : GreadPerTarget) (id : Id) : Option (ℕ × GreadTarget) :=
  findEnum (fun t => t.id == id) (unfold GreadTarget.next g.entries.len g.entries)

structure GreadProfileUniform where
  slot : Byte
  ids : FrameBytes
  deriving DecidableEq, Repr

def GreadProfileUniform.parse (payload : FrameBytes) : Option GreadProfileUniform := do
  let slot ← payload.u8At 0
  let n ← checkedSub payload.len 1
  let ids ← payload.sub 1 n
  if ids.isEmpty then none else return ⟨slot, ids⟩

structure GreadProfileTarget where
  id : Id
  slot : Byte
  deriving DecidableEq, Repr

def GreadProfileTarget.next (rest : FrameBytes) :
    Option (GreadProfileTarget × FrameBytes) :=
  if rest.len < 2 then none
  else do
    let id ← rest.u8At 0
    let slot ← rest.u8At 1
    let rest ← rest.sub 2 (rest.len - 2)
    return (⟨⟨id⟩, slot⟩, rest)

structure GreadProfilePerTarget where
  entries : FrameBytes
  deriving DecidableEq, Repr

def GreadProfilePerTarget.parse (payload : FrameBytes) : Option GreadProfilePerTarget :=
  if payload.isEmpty || payload.len % 2 != 0 then none else some ⟨payload⟩

def GreadProfilePerTarget.iter (g : GreadProfilePerTarget) : List GreadProfileTarget :=
  unfold GreadProfileTarget.next g.entries.len g.entries

def GreadProfilePerTarget.find (g : GreadProfilePerTarget) (id : Id) :
    Option (ℕ × GreadProfileTarget) :=
  findEnum (fun t => t.id == id) (unfold GreadProfileTarget.next g.entries.len g.entries)

structure GwriteUniform where
  addr : ℕ
  count : Byte
  entries : FrameBytes
  deriving DecidableEq, Repr

/-- The divide-free ragged-tail walk: `while rem >= stride { rem -= stride }`. -/
def strideWalk (stride : ℕ) : ℕ → ℕ → ℕ
  | 0, rem => rem
  | fuel + 1, rem => if rem ≥ stride then strideWalk stride fuel (rem - stride) else rem

def GwriteUniform.parse (payload : FrameBytes) : Option GwriteUniform := do
  let addr ← payload.u16LeAt 0
  let count ← payload.u8At 2
  if count == 0 then none
  else
    let n ← checkedSub payload.len 3
    let entries ← payload.sub 3 n
    let stride := 1 + count.toNat
    let rem := entries.len
    if rem == 0 then none
    else if strideWalk stride rem rem != 0 then none
    else return ⟨addr, count, entries⟩

def GwriteUniform.next (stride : ℕ) (rest : FrameBytes) :
    Option ((Id × FrameBytes) × FrameBytes) :=
  if rest.len < stride then none
  else do
    let id ← rest.u8At 0
    let data ← rest.sub 1 (stride - 1)
    let rest ← rest.sub stride (rest.len - stride)
    return ((⟨id⟩, data), rest)

def GwriteUniform.iter (g : GwriteUniform) : List (Id × FrameBytes) :=
  unfold (GwriteUniform.next (1 + g.count.toNat)) g.entries.len g.entries

def GwriteUniform.find (g : GwriteUniform) (id : Id) : Option FrameBytes :=
  ((unfold (GwriteUniform.next (1 + g.count.toNat)) g.entries.len g.entries).find?
    fun (i, _) => i == id).map Prod.snd

structure GwriteTarget where
  id : Id
  addr : ℕ
  data : FrameBytes
  deriving DecidableEq, Repr

structure GwritePerTarget where
  entries : FrameBytes
  deriving DecidableEq, Repr

/-- The structural walk of `parse`: `while !rest.is_empty()`. -/
def GwritePerTarget.walk : ℕ → FrameBytes → Option Unit
  | 0, rest => if rest.isEmpty then some () else none
  | fuel + 1, rest =>
      if rest.isEmpty then some ()
      else do
        let count ← rest.u8At 3
        let skip := 4 + count.toNat
        let n ← checkedSub rest.len skip
        let rest ← rest.sub skip n
        walk fuel rest

def GwritePerTarget.parse (payload : FrameBytes) : Option GwritePerTarget :=
  if payload.isEmpty then none
  else do
    let _ ← GwritePerTarget.walk payload.len payload
    return ⟨payload⟩

def GwriteTarget.next (rest : FrameBytes) : Option (GwriteTarget × FrameBytes) :=
  if rest.len < 4 then none
  else do
    let id ← rest.u8At 0
    let addr ← rest.u16LeAt 1
    let count ← rest.u8At 3
    let data ← rest.sub 4 count.toNat
    let rest ← rest.sub (4 + count.toNat) (rest.len - (4 + count.toNat))
    return (⟨⟨id⟩, addr, data⟩, rest)

def GwritePerTarget.iter (g : GwritePerTarget) : List GwriteTarget :=
  unfold GwriteTarget.next g.entries.len g.entries

def GwritePerTarget.find (g : GwritePerTarget) (id : Id) : Option GwriteTarget :=
  (unfold GwriteTarget.next g.entries.len g.entries).find? fun t => t.id == id

end OpenServo
