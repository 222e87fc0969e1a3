import OpenServo.Protocol.Grammar

/-!
# Payload builders

The encode mirror of the payload parsers.  A builder writes into a caller's
buffer and returns the payload length; `none` leaves the buffer as it was.  The
contract is parse-level validity, exactly: what is built parses back, what a
parser accepts is rebuilt byte for byte, and nothing else is refused than what
does not fit or would not parse back.
-/

namespace OpenServo.Build

/-- The destination window: the smaller of the buffer and the payload ceiling. -/
def cap (dst : List Byte) : ℕ := min dst.length maxPayload

/-- READ / GREAD span head. -/
def read (dst : List Byte) (addr count : ℕ) : Option (ℕ × List Byte) :=
  if cap dst < 4 then none
  else
    let dst := copyAt dst 0 (u16ToLe addr)
    let dst := copyAt dst 2 (u16ToLe count)
    some (4, dst)

def readProfile (dst : List Byte) (slot : Byte) : Option (ℕ × List Byte) :=
  if cap dst < 1 then none else some (1, copyAt dst 0 [slot])

def write (dst : List Byte) (addr : ℕ) (data : List Byte) : Option (ℕ × List Byte) :=
  let total := 2 + data.length
  if cap dst < total then none
  else
    let dst := copyAt dst 0 (u16ToLe addr)
    let dst := copyAt dst 2 data
    some (total, dst)

/-- The entry loops: entry after entry into adjacent chunks from `off` on. -/
def putEach {α : Type} (encode : α → List Byte) : List Byte → ℕ → List α → List Byte
  | dst, _, [] => dst
  | dst, off, item :: items =>
      putEach encode (copyAt dst off (encode item)) (off + (encode item).length) items

def greadUniform (dst : List Byte) (addr count : ℕ) (ids : List Id) : Option (ℕ × List Byte) :=
  let total := 4 + ids.length
  if ids.isEmpty || cap dst < total then none
  else do
    let (_, dst) ← read dst addr count
    return (total, putEach (fun id => [id.byte]) dst 4 ids)

def greadPerTarget (dst : List Byte) (targets : List GreadTarget) : Option (ℕ × List Byte) :=
  let total := 5 * targets.length
  if targets.isEmpty || cap dst < total then none
  else some (total, putEach GreadTarget.encode dst 0 targets)

def greadProfileUniform (dst : List Byte) (slot : Byte) (ids : List Id) :
    Option (ℕ × List Byte) :=
  let total := 1 + ids.length
  if ids.isEmpty || cap dst < total then none
  else
    let dst := copyAt dst 0 [slot]
    some (total, putEach (fun id => [id.byte]) dst 1 ids)

def greadProfilePerTarget (dst : List Byte) (targets : List GreadProfileTarget) :
    Option (ℕ × List Byte) :=
  let total := 2 * targets.length
  if targets.isEmpty || cap dst < total then none
  else some (total, putEach GreadProfileTarget.encode dst 0 targets)

/-- Uniform GWRITE under construction: the buffer, the length so far and the
data length every entry is pinned to. -/
structure GwriteUniform where
  dst : List Byte
  len : ℕ
  count : Byte
  deriving DecidableEq, Repr

namespace GwriteUniform

def new (dst : List Byte) (addr : ℕ) (count : Byte) : Option GwriteUniform :=
  if count == 0 || cap dst < 3 then none
  else
    let dst := copyAt dst 0 (u16ToLe addr)
    let dst := copyAt dst 2 [count]
    some ⟨dst, 3, count⟩

def push (b : GwriteUniform) (entry : Id × List Byte) : Option GwriteUniform :=
  let (id, data) := entry
  if data.length ≠ b.count.toNat then none
  else
    let stop := b.len + 1 + data.length
    if cap b.dst < stop then none
    else
      let dst := copyAt b.dst b.len [id.byte]
      let dst := copyAt dst (b.len + 1) data
      some { b with dst := dst, len := stop }

/-- The payload length; `none` when no entry was pushed. -/
def finish (b : GwriteUniform) : Option ℕ := if 3 < b.len then some b.len else none

end GwriteUniform

/-- A uniform GWRITE built entry by entry, every push required to succeed. -/
def gwriteUniform (dst : List Byte) (addr : ℕ) (count : Byte) (entries : List (Id × List Byte)) :
    Option (ℕ × List Byte) := do
  let b ← GwriteUniform.new dst addr count
  let b ← entries.foldlM GwriteUniform.push b
  let n ← b.finish
  return (n, b.dst)

structure GwritePerTarget where
  dst : List Byte
  len : ℕ
  deriving DecidableEq, Repr

namespace GwritePerTarget

def new (dst : List Byte) : GwritePerTarget := ⟨dst, 0⟩

def push (b : GwritePerTarget) (entry : Id × ℕ × List Byte) : Option GwritePerTarget :=
  let (id, addr, data) := entry
  if data.length > 255 then none
  else
    let stop := b.len + 4 + data.length
    if cap b.dst < stop then none
    else
      let dst := copyAt b.dst b.len [id.byte]
      let dst := copyAt dst (b.len + 1) (u16ToLe addr)
      let dst := copyAt dst (b.len + 3) [UInt8.ofNat data.length]
      let dst := copyAt dst (b.len + 4) data
      some ⟨dst, stop⟩

def finish (b : GwritePerTarget) : Option ℕ := if 0 < b.len then some b.len else none

end GwritePerTarget

def gwritePerTarget (dst : List Byte) (entries : List (Id × ℕ × List Byte)) :
    Option (ℕ × List Byte) := do
  let b ← entries.foldlM GwritePerTarget.push (GwritePerTarget.new dst)
  let n ← b.finish
  return (n, b.dst)

def mgmtEnum (dst : List Byte) (prefixLen : Byte) (pre : List Byte) : Option (ℕ × List Byte) :=
  if prefixLen > UInt8.ofNat (uidLen * 8) then none
  else
    let n := (prefixLen.toNat + 7) / 8
    let total := 2 + n
    if cap dst < total then none
    else
      let dst := copyAt dst 0 [MgmtOp.enum.toByte]
      let dst := copyAt dst 1 [prefixLen]
      let dst := copyAt dst 2 (pre.take n)
      some (total, dst)

def mgmtAssign (dst : List Byte) (uid : List Byte) (newId : Byte) : Option (ℕ × List Byte) :=
  let total := 2 + uidLen
  if cap dst < total then none
  else
    let dst := copyAt dst 0 [MgmtOp.assign.toByte]
    let dst := copyAt dst 1 uid
    let dst := copyAt dst (1 + uidLen) [newId]
    some (total, dst)

def mgmtCal (dst : List Byte) (gapUs : ℕ) (gaps : Byte) : Option (ℕ × List Byte) :=
  if gapUs == 0 || gaps == 0 || cap dst < 4 then none
  else
    let dst := copyAt dst 0 [MgmtOp.cal.toByte]
    let dst := copyAt dst 1 (u16ToLe gapUs)
    let dst := copyAt dst 3 [gaps]
    some (4, dst)

/-! ## Writing a buffer from the front -/

/-- The next write after the bytes already laid down. -/
theorem copyAt_append (done rest src : List Byte) :
    copyAt (done ++ rest) done.length src = (done ++ src) ++ rest.drop src.length := by
  rw [copyAt, List.take_left, List.drop_append, List.drop_of_length_le (by omega), List.nil_append,
    Nat.add_sub_cancel_left]

theorem copyAt_at {done rest src : List Byte} {off : ℕ} (hoff : off = done.length) :
    copyAt (done ++ rest) off src = (done ++ src) ++ rest.drop src.length := by
  rw [hoff, copyAt_append]

theorem copyAt_zero (dst src : List Byte) : copyAt dst 0 src = src ++ dst.drop src.length := by
  simp [copyAt]

theorem putEach_at {α : Type} {encode : α → List Byte} {items : List α} {done rest : List Byte}
    {off : ℕ} (hoff : off = done.length) :
    putEach encode (done ++ rest) off items =
      (done ++ items.flatMap encode) ++ rest.drop (items.flatMap encode).length := by
  induction items generalizing done rest off with
  | nil => simp [putEach]
  | cons item items ih =>
      rw [putEach, copyAt_at hoff, ih (by rw [List.length_append, hoff]), List.flatMap_cons,
        List.append_assoc done, List.drop_drop, List.length_append]

theorem putEach_zero {α : Type} (encode : α → List Byte) (dst : List Byte) (items : List α) :
    putEach encode dst 0 items = items.flatMap encode ++ dst.drop (items.flatMap encode).length :=
  putEach_at (@rfl _ ([] : List Byte).length)

theorem flatMap_ids (ids : List Id) : ids.flatMap (fun id => [id.byte]) = ids.map Id.byte :=
  List.flatMap_pure_eq_map _ _

/-- The gate of a list builder: something listed, and room for it. -/
theorem gate_eq_false {α : Type} {items : List α} {room total : ℕ} :
    (items.isEmpty || decide (room < total)) = false ↔ items ≠ [] ∧ total ≤ room := by
  simp

/-! ## Builders against parsers -/

section Mirror

variable {α : Type}

/-- `encode x` laid at the front of the buffer. -/
def laid (encode : α → List Byte) (dst : List Byte) (x : α) : ℕ × List Byte :=
  ((encode x).length, encode x ++ dst.drop (encode x).length)

/-- A builder mirrors a parser: its payload parses back to what the payload
keeps of the arguments, an accepted payload is rebuilt from its fields, and it
refuses exactly what does not fit or would not parse back.  `arg` says that an
argument is of its type. -/
structure Mirrors (build : List Byte → α → Option (ℕ × List Byte))
    (parse : FrameBytes → Option α) (encode : α → List Byte) (arg : α → Prop)
    (kept : α → α) : Prop where
  roundTrip : ∀ {dst x n dst'}, arg x → build dst x = some (n, dst') →
    n ≤ dst'.length ∧ dst'.length = dst.length ∧ dst'.take n = encode x ∧
      ∀ view : FrameBytes, view.bytes = dst'.take n → parse view = some (kept x)
  rebuilds : ∀ {view : FrameBytes} {x dst}, view.len ≤ maxPayload → view.len ≤ dst.length →
    parse view = some x →
      arg x ∧ ∃ dst', build dst x = some (view.len, dst') ∧ dst'.take view.len = view.bytes
  refuses : ∀ {dst x}, arg x →
    (build dst x = none ↔
      cap dst < (encode x).length ∨ parse (.ofList (encode x)) ≠ some (kept x))

variable {build : List Byte → α → Option (ℕ × List Byte)} {parse : FrameBytes → Option α}
  {encode : α → List Byte} {arg Wf : α → Prop} {kept : α → α}

/-- A builder that lays the accepted spelling mirrors the parser. -/
theorem mirrors_of_accepts (hparse : Accepts parse encode Wf)
    (hfits : ∀ {dst x}, arg x → Wf (kept x) → (encode x).length ≤ cap dst →
      build dst x = some (laid encode dst x))
    (hrefused : ∀ {dst x}, arg x → ¬ (Wf (kept x) ∧ (encode x).length ≤ cap dst) →
      build dst x = none)
    (harg : ∀ {x}, Wf x → arg x ∧ kept x = x)
    (hkept : ∀ {x}, arg x → encode (kept x) = encode x) :
    Mirrors build parse encode arg kept where
  roundTrip := by
    intro dst x n dst' hx hbuild
    by_cases hlay : Wf (kept x) ∧ (encode x).length ≤ cap dst
    · rw [hfits hx hlay.1 hlay.2, laid, Option.some.injEq, Prod.mk.injEq] at hbuild
      obtain ⟨rfl, rfl⟩ := hbuild
      have hle : (encode x).length ≤ dst.length := le_trans hlay.2 (Nat.min_le_left _ _)
      refine ⟨by simp, ?_, List.take_left, ?_⟩
      · simp only [List.length_append, List.length_drop]
        omega
      · intro view hview
        rw [List.take_left] at hview
        exact (hparse view (kept x)).mpr ⟨hlay.1, by rw [hview, hkept hx]⟩
    · rw [hrefused hx hlay] at hbuild
      cases hbuild
  rebuilds := by
    intro view x dst hceiling hroom hsome
    obtain ⟨hwf, hbytes⟩ := (hparse view x).mp hsome
    obtain ⟨hx, hkeep⟩ := harg hwf
    have hlen : (encode x).length = view.len := by rw [← hbytes, view.length_bytes]
    have hfit : (encode x).length ≤ cap dst := by
      rw [cap, hlen]
      exact Nat.le_min.mpr ⟨hroom, hceiling⟩
    refine ⟨hx, (laid encode dst x).2, ?_, ?_⟩
    · rw [hfits hx (hkeep.symm ▸ hwf) hfit, laid, hlen]
    · rw [← hlen, laid, List.take_left, hbytes]
  refuses := by
    intro dst x hx
    have hback : parse (.ofList (encode x)) = some (kept x) ↔ Wf (kept x) := by
      rw [hparse, FrameBytes.bytes_ofList, hkept hx]
      exact and_iff_left rfl
    rw [ne_eq, hback]
    constructor
    · intro hnone
      by_contra hlay
      obtain ⟨hfit, hokx⟩ := not_or.mp hlay
      rw [hfits hx (not_not.mp hokx) (by omega)] at hnone
      cases hnone
    · intro hbad
      apply hrefused hx
      rintro ⟨hokx, hfit⟩
      obtain hlong | hnot := hbad
      · omega
      · exact hnot hokx

/-- The same for a parser that keeps every argument. -/
theorem mirrors_exactly (hparse : Accepts parse encode Wf)
    (hfits : ∀ {dst x}, Wf x → (encode x).length ≤ cap dst →
      build dst x = some (laid encode dst x))
    (hrefused : ∀ {dst x}, arg x → ¬ (Wf x ∧ (encode x).length ≤ cap dst) → build dst x = none)
    (harg : ∀ {x}, Wf x → arg x) :
    Mirrors build parse encode arg (fun x => x) :=
  mirrors_of_accepts hparse (fun _ => hfits) hrefused (fun hwf => ⟨harg hwf, rfl⟩) (fun _ => rfl)

end Mirror

/-! ## Fixed payloads -/

theorem read_mirrors :
    Mirrors (fun dst (r : ReadReq) => read dst r.addr r.count) ReadReq.parse
      (fun r => u16ToLe r.addr ++ u16ToLe r.count)
      (fun r => r.addr < 65536 ∧ r.count < 65536) (fun r => r) := by
  apply mirrors_exactly ReadReq.accepts
  · intro dst r hwf hfit
    simp only [List.length_append, length_u16ToLe] at hfit
    simp only [read]
    rw [if_neg (by omega), copyAt_zero, copyAt_at (by simp), List.drop_drop, laid]
    rfl
  · intro dst r hwf hlay
    rw [read, if_pos]
    by_contra hfit
    exact hlay ⟨hwf, by simp; omega⟩
  · intro r hwf
    exact hwf

theorem readProfile_mirrors :
    Mirrors (fun dst (r : ProfileReq) => readProfile dst r.slot) ProfileReq.parse
      (fun r => [r.slot]) (fun _ => True) (fun r => r) := by
  apply mirrors_exactly ProfileReq.accepts
  · intro dst r hwf hfit
    simp only [List.length_cons, List.length_nil] at hfit
    rw [readProfile, if_neg (by omega), copyAt_zero, laid]
    rfl
  · intro dst r hwf hlay
    rw [readProfile, if_pos]
    by_contra hfit
    exact hlay ⟨hwf, by simp; omega⟩
  · intro r hwf
    exact hwf

theorem write_mirrors :
    Mirrors (fun dst (w : ℕ × List Byte) => write dst w.1 w.2)
      (fun view => (WriteReq.parse view).map WriteReq.contents)
      (fun w => u16ToLe w.1 ++ w.2) (fun w => w.1 < 65536) (fun w => w) := by
  apply mirrors_exactly WriteReq.accepts
  · intro dst w hwf hfit
    simp only [List.length_append, length_u16ToLe] at hfit
    simp only [write]
    rw [if_neg (by omega), copyAt_zero, copyAt_at (by simp), List.drop_drop, laid,
      List.length_append]
    rfl
  · intro dst w hwf hlay
    simp only [write]
    rw [if_pos]
    by_contra hfit
    exact hlay ⟨hwf, by simp; omega⟩
  · intro w hwf
    exact hwf

theorem mgmtAssign_mirrors :
    Mirrors (fun dst (a : AssignReq) => mgmtAssign dst a.uid a.newId)
      (MgmtReq.parseOp .assign AssignReq.parse)
      (fun a => MgmtOp.assign.toByte :: (a.uid ++ [a.newId])) (fun a => a.uid.length = uidLen)
      (fun a => a) := by
  apply mirrors_exactly (AssignReq.accepts.parseOp .assign)
  · intro dst a hwf hfit
    simp only [List.length_cons, List.length_append, List.length_nil, hwf] at hfit
    simp only [mgmtAssign]
    rw [if_neg (by omega), copyAt_zero, copyAt_at (by simp),
      copyAt_at (by simp [hwf, Nat.add_comm]), laid]
    simp [List.drop_drop, hwf, Nat.add_comm, Nat.add_left_comm]
  · intro dst a hwf hlay
    simp only [mgmtAssign]
    rw [if_pos]
    by_contra hfit
    exact hlay ⟨hwf, by simp [hwf]; omega⟩
  · intro a hwf
    exact hwf

theorem mgmtCal_mirrors :
    Mirrors (fun dst (c : CalReq) => mgmtCal dst c.gapUs c.gaps)
      (MgmtReq.parseOp .cal CalReq.parse)
      (fun c => MgmtOp.cal.toByte :: (u16ToLe c.gapUs ++ [c.gaps])) (fun c => c.gapUs < 65536)
      (fun c => c) := by
  apply mirrors_exactly (CalReq.accepts.parseOp .cal)
  · rintro dst ⟨gapUs, gaps⟩ ⟨-, hgap, hgaps⟩ hfit
    simp only [List.length_cons, List.length_append, List.length_nil, length_u16ToLe] at hfit
    have hcond : (gapUs == 0 || gaps == 0 || decide (cap dst < 4)) = false := by
      simp only [Bool.or_eq_false_iff, beq_eq_false_iff_ne, decide_eq_false_iff_not]
      exact ⟨⟨hgap, hgaps⟩, by omega⟩
    simp only [mgmtCal]
    rw [hcond, if_neg (by simp), copyAt_zero, copyAt_at (by simp), copyAt_at (by simp), laid]
    simp [List.drop_drop]
  · rintro dst ⟨gapUs, gaps⟩ hwf hlay
    simp only [mgmtCal]
    rw [if_pos]
    by_contra hcond
    simp only [Bool.or_eq_true, beq_iff_eq, decide_eq_true_eq, not_or] at hcond
    exact hlay ⟨⟨hwf, hcond.1.1, hcond.1.2⟩, by simp; omega⟩
  · intro c hwf
    exact hwf.1

/-- What ENUM keeps of a prefix: its wire bytes, the rest cleared. -/
def keptPrefix (e : EnumReq) : EnumReq :=
  let n := EnumReq.prefixBytes e.prefixLen
  { e with pre := e.pre.take n ++ List.replicate (uidLen - n) 0 }

theorem keptPrefix_eq {e : EnumReq} (h : e.Wf) : keptPrefix e = e := by
  obtain ⟨prefixLen, pre⟩ := e
  simp only [keptPrefix, ← h.unused, List.take_append_drop]

theorem encode_keptPrefix {e : EnumReq} (hsize : e.pre.length = uidLen) :
    (keptPrefix e).encode = e.encode := by
  obtain ⟨prefixLen, pre⟩ := e
  simp only [keptPrefix, EnumReq.encode, List.cons.injEq, true_and]
  by_cases hle : EnumReq.prefixBytes prefixLen ≤ pre.length
  · exact List.take_left' (by rw [List.length_take]; omega)
  · have hnone : uidLen - EnumReq.prefixBytes prefixLen = 0 := by
      simp only at hsize
      omega
    rw [hnone, List.replicate_zero, List.append_nil, List.take_take, Nat.min_self]

theorem keptPrefix_wf {e : EnumReq} (hsize : e.pre.length = uidLen) :
    (keptPrefix e).Wf ↔ e.prefixLen ≤ EnumReq.maxPrefixBits := by
  constructor
  · intro h
    exact h.bits
  · intro hbits
    have hle := EnumReq.prefixBytes_le hbits
    have htake : (e.pre.take (EnumReq.prefixBytes e.prefixLen)).length =
        EnumReq.prefixBytes e.prefixLen := by
      rw [List.length_take, hsize]
      exact Nat.min_eq_left hle
    refine ⟨hbits, ?_, ?_⟩
    · simp only [keptPrefix, List.length_append, htake, List.length_replicate]
      omega
    · exact List.drop_left' htake

theorem mgmtEnum_mirrors :
    Mirrors (fun dst (e : EnumReq) => mgmtEnum dst e.prefixLen e.pre)
      (MgmtReq.parseOp .enum EnumReq.parse) (fun e => MgmtOp.enum.toByte :: e.encode)
      (fun e => e.pre.length = uidLen) keptPrefix := by
  have hmax : UInt8.ofNat (uidLen * 8) = EnumReq.maxPrefixBits := by decide
  apply mirrors_of_accepts (EnumReq.accepts.parseOp .enum)
  · intro dst e hsize hwf hfit
    have hbits := (keptPrefix_wf hsize).mp hwf
    have hle := EnumReq.prefixBytes_le hbits
    have htake : (e.pre.take (EnumReq.prefixBytes e.prefixLen)).length =
        EnumReq.prefixBytes e.prefixLen := by
      rw [List.length_take, hsize]
      exact Nat.min_eq_left hle
    simp only [EnumReq.encode, List.length_cons, htake] at hfit
    simp only [EnumReq.prefixBytes] at hfit htake
    simp only [mgmtEnum, hmax]
    rw [if_neg (UInt8.not_lt.mpr hbits), if_neg (by omega), copyAt_zero, copyAt_at (by simp),
      copyAt_at (by simp), laid]
    simp only [EnumReq.encode, EnumReq.prefixBytes]
    generalize e.pre.take ((e.prefixLen.toNat + 7) / 8) = wire at htake ⊢
    rw [← htake]
    simp [List.drop_drop, Nat.add_comm 2]
  · intro dst e hsize hlay
    simp only [mgmtEnum, hmax]
    by_cases hbits : e.prefixLen ≤ EnumReq.maxPrefixBits
    · rw [if_neg (UInt8.not_lt.mpr hbits), if_pos]
      by_contra hfit
      refine hlay ⟨(keptPrefix_wf hsize).mpr hbits, ?_⟩
      simp only [EnumReq.encode, EnumReq.prefixBytes, List.length_cons, List.length_take]
      omega
    · rw [if_pos (UInt8.not_le.mp hbits)]
  · intro e hwf
    exact ⟨hwf.size, keptPrefix_eq hwf⟩
  · intro e hsize
    rw [encode_keptPrefix hsize]

/-! ## Listed payloads -/

theorem greadUniform_mirrors :
    Mirrors (fun dst (g : ℕ × ℕ × List Id) => greadUniform dst g.1 g.2.1 g.2.2)
      (fun view => (GreadUniform.parse view).map GreadUniform.contents)
      (fun g => u16ToLe g.1 ++ u16ToLe g.2.1 ++ g.2.2.map Id.byte)
      (fun g => g.1 < 65536 ∧ g.2.1 < 65536) (fun g => g) := by
  apply mirrors_exactly GreadUniform.accepts
  · rintro dst ⟨addr, count, ids⟩ ⟨-, -, hne⟩ hfit
    simp only [List.length_append, length_u16ToLe, List.length_map] at hfit
    have hgate := gate_eq_false.mpr ⟨hne, show 4 + ids.length ≤ cap dst by omega⟩
    simp only [greadUniform]
    rw [hgate, if_neg (by simp)]
    simp only [read]
    rw [if_neg (by omega), copyAt_zero, copyAt_at (by simp)]
    simp only [Option.bind_eq_bind, Option.bind_some, Option.pure_def]
    rw [putEach_at (by simp), flatMap_ids, laid]
    simp [List.drop_drop, Nat.add_comm, Nat.add_left_comm]
  · rintro dst ⟨addr, count, ids⟩ ⟨haddr, hcount⟩ hlay
    simp only [greadUniform]
    rw [if_pos]
    by_contra hgate
    obtain ⟨hne, hfit⟩ := gate_eq_false.mp (Bool.eq_false_iff.mpr hgate)
    exact hlay ⟨⟨haddr, hcount, hne⟩, by simp; omega⟩
  · intro g hwf
    exact ⟨hwf.1, hwf.2.1⟩

theorem greadProfileUniform_mirrors :
    Mirrors (fun dst (g : Byte × List Id) => greadProfileUniform dst g.1 g.2)
      (fun view => (GreadProfileUniform.parse view).map GreadProfileUniform.contents)
      (fun g => g.1 :: g.2.map Id.byte) (fun _ => True) (fun g => g) := by
  apply mirrors_exactly GreadProfileUniform.accepts
  · rintro dst ⟨slot, ids⟩ hne hfit
    simp only [List.length_cons, List.length_map] at hfit
    have hgate := gate_eq_false.mpr ⟨hne, show 1 + ids.length ≤ cap dst by omega⟩
    simp only [greadProfileUniform]
    rw [hgate, if_neg (by simp), copyAt_zero, putEach_at (by simp), flatMap_ids, laid]
    simp [Nat.add_comm]
  · rintro dst ⟨slot, ids⟩ - hlay
    simp only [greadProfileUniform]
    rw [if_pos]
    by_contra hgate
    obtain ⟨hne, hfit⟩ := gate_eq_false.mp (Bool.eq_false_iff.mpr hgate)
    exact hlay ⟨hne, by simp; omega⟩
  · intro g hwf
    exact trivial

theorem greadPerTarget_mirrors :
    Mirrors greadPerTarget (fun view => (GreadPerTarget.parse view).map GreadPerTarget.iter)
      (fun targets => targets.flatMap GreadTarget.encode) (fun targets => ∀ t ∈ targets, t.Wf)
      (fun targets => targets) := by
  have hlength : ∀ {targets : List GreadTarget}, (∀ t ∈ targets, t.Wf) →
      (targets.flatMap GreadTarget.encode).length = 5 * targets.length :=
    fun hwf => length_flatMap_of_width (by simp [GreadTarget.encode]) hwf
  apply mirrors_exactly GreadPerTarget.accepts
  · rintro dst targets ⟨hne, hwf⟩ hfit
    rw [hlength hwf] at hfit
    have hgate := gate_eq_false.mpr ⟨hne, show 5 * targets.length ≤ cap dst by omega⟩
    simp only [greadPerTarget]
    rw [hgate, if_neg (by simp), putEach_zero, laid, hlength hwf]
  · rintro dst targets hwf hlay
    simp only [greadPerTarget]
    rw [if_pos]
    by_contra hgate
    obtain ⟨hne, hfit⟩ := gate_eq_false.mp (Bool.eq_false_iff.mpr hgate)
    exact hlay ⟨⟨hne, hwf⟩, by rw [hlength hwf]; omega⟩
  · intro targets hwf
    exact hwf.2

theorem greadProfilePerTarget_mirrors :
    Mirrors greadProfilePerTarget
      (fun view => (GreadProfilePerTarget.parse view).map GreadProfilePerTarget.iter)
      (fun targets => targets.flatMap GreadProfileTarget.encode) (fun _ => True)
      (fun targets => targets) := by
  have hlength : ∀ targets : List GreadProfileTarget,
      (targets.flatMap GreadProfileTarget.encode).length = 2 * targets.length := by
    intro targets
    exact @length_flatMap_of_width _ GreadProfileTarget.encode (fun _ => True) 2 (fun _ _ => rfl)
      targets (fun _ _ => trivial)
  apply mirrors_exactly GreadProfilePerTarget.accepts
  · rintro dst targets hne hfit
    rw [hlength] at hfit
    have hgate := gate_eq_false.mpr ⟨hne, show 2 * targets.length ≤ cap dst by omega⟩
    simp only [greadProfilePerTarget]
    rw [hgate, if_neg (by simp), putEach_zero, laid, hlength]
  · rintro dst targets - hlay
    simp only [greadProfilePerTarget]
    rw [if_pos]
    by_contra hgate
    obtain ⟨hne, hfit⟩ := gate_eq_false.mp (Bool.eq_false_iff.mpr hgate)
    exact hlay ⟨hne, by rw [hlength]; omega⟩
  · intro targets hwf
    exact trivial

/-! ## Builders entry by entry -/

section Incremental

variable {β ι : Type}

/-- Offer entries one after the other and drop the refused ones: the builder
afterwards and the entries it took. -/
def offer (push : β → ι → Option β) : β → List ι → β × List ι
  | b, [] => (b, [])
  | b, entry :: entries =>
      match push b entry with
      | none => offer push b entries
      | some b =>
          let (b, taken) := offer push b entries
          (b, entry :: taken)

/-- A builder whose pushes append `enc entry` while it fits; `State` says what
the buffer holds so far. -/
structure Pushes (push : β → ι → Option β) (State : β → List Byte → Prop) (enc : ι → List Byte)
    (fits : ι → Prop) (room : ℕ) : Prop where
  takes : ∀ {b payload entry}, State b payload → fits entry →
    payload.length + (enc entry).length ≤ room →
      ∃ b', push b entry = some b' ∧ State b' (payload ++ enc entry)
  refuses : ∀ {b payload entry}, State b payload →
    ¬ (fits entry ∧ payload.length + (enc entry).length ≤ room) → push b entry = none

variable {push : β → ι → Option β} {State : β → List Byte → Prop} {enc : ι → List Byte}
  {fits : ι → Prop} {room : ℕ}

/-- The buffer holds exactly the entries taken, in order. -/
theorem Pushes.offer_state (h : Pushes push State enc fits room) {b : β} {payload : List Byte}
    (hstate : State b payload) (entries : List ι) :
    State (Build.offer push b entries).1 (payload ++ (Build.offer push b entries).2.flatMap enc) ∧
      ∀ entry ∈ (Build.offer push b entries).2, fits entry := by
  induction entries generalizing b payload with
  | nil =>
      rw [Build.offer, List.flatMap_nil, List.append_nil]
      exact ⟨hstate, fun entry hmem => absurd hmem List.not_mem_nil⟩
  | cons entry entries ih =>
      by_cases hlay : fits entry ∧ payload.length + (enc entry).length ≤ room
      · obtain ⟨b', hpush, hstate'⟩ := h.takes hstate hlay.1 hlay.2
        obtain ⟨hrest, hfits⟩ := ih hstate'
        simp only [Build.offer, hpush, List.flatMap_cons]
        refine ⟨by rwa [← List.append_assoc], ?_⟩
        exact List.forall_mem_cons.mpr ⟨hlay.1, hfits⟩
      · simp only [Build.offer, h.refuses hstate hlay]
        exact ih hstate

/-- Every entry taken: each fits and there is room for all. -/
theorem Pushes.foldlM_some (h : Pushes push State enc fits room) {b : β} {payload : List Byte}
    (hstate : State b payload) {entries : List ι} (hfits : ∀ entry ∈ entries, fits entry)
    (hroom : payload.length + (entries.flatMap enc).length ≤ room) :
    ∃ b', entries.foldlM push b = some b' ∧ State b' (payload ++ entries.flatMap enc) := by
  induction entries generalizing b payload with
  | nil => exact ⟨b, rfl, by rwa [List.flatMap_nil, List.append_nil]⟩
  | cons entry entries ih =>
      obtain ⟨hfit, hfits⟩ := List.forall_mem_cons.mp hfits
      rw [List.flatMap_cons, List.length_append] at hroom
      obtain ⟨b', hpush, hstate'⟩ := h.takes hstate hfit (by omega)
      obtain ⟨b'', hfold, hfinal⟩ := ih hstate' hfits (by rw [List.length_append]; omega)
      refine ⟨b'', ?_, by rwa [List.flatMap_cons, ← List.append_assoc]⟩
      rw [List.foldlM_cons, hpush]
      exact hfold

theorem Pushes.foldlM_none (h : Pushes push State enc fits room) {b : β} {payload : List Byte}
    (hstate : State b payload) {entries : List ι}
    (hlay : ¬ ((∀ entry ∈ entries, fits entry) ∧
      payload.length + (entries.flatMap enc).length ≤ room)) (hbase : payload.length ≤ room) :
    entries.foldlM push b = none := by
  induction entries generalizing b payload with
  | nil => exact absurd ⟨fun entry hmem => absurd hmem List.not_mem_nil, by simpa using hbase⟩ hlay
  | cons entry entries ih =>
      rw [List.foldlM_cons]
      by_cases hfirst : fits entry ∧ payload.length + (enc entry).length ≤ room
      · obtain ⟨b', hpush, hstate'⟩ := h.takes hstate hfirst.1 hfirst.2
        rw [hpush]
        apply ih hstate'
        · rintro ⟨hfits, hroom⟩
          refine hlay ⟨List.forall_mem_cons.mpr ⟨hfirst.1, hfits⟩, ?_⟩
          rw [List.flatMap_cons, List.length_append]
          rw [List.length_append] at hroom
          omega
        · rw [List.length_append]
          exact hfirst.2
      · rw [h.refuses hstate hfirst]
        rfl

end Incremental

/-- The buffer `dst` of a builder under construction: `payload` laid over the
front of the caller's buffer `orig`. -/
structure Holds (orig dst : List Byte) (len : ℕ) (payload : List Byte) : Prop where
  len_eq : len = payload.length
  fits : payload.length ≤ cap orig
  dst_eq : dst = payload ++ orig.drop payload.length

theorem Holds.cap_eq {orig dst payload : List Byte} {len : ℕ} (h : Holds orig dst len payload) :
    cap dst = cap orig := by
  have hfits := h.fits
  simp only [cap] at hfits ⊢
  rw [h.dst_eq, List.length_append, List.length_drop]
  omega

theorem holds_nil (orig : List Byte) : Holds orig orig 0 [] := ⟨rfl, Nat.zero_le _, rfl⟩

theorem Holds.copyAt {orig dst payload src : List Byte} {len off : ℕ}
    (h : Holds orig dst len payload) (hoff : off = len)
    (hfit : payload.length + src.length ≤ cap orig) :
    Holds orig (copyAt dst off src) (len + src.length) (payload ++ src) := by
  obtain ⟨rfl, -, rfl⟩ := h
  refine ⟨by rw [List.length_append], by rwa [List.length_append], ?_⟩
  rw [copyAt_at hoff, List.drop_drop, List.length_append]

namespace GwriteUniform

/-- The head of a uniform GWRITE. -/
def head (addr : ℕ) (count : Byte) : List Byte := u16ToLe addr ++ [count]

def State (orig : List Byte) (count : Byte) (b : GwriteUniform) (payload : List Byte) : Prop :=
  b.count = count ∧ Holds orig b.dst b.len payload

theorem new_some {dst : List Byte} {addr : ℕ} {count : Byte} (hcount : count ≠ 0)
    (hroom : 3 ≤ cap dst) :
    ∃ b, new dst addr count = some b ∧ State dst count b (head addr count) := by
  have haddr := (holds_nil dst).copyAt rfl
    (show ([] : List Byte).length + (u16ToLe addr).length ≤ cap dst by simp; omega)
  have hhead := haddr.copyAt (show 2 = 0 + (u16ToLe addr).length from rfl)
    (show ([] ++ u16ToLe addr).length + [count].length ≤ cap dst by simp; omega)
  refine ⟨⟨copyAt (copyAt dst 0 (u16ToLe addr)) 2 [count], 3, count⟩, ?_, rfl, hhead⟩
  simp only [new]
  rw [if_neg]
  simp only [Bool.or_eq_true, beq_iff_eq, decide_eq_true_eq, not_or]
  exact ⟨hcount, by omega⟩

theorem new_none {dst : List Byte} {addr : ℕ} {count : Byte}
    (h : ¬ (count ≠ 0 ∧ 3 ≤ cap dst)) : new dst addr count = none := by
  rw [new, if_pos]
  by_contra hgate
  simp only [Bool.or_eq_true, beq_iff_eq, decide_eq_true_eq, not_or] at hgate
  exact h ⟨hgate.1, by omega⟩

theorem pushes (orig : List Byte) (count : Byte) :
    Pushes push (State orig count) GwriteUniform.encodeEntry
      (fun entry => entry.2.length = count.toNat) (cap orig) where
  takes := by
    rintro b payload ⟨id, data⟩ ⟨rfl, hholds⟩ hfit hroom
    have hlen := hholds.len_eq
    simp only [GwriteUniform.encodeEntry, List.length_cons] at hroom hfit
    have hid := hholds.copyAt rfl (show payload.length + [id.byte].length ≤ cap orig by simp; omega)
    have hdata := hid.copyAt (show b.len + 1 = b.len + [id.byte].length from rfl)
      (show (payload ++ [id.byte]).length + data.length ≤ cap orig by simp; omega)
    rw [List.append_assoc] at hdata
    refine ⟨⟨copyAt (copyAt b.dst b.len [id.byte]) (b.len + 1) data,
      b.len + 1 + data.length, b.count⟩,
      ?_, rfl, hdata⟩
    simp only [push]
    rw [if_neg (not_not.mpr hfit), if_neg (by rw [hholds.cap_eq]; omega)]
  refuses := by
    rintro b payload ⟨id, data⟩ ⟨rfl, hholds⟩ hlay
    have hlen := hholds.len_eq
    simp only [GwriteUniform.encodeEntry, List.length_cons] at hlay
    simp only [push]
    by_cases hfit : data.length = b.count.toNat
    · rw [if_neg (not_not.mpr hfit), if_pos]
      rw [hholds.cap_eq]
      by_contra hge
      exact hlay ⟨hfit, by omega⟩
    · rw [if_pos hfit]

theorem finish_eq {orig : List Byte} {count : Byte} {b : GwriteUniform} {payload : List Byte}
    (h : State orig count b payload) :
    b.finish = if 3 < payload.length then some payload.length else none := by
  rw [finish, h.2.len_eq]

end GwriteUniform

namespace GwritePerTarget

def State (orig : List Byte) (b : GwritePerTarget) (payload : List Byte) : Prop :=
  Holds orig b.dst b.len payload

theorem pushes (orig : List Byte) :
    Pushes push (State orig) GwriteTarget.encode (fun entry => entry.2.2.length < 256)
      (cap orig) where
  takes := by
    rintro b payload ⟨id, addr, data⟩ hholds hfit hroom
    have hlen := hholds.len_eq
    simp only [GwriteTarget.encode, List.length_cons, List.length_append,
      length_u16ToLe] at hroom hfit
    have hid := hholds.copyAt rfl (show payload.length + [id.byte].length ≤ cap orig by simp; omega)
    have haddr := hid.copyAt (show b.len + 1 = b.len + [id.byte].length from rfl)
      (show (payload ++ [id.byte]).length + (u16ToLe addr).length ≤ cap orig by simp; omega)
    have hcount := haddr.copyAt
      (show b.len + 3 = b.len + [id.byte].length + (u16ToLe addr).length from rfl)
      (show (payload ++ [id.byte] ++ u16ToLe addr).length + [UInt8.ofNat data.length].length ≤
        cap orig by simp; omega)
    have hdata := hcount.copyAt
      (show b.len + 4 = b.len + [id.byte].length + (u16ToLe addr).length +
        [UInt8.ofNat data.length].length from rfl)
      (show (payload ++ [id.byte] ++ u16ToLe addr ++ [UInt8.ofNat data.length]).length +
        data.length ≤ cap orig by simp; omega)
    rw [List.append_assoc, List.append_assoc, List.append_assoc] at hdata
    refine ⟨⟨copyAt (copyAt (copyAt (copyAt b.dst b.len [id.byte]) (b.len + 1) (u16ToLe addr))
      (b.len + 3)
      [UInt8.ofNat data.length]) (b.len + 4) data, b.len + 4 + data.length⟩, ?_, hdata⟩
    simp only [push]
    rw [if_neg (by omega), if_neg (by rw [hholds.cap_eq]; omega)]
  refuses := by
    rintro b payload ⟨id, addr, data⟩ hholds hlay
    have hlen := hholds.len_eq
    simp only [GwriteTarget.encode, List.length_cons, List.length_append, length_u16ToLe] at hlay
    simp only [push]
    by_cases hfit : data.length > 255
    · rw [if_pos hfit]
    · rw [if_neg hfit, if_pos]
      rw [hholds.cap_eq]
      by_contra hge
      exact hlay ⟨by omega, by omega⟩

theorem finish_eq {orig : List Byte} {b : GwritePerTarget} {payload : List Byte}
    (h : State orig b payload) :
    b.finish = if 0 < payload.length then some payload.length else none := by
  rw [finish, h.len_eq]

end GwritePerTarget

theorem flatMap_encode_pos {ι : Type} {enc : ι → List Byte} (henc : ∀ entry, enc entry ≠ [])
    (entries : List ι) : 0 < (entries.flatMap enc).length ↔ entries ≠ [] := by
  cases entries with
  | nil => simp
  | cons entry entries =>
      have hpos := List.length_pos_iff.mpr (henc entry)
      simp only [List.flatMap_cons, List.length_append, ne_eq, reduceCtorEq, not_false_eq_true,
        iff_true]
      omega

theorem gwriteUniform_mirrors :
    Mirrors (fun dst (g : ℕ × Byte × List (Id × List Byte)) => gwriteUniform dst g.1 g.2.1 g.2.2)
      (fun view => (GwriteUniform.parse view).map GwriteUniform.contents) GwriteUniform.encode
      (fun g => g.1 < 65536) (fun g => g) := by
  have hencode : ∀ addr count entries, GwriteUniform.encode (addr, count, entries) =
      GwriteUniform.head addr count ++ entries.flatMap GwriteUniform.encodeEntry := by
    intro addr count entries
    simp [GwriteUniform.encode, GwriteUniform.head]
  have hpos := flatMap_encode_pos (show ∀ entry, GwriteUniform.encodeEntry entry ≠ [] by
    simp [GwriteUniform.encodeEntry])
  have hhead : ∀ addr count, (GwriteUniform.head addr count).length = 3 := fun _ _ => rfl
  apply mirrors_exactly GwriteUniform.accepts
  · rintro dst ⟨addr, count, entries⟩ ⟨-, hcount, hne, hfits⟩ hfit
    rw [hencode, List.length_append, hhead] at hfit
    obtain ⟨b, hnew, hstate⟩ := @GwriteUniform.new_some dst addr count hcount (by omega)
    have hfits : ∀ entry ∈ entries, entry.2.length = count.toNat := hfits
    obtain ⟨b', hfold, hstate'⟩ := (GwriteUniform.pushes dst count).foldlM_some hstate hfits
      (by rw [hhead]; omega)
    have hlen : 0 < (entries.flatMap GwriteUniform.encodeEntry).length := (hpos entries).mpr hne
    have hfinish := GwriteUniform.finish_eq hstate'
    rw [List.length_append, hhead, if_pos (by omega)] at hfinish
    simp only [gwriteUniform, hnew, Option.bind_eq_bind, Option.bind_some, hfold, hfinish,
      Option.pure_def, laid, hencode, hstate'.2.dst_eq, List.length_append, hhead]
  · rintro dst ⟨addr, count, entries⟩ haddr hlay
    rw [hencode, List.length_append, hhead] at hlay
    simp only [gwriteUniform]
    by_cases hnew : count ≠ 0 ∧ 3 ≤ cap dst
    · obtain ⟨b, hb, hstate⟩ := @GwriteUniform.new_some dst addr count hnew.1 hnew.2
      by_cases hall : (∀ entry ∈ entries, entry.2.length = count.toNat) ∧
          (GwriteUniform.head addr count).length +
            (entries.flatMap GwriteUniform.encodeEntry).length ≤ cap dst
      · obtain ⟨b', hfold, hstate'⟩ :=
          (GwriteUniform.pushes dst count).foldlM_some hstate hall.1 hall.2
        have hnil : entries = [] := by
          by_contra hne
          exact hlay ⟨⟨haddr, hnew.1, hne, hall.1⟩, hall.2⟩
        have hfinish := GwriteUniform.finish_eq hstate'
        rw [hnil, List.flatMap_nil, List.append_nil, hhead, if_neg (by omega)] at hfinish
        simp only [hb, Option.bind_eq_bind, Option.bind_some, hfold, hfinish, Option.bind_none]
      · have hfold := (GwriteUniform.pushes dst count).foldlM_none hstate hall hstate.2.fits
        simp only [hb, Option.bind_eq_bind, Option.bind_some, hfold, Option.bind_none]
    · rw [GwriteUniform.new_none hnew]
      rfl
  · intro g hwf
    exact hwf.addr

theorem gwritePerTarget_mirrors :
    Mirrors gwritePerTarget
      (fun view => (GwritePerTarget.parse view).map fun g => g.iter.map GwriteTarget.contents)
      (fun entries => entries.flatMap GwriteTarget.encode)
      (fun entries => ∀ entry ∈ entries, entry.2.1 < 65536) (fun entries => entries) := by
  have hpos := flatMap_encode_pos (show ∀ entry, GwriteTarget.encode entry ≠ [] by
    simp [GwriteTarget.encode])
  apply mirrors_exactly GwritePerTarget.accepts
  · rintro dst entries ⟨hne, hwf⟩ hfit
    obtain ⟨b, hfold, hstate⟩ := (GwritePerTarget.pushes dst).foldlM_some
      (show GwritePerTarget.State dst (.new dst) [] from holds_nil dst)
      (fun entry hmem => (hwf entry hmem).2) (by rwa [List.length_nil, Nat.zero_add])
    have hfinish := GwritePerTarget.finish_eq hstate
    rw [List.nil_append, if_pos ((hpos entries).mpr hne)] at hfinish
    simp only [gwritePerTarget, Option.bind_eq_bind, Option.bind_some, hfold, hfinish,
      Option.pure_def, laid, hstate.dst_eq, List.nil_append]
  · rintro dst entries haddr hlay
    simp only [gwritePerTarget]
    have hstate : GwritePerTarget.State dst (.new dst) [] := holds_nil dst
    by_cases hall : (∀ entry ∈ entries, entry.2.2.length < 256) ∧
        ([] : List Byte).length + (entries.flatMap GwriteTarget.encode).length ≤ cap dst
    · obtain ⟨b, hfold, hstate'⟩ := (GwritePerTarget.pushes dst).foldlM_some hstate hall.1 hall.2
      have hnil : entries = [] := by
        by_contra hne
        refine hlay ⟨⟨hne, fun entry hmem => ⟨haddr entry hmem, hall.1 entry hmem⟩⟩, ?_⟩
        simpa using hall.2
      have hfinish := GwritePerTarget.finish_eq hstate'
      rw [hnil, List.flatMap_nil, List.append_nil, if_neg (by simp)] at hfinish
      simp only [Option.bind_eq_bind, Option.bind_some, hfold, hfinish, Option.bind_none]
    · have hfold := (GwritePerTarget.pushes dst).foldlM_none hstate hall (Nat.zero_le _)
      simp only [Option.bind_eq_bind, hfold, Option.bind_none]
  · intro entries hwf entry hmem
    exact (hwf.2 entry hmem).1

/-! ## Pushing past a refusal -/

section Incremental

variable {α β ι : Type}

/-- A builder fed any sequence of entries, refusals included: it finishes with
exactly the entries it took, and it refuses an entry exactly when the payload
with that entry would not fit or would not parse back. -/
structure Increments (push : β → ι → Option β) (finish : β → Option ℕ) (buffer : β → List Byte)
    (parse : FrameBytes → Option α) (encode : α → List Byte) (whole : List ι → α)
    (arg : ι → Prop) (room : ℕ) (start : β) : Prop where
  finishes : ∀ attempts, finish (offer push start attempts).1 = none ↔
    (offer push start attempts).2 = []
  roundTrip : ∀ {attempts n}, (∀ entry ∈ attempts, arg entry) →
    finish (offer push start attempts).1 = some n →
      (buffer (offer push start attempts).1).take n = encode (whole (offer push start attempts).2) ∧
        parse (.ofList ((buffer (offer push start attempts).1).take n)) =
          some (whole (offer push start attempts).2)
  refuses : ∀ {attempts entry}, (∀ entry ∈ attempts, arg entry) → arg entry →
    (push (offer push start attempts).1 entry = none ↔
      room < (encode (whole ((offer push start attempts).2 ++ [entry]))).length ∨
        parse (.ofList (encode (whole ((offer push start attempts).2 ++ [entry])))) ≠
          some (whole ((offer push start attempts).2 ++ [entry])))

theorem offer_subset (push : β → ι → Option β) (b : β) (attempts : List ι) {entry : ι}
    (h : entry ∈ (offer push b attempts).2) : entry ∈ attempts := by
  induction attempts generalizing b with
  | nil => exact h
  | cons first attempts ih =>
      simp only [offer] at h
      split at h
      · exact List.mem_cons_of_mem _ (ih b h)
      · rename_i b' _
        obtain rfl | hmem := List.mem_cons.mp h
        · exact List.mem_cons_self
        · exact List.mem_cons_of_mem _ (ih b' hmem)

variable {push : β → ι → Option β} {finish : β → Option ℕ} {buffer : β → List Byte}
  {parse : FrameBytes → Option α} {encode : α → List Byte} {Wf : α → Prop} {whole : List ι → α}
  {arg fits : ι → Prop} {State : β → List Byte → Prop} {enc : ι → List Byte} {start : β}
  {head orig : List Byte}

theorem Pushes.increments (h : Pushes push State enc fits (cap orig))
    (hparse : Accepts parse encode Wf)
    (hstart : State start head) (henc : ∀ entry, enc entry ≠ [])
    (hwhole : ∀ entries, encode (whole entries) = head ++ entries.flatMap enc)
    (hwf : ∀ {entries}, (∀ entry ∈ entries, arg entry) →
      (Wf (whole entries) ↔ entries ≠ [] ∧ ∀ entry ∈ entries, fits entry))
    (hbuffer : ∀ {b payload}, State b payload → (buffer b).take payload.length = payload)
    (hfinish : ∀ {b payload}, State b payload →
      finish b = if head.length < payload.length then some payload.length else none) :
    Increments push finish buffer parse encode whole arg (cap orig) start := by
  have hdone : ∀ attempts, finish (offer push start attempts).1 =
      if (offer push start attempts).2 = [] then none
      else some (encode (whole (offer push start attempts).2)).length := by
    intro attempts
    obtain ⟨hstate, -⟩ := h.offer_state hstart attempts
    have hpos := flatMap_encode_pos henc (offer push start attempts).2
    rw [hfinish hstate, hwhole, List.length_append]
    by_cases hnil : (offer push start attempts).2 = []
    · rw [if_pos hnil, if_neg (by rw [hnil]; simp)]
    · rw [if_neg hnil, if_pos (by have := hpos.mpr hnil; omega)]
  refine ⟨?_, ?_, ?_⟩
  · intro attempts
    rw [hdone]
    split
    · rename_i hnil
      exact iff_of_true rfl hnil
    · rename_i hnil
      exact iff_of_false (by simp) hnil
  · intro attempts n harg hsome
    obtain ⟨hstate, hfits⟩ := h.offer_state hstart attempts
    rw [hdone] at hsome
    split at hsome
    · cases hsome
    · rename_i hne
      obtain rfl := Option.some.inj hsome
      have htake := hbuffer hstate
      rw [← hwhole] at htake
      refine ⟨htake, ?_⟩
      rw [htake, hparse, FrameBytes.bytes_ofList]
      exact ⟨(hwf fun entry hmem => harg entry (offer_subset push start attempts hmem)).mpr
        ⟨hne, hfits⟩, rfl⟩
  · intro attempts entry harg hentry
    obtain ⟨hstate, hfits⟩ := h.offer_state hstart attempts
    have hargs : ∀ e ∈ (offer push start attempts).2 ++ [entry], arg e := by
      intro e hmem
      obtain hmem | hmem := List.mem_append.mp hmem
      · exact harg e (offer_subset push start attempts hmem)
      · rwa [List.mem_singleton.mp hmem]
    have hback : parse (.ofList (encode (whole ((offer push start attempts).2 ++ [entry])))) =
        some (whole ((offer push start attempts).2 ++ [entry])) ↔ fits entry := by
      rw [hparse, FrameBytes.bytes_ofList, hwf hargs]
      constructor
      · rintro ⟨⟨-, hall⟩, -⟩
        exact hall entry (by simp)
      · intro hfit
        refine ⟨⟨by simp, ?_⟩, rfl⟩
        intro e hmem
        obtain hmem | hmem := List.mem_append.mp hmem
        · exact hfits e hmem
        · rwa [List.mem_singleton.mp hmem]
    rw [ne_eq, hback, hwhole, List.flatMap_append, List.flatMap_singleton, ← List.append_assoc,
      List.length_append]
    constructor
    · intro hnone
      by_contra hlay
      obtain ⟨hroom, hfit⟩ := not_or.mp hlay
      obtain ⟨b', hpush, -⟩ := h.takes hstate (not_not.mp hfit) (by omega)
      rw [hpush] at hnone
      cases hnone
    · intro hbad
      apply h.refuses hstate
      rintro ⟨hfit, hroom⟩
      obtain hlong | hnot := hbad
      · omega
      · exact hnot hfit

end Incremental

theorem Holds.take_eq {orig dst payload : List Byte} {len : ℕ} (h : Holds orig dst len payload) :
    dst.take payload.length = payload := by
  rw [h.dst_eq, List.take_left]

theorem GwriteUniform.increments {dst : List Byte} {addr : ℕ} {count : Byte}
    (haddr : addr < 65536) {b : GwriteUniform} (hnew : GwriteUniform.new dst addr count = some b) :
    Increments GwriteUniform.push GwriteUniform.finish GwriteUniform.dst
      (fun view => (OpenServo.GwriteUniform.parse view).map GwriteUniform.contents)
      GwriteUniform.encode (fun entries => (addr, count, entries)) (fun _ => True) (cap dst) b := by
  have hok : count ≠ 0 ∧ 3 ≤ cap dst := by
    by_contra hnot
    rw [GwriteUniform.new_none hnot] at hnew
    cases hnew
  obtain ⟨b', hb', hstate⟩ := @GwriteUniform.new_some dst addr count hok.1 hok.2
  obtain rfl := Option.some.inj (hb'.symm.trans hnew)
  apply (GwriteUniform.pushes dst count).increments GwriteUniform.accepts hstate
  · simp [GwriteUniform.encodeEntry]
  · intro entries
    simp [GwriteUniform.encode, GwriteUniform.head]
  · intro entries _
    constructor
    · intro hwf
      exact ⟨hwf.entries, hwf.fits⟩
    · rintro ⟨hne, hfits⟩
      exact ⟨haddr, hok.1, hne, hfits⟩
  · intro b payload hstate
    exact hstate.2.take_eq
  · intro b payload hstate
    exact GwriteUniform.finish_eq hstate

theorem GwritePerTarget.increments (dst : List Byte) :
    Increments GwritePerTarget.push GwritePerTarget.finish GwritePerTarget.dst
      (fun view => (OpenServo.GwritePerTarget.parse view).map fun g =>
        g.iter.map GwriteTarget.contents)
      (fun entries => entries.flatMap GwriteTarget.encode) (fun entries => entries)
      (fun entry => entry.2.1 < 65536) (cap dst) (GwritePerTarget.new dst) := by
  apply (GwritePerTarget.pushes dst).increments GwritePerTarget.accepts
    (show GwritePerTarget.State dst (.new dst) [] from holds_nil dst)
  · simp [GwriteTarget.encode]
  · intro entries
    rfl
  · intro entries harg
    constructor
    · rintro ⟨hne, hwf⟩
      exact ⟨hne, fun entry hmem => (hwf entry hmem).2⟩
    · rintro ⟨hne, hfits⟩
      exact ⟨hne, fun entry hmem => ⟨harg entry hmem, hfits entry hmem⟩⟩
  · intro b payload hstate
    exact hstate.take_eq
  · intro b payload hstate
    exact GwritePerTarget.finish_eq hstate

/-! ## The builders and the parsers -/

/-- Every builder mirrors its parser, the incremental ones also across refused
pushes. -/
theorem builders_mirror_parsers :
    Mirrors (fun dst (r : ReadReq) => read dst r.addr r.count) ReadReq.parse
      (fun r => u16ToLe r.addr ++ u16ToLe r.count)
      (fun r => r.addr < 65536 ∧ r.count < 65536) (fun r => r) ∧
    Mirrors (fun dst (r : ProfileReq) => readProfile dst r.slot) ProfileReq.parse
      (fun r => [r.slot]) (fun _ => True) (fun r => r) ∧
    Mirrors (fun dst (w : ℕ × List Byte) => write dst w.1 w.2)
      (fun view => (WriteReq.parse view).map WriteReq.contents)
      (fun w => u16ToLe w.1 ++ w.2) (fun w => w.1 < 65536) (fun w => w) ∧
    Mirrors (fun dst (g : ℕ × ℕ × List Id) => greadUniform dst g.1 g.2.1 g.2.2)
      (fun view => (GreadUniform.parse view).map GreadUniform.contents)
      (fun g => u16ToLe g.1 ++ u16ToLe g.2.1 ++ g.2.2.map Id.byte)
      (fun g => g.1 < 65536 ∧ g.2.1 < 65536) (fun g => g) ∧
    Mirrors greadPerTarget (fun view => (GreadPerTarget.parse view).map GreadPerTarget.iter)
      (fun targets => targets.flatMap GreadTarget.encode) (fun targets => ∀ t ∈ targets, t.Wf)
      (fun targets => targets) ∧
    Mirrors (fun dst (g : Byte × List Id) => greadProfileUniform dst g.1 g.2)
      (fun view => (GreadProfileUniform.parse view).map GreadProfileUniform.contents)
      (fun g => g.1 :: g.2.map Id.byte) (fun _ => True) (fun g => g) ∧
    Mirrors greadProfilePerTarget
      (fun view => (GreadProfilePerTarget.parse view).map GreadProfilePerTarget.iter)
      (fun targets => targets.flatMap GreadProfileTarget.encode) (fun _ => True)
      (fun targets => targets) ∧
    Mirrors (fun dst (g : ℕ × Byte × List (Id × List Byte)) => gwriteUniform dst g.1 g.2.1 g.2.2)
      (fun view => (GwriteUniform.parse view).map GwriteUniform.contents) GwriteUniform.encode
      (fun g => g.1 < 65536) (fun g => g) ∧
    Mirrors gwritePerTarget
      (fun view => (GwritePerTarget.parse view).map fun g => g.iter.map GwriteTarget.contents)
      (fun entries => entries.flatMap GwriteTarget.encode)
      (fun entries => ∀ entry ∈ entries, entry.2.1 < 65536) (fun entries => entries) ∧
    Mirrors (fun dst (e : EnumReq) => mgmtEnum dst e.prefixLen e.pre)
      (MgmtReq.parseOp .enum EnumReq.parse) (fun e => MgmtOp.enum.toByte :: e.encode)
      (fun e => e.pre.length = uidLen) keptPrefix ∧
    Mirrors (fun dst (a : AssignReq) => mgmtAssign dst a.uid a.newId)
      (MgmtReq.parseOp .assign AssignReq.parse)
      (fun a => MgmtOp.assign.toByte :: (a.uid ++ [a.newId])) (fun a => a.uid.length = uidLen)
      (fun a => a) ∧
    Mirrors (fun dst (c : CalReq) => mgmtCal dst c.gapUs c.gaps)
      (MgmtReq.parseOp .cal CalReq.parse)
      (fun c => MgmtOp.cal.toByte :: (u16ToLe c.gapUs ++ [c.gaps])) (fun c => c.gapUs < 65536)
      (fun c => c) ∧
    (∀ (dst : List Byte) (addr : ℕ) (count : Byte) (b : GwriteUniform), addr < 65536 →
      GwriteUniform.new dst addr count = some b →
        Increments GwriteUniform.push GwriteUniform.finish GwriteUniform.dst
          (fun view => (OpenServo.GwriteUniform.parse view).map GwriteUniform.contents)
          GwriteUniform.encode (fun entries => (addr, count, entries)) (fun _ => True)
          (cap dst) b) ∧
    ∀ dst : List Byte,
      Increments GwritePerTarget.push GwritePerTarget.finish GwritePerTarget.dst
        (fun view => (OpenServo.GwritePerTarget.parse view).map fun g =>
          g.iter.map GwriteTarget.contents)
        (fun entries => entries.flatMap GwriteTarget.encode) (fun entries => entries)
        (fun entry => entry.2.1 < 65536) (cap dst) (GwritePerTarget.new dst) :=
  ⟨read_mirrors, readProfile_mirrors, write_mirrors, greadUniform_mirrors, greadPerTarget_mirrors,
    greadProfileUniform_mirrors, greadProfilePerTarget_mirrors, gwriteUniform_mirrors,
    gwritePerTarget_mirrors, mgmtEnum_mirrors, mgmtAssign_mirrors, mgmtCal_mirrors,
    fun _ _ _ _ haddr hnew => GwriteUniform.increments haddr hnew, GwritePerTarget.increments⟩

/-- Two bytes for two servos: the payload parses back, and a third entry does
not fit the nine bytes. -/
theorem builders_mirror_two_entries :
    (OpenServo.GwriteUniform.parse (.ofList [128, 1, 2, 1, 5, 6, 2, 7, 8])).map
        GwriteUniform.contents = some (0x180, 2, [(⟨1⟩, [5, 6]), (⟨2⟩, [7, 8])]) ∧
      gwriteUniform (List.replicate 9 0) 0x180 2 [(⟨1⟩, [5, 6]), (⟨2⟩, [7, 8]), (⟨3⟩, [9, 9])] =
        none := by
  obtain ⟨-, -, -, -, -, -, -, hmirror, -⟩ := builders_mirror_parsers
  constructor
  · exact (hmirror.roundTrip (show (0x180 : ℕ) < 65536 by decide)
      (show gwriteUniform (List.replicate 9 0) 0x180 2 [(⟨1⟩, [5, 6]), (⟨2⟩, [7, 8])] =
        some (9, [128, 1, 2, 1, 5, 6, 2, 7, 8]) by decide)).2.2.2 _ rfl
  · exact (@Mirrors.refuses _ _ _ _ _ _ hmirror (List.replicate 9 0)
      (0x180, 2, [(⟨1⟩, [5, 6]), (⟨2⟩, [7, 8]), (⟨3⟩, [9, 9])]) (by decide)).mpr
        (.inl (by decide))

/-- ENUM drops the prefix bytes its bit count leaves unused, so what it builds
does not parse back to them; and a uniform GWRITE refuses an entry of the wrong
length although the parser would read those bytes as other entries. -/
theorem builders_do_not_mirror_exactly :
    (¬ ∀ (dst : List Byte) (e : EnumReq) (n : ℕ) (dst' : List Byte), e.pre.length = uidLen →
        mgmtEnum dst e.prefixLen e.pre = some (n, dst') →
          MgmtReq.parseOp .enum EnumReq.parse (.ofList (dst'.take n)) = some e) ∧
      ¬ ∀ (dst : List Byte) (addr : ℕ) (count : Byte) (entries : List (Id × List Byte)),
        gwriteUniform dst addr count entries = none →
          cap dst < (GwriteUniform.encode (addr, count, entries)).length ∨
            OpenServo.GwriteUniform.parse (.ofList (GwriteUniform.encode (addr, count, entries))) =
              none := by
  constructor
  · intro h
    have hback := h [0, 0] ⟨0, 1 :: List.replicate 15 0⟩ 2 [1, 0] (by decide) (by decide)
    revert hback
    decide
  · intro h
    have hmisfit := h (List.replicate 7 0) 0 1 [(⟨1⟩, [1, 2, 3])] (by decide)
    revert hmisfit
    decide

end OpenServo.Build
