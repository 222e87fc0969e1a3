import OpenServo.Protocol.Parse

/-!
# The payload grammars

Every payload parser accepts exactly one byte string for each value it can
return.  `Accepts parse encode Wf` states this once; the parsers below are each
shown to satisfy it for their own encoding, wherever the ring seam cuts the
view they read.
-/

namespace OpenServo

@[simp]
theorem length_u16ToLe (n : ℕ) : (u16ToLe n).length = 2 := rfl

theorem u16ToLe_u16FromLe (lo hi : Byte) : u16ToLe (u16FromLe lo hi) = [lo, hi] := by
  have hlo := lo.toNat_lt
  have hdiv : (lo.toNat + 256 * hi.toNat) / 256 = hi.toNat := by omega
  have hmod : UInt8.ofNat (lo.toNat + 256 * hi.toNat) = lo := by
    apply UInt8.toNat_inj.mp
    rw [UInt8.toNat_ofNat']
    omega
  simp only [u16ToLe, u16FromLe, hdiv, hmod, UInt8.ofNat_toNat]

theorem u16FromLe_ofNat {n : ℕ} (h : n < 65536) :
    u16FromLe (UInt8.ofNat n) (UInt8.ofNat (n / 256)) = n := by
  simp only [u16FromLe, UInt8.toNat_ofNat']
  omega

/-- Two bytes spell a `u16` in one way. -/
theorem u16FromLe_eq_iff {lo hi : Byte} {n : ℕ} :
    u16FromLe lo hi = n ↔ n < 65536 ∧ [lo, hi] = u16ToLe n := by
  constructor
  · rintro rfl
    exact ⟨u16FromLe_lt lo hi, (u16ToLe_u16FromLe lo hi).symm⟩
  · rintro ⟨hlt, heq⟩
    simp only [u16ToLe, List.cons.injEq, and_true] at heq
    rw [heq.1, heq.2, u16FromLe_ofNat hlt]

/-- The parser returns `value` on exactly the views that spell it. -/
def Accepts {α : Type} (parse : FrameBytes → Option α) (encode : α → List Byte)
    (Wf : α → Prop) : Prop :=
  ∀ (view : FrameBytes) (value : α), parse view = some value ↔ Wf value ∧ view.bytes = encode value

/-- Views of the same bytes parse alike. -/
theorem Accepts.congr {α : Type} {parse : FrameBytes → Option α} {encode : α → List Byte}
    {Wf : α → Prop} (h : Accepts parse encode Wf) {view whole : FrameBytes}
    (hbytes : view.bytes = whole.bytes) : parse view = parse whole := by
  apply Option.ext
  intro value
  rw [h view value, h whole value, hbytes]

/-! ## Reading a view through its bytes -/

/-- The rest of a view after `k` bytes. -/
theorem FrameBytes.sub_rest {view : FrameBytes} {left right : List Byte}
    (hbytes : view.bytes = left ++ right) :
    ∃ rest, view.sub left.length (view.len - left.length) = some rest ∧ rest.bytes = right := by
  have hlen := view.length_bytes
  rw [hbytes, List.length_append] at hlen
  obtain ⟨rest, hsub, hrest⟩ :=
    view.exists_sub (show left.length + (view.len - left.length) ≤ view.len by omega)
  refine ⟨rest, hsub, ?_⟩
  rw [hrest, hbytes, List.drop_left, List.take_of_length_le]
  omega

theorem FrameBytes.sub_middle {view : FrameBytes} {left middle right : List Byte}
    (hbytes : view.bytes = left ++ (middle ++ right)) :
    ∃ out, view.sub left.length middle.length = some out ∧ out.bytes = middle := by
  have hlen := view.length_bytes
  rw [hbytes, List.length_append, List.length_append] at hlen
  obtain ⟨out, hsub, hout⟩ :=
    view.exists_sub (show left.length + middle.length ≤ view.len by omega)
  refine ⟨out, hsub, ?_⟩
  rw [hout, hbytes, List.drop_left, List.take_left]

/-! ## Plain requests -/

theorem ReadReq.accepts :
    Accepts ReadReq.parse (fun r => u16ToLe r.addr ++ u16ToLe r.count)
      (fun r => r.addr < 65536 ∧ r.count < 65536) := by
  intro view r
  have hlength := view.length_bytes
  simp only [ReadReq.parse, FrameBytes.u16LeAt_eq]
  rcases hb : view.bytes with _ | ⟨a0, _ | ⟨a1, _ | ⟨c0, _ | ⟨c1, _ | ⟨b, l⟩⟩⟩⟩⟩
  all_goals rw [hb] at hlength
  all_goals simp only [List.length_cons, List.length_nil] at hlength
  case cons.cons.cons.cons.nil =>
    obtain ⟨addr, count⟩ := r
    have haddr := @u16FromLe_eq_iff a0 a1 addr
    have hcount := @u16FromLe_eq_iff c0 c1 count
    simp only [u16ToLe, List.cons.injEq, and_true] at haddr hcount
    simp only [← hlength, FrameBytes.leAt, u16ToLe]
    simp [haddr, hcount]
    tauto
  all_goals
    simp only [← hlength, u16ToLe]
    simp

theorem ProfileReq.accepts :
    Accepts ProfileReq.parse (fun r => [r.slot]) (fun _ => True) := by
  intro view r
  have hlength := view.length_bytes
  simp only [ProfileReq.parse, FrameBytes.u8At_eq]
  rcases hb : view.bytes with _ | ⟨slot, _ | ⟨b, l⟩⟩
  all_goals rw [hb] at hlength
  all_goals simp only [List.length_cons, List.length_nil] at hlength
  all_goals
    obtain ⟨want⟩ := r
    simp [← hlength]

/-- The address and the data of a WRITE. -/
def WriteReq.contents (w : WriteReq) : ℕ × List Byte := (w.addr, w.data.bytes)

theorem WriteReq.accepts :
    Accepts (fun view => (WriteReq.parse view).map WriteReq.contents)
      (fun w => u16ToLe w.1 ++ w.2) (fun w => w.1 < 65536) := by
  intro view w
  obtain ⟨addr, data⟩ := w
  have hlength := view.length_bytes
  simp only [WriteReq.parse, FrameBytes.u16LeAt_eq, checkedSub]
  rcases hb : view.bytes with _ | ⟨a0, _ | ⟨a1, rest⟩⟩
  case cons.cons =>
    obtain ⟨out, hsub, hout⟩ := FrameBytes.sub_rest (show view.bytes = [a0, a1] ++ rest from hb)
    have haddr := @u16FromLe_eq_iff a0 a1 addr
    rw [hb] at hlength
    simp only [List.length_cons, List.length_nil] at hlength hsub
    simp only [u16ToLe, List.cons.injEq, and_true] at haddr
    have hle : 2 ≤ view.len := by omega
    simp [FrameBytes.leAt, hle, hsub, WriteReq.contents, hout, haddr, u16ToLe, and_assoc]
  all_goals
    simp only [FrameBytes.leAt, u16ToLe]
    simp

/-! ## Management requests -/

/-- The arguments of a MGMT payload that carries the sub-operation `op`. -/
def MgmtReq.parseOp {α : Type} (op : MgmtOp) (parse : FrameBytes → Option α)
    (view : FrameBytes) : Option α :=
  (MgmtReq.parse view).bind fun m => if m.op = op then parse m.args else none

def MgmtReq.contents (m : MgmtReq) : MgmtOp × List Byte := (m.op, m.args.bytes)

theorem MgmtReq.parse_cons {view : FrameBytes} {b : Byte} {args : List Byte}
    (hb : view.bytes = b :: args) :
    ∃ rest : FrameBytes, rest.bytes = args ∧
      MgmtReq.parse view = (MgmtOp.fromByte b).map fun op => ⟨op, rest⟩ := by
  obtain ⟨rest, hsub, hrest⟩ := FrameBytes.sub_rest (show view.bytes = [b] ++ args from hb)
  have hlength := view.length_bytes
  rw [hb, List.length_cons] at hlength
  have hle : 1 ≤ view.len := by omega
  refine ⟨rest, hrest, ?_⟩
  simp only [List.length_cons, List.length_nil, Nat.zero_add] at hsub
  cases hop : MgmtOp.fromByte b with
  | none => simp [MgmtReq.parse, FrameBytes.u8At_eq, hb, hop]
  | some op => simp [MgmtReq.parse, FrameBytes.u8At_eq, hb, hop, checkedSub, hle, hsub]

theorem MgmtReq.parse_nil {view : FrameBytes} (hb : view.bytes = []) :
    MgmtReq.parse view = none := by
  simp [MgmtReq.parse, FrameBytes.u8At_eq, hb]

theorem MgmtReq.accepts :
    Accepts (fun view => (MgmtReq.parse view).map MgmtReq.contents)
      (fun m => m.1.toByte :: m.2) (fun _ => True) := by
  intro view m
  obtain ⟨op, args⟩ := m
  cases hb : view.bytes with
  | nil => simp [MgmtReq.parse_nil hb]
  | cons b bytes =>
      obtain ⟨rest, rfl, hparse⟩ := MgmtReq.parse_cons hb
      simp only [hparse, Option.map_map, Option.map_eq_some_iff, Function.comp_apply,
        MgmtReq.contents, Prod.mk.injEq, List.cons.injEq, true_and]
      constructor
      · rintro ⟨found, hop, rfl, rfl⟩
        exact ⟨MgmtOp.fromByte_eq_some.mp hop, rfl⟩
      · rintro ⟨rfl, rfl⟩
        exact ⟨op, MgmtOp.fromByte_eq_some.mpr rfl, rfl, rfl⟩

/-- A sub-operation's payload is its byte and its arguments. -/
theorem Accepts.parseOp {α : Type} {parse : FrameBytes → Option α} {encode : α → List Byte}
    {Wf : α → Prop} (h : Accepts parse encode Wf) (op : MgmtOp) :
    Accepts (MgmtReq.parseOp op parse) (fun value => op.toByte :: encode value) Wf := by
  intro view value
  cases hb : view.bytes with
  | nil => simp [MgmtReq.parseOp, MgmtReq.parse_nil hb]
  | cons b args =>
      obtain ⟨rest, rfl, hparse⟩ := MgmtReq.parse_cons hb
      simp only [MgmtReq.parseOp, hparse, List.cons.injEq]
      constructor
      · intro hsome
        obtain ⟨m, hm, hvalue⟩ := Option.bind_eq_some_iff.mp hsome
        obtain ⟨found, hfound, rfl⟩ := Option.map_eq_some_iff.mp hm
        split at hvalue
        · rename_i hop
          obtain rfl : found = op := hop
          obtain ⟨hwf, hbytes⟩ := (h rest value).mp hvalue
          exact ⟨hwf, MgmtOp.fromByte_eq_some.mp hfound, hbytes⟩
        · cases hvalue
      · rintro ⟨hwf, rfl, hbytes⟩
        rw [MgmtOp.fromByte_eq_some.mpr rfl, Option.map_some, Option.bind_some, if_pos rfl]
        exact (h rest value).mpr ⟨hwf, hbytes⟩

/-- The bytes a prefix of `prefixLen` bits takes on the wire. -/
def EnumReq.prefixBytes (prefixLen : Byte) : ℕ := (prefixLen.toNat + 7) / 8

/-- A prefix as the parser leaves it: UID-sized, zero past the wire bytes. -/
structure EnumReq.Wf (e : EnumReq) : Prop where
  bits : e.prefixLen ≤ EnumReq.maxPrefixBits
  size : e.pre.length = uidLen
  unused : e.pre.drop (EnumReq.prefixBytes e.prefixLen) =
    List.replicate (uidLen - EnumReq.prefixBytes e.prefixLen) 0

def EnumReq.encode (e : EnumReq) : List Byte :=
  e.prefixLen :: e.pre.take (EnumReq.prefixBytes e.prefixLen)

theorem EnumReq.prefixBytes_le {prefixLen : Byte} (h : prefixLen ≤ EnumReq.maxPrefixBits) :
    EnumReq.prefixBytes prefixLen ≤ uidLen := by
  have hnat : prefixLen.toNat ≤ 128 := UInt8.le_iff_toNat_le.mp h
  simp only [EnumReq.prefixBytes, uidLen]
  omega

theorem EnumReq.parse_eq {args : FrameBytes} {prefixLen : Byte} {pre : List Byte}
    (hb : args.bytes = prefixLen :: pre) :
    EnumReq.parse args =
      if prefixLen ≤ EnumReq.maxPrefixBits ∧ pre.length = EnumReq.prefixBytes prefixLen then
        some ⟨prefixLen, pre ++ List.replicate (uidLen - pre.length) 0⟩
      else none := by
  have hlength := args.length_bytes
  rw [hb, List.length_cons] at hlength
  simp only [EnumReq.parse, FrameBytes.u8At_eq, hb]
  by_cases hbits : prefixLen ≤ EnumReq.maxPrefixBits
  · by_cases hlen : pre.length = EnumReq.prefixBytes prefixLen
    · obtain ⟨view, hsub, hpre⟩ := FrameBytes.sub_middle
        (show args.bytes = [prefixLen] ++ (pre ++ []) by rw [hb, List.append_nil]; rfl)
      have hcopy := FrameBytes.copyInto_of_len_eq
        (show (List.replicate pre.length 0).length = view.len by
          rw [List.length_replicate, ← FrameBytes.length_bytes, hpre])
      simp only [EnumReq.prefixBytes] at hlen
      simp only [List.length_cons, List.length_nil, Nat.zero_add, hlen] at hsub hcopy
      have hargs : args.len = 1 + (prefixLen.toNat + 7) / 8 := by omega
      simp [hbits, UInt8.not_lt.mpr hbits, EnumReq.prefixBytes, hlen, hargs, hsub, hcopy, hpre]
    · have hargs : args.len ≠ 1 + (prefixLen.toNat + 7) / 8 := by
        simp only [EnumReq.prefixBytes] at hlen
        omega
      simp [hbits, hlen, hargs]
  · simp [hbits, UInt8.not_le.mp hbits]

theorem EnumReq.accepts : Accepts EnumReq.parse EnumReq.encode EnumReq.Wf := by
  intro args e
  obtain ⟨wantLen, want⟩ := e
  cases hb : args.bytes with
  | nil => simp [EnumReq.parse, FrameBytes.u8At_eq, hb, EnumReq.encode]
  | cons prefixLen pre =>
      rw [EnumReq.parse_eq hb]
      simp only [EnumReq.encode, List.cons.injEq]
      constructor
      · intro h
        split at h
        · rename_i hok
          obtain ⟨hbits, hlen⟩ := hok
          obtain ⟨rfl, rfl⟩ := EnumReq.mk.inj (Option.some.inj h)
          have hle := EnumReq.prefixBytes_le hbits
          refine ⟨⟨hbits, ?_, ?_⟩, rfl, ?_⟩
          · simp only [List.length_append, List.length_replicate]
            omega
          · rw [← hlen, List.drop_left]
          · rw [← hlen, List.take_left]
        · cases h
      · rintro ⟨⟨hbits, hsize, hunused⟩, rfl, rfl⟩
        have hle := EnumReq.prefixBytes_le hbits
        have hlen : (want.take (EnumReq.prefixBytes prefixLen)).length =
            EnumReq.prefixBytes prefixLen := by
          rw [List.length_take, hsize]
          exact Nat.min_eq_left hle
        rw [if_pos ⟨hbits, hlen⟩, hlen, ← hunused, List.take_append_drop]

theorem AssignReq.accepts :
    Accepts AssignReq.parse (fun a => a.uid ++ [a.newId]) (fun a => a.uid.length = uidLen) := by
  intro args a
  obtain ⟨uid, newId⟩ := a
  have hlength := args.length_bytes
  simp only [AssignReq.parse, FrameBytes.u8At_eq]
  constructor
  · intro h
    split at h
    · cases h
    · rename_i hlen
      rw [ne_eq, not_not] at hlen
      have hlast : uidLen < args.bytes.length := by omega
      have hsplit : args.bytes = [] ++ (args.bytes.take uidLen ++ args.bytes.drop uidLen) := by
        rw [List.nil_append, List.take_append_drop]
      obtain ⟨view, hsub, hview⟩ := FrameBytes.sub_middle hsplit
      have htake : (args.bytes.take uidLen).length = uidLen := by
        rw [List.length_take]
        omega
      have hcopy := FrameBytes.copyInto_of_len_eq
        (show (List.replicate uidLen 0).length = view.len by
          rw [List.length_replicate, ← FrameBytes.length_bytes, hview, htake])
      rw [htake, List.length_nil] at hsub
      simp only [hsub, hcopy, hview, Option.bind_eq_bind, Option.bind_some, Option.pure_def,
        List.getElem?_eq_getElem hlast] at h
      obtain ⟨rfl, rfl⟩ := AssignReq.mk.inj (Option.some.inj h)
      refine ⟨htake, ?_⟩
      rw [List.take_append_getElem, List.take_of_length_le (by omega)]
  · rintro ⟨hsize, hb⟩
    have hlen : args.len = uidLen + 1 := by
      rw [← hlength, hb, List.length_append, hsize]
      rfl
    obtain ⟨view, hsub, hview⟩ := FrameBytes.sub_middle
      (show args.bytes = [] ++ (uid ++ [newId]) from hb)
    have hcopy := FrameBytes.copyInto_of_len_eq
      (show (List.replicate uidLen 0).length = view.len by
        rw [List.length_replicate, ← FrameBytes.length_bytes, hview, hsize])
    rw [hsize, List.length_nil] at hsub
    have hlast : args.bytes[uidLen]? = some newId := by
      rw [hb, ← hsize, List.getElem?_concat_length]
    simp only [hlen, ne_eq, not_true_eq_false, if_false, hsub, hcopy, hview, hlast,
      Option.bind_eq_bind, Option.bind_some, Option.pure_def]

theorem CalReq.accepts :
    Accepts CalReq.parse (fun c => u16ToLe c.gapUs ++ [c.gaps])
      (fun c => c.gapUs < 65536 ∧ c.gapUs ≠ 0 ∧ c.gaps ≠ 0) := by
  intro args c
  obtain ⟨gapUs, gaps⟩ := c
  have hlength := args.length_bytes
  simp only [CalReq.parse, FrameBytes.u8At_eq, FrameBytes.u16LeAt_eq]
  rcases hb : args.bytes with _ | ⟨g0, _ | ⟨g1, _ | ⟨g, _ | ⟨b, l⟩⟩⟩⟩
  all_goals rw [hb] at hlength
  all_goals simp only [List.length_cons, List.length_nil] at hlength
  case cons.cons.cons.nil =>
    have hgap := @u16FromLe_eq_iff g0 g1 gapUs
    simp only [u16ToLe, List.cons.injEq, and_true] at hgap
    simp only [← hlength, FrameBytes.leAt, u16ToLe]
    simp
    constructor
    · rintro ⟨⟨hpos, hgaps⟩, rfl, rfl⟩
      obtain ⟨hlt, h0, h1⟩ := hgap.mp rfl
      exact ⟨⟨hlt, hpos, hgaps⟩, h0, h1, rfl⟩
    · rintro ⟨⟨hlt, hpos, hgaps⟩, h0, h1, rfl⟩
      obtain rfl := hgap.mpr ⟨hlt, h0, h1⟩
      exact ⟨⟨hpos, hgaps⟩, rfl, rfl⟩
  all_goals
    simp only [← hlength, u16ToLe]
    simp

/-! ## Id lists -/

theorem map_byte_mk (bytes : List Byte) : (bytes.map Id.mk).map Id.byte = bytes := by
  rw [List.map_map]
  exact List.map_id bytes

theorem map_mk_byte (ids : List Id) : (ids.map Id.byte).map Id.mk = ids := by
  rw [List.map_map]
  exact List.map_id ids

theorem map_mk_eq_iff {bytes : List Byte} {ids : List Id} :
    bytes.map Id.mk = ids ↔ bytes = ids.map Id.byte := by
  constructor
  · rintro rfl
    exact (map_byte_mk bytes).symm
  · rintro rfl
    exact map_mk_byte ids

/-- The span and the listed ids of a uniform GREAD. -/
def GreadUniform.contents (g : GreadUniform) : ℕ × ℕ × List Id :=
  (g.addr, g.count, g.ids.bytes.map Id.mk)

theorem GreadUniform.accepts :
    Accepts (fun view => (GreadUniform.parse view).map GreadUniform.contents)
      (fun g => u16ToLe g.1 ++ u16ToLe g.2.1 ++ g.2.2.map Id.byte)
      (fun g => g.1 < 65536 ∧ g.2.1 < 65536 ∧ g.2.2 ≠ []) := by
  intro view g
  obtain ⟨addr, count, ids⟩ := g
  have hlength := view.length_bytes
  simp only [GreadUniform.parse, FrameBytes.u16LeAt_eq, checkedSub, FrameBytes.isEmpty_eq]
  rcases hb : view.bytes with _ | ⟨a0, _ | ⟨a1, _ | ⟨c0, _ | ⟨c1, rest⟩⟩⟩⟩
  case cons.cons.cons.cons =>
    obtain ⟨out, hsub, rfl⟩ := FrameBytes.sub_rest
      (show view.bytes = [a0, a1, c0, c1] ++ rest from hb)
    have haddr := @u16FromLe_eq_iff a0 a1 addr
    have hcount := @u16FromLe_eq_iff c0 c1 count
    rw [hb] at hlength
    simp only [List.length_cons, List.length_nil] at hlength hsub
    simp only [u16ToLe, List.cons.injEq, and_true] at haddr hcount
    have hle : 4 ≤ view.len := by omega
    simp only [FrameBytes.leAt, u16ToLe]
    by_cases hempty : out.bytes = []
    · simp [hle, hsub, hempty]
      rintro - - hids - - - - rfl
      exact hids rfl
    · simp [hle, hsub, hempty, GreadUniform.contents, haddr, hcount, map_mk_eq_iff]
      constructor
      · rintro ⟨⟨halt, h0, h1⟩, ⟨hclt, h2, h3⟩, hids⟩
        refine ⟨⟨halt, hclt, ?_⟩, h0, h1, h2, h3, hids⟩
        rintro rfl
        exact hempty hids
      · rintro ⟨⟨halt, hclt, -⟩, h0, h1, h2, h3, hids⟩
        exact ⟨⟨halt, h0, h1⟩, ⟨hclt, h2, h3⟩, hids⟩
  all_goals
    simp only [FrameBytes.leAt, u16ToLe]
    simp

def GreadProfileUniform.contents (g : GreadProfileUniform) : Byte × List Id :=
  (g.slot, g.ids.bytes.map Id.mk)

theorem GreadProfileUniform.accepts :
    Accepts (fun view => (GreadProfileUniform.parse view).map GreadProfileUniform.contents)
      (fun g => g.1 :: g.2.map Id.byte) (fun g => g.2 ≠ []) := by
  intro view g
  obtain ⟨slot, ids⟩ := g
  have hlength := view.length_bytes
  simp only [GreadProfileUniform.parse, FrameBytes.u8At_eq, checkedSub, FrameBytes.isEmpty_eq]
  cases hb : view.bytes with
  | nil => simp
  | cons b rest =>
      obtain ⟨out, hsub, rfl⟩ := FrameBytes.sub_rest (show view.bytes = [b] ++ rest from hb)
      rw [hb] at hlength
      simp only [List.length_cons, List.length_nil] at hlength hsub
      have hle : 1 ≤ view.len := by omega
      by_cases hempty : out.bytes = []
      · simp [hle, hsub, hempty]
        rintro hids - rfl
        exact hids rfl
      · simp [hle, hsub, hempty, GreadProfileUniform.contents, map_mk_eq_iff]
        rintro - hids rfl
        exact hempty hids

/-! ## Records -/

/-- One step of an entry iterator takes exactly one spelled record. -/
def Cuts {σ α : Type} (next : FrameBytes → Option (σ × FrameBytes)) (contents : σ → α)
    (encode : α → List Byte) (Wf : α → Prop) : Prop :=
  ∀ (view : FrameBytes) (item : α) (right : List Byte),
    (next view).map (Prod.map contents FrameBytes.bytes) = some (item, right) ↔
      Wf item ∧ view.bytes = encode item ++ right

section Records

variable {σ α : Type} {next : FrameBytes → Option (σ × FrameBytes)} {contents : σ → α}
  {encode : α → List Byte} {Wf : α → Prop}

/-- The iterator over spelled records yields them in order. -/
theorem Cuts.unfold (hcuts : Cuts next contents encode Wf) (hpos : ∀ item, encode item ≠ [])
    {items : List α} {view : FrameBytes} {fuel : ℕ} (hwf : ∀ item ∈ items, Wf item)
    (hbytes : view.bytes = items.flatMap encode) (hfuel : view.len ≤ fuel) :
    (OpenServo.unfold next fuel view).map contents = items := by
  induction items generalizing view fuel with
  | nil =>
      cases fuel with
      | zero => rfl
      | succ fuel =>
          cases hnext : next view with
          | none => simp [OpenServo.unfold, hnext]
          | some found =>
              have hcut := (hcuts view (contents found.1) found.2.bytes).mp (by rw [hnext]; rfl)
              rw [hbytes, List.flatMap_nil, eq_comm, List.append_eq_nil_iff] at hcut
              exact absurd hcut.2.1 (hpos _)
  | cons item items ih =>
      rw [List.flatMap_cons] at hbytes
      have hitem : Wf item := hwf item (by simp)
      obtain ⟨⟨taken, rest⟩, hnext, htaken⟩ :=
        Option.map_eq_some_iff.mp ((hcuts view item (items.flatMap encode)).mpr ⟨hitem, hbytes⟩)
      obtain ⟨rfl, hrest⟩ := Prod.mk.inj htaken
      have hlen := view.length_bytes
      have hlen' := rest.length_bytes
      have hsize := List.length_pos_iff.mpr (hpos (contents taken))
      rw [hrest] at hlen'
      rw [hbytes, List.length_append] at hlen
      cases fuel with
      | zero => omega
      | succ fuel =>
          simp only [OpenServo.unfold, hnext, List.map_cons, List.cons.injEq, true_and]
          exact ih (fun i hi => hwf i (List.mem_cons_of_mem _ hi)) hrest (by omega)

/-- Records of one width spell every whole number of widths. -/
theorem Cuts.exists_of_dvd (hcuts : Cuts next contents encode Wf) {k : ℕ} (hk : 0 < k)
    (hsome : ∀ view : FrameBytes, k ≤ view.len → (next view).isSome)
    (hwidth : ∀ item, Wf item → (encode item).length = k) {view : FrameBytes}
    (hdvd : k ∣ view.len) :
    ∃ items : List α, (∀ item ∈ items, Wf item) ∧ view.bytes = items.flatMap encode := by
  induction hn : view.len using Nat.strong_induction_on generalizing view with
  | _ n ih =>
      subst hn
      have hlen := view.length_bytes
      by_cases hge : k ≤ view.len
      · obtain ⟨⟨taken, rest⟩, hnext⟩ := Option.isSome_iff_exists.mp (hsome view hge)
        obtain ⟨hitem, hbytes⟩ := (hcuts view (contents taken) rest.bytes).mp (by rw [hnext]; rfl)
        have hrest : view.len = k + rest.len := by
          rw [← hlen, hbytes, List.length_append, hwidth _ hitem, rest.length_bytes]
        have hdvd' : k ∣ rest.len := by
          rw [hrest] at hdvd
          exact (Nat.dvd_add_right (dvd_refl k)).mp hdvd
        obtain ⟨items, hwf, hitems⟩ := ih rest.len (by omega) hdvd' rfl
        refine ⟨contents taken :: items, ?_, ?_⟩
        · intro item hmem
          obtain rfl | hmem := List.mem_cons.mp hmem
          · exact hitem
          · exact hwf item hmem
        · rw [hbytes, hitems, List.flatMap_cons]
      · have hzero := Nat.eq_zero_of_dvd_of_lt hdvd (by omega)
        refine ⟨[], by simp, ?_⟩
        rw [List.flatMap_nil]
        exact List.eq_nil_of_length_eq_zero (by omega)

theorem length_flatMap_of_width {k : ℕ} (hwidth : ∀ item, Wf item → (encode item).length = k)
    {items : List α} (hwf : ∀ item ∈ items, Wf item) :
    (items.flatMap encode).length = k * items.length := by
  induction items with
  | nil => simp
  | cons item items ih =>
      rw [List.flatMap_cons, List.length_append, hwidth item (hwf item (by simp)),
        ih (fun i hi => hwf i (List.mem_cons_of_mem _ hi)), List.length_cons, Nat.mul_succ]
      omega

/-- A fixed-width entry list: nonempty and a whole number of records. -/
theorem Cuts.accepts_grid (hcuts : Cuts next contents encode Wf) {k : ℕ} (hk : 0 < k)
    (hsome : ∀ view : FrameBytes, k ≤ view.len → (next view).isSome)
    (hpos : ∀ item, encode item ≠ [])
    (hwidth : ∀ item, Wf item → (encode item).length = k) :
    Accepts
      (fun view => if view.isEmpty || view.len % k != 0 then none
        else some ((OpenServo.unfold next view.len view).map contents))
      (fun items => items.flatMap encode) (fun items => items ≠ [] ∧ ∀ item ∈ items, Wf item) := by
  intro view items
  beta_reduce
  have hlen := view.length_bytes
  constructor
  · intro h
    split at h
    · cases h
    · rename_i hok
      simp only [FrameBytes.isEmpty_eq, Bool.or_eq_true, List.isEmpty_iff, bne_iff_ne, ne_eq,
        not_or, not_not] at hok
      obtain ⟨hne, hmod⟩ := hok
      obtain ⟨found, hwf, hbytes⟩ := hcuts.exists_of_dvd hk hsome hwidth
        (Nat.dvd_of_mod_eq_zero hmod)
      rw [hcuts.unfold hpos hwf hbytes le_rfl] at h
      obtain rfl := Option.some.inj h
      refine ⟨⟨?_, hwf⟩, hbytes⟩
      rintro rfl
      exact hne hbytes
  · rintro ⟨⟨hne, hwf⟩, hbytes⟩
    have hlength := length_flatMap_of_width hwidth hwf
    have hcond : (view.isEmpty || view.len % k != 0) = false := by
      rw [← hbytes, hlen] at hlength
      have hcount := List.length_pos_iff.mpr hne
      have hview : 0 < view.len := by
        rw [hlength]
        exact Nat.mul_pos hk hcount
      have hbytes : view.bytes ≠ [] := List.length_pos_iff.mp (by omega)
      simp [FrameBytes.isEmpty_eq, hbytes, hlength]
    rw [hcond, if_neg (by simp), hcuts.unfold hpos hwf hbytes le_rfl]

end Records

/-! ## Group reads by target -/

namespace GreadTarget

def encode (t : GreadTarget) : List Byte := t.id.byte :: (u16ToLe t.addr ++ u16ToLe t.count)

def Wf (t : GreadTarget) : Prop := t.addr < 65536 ∧ t.count < 65536

theorem next_cons {view : FrameBytes} {id a0 a1 c0 c1 : Byte} {right : List Byte}
    (hb : view.bytes = id :: a0 :: a1 :: c0 :: c1 :: right) :
    ∃ rest : FrameBytes, rest.bytes = right ∧
      GreadTarget.next view = some (⟨⟨id⟩, u16FromLe a0 a1, u16FromLe c0 c1⟩, rest) := by
  obtain ⟨rest, hsub, hrest⟩ := FrameBytes.sub_rest
    (show view.bytes = [id, a0, a1, c0, c1] ++ right from hb)
  have hlength := view.length_bytes
  rw [hb] at hlength
  simp only [List.length_cons, List.length_nil] at hlength hsub
  refine ⟨rest, hrest, ?_⟩
  rw [GreadTarget.next, if_neg (by omega)]
  simp [FrameBytes.u8At_eq, FrameBytes.u16LeAt_eq, hb, FrameBytes.leAt, hsub]

theorem cuts : Cuts GreadTarget.next (fun t => t) GreadTarget.encode GreadTarget.Wf := by
  intro view t right
  obtain ⟨⟨want⟩, addr, count⟩ := t
  have hlength := view.length_bytes
  rcases hb : view.bytes with _ | ⟨b, _ | ⟨a0, _ | ⟨a1, _ | ⟨c0, _ | ⟨c1, l⟩⟩⟩⟩⟩
  case cons.cons.cons.cons.cons =>
    obtain ⟨rest, rfl, hnext⟩ := next_cons hb
    have haddr := @u16FromLe_eq_iff a0 a1 addr
    have hcount := @u16FromLe_eq_iff c0 c1 count
    simp only [u16ToLe, List.cons.injEq, and_true] at haddr hcount
    simp [hnext, encode, Wf, haddr, hcount, u16ToLe]
    tauto
  all_goals
    rw [hb] at hlength
    simp only [List.length_cons, List.length_nil] at hlength
    rw [GreadTarget.next, if_pos (by omega)]
    simp [encode, u16ToLe]

theorem next_isSome {view : FrameBytes} (h : 5 ≤ view.len) : (GreadTarget.next view).isSome := by
  rw [← view.length_bytes] at h
  rcases hb : view.bytes with _ | ⟨b, _ | ⟨a0, _ | ⟨a1, _ | ⟨c0, _ | ⟨c1, l⟩⟩⟩⟩⟩
  case cons.cons.cons.cons.cons =>
    obtain ⟨rest, -, hnext⟩ := next_cons hb
    rw [hnext]
    rfl
  all_goals
    rw [hb] at h
    simp at h

end GreadTarget

theorem GreadPerTarget.accepts :
    Accepts (fun view => (GreadPerTarget.parse view).map GreadPerTarget.iter)
      (fun targets => targets.flatMap GreadTarget.encode)
      (fun targets => targets ≠ [] ∧ ∀ t ∈ targets, t.Wf) := by
  have hgrid := GreadTarget.cuts.accepts_grid (show 0 < 5 by decide)
    (fun view => GreadTarget.next_isSome) (by simp [GreadTarget.encode])
    (by simp [GreadTarget.encode])
  intro view targets
  rw [← hgrid view targets]
  simp only [GreadPerTarget.parse, List.map_id']
  split <;> rfl

namespace GreadProfileTarget

def encode (t : GreadProfileTarget) : List Byte := [t.id.byte, t.slot]

theorem next_cons {view : FrameBytes} {id slot : Byte} {right : List Byte}
    (hb : view.bytes = id :: slot :: right) :
    ∃ rest : FrameBytes, rest.bytes = right ∧
      GreadProfileTarget.next view = some (⟨⟨id⟩, slot⟩, rest) := by
  obtain ⟨rest, hsub, hrest⟩ := FrameBytes.sub_rest (show view.bytes = [id, slot] ++ right from hb)
  have hlength := view.length_bytes
  rw [hb] at hlength
  simp only [List.length_cons, List.length_nil] at hlength hsub
  refine ⟨rest, hrest, ?_⟩
  rw [GreadProfileTarget.next, if_neg (by omega)]
  simp [FrameBytes.u8At_eq, hb, hsub]

theorem cuts :
    Cuts GreadProfileTarget.next (fun t => t) GreadProfileTarget.encode (fun _ => True) := by
  intro view t right
  obtain ⟨⟨want⟩, slot⟩ := t
  have hlength := view.length_bytes
  rcases hb : view.bytes with _ | ⟨b, _ | ⟨s, l⟩⟩
  case cons.cons =>
    obtain ⟨rest, rfl, hnext⟩ := next_cons hb
    simp [hnext, encode, and_assoc]
  all_goals
    rw [hb] at hlength
    simp only [List.length_cons, List.length_nil] at hlength
    rw [GreadProfileTarget.next, if_pos (by omega)]
    simp [encode]

theorem next_isSome {view : FrameBytes} (h : 2 ≤ view.len) :
    (GreadProfileTarget.next view).isSome := by
  rw [← view.length_bytes] at h
  rcases hb : view.bytes with _ | ⟨b, _ | ⟨s, l⟩⟩
  case cons.cons =>
    obtain ⟨rest, -, hnext⟩ := next_cons hb
    rw [hnext]
    rfl
  all_goals
    rw [hb] at h
    simp at h

end GreadProfileTarget

theorem GreadProfilePerTarget.accepts :
    Accepts (fun view => (GreadProfilePerTarget.parse view).map GreadProfilePerTarget.iter)
      (fun targets => targets.flatMap GreadProfileTarget.encode)
      (fun targets => targets ≠ []) := by
  have hgrid := GreadProfileTarget.cuts.accepts_grid (show 0 < 2 by decide)
    (fun view => GreadProfileTarget.next_isSome) (by simp [GreadProfileTarget.encode])
    (by simp [GreadProfileTarget.encode])
  intro view targets
  have hiff := hgrid view targets
  simp only [implies_true, and_true, List.map_id'] at hiff
  rw [← hiff]
  simp only [GreadProfilePerTarget.parse]
  split <;> rfl

/-! ## Group writes -/

theorem strideWalk_eq {stride fuel : ℕ} (hstride : 0 < stride) {rem : ℕ} (hfuel : rem ≤ fuel) :
    strideWalk stride fuel rem = rem % stride := by
  induction fuel generalizing rem with
  | zero =>
      obtain rfl : rem = 0 := by omega
      simp [strideWalk]
  | succ fuel ih =>
      simp only [strideWalk]
      split
      · rename_i hge
        rw [ih (by omega), ← Nat.mod_eq_sub_mod hge]
      · rename_i hlt
        rw [Nat.mod_eq_of_lt (by omega)]

namespace GwriteUniform

/-- One `[id(1) data(count)]` entry. -/
def encodeEntry (entry : Id × List Byte) : List Byte := entry.1.byte :: entry.2

def entryContents (entry : Id × FrameBytes) : Id × List Byte := (entry.1, entry.2.bytes)

theorem next_of_le {view : FrameBytes} {count : ℕ} (h : 1 + count ≤ view.len) :
    ∃ (b : Byte) (left right : List Byte) (data rest : FrameBytes), left.length = count ∧
      view.bytes = b :: (left ++ right) ∧ data.bytes = left ∧ rest.bytes = right ∧
      GwriteUniform.next (1 + count) view = some ((⟨b⟩, data), rest) := by
  have hlength := view.length_bytes
  cases hb : view.bytes with
  | nil =>
      rw [hb, List.length_nil] at hlength
      omega
  | cons b l =>
      rw [hb, List.length_cons] at hlength
      have hleft : (l.take count).length = count := by
        rw [List.length_take]
        omega
      obtain ⟨data, hdata, hbytes⟩ := FrameBytes.sub_middle
        (show view.bytes = [b] ++ (l.take count ++ l.drop count) by
          rw [hb, List.take_append_drop]; rfl)
      obtain ⟨rest, hrest, hright⟩ := FrameBytes.sub_rest
        (show view.bytes = (b :: l.take count) ++ l.drop count by
          rw [hb, List.cons_append, List.take_append_drop])
      rw [hleft] at hdata
      rw [List.length_cons, hleft, Nat.add_comm count 1] at hrest
      refine ⟨b, l.take count, l.drop count, data, rest, hleft, ?_, hbytes, hright, ?_⟩
      · rw [List.take_append_drop]
      · rw [GwriteUniform.next, if_neg (by omega)]
        have hstride : 1 + count - 1 = count := by omega
        simp only [List.length_cons, List.length_nil, Nat.zero_add] at hdata
        simp [FrameBytes.u8At_eq, hb, hstride, hdata, hrest]

theorem next_isSome {view : FrameBytes} {count : ℕ} (h : 1 + count ≤ view.len) :
    (GwriteUniform.next (1 + count) view).isSome := by
  obtain ⟨b, left, right, data, rest, -, -, -, -, hnext⟩ := next_of_le h
  rw [hnext]
  rfl

theorem cuts (count : ℕ) :
    Cuts (GwriteUniform.next (1 + count)) entryContents encodeEntry
      (fun entry => entry.2.length = count) := by
  intro view entry right
  obtain ⟨⟨want⟩, data⟩ := entry
  have hlength := view.length_bytes
  by_cases h : 1 + count ≤ view.len
  · obtain ⟨b, left, l, view', rest, rfl, hb, hdata, rfl, hnext⟩ := next_of_le h
    simp only [hnext, Option.map_some, Prod.map_apply, entryContents, hdata, encodeEntry, hb,
      Option.some.injEq, Prod.mk.injEq, Id.mk.injEq, List.cons_append, List.cons.injEq]
    constructor
    · rintro ⟨⟨rfl, rfl⟩, rfl⟩
      exact ⟨rfl, rfl, rfl⟩
    · rintro ⟨hlen, rfl, heq⟩
      obtain ⟨rfl, rfl⟩ := List.append_inj heq hlen.symm
      exact ⟨⟨rfl, rfl⟩, rfl⟩
  · rw [GwriteUniform.next, if_pos (by omega)]
    simp only [Option.map_none, reduceCtorEq, false_iff, encodeEntry]
    rintro ⟨rfl, hb⟩
    rw [hb] at hlength
    simp only [List.cons_append, List.length_cons, List.length_append] at hlength
    omega

/-- The head of a uniform GWRITE and its entries. -/
def contents (g : GwriteUniform) : ℕ × Byte × List (Id × List Byte) :=
  (g.addr, g.count, g.iter.map entryContents)

def encode (g : ℕ × Byte × List (Id × List Byte)) : List Byte :=
  u16ToLe g.1 ++ g.2.1 :: g.2.2.flatMap encodeEntry

structure Wf (g : ℕ × Byte × List (Id × List Byte)) : Prop where
  addr : g.1 < 65536
  count : g.2.1 ≠ 0
  entries : g.2.2 ≠ []
  fits : ∀ entry ∈ g.2.2, entry.2.length = g.2.1.toNat

theorem parse_cons {view : FrameBytes} {a0 a1 count : Byte} {entries : List Byte}
    (hb : view.bytes = a0 :: a1 :: count :: entries) :
    ∃ rest : FrameBytes, rest.bytes = entries ∧
      GwriteUniform.parse view =
        if count = 0 ∨ (rest.isEmpty || rest.len % (1 + count.toNat) != 0) = true then none
        else some ⟨u16FromLe a0 a1, count, rest⟩ := by
  obtain ⟨rest, hsub, hrest⟩ := FrameBytes.sub_rest
    (show view.bytes = [a0, a1, count] ++ entries from hb)
  have hlength := view.length_bytes
  rw [hb] at hlength
  simp only [List.length_cons, List.length_nil] at hlength hsub
  have hle : 3 ≤ view.len := by omega
  have hwalk := strideWalk_eq (show 0 < 1 + count.toNat by omega) (le_refl rest.len)
  have hempty : rest.isEmpty = (rest.len == 0) := by
    rw [FrameBytes.isEmpty_eq, ← rest.length_bytes]
    cases rest.bytes <;> rfl
  refine ⟨rest, hrest, ?_⟩
  simp only [GwriteUniform.parse, FrameBytes.u16LeAt_eq, FrameBytes.u8At_eq, checkedSub, hb,
    FrameBytes.leAt, List.getElem?_cons_zero, List.getElem?_cons_succ, Option.bind_eq_bind,
    Option.bind_some, Option.pure_def, if_pos hle, hsub, hwalk, hempty]
  by_cases hcount : count = 0
  · simp [hcount]
  · by_cases hlen : rest.len = 0
    · simp [hlen, hcount]
    · by_cases hmod : rest.len % (1 + count.toNat) = 0 <;> simp [hcount, hlen, hmod]

theorem accepts :
    Accepts (fun view => (GwriteUniform.parse view).map contents) encode Wf := by
  intro view g
  obtain ⟨addr, want, items⟩ := g
  rcases hb : view.bytes with _ | ⟨a0, _ | ⟨a1, _ | ⟨count, entries⟩⟩⟩
  case cons.cons.cons =>
    obtain ⟨rest, rfl, hparse⟩ := parse_cons hb
    have haddr := @u16FromLe_eq_iff a0 a1 addr
    simp only [u16ToLe, List.cons.injEq, and_true] at haddr
    have hgrid := (cuts count.toNat).accepts_grid (show 0 < 1 + count.toNat by omega)
      (fun view => next_isSome)
      (by simp [encodeEntry])
      (by intro entry hfit; rw [encodeEntry, List.length_cons, hfit, Nat.add_comm]) rest items
    beta_reduce at hgrid
    simp only [hparse, encode, u16ToLe, List.cons_append, List.nil_append, List.cons.injEq]
    by_cases hcount : count = 0
    · rw [if_pos (.inl hcount)]
      constructor
      · intro h
        cases h
      · rintro ⟨hwf, -, -, rfl, -⟩
        exact absurd hcount hwf.count
    · simp only [hcount, false_or]
      constructor
      · intro h
        split at h
        · cases h
        · rename_i hok
          obtain ⟨rfl, rfl, rfl⟩ := by simpa [contents] using h
          obtain ⟨⟨hne, hfit⟩, hbytes⟩ := hgrid.mp (if_neg hok)
          obtain ⟨hlt, h0, h1⟩ := haddr.mp rfl
          exact ⟨⟨hlt, hcount, hne, hfit⟩, h0, h1, rfl, hbytes⟩
      · rintro ⟨⟨hlt, -, hne, hfit⟩, h0, h1, rfl, hbytes⟩
        have hsome := hgrid.mpr ⟨⟨hne, hfit⟩, hbytes⟩
        split at hsome
        · cases hsome
        · rename_i hok
          rw [if_neg hok, Option.map_some, contents, haddr.mpr ⟨hlt, h0, h1⟩]
          exact congrArg (fun l => some (addr, count, l)) (Option.some.inj hsome)
  all_goals
    simp [GwriteUniform.parse, FrameBytes.u16LeAt_eq, FrameBytes.u8At_eq, hb, FrameBytes.leAt,
      encode, u16ToLe]

end GwriteUniform

namespace GwriteTarget

/-- The id, address and data of an entry. -/
def contents (t : GwriteTarget) : Id × ℕ × List Byte := (t.id, t.addr, t.data.bytes)

/-- One `[id(1) addr(2) count(1) data(count)]` entry. -/
def encode (t : Id × ℕ × List Byte) : List Byte :=
  t.1.byte :: (u16ToLe t.2.1 ++ UInt8.ofNat t.2.2.length :: t.2.2)

def Wf (t : Id × ℕ × List Byte) : Prop := t.2.1 < 65536 ∧ t.2.2.length < 256

theorem next_cons {view : FrameBytes} {id a0 a1 count : Byte} {left right : List Byte}
    (hb : view.bytes = id :: a0 :: a1 :: count :: (left ++ right))
    (hleft : left.length = count.toNat) :
    ∃ data rest : FrameBytes, data.bytes = left ∧ rest.bytes = right ∧
      GwriteTarget.next view = some (⟨⟨id⟩, u16FromLe a0 a1, data⟩, rest) := by
  obtain ⟨data, hdata, hbytes⟩ := FrameBytes.sub_middle
    (show view.bytes = [id, a0, a1, count] ++ (left ++ right) from hb)
  obtain ⟨rest, hrest, hright⟩ := FrameBytes.sub_rest
    (show view.bytes = (id :: a0 :: a1 :: count :: left) ++ right from hb)
  have hlength := view.length_bytes
  rw [hb] at hlength
  have hsize : (id :: a0 :: a1 :: count :: left).length = 4 + count.toNat := by
    simp only [List.length_cons]
    omega
  rw [hsize] at hrest
  simp only [List.length_cons, List.length_nil, List.length_append] at hlength hdata
  rw [hleft] at hdata
  refine ⟨data, rest, hbytes, hright, ?_⟩
  rw [GwriteTarget.next, if_neg (by omega)]
  simp [FrameBytes.u8At_eq, FrameBytes.u16LeAt_eq, hb, FrameBytes.leAt, hdata, hrest]

theorem next_short {view : FrameBytes} {id a0 a1 count : Byte} {right : List Byte}
    (hb : view.bytes = id :: a0 :: a1 :: count :: right) (hlt : right.length < count.toNat) :
    GwriteTarget.next view = none := by
  have hlength := view.length_bytes
  rw [hb] at hlength
  simp only [List.length_cons] at hlength
  have hnone : view.sub 4 count.toNat = none := FrameBytes.sub_eq_none.mpr (by omega)
  rw [GwriteTarget.next, if_neg (by omega)]
  simp [FrameBytes.u8At_eq, FrameBytes.u16LeAt_eq, hb, FrameBytes.leAt, hnone]

theorem cuts : Cuts GwriteTarget.next contents encode Wf := by
  intro view t right
  obtain ⟨⟨want⟩, addr, data⟩ := t
  have hlength := view.length_bytes
  rcases hb : view.bytes with _ | ⟨b, _ | ⟨a0, _ | ⟨a1, _ | ⟨count, l⟩⟩⟩⟩
  case cons.cons.cons.cons =>
    have haddr := @u16FromLe_eq_iff a0 a1 addr
    simp only [u16ToLe, List.cons.injEq, and_true] at haddr
    have hcount := count.toNat_lt
    by_cases hle : count.toNat ≤ l.length
    · have hleft : (l.take count.toNat).length = count.toNat := by
        rw [List.length_take]
        omega
      rw [← List.take_append_drop count.toNat l] at hb
      obtain ⟨view', rest, hview, hrest, hnext⟩ := next_cons hb hleft
      simp only [hnext, Option.map_some, Prod.map_apply, contents, hview, hrest, Option.some.injEq,
        Prod.mk.injEq, Id.mk.injEq, encode, Wf, u16ToLe, List.cons_append, List.nil_append,
        List.cons.injEq, haddr]
      constructor
      · rintro ⟨⟨rfl, ⟨hlt, h0, h1⟩, rfl⟩, rfl⟩
        refine ⟨⟨hlt, by omega⟩, rfl, h0, h1, ?_, (List.take_append_drop _ _).symm⟩
        rw [hleft, UInt8.ofNat_toNat]
      · rintro ⟨⟨hlt, hsize⟩, rfl, h0, h1, rfl, rfl⟩
        have hnat : (UInt8.ofNat data.length).toNat = data.length := by
          rw [UInt8.toNat_ofNat', Nat.mod_eq_of_lt hsize]
        rw [hnat, List.take_left, List.drop_left]
        exact ⟨⟨rfl, ⟨hlt, h0, h1⟩, rfl⟩, rfl⟩
    · rw [next_short hb (by omega)]
      simp only [Option.map_none, reduceCtorEq, false_iff, encode, Wf, u16ToLe, List.cons_append,
        List.nil_append, List.cons.injEq]
      rintro ⟨⟨-, hsize⟩, -, -, -, rfl, rfl⟩
      rw [UInt8.toNat_ofNat', Nat.mod_eq_of_lt hsize, List.length_append] at hle
      omega
  all_goals
    rw [hb] at hlength
    simp only [List.length_cons, List.length_nil] at hlength
    rw [GwriteTarget.next, if_pos (by omega)]
    simp [encode, u16ToLe]

end GwriteTarget

namespace GwritePerTarget

/-- The structural walk skips the entries the iterator takes. -/
theorem walk_succ (fuel : ℕ) {view : FrameBytes} (hne : view.bytes ≠ []) :
    walk (fuel + 1) view = (GwriteTarget.next view).bind fun t => walk fuel t.2 := by
  have hlength := view.length_bytes
  have hempty : view.isEmpty = false := by
    rw [FrameBytes.isEmpty_eq, List.isEmpty_eq_false_iff]
    exact hne
  simp only [walk, hempty, Bool.false_eq_true, if_false, FrameBytes.u8At_eq, checkedSub]
  rcases hb : view.bytes with _ | ⟨b, _ | ⟨a0, _ | ⟨a1, _ | ⟨count, l⟩⟩⟩⟩
  case nil => exact absurd hb hne
  case cons.cons.cons.cons =>
    rw [hb] at hlength
    simp only [List.length_cons] at hlength
    by_cases hle : count.toNat ≤ l.length
    · have hskip : 4 + count.toNat ≤ view.len := by omega
      obtain ⟨data, hdata, -⟩ := view.exists_sub hskip
      obtain ⟨rest, hrest, -⟩ := view.exists_sub
        (show 4 + count.toNat + (view.len - (4 + count.toNat)) ≤ view.len by omega)
      rw [GwriteTarget.next, if_neg (by omega)]
      simp [FrameBytes.u8At_eq, FrameBytes.u16LeAt_eq, hb, FrameBytes.leAt, hskip, hdata, hrest]
    · have hskip : ¬ 4 + count.toNat ≤ view.len := by omega
      rw [GwriteTarget.next_short hb (by omega)]
      simp [hskip]
  all_goals
    rw [hb] at hlength
    simp only [List.length_cons, List.length_nil] at hlength
    rw [GwriteTarget.next, if_pos (by omega)]
    simp

theorem walk_nil (fuel : ℕ) {view : FrameBytes} (hnil : view.bytes = []) :
    walk fuel view = some () := by
  cases fuel <;> simp [walk, FrameBytes.isEmpty_eq, hnil]

/-- The structural walk succeeds on exactly the spelled entry lists. -/
theorem walk_eq_some_iff {fuel : ℕ} {view : FrameBytes} (hfuel : view.len ≤ fuel) :
    walk fuel view = some () ↔ ∃ items : List (Id × ℕ × List Byte),
      (∀ t ∈ items, GwriteTarget.Wf t) ∧ view.bytes = items.flatMap GwriteTarget.encode := by
  induction fuel generalizing view with
  | zero =>
      have hnil : view.bytes = [] :=
        List.eq_nil_of_length_eq_zero (by rw [view.length_bytes]; omega)
      exact iff_of_true (walk_nil 0 hnil) ⟨[], fun t ht => absurd ht List.not_mem_nil, hnil⟩
  | succ fuel ih =>
      by_cases hnil : view.bytes = []
      · exact iff_of_true (walk_nil _ hnil) ⟨[], fun t ht => absurd ht List.not_mem_nil, hnil⟩
      · rw [walk_succ fuel hnil, Option.bind_eq_some_iff]
        have hshort : ∀ {taken rest}, GwriteTarget.next view = some (taken, rest) →
            GwriteTarget.Wf taken.contents ∧
              view.bytes = GwriteTarget.encode taken.contents ++ rest.bytes ∧ rest.len ≤ fuel := by
          intro taken rest hnext
          obtain ⟨hitem, hbytes⟩ := (GwriteTarget.cuts view _ rest.bytes).mp (by rw [hnext]; rfl)
          have hlen := congrArg List.length hbytes
          have hsize : 0 < (GwriteTarget.encode taken.contents).length := by
            simp [GwriteTarget.encode]
          rw [view.length_bytes, List.length_append, rest.length_bytes] at hlen
          exact ⟨hitem, hbytes, by omega⟩
        constructor
        · rintro ⟨⟨taken, rest⟩, hnext, hwalk⟩
          obtain ⟨hitem, hbytes, hlen⟩ := hshort hnext
          obtain ⟨items, hwf, hitems⟩ := (ih hlen).mp hwalk
          refine ⟨taken.contents :: items, List.forall_mem_cons.mpr ⟨hitem, hwf⟩, ?_⟩
          rw [hbytes, hitems, List.flatMap_cons]
        · rintro ⟨items, hwf, hitems⟩
          cases items with
          | nil => exact absurd hitems hnil
          | cons item items =>
              obtain ⟨hitem, hwf⟩ := List.forall_mem_cons.mp hwf
              obtain ⟨⟨taken, rest⟩, hnext, htaken⟩ := Option.map_eq_some_iff.mp
                ((GwriteTarget.cuts view item _).mpr ⟨hitem, hitems⟩)
              obtain ⟨-, -, hlen⟩ := hshort hnext
              have hrest : rest.bytes = items.flatMap GwriteTarget.encode :=
                congrArg Prod.snd htaken
              exact ⟨(taken, rest), hnext, (ih hlen).mpr ⟨items, hwf, hrest⟩⟩

theorem accepts :
    Accepts (fun view => (GwritePerTarget.parse view).map fun g => g.iter.map GwriteTarget.contents)
      (fun items => items.flatMap GwriteTarget.encode)
      (fun items => items ≠ [] ∧ ∀ t ∈ items, GwriteTarget.Wf t) := by
  intro view items
  beta_reduce
  have hiter : ∀ {found : List (Id × ℕ × List Byte)}, (∀ t ∈ found, GwriteTarget.Wf t) →
      view.bytes = found.flatMap GwriteTarget.encode →
      (unfold GwriteTarget.next view.len view).map GwriteTarget.contents = found := by
    intro found hwf hbytes
    exact GwriteTarget.cuts.unfold (by simp [GwriteTarget.encode]) hwf hbytes le_rfl
  simp only [GwritePerTarget.parse, FrameBytes.isEmpty_eq]
  constructor
  · intro h
    split at h
    · cases h
    · rename_i hne
      obtain ⟨g, hg, hitems⟩ := Option.map_eq_some_iff.mp h
      obtain ⟨u, hwalk, hu⟩ := Option.bind_eq_some_iff.mp hg
      obtain rfl := Option.some.inj hu
      obtain ⟨found, hwf, hbytes⟩ := (walk_eq_some_iff le_rfl).mp hwalk
      obtain rfl : found = items := (hiter hwf hbytes).symm.trans hitems
      refine ⟨⟨?_, hwf⟩, hbytes⟩
      rintro rfl
      exact hne (by rw [hbytes]; rfl)
  · rintro ⟨⟨hne, hwf⟩, hbytes⟩
    have hwalk := (walk_eq_some_iff (le_refl view.len)).mpr ⟨items, hwf, hbytes⟩
    have hview : view.bytes.isEmpty = false := by
      rw [hbytes]
      cases items with
      | nil => exact absurd rfl hne
      | cons item items => rfl
    simp only [hview, Bool.false_eq_true, if_false, hwalk, Option.bind_eq_bind, Option.bind_some,
      Option.pure_def, Option.map_some, Option.some.injEq]
    exact hiter hwf hbytes

end GwritePerTarget

end OpenServo
