import OpenServo.Bus.Decode
import OpenServo.Protocol.Grammar
import OpenServo.Core.Tiling
import OpenServo.Protocol.Crc

/-!
# What a payload says

The reading of an instruction payload as a plain byte string: the request of a
plain operation, the records of a group operation.  Decoding a ring view is
this reading of its bytes, wherever the seam falls, so statements about
decoding are statements about byte strings.
-/

namespace OpenServo

open Tiling

/-! ## Views and iterators -/

/-- A view's iterator run on its bytes. -/
theorem map_unfold {σ τ α ε : Type} {next : σ → Option (α × σ)} {next' : τ → Option (ε × τ)}
    {f : α → ε} {g : σ → τ} (hnext : ∀ rest, (next rest).map (Prod.map f g) = next' (g rest))
    (fuel : ℕ) (rest : σ) : (unfold next fuel rest).map f = unfold next' fuel (g rest) := by
  induction fuel generalizing rest with
  | zero => rfl
  | succ fuel ih =>
      simp only [unfold, ← hnext]
      cases next rest with
      | none => rfl
      | some cut => simp [ih]

theorem unfold_of_tiles {β α : Type} {next : List β → Option (α × List β)}
    (hnext : Cutter next) {l : List β} {items : List α} (h : Tiles next l items) {fuel : ℕ}
    (hfuel : l.length ≤ fuel) : unfold next fuel l = items := by
  induction h generalizing fuel with
  | nil =>
      cases fuel with
      | zero => rfl
      | succ fuel => simp [unfold, hnext.nil]
  | @cons l rest item items hcut _ ih =>
      have hshort := hnext.shorter hcut
      cases fuel with
      | zero => omega
      | succ fuel => simp only [unfold, hcut, ih (show rest.length ≤ fuel by omega)]

theorem records_eq_unfold {β α : Type} {next : List β → Option (α × List β)}
    (hnext : Cutter next) {l : List β} (h : ∃ items, Tiles next l items) :
    records next l = unfold next l.length l := by
  obtain ⟨items, hitems⟩ := h
  rw [records_of_tiles hnext hitems, unfold_of_tiles hnext hitems le_rfl]

theorem findEnum_map {α ε : Type} (f : α → ε) (p : ε → Bool) (items : List α) :
    findEnum p (items.map f) = (findEnum (fun item => p (f item)) items).map (Prod.map id f) := by
  simp only [findEnum, List.zipIdx_map, List.find?_map, Option.map_map]
  congr 1

theorem find_zipIdx_fst {α : Type} (p : α → Bool) (items : List α) (start : ℕ) :
    ((items.zipIdx start).find? fun x => p x.1).map Prod.snd =
      (items.findIdx? p).map (· + start) := by
  induction items generalizing start with
  | nil => rfl
  | cons item items ih =>
      rw [List.zipIdx_cons, List.find?_cons, List.findIdx?_cons]
      cases hp : p item with
      | true => simp
      | false =>
          simp only [Bool.false_eq_true, if_false, ih, Option.map_map]
          congr 1
          funext i
          simp only [Function.comp_apply]
          omega

theorem findEnum_fst {α : Type} (p : α → Bool) (items : List α) :
    (findEnum p items).map Prod.fst = (items.findIdx? p).map (· % 256) := by
  have h := find_zipIdx_fst p items 0
  simp only [Nat.add_zero, Option.map_id_fun', id_eq] at h
  rw [← h, findEnum, Option.map_map, Option.map_map]
  rfl

theorem findEnum_eq_none {α : Type} {p : α → Bool} {items : List α} :
    findEnum p items = none ↔ ∀ item ∈ items, ¬ p item := by
  have hfst : (findEnum p items).map Prod.fst = none ↔ findEnum p items = none :=
    Option.map_eq_none_iff
  rw [← hfst, findEnum_fst]
  simp

theorem findEnum_append {α : Type} {p : α → Bool} {left : List α} (right : List α)
    (h : findEnum p left ≠ none) : findEnum p (left ++ right) = findEnum p left := by
  simp only [findEnum, ne_eq, Option.map_eq_none_iff] at h
  simp only [findEnum, List.zipIdx_append, List.find?_append]
  rw [Option.or_of_isSome (Option.isSome_iff_ne_none.mpr h)]

/-! ## The records of a group payload -/

/-- A record names its servo and what is asked of it. -/
abbrev Record := Byte × Request (List Byte)

/-- One id of a uniform list: every listed servo is asked the same. -/
def listed (req : Request (List Byte)) : List Byte → Option (Record × List Byte)
  | id :: rest => some ((id, req), rest)
  | [] => none

/-- One per-target GREAD record. -/
def readTarget : List Byte → Option (Record × List Byte)
  | id :: a0 :: a1 :: c0 :: c1 :: rest =>
      some ((id, .read (u16FromLe a0 a1) (u16FromLe c0 c1)), rest)
  | _ => none

/-- One per-target profile GREAD record. -/
def profileTarget : List Byte → Option (Record × List Byte)
  | id :: slot :: rest => some ((id, .readProfile slot), rest)
  | _ => none

/-- One uniform GWRITE record. -/
def writeData (addr count : ℕ) (hold : Bool) : List Byte → Option (Record × List Byte)
  | id :: rest =>
      if count ≤ rest.length then
        some ((id, .write addr (rest.take count) hold), rest.drop count)
      else none
  | [] => none

/-- One per-target GWRITE record. -/
def writeTarget (hold : Bool) : List Byte → Option (Record × List Byte)
  | id :: a0 :: a1 :: count :: rest =>
      if count.toNat ≤ rest.length then
        some ((id, .write (u16FromLe a0 a1) (rest.take count.toNat) hold),
          rest.drop count.toNat)
      else none
  | _ => none

/-- The records of a GREAD payload. -/
def readRecords (inst : Inst) (payload : List Byte) : List Record :=
  match inst.profile, inst.perTarget, payload with
  | false, true, payload => records readTarget payload
  | false, false, a0 :: a1 :: c0 :: c1 :: ids =>
      records (listed (.read (u16FromLe a0 a1) (u16FromLe c0 c1))) ids
  | true, true, payload => records profileTarget payload
  | true, false, slot :: ids => records (listed (.readProfile slot)) ids
  | _, _, _ => []

/-- The records of a GWRITE payload. -/
def writeRecords (inst : Inst) (payload : List Byte) : List Record :=
  match inst.perTarget, payload with
  | true, payload => records (writeTarget inst.hold) payload
  | false, a0 :: a1 :: count :: entries =>
      if count = 0 then []
      else records (writeData (u16FromLe a0 a1) count.toNat inst.hold) entries
  | _, _ => []

namespace Bus

/-- The first record for `own` answers a GREAD, its position is the slot. -/
def answerRead (own : Byte) (items : List Record) : Decoded (List Byte) :=
  match findEnum (fun item => item.1 == own) items with
  | some (slot, item) => .own item.2 ⟨true⟩ slot
  | none => .skip

/-- The first record for `own` is the write, applied silently. -/
def answerWrite (own : Byte) (items : List Record) : Decoded (List Byte) :=
  match items.find? fun item => item.1 == own with
  | some item => .own item.2 ⟨false⟩ 0
  | none => .skip

end Bus

/-! ## The cutters -/

theorem listed_cutter (req : Request (List Byte)) : Cutter (listed req) where
  nil := rfl
  shorter := by
    intro l item rest h
    cases l with
    | nil => cases h
    | cons b l => cases h; simp
  append := by
    intro l item rest right h
    cases l with
    | nil => cases h
    | cons b l => cases h; rfl

theorem readTarget_cutter : Cutter readTarget where
  nil := rfl
  shorter := by
    intro l item rest h
    simp only [readTarget] at h
    split at h
    · cases h; simp; omega
    · cases h
  append := by
    intro l item rest right h
    simp only [readTarget] at h
    split at h
    · cases h; rfl
    · cases h

theorem profileTarget_cutter : Cutter profileTarget where
  nil := rfl
  shorter := by
    intro l item rest h
    simp only [profileTarget] at h
    split at h
    · cases h; simp
    · cases h
  append := by
    intro l item rest right h
    simp only [profileTarget] at h
    split at h
    · cases h; rfl
    · cases h

theorem writeData_cutter (addr count : ℕ) (hold : Bool) : Cutter (writeData addr count hold) where
  nil := rfl
  shorter := by
    intro l item rest h
    simp only [writeData] at h
    split at h
    · split at h
      · cases h; simp
      · cases h
    · cases h
  append := by
    intro l item rest right h
    simp only [writeData] at h
    split at h
    · split at h
      · rename_i hle
        cases h
        simp only [List.cons_append, writeData, List.length_append]
        rw [if_pos (by omega), List.take_append_of_le_length hle,
          List.drop_append_of_le_length hle]
      · cases h
    · cases h

theorem writeTarget_cutter (hold : Bool) : Cutter (writeTarget hold) where
  nil := rfl
  shorter := by
    intro l item rest h
    simp only [writeTarget] at h
    split at h
    · split at h
      · cases h; simp; omega
      · cases h
    · cases h
  append := by
    intro l item rest right h
    simp only [writeTarget] at h
    split at h
    · split at h
      · rename_i hle
        cases h
        simp only [List.cons_append, writeTarget, List.length_append]
        rw [if_pos (by omega), List.take_append_of_le_length hle,
          List.drop_append_of_le_length hle]
      · cases h
    · cases h

/-- The fixed widths of the cutters. -/
theorem readTarget_width (l : List Byte) :
    (readTarget l = none ∧ l.length < 5) ∨
      (5 ≤ l.length ∧ ∃ item, readTarget l = some (item, l.drop 5)) := by
  rcases l with _ | ⟨_, _ | ⟨_, _ | ⟨_, _ | ⟨_, _ | ⟨_, l⟩⟩⟩⟩⟩ <;> simp [readTarget]

theorem profileTarget_width (l : List Byte) :
    (profileTarget l = none ∧ l.length < 2) ∨
      (2 ≤ l.length ∧ ∃ item, profileTarget l = some (item, l.drop 2)) := by
  rcases l with _ | ⟨_, _ | ⟨_, l⟩⟩ <;> simp [profileTarget]

theorem writeData_width (addr count : ℕ) (hold : Bool) (l : List Byte) :
    (writeData addr count hold l = none ∧ l.length < count + 1) ∨
      (count + 1 ≤ l.length ∧ ∃ item,
        writeData addr count hold l = some (item, l.drop (count + 1))) := by
  cases l with
  | nil => simp [writeData]
  | cons b l =>
      by_cases h : count ≤ l.length
      · simp [writeData, h]
      · simp [writeData, h]
        omega

theorem tiles_listed (req : Request (List Byte)) (ids : List Byte) :
    Tiles (listed req) ids (ids.map fun id => (id, req)) := by
  induction ids with
  | nil => exact .nil
  | cons id ids ih => exact .cons rfl ih

@[simp]
theorem records_listed (req : Request (List Byte)) (ids : List Byte) :
    records (listed req) ids = ids.map fun id => (id, req) :=
  records_of_tiles (listed_cutter req) (tiles_listed req ids)

/-! ## Decoding a view reads its bytes -/

namespace Bus

theorem next_readTarget (rest : FrameBytes) :
    (GreadTarget.next rest).map
      (Prod.map (fun t => (t.id.byte, Request.read t.addr t.count)) FrameBytes.bytes) =
        readTarget rest.bytes := by
  by_cases hlen : rest.len < 5
  · obtain ⟨hnone, -⟩ | ⟨hge, -⟩ := readTarget_width rest.bytes
    · rw [hnone]
      simp [GreadTarget.next, hlen]
    · rw [FrameBytes.length_bytes] at hge
      omega
  · obtain ⟨out, hsub, hout⟩ := rest.exists_sub (show 5 + (rest.len - 5) ≤ rest.len by omega)
    have hlength := rest.length_bytes
    simp only [GreadTarget.next, if_neg hlen, FrameBytes.u8At_eq, FrameBytes.u16LeAt_eq, hsub]
    rcases hb : rest.bytes with _ | ⟨_, _ | ⟨_, _ | ⟨_, _ | ⟨_, _ | ⟨_, l⟩⟩⟩⟩⟩
    all_goals rw [hb] at hlength hout
    all_goals simp at hlength
    all_goals first | omega | skip
    simp [FrameBytes.leAt, readTarget, hout, ← hlength]

theorem next_profileTarget (rest : FrameBytes) :
    (GreadProfileTarget.next rest).map
      (Prod.map (fun t => (t.id.byte, Request.readProfile t.slot)) FrameBytes.bytes) =
        profileTarget rest.bytes := by
  by_cases hlen : rest.len < 2
  · obtain ⟨hnone, -⟩ | ⟨hge, -⟩ := profileTarget_width rest.bytes
    · rw [hnone]
      simp [GreadProfileTarget.next, hlen]
    · rw [FrameBytes.length_bytes] at hge
      omega
  · obtain ⟨out, hsub, hout⟩ := rest.exists_sub (show 2 + (rest.len - 2) ≤ rest.len by omega)
    have hlength := rest.length_bytes
    simp only [GreadProfileTarget.next, if_neg hlen, FrameBytes.u8At_eq, hsub]
    rcases hb : rest.bytes with _ | ⟨_, _ | ⟨_, l⟩⟩
    all_goals rw [hb] at hlength hout
    all_goals simp at hlength
    all_goals first | omega | skip
    simp [profileTarget, hout, ← hlength]

theorem next_writeData (addr count : ℕ) (hold : Bool) (rest : FrameBytes) :
    (GwriteUniform.next (1 + count) rest).map
      (Prod.map (fun t => (t.1.byte, Request.write addr t.2.bytes hold)) FrameBytes.bytes) =
        writeData addr count hold rest.bytes := by
  by_cases hlen : rest.len < 1 + count
  · obtain ⟨hnone, -⟩ | ⟨hge, -⟩ := writeData_width addr count hold rest.bytes
    · rw [hnone]
      simp [GwriteUniform.next, hlen]
    · rw [FrameBytes.length_bytes] at hge
      omega
  · obtain ⟨data, hdata, hbytes⟩ :=
      rest.exists_sub (show 1 + (1 + count - 1) ≤ rest.len by omega)
    obtain ⟨out, hsub, hout⟩ :=
      rest.exists_sub (show 1 + count + (rest.len - (1 + count)) ≤ rest.len by omega)
    have hlength := rest.length_bytes
    simp only [GwriteUniform.next, if_neg hlen, FrameBytes.u8At_eq, hdata, hsub]
    cases hb : rest.bytes with
    | nil =>
        rw [hb] at hlength
        simp at hlength
        omega
    | cons id l =>
        rw [hb] at hlength hout hbytes
        simp only [List.length_cons] at hlength
        rw [Nat.add_comm 1 count] at hout
        have hle : count ≤ l.length := by omega
        have hrest : (l.drop count).take (rest.len - (count + 1)) = l.drop count :=
          List.take_of_length_le (by simp; omega)
        simp [writeData, hout, hbytes, hle, hrest]

theorem next_writeTarget (hold : Bool) (rest : FrameBytes) :
    (GwriteTarget.next rest).map
      (Prod.map (fun t => (t.id.byte, Request.write t.addr t.data.bytes hold))
        FrameBytes.bytes) =
        writeTarget hold rest.bytes := by
  have hlength := rest.length_bytes
  simp only [GwriteTarget.next, FrameBytes.u8At_eq, FrameBytes.u16LeAt_eq]
  rcases hb : rest.bytes with _ | ⟨id, _ | ⟨a0, _ | ⟨a1, _ | ⟨count, l⟩⟩⟩⟩
  all_goals rw [hb] at hlength
  all_goals simp only [List.length_cons, List.length_nil] at hlength
  case cons.cons.cons.cons =>
    rw [if_neg (by omega)]
    by_cases hle : count.toNat ≤ l.length
    · obtain ⟨data, hdata, hbytes⟩ := rest.exists_sub (show 4 + count.toNat ≤ rest.len by omega)
      obtain ⟨out, hsub, hout⟩ := rest.exists_sub
        (show 4 + count.toNat + (rest.len - (4 + count.toNat)) ≤ rest.len by omega)
      rw [hb] at hbytes hout
      rw [Nat.add_comm 4 count.toNat] at hout
      have hrest : (l.drop count.toNat).take (rest.len - (count.toNat + 4)) =
          l.drop count.toNat := List.take_of_length_le (by simp; omega)
      simp [FrameBytes.leAt, writeTarget, hdata, hsub, hle, hbytes, hout, hrest]
    · have hdata : rest.sub 4 count.toNat = none := FrameBytes.sub_eq_none.mpr (by omega)
      simp [FrameBytes.leAt, writeTarget, hdata, hle]
  all_goals
    rw [if_pos (by omega)]
    rfl

theorem answerRead_map {α : Type} (f : α → Record) (own : Byte) (items : List α) :
    answerRead own (items.map f) =
      match findEnum (fun t => (f t).1 == own) items with
      | some (slot, t) => .own (f t).2 ⟨true⟩ slot
      | none => .skip := by
  simp only [answerRead, findEnum_map]
  cases findEnum (fun t => (f t).1 == own) items <;> rfl

theorem answerWrite_map {α : Type} (f : α → Record) (own : Byte) (items : List α) :
    answerWrite own (items.map f) =
      match items.find? fun t => (f t).1 == own with
      | some t => .own (f t).2 ⟨false⟩ 0
      | none => .skip := by
  simp only [answerWrite, List.find?_map, Function.comp_def]
  cases items.find? fun t => (f t).1 == own <;> rfl

theorem beq_id (left right : Id) : (left == right) = (left.byte == right.byte) := by
  cases left with
  | mk l =>
      cases right with
      | mk r => by_cases h : l = r <;> simp [h]

/-- A uniform id list answers at the position of the first match. -/
theorem answerRead_listed (req : Request (List Byte)) (ids : FrameBytes) (own : Id) :
    answerRead own.byte (ids.bytes.map fun id => (id, req)) =
      match slotOf ids own with
      | some slot => .own req ⟨true⟩ slot
      | none => .skip := by
  have hslot := findEnum_fst (fun b => b == own.byte) ids.bytes
  rw [answerRead_map, slotOf, ← hslot]
  cases findEnum (fun b => b == own.byte) ids.bytes <;> rfl

/-- A grid of fixed-width records answers with its first record for `own`; a
ragged one answers with none. -/
theorem answerRead_grid {α : Type} {next : FrameBytes → Option (α × FrameBytes)}
    {cut : List Byte → Option (Record × List Byte)} {f : α → Record} {k : ℕ} (hk : 0 < k)
    (hcut : Cutter cut)
    (hwidth : ∀ l, (cut l = none ∧ l.length < k) ∨
      (k ≤ l.length ∧ ∃ item, cut l = some (item, l.drop k)))
    (hnext : ∀ rest, (next rest).map (Prod.map f FrameBytes.bytes) = cut rest.bytes)
    (pay : FrameBytes) (own : Byte) :
    answerRead own (records cut pay.bytes) =
      match if pay.isEmpty || pay.len % k != 0 then none
        else findEnum (fun t => (f t).1 == own) (unfold next pay.len pay) with
      | some (slot, t) => .own (f t).2 ⟨true⟩ slot
      | none => .skip := by
  have hdvd := tiles_iff_dvd hk hwidth pay.bytes
  rw [FrameBytes.length_bytes] at hdvd
  by_cases h : k ∣ pay.len
  · rw [records_eq_unfold hcut (hdvd.mpr h), FrameBytes.length_bytes, ← map_unfold hnext,
      answerRead_map]
    cases hempty : pay.isEmpty with
    | true =>
        rw [FrameBytes.len_of_isEmpty hempty]
        rfl
    | false => simp [Nat.mod_eq_zero_of_dvd h]
  · have hmod : (pay.len % k != 0) = true :=
      bne_iff_ne.mpr fun hzero => h (Nat.dvd_of_mod_eq_zero hzero)
    rw [records_of_ragged hcut (fun htiles => h (hdvd.mp htiles)), hmod, Bool.or_true, if_pos rfl]
    rfl

theorem gread_perTarget (pay : FrameBytes) (own : Id) :
    (match (GreadPerTarget.parse pay).bind (·.find own) with
      | some (slot, t) => ownRead t.addr t.count slot
      | none => .skip).map FrameBytes.bytes =
      answerRead own.byte (records readTarget pay.bytes) := by
  rw [answerRead_grid (by decide) readTarget_cutter readTarget_width next_readTarget]
  simp only [GreadPerTarget.parse, ← beq_id]
  cases (pay.isEmpty || pay.len % 5 != 0) with
  | true => rfl
  | false =>
      simp only [Bool.false_eq_true, if_false, Option.bind_some, GreadPerTarget.find]
      cases findEnum (fun t => t.id == own) (unfold GreadTarget.next pay.len pay) <;> rfl

theorem gread_profilePerTarget (pay : FrameBytes) (own : Id) :
    (match (GreadProfilePerTarget.parse pay).bind (·.find own) with
      | some (slot, t) => ownReadProfile t.slot slot
      | none => .skip).map FrameBytes.bytes =
      answerRead own.byte (records profileTarget pay.bytes) := by
  rw [answerRead_grid (by decide) profileTarget_cutter profileTarget_width next_profileTarget]
  simp only [GreadProfilePerTarget.parse, ← beq_id]
  cases (pay.isEmpty || pay.len % 2 != 0) with
  | true => rfl
  | false =>
      simp only [Bool.false_eq_true, if_false, Option.bind_some, GreadProfilePerTarget.find]
      cases findEnum (fun t => t.id == own) (unfold GreadProfileTarget.next pay.len pay) <;> rfl

theorem slotOf_of_eq_nil {ids : FrameBytes} (own : Id) (h : ids.bytes = []) :
    slotOf ids own = none := by
  simp [slotOf, h]

theorem gread_uniform (pay : FrameBytes) (own : Id) :
    (match GreadUniform.parse pay with
      | some g =>
          match slotOf g.ids own with
          | some slot => ownRead g.addr g.count slot
          | none => .skip
      | none => .skip).map FrameBytes.bytes =
      match pay.bytes with
      | a0 :: a1 :: c0 :: c1 :: ids =>
          answerRead own.byte
            (records (listed (.read (u16FromLe a0 a1) (u16FromLe c0 c1))) ids)
      | _ => .skip := by
  have hlength := pay.length_bytes
  simp only [GreadUniform.parse, FrameBytes.u16LeAt_eq, checkedSub, FrameBytes.isEmpty_eq]
  rcases hb : pay.bytes with _ | ⟨a0, _ | ⟨a1, _ | ⟨c0, _ | ⟨c1, ids⟩⟩⟩⟩
  all_goals rw [hb] at hlength
  all_goals simp only [List.length_cons, List.length_nil] at hlength
  case cons.cons.cons.cons =>
    obtain ⟨view, hview, hids⟩ := pay.exists_sub (show 4 + (pay.len - 4) ≤ pay.len by omega)
    have hids : view.bytes = ids := by
      rw [hids, hb]
      exact List.take_of_length_le (by simp; omega)
    have hle : 4 ≤ pay.len := by omega
    simp only [records_listed, ← hids, answerRead_listed]
    by_cases hempty : view.bytes = []
    · simp [FrameBytes.leAt, hle, hview, hempty, slotOf_of_eq_nil own hempty, Decoded.map]
    · simp [FrameBytes.leAt, hle, hview, hempty]
      cases slotOf view own <;> rfl
  all_goals simp [FrameBytes.leAt, Decoded.map]

theorem gread_profileUniform (pay : FrameBytes) (own : Id) :
    (match GreadProfileUniform.parse pay with
      | some g =>
          match slotOf g.ids own with
          | some slot => ownReadProfile g.slot slot
          | none => .skip
      | none => .skip).map FrameBytes.bytes =
      match pay.bytes with
      | slot :: ids => answerRead own.byte (records (listed (.readProfile slot)) ids)
      | _ => .skip := by
  have hlength := pay.length_bytes
  simp only [GreadProfileUniform.parse, FrameBytes.u8At_eq, checkedSub, FrameBytes.isEmpty_eq]
  cases hb : pay.bytes with
  | nil => simp [Decoded.map]
  | cons slot ids =>
      rw [hb, List.length_cons] at hlength
      obtain ⟨view, hview, hids⟩ := pay.exists_sub (show 1 + (pay.len - 1) ≤ pay.len by omega)
      have hids : view.bytes = ids := by
        rw [hids, hb]
        exact List.take_of_length_le (by simp; omega)
      have hle : 1 ≤ pay.len := by omega
      simp only [records_listed, ← hids, answerRead_listed]
      by_cases hempty : view.bytes = []
      · simp [hle, hview, hempty, slotOf_of_eq_nil own hempty, Decoded.map]
      · simp [hle, hview, hempty]
        cases slotOf view own <;> rfl

/-- GREAD answers with this servo's record, wherever the seam falls. -/
theorem gread_eq (inst : Inst) (pay : FrameBytes) (own : Id) :
    (gread inst pay own).map FrameBytes.bytes =
      answerRead own.byte (readRecords inst pay.bytes) := by
  simp only [gread, readRecords]
  cases inst.profile with
  | false =>
      cases inst.perTarget with
      | true => exact gread_perTarget pay own
      | false =>
          refine (gread_uniform pay own).trans ?_
          rcases pay.bytes with _ | ⟨_, _ | ⟨_, _ | ⟨_, _ | ⟨_, ids⟩⟩⟩⟩ <;> rfl
  | true =>
      cases inst.perTarget with
      | true => exact gread_profilePerTarget pay own
      | false =>
          refine (gread_profileUniform pay own).trans ?_
          cases pay.bytes <;> rfl

/-- A uniform GWRITE payload is accepted when its entries are a nonempty whole
number of strides. -/
theorem parse_gwriteUniform {pay : FrameBytes} {a0 a1 count : Byte} {entries : List Byte}
    (hb : pay.bytes = a0 :: a1 :: count :: entries) (hcount : count ≠ 0) :
    ∃ view : FrameBytes, view.bytes = entries ∧
      GwriteUniform.parse pay =
        if view.len = 0 ∨ view.len % (count.toNat + 1) ≠ 0 then none
        else some ⟨u16FromLe a0 a1, count, view⟩ := by
  have hlength := pay.length_bytes
  rw [hb] at hlength
  simp only [List.length_cons] at hlength
  obtain ⟨view, hview, hentries⟩ := pay.exists_sub (show 3 + (pay.len - 3) ≤ pay.len by omega)
  have hentries : view.bytes = entries := by
    rw [hentries, hb]
    exact List.take_of_length_le (by simp; omega)
  have hle : 3 ≤ pay.len := by omega
  have hwalk : strideWalk (1 + count.toNat) view.len view.len = view.len % (count.toNat + 1) := by
    rw [strideWalk_eq (by omega) le_rfl, Nat.add_comm]
  refine ⟨view, hentries, ?_⟩
  simp only [GwriteUniform.parse, FrameBytes.u16LeAt_eq, FrameBytes.u8At_eq, checkedSub, hb,
    FrameBytes.leAt, List.getElem?_cons_zero, List.getElem?_cons_succ, Option.bind_eq_bind,
    Option.bind_some, Option.pure_def, if_pos hle, hview, hwalk, beq_iff_eq, hcount, if_false]
  by_cases hempty : view.len = 0
  · simp [hempty]
  · by_cases hmod : view.len % (count.toNat + 1) = 0 <;> simp [hempty, hmod]

theorem gwrite_uniform (pay : FrameBytes) (own : Id) (hold : Bool) :
    (match GwriteUniform.parse pay with
      | some g =>
          match g.find own with
          | some data => ownWrite g.addr data hold
          | none => .skip
      | none => .skip).map FrameBytes.bytes =
      match pay.bytes with
      | a0 :: a1 :: count :: entries =>
          answerWrite own.byte
            (if count = 0 then []
            else records (writeData (u16FromLe a0 a1) count.toNat hold) entries)
      | _ => .skip := by
  rcases hb : pay.bytes with _ | ⟨a0, _ | ⟨a1, _ | ⟨count, entries⟩⟩⟩
  case cons.cons.cons =>
    by_cases hcount : count = 0
    · simp [GwriteUniform.parse, FrameBytes.u16LeAt_eq, FrameBytes.u8At_eq, hb, FrameBytes.leAt,
        hcount, answerWrite, Decoded.map]
    · obtain ⟨view, rfl, hparse⟩ := parse_gwriteUniform hb hcount
      have hdvd := tiles_iff_dvd (Nat.succ_pos count.toNat)
        (writeData_width (u16FromLe a0 a1) count.toNat hold) view.bytes
      have hcut := writeData_cutter (u16FromLe a0 a1) count.toNat hold
      rw [FrameBytes.length_bytes, Nat.succ_eq_add_one, Nat.dvd_iff_mod_eq_zero] at hdvd
      simp only [hparse, if_neg hcount]
      by_cases h : view.len % (count.toNat + 1) = 0
      · rw [records_eq_unfold hcut (hdvd.mpr h), FrameBytes.length_bytes,
          ← map_unfold (next_writeData _ _ _), answerWrite_map]
        by_cases hempty : view.len = 0
        · simp [hempty, unfold, Decoded.map]
        · simp only [hempty, h, ne_eq, not_true_eq_false, or_self, if_false, GwriteUniform.find,
            beq_id]
          cases List.find? (fun t => t.1.byte == own.byte)
            (unfold (GwriteUniform.next (1 + count.toNat)) view.len view) <;> rfl
      · rw [records_of_ragged hcut (fun htiles => h (hdvd.mp htiles)), if_pos (.inr h)]
        rfl
  all_goals simp [GwriteUniform.parse, FrameBytes.u16LeAt_eq, FrameBytes.u8At_eq, hb,
    FrameBytes.leAt, Decoded.map]

/-- The structural walk accepts exactly the tiled payloads. -/
theorem walk_isSome (hold : Bool) {fuel : ℕ} {rest : FrameBytes} (hfuel : rest.len ≤ fuel) :
    (GwritePerTarget.walk fuel rest).isSome = (tile (writeTarget hold) fuel rest.bytes).isSome := by
  induction fuel generalizing rest with
  | zero =>
      simp only [GwritePerTarget.walk, tile, FrameBytes.isEmpty_eq]
      cases rest.bytes.isEmpty <;> rfl
  | succ fuel ih =>
      have hlength := rest.length_bytes
      simp only [GwritePerTarget.walk, tile, FrameBytes.isEmpty_eq, FrameBytes.u8At_eq, checkedSub]
      rcases hb : rest.bytes with _ | ⟨id, _ | ⟨a0, _ | ⟨a1, _ | ⟨count, l⟩⟩⟩⟩
      all_goals rw [hb] at hlength
      all_goals simp only [List.length_cons, List.length_nil] at hlength
      case cons.cons.cons.cons =>
        by_cases hle : count.toNat ≤ l.length
        · obtain ⟨out, hsub, hout⟩ := rest.exists_sub
            (show 4 + count.toNat + (rest.len - (4 + count.toNat)) ≤ rest.len by omega)
          have hout : out.bytes = l.drop count.toNat := by
            rw [hout, hb, Nat.add_comm 4]
            exact List.take_of_length_le (by simp; omega)
          have hlen : out.len ≤ fuel := by
            rw [← FrameBytes.length_bytes, hout, List.length_drop]
            omega
          have hskip : 4 + count.toNat ≤ rest.len := by omega
          simp [writeTarget, hle, hskip, hsub, ih hlen, hout]
        · have hskip : ¬ 4 + count.toNat ≤ rest.len := by omega
          simp [writeTarget, hle, hskip]
      all_goals simp [writeTarget]

theorem gwrite_perTarget (pay : FrameBytes) (own : Id) (hold : Bool) :
    (match (GwritePerTarget.parse pay).bind (·.find own) with
      | some t => ownWrite t.addr t.data hold
      | none => .skip).map FrameBytes.bytes =
      answerWrite own.byte (records (writeTarget hold) pay.bytes) := by
  have hcut := writeTarget_cutter hold
  have hwalk := walk_isSome hold (le_refl pay.len)
  have htile : ∀ items, tile (writeTarget hold) pay.len pay.bytes = some items ↔
      Tiles (writeTarget hold) pay.bytes items :=
    fun items => tile_eq_some hcut (le_of_eq pay.length_bytes)
  simp only [GwritePerTarget.parse]
  cases hitems : tile (writeTarget hold) pay.len pay.bytes with
  | none =>
      have hragged : ¬ ∃ items, Tiles (writeTarget hold) pay.bytes items := by
        rintro ⟨items, h⟩
        rw [(htile items).mpr h] at hitems
        cases hitems
      rw [hitems, Option.isSome_none, Option.isSome_eq_false_iff, Option.isNone_iff_eq_none]
        at hwalk
      rw [records_of_ragged hcut hragged, hwalk]
      cases pay.isEmpty <;> rfl
  | some items =>
      rw [hitems, Option.isSome_some, Option.isSome_iff_exists] at hwalk
      obtain ⟨u, hwalk⟩ := hwalk
      rw [records_eq_unfold hcut ⟨items, (htile items).mp hitems⟩, FrameBytes.length_bytes,
        ← map_unfold (next_writeTarget hold), answerWrite_map, hwalk]
      cases hempty : pay.isEmpty with
      | true =>
          rw [FrameBytes.len_of_isEmpty hempty]
          rfl
      | false =>
          simp only [Bool.false_eq_true, if_false, Option.bind_eq_bind, Option.bind_some,
            Option.pure_def, GwritePerTarget.find, beq_id]
          cases List.find? (fun t => t.id.byte == own.byte)
            (unfold GwriteTarget.next pay.len pay) <;> rfl

/-- GWRITE is this servo's record, wherever the seam falls. -/
theorem gwrite_eq (inst : Inst) (pay : FrameBytes) (own : Id) :
    (gwrite inst pay own).map FrameBytes.bytes =
      answerWrite own.byte (writeRecords inst pay.bytes) := by
  simp only [gwrite, writeRecords]
  cases inst.perTarget with
  | true => exact gwrite_perTarget pay own inst.hold
  | false =>
      refine (gwrite_uniform pay own inst.hold).trans ?_
      rcases pay.bytes with _ | ⟨_, _ | ⟨_, _ | ⟨_, entries⟩⟩⟩ <;> rfl

/-! ## Plain operations -/

/-- The request of a MGMT payload. -/
def readMgmt (broadcast : Bool) : List Byte → Request (List Byte)
  | [] => .unsupported
  | b :: args =>
      match MgmtOp.fromByte b, args with
      | none, _ => .unsupported
      | some .enum, prefixLen :: pre =>
          if prefixLen ≤ EnumReq.maxPrefixBits ∧ pre.length = EnumReq.prefixBytes prefixLen then
            .enumerate prefixLen (pre ++ List.replicate (uidLen - pre.length) 0)
          else .unsupported
      | some .enum, [] => .unsupported
      | some .assign, args =>
          if args.length = uidLen + 1 then .assign (args.take uidLen) (args.getD uidLen 0)
          else .unsupported
      | some .cal, [g0, g1, gaps] =>
          if u16FromLe g0 g1 ≠ 0 ∧ gaps ≠ 0 ∧ broadcast then .calibrate (u16FromLe g0 g1) gaps
          else .unsupported
      | some .cal, _ => .unsupported
      | some op, args => .mgmt op args

/-- The request of a plain operation's payload. -/
def readPlain (op : Opcode) (inst : Inst) (broadcast : Bool) (payload : List Byte) :
    Request (List Byte) :=
  match op, payload with
  | .ping, _ => .ping
  | .commit, _ => .commit
  | .read, payload =>
      match inst.profile, payload with
      | true, [slot] => .readProfile slot
      | false, [a0, a1, c0, c1] => .read (u16FromLe a0 a1) (u16FromLe c0 c1)
      | _, _ => .unsupported
  | .write, a0 :: a1 :: data => .write (u16FromLe a0 a1) data inst.hold
  | .mgmt, payload => readMgmt broadcast payload
  | _, _ => .unsupported

theorem parse_mgmtReq {pay : FrameBytes} {b : Byte} {args : List Byte}
    (hb : pay.bytes = b :: args) :
    ∃ view : FrameBytes, view.bytes = args ∧
      MgmtReq.parse pay = (MgmtOp.fromByte b).map fun op => ⟨op, view⟩ := by
  have hlength := pay.length_bytes
  rw [hb, List.length_cons] at hlength
  obtain ⟨view, hview, hargs⟩ := pay.exists_sub (show 1 + (pay.len - 1) ≤ pay.len by omega)
  have hle : 1 ≤ pay.len := by omega
  refine ⟨view, ?_, ?_⟩
  · rw [hargs, hb]
    exact List.take_of_length_le (by simp; omega)
  · cases hop : MgmtOp.fromByte b with
    | none => simp [MgmtReq.parse, FrameBytes.u8At_eq, hb, hop]
    | some op => simp [MgmtReq.parse, FrameBytes.u8At_eq, hb, hop, checkedSub, hle, hview]

theorem enumReq_eq (args : FrameBytes) :
    (match EnumReq.parse args with
      | some e => Request.enumerate e.prefixLen e.pre
      | none => .unsupported).map FrameBytes.bytes =
      match args.bytes with
      | prefixLen :: pre =>
          if prefixLen ≤ EnumReq.maxPrefixBits ∧ pre.length = EnumReq.prefixBytes prefixLen then
            .enumerate prefixLen (pre ++ List.replicate (uidLen - pre.length) 0)
          else .unsupported
      | [] => .unsupported := by
  cases hb : args.bytes with
  | nil => simp [EnumReq.parse, FrameBytes.u8At_eq, hb, Request.map]
  | cons prefixLen pre =>
      rw [EnumReq.parse_eq hb]
      by_cases hwf : prefixLen ≤ EnumReq.maxPrefixBits ∧ pre.length = EnumReq.prefixBytes prefixLen
      · simp only [if_pos hwf, Request.map]
      · simp only [if_neg hwf, Request.map]

theorem assignReq_eq (args : FrameBytes) :
    (match AssignReq.parse args with
      | some a => Request.assign a.uid a.newId
      | none => .unsupported).map FrameBytes.bytes =
      if args.bytes.length = uidLen + 1 then
        .assign (args.bytes.take uidLen) (args.bytes.getD uidLen 0)
      else .unsupported := by
  simp only [AssignReq.parse, FrameBytes.length_bytes, FrameBytes.u8At_eq]
  by_cases hlen : args.len = uidLen + 1
  · obtain ⟨view, hsub, hbytes⟩ := args.exists_sub (show 0 + uidLen ≤ args.len by omega)
    have hlast : uidLen < args.bytes.length := by
      rw [FrameBytes.length_bytes]
      omega
    have hcopy := FrameBytes.copyInto_of_len_eq
      (show (List.replicate uidLen 0).length = view.len by
        rw [List.length_replicate, ← FrameBytes.length_bytes, hbytes, List.drop_zero,
          List.length_take]
        omega)
    simp only [hlen, ne_eq, not_true_eq_false, if_false, if_true, hsub, hcopy, hbytes,
      List.drop_zero, Option.bind_eq_bind, Option.bind_some, Option.pure_def,
      List.getElem?_eq_getElem hlast, List.getD_eq_getElem _ _ hlast]
    rfl
  · simp [hlen, Request.map]

theorem calReq_eq (broadcast : Bool) (args : FrameBytes) :
    (match CalReq.parse args with
      | some c => if broadcast then Request.calibrate c.gapUs c.gaps else .unsupported
      | none => .unsupported).map FrameBytes.bytes =
      match args.bytes with
      | [g0, g1, gaps] =>
          if u16FromLe g0 g1 ≠ 0 ∧ gaps ≠ 0 ∧ broadcast then .calibrate (u16FromLe g0 g1) gaps
          else .unsupported
      | _ => .unsupported := by
  have hlength := args.length_bytes
  simp only [CalReq.parse, FrameBytes.u8At_eq, FrameBytes.u16LeAt_eq]
  rcases hb : args.bytes with _ | ⟨g0, _ | ⟨g1, _ | ⟨gaps, _ | ⟨b, l⟩⟩⟩⟩
  all_goals rw [hb] at hlength
  all_goals simp only [List.length_cons, List.length_nil] at hlength
  case cons.cons.cons.nil =>
    have hlen : args.len = 3 := by omega
    by_cases hgap : u16FromLe g0 g1 = 0
    · simp [hlen, FrameBytes.leAt, hgap, Request.map]
    · by_cases hgaps : gaps = 0
      · simp [hlen, FrameBytes.leAt, hgaps, Request.map]
      · cases broadcast <;> simp [hlen, FrameBytes.leAt, hgap, hgaps, Request.map]
  all_goals
    have hlen : args.len ≠ 3 := by omega
    simp [hlen, Request.map]

theorem mgmtRequest_eq (broadcast : Bool) (pay : FrameBytes) :
    (mgmtRequest broadcast pay).map FrameBytes.bytes = readMgmt broadcast pay.bytes := by
  cases hb : pay.bytes with
  | nil => simp [mgmtRequest, MgmtReq.parse, FrameBytes.u8At_eq, hb, readMgmt, Request.map]
  | cons b args =>
      obtain ⟨view, rfl, hparse⟩ := parse_mgmtReq hb
      simp only [mgmtRequest, readMgmt, hparse]
      cases MgmtOp.fromByte b with
      | none => rfl
      | some op =>
          cases op with
          | enum =>
              refine (enumReq_eq view).trans ?_
              cases view.bytes <;> rfl
          | assign => exact assignReq_eq view
          | cal =>
              refine (calReq_eq broadcast view).trans ?_
              rcases view.bytes with _ | ⟨g0, _ | ⟨g1, _ | ⟨gaps, _ | ⟨b, l⟩⟩⟩⟩ <;> rfl
          | _ => rfl

theorem writeReq_eq (pay : FrameBytes) (hold : Bool) :
    (match WriteReq.parse pay with
      | some w => Request.write w.addr w.data hold
      | none => .unsupported).map FrameBytes.bytes =
      match pay.bytes with
      | a0 :: a1 :: data => .write (u16FromLe a0 a1) data hold
      | _ => .unsupported := by
  have hlength := pay.length_bytes
  simp only [WriteReq.parse, FrameBytes.u16LeAt_eq, checkedSub]
  rcases hb : pay.bytes with _ | ⟨a0, _ | ⟨a1, data⟩⟩
  all_goals rw [hb] at hlength
  all_goals simp only [List.length_cons, List.length_nil] at hlength
  case cons.cons =>
    obtain ⟨view, hview, hdata⟩ := pay.exists_sub (show 2 + (pay.len - 2) ≤ pay.len by omega)
    have hdata : view.bytes = data := by
      rw [hdata, hb]
      exact List.take_of_length_le (by simp; omega)
    have hle : 2 ≤ pay.len := by omega
    simp [FrameBytes.leAt, hle, hview, hdata, Request.map]
  all_goals simp [FrameBytes.leAt, Request.map]

theorem readReq_eq (pay : FrameBytes) (profile : Bool) :
    (if profile then
        match ProfileReq.parse pay with
        | some r => Request.readProfile r.slot
        | none => .unsupported
      else
        match ReadReq.parse pay with
        | some r => .read r.addr r.count
        | none => .unsupported).map FrameBytes.bytes =
      match profile, pay.bytes with
      | true, [slot] => .readProfile slot
      | false, [a0, a1, c0, c1] => .read (u16FromLe a0 a1) (u16FromLe c0 c1)
      | _, _ => .unsupported := by
  have hlength := pay.length_bytes
  simp only [ProfileReq.parse, ReadReq.parse, FrameBytes.u8At_eq, FrameBytes.u16LeAt_eq]
  rcases hb : pay.bytes with _ | ⟨_, _ | ⟨_, _ | ⟨_, _ | ⟨_, _ | ⟨_, l⟩⟩⟩⟩⟩
  all_goals rw [hb] at hlength
  all_goals cases profile <;> simp [← hlength, FrameBytes.leAt, Request.map]

theorem plainRequest_eq (op : Opcode) (inst : Inst) (broadcast : Bool) (pay : FrameBytes) :
    (plainRequest op inst broadcast pay).map FrameBytes.bytes =
      readPlain op inst broadcast pay.bytes := by
  cases op with
  | mgmt => exact mgmtRequest_eq broadcast pay
  | read => exact readReq_eq pay inst.profile
  | write =>
      refine (writeReq_eq pay inst.hold).trans ?_
      rcases pay.bytes with _ | ⟨a0, _ | ⟨a1, data⟩⟩ <;> rfl
  | _ => rfl

/-! ## Whole frames -/

/-- The decoded meaning of an instruction payload. -/
def readPayload (op : Opcode) (inst : Inst) (frameId : Id) (payload : List Byte) (own : Byte) :
    Decoded (List Byte) :=
  match op with
  | .gread => answerRead own (readRecords inst payload)
  | .gwrite => answerWrite own (writeRecords inst payload)
  | op =>
      if !frameId.addresses ⟨own⟩ then .skip
      else
        let req := readPlain op inst frameId.isBroadcast payload
        .own req ⟨!inst.noreply && (!frameId.isBroadcast || Request.answersBroadcast req)⟩ 0

theorem answersBroadcast_map {δ ε : Type} (f : δ → ε) (req : Request δ) :
    Request.answersBroadcast (req.map f) = Request.answersBroadcast req := by
  cases req <;> rfl

theorem decodePayload_eq (op : Opcode) (inst : Inst) (frameId : Id) (pay : FrameBytes)
    (own : Byte) :
    (decodePayload op inst frameId pay ⟨own⟩).map FrameBytes.bytes =
      readPayload op inst frameId pay.bytes own := by
  have hplain : ∀ op, (plain op inst frameId pay ⟨own⟩).map FrameBytes.bytes =
      if !frameId.addresses ⟨own⟩ then .skip
      else
        let req := readPlain op inst frameId.isBroadcast pay.bytes
        .own req ⟨!inst.noreply && (!frameId.isBroadcast || Request.answersBroadcast req)⟩ 0 := by
    intro op
    rw [← plainRequest_eq, plain]
    cases frameId.addresses ⟨own⟩ with
    | false => rfl
    | true => simp [Decoded.map, answersBroadcast_map]
  cases op with
  | gread => exact gread_eq inst pay ⟨own⟩
  | gwrite => exact gwrite_eq inst pay ⟨own⟩
  | _ => exact hplain _

/-- The ring bytes of a frame: break, header, payload, CRC. -/
def frameBytes (id : Id) (inst : Inst) (payload : List Byte) (crcLo crcHi : Byte) : List Byte :=
  0 :: id.byte :: lenFor (UInt8.ofNat payload.length) :: inst.byte :: (payload ++ [crcLo, crcHi])

/-- A frame as a host sends it, with its own CRC. -/
def wireFrame (id : Id) (inst : Inst) (payload : List Byte) : List Byte :=
  let crc := Crc.oscCrc (id.byte :: lenFor (UInt8.ofNat payload.length) :: inst.byte :: payload)
  frameBytes id inst payload crc.toUInt8 (crc >>> 8).toUInt8

theorem payloadLen_lenFor {p : ℕ} (h : p ≤ maxPayload) :
    payloadLen (lenFor (UInt8.ofNat p)) = p := by
  simp only [payloadLen, lenFor]
  have hcancel : (3 + UInt8.ofNat p - 3 : Byte) = UInt8.ofNat p := by
    rw [UInt8.add_comm, UInt8.add_sub_cancel]
  rw [hcancel, UInt8.toNat_ofNat', Nat.mod_eq_of_lt]
  simp only [maxPayload] at h
  omega

/-- Decoding a frame, split anywhere, reads its payload. -/
theorem decode_frameBytes {frame : FrameBytes} {id : Id} {inst : Inst} {op : Opcode}
    {payload : List Byte} {crcLo crcHi : Byte} (own : Byte)
    (hbytes : frame.bytes = frameBytes id inst payload crcLo crcHi)
    (hlen : payload.length ≤ maxPayload) (hop : inst.opcode = some op) :
    (decode frame own).map FrameBytes.bytes = readPayload op inst id payload own := by
  have hstatus : inst.isStatus = false := by
    by_contra h
    simp [Inst.opcode, h] at hop
  have hlength : frame.len = payload.length + 6 := by
    rw [← FrameBytes.length_bytes, hbytes]
    simp [frameBytes]
  have hpl := payloadLen_lenFor hlen
  obtain ⟨pay, hsub, hpay⟩ :=
    frame.exists_sub (show Header.size + payload.length ≤ frame.len by simp [Header.size]; omega)
  have hpay : pay.bytes = payload := by
    rw [hpay, hbytes]
    simp [frameBytes, Header.size]
  simp only [decode, FrameBytes.u8At_eq, hbytes, frameBytes, List.getElem?_cons_zero,
    List.getElem?_cons_succ, Header.fromBytes, Header.payloadLen, hpl]
  simp only [hstatus, hop, hsub, Bool.false_eq_true, if_false]
  rw [decodePayload_eq, hpay]

end Bus

end OpenServo
