import OpenServo.Bus.Reading

/-!
# Decoding under the AUTH trailer

The AUTH trailer sits inside the payload region, and the decoder is handed the
whole region.  This module says for which frames the five extra bytes change
what is decoded: the payload grammars that end where the payload ends see
them, the others do not.
-/

namespace OpenServo

open Tiling

/-- The instruction byte with `FLAG_AUTH` set. -/
def Inst.withAuth (inst : Inst) : Inst := ⟨inst.byte ||| flagAuth⟩

/-- The other fields of the instruction byte do not see `FLAG_AUTH`. -/
theorem Inst.withAuth_fields (inst : Inst) :
    inst.withAuth.opcode = inst.opcode ∧ inst.withAuth.hold = inst.hold ∧
      inst.withAuth.noreply = inst.noreply ∧ inst.withAuth.perTarget = inst.perTarget := by
  have hall : ∀ b : Fin 256, let inst : Inst := ⟨⟨⟨b⟩⟩⟩
      inst.withAuth.opcode = inst.opcode ∧ inst.withAuth.hold = inst.hold ∧
        inst.withAuth.noreply = inst.noreply ∧ inst.withAuth.perTarget = inst.perTarget := by
    decide +kernel
  exact hall inst.byte.toFin

/-- The five bytes `SEQ | TAG` as they stand on the wire. -/
structure TrailerBytes where
  seq : Byte
  t0 : Byte
  t1 : Byte
  t2 : Byte
  t3 : Byte
  deriving DecidableEq, Repr

def TrailerBytes.bytes (t : TrailerBytes) : List Byte := [t.seq, t.t0, t.t1, t.t2, t.t3]

namespace Bus

/-! ## When the trailer is invisible -/

/-- The servos the records are for. -/
def listedIds (items : List Record) : List Byte := items.map Prod.fst

/-- The shape a MGMT payload must have for its sub-operation. -/
def mgmtWellFormed (broadcast : Bool) : List Byte → Bool
  | [] => false
  | b :: args =>
      match MgmtOp.fromByte b, args with
      | none, _ => false
      | some .enum, prefixLen :: pre =>
          prefixLen ≤ EnumReq.maxPrefixBits && pre.length == EnumReq.prefixBytes prefixLen
      | some .enum, [] => false
      | some .assign, args => args.length == uidLen + 1
      | some .cal, [g0, g1, gaps] => u16FromLe g0 g1 != 0 && gaps != 0 && broadcast
      | some .cal, _ => false
      | some _, _ => true

/-- A grid of records that lists this servo survives the five extra bytes. -/
def keepsGrid (op : Opcode) (inst : Inst) (payload : List Byte) (trailer : TrailerBytes) : Bool :=
  match op with
  | .gread => !(inst.profile && inst.perTarget)
  | .gwrite => if inst.perTarget then trailer.t2 == 1 else payload[2]? == some 4
  | _ => true

/-- The exact condition under which the decoder does not notice the trailer. -/
def TrailerInvisible (op : Opcode) (inst : Inst) (frameId : Id) (payload : List Byte)
    (trailer : TrailerBytes) (own : Byte) : Prop :=
  let tagged := payload ++ trailer.bytes
  match op with
  | .ping | .commit => True
  | .read => frameId.addresses ⟨own⟩ → payload.length ≠ if inst.profile then 1 else 4
  | .write => ¬ frameId.addresses ⟨own⟩
  | .mgmt =>
      frameId.addresses ⟨own⟩ →
        mgmtWellFormed frameId.isBroadcast payload = false ∧
          mgmtWellFormed frameId.isBroadcast tagged = false
  | .gread =>
      if own ∈ listedIds (readRecords inst payload) then
        keepsGrid .gread inst payload trailer = true
      else own ∉ listedIds (readRecords inst tagged)
  | .gwrite =>
      if own ∈ listedIds (writeRecords inst payload) then
        keepsGrid .gwrite inst payload trailer = true
      else own ∉ listedIds (writeRecords inst tagged)

instance (op : Opcode) (inst : Inst) (frameId : Id) (payload : List Byte)
    (trailer : TrailerBytes) (own : Byte) :
    Decidable (TrailerInvisible op inst frameId payload trailer own) :=
  match op with
  | .ping | .commit => inferInstanceAs (Decidable True)
  | .read | .mgmt => inferInstanceAs (Decidable (_ → _))
  | .write => inferInstanceAs (Decidable (¬ _))
  | .gread | .gwrite => inferInstanceAs (Decidable (ite _ _ _))

/-! ## Group operations -/

theorem not_mem_listedIds {own : Byte} {items : List Record} :
    own ∉ listedIds items ↔ ∀ item ∈ items, ¬ (item.1 == own) = true := by
  simp only [listedIds, List.mem_map, not_exists, not_and, beq_iff_eq]

theorem answerRead_eq_skip {own : Byte} {items : List Record} :
    answerRead own items = .skip ↔ own ∉ listedIds items := by
  rw [not_mem_listedIds, ← findEnum_eq_none, answerRead]
  cases findEnum (fun item => item.1 == own) items <;> simp

theorem answerWrite_eq_skip {own : Byte} {items : List Record} :
    answerWrite own items = .skip ↔ own ∉ listedIds items := by
  rw [not_mem_listedIds, ← List.find?_eq_none, answerWrite]
  cases items.find? fun item => item.1 == own <;> simp

theorem answerRead_append {own : Byte} {left : List Record} (right : List Record)
    (h : own ∈ listedIds left) : answerRead own (left ++ right) = answerRead own left := by
  have hsome : findEnum (fun item : Record => item.1 == own) left ≠ none := by
    intro hnone
    exact not_mem_listedIds.mpr (findEnum_eq_none.mp hnone) h
  simp only [answerRead, findEnum_append right hsome]

theorem answerWrite_append {own : Byte} {left : List Record} (right : List Record)
    (h : own ∈ listedIds left) : answerWrite own (left ++ right) = answerWrite own left := by
  have hsome : left.find? (fun item : Record => item.1 == own) ≠ none := by
    intro hnone
    exact not_mem_listedIds.mpr (List.find?_eq_none.mp hnone) h
  simp only [answerWrite, List.find?_append]
  rw [Option.or_of_isSome (Option.isSome_iff_ne_none.mpr hsome)]

/-- The tagged payload decodes alike when its records continue the plain ones;
a tagged payload that turned ragged lists no one. -/
theorem answer_eq_iff {answer : Byte → List Record → Decoded (List Byte)} {own : Byte}
    {plain tagged : List Record} {keeps : Bool}
    (hskip : ∀ items, answer own items = .skip ↔ own ∉ listedIds items)
    (happend : ∀ items, own ∈ listedIds plain → answer own (plain ++ items) = answer own plain)
    (hkeeps : own ∈ listedIds plain → keeps → ∃ items, tagged = plain ++ items)
    (hragged : own ∈ listedIds plain → keeps = false → tagged = []) :
    answer own tagged = answer own plain ↔
      if own ∈ listedIds plain then keeps = true else own ∉ listedIds tagged := by
  split
  · rename_i hmem
    cases hk : keeps with
    | true =>
        obtain ⟨items, rfl⟩ := hkeeps hmem hk
        simp [happend items hmem]
    | false =>
        rw [hragged hmem hk]
        have hempty : answer own [] = .skip := (hskip []).mpr (by simp [listedIds])
        rw [hempty, eq_comm, hskip]
        simp [hmem]
  · rename_i hmem
    rw [(hskip plain).mpr hmem, hskip]

theorem tiles_of_listed {next : List Byte → Option (Record × List Byte)} (hnext : Cutter next)
    {l : List Byte} {own : Byte} (h : own ∈ listedIds (records next l)) :
    Tiles next l (records next l) := by
  simp only [listedIds, List.mem_map] at h
  obtain ⟨item, hitem, -⟩ := h
  exact tiles_of_mem_records hnext hitem

/-- Appending a tiled string appends its records. -/
theorem records_append {next : List Byte → Option (Record × List Byte)} (hnext : Cutter next)
    {l right : List Byte} {own : Byte} (h : own ∈ listedIds (records next l))
    (hright : ∃ items, Tiles next right items) :
    ∃ items, records next (l ++ right) = records next l ++ items := by
  obtain ⟨items, hitems⟩ := hright
  exact ⟨items, records_of_tiles hnext ((tiles_of_listed hnext h).append hnext hitems)⟩

/-- Appending a ragged string leaves no records. -/
theorem records_append_ragged {next : List Byte → Option (Record × List Byte)}
    (hnext : Cutter next) {l right : List Byte} {own : Byte}
    (h : own ∈ listedIds (records next l)) (hright : ¬ ∃ items, Tiles next right items) :
    records next (l ++ right) = [] := by
  apply records_of_ragged hnext
  rintro ⟨all, hall⟩
  obtain ⟨items, hitems, -⟩ := (tiles_of_listed hnext h).of_append hnext hall
  exact hright ⟨items, hitems⟩

theorem readRecords_tagged {inst : Inst} {payload : List Byte} (trailer : TrailerBytes)
    {own : Byte} (h : own ∈ listedIds (readRecords inst payload)) :
    (keepsGrid .gread inst payload trailer →
      ∃ items, readRecords inst (payload ++ trailer.bytes) = readRecords inst payload ++ items) ∧
    (keepsGrid .gread inst payload trailer = false →
      readRecords inst (payload ++ trailer.bytes) = []) := by
  have hpairs := tiles_iff_dvd (by decide) profileTarget_width trailer.bytes
  have hquints := tiles_iff_dvd (by decide) readTarget_width trailer.bytes
  simp only [readRecords] at h ⊢
  cases hprofile : inst.profile with
  | false =>
      rw [hprofile] at h
      simp only [keepsGrid, hprofile, Bool.false_and, Bool.not_false, forall_const,
        Bool.true_eq_false, IsEmpty.forall_iff, and_true]
      cases hper : inst.perTarget with
      | true =>
          rw [hper] at h
          exact records_append readTarget_cutter h (hquints.mpr (by simp [TrailerBytes.bytes]))
      | false =>
          rw [hper] at h
          rcases payload with _ | ⟨_, _ | ⟨_, _ | ⟨_, _ | ⟨_, ids⟩⟩⟩⟩
          case cons.cons.cons.cons => simp
          all_goals simp [listedIds] at h
  | true =>
      rw [hprofile] at h
      cases hper : inst.perTarget with
      | true =>
          rw [hper] at h
          simp only [keepsGrid, hprofile, hper, Bool.and_self, Bool.not_true, Bool.false_eq_true,
            IsEmpty.forall_iff, true_and, forall_const]
          exact records_append_ragged profileTarget_cutter h
            (fun htiles => absurd (hpairs.mp htiles) (by simp [TrailerBytes.bytes]))
      | false =>
          rw [hper] at h
          simp only [keepsGrid, hprofile, hper, Bool.and_false, Bool.not_false, forall_const,
            Bool.true_eq_false, IsEmpty.forall_iff, and_true]
          cases payload with
          | nil => simp [listedIds] at h
          | cons slot ids => simp

/-- Read as a GWRITE record, the trailer is one record exactly when its count
byte says one data byte. -/
theorem tiles_trailer (hold : Bool) (trailer : TrailerBytes) :
    (∃ items, Tiles (writeTarget hold) trailer.bytes items) ↔ trailer.t2 = 1 := by
  cases trailer with
  | mk seq t0 t1 t2 t3 =>
      simp only [TrailerBytes.bytes]
      constructor
      · rintro ⟨items, h⟩
        cases h with
        | @cons _ rest item items hcut hrest =>
            simp only [writeTarget, List.length_cons, List.length_nil] at hcut
            split at hcut
            · rename_i hle
              obtain ⟨-, rfl⟩ := Prod.mk.inj (Option.some.inj hcut)
              have hcases : t2.toNat = 0 ∨ t2.toNat = 1 := by omega
              cases hcases with
              | inl hzero =>
                  -- the last tag byte is left over, and is no record
                  rw [hzero] at hrest
                  cases hrest with
                  | cons hlast _ => simp [writeTarget] at hlast
              | inr hone => exact UInt8.toNat_inj.mp hone
            · cases hcut
      · rintro rfl
        exact ⟨_, .cons rfl .nil⟩

theorem stride_dvd_trailer {count : Byte} (hcount : count ≠ 0) :
    count.toNat + 1 ∣ 5 ↔ count = 4 := by
  have hne : count.toNat ≠ 0 := fun hzero => hcount (UInt8.toNat_inj.mp hzero)
  constructor
  · intro hdvd
    have hprime : Nat.Prime 5 := by norm_num
    have hfive : count.toNat + 1 = 5 :=
      (hprime.eq_one_or_self_of_dvd _ hdvd).resolve_left (by omega)
    exact UInt8.toNat_inj.mp (show count.toNat = 4 by omega)
  · rintro rfl
    exact dvd_refl 5

theorem writeRecords_tagged {inst : Inst} {payload : List Byte} (trailer : TrailerBytes)
    {own : Byte} (h : own ∈ listedIds (writeRecords inst payload)) :
    (keepsGrid .gwrite inst payload trailer →
      ∃ items, writeRecords inst (payload ++ trailer.bytes) = writeRecords inst payload ++ items) ∧
    (keepsGrid .gwrite inst payload trailer = false →
      writeRecords inst (payload ++ trailer.bytes) = []) := by
  simp only [writeRecords, keepsGrid] at h ⊢
  cases hper : inst.perTarget with
  | true =>
      rw [hper] at h
      simp only [if_true, beq_iff_eq, beq_eq_false_iff_ne]
      constructor
      · intro hone
        exact records_append (writeTarget_cutter _) h ((tiles_trailer _ trailer).mpr hone)
      · intro hone
        exact records_append_ragged (writeTarget_cutter _) h
          (fun htiles => hone ((tiles_trailer _ trailer).mp htiles))
  | false =>
      rw [hper] at h
      rcases payload with _ | ⟨a0, _ | ⟨a1, _ | ⟨count, entries⟩⟩⟩
      case cons.cons.cons =>
        by_cases hcount : count = 0
        · simp [hcount, listedIds] at h
        · have hstride := tiles_iff_dvd (Nat.succ_pos count.toNat)
            (writeData_width (u16FromLe a0 a1) count.toNat inst.hold) trailer.bytes
          have hfive := hstride.trans (stride_dvd_trailer hcount)
          simp only [if_neg hcount] at h
          simp only [List.cons_append, if_neg hcount, List.getElem?_cons_succ,
            List.getElem?_cons_zero, Bool.false_eq_true, if_false, beq_iff_eq,
            Option.some.injEq, beq_eq_false_iff_ne, ne_eq]
          constructor
          · intro hfour
            exact records_append (writeData_cutter _ _ _) h (hfive.mpr hfour)
          · intro hfour
            exact records_append_ragged (writeData_cutter _ _ _) h
              (fun htiles => hfour (hfive.mp htiles))
      all_goals simp [listedIds] at h

/-! ## Plain operations -/

theorem readMgmt_eq_unsupported {broadcast : Bool} {payload : List Byte} :
    readMgmt broadcast payload = .unsupported ↔ mgmtWellFormed broadcast payload = false := by
  cases payload with
  | nil => simp [readMgmt, mgmtWellFormed]
  | cons b args =>
      simp only [readMgmt, mgmtWellFormed]
      cases MgmtOp.fromByte b with
      | none => simp
      | some op =>
          cases op with
          | enum => cases args <;> simp
          | assign => simp
          | cal => rcases args with _ | ⟨g0, _ | ⟨g1, _ | ⟨gaps, _ | ⟨_, _⟩⟩⟩⟩ <;> simp
          | _ => simp

/-- No MGMT request reads the same with and without five more bytes. -/
theorem readMgmt_append {broadcast : Bool} {payload extra : List Byte} (hextra : extra ≠ [])
    (h : readMgmt broadcast (payload ++ extra) = readMgmt broadcast payload) :
    readMgmt broadcast payload = .unsupported := by
  cases payload with
  | nil => rfl
  | cons b args =>
      have hlen : 0 < extra.length := List.length_pos_of_ne_nil hextra
      simp only [readMgmt, List.cons_append] at h ⊢
      cases hop : MgmtOp.fromByte b with
      | none => rfl
      | some op =>
          rw [hop] at h
          cases op with
          | enum =>
              cases args with
              | nil => rfl
              | cons prefixLen pre =>
                  simp only [List.cons_append, List.length_append] at h ⊢
                  by_contra hne
                  have hshape : pre.length = EnumReq.prefixBytes prefixLen :=
                    (ite_ne_right_iff.mp hne).1.2
                  rw [if_neg (by omega)] at h
                  exact hne h.symm
          | assign =>
              simp only [List.length_append] at h ⊢
              by_contra hne
              have hshape := (ite_ne_right_iff.mp hne).1
              rw [if_neg (by omega)] at h
              exact hne h.symm
          | cal =>
              rcases args with _ | ⟨g0, _ | ⟨g1, _ | ⟨gaps, _ | ⟨_, _⟩⟩⟩⟩
              case cons.cons.cons.nil =>
                cases extra with
                | nil => exact absurd rfl hextra
                | cons e extra => exact h.symm
              all_goals rfl
          | _ =>
              simp only [Request.mgmt.injEq, List.append_right_eq_self, true_and] at h
              exact absurd h hextra

theorem readMgmt_tagged_iff {broadcast : Bool} {payload extra : List Byte} (hextra : extra ≠ []) :
    readMgmt broadcast (payload ++ extra) = readMgmt broadcast payload ↔
      mgmtWellFormed broadcast payload = false ∧
        mgmtWellFormed broadcast (payload ++ extra) = false := by
  rw [← readMgmt_eq_unsupported, ← readMgmt_eq_unsupported]
  constructor
  · intro h
    have hplain := readMgmt_append hextra h
    exact ⟨hplain, h.trans hplain⟩
  · intro h
    rw [h.1, h.2]

theorem readPlain_read_tagged (inst : Inst) (broadcast : Bool) (payload : List Byte)
    (trailer : TrailerBytes) :
    readPlain .read inst broadcast (payload ++ trailer.bytes) =
        readPlain .read inst broadcast payload ↔
      payload.length ≠ if inst.profile then 1 else 4 := by
  simp only [readPlain, TrailerBytes.bytes]
  rcases payload with _ | ⟨_, _ | ⟨_, _ | ⟨_, _ | ⟨_, _ | ⟨_, l⟩⟩⟩⟩⟩ <;>
    cases inst.profile <;> simp

theorem readPlain_write_tagged (inst : Inst) (broadcast : Bool) (payload : List Byte)
    (trailer : TrailerBytes) :
    readPlain .write inst broadcast (payload ++ trailer.bytes) ≠
      readPlain .write inst broadcast payload := by
  simp only [readPlain, TrailerBytes.bytes]
  rcases payload with _ | ⟨_, _ | ⟨_, l⟩⟩ <;> simp

/-- A plain operation decodes alike when it is for another servo or its request
reads alike; the reply contract follows the request. -/
theorem plain_eq_iff {addressed broadcast noreply : Bool} {left right : Request (List Byte)} :
    (if !addressed then Decoded.skip
      else .own left ⟨!noreply && (!broadcast || Request.answersBroadcast left)⟩ 0) =
    (if !addressed then .skip
      else .own right ⟨!noreply && (!broadcast || Request.answersBroadcast right)⟩ 0) ↔
      (addressed = true → left = right) := by
  cases addressed with
  | false => simp
  | true =>
      simp only [Bool.not_true, Bool.false_eq_true, if_false, forall_const]
      constructor
      · intro h
        exact (Decoded.own.inj h).1
      · rintro rfl
        rfl

theorem readPayload_tagged_iff (op : Opcode) (inst : Inst) (frameId : Id) (payload : List Byte)
    (trailer : TrailerBytes) (own : Byte) :
    readPayload op inst frameId (payload ++ trailer.bytes) own =
        readPayload op inst frameId payload own ↔
      TrailerInvisible op inst frameId payload trailer own := by
  have hne : trailer.bytes ≠ [] := by simp [TrailerBytes.bytes]
  cases op with
  | gread =>
      simp only [readPayload, TrailerInvisible]
      exact answer_eq_iff (fun _ => answerRead_eq_skip) (fun items h => answerRead_append items h)
        (fun h => (readRecords_tagged trailer h).1) (fun h => (readRecords_tagged trailer h).2)
  | gwrite =>
      simp only [readPayload, TrailerInvisible]
      exact answer_eq_iff (fun _ => answerWrite_eq_skip)
        (fun items h => answerWrite_append items h)
        (fun h => (writeRecords_tagged trailer h).1) (fun h => (writeRecords_tagged trailer h).2)
  | ping => simp [readPayload, readPlain, TrailerInvisible]
  | commit => simp [readPayload, readPlain, TrailerInvisible]
  | read =>
      simp only [readPayload, TrailerInvisible, plain_eq_iff, readPlain_read_tagged]
  | write =>
      simp only [readPayload, TrailerInvisible, plain_eq_iff, readPlain_write_tagged, imp_false]
  | mgmt =>
      simp only [readPayload, TrailerInvisible, plain_eq_iff, readPlain,
        readMgmt_tagged_iff hne]

theorem readPayload_withAuth (op : Opcode) (inst : Inst) (frameId : Id) (payload : List Byte)
    (own : Byte) :
    readPayload op inst.withAuth frameId payload own = readPayload op inst frameId payload own := by
  obtain ⟨-, hhold, hnoreply, hper⟩ := inst.withAuth_fields
  have hprofile : inst.withAuth.profile = inst.profile := hhold
  cases op <;>
    simp only [readPayload, readPlain, readRecords, writeRecords, hhold, hnoreply, hper, hprofile]

/-- For every instruction frame, split anywhere: the frame with the trailer
decodes as the plain one exactly when the trailer is invisible to the payload
grammar of its operation. -/
theorem decode_tagged_eq_iff {plain tagged : FrameBytes} {id : Id} {inst : Inst} {op : Opcode}
    {payload : List Byte} {trailer : TrailerBytes} {c0 c1 d0 d1 : Byte} (own : Byte)
    (hop : inst.opcode = some op) (hlen : payload.length ≤ 247)
    (hplain : plain.bytes = frameBytes id inst payload c0 c1)
    (htagged : tagged.bytes = frameBytes id inst.withAuth (payload ++ trailer.bytes) d0 d1) :
    (decode tagged own).map FrameBytes.bytes = (decode plain own).map FrameBytes.bytes ↔
      TrailerInvisible op inst id payload trailer own := by
  have hop' : inst.withAuth.opcode = some op := by rw [inst.withAuth_fields.1, hop]
  have hlength : (payload ++ trailer.bytes).length ≤ maxPayload := by
    simp only [List.length_append, TrailerBytes.bytes, List.length_cons, List.length_nil,
      maxPayload]
    omega
  rw [decode_frameBytes own hplain (by simp only [maxPayload]; omega) hop,
    decode_frameBytes own htagged hlength hop', readPayload_withAuth, readPayload_tagged_iff]

/-- An addressed WRITE of one byte: with its trailer it decodes as a write of
six. -/
theorem tagged_write_decodes_trailer :
    ¬ (decode (.ofList (wireFrame ⟨5⟩ (Inst.withAuth ⟨0x30⟩)
        ([0x42, 0x00, 0xAA] ++ (TrailerBytes.mk 0x11 0xDE 0xAD 0xBE 0xEF).bytes))) 5).map
          FrameBytes.bytes =
      (decode (.ofList (wireFrame ⟨5⟩ ⟨0x30⟩ [0x42, 0x00, 0xAA])) 5).map FrameBytes.bytes := by
  decide +kernel

/-- A per-target GREAD that lists this servo first keeps its slot and span. -/
theorem tagged_gread_keeps_grid :
    (decode (.ofList (wireFrame ⟨0xFE⟩ (Inst.withAuth ⟨0x58⟩)
        ([5, 0x40, 0x00, 2, 0] ++ (TrailerBytes.mk 0x11 0xDE 0xAD 0xBE 0xEF).bytes))) 5).map
          FrameBytes.bytes =
      (decode (.ofList (wireFrame ⟨0xFE⟩ ⟨0x58⟩ [5, 0x40, 0x00, 2, 0])) 5).map
          FrameBytes.bytes :=
  (decode_tagged_eq_iff 5 (show Inst.opcode ⟨0x58⟩ = some .gread by decide) (by decide)
    (FrameBytes.bytes_ofList _) (FrameBytes.bytes_ofList _)).mpr (by decide)

end Bus

end OpenServo
