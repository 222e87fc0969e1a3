import OpenServo.Bus.Reading
import OpenServo.Bus.Tx

/-!
# A reply on the wire

A reply is never built in one place: its header and CRC lie in the transmitter's
buffer, a long payload in the engine's snapshot, the INST byte is settled when the
reply starts and the CRC while it is already being sent.  From the trigger to the
release, the DMA arms still carry the frame a `FrameBuf` would have sealed, byte for
byte behind the alignment byte.
-/

namespace OpenServo.Bus

/-! ## The reference frame -/

/-- A frame under construction in a buffer of `n` bytes. -/
structure FrameBuf (n : ℕ) where
  bytes : List Byte
  length_eq : bytes.length = n

theorem length_copyAt {dst : List Byte} {off : ℕ} {src : List Byte}
    (h : off + src.length ≤ dst.length) : (copyAt dst off src).length = dst.length := by
  simp only [copyAt, List.length_append, List.length_take, List.length_drop]
  omega

namespace FrameBuf

variable {n : ℕ}

def new (n : ℕ) : FrameBuf n := ⟨List.replicate n 0, List.length_replicate⟩

/-- `bytes[off..off + src.len()].copy_from_slice(src)`; a span outside the buffer is
skipped. -/
def put (buf : FrameBuf n) (off : ℕ) (src : List Byte) : FrameBuf n :=
  if h : off + src.length ≤ n then
    ⟨copyAt buf.bytes off src, by
      rw [length_copyAt (by rw [buf.length_eq]; exact h), buf.length_eq]⟩
  else buf

/-- The fixed prefix; `LEN` stays a placeholder until `finish`. -/
def start (buf : FrameBuf n) (id : Id) (inst : Inst) : FrameBuf n :=
  buf.put 0 [0, id.byte, 0, inst.byte]

/-- Copy `payload` to the front of `payload_mut`. -/
def payloadMut (buf : FrameBuf n) (payload : List Byte) : FrameBuf n := buf.put 4 payload

def finish (buf : FrameBuf n) (p : Byte) : FrameBuf n := buf.put 2 [lenFor p]

def len (buf : FrameBuf n) : Byte := buf.bytes.getD 2 0

def covered (buf : FrameBuf n) : List Byte := buf.bytes.take (coveredLen buf.len)

def setCrc (buf : FrameBuf n) (crc : UInt16) : FrameBuf n :=
  buf.put (coveredLen buf.len) [crc.toUInt8, (crc >>> 8).toUInt8]

def frame (buf : FrameBuf n) : List Byte := buf.bytes.take (footprint buf.len)

/-- `seal`: store the CRC of the covered span and give the frame. -/
def sealCrc (buf : FrameBuf n) : List Byte := (buf.setCrc (Crc.oscCrc buf.covered)).frame

/-- The sealed frame of a payload. -/
def sealed (buf : FrameBuf n) (id : Id) (inst : Inst) (payload : List Byte) : List Byte :=
  (((buf.start id inst).payloadMut payload).finish (UInt8.ofNat payload.length)).sealCrc

end FrameBuf

/-! ## Bytes in place -/

theorem copyAt_append (front old : List Byte) {back src : List Byte} (h : old.length = src.length) :
    copyAt (front ++ (old ++ back)) front.length src = front ++ (src ++ back) := by
  rw [copyAt, List.take_left, ← List.drop_drop, List.drop_left, ← h, List.drop_left,
    List.append_assoc]

/-- A buffer with room for a frame: header, payload, CRC, and the rest. -/
theorem exists_places (bytes : List Byte) (p : ℕ) (h : 6 + p ≤ bytes.length) :
    ∃ b0 b1 b2 b3 c0 c1 old back, old.length = p ∧
      bytes = b0 :: b1 :: b2 :: b3 :: (old ++ c0 :: c1 :: back) := by
  have hlength : (bytes.take 4).length = 4 := by
    rw [List.length_take]
    omega
  have hcrc : ((bytes.drop 4).drop p).length ≥ 2 := by
    rw [List.length_drop, List.length_drop]
    omega
  obtain ⟨b0, b1, b2, b3, hhead⟩ : ∃ b0 b1 b2 b3, bytes.take 4 = [b0, b1, b2, b3] :=
    match bytes.take 4, hlength with
    | [b0, b1, b2, b3], _ => ⟨b0, b1, b2, b3, rfl⟩
  obtain ⟨c0, c1, back, hback⟩ : ∃ c0 c1 back, (bytes.drop 4).drop p = c0 :: c1 :: back :=
    match (bytes.drop 4).drop p, hcrc with
    | c0 :: c1 :: back, _ => ⟨c0, c1, back, rfl⟩
  refine ⟨b0, b1, b2, b3, c0, c1, (bytes.drop 4).take p, back, ?_, ?_⟩
  · rw [List.length_take, List.length_drop]
    omega
  · rw [← hback, List.take_append_drop]
    exact (List.take_append_drop 4 bytes).symm.trans (congrArg (· ++ bytes.drop 4) hhead)

theorem toNat_lenFor {p : ℕ} (h : p ≤ maxPayload) : (lenFor (UInt8.ofNat p)).toNat = 3 + p := by
  have hp : p ≤ 252 := h
  rw [lenFor, UInt8.toNat_add, UInt8.toNat_ofNat']
  change (3 + p % 256) % 256 = 3 + p
  omega

theorem coveredLen_lenFor {p : ℕ} (h : p ≤ maxPayload) :
    coveredLen (lenFor (UInt8.ofNat p)) = 4 + p := by
  rw [coveredLen, toNat_lenFor h]
  omega

theorem footprint_lenFor {p : ℕ} (h : p ≤ maxPayload) :
    footprint (lenFor (UInt8.ofNat p)) = 6 + p := by
  rw [footprint, toNat_lenFor h]
  omega

namespace FrameBuf

theorem bytes_put {n : ℕ} {buf : FrameBuf n} (front old : List Byte) {back src : List Byte}
    (hbytes : buf.bytes = front ++ (old ++ back)) (h : old.length = src.length) :
    (buf.put front.length src).bytes = front ++ (src ++ back) := by
  have hfits : front.length + src.length ≤ n := by
    rw [← buf.length_eq, hbytes, List.length_append, List.length_append]
    omega
  rw [put, dif_pos hfits]
  simp only [hbytes, copyAt_append front old h]

/-- What a `FrameBuf` seals is the wire frame. -/
theorem sealed_eq {n : ℕ} (buf : FrameBuf n) (id : Id) (inst : Inst) {payload : List Byte}
    (hfits : payload.length ≤ maxPayload) (hroom : 6 + payload.length ≤ n) :
    buf.sealed id inst payload = wireFrame id inst payload := by
  obtain ⟨b0, b1, b2, b3, c0, c1, old, back, hold, hbytes⟩ :=
    exists_places buf.bytes payload.length (by rw [buf.length_eq]; exact hroom)
  generalize hlen : lenFor (UInt8.ofNat payload.length) = len
  have hcov : coveredLen len = 4 + payload.length := by rw [← hlen, coveredLen_lenFor hfits]
  have hfoot : footprint len = 6 + payload.length := by rw [← hlen, footprint_lenFor hfits]
  have hstart : (buf.start id inst).bytes =
      0 :: id.byte :: 0 :: inst.byte :: (old ++ c0 :: c1 :: back) :=
    bytes_put [] [b0, b1, b2, b3] hbytes rfl
  have hpayload : ((buf.start id inst).payloadMut payload).bytes =
      0 :: id.byte :: 0 :: inst.byte :: (payload ++ c0 :: c1 :: back) :=
    bytes_put [0, id.byte, 0, inst.byte] old hstart hold
  have hfinish : (((buf.start id inst).payloadMut payload).finish
      (UInt8.ofNat payload.length)).bytes =
      0 :: id.byte :: len :: inst.byte :: (payload ++ c0 :: c1 :: back) := by
    rw [finish, hlen]
    exact bytes_put [0, id.byte] [0] hpayload rfl
  rw [sealed]
  generalize ((buf.start id inst).payloadMut payload).finish (UInt8.ofNat payload.length) = done
    at hfinish ⊢
  have hdone : done.len = len := by
    rw [FrameBuf.len, hfinish]
    rfl
  have hcovered : done.covered = 0 :: id.byte :: len :: inst.byte :: payload := by
    rw [covered, hdone, hcov, hfinish, Nat.add_comm]
    simp only [List.take_succ_cons, List.take_left]
  have hcrc : ∀ crc, (done.setCrc crc).bytes =
      0 :: id.byte :: len :: inst.byte ::
        (payload ++ crc.toUInt8 :: (crc >>> 8).toUInt8 :: back) := by
    intro crc
    have hfront : coveredLen done.len = (0 :: id.byte :: len :: inst.byte :: payload).length := by
      rw [hdone, hcov, Nat.add_comm]
      rfl
    rw [setCrc, hfront]
    exact bytes_put _ [c0, c1] hfinish rfl
  rw [sealCrc, frame, FrameBuf.len, hcrc, hcovered, Crc.oscCrc_zero_cons, wireFrame, frameBytes,
    hlen]
  change List.take (footprint len) _ = _
  rw [hfoot, Nat.add_comm]
  simp only [List.take_succ_cons]
  rw [List.take_length_add_append]
  rfl

end FrameBuf

/-! ## One transmission -/

/-- The outcomes of the arm completions, and what is left. -/
structure Transmission where
  outs : List TxOut
  tx : TxEngine
  crc : CrcEngine

/-- The next `n` arm completions. -/
def TxEngine.completions (tx : TxEngine) (crc : CrcEngine) : ℕ → Transmission
  | 0 => ⟨[], tx, crc⟩
  | n + 1 =>
      let (out, tx', crc') := tx.onArmComplete crc
      let after := completions tx' crc' n
      ⟨out :: after.outs, after.tx, after.crc⟩

/-- The trigger and the `n` arm completions behind it. -/
def TxEngine.transmit (tx : TxEngine) (crc : CrcEngine) (overResult : Option ResultCode) (n : ℕ) :
    Transmission :=
  let (tx', crc') := tx.trigger crc overResult
  tx'.completions crc' n

/-! ## The even bulk and the odd byte -/

theorem oscCrc_bulk_even (v : UInt16) {covered : List Byte} (h : covered.length % 2 = 0) :
    Crc.oscCrcContinue v (covered.take (covered.length - covered.length % 2)) =
      Crc.oscCrcContinue v covered := by
  rw [h, Nat.sub_zero, List.take_length]

theorem oscCrc_bulk_odd (v : UInt16) {covered : List Byte} (h : covered.length % 2 = 1) :
    Crc.oscCrcContinue (Crc.oscCrcContinue v (covered.take (covered.length - covered.length % 2)))
        [covered.getD (covered.length - 1) 0] =
      Crc.oscCrcContinue v covered := by
  have hlt : covered.length - 1 < covered.length := by omega
  rw [← Crc.oscCrcContinue_append, h, List.getD_eq_getElem _ _ hlt]
  congr 1
  conv_rhs => rw [← List.take_append_drop (covered.length - 1) covered]
  rw [List.drop_eq_getElem_cons hlt, List.drop_of_length_le (by omega)]

/-! ## The snapshot -/

theorem snapshot_snapshotAt {crc : CrcEngine} {off : ℕ} (span : List Byte)
    (h : off ≤ crc.snapshot.length) :
    ((crc.snapshotAt off span).snapshot).take (off + span.length) =
      crc.snapshot.take off ++ span := by
  have hpadded : off ≤ (crc.snapshot ++
      List.replicate (off + span.length - crc.snapshot.length) 0).length := by
    rw [List.length_append]
    omega
  have hfront : ((crc.snapshot ++
      List.replicate (off + span.length - crc.snapshot.length) 0).take off ++ span).length =
      off + span.length := by
    rw [List.length_append, List.length_take_of_le hpadded]
  simp only [CrcEngine.snapshotAt]
  rw [List.take_left' hfront, List.take_append_of_le_length h]

theorem snapshotSpans_take (crc : CrcEngine) {off : ℕ} (spans : List (List Byte))
    (h : off ≤ crc.snapshot.length) :
    (TxEngine.snapshotSpans crc off spans).snapshot.take (off + spans.flatten.length) =
      crc.snapshot.take off ++ spans.flatten := by
  induction spans generalizing crc off with
  | nil => simp [TxEngine.snapshotSpans]
  | cons span spans ih =>
      rw [TxEngine.snapshotSpans]
      cases hspan : span.isEmpty with
      | true =>
          rw [List.isEmpty_iff.mp hspan]
          simpa using ih crc h
      | false =>
          have hlong : off + span.length ≤ (crc.snapshotAt off span).snapshot.length := by
            simp only [CrcEngine.snapshotAt, List.length_append, List.length_take, List.length_drop,
              List.length_replicate]
            omega
          simp only [Bool.false_eq_true, if_false, List.flatten_cons, List.length_append]
          rw [← Nat.add_assoc, ih _ hlong, snapshot_snapshotAt span h, List.append_assoc]

/-! ## The two layouts -/

section Layout

variable (tx : TxEngine) (crc : CrcEngine) (id : Byte) (result : ResultCode) (alert : Bool)
  (spans : List (List Byte))

/-- A payload small enough to copy lies in the buffer between the header and the CRC. -/
theorem stageGather_small (hidle : tx.busy = false) (hbuf : tx.buf.length = replyBuf)
    (hsmall : spans.flatten.length ≤ smallCopyMax) :
    ∃ back, tx.stageGather crc id result alert spans =
      (.ok (), { tx with
        buf := 0 :: id :: lenFor (UInt8.ofNat spans.flatten.length) ::
          (Inst.status result alert).byte :: (spans.flatten ++ 0 :: 0 :: back)
        arms := [.buf 1 (3 + spans.flatten.length), .buf (4 + spans.flatten.length) 2]
        feeds := [.buf 0 (4 + spans.flatten.length - (4 + spans.flatten.length) % 2)]
        tail :=
          if (4 + spans.flatten.length) % 2 == 1 then some (.buf (3 + spans.flatten.length))
          else none
        crcOff := 4 + spans.flatten.length
        result := result
        alert := alert
        state := .staged none }, crc) := by
  have hp : spans.flatten.length ≤ 2 := hsmall
  have hfits : ¬ spans.flatten.length > maxPayload := by
    rw [gt_iff_lt, maxPayload]
    omega
  have hcov := coveredLen_lenFor (Nat.le_of_not_lt hfits)
  obtain ⟨b0, b1, b2, b3, c0, c1, old, back, hold, hbytes⟩ :=
    exists_places tx.buf spans.flatten.length (by rw [hbuf, replyBuf]; omega)
  generalize hlen : lenFor (UInt8.ofNat spans.flatten.length) = len at hcov ⊢
  have hheader : copyAt tx.buf 0 [0, id, len, (Inst.status result alert).byte] =
      0 :: id :: len :: (Inst.status result alert).byte :: (old ++ c0 :: c1 :: back) := by
    rw [hbytes]
    exact copyAt_append [] [b0, b1, b2, b3] rfl
  have hpayload : copyAt (0 :: id :: len :: (Inst.status result alert).byte ::
        (old ++ c0 :: c1 :: back)) 4 spans.flatten =
      0 :: id :: len :: (Inst.status result alert).byte :: (spans.flatten ++ c0 :: c1 :: back) :=
    copyAt_append [0, id, len, (Inst.status result alert).byte] old hold
  have hzero : copyAt (0 :: id :: len :: (Inst.status result alert).byte ::
        (spans.flatten ++ c0 :: c1 :: back)) (4 + spans.flatten.length) [0, 0] =
      0 :: id :: len :: (Inst.status result alert).byte :: (spans.flatten ++ 0 :: 0 :: back) := by
    rw [Nat.add_comm]
    exact copyAt_append (0 :: id :: len :: (Inst.status result alert).byte :: spans.flatten)
      [c0, c1] rfl
  have harm : 4 + spans.flatten.length - 1 = 3 + spans.flatten.length := by omega
  refine ⟨back, ?_⟩
  simp only [TxEngine.stageGather, hidle, Bool.false_eq_true, if_false, if_neg hfits, if_pos hsmall,
    TxEngine.stageSmall, hlen, hcov, hheader, hpayload, hzero, harm]

/-- A larger payload lies in the snapshot, and the buffer holds header and CRC alone. -/
theorem stageGather_large (hidle : tx.busy = false) (hbuf : tx.buf.length = replyBuf)
    (hlarge : ¬ spans.flatten.length ≤ smallCopyMax) (hfits : spans.flatten.length ≤ maxPayload) :
    ∃ back, tx.stageGather crc id result alert spans =
      (.ok (), { tx with
        buf := 0 :: id :: lenFor (UInt8.ofNat spans.flatten.length) ::
          (Inst.status result alert).byte :: 0 :: 0 :: back
        arms := [.buf 1 3, .ext spans.flatten.length, .buf 4 2]
        feeds := [.buf 0 4, .ext (spans.flatten.length - spans.flatten.length % 2)]
        tail :=
          if spans.flatten.length % 2 == 1 then some (.ext (spans.flatten.length - 1)) else none
        crcOff := 4
        result := result
        alert := alert
        state := .staged none }, TxEngine.snapshotSpans crc 0 spans) := by
  obtain ⟨b0, b1, b2, b3, c0, c1, old, back, hold, hbytes⟩ :=
    exists_places tx.buf 0 (by rw [hbuf, replyBuf]; omega)
  have hold : old = [] := List.length_eq_zero_iff.mp hold
  refine ⟨back, ?_⟩
  simp only [TxEngine.stageGather, hidle, Bool.false_eq_true, if_false,
    if_neg (Nat.not_lt.mpr hfits), if_neg hlarge, TxEngine.stageLarge, hbytes, hold]
  rfl

end Layout

/-! ## From trigger to release -/

section Run

variable {tx : TxEngine} {crc : CrcEngine} {overResult : Option ResultCode} {key : Option Byte}

/-- The buffer as the trigger leaves it. -/
def TxEngine.settled (tx : TxEngine) (overResult : Option ResultCode) : List Byte :=
  copyAt tx.buf 3 [(Inst.status (overResult.getD tx.result) tx.alert).byte]

theorem trigger_of_staged (hstate : tx.state = .staged key) :
    tx.trigger crc overResult =
      let tx' := { tx with buf := tx.settled overResult }
      ({ tx' with
          wire := tx.wire ++
            [.startFrame, .send (tx'.resolveArm crc.reset (tx.arms.getD 0 (.buf 0 0)))]
          state := .streaming 1 },
        crc.reset.feed (tx.feeds.getD 0 (.buf 0 0)).off
          (tx'.resolveArm crc.reset (tx.feeds.getD 0 (.buf 0 0)))) := by
  have hstaged : (!tx.staged) = false := by
    simp only [TxEngine.staged, hstate, Bool.not_true]
  rw [TxEngine.trigger, hstaged]
  rfl

/-- The CRC lands behind the bytes at the front, the odd covered byte folded in. -/
theorem patchCrc_of_ready (tx : TxEngine) (crc : CrcEngine) (hready : crc.stalled = false)
    {covered c back : List Byte} {v : UInt16}
    (hbuf : tx.buf = covered ++ (c ++ back)) (hc : c.length = 2) (hoff : tx.crcOff = covered.length)
    (hfold : (match tx.tail with
      | some (.buf off) => Crc.oscCrcContinue crc.value [tx.buf.getD off 0]
      | some (.ext off) => Crc.oscCrcContinue crc.value [crc.snapshot.getD off 0]
      | none => crc.value) = v) :
    tx.patchCrc crc =
      { tx with buf := covered ++ (leBytes16 v ++ back) } := by
  have hresult : crc.result = some crc.value := by rw [CrcEngine.result, hready]; rfl
  rw [TxEngine.patchCrc, hresult]
  subst hfold
  dsimp only
  rw [hoff, hbuf, copyAt_append _ _ hc]
  rfl

theorem completions_succ {out : TxOut} {tx' : TxEngine} {crc' : CrcEngine}
    (h : tx.onArmComplete crc = (out, tx', crc')) (n : ℕ) :
    tx.completions crc (n + 1) =
      ⟨out :: (tx'.completions crc' n).outs, (tx'.completions crc' n).tx,
        (tx'.completions crc' n).crc⟩ := by
  rw [TxEngine.completions, h]

/-- Behind the last arm the wire is released. -/
theorem completions_done {next : ℕ} (hstate : tx.state = .streaming next)
    (hdone : ¬ next < tx.arms.length) :
    tx.completions crc 1 =
      ⟨[.released], { tx with wire := tx.wire ++ [.release], state := .idle }, crc⟩ := by
  have hout : tx.onArmComplete crc =
      (.released, { tx with wire := tx.wire ++ [.release], state := .idle }, crc) := by
    simp only [TxEngine.onArmComplete, hstate, if_neg hdone]
  rw [completions_succ hout 0]
  rfl

/-- The last two completions: the CRC lands and its arm goes out, then the release. -/
theorem completions_last (tx : TxEngine) (crc : CrcEngine) {next : ℕ}
    (hstate : tx.state = .streaming next)
    (hlength : tx.arms.length = next + 1) (hfeeds : tx.feeds.length ≤ next)
    {front back : List Byte} {v : UInt16}
    (harm : tx.arms.getD next (.buf 0 0) = .buf front.length 2)
    (hpatch : tx.patchCrc crc = { tx with buf := front ++ (leBytes16 v ++ back) }) :
    tx.completions crc 2 =
      ⟨[.armed, .released], { tx with
        buf := front ++ (leBytes16 v ++ back)
        wire := tx.wire ++ [.send (leBytes16 v), .release]
        state := .idle }, crc⟩ := by
  have hmore : next < tx.arms.length := by omega
  have hdone : ¬ next + 1 < tx.arms.length := by omega
  have hsent : ((front ++ (leBytes16 v ++ back)).drop front.length).take 2 = leBytes16 v := by
    rw [List.drop_left]
    rfl
  let sent : TxEngine := { tx with
    buf := front ++ (leBytes16 v ++ back)
    wire := tx.wire ++ [.send (leBytes16 v)]
    state := .streaming (next + 1) }
  have hfirst : tx.onArmComplete crc = (.armed, sent, crc) := by
    simp only [TxEngine.onArmComplete, hstate, if_pos hmore, if_neg (Nat.not_lt.mpr hfeeds), hpatch,
      harm, TxEngine.resolveArm, hsent]
    rfl
  have hrest : sent.completions crc 1 = ⟨[.released],
      { sent with wire := sent.wire ++ [.release], state := .idle }, crc⟩ :=
    completions_done rfl hdone
  rw [completions_succ hfirst 1, hrest]
  simp only [sent, List.append_assoc, List.nil_append, List.cons_append]

theorem take_append_bulk (covered rest : List Byte) :
    (covered ++ rest).take (covered.length - covered.length % 2) =
      covered.take (covered.length - covered.length % 2) :=
  List.take_append_of_le_length (Nat.sub_le _ _)

/-- The bulk of the covered bytes and the odd one behind it. -/
theorem fold_bulk (v : UInt16) (covered : List Byte) :
    (if covered.length % 2 == 1 then
        Crc.oscCrcContinue
          (Crc.oscCrcContinue v (covered.take (covered.length - covered.length % 2)))
          [covered.getD (covered.length - 1) 0]
      else Crc.oscCrcContinue v (covered.take (covered.length - covered.length % 2))) =
      Crc.oscCrcContinue v covered := by
  obtain heven | hodd := Nat.mod_two_eq_zero_or_one covered.length
  · rw [if_neg (by simp [heven]), oscCrc_bulk_even v heven]
  · rw [if_pos (by simp [hodd]), oscCrc_bulk_odd v hodd]

/-- Header and payload in one arm, the CRC in the other. -/
theorem transmit_copied (tx : TxEngine) (crc : CrcEngine) (overResult : Option ResultCode)
    {covered back : List Byte} (hstate : tx.state = .staged key)
    (harms : tx.arms = [.buf 1 (covered.length - 1), .buf covered.length 2])
    (hfeeds : tx.feeds = [.buf 0 (covered.length - covered.length % 2)])
    (htail : tx.tail =
      if covered.length % 2 == 1 then some (.buf (covered.length - 1)) else none)
    (hoff : tx.crcOff = covered.length) (hready : crc.stalled = false)
    (hne : covered ≠ []) (hbuf : tx.settled overResult = covered ++ ([0, 0] ++ back)) :
    tx.transmit crc overResult 2 =
      { outs := [.armed, .released]
        tx := { tx with
          buf := covered ++ (leBytes16 (Crc.oscCrc covered) ++ back)
          wire := tx.wire ++
            [.startFrame, .send (covered.drop 1), .send (leBytes16 (Crc.oscCrc covered)), .release]
          state := .idle }
        crc := crc.reset.feed 0 (covered.take (covered.length - covered.length % 2)) } := by
  have hpos : 0 < covered.length := List.length_pos_iff.mpr hne
  have hfirst : ((covered ++ ([0, 0] ++ back)).drop 1).take (covered.length - 1) =
      covered.drop 1 := by
    rw [List.drop_append_of_le_length hpos, ← List.length_drop, List.take_left]
  obtain ⟨wire, buf, arms, feeds, off, state, result, tail, alert, misses⟩ := tx
  dsimp only at hstate harms hfeeds htail hoff
  subst hstate harms hfeeds htail hoff
  let fed : CrcEngine := crc.reset.feed 0 (covered.take (covered.length - covered.length % 2))
  let sent : TxEngine := ⟨wire ++ [.startFrame, .send (covered.drop 1)],
    covered ++ ([0, 0] ++ back), [.buf 1 (covered.length - 1), .buf covered.length 2],
    [.buf 0 (covered.length - covered.length % 2)], covered.length, .streaming 1, result,
    if covered.length % 2 == 1 then some (.buf (covered.length - 1)) else none, alert, misses⟩
  have hpatch : sent.patchCrc fed =
      { sent with buf := covered ++ (leBytes16 (Crc.oscCrc covered) ++ back) } := by
    refine patchCrc_of_ready sent fed hready rfl rfl rfl ?_
    have hlast : (covered ++ ([0, 0] ++ back)).getD (covered.length - 1) 0 =
        covered.getD (covered.length - 1) 0 := List.getD_append _ _ _ _ (by omega)
    refine Eq.trans ?_ (fold_bulk 0 covered)
    dsimp only [sent]
    split_ifs with hodd
    · rw [← hlast]
      rfl
    · rfl
  have hrest : sent.completions fed 2 = _ :=
    completions_last sent fed rfl rfl le_rfl rfl hpatch
  have htrigger : (⟨wire, buf, [.buf 1 (covered.length - 1), .buf covered.length 2],
      [.buf 0 (covered.length - covered.length % 2)], covered.length, .staged key, result,
      if covered.length % 2 == 1 then some (.buf (covered.length - 1)) else none, alert, misses⟩ :
        TxEngine).trigger crc overResult = (sent, fed) := by
    rw [trigger_of_staged rfl]
    simp only [List.getD_cons_zero, TxEngine.resolveArm, hbuf, hfirst, List.drop_zero,
      take_append_bulk]
    rfl
  rw [TxEngine.transmit, htrigger]
  simp only [hrest]
  simp [sent, fed]

/-- Header, payload and CRC in an arm each, the payload from the snapshot. -/
theorem transmit_streamed (tx : TxEngine) (crc : CrcEngine) (overResult : Option ResultCode)
    {header payload back : List Byte} (hstate : tx.state = .staged key)
    (harms : tx.arms = [.buf 1 3, .ext payload.length, .buf 4 2])
    (hfeeds : tx.feeds = [.buf 0 4, .ext (payload.length - payload.length % 2)])
    (htail : tx.tail =
      if payload.length % 2 == 1 then some (.ext (payload.length - 1)) else none)
    (hoff : tx.crcOff = 4) (hready : crc.stalled = false) (hheader : header.length = 4)
    (hne : payload ≠ []) (hbuf : tx.settled overResult = header ++ ([0, 0] ++ back))
    (hsnap : crc.snapshot.take payload.length = payload) :
    tx.transmit crc overResult 3 =
      { outs := [.armed, .armed, .released]
        tx := { tx with
          buf := header ++ (leBytes16 (Crc.oscCrc (header ++ payload)) ++ back)
          wire := tx.wire ++
            [.startFrame, .send (header.drop 1), .send payload,
              .send (leBytes16 (Crc.oscCrc (header ++ payload))), .release]
          state := .idle }
        crc := (crc.reset.feed 0 header).feed 0
          (payload.take (payload.length - payload.length % 2)) } := by
  have hpos : 0 < payload.length := List.length_pos_iff.mpr hne
  have hfirst : ((header ++ ([0, 0] ++ back)).drop 1).take 3 = header.drop 1 := by
    have hthree : (header.drop 1).length = 3 := by rw [List.length_drop, hheader]
    rw [List.drop_append_of_le_length (by omega), ← hthree, List.take_left]
  have hhead : (header ++ ([0, 0] ++ back)).take 4 = header := by
    rw [← hheader, List.take_left]
  have hbulk : crc.snapshot.take (payload.length - payload.length % 2) =
      payload.take (payload.length - payload.length % 2) := by
    have htaken := congrArg (List.take (payload.length - payload.length % 2)) hsnap
    rwa [List.take_take, Nat.min_eq_left (Nat.sub_le _ _)] at htaken
  have hodd : crc.snapshot.getD (payload.length - 1) 0 = payload.getD (payload.length - 1) 0 := by
    have htaken : (crc.snapshot.take payload.length).getD (payload.length - 1) 0 =
        payload.getD (payload.length - 1) 0 := by rw [hsnap]
    rwa [List.getD_eq_getElem?_getD, List.getElem?_take_of_lt (by omega),
      ← List.getD_eq_getElem?_getD] at htaken
  obtain ⟨wire, buf, arms, feeds, off, state, result, tail, alert, misses⟩ := tx
  dsimp only at hstate harms hfeeds htail hoff
  subst hstate harms hfeeds htail hoff
  let fed : CrcEngine := crc.reset.feed 0 header
  let sent : TxEngine := ⟨wire ++ [.startFrame, .send (header.drop 1)],
    header ++ ([0, 0] ++ back), [.buf 1 3, .ext payload.length, .buf 4 2],
    [.buf 0 4, .ext (payload.length - payload.length % 2)], 4, .streaming 1, result,
    if payload.length % 2 == 1 then some (.ext (payload.length - 1)) else none, alert, misses⟩
  let fed' : CrcEngine := fed.feed 0 (payload.take (payload.length - payload.length % 2))
  let sent' : TxEngine := { sent with wire := sent.wire ++ [.send payload], state := .streaming 2 }
  have htrigger : (⟨wire, buf, [.buf 1 3, .ext payload.length, .buf 4 2],
      [.buf 0 4, .ext (payload.length - payload.length % 2)], 4, .staged key, result,
      if payload.length % 2 == 1 then some (.ext (payload.length - 1)) else none, alert, misses⟩ :
        TxEngine).trigger crc overResult = (sent, fed) := by
    rw [trigger_of_staged rfl]
    simp only [List.getD_cons_zero, TxEngine.resolveArm, hbuf, hfirst, List.drop_zero, hhead]
    rfl
  have hmiddle : sent.onArmComplete fed = (.armed, sent', fed') := by
    have hfeed : sent.resolveArm fed (.ext (payload.length - payload.length % 2)) =
        payload.take (payload.length - payload.length % 2) := hbulk
    have hsend : sent.resolveArm fed' (.ext payload.length) = payload := hsnap
    have hstep : sent.onArmComplete fed =
        (.armed, { sent with
          wire := sent.wire ++ [.send (sent.resolveArm
            (fed.feed 0 (sent.resolveArm fed (.ext (payload.length - payload.length % 2))))
            (.ext payload.length))]
          state := .streaming 2 },
          fed.feed 0 (sent.resolveArm fed (.ext (payload.length - payload.length % 2)))) := rfl
    rw [hstep, hfeed, hsend]
  have hpatch : sent'.patchCrc fed' =
      { sent' with buf := header ++ (leBytes16 (Crc.oscCrc (header ++ payload)) ++ back) } := by
    refine patchCrc_of_ready sent' fed' hready rfl rfl hheader.symm ?_
    rw [Crc.oscCrc, Crc.oscCrcContinue_append]
    refine Eq.trans ?_ (fold_bulk (Crc.oscCrcContinue 0 header) payload)
    dsimp only [sent', sent]
    split_ifs
    · rw [← hodd]
      rfl
    · rfl
  have hrest : sent'.completions fed' 2 = _ :=
    completions_last sent' fed' rfl rfl le_rfl (congrArg (Arm.buf · 2) hheader.symm) hpatch
  rw [TxEngine.transmit, htrigger]
  simp only [completions_succ hmiddle, hrest]
  simp [sent, sent', fed, fed']

end Run

/-- The transmission of a staged reply, whatever the engine did since, its snapshot kept. -/
def TxEngine.reply (tx : TxEngine) (crc mid : CrcEngine) (id : Byte) (result : ResultCode)
    (alert : Bool) (spans : List (List Byte)) (overResult : Option ResultCode) (n : ℕ) :
    Transmission :=
  (tx.stageGather crc id result alert spans).2.1.transmit mid overResult n

/-- What a transmission of the frame `covered` puts on the wire. -/
structure Transmits (tx : TxEngine) (mid : CrcEngine) (covered : List Byte)
    (arms : List (List Byte)) (t : Transmission) : Prop where
  outs_eq : t.outs = List.replicate (arms.length - 1) .armed ++ [.released]
  wire_eq : t.tx.wire = tx.wire ++ .startFrame :: (arms.map .send ++ [.release])
  idle : t.tx.busy = false
  arms_eq : arms.flatten = covered.drop 1 ++ leBytes16 (Crc.oscCrc covered)
  arms_ne : ∀ arm ∈ arms, arm ≠ []
  feeds_even : ∀ span ∈ t.crc.fed, span.1 % 2 = 0 ∧ span.2.length % 2 = 0
  crc_eq : t.crc = t.crc.fed.foldl (fun crc span => crc.feed span.1 span.2) mid.reset

theorem even_bulk (covered : List Byte) :
    (covered.take (covered.length - covered.length % 2)).length % 2 = 0 := by
  rw [List.length_take]
  omega

section Reply

variable {tx : TxEngine} {mid : CrcEngine} (crc : CrcEngine) (id : Byte) (result : ResultCode)
  (alert : Bool) {spans : List (List Byte)} (overResult : Option ResultCode)

/-- The bytes a reply's CRC covers. -/
def coveredBytes (id : Byte) (inst : Inst) (payload : List Byte) : List Byte :=
  0 :: id :: lenFor (UInt8.ofNat payload.length) :: inst.byte :: payload

theorem transmits_small (hidle : tx.busy = false) (hbuf : tx.buf.length = replyBuf)
    (hsmall : spans.flatten.length ≤ smallCopyMax) (hready : mid.stalled = false) :
    ∃ arms, Transmits tx mid
      (coveredBytes id (Inst.status (overResult.getD result) alert) spans.flatten) arms
      (tx.reply crc mid id result alert spans overResult arms.length) := by
  obtain ⟨back, hstage⟩ := stageGather_small tx crc id result alert spans hidle hbuf hsmall
  generalize hcovered :
    coveredBytes id (Inst.status (overResult.getD result) alert) spans.flatten = covered
  have hlength : 4 + spans.flatten.length = covered.length := by
    rw [← hcovered]
    simp only [coveredBytes, List.length_cons]
    omega
  have hthree : 3 + spans.flatten.length = covered.length - 1 := by omega
  have hne : covered ≠ [] := by
    rw [← hcovered]
    exact List.cons_ne_nil _ _
  rw [hlength, hthree] at hstage
  have hstate : (tx.stageGather crc id result alert spans).2.1.state = .staged none := by
    rw [hstage]
  have hsettled : (tx.stageGather crc id result alert spans).2.1.settled overResult =
      covered ++ ([0, 0] ++ back) := by
    rw [hstage, ← hcovered]
    rfl
  have hrun := transmit_copied _ mid overResult hstate (by rw [hstage]) (by rw [hstage])
    (by rw [hstage]) (by rw [hstage]) hready hne hsettled
  have hwire : (tx.stageGather crc id result alert spans).2.1.wire = tx.wire := by rw [hstage]
  refine ⟨[covered.drop 1, leBytes16 (Crc.oscCrc covered)], ?_⟩
  show Transmits _ _ _ _ (TxEngine.transmit _ mid overResult 2)
  rw [hrun, hwire]
  refine ⟨rfl, rfl, rfl, ?_, ?_, ?_, rfl⟩
  · simp
  · simp only [List.mem_cons, List.not_mem_nil, or_false]
    rintro arm (rfl | rfl)
    · rw [← hcovered]
      exact List.cons_ne_nil _ _
    · exact List.cons_ne_nil _ _
  · rintro span hspan
    obtain rfl := List.mem_singleton.mp hspan
    exact ⟨rfl, even_bulk covered⟩

theorem transmits_large (hidle : tx.busy = false) (hbuf : tx.buf.length = replyBuf)
    (hlarge : ¬ spans.flatten.length ≤ smallCopyMax) (hfits : spans.flatten.length ≤ maxPayload)
    (hready : mid.stalled = false)
    (hsnap : mid.snapshot = (tx.stageGather crc id result alert spans).2.2.snapshot) :
    ∃ arms, Transmits tx mid
      (coveredBytes id (Inst.status (overResult.getD result) alert) spans.flatten) arms
      (tx.reply crc mid id result alert spans overResult arms.length) := by
  obtain ⟨back, hstage⟩ := stageGather_large tx crc id result alert spans hidle hbuf hlarge hfits
  have htaken : mid.snapshot.take spans.flatten.length = spans.flatten := by
    have hwhole := snapshotSpans_take crc spans (Nat.zero_le crc.snapshot.length)
    rw [Nat.zero_add, List.take_zero, List.nil_append] at hwhole
    rw [hsnap, hstage]
    exact hwhole
  have hne : spans.flatten ≠ [] := by
    intro hnil
    rw [hnil] at hlarge
    exact hlarge (Nat.zero_le _)
  generalize hheader : [0, id, lenFor (UInt8.ofNat spans.flatten.length),
    (Inst.status (overResult.getD result) alert).byte] = header
  have hcovered : coveredBytes id (Inst.status (overResult.getD result) alert) spans.flatten =
      header ++ spans.flatten := by
    rw [← hheader]
    rfl
  have hfour : header.length = 4 := by
    rw [← hheader]
    rfl
  have hstate : (tx.stageGather crc id result alert spans).2.1.state = .staged none := by
    rw [hstage]
  have hsettled : (tx.stageGather crc id result alert spans).2.1.settled overResult =
      header ++ ([0, 0] ++ back) := by
    rw [hstage, ← hheader]
    rfl
  have hrun := transmit_streamed _ mid overResult hstate (by rw [hstage]) (by rw [hstage])
    (by rw [hstage]) (by rw [hstage]) hready hfour hne hsettled htaken
  have hwire : (tx.stageGather crc id result alert spans).2.1.wire = tx.wire := by rw [hstage]
  refine ⟨[header.drop 1, spans.flatten, leBytes16 (Crc.oscCrc (header ++ spans.flatten))], ?_⟩
  show Transmits _ _ _ _ (TxEngine.transmit _ mid overResult 3)
  rw [hrun, hwire, hcovered]
  refine ⟨rfl, rfl, rfl, ?_, ?_, ?_, rfl⟩
  · rw [List.drop_append_of_le_length (by omega)]
    simp
  · simp only [List.mem_cons, List.not_mem_nil, or_false]
    rintro arm (rfl | rfl | rfl)
    · rw [← hheader]
      exact List.cons_ne_nil _ _
    · exact hne
    · exact List.cons_ne_nil _ _
  · rintro span hspan
    obtain rfl | rfl := List.mem_pair.mp hspan
    · exact ⟨rfl, by rw [hfour]⟩
    · exact ⟨rfl, even_bulk spans.flatten⟩

end Reply

/-- From the trigger to the release, the arms of a reply are the frame a `FrameBuf` seals for it,
behind the alignment byte: `n` arms that each carry something, `n` completions, every span
the engine was fed aligned and of whole halfwords. -/
theorem reply_is_the_sealed_frame {n : ℕ} (frameBuf : FrameBuf n) {tx : TxEngine}
    {mid : CrcEngine} (crc : CrcEngine) (id : Byte) (result : ResultCode) (alert : Bool)
    {spans : List (List Byte)} (overResult : Option ResultCode) (hidle : tx.busy = false)
    (hbuf : tx.buf.length = replyBuf) (hfits : spans.flatten.length ≤ 252)
    (hroom : 6 + spans.flatten.length ≤ n)
    (hsnap : mid.snapshot = (tx.stageGather crc id result alert spans).2.2.snapshot)
    (hready : mid.stalled = false) :
    (tx.stageGather crc id result alert spans).1 = .ok () ∧
      ∃ arms : List (List Byte),
        let t := (tx.stageGather crc id result alert spans).2.1.transmit mid overResult arms.length
        t.outs = List.replicate (arms.length - 1) .armed ++ [.released] ∧
          t.tx.wire = tx.wire ++ .startFrame :: (arms.map .send ++ [.release]) ∧
          t.tx.busy = false ∧
          arms.flatten =
            (frameBuf.sealed ⟨id⟩ (Inst.status (overResult.getD result) alert)
              spans.flatten).drop 1 ∧
          (∀ arm ∈ arms, arm ≠ []) ∧
          (∀ span ∈ t.crc.fed, span.1 % 2 = 0 ∧ span.2.length % 2 = 0) ∧
          t.crc = t.crc.fed.foldl (fun crc span => crc.feed span.1 span.2) mid.reset := by
  have hok : (tx.stageGather crc id result alert spans).1 = .ok () := by
    have hwithin : ¬ spans.flatten.length > maxPayload := Nat.not_lt.mpr hfits
    simp only [TxEngine.stageGather, hidle, Bool.false_eq_true, if_false, if_neg hwithin]
  have hsealed : (frameBuf.sealed ⟨id⟩ (Inst.status (overResult.getD result) alert)
      spans.flatten).drop 1 =
        (coveredBytes id (Inst.status (overResult.getD result) alert) spans.flatten).drop 1 ++
          leBytes16 (Crc.oscCrc
            (coveredBytes id (Inst.status (overResult.getD result) alert) spans.flatten)) := by
    rw [FrameBuf.sealed_eq frameBuf _ _ hfits hroom, coveredBytes, Crc.oscCrc_zero_cons]
    rfl
  refine ⟨hok, ?_⟩
  rw [hsealed]
  by_cases hsmall : spans.flatten.length ≤ smallCopyMax
  · obtain ⟨arms, houts, hwire, hdone, harms, hne, hfeeds, hcrc⟩ :=
      transmits_small crc id result alert overResult hidle hbuf hsmall hready
    exact ⟨arms, houts, hwire, hdone, harms, hne, hfeeds, hcrc⟩
  · obtain ⟨arms, houts, hwire, hdone, harms, hne, hfeeds, hcrc⟩ :=
      transmits_large crc id result alert overResult hidle hbuf hsmall hfits hready hsnap
    exact ⟨arms, houts, hwire, hdone, harms, hne, hfeeds, hcrc⟩

/-- A late predecessor-silent answer of three bytes from two spans. -/
theorem reply_of_three_bytes :
    let staged := TxEngine.new.stageGather .new 5 .ok true [[1], [2, 3]]
    ∃ arms : List (List Byte),
      (staged.2.1.transmit staged.2.2 (some .predecessorSilent) arms.length).tx.wire =
          .startFrame :: (arms.map .send ++ [.release]) ∧
        arms.flatten =
          (wireFrame ⟨5⟩ (Inst.status .predecessorSilent true) [1, 2, 3]).drop 1 := by
  intro staged
  have hfits : [[1], [2, 3]].flatten.length ≤ 252 := by decide
  have hroom : 6 + [[1], [2, 3]].flatten.length ≤ 258 := by decide
  obtain ⟨-, arms, -, hwire, -, harms, -⟩ := reply_is_the_sealed_frame (FrameBuf.new 258)
    CrcEngine.new 5 .ok true (some .predecessorSilent) (show TxEngine.new.busy = false from rfl) rfl
    hfits hroom (show staged.2.2.snapshot = _ from rfl) rfl
  refine ⟨arms, hwire, ?_⟩
  rw [harms, FrameBuf.sealed_eq _ _ _ hfits hroom]
  rfl

end OpenServo.Bus
