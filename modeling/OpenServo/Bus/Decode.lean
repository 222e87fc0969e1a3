import OpenServo.Dispatch.Request
import OpenServo.Protocol.Parse

/-!
# Frame decoding

A whole frame as up to two ring segments, mapped to the request it carries,
its reply contract and its chain slot.  Plain operations address by frame ID;
group operations address by their id lists whatever the frame ID.
-/

namespace OpenServo.Bus

inductive Decoded (δ : Type) where
  | status
  | skip
  | own (req : Request δ) (ctx : RequestCtx) (slot : ℕ)
  deriving DecidableEq, Repr

def Decoded.map {δ ε : Type} (f : δ → ε) : Decoded δ → Decoded ε
  | status => status
  | skip => skip
  | own req ctx slot => own (req.map f) ctx slot

/-- The request of a MGMT payload. -/
def mgmtRequest (broadcast : Bool) (pay : FrameBytes) : Request FrameBytes :=
  match MgmtReq.parse pay with
  | none => .unsupported
  | some m =>
      match m.op with
      | .enum =>
          match EnumReq.parse m.args with
          | some e => .enumerate e.prefixLen e.pre
          | none => .unsupported
      | .assign =>
          match AssignReq.parse m.args with
          | some a => .assign a.uid a.newId
          | none => .unsupported
      | .cal =>
          match CalReq.parse m.args with
          | some c => if broadcast then .calibrate c.gapUs c.gaps else .unsupported
          | none => .unsupported
      | op => .mgmt op m.args

/-- The request of a plain operation. -/
def plainRequest (op : Opcode) (inst : Inst) (broadcast : Bool) (pay : FrameBytes) :
    Request FrameBytes :=
  match op with
  | .ping => .ping
  | .read =>
      if inst.profile then
        match ProfileReq.parse pay with
        | some r => .readProfile r.slot
        | none => .unsupported
      else
        match ReadReq.parse pay with
        | some r => .read r.addr r.count
        | none => .unsupported
  | .write =>
      match WriteReq.parse pay with
      | some w => .write w.addr w.data inst.hold
      | none => .unsupported
  | .commit => .commit
  | .mgmt => mgmtRequest broadcast pay
  | _ => .unsupported

/-- ENUM and ASSIGN are answered on a broadcast, by the servo the UID elects. -/
def Request.answersBroadcast {δ : Type} : Request δ → Bool
  | .enumerate _ _ | .assign _ _ => true
  | _ => false

def plain (op : Opcode) (inst : Inst) (frameId : Id) (pay : FrameBytes) (own : Id) :
    Decoded FrameBytes :=
  let broadcast := frameId.isBroadcast
  if !frameId.addresses own then .skip
  else
    let req := plainRequest op inst broadcast pay
    let mayReply := !inst.noreply && (!broadcast || Request.answersBroadcast req)
    .own req ⟨mayReply⟩ 0

def ownRead (addr count slot : ℕ) : Decoded FrameBytes := .own (.read addr count) ⟨true⟩ slot

def ownReadProfile (profile : Byte) (slot : ℕ) : Decoded FrameBytes :=
  .own (.readProfile profile) ⟨true⟩ slot

def ownWrite (addr : ℕ) (data : FrameBytes) (hold : Bool) : Decoded FrameBytes :=
  .own (.write addr data hold) ⟨false⟩ 0

def gread (inst : Inst) (pay : FrameBytes) (own : Id) : Decoded FrameBytes :=
  match inst.profile, inst.perTarget with
  | false, true =>
      match (GreadPerTarget.parse pay).bind (·.find own) with
      | some (slot, t) => ownRead t.addr t.count slot
      | none => .skip
  | false, false =>
      match GreadUniform.parse pay with
      | some g =>
          match slotOf g.ids own with
          | some slot => ownRead g.addr g.count slot
          | none => .skip
      | none => .skip
  | true, true =>
      match (GreadProfilePerTarget.parse pay).bind (·.find own) with
      | some (slot, t) => ownReadProfile t.slot slot
      | none => .skip
  | true, false =>
      match GreadProfileUniform.parse pay with
      | some g =>
          match slotOf g.ids own with
          | some slot => ownReadProfile g.slot slot
          | none => .skip
      | none => .skip

def gwrite (inst : Inst) (pay : FrameBytes) (own : Id) : Decoded FrameBytes :=
  let hold := inst.hold
  if inst.perTarget then
    match (GwritePerTarget.parse pay).bind (·.find own) with
    | some t => ownWrite t.addr t.data hold
    | none => .skip
  else
    match GwriteUniform.parse pay with
    | some g =>
        match g.find own with
        | some data => ownWrite g.addr data hold
        | none => .skip
    | none => .skip

/-- The request of an instruction payload, by opcode. -/
def decodePayload (op : Opcode) (inst : Inst) (frameId : Id) (pay : FrameBytes) (own : Id) :
    Decoded FrameBytes :=
  match op with
  | .gread => gread inst pay own
  | .gwrite => gwrite inst pay own
  | op => plain op inst frameId pay own

def decode (frame : FrameBytes) (id : Byte) : Decoded FrameBytes :=
  match frame.u8At 0, frame.u8At 1, frame.u8At 2, frame.u8At 3 with
  | some b0, some b1, some b2, some b3 =>
      let h := Header.fromBytes b0 b1 b2 b3
      if h.inst.isStatus then .status
      else
        match h.inst.opcode with
        | none => .skip
        | some op =>
            match frame.sub Header.size h.payloadLen with
            | none => .skip
            | some pay => decodePayload op h.inst h.id pay ⟨id⟩
  | _, _, _, _ => .skip

/-- The decoder does not look past the payload: a leading part that holds it
decodes alike. -/
theorem decode_leading {frame out : FrameBytes} {n : ℕ} (id : Byte)
    (hsub : frame.sub 0 n = some out)
    (hheader : Header.size ≤ n)
    (hpayload : ∀ len, frame.u8At 2 = some len → Header.size + payloadLen len ≤ n) :
    decode out id = decode frame id := by
  have hbytes := FrameBytes.bytes_of_sub hsub
  have hu8 : ∀ i, i < Header.size → out.u8At i = frame.u8At i := by
    intro i hi
    rw [FrameBytes.u8At_eq, FrameBytes.u8At_eq, hbytes, List.drop_zero, List.getElem?_take_of_lt]
    omega
  simp only [decode]
  rw [hu8 0 (by decide), hu8 1 (by decide), hu8 2 (by decide), hu8 3 (by decide)]
  cases h0 : frame.u8At 0 with
  | none => rfl
  | some b0 =>
      cases h1 : frame.u8At 1 with
      | none => rfl
      | some b1 =>
          cases h2 : frame.u8At 2 with
          | none => rfl
          | some b2 =>
              cases h3 : frame.u8At 3 with
              | none => rfl
              | some b3 =>
                  have hsame := FrameBytes.sub_of_leading hsub (hpayload b2 h2)
                  simp only [Header.fromBytes, Header.payloadLen]
                  rw [hsame]

/-! ## What an opcode can decode to -/

/-- The requests an instruction byte can carry: the opcode fixes the request's
kind, the HOLD bit fixes the hold of a write. -/
def Carries {δ : Type} (op : Opcode) (inst : Inst) : Request δ → Prop
  | .ping => op = .ping
  | .read _ _ | .readProfile _ => op = .read ∨ op = .gread
  | .write _ _ hold => (op = .write ∨ op = .gwrite) ∧ hold = inst.hold
  | .commit => op = .commit
  | .enumerate _ _ | .assign _ _ | .calibrate _ _ | .mgmt _ _ => op = .mgmt
  | .unsupported => op = .read ∨ op = .write ∨ op = .mgmt

theorem mgmtRequest_carries (inst : Inst) (broadcast : Bool) (pay : FrameBytes) :
    Carries .mgmt inst (mgmtRequest broadcast pay) := by
  simp only [mgmtRequest]
  repeat' split
  all_goals simp [Carries]

theorem plainRequest_carries {op : Opcode} (inst : Inst) (broadcast : Bool) (pay : FrameBytes)
    (hread : op ≠ .gread) (hwrite : op ≠ .gwrite) :
    Carries op inst (plainRequest op inst broadcast pay) := by
  cases op with
  | mgmt => exact mgmtRequest_carries inst broadcast pay
  | gread => exact absurd rfl hread
  | gwrite => exact absurd rfl hwrite
  | _ =>
      simp only [plainRequest]
      repeat' split
      all_goals simp [Carries]

theorem decodePayload_carries {op : Opcode} {inst : Inst} {frameId own : Id} {pay : FrameBytes}
    {req : Request FrameBytes} {ctx : RequestCtx} {slot : ℕ}
    (h : decodePayload op inst frameId pay own = .own req ctx slot) : Carries op inst req := by
  have hplain : ∀ {op : Opcode}, op ≠ .gread → op ≠ .gwrite →
      plain op inst frameId pay own = .own req ctx slot → Carries op inst req := by
    intro op hread hwrite hown
    simp only [plain] at hown
    split at hown
    · cases hown
    · obtain ⟨rfl, -, -⟩ := Decoded.own.inj hown
      exact plainRequest_carries inst _ pay hread hwrite
  cases op with
  | gread =>
      simp only [decodePayload, gread, ownRead, ownReadProfile] at h
      repeat' split at h
      all_goals cases h
      all_goals simp [Carries]
  | gwrite =>
      simp only [decodePayload, gwrite, ownWrite] at h
      repeat' split at h
      all_goals cases h
      all_goals simp [Carries]
  | _ => exact hplain (by simp) (by simp) h

/-- A frame decoded for this servo carries a request its instruction byte
allows. -/
theorem decode_carries {frame : FrameBytes} {id : Byte} {req : Request FrameBytes}
    {ctx : RequestCtx} {slot : ℕ} (h : decode frame id = .own req ctx slot) :
    ∃ b op, frame.u8At 3 = some b ∧ (Inst.mk b).opcode = some op ∧ Carries op ⟨b⟩ req := by
  simp only [decode] at h
  split at h
  · rename_i b0 b1 b2 b3 h0 h1 h2 h3
    split at h
    · cases h
    split at h
    · cases h
    · rename_i op hop
      split at h
      · cases h
      · exact ⟨b3, op, h3, hop, decodePayload_carries h⟩
  · cases h

end OpenServo.Bus
