import OpenServo.Protocol.Parse

/-!
# Exchange validation

The host's mirror of the servo's decode.  Every submitted exchange is classified
before anything touches the wire: refused with a reason, or accepted with a plan
that says how many status frames answer it.  The gate is what the servo-side
parsers accept; id ranges and table addresses stay the servo's own verdicts.
-/

namespace OpenServo

def Id.isUnicast (id : Id) : Bool := 0x01 ≤ id.byte && id.byte ≤ 0xF9

def Id.isValid (id : Id) : Bool := id.isUnicast || id.isBroadcast

namespace Host

/-- Why a submit was refused before reaching the wire. -/
inductive InvalidReason where
  /-- Not a wire-valid target. -/
  | badId
  /-- Status bit set or reserved opcode. -/
  | badInst
  /-- Payload does not parse for the opcode and its flags, or a unicast CAL. -/
  | badPayload
  /-- Past the payload ceiling. -/
  | tooLong
  deriving DecidableEq, Repr

/-- How many status frames answer the command. -/
inductive Replies where
  | none
  /-- One status: unicast with reply, or the sole matcher of a broadcast ASSIGN. -/
  | single
  /-- A GREAD status chain, one per listed slot. -/
  | chain (slots : Byte)
  /-- Broadcast ENUM: gathered until the bus goes quiet. -/
  | collect
  deriving DecidableEq, Repr

/-- The engine's plan for one exchange. -/
structure Shape where
  replies : Replies
  /-- Ring footprint of the largest expected reply frame. -/
  replyFootprint : ℕ
  /-- MGMT CAL: the gap and the count of the break train after the announce. -/
  train : Option (ℕ × Byte)
  /-- SAVE and FACTORY stall on flash: widen the window. -/
  slow : Bool
  deriving DecidableEq, Repr

def maxReply : ℕ := footprint 255
def ackReply : ℕ := footprint 3
def pingReply : ℕ := footprint 6
def enumReply : ℕ := footprint (3 + UInt8.ofNat uidLen)

/-- Reply footprint for a `count`-byte read, capped at the largest legal frame. -/
def readReply (count : ℕ) : ℕ := footprint (3 + UInt8.ofNat (min count maxPayload))

namespace Shape

/-- Plain-op reply rule: unicast answers, broadcast is silent. -/
def plain (broadcast : Bool) (replyFootprint : ℕ) : Shape :=
  ⟨if broadcast then .none else .single, replyFootprint, none, false⟩

def silent : Shape := ⟨.none, 0, none, false⟩

/-- `parse(..).ok_or(BadPayload)?`, then the shape. -/
def gate {α : Type} (parsed : Option α) (shape : α → Except InvalidReason Shape) :
    Except InvalidReason Shape :=
  match parsed with
  | some value => shape value
  | none => .error .badPayload

def chain (slots : ℕ) (replyFootprint : ℕ) : Shape :=
  ⟨.chain (UInt8.ofNat slots), replyFootprint, none, false⟩

def gread (inst : Inst) (pay : FrameBytes) : Except InvalidReason Shape :=
  match inst.profile, inst.perTarget with
  | false, false =>
      gate (GreadUniform.parse pay) fun g => .ok (chain g.ids.bytes.length (readReply g.count))
  | false, true =>
      gate (GreadPerTarget.parse pay) fun g =>
        .ok (chain g.iter.length ((g.iter.map fun t => readReply t.count).max?.getD 0))
  | true, false =>
      gate (GreadProfileUniform.parse pay) fun g => .ok (chain g.ids.bytes.length maxReply)
  | true, true =>
      gate (GreadProfilePerTarget.parse pay) fun g => .ok (chain g.iter.length maxReply)

def mgmt (pay : FrameBytes) (broadcast : Bool) : Except InvalidReason Shape :=
  gate (MgmtReq.parse pay) fun m =>
    match m.op with
    | .enum =>
        gate (EnumReq.parse m.args) fun _ =>
          .ok ⟨if broadcast then .collect else .single, enumReply, none, false⟩
    | .assign => gate (AssignReq.parse m.args) fun _ => .ok ⟨.single, ackReply, none, false⟩
    | .cal =>
        gate (CalReq.parse m.args) fun c =>
          -- a unicast CAL's ack would land where the train starts
          if !broadcast then .error .badPayload
          else .ok ⟨.none, 0, some (c.gapUs, c.gaps), false⟩
    | .save | .factory =>
        if !m.args.isEmpty then .error .badPayload
        else .ok { plain broadcast ackReply with slow := true }
    | .reboot => .ok (plain broadcast ackReply)
    -- the source's match has no arm for these four; every statement leaves them out
    | .secInit | .secKey | .secAttest | .secRekey => .error .badPayload

def deriveOp (op : Opcode) (id : Id) (inst : Inst) (payload : List Byte) :
    Except InvalidReason Shape :=
  let pay := FrameBytes.ofList payload
  let broadcast := id.isBroadcast
  match op with
  | .ping => if !payload.isEmpty then .error .badPayload else .ok (plain broadcast pingReply)
  | .read =>
      if inst.profile then gate (ProfileReq.parse pay) fun _ => .ok (plain broadcast maxReply)
      else gate (ReadReq.parse pay) fun r => .ok (plain broadcast (readReply r.count))
  | .write => gate (WriteReq.parse pay) fun _ => .ok (plain broadcast ackReply)
  | .commit => if !payload.isEmpty then .error .badPayload else .ok (plain broadcast ackReply)
  | .gread => gread inst pay
  | .gwrite =>
      if inst.perTarget then gate (GwritePerTarget.parse pay) fun _ => .ok silent
      else gate (GwriteUniform.parse pay) fun _ => .ok silent
  | .mgmt => mgmt pay broadcast

/-- NOREPLY suppresses the status everywhere but in a chain. -/
def suppress (inst : Inst) (shape : Shape) : Shape :=
  match shape.replies with
  | .chain _ => shape
  | _ => if inst.noreply then { shape with replies := .none } else shape

end Shape

def Shape.derive (id : Id) (inst : Inst) (payload : List Byte) : Except InvalidReason Shape :=
  if inst.isStatus then .error .badInst
  else
    match inst.opcode with
    | none => .error .badInst
    | some op =>
        if !id.isValid then .error .badId
        else if payload.length > maxPayload then .error .tooLong
        else (Shape.deriveOp op id inst payload).map (Shape.suppress inst)

end Host

end OpenServo
