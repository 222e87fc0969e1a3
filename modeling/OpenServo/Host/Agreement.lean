import OpenServo.Bus.Transparency
import OpenServo.Host.Shape

/-!
# The plan and the servos

The host plans how many statuses a frame draws, every servo decides for itself
whether it answers.  Both read the same bytes with their own parsers.  The plans
agree on every accepted frame, with one difference that is meant: a GREAD is
planned as a chain of its listed slots whether or not a listed id can belong to a
servo.
-/

namespace OpenServo

/-- A servo that takes the frame for skipped, or may not reply to it. -/
def Bus.Decoded.silent {δ : Type} : Bus.Decoded δ → Bool
  | .skip => true
  | .own _ ctx _ => !ctx.mayReply
  | .status => false

@[simp]
theorem Bus.Decoded.silent_map {δ ε : Type} (f : δ → ε) (decoded : Bus.Decoded δ) :
    (decoded.map f).silent = decoded.silent := by
  cases decoded <;> rfl

namespace Host

open Bus Tiling

/-- The ids a GREAD payload lists, in order. -/
def chainIds (inst : Inst) (payload : List Byte) : List Byte :=
  listedIds (readRecords inst payload)

/-- A byte that can be a servo's id. -/
def servoId (own : Byte) : Bool := (Id.tryUnicast own).isSome

/-! ## What an accepted exchange is -/

namespace Shape

theorem gate_ok {α : Type} {parsed : Option α} {shape : α → Except InvalidReason Shape}
    {out : Shape} (h : gate parsed shape = .ok out) :
    ∃ value, parsed = some value ∧ shape value = .ok out := by
  cases parsed with
  | none => cases h
  | some value => exact ⟨value, rfl, h⟩

theorem derive_ok {id : Id} {inst : Inst} {payload : List Byte} {shape : Shape}
    (h : derive id inst payload = .ok shape) :
    ∃ op raw, inst.opcode = some op ∧ id.isValid = true ∧ payload.length ≤ maxPayload ∧
      deriveOp op id inst payload = .ok raw ∧ shape = suppress inst raw := by
  rw [derive] at h
  split at h
  · cases h
  · split at h
    · cases h
    · rename_i op hop
      split at h
      · cases h
      · rename_i hvalid
        split at h
        · cases h
        · rename_i hlen
          cases hraw : deriveOp op id inst payload with
          | error reason =>
              rw [hraw] at h
              cases h
          | ok raw =>
              rw [hraw] at h
              cases h
              exact ⟨op, raw, hop, by simpa using hvalid, by omega, hraw, rfl⟩

/-! ## Chains -/

/-- A nonempty grid of records has as many as its iterator yields. -/
theorem records_grid {α : Type} {next : FrameBytes → Option (α × FrameBytes)}
    {cut : List Byte → Option (Record × List Byte)} {f : α → Record} {k : ℕ} (hk : 0 < k)
    (hcut : Cutter cut)
    (hwidth : ∀ l, (cut l = none ∧ l.length < k) ∨
      (k ≤ l.length ∧ ∃ item, cut l = some (item, l.drop k)))
    (hnext : ∀ rest, (next rest).map (Prod.map f FrameBytes.bytes) = cut rest.bytes)
    {pay : FrameBytes} (hgrid : ¬ (pay.isEmpty || pay.len % k != 0) = true) :
    (records cut pay.bytes).length = (unfold next pay.len pay).length ∧
      records cut pay.bytes ≠ [] := by
  rw [Bool.or_eq_true, bne_iff_ne, not_or, ne_eq, not_not] at hgrid
  obtain ⟨items, htiles⟩ := (tiles_iff_dvd hk hwidth pay.bytes).mpr
    (by rw [FrameBytes.length_bytes]; exact Nat.dvd_of_mod_eq_zero hgrid.2)
  constructor
  · rw [records_eq_unfold hcut ⟨items, htiles⟩, FrameBytes.length_bytes, ← map_unfold hnext,
      List.length_map]
  · intro hnone
    rw [records_of_tiles hcut htiles] at hnone
    rw [hnone] at htiles
    have hempty : pay.bytes = [] := by
      generalize pay.bytes = l at htiles
      cases htiles
      rfl
    exact hgrid.1 (by rw [FrameBytes.isEmpty_eq, hempty]; rfl)

/-- An accepted GREAD is a chain of its listed slots, at least one. -/
theorem gread_ok {inst : Inst} {pay : FrameBytes} {shape : Shape} (h : gread inst pay = .ok shape) :
    shape.replies = .chain (UInt8.ofNat (chainIds inst pay.bytes).length) ∧
      chainIds inst pay.bytes ≠ [] := by
  rw [gread] at h
  simp only [chainIds, listedIds, readRecords, List.length_map, ne_eq, List.map_eq_nil_iff]
  cases hprofile : inst.profile with
  | false =>
      rw [hprofile] at h
      cases hper : inst.perTarget with
      | false =>
          rw [hper] at h
          obtain ⟨g, hparse, hok⟩ := gate_ok h
          obtain ⟨⟨-, -, hids⟩, hbytes⟩ :=
            (GreadUniform.accepts pay g.contents).mp (congrArg (Option.map _) hparse)
          cases hok
          rw [hbytes]
          simpa [u16ToLe, GreadUniform.contents, chain] using hids
      | true =>
          rw [hper] at h
          obtain ⟨g, hparse, hok⟩ := gate_ok h
          cases hok
          rw [GreadPerTarget.parse] at hparse
          split at hparse
          · cases hparse
          · rename_i hgrid
            obtain ⟨hlen, hsome⟩ := records_grid (by decide) readTarget_cutter readTarget_width
              next_readTarget hgrid
            cases hparse
            exact ⟨by rw [hlen]; rfl, hsome⟩
  | true =>
      rw [hprofile] at h
      cases hper : inst.perTarget with
      | false =>
          rw [hper] at h
          obtain ⟨g, hparse, hok⟩ := gate_ok h
          obtain ⟨hids, hbytes⟩ :=
            (GreadProfileUniform.accepts pay g.contents).mp (congrArg (Option.map _) hparse)
          cases hok
          rw [hbytes]
          simpa [GreadProfileUniform.contents, chain] using hids
      | true =>
          rw [hper] at h
          obtain ⟨g, hparse, hok⟩ := gate_ok h
          cases hok
          rw [GreadProfilePerTarget.parse] at hparse
          split at hparse
          · cases hparse
          · rename_i hgrid
            obtain ⟨hlen, hsome⟩ := records_grid (by decide) profileTarget_cutter
              profileTarget_width next_profileTarget hgrid
            cases hparse
            exact ⟨by rw [hlen]; rfl, hsome⟩

/-! ## Plain operations -/

/-- One status from the addressed servo; a broadcast is answered exactly when the
request elects its own replier. -/
structure PlainPlan (broadcast : Bool) (req : Request FrameBytes) (shape : Shape) : Prop where
  noChain : ∀ slots, shape.replies ≠ .chain slots
  unicast : broadcast = false → shape.replies = .single
  broadcast : broadcast = true → (shape.replies = .none ↔ Request.answersBroadcast req = false)

theorem PlainPlan.plain {broadcast : Bool} {req : Request FrameBytes} (footprint : ℕ) (slow : Bool)
    (h : Request.answersBroadcast req = false) :
    PlainPlan broadcast req { Shape.plain broadcast footprint with slow } := by
  cases broadcast with
  | false => exact ⟨by simp [Shape.plain], fun _ => rfl, fun hfalse => by cases hfalse⟩
  | true =>
      exact ⟨by simp [Shape.plain], fun hfalse => (by cases hfalse),
        fun _ => ⟨fun _ => h, fun _ => rfl⟩⟩

theorem mgmt_ok {pay : FrameBytes} {broadcast : Bool} {shape : Shape}
    (h : mgmt pay broadcast = .ok shape) :
    PlainPlan broadcast (mgmtRequest broadcast pay) shape := by
  obtain ⟨m, hparse, hop⟩ := gate_ok h
  simp only [mgmtRequest, hparse]
  cases hm : m.op with
  | enum =>
      rw [hm] at hop
      obtain ⟨e, henum, hok⟩ := gate_ok hop
      cases hok
      simp only [henum]
      cases broadcast with
      | false => exact ⟨by simp, fun _ => rfl, fun hfalse => by cases hfalse⟩
      | true =>
          exact ⟨by simp, fun hfalse => (by cases hfalse),
            fun _ => by simp [Request.answersBroadcast]⟩
  | assign =>
      rw [hm] at hop
      obtain ⟨e, hassign, hok⟩ := gate_ok hop
      cases hok
      simp only [hassign]
      exact ⟨by simp, fun _ => rfl, fun _ => by simp [Request.answersBroadcast]⟩
  | cal =>
      rw [hm] at hop
      obtain ⟨c, hcal, hok⟩ := gate_ok hop
      simp only [hcal]
      cases broadcast with
      | false => cases hok
      | true =>
          cases hok
          exact ⟨by simp, fun hfalse => (by cases hfalse), fun _ => ⟨fun _ => rfl, fun _ => rfl⟩⟩
  | save | factory =>
      rw [hm] at hop
      simp only at hop
      split at hop
      · cases hop
      · cases hop
        exact PlainPlan.plain _ true rfl
  | reboot =>
      rw [hm] at hop
      cases hop
      exact PlainPlan.plain _ false rfl
  | secInit | secKey | secAttest | secRekey =>
      rw [hm] at hop
      cases hop

theorem plain_ok {op : Opcode} {id : Id} {inst : Inst} {payload : List Byte} {shape : Shape}
    (hread : op ≠ .gread) (hwrite : op ≠ .gwrite) (h : deriveOp op id inst payload = .ok shape) :
    PlainPlan id.isBroadcast (plainRequest op inst id.isBroadcast (.ofList payload)) shape := by
  cases op with
  | gread => exact absurd rfl hread
  | gwrite => exact absurd rfl hwrite
  | mgmt => exact mgmt_ok h
  | ping | commit =>
      simp only [deriveOp] at h
      split at h
      · cases h
      · cases h
        exact PlainPlan.plain _ false rfl
  | write =>
      obtain ⟨w, hparse, hok⟩ := gate_ok h
      cases hok
      simp only [plainRequest, hparse]
      exact PlainPlan.plain _ false rfl
  | read =>
      simp only [deriveOp] at h
      simp only [plainRequest]
      split at h
      · rename_i hprofile
        obtain ⟨r, hparse, hok⟩ := gate_ok h
        cases hok
        simp only [hprofile, hparse, if_true]
        exact PlainPlan.plain _ false rfl
      · rename_i hprofile
        obtain ⟨r, hparse, hok⟩ := gate_ok h
        cases hok
        simp only [hprofile, hparse]
        exact PlainPlan.plain _ false rfl

theorem gwrite_ok {id : Id} {inst : Inst} {payload : List Byte} {shape : Shape}
    (h : deriveOp .gwrite id inst payload = .ok shape) : shape = silent := by
  simp only [deriveOp] at h
  split at h
  · obtain ⟨g, -, hok⟩ := gate_ok h
    exact (Except.ok.inj hok).symm
  · obtain ⟨g, -, hok⟩ := gate_ok h
    exact (Except.ok.inj hok).symm

theorem suppress_replies (inst : Inst) (shape : Shape) :
    (suppress inst shape).replies =
      match shape.replies with
      | .chain slots => .chain slots
      | replies => if inst.noreply then .none else replies := by
  rw [suppress]
  cases hreplies : shape.replies <;> cases inst.noreply <;> simp [hreplies]

end Shape

/-! ## What a servo makes of the frame -/

section

variable {inst : Inst} {payload : List Byte} {own : Byte}

theorem chainIds_length_le (inst : Inst) (payload : List Byte) :
    (chainIds inst payload).length ≤ payload.length := by
  rw [chainIds, listedIds, List.length_map]
  simp only [readRecords]
  split
  · exact records_length_le readTarget_cutter _
  · rw [records_listed, List.length_map]
    simp only [List.length_cons]
    omega
  · exact records_length_le profileTarget_cutter _
  · rw [records_listed, List.length_map]
    simp only [List.length_cons]
    omega
  · exact Nat.zero_le _

/-- A listed servo answers in the slot of its first listed position. -/
theorem answerRead_listed_slot (hlen : payload.length ≤ maxPayload)
    (h : own ∈ chainIds inst payload) :
    ∃ req, answerRead own (readRecords inst payload) =
      .own req ⟨true⟩ ((chainIds inst payload).idxOf own) := by
  have hfst := findEnum_fst (fun item : Record => item.1 == own) (readRecords inst payload)
  have hpos : (chainIds inst payload).idxOf own < (chainIds inst payload).length :=
    List.idxOf_lt_length_iff.mpr h
  have hidx : (readRecords inst payload).findIdx? (fun item => item.1 == own) =
      some ((chainIds inst payload).idxOf own) := by
    rw [List.findIdx?_eq_some_iff_findIdx_eq]
    refine ⟨?_, ?_⟩
    · rwa [chainIds, listedIds, List.length_map] at hpos
    · rw [chainIds, listedIds, List.idxOf, List.findIdx_map]
      rfl
  have hsmall := chainIds_length_le inst payload
  have hslot : (chainIds inst payload).idxOf own % 256 = (chainIds inst payload).idxOf own := by
    simp only [maxPayload] at hlen
    omega
  rw [hidx, Option.map_some, hslot] at hfst
  obtain ⟨⟨slot, item⟩, hfind, rfl⟩ := Option.map_eq_some_iff.mp hfst
  exact ⟨item.2, by rw [answerRead, hfind]⟩

theorem answerRead_silent (hlen : payload.length ≤ maxPayload) :
    (answerRead own (readRecords inst payload)).silent = true ↔ own ∉ chainIds inst payload := by
  constructor
  · intro hsilent hmem
    obtain ⟨req, hanswer⟩ := answerRead_listed_slot hlen hmem
    rw [hanswer] at hsilent
    cases hsilent
  · intro hmem
    rw [answerRead_eq_skip.mpr hmem]
    rfl

theorem answerWrite_silent (items : List Record) : (answerWrite own items).silent = true := by
  rw [answerWrite]
  split <;> rfl

end

/-- The reply contract of a plain operation, as every servo decodes it. -/
def plainAnswers (op : Opcode) (id : Id) (inst : Inst) (payload : List Byte) : Bool :=
  !inst.noreply && (!id.isBroadcast ||
    Request.answersBroadcast (plainRequest op inst id.isBroadcast (.ofList payload)))

theorem readPayload_plain_silent {op : Opcode} {id : Id} {inst : Inst} {payload : List Byte}
    (hread : op ≠ .gread) (hwrite : op ≠ .gwrite) (own : Byte) :
    (readPayload op inst id payload own).silent = true ↔
      (id.addresses ⟨own⟩ = true → plainAnswers op id inst payload = false) := by
  have hreq : readPlain op inst id.isBroadcast payload =
      (plainRequest op inst id.isBroadcast (.ofList payload)).map FrameBytes.bytes := by
    rw [plainRequest_eq, FrameBytes.bytes_ofList]
  have hplain : readPayload op inst id payload own =
      if !id.addresses ⟨own⟩ then .skip
      else .own (readPlain op inst id.isBroadcast payload)
        ⟨plainAnswers op id inst payload⟩ 0 := by
    rw [plainAnswers, ← answersBroadcast_map FrameBytes.bytes, ← hreq]
    cases op with
    | gread => exact absurd rfl hread
    | gwrite => exact absurd rfl hwrite
    | _ => rfl
  rw [hplain]
  cases id.addresses ⟨own⟩ <;> simp [Decoded.silent]

theorem suppressed_plain {op : Opcode} {id : Id} {inst : Inst} {payload : List Byte} {raw : Shape}
    (h : Shape.PlainPlan id.isBroadcast
      (plainRequest op inst id.isBroadcast (.ofList payload)) raw) :
    ((Shape.suppress inst raw).replies = .none ↔ plainAnswers op id inst payload = false) ∧
      ∀ slots, (Shape.suppress inst raw).replies ≠ .chain slots := by
  have hreplies := Shape.suppress_replies inst raw
  constructor
  · rw [hreplies, plainAnswers]
    cases hb : id.isBroadcast with
    | false =>
        rw [h.unicast hb]
        cases inst.noreply <;> simp
    | true =>
        have hnone := h.broadcast hb
        rw [hb] at hnone
        cases hr : raw.replies with
        | chain slots => exact absurd hr (h.noChain slots)
        | none =>
            rw [hnone.mp hr]
            cases inst.noreply <;> simp
        | single | collect =>
            have hanswers : Request.answersBroadcast
                (plainRequest op inst true (.ofList payload)) = true := by
              by_contra hfalse
              rw [hnone.mpr (by simpa using hfalse)] at hr
              cases hr
            rw [hanswers]
            cases inst.noreply <;> simp
  · intro slots
    rw [hreplies]
    cases hr : raw.replies with
    | chain other => exact absurd hr (h.noChain other)
    | none | single | collect => cases inst.noreply <;> simp

/-! ## Agreement -/

/-- The host's plan for a frame against what the servos decode it to. -/
structure Agrees {δ : Type} (id : Id) (inst : Inst) (payload : List Byte) (shape : Shape)
    (decodes : Byte → Decoded δ) : Prop where
  /-- Any byte taken for an id: no reply is expected exactly when nobody may reply. -/
  expects : shape.replies = .none ↔ ∀ own, (decodes own).silent = true
  /-- Over the ids a servo can have, the one difference is a chain that lists none
  of them. -/
  servos : (∀ own, servoId own = true → (decodes own).silent = true) ↔
    shape.replies = .none ∨
      (∃ slots, shape.replies = .chain slots) ∧ ∀ own ∈ chainIds inst payload, servoId own = false
  /-- A unicast plan is for exactly the addressed servo. -/
  unicast : id.isUnicast = true → shape.replies = .single →
    ∀ own, (decodes own).silent = false ↔ own = id.byte
  /-- A chain has a slot for every listed entry, and a listed servo takes the slot of
  its first listed position. -/
  chain : ∀ slots, shape.replies = .chain slots →
    slots.toNat = (chainIds inst payload).length ∧
      ∀ own ∈ chainIds inst payload, ∃ req,
        decodes own = .own req ⟨true⟩ ((chainIds inst payload).idxOf own)

theorem Agrees.of_map {δ ε : Type} {f : δ → ε} {id : Id} {inst : Inst} {payload : List Byte}
    {shape : Shape} {decodes : Byte → Decoded δ}
    (h : Agrees id inst payload shape fun own => (decodes own).map f) :
    Agrees id inst payload shape decodes where
  expects := by simpa using h.expects
  servos := by simpa using h.servos
  unicast := by simpa using h.unicast
  chain := by
    intro slots hslots
    obtain ⟨hcount, hslot⟩ := h.chain slots hslots
    refine ⟨hcount, fun own hmem => ?_⟩
    obtain ⟨req, hown⟩ := hslot own hmem
    cases hd : decodes own with
    | own req' ctx slot =>
        rw [hd] at hown
        obtain ⟨-, rfl, rfl⟩ := Decoded.own.inj hown
        exact ⟨req', rfl⟩
    | status =>
        rw [hd] at hown
        cases hown
    | skip =>
        rw [hd] at hown
        cases hown

theorem agrees_gread {id : Id} {inst : Inst} {payload : List Byte} {raw : Shape}
    (hlen : payload.length ≤ maxPayload) (hraw : Shape.deriveOp .gread id inst payload = .ok raw) :
    Agrees id inst payload (Shape.suppress inst raw) (readPayload .gread inst id payload) := by
  obtain ⟨hchain, hsome⟩ := Shape.gread_ok hraw
  rw [FrameBytes.bytes_ofList] at hchain hsome
  have hreplies : (Shape.suppress inst raw).replies =
      .chain (UInt8.ofNat (chainIds inst payload).length) := by
    rw [Shape.suppress_replies, hchain]
  refine ⟨?_, ?_, ?_, ?_⟩
  · rw [hreplies]
    refine ⟨fun h => (by cases h), fun hall => ?_⟩
    obtain ⟨own, hmem⟩ := List.exists_mem_of_ne_nil _ hsome
    exact absurd hmem ((answerRead_silent hlen).mp (hall own))
  · rw [hreplies]
    constructor
    · intro hall
      refine Or.inr ⟨⟨_, rfl⟩, fun own hmem => ?_⟩
      by_contra hservo
      exact (answerRead_silent hlen).mp (hall own (by simpa using hservo)) hmem
    · rintro (hnone | ⟨-, hunlisted⟩) own hservo
      · cases hnone
      · apply (answerRead_silent hlen).mpr
        intro hmem
        rw [hunlisted own hmem] at hservo
        cases hservo
  · intro _ hsingle
    rw [hreplies] at hsingle
    cases hsingle
  · intro slots hslots
    rw [hreplies] at hslots
    cases hslots
    have hsmall := chainIds_length_le inst payload
    refine ⟨?_, fun own hmem => answerRead_listed_slot hlen hmem⟩
    rw [UInt8.toNat_ofNat', Nat.mod_eq_of_lt]
    simp only [maxPayload] at hlen
    omega

theorem agrees_gwrite {id : Id} {inst : Inst} {payload : List Byte} {raw : Shape}
    (hraw : Shape.deriveOp .gwrite id inst payload = .ok raw) :
    Agrees id inst payload (Shape.suppress inst raw) (readPayload .gwrite inst id payload) := by
  have hreplies : (Shape.suppress inst raw).replies = .none := by
    rw [Shape.suppress_replies, Shape.gwrite_ok hraw]
    cases inst.noreply <;> rfl
  have hall : ∀ own, (readPayload .gwrite inst id payload own).silent = true :=
    fun own => answerWrite_silent _
  refine ⟨⟨fun _ => hall, fun _ => hreplies⟩, ⟨fun _ => Or.inl hreplies, fun _ own _ => hall own⟩,
    ?_, ?_⟩
  · intro _ hsingle
    rw [hreplies] at hsingle
    cases hsingle
  · intro slots hslots
    rw [hreplies] at hslots
    cases hslots

theorem agrees_plain {op : Opcode} {id : Id} {inst : Inst} {payload : List Byte} {raw : Shape}
    (hread : op ≠ .gread) (hwrite : op ≠ .gwrite) (hvalid : id.isValid = true)
    (hraw : Shape.deriveOp op id inst payload = .ok raw) :
    Agrees id inst payload (Shape.suppress inst raw) (readPayload op inst id payload) := by
  have hplan := Shape.plain_ok hread hwrite hraw
  obtain ⟨hnone, hchain⟩ := suppressed_plain hplan
  have hsilent := @readPayload_plain_silent op id inst payload hread hwrite
  -- some servo is addressed: the id itself, or any under broadcast
  obtain ⟨dest, hservo, hdest⟩ :
      ∃ dest, servoId dest = true ∧ id.addresses ⟨dest⟩ = true := by
    cases hb : id.isBroadcast with
    | true => exact ⟨1, by decide, by simp [Id.addresses, hb]⟩
    | false =>
        have huni : id.isUnicast = true := by simpa [Id.isValid, hb] using hvalid
        refine ⟨id.byte, ?_, by simp [Id.addresses]⟩
        rw [Id.isUnicast, Bool.and_eq_true, decide_eq_true_iff, decide_eq_true_iff] at huni
        rw [servoId, Id.tryUnicast, if_pos huni]
        rfl
  refine ⟨?_, ?_, ?_, fun slots hslots => absurd hslots (hchain slots)⟩
  · rw [hnone]
    constructor
    · intro hquiet own
      exact (hsilent own).mpr fun _ => hquiet
    · intro hall
      exact (hsilent dest).mp (hall dest) hdest
  · rw [hnone]
    constructor
    · intro hall
      exact Or.inl ((hsilent dest).mp (hall dest hservo) hdest)
    · rintro (hquiet | ⟨⟨slots, hslots⟩, -⟩) own _
      · exact (hsilent own).mpr fun _ => hquiet
      · exact absurd hslots (hchain slots)
  · intro huni hsingle own
    have hanswers : plainAnswers op id inst payload = true := by
      by_contra hquiet
      rw [hnone.mpr (by simpa using hquiet)] at hsingle
      cases hsingle
    have hb : id.isBroadcast = false := by
      rw [Id.isUnicast, Bool.and_eq_true, decide_eq_true_iff, decide_eq_true_iff] at huni
      by_contra hb
      rw [Bool.not_eq_false, Id.isBroadcast, beq_iff_eq] at hb
      rw [hb] at huni
      exact absurd huni.2 (by decide)
    have hown := hsilent own
    rw [hanswers] at hown
    have hto : id.addresses ⟨own⟩ = true ↔ own = id.byte := by
      rw [Id.addresses, hb, Bool.false_or, beq_iff_eq]
      exact eq_comm
    rw [← Bool.not_eq_true, hown, hto]
    constructor
    · intro h
      by_contra hne
      exact h fun heq => absurd heq hne
    · intro heq h
      cases h heq

/-- The host's plan agrees with the servos on every accepted frame, wherever a ring
cuts it. -/
theorem plan_agrees {id : Id} {inst : Inst} {payload : List Byte} {shape : Shape}
    {frame : FrameBytes} (haccept : Shape.derive id inst payload = .ok shape)
    (hframe : frame.bytes = wireFrame id inst payload) :
    Agrees id inst payload shape (decode frame) := by
  obtain ⟨op, raw, hop, hvalid, hlen, hraw, rfl⟩ := Shape.derive_ok haccept
  have hdecode : (fun own => (decode frame own).map FrameBytes.bytes) =
      readPayload op inst id payload := by
    funext own
    exact decode_frameBytes own hframe hlen hop
  apply Agrees.of_map
  rw [hdecode]
  by_cases hread : op = .gread
  · subst hread
    exact agrees_gread hlen hraw
  · by_cases hwrite : op = .gwrite
    · subst hwrite
      exact agrees_gwrite hraw
    · exact agrees_plain hread hwrite hvalid hraw

/-- A per-target GREAD with two entries for one servo, behind another's. -/
theorem plan_agrees_twice_listed :
    Agrees ⟨0xFE⟩ ⟨0x58⟩ [9, 0, 0, 4, 0, 7, 0, 1, 2, 0, 9, 4, 0, 4, 0]
      ⟨.chain 3, 10, none, false⟩ (decode (.ofList
        (wireFrame ⟨0xFE⟩ ⟨0x58⟩ [9, 0, 0, 4, 0, 7, 0, 1, 2, 0, 9, 4, 0, 4, 0]))) :=
  plan_agrees (by decide) (FrameBytes.bytes_ofList _)

/-- A GREAD that lists only id 0, which no servo can have: the host waits for a
chain of one slot, and every servo stays silent. -/
theorem chain_without_servos :
    (Shape.derive ⟨0xFE⟩ ⟨0x50⟩ [0, 0, 4, 0, 0]).toOption.map Shape.replies = some (.chain 1) ∧
      ∀ own, servoId own = true →
        (decode (.ofList (wireFrame ⟨0xFE⟩ ⟨0x50⟩ [0, 0, 4, 0, 0])) own).silent = true := by
  refine ⟨by decide, fun own hservo => ?_⟩
  have hdecode := decode_frameBytes own
    (FrameBytes.bytes_ofList (wireFrame ⟨0xFE⟩ ⟨0x50⟩ [0, 0, 4, 0, 0])) (by decide)
    (show (Inst.mk 0x50).opcode = some .gread by decide)
  rw [← Decoded.silent_map FrameBytes.bytes, hdecode]
  apply (answerRead_silent (by decide)).mpr
  have hids : chainIds ⟨0x50⟩ [0, 0, 4, 0, 0] = [0] := by decide
  rw [hids, List.mem_singleton]
  rintro rfl
  revert hservo
  decide

end Host

end OpenServo
