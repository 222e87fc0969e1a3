import OpenServo.Host.Agreement
import OpenServo.Security.Policy

/-!
# Submitting a tagged exchange

The AUTH trailer rides inside the payload, and the host's gate is handed the whole
payload.  This module says which accepted exchanges are still accepted, under the
same plan, once the trailer is appended: the gate checks most grammars to the last
byte, so most are not.
-/

namespace OpenServo

/-- A grammar whose spellings all have one length rejects a longer view. -/
theorem Accepts.append_none {α : Type} {parse : FrameBytes → Option α} {encode : α → List Byte}
    {Wf : α → Prop} (h : Accepts parse encode Wf) {k : ℕ}
    (hlength : ∀ value, Wf value → (encode value).length = k) {view longer : FrameBytes}
    {value : α} {extra : List Byte} (hextra : extra ≠ [])
    (hlonger : longer.bytes = view.bytes ++ extra) (hparse : parse view = some value) :
    parse longer = none := by
  rw [Option.eq_none_iff_forall_ne_some]
  intro other hother
  obtain ⟨hwf, hbytes⟩ := (h view value).mp hparse
  obtain ⟨hwf', hbytes'⟩ := (h longer other).mp hother
  have hlen := congrArg List.length hlonger
  rw [hbytes', List.length_append, hbytes, hlength _ hwf, hlength _ hwf'] at hlen
  exact hextra (List.eq_nil_of_length_eq_zero (by omega))

namespace Host

open Bus Tiling

/-- The accepted exchanges that take the trailer without a change of plan. -/
def takesTrailer (inst : Inst) (payload : List Byte) (trailer : TrailerBytes) : Opcode → Bool
  | .write => true
  | .gwrite => keepsGrid .gwrite inst payload trailer
  | .mgmt => payload.head? == some MgmtOp.reboot.toByte
  | .ping | .read | .commit | .gread => false

namespace Shape

variable {id : Id} {inst : Inst} {payload : List Byte} {shape raw : Shape}

/-! ## The gate does not look at `FLAG_AUTH` -/

theorem deriveOp_withAuth (op : Opcode) (id : Id) (inst : Inst) (payload : List Byte) :
    deriveOp op id inst.withAuth payload = deriveOp op id inst payload := by
  obtain ⟨-, hhold, -, hper⟩ := inst.withAuth_fields
  have hprofile : inst.withAuth.profile = inst.profile := hhold
  simp only [deriveOp, gread, hprofile, hper]

theorem suppress_withAuth (inst : Inst) (shape : Shape) :
    suppress inst.withAuth shape = suppress inst shape := by
  obtain ⟨-, -, hnoreply, -⟩ := inst.withAuth_fields
  simp only [suppress, hnoreply]

/-! ## Grammars that end with the payload -/

theorem trailer_ne_nil (trailer : TrailerBytes) : trailer.bytes ≠ [] := by
  cases trailer
  simp [TrailerBytes.bytes]

/-- A MGMT request takes five more bytes only as REBOOT arguments. -/
theorem mgmt_tagged {broadcast : Bool} (trailer : TrailerBytes)
    (h : mgmt (.ofList payload) broadcast = .ok shape) :
    mgmt (.ofList (payload ++ trailer.bytes)) broadcast =
      if payload.head? == some MgmtOp.reboot.toByte then .ok shape else .error .badPayload := by
  have hextra := trailer_ne_nil trailer
  cases payload with
  | nil =>
      rw [mgmt, MgmtReq.parse_nil (FrameBytes.bytes_ofList [])] at h
      cases h
  | cons b args =>
      obtain ⟨rest, hrest, hparse⟩ := MgmtReq.parse_cons (FrameBytes.bytes_ofList (b :: args))
      obtain ⟨longer, hlonger, hparse'⟩ :=
        MgmtReq.parse_cons (FrameBytes.bytes_ofList (b :: (args ++ trailer.bytes)))
      have happend : longer.bytes = rest.bytes ++ trailer.bytes := by rw [hlonger, hrest]
      rw [mgmt, hparse] at h
      rw [List.cons_append, mgmt, hparse', List.head?_cons]
      cases hop : MgmtOp.fromByte b with
      | none =>
          rw [hop] at h
          cases h
      | some op =>
          obtain rfl := MgmtOp.fromByte_eq_some.mp hop
          rw [hop] at h
          simp only [Option.map_some, gate] at h ⊢
          cases op with
          | enum =>
              obtain ⟨e, henum, -⟩ := gate_ok h
              cases args with
              | nil => simp [EnumReq.parse, FrameBytes.u8At_eq, hrest] at henum
              | cons prefixLen pre =>
                  rw [EnumReq.parse_eq hrest] at henum
                  have hnone : EnumReq.parse longer = none := by
                    rw [EnumReq.parse_eq (hlonger.trans (List.cons_append ..))]
                    split at henum
                    · rename_i hfits
                      have hpos := List.length_pos_of_ne_nil hextra
                      rw [if_neg]
                      rintro ⟨-, hlen⟩
                      rw [List.length_append] at hlen
                      omega
                    · cases henum
                  rw [hnone]
                  rfl
          | assign =>
              obtain ⟨a, hassign, -⟩ := gate_ok h
              have hnone := AssignReq.accepts.append_none
                (fun _ hsize => by rw [List.length_append, hsize]; rfl) hextra happend hassign
              rw [hnone]
              rfl
          | cal =>
              obtain ⟨c, hcal, -⟩ := gate_ok h
              have hnone := CalReq.accepts.append_none
                (show ∀ c : CalReq, _ → (u16ToLe c.gapUs ++ [c.gaps]).length = 3 from
                  fun _ _ => rfl) hextra happend hcal
              rw [hnone]
              rfl
          | save | factory =>
              have hfull : longer.isEmpty = false := by
                rw [FrameBytes.isEmpty_eq, happend, List.isEmpty_eq_false_iff]
                exact List.append_ne_nil_of_right_ne_nil _ hextra
              simp only [hfull, Bool.not_false, if_true]
              rfl
          | reboot => exact h
          | secInit | secKey | secAttest | secRekey => cases h

/-! ## Chains -/

/-- The length of a GREAD payload that lists `slots` slots. -/
def greadLength (inst : Inst) (slots : ℕ) : ℕ :=
  match inst.profile, inst.perTarget with
  | false, false => slots + 4
  | false, true => 5 * slots
  | true, false => slots + 1
  | true, true => 2 * slots

theorem length_of_chainIds (h : chainIds inst payload ≠ []) :
    payload.length = greadLength inst (chainIds inst payload).length := by
  simp only [chainIds, listedIds, readRecords, List.length_map, ne_eq, List.map_eq_nil_iff,
    greadLength] at h ⊢
  cases hprofile : inst.profile with
  | false =>
      rw [hprofile] at h
      cases hper : inst.perTarget with
      | false =>
          rw [hper] at h
          rcases payload with _ | ⟨_, _ | ⟨_, _ | ⟨_, _ | ⟨_, ids⟩⟩⟩⟩
          case cons.cons.cons.cons => simp
          all_goals simp at h
      | true =>
          rw [hper] at h
          obtain ⟨item, hitem⟩ := List.exists_mem_of_ne_nil _ h
          have htiles := tiles_of_mem_records readTarget_cutter hitem
          exact (htiles.length_mul readTarget_width).symm
  | true =>
      rw [hprofile] at h
      cases hper : inst.perTarget with
      | false =>
          rw [hper] at h
          cases payload with
          | nil => simp at h
          | cons slot ids => simp
      | true =>
          rw [hper] at h
          obtain ⟨item, hitem⟩ := List.exists_mem_of_ne_nil _ h
          have htiles := tiles_of_mem_records profileTarget_cutter hitem
          exact (htiles.length_mul profileTarget_width).symm

/-- A chain over a longer payload has other slots. -/
theorem gread_tagged {longer : Shape} {trailer : TrailerBytes}
    (hfits : (payload ++ trailer.bytes).length ≤ maxPayload)
    (h : gread inst (.ofList payload) = .ok shape)
    (hlonger : gread inst (.ofList (payload ++ trailer.bytes)) = .ok longer) :
    longer.replies ≠ shape.replies := by
  obtain ⟨hchain, hsome⟩ := gread_ok h
  obtain ⟨hchain', hsome'⟩ := gread_ok hlonger
  rw [FrameBytes.bytes_ofList] at hchain hsome hchain' hsome'
  have hlen := length_of_chainIds hsome
  have hlen' := length_of_chainIds hsome'
  have hsmall := chainIds_length_le inst payload
  have hsmall' := chainIds_length_le inst (payload ++ trailer.bytes)
  have hfive : (payload ++ trailer.bytes).length = payload.length + 5 := List.length_append
  intro heq
  rw [hchain, hchain'] at heq
  have hslots := congrArg UInt8.toNat (Replies.chain.inj heq)
  simp only [maxPayload] at hfits
  rw [UInt8.toNat_ofNat', UInt8.toNat_ofNat', Nat.mod_eq_of_lt (by omega),
    Nat.mod_eq_of_lt (by omega)] at hslots
  rw [hslots, ← hlen] at hlen'
  omega

/-! ## Group writes -/

theorem gwriteUniform_tagged {view longer : FrameBytes} {trailer : TrailerBytes} {g : GwriteUniform}
    (hlonger : longer.bytes = view.bytes ++ trailer.bytes)
    (hparse : GwriteUniform.parse view = some g) :
    (GwriteUniform.parse longer).isSome = (view.bytes[2]? == some 4) := by
  have hextra := trailer_ne_nil trailer
  rcases hb : view.bytes with _ | ⟨a0, _ | ⟨a1, _ | ⟨count, entries⟩⟩⟩
  case cons.cons.cons =>
    have hcount : count ≠ 0 := by
      rintro rfl
      simp [GwriteUniform.parse, FrameBytes.u16LeAt_eq, FrameBytes.u8At_eq, FrameBytes.leAt,
        hb] at hparse
    obtain ⟨list, hlist, hshort⟩ := parse_gwriteUniform hb hcount
    rw [hb] at hlonger
    obtain ⟨list', hlist', hlong⟩ := parse_gwriteUniform hlonger hcount
    have hlen : list'.len = list.len + 5 := by
      have hfive : (entries ++ trailer.bytes).length = entries.length + 5 := List.length_append
      rw [← FrameBytes.length_bytes, hlist', ← FrameBytes.length_bytes, hlist]
      exact hfive
    rw [hshort] at hparse
    split at hparse
    · cases hparse
    · rename_i hgrid
      rw [not_or, ne_eq, not_not] at hgrid
      have hdvd : count.toNat + 1 ∣ list'.len ↔ count = 4 := by
        rw [hlen, (Nat.dvd_add_right (Nat.dvd_of_mod_eq_zero hgrid.2)), stride_dvd_trailer hcount]
      rw [hlong, List.getElem?_cons_succ, List.getElem?_cons_succ, List.getElem?_cons_zero]
      by_cases hfour : count = 4
      · rw [if_neg]
        · simp [hfour]
        · have hmod := Nat.mod_eq_zero_of_dvd (hdvd.mpr hfour)
          omega
      · rw [if_pos (Or.inr fun hmod => hfour (hdvd.mp (Nat.dvd_of_mod_eq_zero hmod)))]
        simp [hfour]
  all_goals simp [GwriteUniform.parse, FrameBytes.u16LeAt_eq, FrameBytes.u8At_eq,
    FrameBytes.leAt, hb] at hparse

theorem gwritePerTarget_isSome (view : FrameBytes) :
    (GwritePerTarget.parse view).isSome = true ↔
      view.bytes ≠ [] ∧ ∃ items, Tiles (writeTarget false) view.bytes items := by
  have hwalk := walk_isSome false (le_refl view.len)
  have htile : (GwritePerTarget.walk view.len view).isSome = true ↔
      ∃ items, Tiles (writeTarget false) view.bytes items := by
    rw [hwalk, Option.isSome_iff_exists]
    exact exists_congr fun items =>
      tile_eq_some (writeTarget_cutter false) (le_of_eq view.length_bytes)
  rw [← htile, GwritePerTarget.parse, FrameBytes.isEmpty_eq]
  cases hb : view.bytes with
  | nil => simp
  | cons b l => cases GwritePerTarget.walk view.len view <;> simp

theorem gwritePerTarget_tagged {view longer : FrameBytes} {trailer : TrailerBytes}
    (hlonger : longer.bytes = view.bytes ++ trailer.bytes)
    (hparse : (GwritePerTarget.parse view).isSome = true) :
    (GwritePerTarget.parse longer).isSome = (trailer.t2 == 1) := by
  obtain ⟨-, items, htiles⟩ := (gwritePerTarget_isSome view).mp hparse
  have hcut := writeTarget_cutter false
  rw [Bool.eq_iff_iff, gwritePerTarget_isSome, beq_iff_eq, ← tiles_trailer false, hlonger]
  constructor
  · rintro ⟨-, all, hall⟩
    obtain ⟨items', htrailer, -⟩ := htiles.of_append hcut hall
    exact ⟨items', htrailer⟩
  · rintro ⟨items', htrailer⟩
    exact ⟨List.append_ne_nil_of_right_ne_nil _ (trailer_ne_nil trailer), _,
      htiles.append hcut htrailer⟩

/-! ## The plan of a tagged exchange -/

theorem deriveOp_tagged {op : Opcode} (trailer : TrailerBytes) (hread : op ≠ .gread)
    (h : deriveOp op id inst payload = .ok raw) :
    deriveOp op id inst (payload ++ trailer.bytes) =
      if takesTrailer inst payload trailer op then .ok raw else .error .badPayload := by
  have hextra := trailer_ne_nil trailer
  have hbytes : (FrameBytes.ofList (payload ++ trailer.bytes)).bytes =
      (FrameBytes.ofList payload).bytes ++ trailer.bytes := by
    rw [FrameBytes.bytes_ofList, FrameBytes.bytes_ofList]
  cases op with
  | gread => exact absurd rfl hread
  | mgmt => exact mgmt_tagged trailer h
  | ping | commit =>
      have hfull : (payload ++ trailer.bytes).isEmpty = false := by
        rw [List.isEmpty_eq_false_iff]
        exact List.append_ne_nil_of_right_ne_nil _ hextra
      simp only [deriveOp, hfull]
      rfl
  | read =>
      simp only [deriveOp] at h ⊢
      by_cases hprofile : inst.profile
      · rw [if_pos hprofile] at h
        obtain ⟨r, hparse, -⟩ := gate_ok h
        have hnone := ProfileReq.accepts.append_none
          (show ∀ r : ProfileReq, _ → [r.slot].length = 1 from fun _ _ => rfl)
          hextra hbytes hparse
        rw [if_pos hprofile, hnone]
        rfl
      · rw [if_neg hprofile] at h
        obtain ⟨r, hparse, -⟩ := gate_ok h
        have hnone := ReadReq.accepts.append_none
          (show ∀ r : ReadReq, _ → (u16ToLe r.addr ++ u16ToLe r.count).length = 4 from
            fun _ _ => rfl) hextra hbytes hparse
        rw [if_neg hprofile, hnone]
        rfl
  | write =>
      obtain ⟨w, hparse, hok⟩ := gate_ok h
      obtain ⟨haddr, hpay⟩ :=
        (WriteReq.accepts _ w.contents).mp (congrArg (Option.map WriteReq.contents) hparse)
      have hlonger := (WriteReq.accepts (.ofList (payload ++ trailer.bytes))
        (w.contents.1, w.contents.2 ++ trailer.bytes)).mpr
          ⟨haddr, by rw [hbytes, hpay, List.append_assoc]⟩
      obtain ⟨w', hparse', -⟩ := Option.map_eq_some_iff.mp hlonger
      simp only [deriveOp, hparse', gate]
      exact hok
  | gwrite =>
      rw [gwrite_ok h]
      simp only [deriveOp] at h ⊢
      by_cases hper : inst.perTarget
      · rw [if_pos hper] at h
        obtain ⟨g, hparse, -⟩ := gate_ok h
        have htakes : takesTrailer inst payload trailer .gwrite = (trailer.t2 == 1) := if_pos hper
        rw [if_pos hper, htakes, ← gwritePerTarget_tagged hbytes (by rw [hparse]; rfl)]
        cases GwritePerTarget.parse (.ofList (payload ++ trailer.bytes)) <;> rfl
      · rw [if_neg hper] at h
        obtain ⟨g, hparse, -⟩ := gate_ok h
        have htakes : takesTrailer inst payload trailer .gwrite = (payload[2]? == some 4) :=
          if_neg hper
        have hsome := gwriteUniform_tagged hbytes hparse
        rw [FrameBytes.bytes_ofList] at hsome
        rw [if_neg hper, htakes, ← hsome]
        cases GwriteUniform.parse (.ofList (payload ++ trailer.bytes)) <;> rfl

theorem derive_withAuth {op : Opcode} (hop : inst.opcode = some op) (hid : id.isValid = true)
    (hlen : payload.length ≤ maxPayload) :
    derive id inst.withAuth payload = (deriveOp op id inst payload).map (suppress inst) := by
  have hsuppress : suppress inst.withAuth = suppress inst := funext (suppress_withAuth inst)
  have hop' : inst.withAuth.opcode = some op := by rw [inst.withAuth_fields.1, hop]
  have hstatus : inst.withAuth.isStatus = false := by
    by_contra hstatus
    rw [Bool.not_eq_false] at hstatus
    rw [Inst.opcode, if_pos hstatus] at hop'
    cases hop'
  simp only [derive, hstatus, hop', hid, Bool.not_true, Bool.false_eq_true, if_false,
    if_neg (Nat.not_lt.mpr hlen), deriveOp_withAuth, hsuppress]

end Shape

/-- An accepted exchange is accepted with the trailer, under the same plan, exactly
when its grammar takes the trailer; no other command that a servo must see tagged
can be submitted at all. -/
theorem derive_tagged_iff {id : Id} {inst : Inst} {payload : List Byte} {shape : Shape}
    {trailer : TrailerBytes} (haccept : Shape.derive id inst payload = .ok shape)
    (hfits : (payload ++ trailer.bytes).length ≤ maxPayload) :
    (Shape.derive id inst.withAuth (payload ++ trailer.bytes) = .ok shape ↔
      inst.opcode.any (takesTrailer inst payload trailer) = true) ∧
    (Security.Policy.flight.requiresTag inst.withAuth = true →
      ((∃ plan, Shape.derive id inst.withAuth (payload ++ trailer.bytes) = .ok plan) ↔
        inst.opcode.any (takesTrailer inst payload trailer) = true)) := by
  obtain ⟨op, raw, hop, hvalid, -, hraw, rfl⟩ := Shape.derive_ok haccept
  rw [Shape.derive_withAuth hop hvalid hfits, hop, Option.any_some]
  by_cases hread : op = .gread
  · subst hread
    refine ⟨⟨fun h => ?_, fun h => by cases h⟩, fun hrequires => ?_⟩
    · cases hlonger : Shape.deriveOp .gread id inst (payload ++ trailer.bytes) with
      | error reason =>
          rw [hlonger] at h
          cases h
      | ok longer =>
          -- a chain keeps its slots through NOREPLY, and they differ
          rw [hlonger] at h
          have hne := Shape.gread_tagged hfits hraw hlonger
          obtain ⟨hchain, -⟩ := Shape.gread_ok hraw
          obtain ⟨hchain', -⟩ := Shape.gread_ok hlonger
          have heq := congrArg Shape.replies (Except.ok.inj h)
          rw [Shape.suppress_replies, Shape.suppress_replies, hchain, hchain'] at heq
          rw [hchain, hchain'] at hne
          exact absurd heq hne
    · -- reads carry no effect, and the flight policy leaves them alone
      rw [Security.Policy.requiresTag, Security.Policy.effectBearing, inst.withAuth_fields.1,
        hop] at hrequires
      cases hrequires
  · rw [Shape.deriveOp_tagged trailer hread hraw]
    cases takesTrailer inst payload trailer op with
    | true => exact ⟨⟨fun _ => rfl, fun _ => rfl⟩, fun _ => ⟨fun _ => rfl, fun _ => ⟨_, rfl⟩⟩⟩
    | false =>
        refine ⟨⟨fun h => (by cases h), fun h => (by cases h)⟩, fun _ => ⟨?_, fun h => by cases h⟩⟩
        rintro ⟨plan, h⟩
        cases h

/-- A WRITE to servo 5 is submitted tagged under the plan it has bare. -/
theorem derive_tagged_write :
    Shape.derive ⟨5⟩ (Inst.withAuth ⟨0x30⟩) ([0x10, 0x01, 7] ++ [1, 2, 3, 4, 5]) =
        .ok ⟨.single, footprint 3, none, false⟩ ∧
      ∃ plan, Shape.derive ⟨5⟩ (Inst.withAuth ⟨0x30⟩) ([0x10, 0x01, 7] ++ [1, 2, 3, 4, 5]) =
        .ok plan := by
  have htagged := @derive_tagged_iff ⟨5⟩ ⟨0x30⟩ [0x10, 0x01, 7] ⟨.single, footprint 3, none, false⟩
    ⟨1, 2, 3, 4, 5⟩ (by decide) (by decide)
  exact ⟨htagged.1.mpr (by decide), (htagged.2 (by decide)).mpr (by decide)⟩

/-- A COMMIT to servo 5, which the flight policy wants tagged, is refused with the
trailer. -/
theorem commit_tagged_refused :
    Shape.derive ⟨5⟩ ⟨0x40⟩ [] = .ok ⟨.single, footprint 3, none, false⟩ ∧
      Security.Policy.flight.requiresTag (Inst.withAuth ⟨0x40⟩) = true ∧
      Shape.derive ⟨5⟩ (Inst.withAuth ⟨0x40⟩) ([] ++ TrailerBytes.bytes ⟨1, 2, 3, 4, 5⟩) =
        .error .badPayload := by
  decide

end Host

end OpenServo
