import OpenServo.Bus.Reading
import OpenServo.Bus.Ring

/-!
# Reading across the ring seam

A view of one frame may be cut in two anywhere.  Every accessor, parser and the
decoder itself read the bytes and not the cut; the one thing the cut can change
is what a copy that does not fit leaves in its destination.
-/

namespace OpenServo.Bus

/-- The decoder reads the bytes of a view alone. -/
theorem decode_congr {view whole : FrameBytes} (hbytes : view.bytes = whole.bytes) (own : Byte) :
    (decode view own).map FrameBytes.bytes = (decode whole own).map FrameBytes.bytes := by
  simp only [decode, FrameBytes.u8At_eq, hbytes]
  split
  · rename_i b0 b1 b2 b3 h0 h1 h2 h3
    split
    · rfl
    · split
      · rfl
      · have hsub := FrameBytes.sub_congr hbytes Header.size
          (Header.fromBytes b0 b1 b2 b3).payloadLen
        cases hleft : view.sub Header.size (Header.fromBytes b0 b1 b2 b3).payloadLen with
        | none =>
            rw [hleft, Option.map_none, eq_comm, Option.map_eq_none_iff] at hsub
            rw [hsub]
        | some pay =>
            rw [hleft, Option.map_some, eq_comm, Option.map_eq_some_iff] at hsub
            obtain ⟨pay', hright, hpay⟩ := hsub
            rw [hright]
            simp only [decodePayload_eq, hpay]
  · rfl

/-- The copy a view makes is the copy of its bytes, unless the head fits a
destination the whole does not. -/
theorem copyInto_ofList_iff (view : FrameBytes) (dst : List Byte) :
    view.copyInto dst = (FrameBytes.ofList view.bytes).copyInto dst ↔
      (view.head.length ≤ dst.length → dst.length < view.len →
        dst.take view.head.length = view.head) := by
  obtain ⟨head, tail⟩ := view
  simp only [FrameBytes.copyInto, FrameBytes.ofList, FrameBytes.bytes, FrameBytes.len,
    List.length_append, List.length_drop, List.length_nil, Nat.not_lt_zero, if_false]
  by_cases hhead : dst.length < head.length
  · rw [if_pos hhead, if_pos (by omega)]
    exact iff_of_true rfl (fun hle => absurd hhead (by omega))
  · rw [if_neg hhead]
    by_cases hfit : dst.length < head.length + tail.length
    · rw [if_pos (by omega), if_pos hfit]
      simp only [Prod.mk.injEq, true_and]
      constructor
      · intro heq _ _
        rw [← heq, List.take_left]
      · intro htake
        rw [← htake (by omega) hfit, List.length_take, Nat.min_eq_left (by omega),
          List.take_append_drop]
    · rw [if_neg (by omega), if_neg hfit]
      refine iff_of_true ?_ (fun _ hlt => absurd hlt hfit)
      simp only [List.drop_drop, Nat.add_zero, List.nil_append, List.append_assoc]

/-- Everything that reads `view` gives what it gives on the contiguous string of
its bytes. -/
structure SeamBlind (view : FrameBytes) (dst : List Byte) : Prop where
  len : view.len = (FrameBytes.ofList view.bytes).len
  isEmpty : view.isEmpty = (FrameBytes.ofList view.bytes).isEmpty
  u8At : ∀ i, view.u8At i = (FrameBytes.ofList view.bytes).u8At i
  u16LeAt : ∀ i, view.u16LeAt i = (FrameBytes.ofList view.bytes).u16LeAt i
  sub : ∀ start n, (view.sub start n).map FrameBytes.bytes =
    ((FrameBytes.ofList view.bytes).sub start n).map FrameBytes.bytes
  segments : view.segments.1 ++ view.segments.2 =
    (FrameBytes.ofList view.bytes).segments.1 ++ (FrameBytes.ofList view.bytes).segments.2
  copyInto : view.copyInto dst = (FrameBytes.ofList view.bytes).copyInto dst
  readReq : ReadReq.parse view = ReadReq.parse (.ofList view.bytes)
  profileReq : ProfileReq.parse view = ProfileReq.parse (.ofList view.bytes)
  writeReq : (WriteReq.parse view).map WriteReq.contents =
    (WriteReq.parse (.ofList view.bytes)).map WriteReq.contents
  mgmtReq : (MgmtReq.parse view).map MgmtReq.contents =
    (MgmtReq.parse (.ofList view.bytes)).map MgmtReq.contents
  enumReq : EnumReq.parse view = EnumReq.parse (.ofList view.bytes)
  assignReq : AssignReq.parse view = AssignReq.parse (.ofList view.bytes)
  calReq : CalReq.parse view = CalReq.parse (.ofList view.bytes)
  greadUniform : (GreadUniform.parse view).map GreadUniform.contents =
    (GreadUniform.parse (.ofList view.bytes)).map GreadUniform.contents
  greadPerTarget : (GreadPerTarget.parse view).map GreadPerTarget.iter =
    (GreadPerTarget.parse (.ofList view.bytes)).map GreadPerTarget.iter
  greadProfileUniform : (GreadProfileUniform.parse view).map GreadProfileUniform.contents =
    (GreadProfileUniform.parse (.ofList view.bytes)).map GreadProfileUniform.contents
  greadProfilePerTarget : (GreadProfilePerTarget.parse view).map GreadProfilePerTarget.iter =
    (GreadProfilePerTarget.parse (.ofList view.bytes)).map GreadProfilePerTarget.iter
  gwriteUniform : (GwriteUniform.parse view).map GwriteUniform.contents =
    (GwriteUniform.parse (.ofList view.bytes)).map GwriteUniform.contents
  gwritePerTarget :
    ((GwritePerTarget.parse view).map fun g => g.iter.map GwriteTarget.contents) =
      (GwritePerTarget.parse (.ofList view.bytes)).map fun g => g.iter.map GwriteTarget.contents
  greadSlot : ∀ id, (GreadUniform.parse view).bind (fun g => slotOf g.ids id) =
    (GreadUniform.parse (.ofList view.bytes)).bind fun g => slotOf g.ids id
  greadFind : ∀ id, (GreadPerTarget.parse view).bind (·.find id) =
    (GreadPerTarget.parse (.ofList view.bytes)).bind (·.find id)
  greadProfileSlot : ∀ id, (GreadProfileUniform.parse view).bind (fun g => slotOf g.ids id) =
    (GreadProfileUniform.parse (.ofList view.bytes)).bind fun g => slotOf g.ids id
  greadProfileFind : ∀ id, (GreadProfilePerTarget.parse view).bind (·.find id) =
    (GreadProfilePerTarget.parse (.ofList view.bytes)).bind (·.find id)
  gwriteUniformFind : ∀ id, ((GwriteUniform.parse view).bind (·.find id)).map FrameBytes.bytes =
    ((GwriteUniform.parse (.ofList view.bytes)).bind (·.find id)).map FrameBytes.bytes
  gwritePerTargetFind : ∀ id,
    ((GwritePerTarget.parse view).bind (·.find id)).map GwriteTarget.contents =
      ((GwritePerTarget.parse (.ofList view.bytes)).bind (·.find id)).map GwriteTarget.contents
  decode : ∀ own, (decode view own).map FrameBytes.bytes =
    (decode (.ofList view.bytes) own).map FrameBytes.bytes

/-! ## Looking an entry up -/

/-- A lookup that goes through the contents of a parse sees equal contents
alike. -/
theorem bind_congr_of_map {σ α ε : Type} {left right : Option σ} {contents : σ → α}
    (h : left.map contents = right.map contents) {look : σ → Option ε}
    (look' : α → Option ε) (hlook : ∀ g, look g = look' (contents g)) :
    left.bind look = right.bind look := by
  have hfactor : ∀ o : Option σ, o.bind look = (o.map contents).bind look' := by
    intro o
    cases o with
    | none => rfl
    | some g => exact hlook g
  rw [hfactor, hfactor, h]

theorem slotOf_eq_ids (ids : FrameBytes) (id : Id) :
    slotOf ids id = ((ids.bytes.map Id.mk).findIdx? fun b => b == id).map fun p => p % 256 := by
  rw [slotOf, List.findIdx?_map]
  congr 2
  funext b
  exact (beq_id ⟨b⟩ id).symm

theorem find_gwriteUniform (g : GwriteUniform) (id : Id) :
    (g.find id).map FrameBytes.bytes =
      (g.contents.2.2.find? fun entry => entry.1 == id).map Prod.snd := by
  simp only [GwriteUniform.find, GwriteUniform.contents, GwriteUniform.iter, List.find?_map,
    Option.map_map]
  rfl

theorem find_gwritePerTarget (g : GwritePerTarget) (id : Id) :
    (g.find id).map GwriteTarget.contents =
      (g.iter.map GwriteTarget.contents).find? fun t => t.1 == id := by
  rw [List.find?_map]
  rfl

/-- Accessors, parsers and decoder are blind to the seam; a copy is, unless it
stops after the head. -/
theorem seamBlind_of_copy {view : FrameBytes} {dst : List Byte}
    (hcopy : view.copyInto dst = (FrameBytes.ofList view.bytes).copyInto dst) :
    SeamBlind view dst := by
  have hb : view.bytes = (FrameBytes.ofList view.bytes).bytes := (FrameBytes.bytes_ofList _).symm
  have hlen : view.len = (FrameBytes.ofList view.bytes).len := by
    rw [← view.length_bytes, ← FrameBytes.length_bytes, FrameBytes.bytes_ofList]
  exact {
    len := hlen
    isEmpty := by rw [FrameBytes.isEmpty_eq, FrameBytes.isEmpty_eq, FrameBytes.bytes_ofList]
    u8At := fun i => by rw [FrameBytes.u8At_eq, FrameBytes.u8At_eq, FrameBytes.bytes_ofList]
    u16LeAt := fun i => by
      rw [FrameBytes.u16LeAt_eq, FrameBytes.u16LeAt_eq, FrameBytes.bytes_ofList]
    sub := fun start n => FrameBytes.sub_congr hb start n
    segments := by simp [FrameBytes.segments, FrameBytes.ofList, FrameBytes.bytes]
    copyInto := hcopy
    readReq := ReadReq.accepts.congr hb
    profileReq := ProfileReq.accepts.congr hb
    writeReq := WriteReq.accepts.congr hb
    mgmtReq := MgmtReq.accepts.congr hb
    enumReq := EnumReq.accepts.congr hb
    assignReq := AssignReq.accepts.congr hb
    calReq := CalReq.accepts.congr hb
    greadUniform := GreadUniform.accepts.congr hb
    greadPerTarget := GreadPerTarget.accepts.congr hb
    greadProfileUniform := GreadProfileUniform.accepts.congr hb
    greadProfilePerTarget := GreadProfilePerTarget.accepts.congr hb
    gwriteUniform := GwriteUniform.accepts.congr hb
    gwritePerTarget := GwritePerTarget.accepts.congr hb
    greadSlot := fun id => bind_congr_of_map (GreadUniform.accepts.congr hb)
      (fun g => (g.2.2.findIdx? fun b => b == id).map fun p => p % 256)
      (fun g => slotOf_eq_ids g.ids id)
    greadFind := fun id => bind_congr_of_map (GreadPerTarget.accepts.congr hb)
      (findEnum fun t => t.id == id) (fun _ => rfl)
    greadProfileSlot := fun id => bind_congr_of_map (GreadProfileUniform.accepts.congr hb)
      (fun g => (g.2.findIdx? fun b => b == id).map fun p => p % 256)
      (fun g => slotOf_eq_ids g.ids id)
    greadProfileFind := fun id => bind_congr_of_map (GreadProfilePerTarget.accepts.congr hb)
      (findEnum fun t => t.id == id) (fun _ => rfl)
    gwriteUniformFind := fun id => by
      rw [Option.map_bind, Option.map_bind]
      exact bind_congr_of_map (GwriteUniform.accepts.congr hb)
        (fun g => (g.2.2.find? fun entry : Id × List Byte => entry.1 == id).map Prod.snd)
        (fun g => find_gwriteUniform g id)
    gwritePerTargetFind := fun id => by
      rw [Option.map_bind, Option.map_bind]
      exact bind_congr_of_map (GwritePerTarget.accepts.congr hb)
        (List.find? fun t => t.1 == id) (fun g => find_gwritePerTarget g id)
    decode := fun own => decode_congr hb own }

/-- Reading a view is reading its bytes, the copy into a destination that holds
the head but not the whole apart; so a frame decodes alike at every anchor of
the ring. -/
theorem seam_unseen_iff (view : FrameBytes) (dst : List Byte) :
    (SeamBlind view dst ↔
      (view.head.length ≤ dst.length → dst.length < view.len →
        dst.take view.head.length = view.head)) ∧
    ∀ (ring : Ring) (anchor footprint : ℕ) (own : Byte),
      anchor < ring.len → footprint ≤ ring.len →
        (decode (ring.frameView anchor footprint) own).map FrameBytes.bytes =
          (decode (.ofList (ring.window anchor footprint)) own).map FrameBytes.bytes := by
  constructor
  · rw [← copyInto_ofList_iff]
    constructor
    · intro h
      exact h.copyInto
    · exact seamBlind_of_copy
  · intro ring anchor footprint own hanchor hfit
    apply decode_congr
    rw [Ring.bytes_frameView hanchor hfit, FrameBytes.bytes_ofList]

/-- A two-byte view copied whole reads alike, and a span across the seam of a
fresh ring decodes as the ring's window there. -/
theorem seam_unseen_two_bytes :
    SeamBlind ⟨[1], [2]⟩ [0, 0] ∧
      (decode ((Ring.fresh 9 (by decide) (by decide)).frameView 508 6) 1).map FrameBytes.bytes =
        (decode (.ofList ((Ring.fresh 9 (by decide) (by decide)).window 508 6)) 1).map
          FrameBytes.bytes := by
  obtain ⟨hiff, hring⟩ := seam_unseen_iff ⟨[1], [2]⟩ [0, 0]
  exact ⟨hiff.mpr (by decide), hring _ 508 6 1 (by decide) (by decide)⟩

/-- The cut view copies its head into the short destination and fails; the
contiguous one fails and copies nothing. -/
theorem short_copy_sees_the_seam : ¬ SeamBlind ⟨[1], [2]⟩ [0] := by
  intro h
  have hcopy := h.copyInto
  revert hcopy
  decide

end OpenServo.Bus
