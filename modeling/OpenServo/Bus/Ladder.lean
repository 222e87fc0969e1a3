import OpenServo.Bus.Gate
import OpenServo.Bus.StepFacts

/-!
# The ladder stays in the ring

Frame handling never touches the ring and moves the ladder only by wrapped
steps, so in every state of a run the resolver hands out frames that lie in the
ring, and the decoder reads the instruction byte the gates look at.
-/

namespace OpenServo.Bus

open Security

/-- The ring is this one and the ladder lies inside it. -/
def ServoBus.OnLadder (ring : Ring) (bus : ServoBus) : Prop :=
  bus.ring = ring ∧ bus.framer.anchor < ring.len

namespace World

variable {σ : Type} [ConfigStore σ] (chip : Chip) {w : World σ} {ring : Ring}

theorem onLadder_dispatchDecoded (h : w.bus.OnLadder ring) (anchor footprint : ℕ) :
    (w.dispatchDecoded anchor footprint).2.bus.OnLadder ring := by
  obtain ⟨handle, hbus, -⟩ := w.dispatchDecoded_eq anchor footprint
  rw [hbus]
  exact h

omit [ConfigStore σ] in
theorem onLadder_commit (h : w.bus.OnLadder ring) : w.commit.bus.OnLadder ring := by
  obtain ⟨handle, hbus, -⟩ := w.commit_eq
  rw [hbus]
  exact h

omit [ConfigStore σ] in
theorem onLadder_sequenced (h : w.bus.OnLadder ring) (staged : Bool) (slot : ℕ)
    (packetEnd : UInt32) : (w.sequenced chip staged slot packetEnd).bus.OnLadder ring := by
  simp only [sequenced]
  split
  · obtain ⟨_, _, _, _, hbus⟩ := w.bus.sequenceReply_eq chip slot packetEnd
    rw [hbus]
    exact h
  · exact h

omit [ConfigStore σ] in
theorem onLadder_accepted {bus : ServoBus} (h : bus.OnLadder ring) (anchor footprint : ℕ) :
    (accepted bus anchor footprint).OnLadder ring := by
  simp only [accepted]
  obtain ⟨clock, hbus, -⟩ := ServoBus.driftNoteVerified_eq
    ({ bus with
      security := bus.judged anchor footprint
      framer := bus.framer.onFrameVerified } : ServoBus) anchor footprint
  rw [hbus]
  exact h

omit [ConfigStore σ] in
theorem onLadder_rejectFrame {bus : ServoBus} (h : bus.OnLadder ring) (anchor : ℕ) :
    (bus.rejectFrame anchor).OnLadder ring := by
  obtain ⟨rfl, -⟩ := h
  refine ⟨rfl, ?_⟩
  show ringWrap (anchor + 1) bus.ring.len < bus.ring.len
  rw [bus.ring.ringWrap_len]
  exact Nat.mod_lt _ bus.ring.len_pos

omit [ConfigStore σ] in
theorem onLadder_verify (h : w.bus.OnLadder ring) (p : Pending) :
    (verify chip p w).bus.OnLadder ring := by
  rw [verify_eq]
  split
  · split
    · refine onLadder_sequenced chip ?_ _ _ _
      have haccepted := onLadder_accepted h p.anchor p.footprint
      split
      · exact onLadder_commit haccepted
      · exact haccepted
    · exact h
  · exact onLadder_rejectFrame h p.anchor

theorem onLadder_routeSpine (h : w.bus.OnLadder ring) (span : FrameSpan) (complete : Bool) :
    (routeSpine chip span complete w).bus.OnLadder ring := by
  have hspined : (w.spined span).bus.OnLadder ring := h
  have hdispatch := onLadder_dispatchDecoded hspined span.anchor span.footprint
  rw [routeSpine_eq]
  split
  · rename_i hout
    rw [hout] at hdispatch
    split
    · exact onLadder_verify chip hdispatch _
    · exact hdispatch
  · rename_i hout
    rw [hout] at hdispatch
    split
    · exact onLadder_verify chip hdispatch _
    · exact hdispatch

theorem onLadder_routeVerdictFirst (h : w.bus.OnLadder ring) {span : FrameSpan}
    (hspan : 2 ≤ span.footprint) : (routeVerdictFirst chip span w).bus.OnLadder ring := by
  have hfed : (w.fed span).bus.OnLadder ring := h
  rw [routeVerdictFirst_eq chip w hspan]
  split
  · split
    · have hadmitted : ((w.fed span).admitted span).bus.OnLadder ring :=
        onLadder_accepted hfed span.anchor span.footprint
      have hdispatch := onLadder_dispatchDecoded hadmitted span.anchor span.footprint
      simp only [routeAccepted]
      split
      · rename_i hout
        rw [hout] at hdispatch
        exact hdispatch
      · rename_i hout
        rw [hout] at hdispatch
        refine onLadder_sequenced chip ?_ _ _ _
        split
        · exact onLadder_commit hdispatch
        · exact hdispatch
    · exact h
  · exact onLadder_rejectFrame hfed span.anchor

theorem onLadder_routeFrame (h : w.bus.OnLadder ring) {span : FrameSpan}
    (hspan : 2 ≤ span.footprint) (complete : Bool) :
    (routeFrame chip span complete w).bus.OnLadder ring := by
  simp only [routeFrame]
  split
  · simp only [routeStatus]
    split
    · obtain ⟨_, _, _, _, hbus⟩ := ServoBus.routeChain_eq
        ({ w.bus with chain := (w.bus.chain.onStatusEnd span.packetEnd).1 } : ServoBus)
        (w.bus.chain.onStatusEnd span.packetEnd).2
      rw [hbus]
      exact h
    · exact h
  · split
    · exact onLadder_routeSpine chip h span complete
    · split
      · exact h
      · exact onLadder_routeVerdictFirst chip h hspan

theorem onLadder_onFrameEnd (h : w.bus.OnLadder ring) {span : FrameSpan}
    (hspan : 2 ≤ span.footprint) : (onFrameEnd chip span w).bus.OnLadder ring := by
  have hentering : w.entering.bus.OnLadder ring := by
    simp only [entering]
    split <;> exact h
  rw [onFrameEnd_eq]
  split
  · refine onLadder_verify chip ?_ _
    exact h
  · exact onLadder_routeFrame chip hentering hspan true

/-! ## Runs -/

/-- The ladder lies inside the ring. -/
def InRing (w : World σ) : Prop := w.bus.framer.anchor < w.bus.ring.len

omit [ConfigStore σ] in
theorem inRing_boot (ring : Ring) (now : UInt32) (id : Byte) (rate : BaudRate)
    (responseDeadlineUs : ℕ) (disp : Dispatcher σ) :
    (boot chip ring now id rate responseDeadlineUs disp).InRing := ring.len_pos

/-- A span in the ring, as the resolver hands it out. -/
structure Fits (ring : Ring) (span : FrameSpan) : Prop where
  anchor : span.anchor < ring.len
  least : 6 ≤ span.footprint
  most : span.footprint ≤ ring.len

omit [ConfigStore σ] in
theorem fits_of_resolved (h : w.InRing) {span : FrameSpan} (hout : w.resolved.subject = some span) :
    Fits w.bus.ring span := by
  have hbounds := (w.spans_of_resolved hout).footprint_bounds
  have hlen := w.bus.ring.len_ge
  have hmax : frameMax ≤ 512 := by decide
  exact ⟨((w.bus.framer.resolve_spec w.bus.ring w.bus.now w.bus.tpb).2 h).2 span hout, hbounds.1,
    by omega⟩

omit [ConfigStore σ] in
theorem onLadder_resolving (h : w.InRing) (late : UInt32) :
    (w.resolving late).bus.OnLadder w.bus.ring :=
  ⟨rfl, ((w.bus.framer.resolve_spec w.bus.ring w.bus.now w.bus.tpb).2 h).1⟩

/-- A turn of the resolver leaves the ring as it is and the ladder inside. -/
theorem onLadder_drive (h : w.InRing) (late : UInt32) :
    (step chip w (.drive late)).bus.OnLadder w.bus.ring := by
  have hresolving := onLadder_resolving h late
  rw [step_drive]
  cases hout : w.resolved with
  | none => exact hresolving
  | wait due => exact hresolving
  | covered span due =>
      have hfits := fits_of_resolved h (by rw [hout]; rfl)
      have hleast := hfits.least
      refine onLadder_routeFrame chip ?_ (by omega) false
      exact hresolving
  | frame span =>
      have hfits := fits_of_resolved h (by rw [hout]; rfl)
      have hleast := hfits.least
      exact onLadder_onFrameEnd chip hresolving (by omega)

theorem inRing_step (h : w.InRing) (act : Act) : (step chip w act).InRing := by
  cases act with
  | drive late =>
      obtain ⟨hring, hanchor⟩ := onLadder_drive chip h late
      rw [InRing, hring]
      exact hanchor
  | receive b =>
      show w.bus.framer.anchor < (w.bus.ring.push b).len
      rw [Ring.len_push]
      exact h
  | rescue =>
      simp only [InRing, step, onBus, ServoBus.onRescueBreak]
      split
      · exact h
      · exact w.bus.ring.cursor_lt_len
  | calBreak =>
      simp only [InRing, step, onBus, ServoBus.onCalBreak]
      split
      · split <;> exact h
      · exact h
  | breakHead =>
      have hanchor : w.bus.breakHead.2.framer.anchor = w.bus.framer.anchor := by
        simp only [ServoBus.breakHead, Framer.onWireFault]
        split <;> split <;> rfl
      have hring : w.bus.breakHead.2.ring = w.bus.ring :=
        congrArg Standing.ring w.bus.standing_breakHead
      simp only [InRing, step, onBus, hanchor, hring]
      exact h
  | breakTail fresh now =>
      simp only [InRing, step, onBus, ServoBus.breakTail]
      obtain ⟨_, _, _, _, hbus⟩ := ServoBus.routeChain_eq _ _
      rw [hbus]
      split <;> split <;> exact h
  | chainDue now =>
      simp only [InRing, step, onBus, ServoBus.chainDue]
      split
      · obtain ⟨_, _, _, _, hbus⟩ := ServoBus.routeChain_eq
          ({ w.bus with chainAt := none, chain := (w.bus.chain.onDeadline now).1 } : ServoBus)
          (w.bus.chain.onDeadline now).2
        rw [hbus]
        exact h
      · exact h
  | framerDue =>
      simp only [InRing, step, onBus, ServoBus.framerDue]
      split <;> exact h
  | txComplete =>
      simp only [InRing, step, onBus, ServoBus.onTxComplete]
      split
      · exact h
      · split <;> split <;> exact h
  | takeReboot =>
      simp only [InRing, step, onBus, ServoBus.takeReboot]
      split <;> exact h
  | _ => exact h

/-! ## The instruction byte -/

/-- The decoder reads the instruction byte the gates look at. -/
theorem carries_of_decode {bus : ServoBus} {span : FrameSpan} (hfits : Fits bus.ring span)
    {id : Byte} {req : Request FrameBytes} {ctx : RequestCtx} {slot : ℕ}
    (hdecode : decode (bus.ring.frameView span.anchor span.footprint) id = .own req ctx slot) :
    ∃ op, (bus.ringInst span.anchor).opcode = some op ∧
      Carries op (bus.ringInst span.anchor) req := by
  obtain ⟨b, op, hbyte, hop, hcarries⟩ := decode_carries hdecode
  have hleast := hfits.least
  rw [Ring.u8At_frameView hfits.anchor hfits.most (by omega)] at hbyte
  obtain rfl := Option.some.inj hbyte
  exact ⟨op, hop, hcarries⟩

end World

end OpenServo.Bus
