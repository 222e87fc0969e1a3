import OpenServo.Bus.Pipeline

/-!
# Speculation leaves no trace

The world of the transport with three ghosts: the frame the pending verdict is
for, as it was dispatched, the frame whose dispatch staged the reply in the
transmitter, and whether that frame passed.  As long as a pending verdict meets
the frame that was dispatched, every step shows what the reference shows, and a
reply is sequenced by the end of its own frame alone.
-/

namespace OpenServo.Bus

open Security

def Decoded.isOwn {δ : Type} : Decoded δ → Bool
  | own _ _ _ => true
  | status | skip => false

namespace World

variable {σ : Type} [ConfigStore σ] (chip : Chip) (w : World σ)

/-- The frame in the ring without its CRC bytes, which are not there yet at the
covered checkpoint. -/
def coveredView (span : FrameSpan) : FrameBytes :=
  ((w.bus.ring.frameView span.anchor span.footprint).sub 0 (span.footprint - 2)).getD (.ofList [])

omit [ConfigStore σ] in
theorem decoded_eq {span : FrameSpan} (hfits : Fits w.bus.ring span)
    (hspans : Framer.Spans w.bus.ring span) :
    w.decoded span = decode (w.coveredView span) w.bus.id := by
  have hleast := hfits.least
  have hbytes := Ring.bytes_frameView hfits.anchor hfits.most
  have hlen : (w.bus.ring.frameView span.anchor span.footprint).len = span.footprint := by
    rw [← FrameBytes.length_bytes, hbytes, Ring.length_window]
  cases hsub : (w.bus.ring.frameView span.anchor span.footprint).sub 0 (span.footprint - 2) with
  | none =>
      rw [FrameBytes.sub_eq_none, hlen] at hsub
      omega
  | some view =>
      rw [coveredView, hsub]
      refine (decode_leading w.bus.id hsub ?_ ?_).symm
      · simp only [Header.size]
        omega
      · intro len hbyte
        rw [Ring.u8At_frameView hfits.anchor hfits.most (by omega)] at hbyte
        obtain rfl := Option.some.inj hbyte
        have hgeometry := UInt8.le_iff_toNat_le.mp hspans.geometry
        rw [hspans.sized]
        simp only [Header.size, payloadLen, footprint, UInt8.toNat_sub_of_le _ _ hspans.geometry]
        simp only [UInt8.reduceToNat] at hgeometry ⊢
        omega

/-- A frame at its covered checkpoint is dispatched ahead of its verdict. -/
def opensAt (span : FrameSpan) : Bool :=
  !(w.bus.ringInst span.anchor).isStatus && w.speculates span.anchor && (w.decoded span).isOwn

/-- A reply to the frame that ends here is staged: ahead of its verdict, which
is due, or by this end. -/
def answersAt (span : FrameSpan) : Bool :=
  match w.dueVerdict span with
  | some p => p.staged
  | none => w.entering.repliesAt span

theorem isOwn_of_stagesReply {span : FrameSpan} (h : w.stagesReply span = true) :
    (w.decoded span).isOwn = true := by
  simp only [stagesReply] at h
  split at h
  · rename_i req ctx slot hdecoded
    rw [hdecoded]
    rfl
  · cases h
  · cases h

theorem isOwn_of_repliesAt {span : FrameSpan} (h : w.repliesAt span = true) :
    (w.decoded span).isOwn = true := by
  simp only [repliesAt, Bool.and_eq_true] at h
  obtain ⟨-, hreplies⟩ := h
  split at hreplies
  · have hspined : ((w.spined span).decoded span).isOwn = true :=
      isOwn_of_stagesReply _ hreplies
    exact hspined
  · simp only [Bool.and_eq_true] at hreplies
    have hring : ((w.fed span).admitted span).bus.ring = w.bus.ring := ring_accepted _ _ _
    have hid : ((w.fed span).admitted span).bus.id = w.bus.id :=
      congrArg Config.id ((ServoBus.config_dropStaged _).trans (config_accepted _ _ _))
    have hadmitted := isOwn_of_stagesReply _ hreplies.2
    rw [decoded, hring, hid] at hadmitted
    exact hadmitted

/-! ## The resolver does not touch what the verdict sees -/

omit [ConfigStore σ] in
theorem entering_resolving (late : UInt32) :
    (w.resolving late).entering = w.entering.resolving late := by
  cases hsome : w.bus.pending.isSome with
  | true =>
      simp only [entering, resolving, hsome, if_true]
      rfl
  | false => simp only [entering, resolving, hsome, Bool.false_eq_true, if_false]

omit [ConfigStore σ] in
theorem passes_resolving (late : UInt32) (span : FrameSpan) :
    (w.resolving late).passes span = w.passes span := by
  have hdue : (w.resolving late).dueVerdict span = w.dueVerdict span := rfl
  have hspeculates : (w.entering.resolving late).speculates span.anchor =
      w.entering.speculates span.anchor := rfl
  have hfolded : ((w.entering.resolving late).folded span).authentic span.anchor span.footprint =
      (w.entering.folded span).authentic span.anchor span.footprint := by
    refine (ServoBus.authentic_congr ?_ ?_ _ _).1
    all_goals
      simp only [folded, hspeculates]
      cases w.entering.speculates span.anchor <;> rfl
  simp only [passes, crcVerdict, judgedBus, hdue, entering_resolving]
  cases w.dueVerdict span with
  | some p => rfl
  | none =>
      simp only [Option.isSome_none, Bool.false_eq_true, if_false, hfolded]
      rfl

/-! ## The covered checkpoint -/

theorem covered_of_opensAt {span : FrameSpan} (hfits : Fits w.bus.ring span)
    (hopens : w.opensAt span = true) :
    ∃ p req ctx slot, (routeFrame chip span false w).bus.pending = some p ∧
      w.decoded span = .own req ctx slot ∧
      (routeFrame chip span false w).Opens req ctx p.table ∧
      (routeFrame chip span false w).bus.Quiet ∧
      ((routeFrame chip span false w).bus.tx.staged = true → p.staged = true) ∧
      p.staged = (w.spined span).stagesReply span := by
  simp only [opensAt, Bool.and_eq_true, Bool.not_eq_true'] at hopens
  obtain ⟨⟨hinst, hspeculates⟩, hown⟩ := hopens
  cases hdecoded : w.decoded span with
  | status | skip =>
      rw [hdecoded] at hown
      cases hown
  | own req ctx slot =>
      obtain ⟨staged, out, w', hdispatch, hopened, -⟩ :=
        (w.spined span).opens_dispatchDecoded hfits (w.defers_of_speculates hspeculates) hdecoded
      obtain ⟨hquiet, hstaged⟩ := w.pipeline_spined hspeculates
      have hflag := staged_of_dispatchDecoded hdispatch
      rw [hdispatch] at hquiet hstaged
      simp only [routeFrame, hinst, hspeculates, Bool.false_eq_true, if_false, if_true,
        routeSpine_eq, hdispatch]
      refine ⟨_, req, ctx, slot, rfl, rfl, ⟨hopened.stages, hopened.left, hopened.outcome⟩, hquiet,
        ?_, hflag⟩
      intro h
      obtain ⟨_, _, hsome⟩ := hstaged h
      cases hsome
      rfl

theorem covered_of_not_opensAt {span : FrameSpan} (hopens : w.opensAt span = false) :
    (routeFrame chip span false w).disp = w.disp ∧
      (routeFrame chip span false w).bus.pending = w.bus.pending ∧
      (routeFrame chip span false w).bus.tx = w.bus.tx ∧
      (routeFrame chip span false w).bus.chain = w.bus.chain := by
  simp only [routeFrame]
  split
  · exact ⟨rfl, rfl, rfl, rfl⟩
  · rename_i hinst
    split
    · rename_i hspeculates
      have hother : (w.spined span).dispatchDecoded span.anchor span.footprint =
          (none, w.spined span) := by
        refine dispatchDecoded_other _ fun req ctx slot hown => ?_
        have hown' : w.decoded span = .own req ctx slot := hown
        simp [opensAt, hinst, hspeculates, hown', Decoded.isOwn] at hopens
      rw [routeSpine_eq, hother]
      exact ⟨rfl, rfl, rfl, rfl⟩
    · exact ⟨rfl, rfl, rfl, rfl⟩

/-! ## The frame end -/

/-- A frame end leaves no pending frame and every staged reply sequenced; unless
the frame passed and its own reply was staged, a quiet pipeline stays quiet and
so does one that staged the reply. -/
theorem pipeline_onFrameEnd {span : FrameSpan} (hspan : 2 ≤ span.footprint)
    (hparked : w.bus.pending = none → w.bus.Parked)
    (hflagged : ∀ p, w.bus.pending = some p → w.bus.tx.staged = true → p.staged = true)
    (hheld : ∀ p, w.bus.pending = some p → w.bus.Quiet) :
    (onFrameEnd chip span w).bus.pending = none ∧ (onFrameEnd chip span w).bus.Parked ∧
      ((w.passes span && w.answersAt span) = false →
        (w.bus.Quiet ∨ w.answersAt span = true) → (onFrameEnd chip span w).bus.Quiet) := by
  rw [onFrameEnd_eq]
  cases hverdict : w.dueVerdict span with
  | some p =>
      have hpending : w.bus.pending = some p := (Option.filter_eq_some_iff.mp hverdict).1
      have hat : p.anchor = span.anchor ∧ p.footprint = span.footprint := by
        have hp : p.isAt span := (Option.filter_eq_some_iff.mp hverdict).2
        simpa [Pending.isAt] using hp
      refine ⟨pending_verify chip _ p, parked_verify chip _ (hflagged p hpending), ?_⟩
      intro hclears _
      refine quiet_verify chip _ (hheld p hpending) ?_
      simp only [answersAt, passes, crcVerdict, judgedBus, hverdict, Option.isSome_some,
        if_true] at hclears
      rw [hat.1, hat.2]
      exact hclears
  | none =>
      have hentered : w.entering.bus.Parked := by
        simp only [entering]
        split
        · exact ServoBus.parked_dropStaged _
        · rename_i hnone
          exact hparked (by simpa using hnone)
      have hnone : w.entering.bus.pending = none := by
        simp only [entering]
        split <;> rfl
      obtain ⟨hkept, hpending, hfails⟩ := w.entering.pipeline_routeFrame chip hspan hentered
      refine ⟨hpending.trans hnone, hkept, fun hclears hquiet => ?_⟩
      have hidle : w.bus.Quiet → w.entering.bus.Quiet := by
        intro hbefore
        have htaken : ({ w.bus with pending := none } : ServoBus).Quiet := hbefore
        simp only [entering]
        split
        · exact htaken.dropStaged
        · exact htaken
      have hcrc : w.entering.bus.freshCrc span.anchor span.footprint =
          w.bus.freshCrc span.anchor span.footprint := by
        refine ServoBus.freshCrc_congr ?_ ?_ _ _
        all_goals
          simp only [entering]
          split <;> rfl
      simp only [answersAt, hverdict] at hclears hquiet
      refine hfails ?_ (hquiet.imp_left hidle)
      simpa only [passes, crcVerdict, judgedBus, hverdict, Option.isSome_none,
        Bool.false_eq_true, if_false, hcrc] using hclears

end World

/-! ## The traced world -/

structure Traced (σ : Type) where
  world : World σ
  /-- The frame of the pending verdict, and the id it was decoded for. -/
  frame : Option (FrameBytes × Byte)
  /-- The frame whose dispatch staged the reply in the transmitter. -/
  reply : Option (FrameBytes × Byte)
  /-- That frame passed both gates. -/
  passed : Bool
  deriving DecidableEq

namespace Traced

variable {σ : Type} [ConfigStore σ] (chip : Chip) (t : Traced σ)

/-- The frame in the ring and the id it would be decoded for. -/
def read (span : FrameSpan) : FrameBytes × Byte := (t.world.coveredView span, t.world.bus.id)

/-- One step, with the ghosts following it. -/
def step (act : Act) : Traced σ :=
  let world := t.world.step chip act
  match act with
  | .drive late =>
      let turn := t.world.resolving late
      match t.world.resolved with
      | .covered span due =>
          let turn := turn.onBus fun bus => { bus with framerAt := some due }
          if turn.opensAt span then
            { world
              frame := some (t.read span)
              reply := if (turn.spined span).stagesReply span then some (t.read span) else t.reply
              passed := false }
          else { t with world }
      | .frame span =>
          { world
            frame := t.frame
            reply :=
              if (turn.dueVerdict span).isNone && turn.entering.repliesAt span then
                some (t.read span)
              else t.reply
            passed := if turn.answersAt span then turn.passes span else t.passed }
      | .none | .wait _ => { t with world }
  | _ => { t with world }

/-- A verdict that falls due meets the frame that was dispatched. -/
def FrameKept (act : Act) : Prop :=
  act.drives = true → t.world.resolved.AtEnd fun span =>
    (t.world.dueVerdict span).isSome = true → t.frame = some (t.read span)

instance (act : Act) : Decidable (t.FrameKept act) := inferInstanceAs (Decidable (_ → _))

/-- The step is the end of a frame for this servo that passes both gates, and
the reply is the one its dispatch staged. -/
def Earns (act : Act) : Prop :=
  act.drives = true ∧ ∃ span, t.world.resolved = .frame span ∧ t.world.passes span = true ∧
    (t.world.decoded span).isOwn = true ∧ (t.step chip act).reply = some (t.read span)

/-- The step shows what the reference shows.  A reply that is sequenced or on
the wire afterwards answers a frame that passed: it was there before, or the
step is the end of that frame. -/
structure Unseen (act : Act) : Prop where
  shows : (t.step chip act).world.visible = t.world.ideal chip act
  passed : ¬ (t.step chip act).world.bus.Quiet → (t.step chip act).passed = true
  earned : ¬ (t.step chip act).world.bus.Quiet →
    ¬ t.world.bus.Quiet ∧ (t.step chip act).reply = t.reply ∨ t.Earns chip act

/-- What holds along a run whose verdicts meet their frames. -/
structure Sound : Prop where
  inRing : t.world.InRing
  opened : ∀ p, t.world.bus.pending = some p → ∃ view id req ctx slot,
    t.frame = some (view, id) ∧ decode view id = .own req ctx slot ∧ t.world.Opens req ctx p.table
  parked : t.world.bus.pending = none → t.world.bus.Parked
  flagged : ∀ p, t.world.bus.pending = some p → t.world.bus.tx.staged = true → p.staged = true
  held : ∀ p, t.world.bus.pending = some p → t.world.bus.Quiet
  owned : ∀ p, t.world.bus.pending = some p → p.staged = true → t.reply = t.frame
  quiet : t.passed = false → t.world.bus.Quiet

/-! ## The invariant -/

variable {t}

/-- A step that keeps the dispatcher and the pending frame. -/
theorem Sound.of_steady (h : t.Sound) {world : World σ} (hin : world.InRing)
    (hdisp : world.disp = t.world.disp)
    (hpending : world.bus.pending = t.world.bus.pending ∨
      world.bus.pending = none ∧ world.bus.Parked)
    (hsteady : t.world.bus.Steady world.bus) : Sound { t with world } := by
  refine ⟨hin, ?_, ?_, ?_, ?_, ?_, fun hpassed => hsteady.quiet (h.quiet hpassed)⟩
  · intro p hp
    obtain hsame | ⟨hnone, -⟩ := hpending
    · obtain ⟨view, id, req, ctx, slot, hframe, hdecode, hopens⟩ := h.opened p (hsame.symm.trans hp)
      refine ⟨view, id, req, ctx, slot, hframe, hdecode, hopens.stages, ?_, ?_⟩
      · rw [show ({ t with world } : Traced σ).world.disp = t.world.disp from hdisp]
        exact hopens.left
      · rw [show ({ t with world } : Traced σ).world.disp = t.world.disp from hdisp]
        exact hopens.outcome
    · cases hnone.symm.trans hp
  · intro hnone
    obtain hsame | ⟨-, hparked⟩ := hpending
    · exact hsteady.parked (h.parked (hsame.symm.trans hnone))
    · exact hparked
  · intro p hp hstaged
    obtain hsame | ⟨hnone, -⟩ := hpending
    · exact h.flagged p (hsame.symm.trans hp) (hsteady.staged hstaged)
    · cases hnone.symm.trans hp
  · intro p hp
    obtain hsame | ⟨hnone, -⟩ := hpending
    · exact hsteady.quiet (h.held p (hsame.symm.trans hp))
    · cases hnone.symm.trans hp
  · intro p hp hstaged
    obtain hsame | ⟨hnone, -⟩ := hpending
    · exact h.owned p (hsame.symm.trans hp) hstaged
    · cases hnone.symm.trans hp

theorem pending_step {w : World σ} {act : Act} (h : act.drives = false) :
    (w.step chip act).bus.pending = w.bus.pending ∨
      (w.step chip act).bus.pending = none ∧ (w.step chip act).bus.Parked := by
  have hstep := congrArg Standing.pending (World.standing_step chip w h)
  cases act with
  | drive late => cases h
  | rescue =>
      cases hstreaming : w.bus.tx.streaming with
      | true =>
          left
          simp only [hstreaming, if_true] at hstep
          exact hstep
      | false =>
          right
          simp only [World.step, World.onBus, ServoBus.onRescueBreak, hstreaming,
            Bool.false_eq_true, if_false]
          refine ⟨rfl, fun hstaged => ?_⟩
          have hbusy := w.bus.tx.busy_abort
          rw [TxEngine.busy_eq, Bool.or_eq_false_iff] at hbusy
          have hstaged' : w.bus.tx.abort.staged = true := hstaged
          rw [hbusy.1] at hstaged'
          cases hstaged'
  | _ => exact .inl hstep

theorem world_step (act : Act) : (t.step chip act).world = t.world.step chip act := by
  simp only [Traced.step]
  repeat' split
  all_goals rfl

theorem step_other {act : Act} (h : act.drives = false) :
    t.step chip act = { t with world := t.world.step chip act } := by
  cases act with
  | drive late => cases h
  | _ => rfl

/-- A covered checkpoint keeps the invariant and sequences nothing. -/
theorem Sound.covered (h : t.Sound) {late : UInt32} {span : FrameSpan} {due : UInt32}
    (hout : t.world.resolved = .covered span due) :
    (t.step chip (.drive late)).Sound ∧
      (¬ (t.step chip (.drive late)).world.bus.Quiet →
        ¬ t.world.bus.Quiet ∧ (t.step chip (.drive late)).reply = t.reply) := by
  have hfits := World.fits_of_resolved h.inRing (by rw [hout]; rfl)
  have hin := World.inRing_step chip h.inRing (.drive late)
  have hstep := World.step_drive chip t.world late
  rw [hout] at hstep
  simp only at hstep
  generalize hturn : ((t.world.resolving late).onBus fun bus => { bus with framerAt := some due }) =
    turn at hstep
  cases hopens : turn.opensAt span with
  | true =>
      obtain ⟨p, req, ctx, slot, hpending, hdecoded, hopened, hquiet, hstaged, hflag⟩ :=
        World.covered_of_opensAt chip turn (by rw [← hturn]; exact hfits) hopens
      rw [← hstep] at hpending hopened hquiet hstaged
      have htraced : t.step chip (.drive late) =
          { world := t.world.step chip (.drive late)
            frame := some (t.read span)
            reply := if (turn.spined span).stagesReply span then some (t.read span) else t.reply
            passed := false } := by
        simp only [Traced.step, hout, hturn, hopens, if_true]
      rw [htraced]
      refine ⟨⟨hin, ?_, ?_, ?_, fun _ _ => hquiet, ?_, fun _ => hquiet⟩,
        fun hbusy => absurd hquiet hbusy⟩
      · intro q hq
        obtain rfl : p = q := Option.some.inj (hpending.symm.trans hq)
        refine ⟨_, _, req, ctx, slot, rfl, ?_, hopened⟩
        rw [← t.world.decoded_eq hfits (t.world.spans_of_resolved (by rw [hout]; rfl))]
        rw [← hturn] at hdecoded
        exact hdecoded
      · intro hnone
        cases hnone.symm.trans hpending
      · intro q hq
        obtain rfl : p = q := Option.some.inj (hpending.symm.trans hq)
        exact hstaged
      · intro q hq hset
        obtain rfl : p = q := Option.some.inj (hpending.symm.trans hq)
        rw [hflag] at hset
        rw [if_pos hset]
  | false =>
      obtain ⟨hdisp, hpending, htx, hchain⟩ := World.covered_of_not_opensAt chip turn hopens
      rw [← hstep, ← hturn] at hdisp hpending htx hchain
      have htraced : t.step chip (.drive late) =
          { t with world := t.world.step chip (.drive late) } := by
        simp only [Traced.step, hout, hturn, hopens, Bool.false_eq_true, if_false]
      have hsteady : t.world.bus.Steady (t.world.step chip (.drive late)).bus :=
        .of_eq htx hchain
      rw [htraced]
      exact ⟨h.of_steady hin hdisp (.inl hpending) hsteady,
        fun hbusy => ⟨fun hquiet => hbusy (hsteady.quiet hquiet), rfl⟩⟩

theorem Sound.ownVerdict (h : t.Sound) {span : FrameSpan}
    (hout : t.world.resolved = .frame span)
    (hkept : (t.world.dueVerdict span).isSome = true → t.frame = some (t.read span)) :
    t.world.OwnVerdict span := by
  intro p hdue
  have hpending : t.world.bus.pending = some p := (Option.filter_eq_some_iff.mp hdue).1
  obtain ⟨view, id, req, ctx, slot, hframe, hdecode, hopens⟩ := h.opened p hpending
  have hread := hframe.symm.trans (hkept (by rw [hdue]; rfl))
  obtain ⟨rfl, rfl⟩ := Prod.mk.inj (Option.some.inj hread)
  refine ⟨req, ctx, slot, ?_, hopens⟩
  rw [t.world.decoded_eq (World.fits_of_resolved h.inRing (by rw [hout]; rfl))
    (t.world.spans_of_resolved (by rw [hout]; rfl))]
  exact hdecode

/-- A frame whose reply is staged when it ends is for this servo. -/
theorem Sound.isOwn_of_answersAt (h : t.Sound) {late : UInt32} {span : FrameSpan}
    (hout : t.world.resolved = .frame span)
    (hkept : (t.world.dueVerdict span).isSome = true → t.frame = some (t.read span))
    (hanswers : (t.world.resolving late).answersAt span = true) :
    (t.world.decoded span).isOwn = true := by
  simp only [World.answersAt] at hanswers
  split at hanswers
  · rename_i p hp
    obtain ⟨req, ctx, slot, hdecoded, -⟩ := h.ownVerdict hout hkept p hp
    rw [hdecoded]
    rfl
  · have hown := World.isOwn_of_repliesAt _ hanswers
    have hsame : (t.world.resolving late).entering.decoded span = t.world.decoded span := by
      simp only [World.decoded, World.entering]
      split <;> rfl
    rw [hsame] at hown
    exact hown

/-- A frame end keeps the invariant, and a reply that is sequenced after it was
so before or is the frame's own. -/
theorem Sound.ended (h : t.Sound) {late : UInt32} {span : FrameSpan}
    (hout : t.world.resolved = .frame span)
    (hkept : (t.world.dueVerdict span).isSome = true → t.frame = some (t.read span)) :
    (t.step chip (.drive late)).Sound ∧
      (¬ (t.step chip (.drive late)).world.bus.Quiet →
        ¬ t.world.bus.Quiet ∧ (t.step chip (.drive late)).reply = t.reply ∨
          t.Earns chip (.drive late)) := by
  have hin := World.inRing_step chip h.inRing (.drive late)
  have hleast := (World.fits_of_resolved h.inRing (by rw [hout]; rfl)).least
  have hstep := World.step_drive chip t.world late
  rw [hout] at hstep
  obtain ⟨hnone, hparked, hquiet⟩ := (t.world.resolving late).pipeline_onFrameEnd chip
    (show 2 ≤ span.footprint by omega) h.parked h.flagged h.held
  simp only at hstep
  rw [← hstep] at hnone hparked hquiet
  rw [World.passes_resolving] at hquiet
  have htraced : t.step chip (.drive late) =
      { world := t.world.step chip (.drive late)
        frame := t.frame
        reply :=
          if (t.world.dueVerdict span).isNone &&
              (t.world.resolving late).entering.repliesAt span then
            some (t.read span)
          else t.reply
        passed :=
          if (t.world.resolving late).answersAt span then t.world.passes span
          else t.passed } := by
    simp only [Traced.step, hout, World.passes_resolving]
    rfl
  have hsound : ((t.step chip (.drive late)).passed = false →
      (t.world.step chip (.drive late)).bus.Quiet) → (t.step chip (.drive late)).Sound := by
    intro hafter
    rw [htraced] at hafter ⊢
    refine ⟨hin, ?_, fun _ => hparked, ?_, ?_, ?_, hafter⟩
    all_goals
      intro p hp
      cases hnone.symm.trans hp
  cases hanswers : (t.world.resolving late).answersAt span with
  | false =>
      rw [hanswers, Bool.and_false] at hquiet
      have hafter : t.world.bus.Quiet → (t.world.step chip (.drive late)).bus.Quiet :=
        fun hbefore => hquiet rfl (.inl hbefore)
      refine ⟨hsound fun hpassed => ?_, fun hbusy => .inl ⟨fun hbefore => ?_, ?_⟩⟩
      · rw [htraced] at hpassed
        simp only [hanswers, Bool.false_eq_true, if_false] at hpassed
        exact hafter (h.quiet hpassed)
      · rw [htraced] at hbusy
        exact hbusy (hafter hbefore)
      · rw [htraced]
        refine if_neg fun hreplies => ?_
        obtain ⟨hdue, hreplies⟩ := Bool.and_eq_true_iff.mp hreplies
        have hdue' : (t.world.resolving late).dueVerdict span = none :=
          Option.isNone_iff_eq_none.mp hdue
        simp [World.answersAt, hdue', hreplies] at hanswers
  | true =>
      rw [hanswers, Bool.and_true] at hquiet
      cases hpasses : t.world.passes span with
      | false =>
          have hafter := hquiet hpasses (.inr rfl)
          refine ⟨hsound fun _ => hafter, fun hbusy => ?_⟩
          rw [htraced] at hbusy
          exact absurd hafter hbusy
      | true =>
          refine ⟨hsound fun hpassed => ?_, fun _ => .inr ⟨rfl, span, hout, hpasses,
            h.isOwn_of_answersAt hout hkept hanswers, ?_⟩⟩
          · rw [htraced] at hpassed
            simp only [hanswers, if_true, hpasses, Bool.true_eq_false] at hpassed
          · rw [htraced]
            simp only [World.answersAt] at hanswers
            cases hdue : t.world.dueVerdict span with
            | some p =>
                have hstaged : p.staged = true := by
                  rw [show (t.world.resolving late).dueVerdict span = some p from hdue] at hanswers
                  exact hanswers
                simp only [Option.isNone_some, Bool.false_and, Bool.false_eq_true, if_false]
                exact (h.owned p (Option.filter_eq_some_iff.mp hdue).1 hstaged).trans
                  (hkept (by rw [hdue]; rfl))
            | none =>
                rw [show (t.world.resolving late).dueVerdict span = none from hdue] at hanswers
                have hreplies : (t.world.resolving late).entering.repliesAt span = true := hanswers
                simp only [Option.isNone_none, hreplies, Bool.and_self, if_true]

/-- A step keeps the invariant, and a reply that is sequenced after it was so
before or is earned by it. -/
theorem Sound.advances (h : t.Sound) {act : Act} (hkept : t.FrameKept act) :
    (t.step chip act).Sound ∧
      (¬ (t.step chip act).world.bus.Quiet →
        ¬ t.world.bus.Quiet ∧ (t.step chip act).reply = t.reply ∨ t.Earns chip act) := by
  cases hdrives : act.drives with
  | false =>
      have hsteady := World.steady_step chip t.world hdrives
      rw [step_other chip hdrives]
      exact ⟨h.of_steady (World.inRing_step chip h.inRing act)
        (World.disp_step chip t.world hdrives) (pending_step chip hdrives) hsteady,
        fun hbusy => .inl ⟨fun hquiet => hbusy (hsteady.quiet hquiet), rfl⟩⟩
  | true =>
      cases act with
      | drive late =>
          have hin := World.inRing_step chip h.inRing (.drive late)
          have hstep := World.step_drive chip t.world late
          cases hout : t.world.resolved with
          | covered span due =>
              obtain ⟨hsound, hstill⟩ := h.covered chip hout
              exact ⟨hsound, fun hbusy => .inl (hstill hbusy)⟩
          | none | wait due =>
              rw [hout] at hstep
              have htraced : t.step chip (.drive late) =
                  { t with world := t.world.step chip (.drive late) } := by
                simp only [Traced.step, hout]
              have hsteady : t.world.bus.Steady (t.world.step chip (.drive late)).bus := by
                refine .of_eq ?_ ?_
                all_goals
                  rw [hstep]
                  rfl
              rw [htraced]
              refine ⟨h.of_steady hin ?_ (.inl ?_) hsteady,
                fun hbusy => .inl ⟨fun hquiet => hbusy (hsteady.quiet hquiet), rfl⟩⟩
              all_goals
                rw [hstep]
                rfl
          | frame span =>
              have hown := hkept rfl
              rw [hout] at hown
              exact h.ended chip hout hown
      | _ => cases hdrives

/-! ## Every step of a run -/

/-- A step shows what the reference shows. -/
theorem Sound.visible_step (h : t.Sound) {act : Act} (hkept : t.FrameKept act) :
    (t.world.step chip act).visible = t.world.ideal chip act := by
  cases hdrives : act.drives with
  | true =>
      cases act with
      | drive late =>
          rw [World.step_drive]
          simp only [World.ideal, Act.drives, if_true]
          cases hout : t.world.resolved with
          | none => rfl
          | wait due => rfl
          | covered span due =>
              have hfits := World.fits_of_resolved h.inRing (by rw [hout]; rfl)
              exact World.visible_covered chip ((t.world.resolving late).onBus fun bus =>
                { bus with framerAt := some due }) hfits
          | frame span =>
              have hfits := World.fits_of_resolved h.inRing (by rw [hout]; rfl)
              have hown := hkept rfl
              rw [hout] at hown
              have hverdict : (t.world.resolving late).OwnVerdict span := by
                intro p hp
                obtain ⟨req, ctx, slot, hdecoded, hopens⟩ := h.ownVerdict hout hown p hp
                exact ⟨req, ctx, slot, hdecoded, hopens.stages, hopens.left, hopens.outcome⟩
              have hend := World.visible_onFrameEnd chip (t.world.resolving late) hfits hverdict
              rw [World.passes_resolving] at hend
              exact hend
      | _ => cases hdrives
  | false =>
      have hdisp := World.disp_step chip t.world hdrives
      simp only [World.ideal, hdrives, Bool.false_eq_true, if_false]
      cases hexecutes : act.executes with
      | true => simp only [if_true, World.visible, hdisp]
      | false =>
          have hconfig := World.config_step chip t.world hdrives hexecutes
          simp only [Bool.false_eq_true, if_false, World.visible, hdisp, hconfig]

/-- Nothing is pending and nothing is staged at power-on. -/
theorem sound_boot (ring : Ring) (now : UInt32) (id : Byte) (rate : BaudRate)
    (responseDeadlineUs : ℕ) (disp : Dispatcher σ) :
    Sound ⟨.boot chip ring now id rate responseDeadlineUs disp, none, none, false⟩ where
  inRing := World.inRing_boot chip ring now id rate responseDeadlineUs disp
  opened := nofun
  parked _ h := nomatch h
  flagged := nofun
  held := nofun
  owned := nofun
  quiet _ := ⟨rfl, rfl⟩

end Traced

/-! ### The write that outlives its frame, seen from the reference -/

end OpenServo.Bus
