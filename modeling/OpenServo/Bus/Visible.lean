import OpenServo.Bus.Guarded

/-!
# Judge first, dispatch later

What speculation must not show: the table plane with a dangling write dropped,
and the configuration.  The reference transport here never speculates: it
decodes a frame once both verdicts passed and then performs its request.  The
steps of the real one, which dispatches first and undoes later, come out the
same.
-/

namespace OpenServo.Bus

open Security

/-! ## The configuration as a reply surface -/

instance : Reply Config where
  sendStatus config _ := config
  sendStatusGather config _ _ _ := config
  stageId config id := { config with pendingId := some id }
  setId config id := { config with id }
  stageBaud config baud := { config with pendingBaud := some baud }
  setResponseDeadline config us := { config with responseDeadlineUs := us }
  stageReboot config mode := { config with pendingReboot := some mode }
  beginClockCal config gapUs gaps := { config with pendingCal := some (gapUs, gaps) }

theorem ReplyHandle.sim_config :
    Reply.Sim fun (h : ReplyHandle) (config : Config) => h.config = config where
  sendStatus _ hrel := (ReplyHandle.config_sendGather _ _ _ _).trans hrel
  sendStatusGather _ _ _ hrel := (ReplyHandle.config_sendGather _ _ _ _).trans hrel
  stageId _ hrel := by rw [← hrel]; rfl
  setId _ hrel := by rw [← hrel]; rfl
  stageBaud _ hrel := by rw [← hrel]; rfl
  setResponseDeadline _ hrel := by rw [← hrel]; rfl
  stageReboot _ hrel := by rw [← hrel]; rfl
  beginClockCal _ _ hrel := by rw [← hrel]; rfl

/-! ## The reference -/

/-- The table plane between frames, and the configuration. -/
structure Visible (σ : Type) where
  disp : Dispatcher σ
  config : Config
  deriving DecidableEq

section Reference

variable {σ : Type} [ConfigStore σ]

/-- Dispatch and verdict in one. -/
def Visible.perform (v : Visible σ) (req : Request FrameBytes) (ctx : RequestCtx) : Visible σ :=
  let (out, disp, config) := v.disp.dispatch req ctx v.config
  if out == .pending then ⟨(disp.commit config).1, (disp.commit config).2⟩ else ⟨disp, config⟩

/-- Perform what a frame asks of this servo, if anything. -/
def Visible.answer (v : Visible σ) : Decoded FrameBytes → Visible σ
  | .own req ctx _ => v.perform req ctx
  | .status | .skip => v

end Reference

namespace World

variable {σ : Type} [ConfigStore σ] (chip : Chip) (w : World σ)

def visible : Visible σ := ⟨w.disp.revertDangling, w.bus.config⟩

/-- The frame in the ring, as the decoder reads it. -/
def decoded (span : FrameSpan) : Decoded FrameBytes :=
  decode (w.bus.ring.frameView span.anchor span.footprint) w.bus.id

/-- Both gates let the frame that ends here through. -/
def passes (span : FrameSpan) : Bool :=
  w.crcVerdict span && (w.judgedBus span).authentic span.anchor span.footprint

/-- The reference step: a frame acts at its end if both gates let it through,
and no other step but the execution of earlier requests shows. -/
def ideal (act : Act) : Visible σ :=
  if act.drives then
    match w.resolved with
    | .frame span => if w.passes span then w.visible.answer (w.decoded span) else w.visible
    | _ => w.visible
  else if act.executes then { w.visible with config := (step chip w act).bus.config }
  else w.visible

/-! ## Dispatch and commit over the reference surface -/

omit [ConfigStore σ] in
/-- The verdict of commit, seen from the reference surface. -/
theorem visible_commit :
    w.commit.visible = ⟨(w.disp.commit w.bus.config).1, (w.disp.commit w.bus.config).2⟩ := by
  obtain ⟨hdisp, hconfig⟩ := Dispatcher.rel_commit ReplyHandle.sim_config
    (w.bus.config_replyHandle false) w.disp
  have hnone := w.disp.pending_commit w.bus.config
  simp only [visible, commit, ServoBus.config_withHandle, hconfig, hdisp,
    Dispatcher.revertDangling_of_none hnone]

/-- A dispatch, seen from the reference surface. -/
theorem dispatchDecoded_own {span : FrameSpan} {req : Request FrameBytes} {ctx : RequestCtx}
    {slot : ℕ} (hdecoded : w.decoded span = .own req ctx slot) :
    ∃ staged w', w.dispatchDecoded span.anchor span.footprint =
        (some (staged, slot, (w.visible.disp.dispatch req ctx w.visible.config).1), w') ∧
      w'.disp = (w.visible.disp.dispatch req ctx w.visible.config).2.1 ∧
      w'.bus.config = (w.visible.disp.dispatch req ctx w.visible.config).2.2 := by
  obtain ⟨hout, hdisp, hconfig⟩ := Dispatcher.rel_dispatch ReplyHandle.sim_config
    (w.bus.config_replyHandle (tolerates req)) w.disp req ctx
  rw [decoded] at hdecoded
  simp only [visible, Dispatcher.dispatch_revertDangling, dispatchDecoded, hdecoded]
  rw [← hout, ← hdisp, ← hconfig]
  exact ⟨_, _, rfl, rfl, rfl⟩

theorem dispatchDecoded_other {span : FrameSpan}
    (hdecoded : ∀ req ctx slot, w.decoded span ≠ .own req ctx slot) :
    w.dispatchDecoded span.anchor span.footprint = (none, w) := by
  simp only [dispatchDecoded]
  cases hframe : decode (w.bus.ring.frameView span.anchor span.footprint) w.bus.id with
  | own req ctx slot => exact absurd hframe (hdecoded req ctx slot)
  | status => rfl
  | skip => rfl

omit [ConfigStore σ] in
@[simp]
theorem visible_sequenced (staged : Bool) (slot : ℕ) (packetEnd : UInt32) :
    (w.sequenced chip staged slot packetEnd).visible = w.visible := by
  simp only [sequenced]
  split
  · simp only [visible, ServoBus.config_sequenceReply]
  · rfl

omit [ConfigStore σ] in
theorem visible_revert (disp : Dispatcher σ) (table : Bool) :
    (if table then disp.revert else disp).revertDangling = disp.revertDangling := by
  split
  · exact Dispatcher.revertDangling_of_none disp.revertDangling_pending
  · rfl

omit [ConfigStore σ] in
/-- The verdict on a dispatched frame shows only as the commit of a write. -/
theorem visible_verify (p : Pending) :
    (verify chip p w).visible =
      if w.bus.crcVerify p.anchor p.footprint && w.bus.authentic p.anchor p.footprint &&
          p.table then
        ⟨(w.disp.commit w.bus.config).1, (w.disp.commit w.bus.config).2⟩
      else w.visible := by
  rw [verify_eq]
  cases w.bus.crcVerify p.anchor p.footprint with
  | false =>
      simp only [Bool.false_and, Bool.false_eq_true, if_false, visible, visible_revert,
        ServoBus.config_rejectFrame, ServoBus.config_dropStaged]
  | true =>
      cases w.bus.authentic p.anchor p.footprint with
      | false =>
          simp only [Bool.true_and, Bool.false_and, Bool.false_eq_true, if_false, if_true, visible,
            visible_revert, ServoBus.config_dropStaged]
          rfl
      | true =>
          simp only [Bool.true_and, if_true, visible_sequenced]
          split
          · simp only [visible_commit, config_accepted]
          · simp only [visible, config_accepted]

/-! ## Dispatch ahead of the verdict -/

/-- The dispatcher is as the dispatch of this request left it, waiting for the
verdict. -/
structure Opens (req : Request FrameBytes) (ctx : RequestCtx) (table : Bool) : Prop where
  stages : req.stages = true
  left : (w.disp.revertDangling.dispatch req ctx ()).2.1 = w.disp
  outcome : ((w.disp.revertDangling.dispatch req ctx ()).1 == .pending) = table

theorem Config.keeps (config : Config) : Reply.Keeps fun c : Config => c = config where
  sendStatus _ h := h
  sendStatusGather _ _ _ h := h

/-- The verdict on a frame that was dispatched ahead of it does what the
reference does after it. -/
theorem Opens.visible_verify {w : World σ} {req : Request FrameBytes} {ctx : RequestCtx}
    {p : Pending} (h : w.Opens req ctx p.table) :
    (verify chip p w).visible =
      if w.bus.crcVerify p.anchor p.footprint && w.bus.authentic p.anchor p.footprint then
        w.visible.perform req ctx
      else w.visible := by
  obtain ⟨hstages, hleft, houtcome⟩ := h
  obtain ⟨hout, hdisp⟩ := w.disp.revertDangling.dispatch_surface req ctx w.bus.config ()
  obtain ⟨-, -, hconfig⟩ := Dispatcher.keeps_dispatch (Config.keeps w.bus.config) rfl
    w.disp.revertDangling ctx hstages
  have hperform : w.visible.perform req ctx =
      if p.table then ⟨(w.disp.commit w.bus.config).1, (w.disp.commit w.bus.config).2⟩
      else w.visible := by
    simp only [Visible.perform, visible, hdisp, hconfig, hleft, hout, houtcome]
    cases htable : p.table with
    | true => rfl
    | false =>
        have hnone : w.disp.pending = none := by
          rcases w.disp.revertDangling.dispatch_outcome req ctx () with
            ⟨-, hdone⟩ | ⟨_, _, _, _, -, hpending, -⟩
          · rwa [hleft] at hdone
          · rw [hpending, htable] at houtcome
            cases houtcome
        simp only [Bool.false_eq_true, if_false, Dispatcher.revertDangling_of_none hnone]
  rw [World.visible_verify, hperform]
  cases w.bus.crcVerify p.anchor p.footprint <;> cases w.bus.authentic p.anchor p.footprint <;>
    simp

/-- A dispatch ahead of the verdict opens its request and does not show. -/
theorem opens_dispatchDecoded {span : FrameSpan} (hfits : Fits w.bus.ring span)
    (hdefers : defers (w.bus.ringInst span.anchor) = true) {req : Request FrameBytes}
    {ctx : RequestCtx} {slot : ℕ} (hdecoded : w.decoded span = .own req ctx slot) :
    ∃ staged out w', w.dispatchDecoded span.anchor span.footprint = (some (staged, slot, out), w') ∧
      w'.Opens req ctx (out == .pending) ∧ w'.visible = w.visible := by
  obtain ⟨staged, w', hdispatch, hdisp, hconfig⟩ := w.dispatchDecoded_own hdecoded
  obtain ⟨op, hop, hcarries⟩ := carries_of_decode hfits hdecoded
  have hstages : req.stages = true := by
    refine stages_of_carries hcarries ?_ ?_
    · rintro rfl
      simp [defers, hop] at hdefers
    · rintro rfl
      simp [defers, hop] at hdefers
  have hbase : w.visible.disp.revertDangling = w.visible.disp :=
    Dispatcher.revertDangling_of_none w.disp.revertDangling_pending
  have hreverted : w'.disp.revertDangling = w.visible.disp := by
    rw [hdisp, Dispatcher.revertDangling_dispatch _ ctx _ hstages, hbase]
  obtain ⟨hout, hleft⟩ := w.visible.disp.dispatch_surface req ctx () w.visible.config
  obtain ⟨-, -, hkept⟩ := Dispatcher.keeps_dispatch (Config.keeps w.visible.config) rfl
    w.visible.disp ctx hstages
  refine ⟨staged, _, w', hdispatch, ⟨hstages, ?_, ?_⟩, ?_⟩
  · rw [hreverted, hleft, hdisp]
  · rw [hreverted, hout]
  · show Visible.mk w'.disp.revertDangling w'.bus.config = w.visible
    rw [hreverted, hconfig, hkept]

/-! ## Frame ends -/

omit [ConfigStore σ] in
theorem not_own_of_status {span : FrameSpan} (hfits : Fits w.bus.ring span)
    (hstatus : (w.bus.ringInst span.anchor).isStatus = true) (req : Request FrameBytes)
    (ctx : RequestCtx) (slot : ℕ) : w.decoded span ≠ .own req ctx slot := by
  intro hdecoded
  obtain ⟨op, hop, -⟩ := carries_of_decode hfits hdecoded
  simp [Inst.opcode, hstatus] at hop

/-- A covered checkpoint does not show. -/
theorem visible_covered {span : FrameSpan} (hfits : Fits w.bus.ring span) :
    (routeFrame chip span false w).visible = w.visible := by
  simp only [routeFrame]
  split
  · rfl
  · split
    · rename_i hspeculates
      rw [routeSpine_eq]
      cases hdecoded : w.decoded span with
      | own req ctx slot =>
          obtain ⟨staged, out, w', hdispatch, -, hvisible⟩ :=
            (w.spined span).opens_dispatchDecoded hfits (w.defers_of_speculates hspeculates)
              hdecoded
          rw [hdispatch]
          exact hvisible
      | status | skip =>
          rw [dispatchDecoded_other (w.spined span)]
          · rfl
          · intro req ctx slot hown
            have hown' : w.decoded span = .own req ctx slot := hown
            rw [hdecoded] at hown'
            cases hown'
    · rfl

theorem visible_routeSpine {span : FrameSpan} (hfits : Fits w.bus.ring span)
    (hspeculates : w.speculates span.anchor = true) :
    (routeSpine chip span true w).visible =
      if w.bus.freshCrc span.anchor span.footprint &&
          (w.folded span).authentic span.anchor span.footprint then
        w.visible.answer (w.decoded span)
      else w.visible := by
  obtain ⟨hcrc, hauth⟩ := w.verdicts_spined hspeculates
  rw [routeSpine_eq]
  cases hdecoded : w.decoded span with
  | own req ctx slot =>
      obtain ⟨staged, out, w', hdispatch, hopens, hvisible⟩ :=
        (w.spined span).opens_dispatchDecoded hfits (w.defers_of_speculates hspeculates) hdecoded
      rw [hdispatch] at hcrc hauth ⊢
      have hverify := Opens.visible_verify chip (p := ⟨span.anchor, span.footprint, span.packetEnd,
        slot, staged, out == .pending⟩) hopens
      simp only [if_true, hverify, hcrc, hauth, Visible.answer]
      rw [hvisible]
      rfl
  | status | skip =>
      have hother : (w.spined span).dispatchDecoded span.anchor span.footprint =
          (none, w.spined span) := by
        refine dispatchDecoded_other _ fun req ctx slot hown => ?_
        have hown' : w.decoded span = .own req ctx slot := hown
        rw [hdecoded] at hown'
        cases hown'
      rw [hother]
      simp only [if_true, visible_verify, Bool.and_false, Bool.false_eq_true, if_false,
        Visible.answer, ite_self]
      rfl

/-- Past both gates the verdict-first path is the reference. -/
theorem visible_routeAccepted {span : FrameSpan} :
    (w.routeAccepted chip span).visible = w.visible.answer (w.decoded span) := by
  have hring : (w.admitted span).bus.ring = w.bus.ring := ring_accepted _ _ _
  have hconfig : (w.admitted span).bus.config = w.bus.config :=
    (ServoBus.config_dropStaged _).trans (config_accepted _ _ _)
  have hid : (w.admitted span).bus.id = w.bus.id := congrArg Config.id hconfig
  have hsame : (w.admitted span).decoded span = w.decoded span := by
    rw [decoded, hring, hid]
    rfl
  have hvisible : (w.admitted span).visible = w.visible := by
    rw [visible, hconfig]
    rfl
  rw [routeAccepted, ← hsame, ← hvisible]
  cases hdecoded : (w.admitted span).decoded span with
  | own req ctx slot =>
      obtain ⟨staged, w', hdispatch, hdisp, hconfig⟩ :=
        (w.admitted span).dispatchDecoded_own hdecoded
      rw [hdispatch]
      simp only [visible_sequenced, Visible.answer, Visible.perform]
      split
      · rw [visible_commit, hdisp, hconfig]
      · rename_i hdone
        rcases (w.admitted span).visible.disp.dispatch_outcome req ctx
          (w.admitted span).visible.config with ⟨-, hnone⟩ | ⟨_, _, _, _, -, hpending, -⟩
        · rw [visible, hdisp, hconfig, Dispatcher.revertDangling_of_none hnone]
        · simp [hpending] at hdone
  | status | skip =>
      rw [dispatchDecoded_other _ fun req ctx slot hown => ?_]
      · rfl
      · rw [hdecoded] at hown
        cases hown

theorem visible_routeVerdictFirst {span : FrameSpan} (hfits : Fits w.bus.ring span) :
    (routeVerdictFirst chip span w).visible =
      if w.bus.freshCrc span.anchor span.footprint &&
          w.bus.authentic span.anchor span.footprint then
        w.visible.answer (w.decoded span)
      else w.visible := by
  have hleast := hfits.least
  rw [routeVerdictFirst_eq chip w (by omega)]
  cases w.bus.freshCrc span.anchor span.footprint with
  | false => rfl
  | true =>
      cases w.bus.authentic span.anchor span.footprint with
      | false => rfl
      | true => exact visible_routeAccepted chip (w.fed span)

/-- What a whole frame that enters the spine shows. -/
theorem visible_routeFrame {span : FrameSpan} (hfits : Fits w.bus.ring span) :
    (routeFrame chip span true w).visible =
      if w.bus.freshCrc span.anchor span.footprint &&
          (w.folded span).authentic span.anchor span.footprint then
        w.visible.answer (w.decoded span)
      else w.visible := by
  simp only [routeFrame]
  split
  · rename_i hstatus
    have hanswer : w.visible.answer (w.decoded span) = w.visible := by
      cases hdecoded : w.decoded span with
      | own req ctx slot => exact absurd hdecoded (w.not_own_of_status hfits hstatus req ctx slot)
      | status => rfl
      | skip => rfl
    rw [hanswer, ite_self]
    simp only [routeStatus, if_true, visible, ServoBus.config_routeChain]
    rfl
  · cases hspeculates : w.speculates span.anchor with
    | true =>
        simp only [if_true]
        exact w.visible_routeSpine chip hfits hspeculates
    | false =>
        simp only [Bool.false_eq_true, if_false, Bool.not_true, folded, hspeculates]
        exact w.visible_routeVerdictFirst chip hfits

/-- The frame a pending verdict is for is the one that was dispatched. -/
def OwnVerdict (span : FrameSpan) : Prop :=
  ∀ p, w.dueVerdict span = some p →
    ∃ req ctx slot, w.decoded span = .own req ctx slot ∧ w.Opens req ctx p.table

/-- A frame end shows what the reference shows. -/
theorem visible_onFrameEnd {span : FrameSpan} (hfits : Fits w.bus.ring span)
    (hown : w.OwnVerdict span) :
    (onFrameEnd chip span w).visible =
      if w.passes span then w.visible.answer (w.decoded span) else w.visible := by
  rw [onFrameEnd_eq, passes, crcVerdict, judgedBus]
  cases hdue : w.dueVerdict span with
  | some p =>
      obtain ⟨req, ctx, slot, hdecoded, hopens⟩ := hown p hdue
      have hat : p.anchor = span.anchor ∧ p.footprint = span.footprint := by
        have hp : p.isAt span := (Option.filter_eq_some_iff.mp hdue).2
        simpa [Pending.isAt] using hp
      have htaken : Opens { w with bus := { w.bus with pending := none } } req ctx p.table :=
        ⟨hopens.stages, hopens.left, hopens.outcome⟩
      have hverify := htaken.visible_verify chip
      rw [hat.1, hat.2] at hverify
      simp only [Option.isSome_some, if_true, hdecoded, Visible.answer]
      exact hverify
  | none =>
      have hentering : w.entering.bus.ring = w.bus.ring ∧
          w.entering.bus.crc = w.bus.crc ∧ w.entering.visible = w.visible ∧
          w.entering.bus.id = w.bus.id := by
        simp only [entering]
        split <;> exact ⟨rfl, rfl, rfl, rfl⟩
      obtain ⟨hring, hengine, hvisible, hid⟩ := hentering
      have hcrc : w.entering.bus.freshCrc span.anchor span.footprint =
          w.bus.freshCrc span.anchor span.footprint :=
        ServoBus.freshCrc_congr hring (by rw [hengine]) _ _
      have hsame : w.entering.decoded span = w.decoded span := by
        rw [decoded, hring, hid]
        rfl
      simp only [Option.isSome_none, Bool.false_eq_true, if_false]
      rw [w.entering.visible_routeFrame chip (hring ▸ hfits), hcrc, hsame, hvisible]

end World

end OpenServo.Bus
