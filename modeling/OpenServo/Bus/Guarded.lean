import OpenServo.Bus.Ladder
import OpenServo.Bus.Reading
import OpenServo.Bus.Resolver

/-!
# What authentication protects

The live table, the persistent store and the configuration of the transport.
Under a policy that requires authentication they change only at the end of a
frame that passed its CRC and whose tag was verified.  The policy looks at the
instruction byte in the ring at the verdict, the dispatcher at the request it
decoded before it; `GateSeesWrite` says that the two agree.
-/

namespace OpenServo.Bus

open Security

/-- The state that only an authenticated frame may change. -/
structure Guarded (σ : Type) where
  table : Table.ControlTable
  store : Option σ
  config : Config
  deriving DecidableEq

/-- Requests that were already there are carried out or dropped, nothing else:
the id becomes the pending one, the other requests are consumed. -/
structure Config.Spends (before after : Config) : Prop where
  address : (after.id = before.id ∧ after.pendingId = before.pendingId) ∨
    (before.pendingId = some after.id ∧ after.pendingId = none)
  baud : after.pendingBaud = before.pendingBaud ∨ after.pendingBaud = none
  reboot : after.pendingReboot = before.pendingReboot ∨ after.pendingReboot = none
  cal : after.pendingCal = before.pendingCal ∨ after.pendingCal = none
  deadline : after.responseDeadlineUs = before.responseDeadlineUs

theorem ServoBus.spends_onTxComplete (bus : ServoBus) (chip : Chip) :
    bus.config.Spends (bus.onTxComplete chip).config := by
  simp only [onTxComplete]
  split
  · exact ⟨.inl ⟨rfl, rfl⟩, .inl rfl, .inl rfl, .inl rfl, rfl⟩
  · cases hid : bus.pendingId with
    | none =>
        dsimp only
        split
        · exact ⟨.inl ⟨rfl, hid.symm⟩, .inr rfl, .inl rfl, .inl rfl, rfl⟩
        · exact ⟨.inl ⟨rfl, hid.symm⟩, .inl rfl, .inl rfl, .inl rfl, rfl⟩
    | some id =>
        dsimp only
        split
        · exact ⟨.inr ⟨hid, rfl⟩, .inr rfl, .inl rfl, .inl rfl, rfl⟩
        · exact ⟨.inr ⟨hid, rfl⟩, .inl rfl, .inl rfl, .inl rfl, rfl⟩

theorem ServoBus.spends_onCalBreak (bus : ServoBus) (chip : Chip) :
    bus.config.Spends (bus.onCalBreak chip).config := by
  have hcal : (bus.onCalBreak chip).clock.pendingCal = bus.clock.pendingCal ∨
      (bus.onCalBreak chip).clock.pendingCal = none := by
    have hclock : (bus.onCalBreak chip).clock =
        (bus.clock.onCalBreak bus.now bus.ring.cursor chip.ticksPerUs).2 := by
      simp only [onCalBreak]
      split <;> rfl
    rw [hclock]
    simp only [ClockTracker.onCalBreak]
    repeat' split
    all_goals first
      | exact .inr rfl
      | exact .inl rfl
  refine ⟨.inl ?_, .inl ?_, .inl ?_, hcal, ?_⟩
  all_goals
    simp only [onCalBreak]
    split <;> first | rfl | exact ⟨rfl, rfl⟩

theorem ReplyHandle.config_sendGather (h : ReplyHandle) (result : ResultCode) (alert : Bool)
    (spans : List (List Byte)) : (h.sendGather result alert spans).config = h.config := by
  simp only [ReplyHandle.sendGather]
  split <;> rfl

/-- Sending touches the transmitter, never the configuration. -/
theorem ReplyHandle.keeps_config (config : Config) :
    Reply.Keeps fun h : ReplyHandle => h.config = config where
  sendStatus _ hconfig := (ReplyHandle.config_sendGather _ _ _ _).trans hconfig
  sendStatusGather _ _ _ hconfig := (ReplyHandle.config_sendGather _ _ _ _).trans hconfig

/-- Only COMMIT and MGMT carry requests with effects that cannot stage. -/
theorem stages_of_carries {op : Opcode} {inst : Inst} {req : Request FrameBytes}
    (hcarries : Carries op inst req) (hcommit : op ≠ .commit) (hmgmt : op ≠ .mgmt) :
    req.stages = true := by
  cases req with
  | commit => exact absurd hcarries hcommit
  | enumerate | assign | calibrate | mgmt => exact absurd hcarries hmgmt
  | _ => rfl

namespace World

variable {σ : Type} [ConfigStore σ] (chip : Chip) (w : World σ)

def guarded : Guarded σ := ⟨w.disp.table, w.disp.store, w.bus.config⟩

/-! ## Dispatch -/

/-- Does a frame with this instruction byte stage all of its effects? -/
def defers (inst : Inst) : Bool :=
  match inst.opcode with
  | some .commit | some .mgmt => false
  | _ => true

/-- A frame whose effects stage changes nothing at its dispatch, and leaves a
write open with its own hold at most. -/
theorem guarded_dispatchDecoded {span : FrameSpan} (hfits : Fits w.bus.ring span)
    (hdefers : defers (w.bus.ringInst span.anchor) = true) :
    (w.dispatchDecoded span.anchor span.footprint).2.guarded = w.guarded ∧
      ∀ found, (w.dispatchDecoded span.anchor span.footprint).1 = some found →
        found.2.2 = .pending →
        ∃ write, (w.dispatchDecoded span.anchor span.footprint).2.disp.pending = some write ∧
          write.hold = (w.bus.ringInst span.anchor).hold ∧
          ((w.bus.ringInst span.anchor).opcode = some .write ∨
            (w.bus.ringInst span.anchor).opcode = some .gwrite) := by
  simp only [dispatchDecoded]
  split
  · rename_i req ctx slot hdecode
    obtain ⟨op, hop, hcarries⟩ := carries_of_decode hfits hdecode
    have hstages : req.stages = true := by
      refine stages_of_carries hcarries ?_ ?_
      · rintro rfl
        simp [defers, hop] at hdefers
      · rintro rfl
        simp [defers, hop] at hdefers
    obtain ⟨htable, hstore, hconfig⟩ := Dispatcher.keeps_dispatch
      (ReplyHandle.keeps_config w.bus.config) (w.bus.config_replyHandle (tolerates req)) w.disp ctx
      hstages
    refine ⟨?_, ?_⟩
    · simp only [guarded, htable, hstore, ServoBus.config_withHandle, hconfig]
    · intro found hfound hpending
      obtain rfl := Option.some.inj hfound
      rcases w.disp.dispatch_outcome req ctx (w.bus.replyHandle (tolerates req)) with
        ⟨hdone, -⟩ | ⟨addr, data, hold, snap, rfl, -, hopen⟩
      · rw [hdone] at hpending
        cases hpending
      · refine ⟨_, hopen, hcarries.2, ?_⟩
        obtain ⟨rfl | rfl, -⟩ := hcarries
        · exact .inl hop
        · exact .inr hop
  · refine ⟨rfl, ?_⟩
    rintro found ⟨⟩

/-! ## Verdicts -/

omit [ConfigStore σ] in
/-- A verdict of commit changes the protected state for an open plain write
only. -/
theorem guarded_commit
    (h : ∀ write, w.disp.pending = some write → write.hold = true) :
    w.commit.guarded = w.guarded := by
  simp only [commit, Dispatcher.commit, guarded]
  cases hpending : w.disp.pending with
  | none => rfl
  | some write =>
      simp [h write hpending, ServoBus.config, ServoBus.withHandle, ServoBus.replyHandle]

omit [ConfigStore σ] in
theorem guarded_sequenced (staged : Bool) (slot : ℕ) (packetEnd : UInt32) :
    (w.sequenced chip staged slot packetEnd).guarded = w.guarded := by
  simp only [sequenced]
  split
  · simp only [guarded, ServoBus.config_sequenceReply]
  · rfl

omit [ConfigStore σ] in
theorem config_accepted (bus : ServoBus) (anchor footprint : ℕ) :
    (accepted bus anchor footprint).config = bus.config := by
  simp only [accepted, ServoBus.config_driftNoteVerified]
  rfl

omit [ConfigStore σ] in
theorem guarded_revert (disp : Dispatcher σ) (table : Bool) :
    (if table then disp.revert else disp).table = disp.table ∧
      (if table then disp.revert else disp).store = disp.store := by
  have htable := disp.revertDangling_table
  have hstore := disp.revertDangling_store
  split
  · exact ⟨htable, hstore⟩
  · exact ⟨rfl, rfl⟩

omit [ConfigStore σ] in
/-- The verdict on a dispatched frame changes the protected state only by
applying an open plain write, both gates passed. -/
theorem guarded_verify (p : Pending) :
    (verify chip p w).guarded = w.guarded ∨
      (w.bus.crcVerify p.anchor p.footprint = true ∧
        w.bus.authentic p.anchor p.footprint = true ∧
        p.table = true ∧ ∃ write, w.disp.pending = some write ∧ write.hold = false) := by
  obtain ⟨htable, hstore⟩ := guarded_revert w.disp p.table
  rw [verify_eq]
  cases hcrc : w.bus.crcVerify p.anchor p.footprint with
  | false =>
      left
      simp only [Bool.false_eq_true, if_false, guarded, htable, hstore,
        ServoBus.config_rejectFrame, ServoBus.config_dropStaged]
  | true =>
      cases hauth : w.bus.authentic p.anchor p.footprint with
      | false =>
          left
          simp only [Bool.false_eq_true, if_false, if_true, guarded, htable, hstore,
            ServoBus.config_dropStaged]
          rfl
      | true =>
          by_cases hplain :
              p.table = true ∧ ∃ write, w.disp.pending = some write ∧ write.hold = false
          · exact .inr ⟨rfl, rfl, hplain⟩
          · left
            simp only [if_true, guarded_sequenced]
            have haccepted : (World.mk (accepted w.bus p.anchor p.footprint) w.disp).guarded =
                w.guarded := by
              simp only [guarded, config_accepted]
            split
            · rename_i htable
              rw [guarded_commit, haccepted]
              intro write hwrite
              by_contra hhold
              exact hplain ⟨htable, write, hwrite, by simpa using hhold⟩
            · exact haccepted

/-! ## The gates -/

omit [ConfigStore σ] in
/-- What passes the gate with an effect to gate carries a verified tag. -/
theorem tagVerified_of_authentic {bus : ServoBus} {anchor footprint : ℕ}
    (hauth : bus.authentic anchor footprint = true)
    (hpolicy : bus.security.policy.requireAuth = true)
    (heffect : Policy.effectBearing (bus.ringInst anchor) = true) :
    ∃ trailer, bus.security.TagVerified (bus.presented anchor footprint) trailer := by
  have hneeds : bus.security.policy.requiresTag (bus.ringInst anchor) = true := by
    rw [Policy.requiresTag_of_effectBearing heffect, hpolicy]
  rcases (bus.authentic_iff anchor footprint).mp hauth with
    ⟨-, hverified⟩ | ⟨-, -, hexempt⟩ | ⟨-, hexempt, -⟩
  · exact hverified
  · exact absurd (hneeds.symm.trans hexempt) (by simp)
  · exact absurd (hneeds.symm.trans hexempt) (by simp)

/-- The frame that ends here passed its CRC, carries `FLAG_AUTH`, and its tag
was recomputed under a ready session key with a sequence the window accepts. -/
structure Authenticated (span : FrameSpan) : Prop where
  crc : w.crcVerdict span = true
  flagged : (w.bus.ringInst span.anchor).authenticated = true
  verified : ∃ trailer,
    w.bus.security.TagVerified (w.bus.presented span.anchor span.footprint) trailer

omit [ConfigStore σ] in
theorem Authenticated.of_verified {w : World σ} {span : FrameSpan}
    (hcrc : w.crcVerdict span = true)
    (hverified : ∃ trailer,
      w.bus.security.TagVerified (w.bus.presented span.anchor span.footprint) trailer) :
    w.Authenticated span := by
  obtain ⟨trailer, htrailer⟩ := hverified
  exact ⟨hcrc, htrailer.carries, trailer, htrailer⟩

/-! ## Frame ends -/

omit [ConfigStore σ] in
/-- The speculative path only takes frames whose effects stage. -/
theorem defers_of_speculates {anchor : ℕ} (h : w.speculates anchor = true) :
    defers (w.bus.ringInst anchor) = true := by
  have hfirst : w.bus.verdictFirst anchor = false := by
    simp only [speculates, Bool.and_eq_true, Bool.not_eq_true'] at h
    exact h.2
  simp only [ServoBus.verdictFirst] at hfirst
  simp only [defers]
  split at hfirst <;> simp_all

/-- At its covered checkpoint a frame changes nothing that is protected. -/
theorem guarded_covered {span : FrameSpan} (hfits : Fits w.bus.ring span) :
    (routeFrame chip span false w).guarded = w.guarded := by
  simp only [routeFrame]
  split
  · rfl
  · split
    · rename_i hspeculates
      obtain ⟨hdispatch, -⟩ := (w.spined span).guarded_dispatchDecoded hfits
        (w.defers_of_speculates hspeculates)
      rw [routeSpine_eq]
      split
      all_goals
        rename_i hout
        rw [hout] at hdispatch
        exact hdispatch
    · rfl

/-- The two verdicts of a whole frame on the speculative path. -/
theorem verdicts_spined {span : FrameSpan} (hspeculates : w.speculates span.anchor = true) :
    ((w.spined span).dispatchDecoded span.anchor span.footprint).2.bus.crcVerify
        span.anchor span.footprint = w.bus.freshCrc span.anchor span.footprint ∧
      ((w.spined span).dispatchDecoded span.anchor span.footprint).2.bus.authentic
        span.anchor span.footprint = (w.folded span).authentic span.anchor span.footprint := by
  obtain ⟨hcrc, hring, hsecurity⟩ := w.verdict_spined span
  refine ⟨hcrc, (ServoBus.authentic_congr ?_ ?_ _ _).1⟩
  · simp only [folded, hspeculates, if_true, hring]
  · simp only [folded, hspeculates, if_true, hsecurity]

/-- A whole frame on the speculative path changes what is protected only as a
plain write that passed both gates. -/
theorem guarded_routeSpine {span : FrameSpan} (hfits : Fits w.bus.ring span)
    (hspeculates : w.speculates span.anchor = true) :
    (routeSpine chip span true w).guarded = w.guarded ∨
      (w.bus.freshCrc span.anchor span.footprint = true ∧
        (w.folded span).authentic span.anchor span.footprint = true ∧
        Policy.effectBearing (w.bus.ringInst span.anchor) = true ∧
        (w.bus.ringInst span.anchor).opcode ≠ some .commit) := by
  obtain ⟨hdispatch, hopen⟩ := (w.spined span).guarded_dispatchDecoded hfits
    (w.defers_of_speculates hspeculates)
  obtain ⟨hcrc, hauth⟩ := w.verdicts_spined hspeculates
  rw [routeSpine_eq]
  split
  · rename_i staged slot out w' hout
    rw [hout] at hdispatch hopen hcrc hauth
    rcases w'.guarded_verify chip ⟨span.anchor, span.footprint, span.packetEnd, slot, staged,
      out == .pending⟩ with hsame | ⟨hpass, hauthentic, htable, write, hwrite, hplain⟩
    · exact .inl (hsame.trans hdispatch)
    · right
      refine ⟨hcrc ▸ hpass, hauth ▸ hauthentic, ?_⟩
      obtain ⟨other, hother, hhold, hop⟩ := hopen _ rfl (by simpa using htable)
      obtain rfl : other = write := Option.some.inj (hother.symm.trans hwrite)
      have hinst : (w.bus.ringInst span.anchor).hold = false := hhold.symm.trans hplain
      have hop' : (w.bus.ringInst span.anchor).opcode = some .write ∨
          (w.bus.ringInst span.anchor).opcode = some .gwrite := hop
      rcases hop' with hop' | hop'
      · simp [Policy.effectBearing, hop', hinst]
      · simp [Policy.effectBearing, hop', hinst]
  · rename_i w' hout
    rw [hout] at hdispatch
    rcases w'.guarded_verify chip ⟨span.anchor, span.footprint, span.packetEnd, 0, false, false⟩
      with hsame | ⟨-, -, htable, -⟩
    · exact .inl (hsame.trans hdispatch)
    · cases htable

omit [ConfigStore σ] in
/-- An instruction without an effect to gate stages all it does. -/
theorem defers_of_not_effect {inst : Inst} (h : Policy.effectBearing inst = false) :
    defers inst = true ∧
      (inst.opcode = some .write ∨ inst.opcode = some .gwrite → inst.hold = true) := by
  simp only [Policy.effectBearing] at h
  split at h <;> simp_all [defers]

/-- The verdict-first path changes what is protected only for an effect that
passed both gates. -/
theorem guarded_routeVerdictFirst {span : FrameSpan} (hfits : Fits w.bus.ring span) :
    (routeVerdictFirst chip span w).guarded = w.guarded ∨
      (w.bus.freshCrc span.anchor span.footprint = true ∧
        w.bus.authentic span.anchor span.footprint = true ∧
        Policy.effectBearing (w.bus.ringInst span.anchor) = true) := by
  have hleast := hfits.least
  rw [routeVerdictFirst_eq chip w (by omega)]
  cases hcrc : w.bus.freshCrc span.anchor span.footprint with
  | false => exact .inl rfl
  | true =>
      cases hauth : w.bus.authentic span.anchor span.footprint with
      | false => exact .inl rfl
      | true =>
          cases heffect : Policy.effectBearing (w.bus.ringInst span.anchor) with
          | true => exact .inr ⟨rfl, rfl, rfl⟩
          | false =>
              left
              obtain ⟨hdefers, hheld⟩ := defers_of_not_effect heffect
              have hring : ((w.fed span).admitted span).bus.ring = w.bus.ring :=
                ring_accepted _ _ _
              have hinst : ((w.fed span).admitted span).bus.ringInst span.anchor =
                  w.bus.ringInst span.anchor := by
                simp only [ServoBus.ringInst, hring]
              have hadmitted : ((w.fed span).admitted span).guarded = w.guarded := by
                simp only [guarded, admitted, ServoBus.config_dropStaged, config_accepted]
                rfl
              obtain ⟨hdispatch, hopen⟩ := ((w.fed span).admitted span).guarded_dispatchDecoded
                (hring ▸ hfits) (hinst ▸ hdefers)
              rw [hinst] at hopen
              simp only [if_true, routeAccepted]
              split
              · rename_i w' hout
                rw [hout] at hdispatch
                exact hdispatch.trans hadmitted
              · rename_i staged slot out w' hout
                rw [hout] at hdispatch hopen
                rw [guarded_sequenced]
                split
                · rename_i hpending
                  obtain ⟨write, hwrite, hhold, hop⟩ := hopen _ rfl (by simpa using hpending)
                  rw [guarded_commit, hdispatch, hadmitted]
                  intro other hother
                  obtain rfl : write = other := Option.some.inj (hwrite.symm.trans hother)
                  exact hhold.trans (hheld hop)
                · exact hdispatch.trans hadmitted

/-- The verdict a pending frame waits for sees what was dispatched: a frame
that ends over an open plain write carries an effect to gate. -/
def seesWrite (span : FrameSpan) : Bool :=
  match w.dueVerdict span, w.disp.pending with
  | some p, some write =>
      !p.table || write.hold || Policy.effectBearing (w.bus.ringInst span.anchor)
  | _, _ => true

/-- A frame end changes what is protected only if the frame is authenticated. -/
theorem guarded_onFrameEnd {span : FrameSpan} (hfits : Fits w.bus.ring span)
    (hpolicy : w.bus.security.policy.requireAuth = true) (hsees : w.seesWrite span = true) :
    (onFrameEnd chip span w).guarded = w.guarded ∨ w.Authenticated span := by
  rw [onFrameEnd_eq]
  cases hdue : w.dueVerdict span with
  | some p =>
      have hat : p.anchor = span.anchor ∧ p.footprint = span.footprint := by
        have hp : p.isAt span := (Option.filter_eq_some_iff.mp hdue).2
        simpa [Pending.isAt] using hp
      rcases guarded_verify chip { w with bus := { w.bus with pending := none } } p with
        hsame | ⟨hcrc, hauth, htable, write, hwrite, hplain⟩
      · exact .inl hsame
      · right
        rw [hat.1, hat.2] at hcrc hauth
        refine .of_verified ?_ (tagVerified_of_authentic hauth hpolicy ?_)
        · rw [crcVerdict, hdue]
          exact hcrc
        · have hpending : w.disp.pending = some write := hwrite
          simpa [seesWrite, hdue, hpending, htable, hplain] using hsees
  | none =>
      have hentering : w.entering.bus.ring = w.bus.ring ∧
          w.entering.bus.security = w.bus.security ∧
          w.entering.bus.crc = w.bus.crc ∧ w.entering.guarded = w.guarded := by
        simp only [entering]
        split <;> exact ⟨rfl, rfl, rfl, rfl⟩
      obtain ⟨hring, hsecurity, hengine, hguarded⟩ := hentering
      have hcrc : w.entering.bus.freshCrc span.anchor span.footprint = w.crcVerdict span := by
        rw [crcVerdict, hdue]
        exact ServoBus.freshCrc_congr hring (by rw [hengine]) _ _
      have hpresented : w.entering.bus.presented span.anchor span.footprint =
          w.bus.presented span.anchor span.footprint := by
        simp only [ServoBus.presented, ServoBus.ringInst, hring]
      simp only [routeFrame]
      split
      · left
        simp only [routeStatus, if_true]
        rw [← hguarded]
        simp only [guarded, ServoBus.config_routeChain]
        rfl
      · split
        · rename_i hspeculates
          rcases w.entering.guarded_routeSpine chip (hring ▸ hfits) hspeculates with
            hsame | ⟨hpass, hauth, heffect, hop⟩
          · exact .inl (hsame.trans hguarded)
          · right
            obtain ⟨stream, hfold⟩ :=
              w.entering.bus.foldedSecurity_eq span.anchor span.footprint
            have hfolded : w.entering.folded span =
                { w.entering.bus with security := { w.bus.security with stream } } := by
              simp only [folded, hspeculates, if_true, hfold, hsecurity]
            rw [hfolded] at hauth
            obtain ⟨trailer, hverified⟩ := tagVerified_of_authentic hauth hpolicy heffect
            refine .of_verified (hcrc ▸ hpass) ⟨trailer, ?_⟩
            rw [← hpresented]
            exact .of_stream hop hverified
        · simp only [Bool.not_true, Bool.false_eq_true, if_false]
          rcases w.entering.guarded_routeVerdictFirst chip (hring ▸ hfits) with
            hsame | ⟨hpass, hauth, heffect⟩
          · exact .inl (hsame.trans hguarded)
          · right
            refine .of_verified (hcrc ▸ hpass) ?_
            have hverified := tagVerified_of_authentic hauth (by rw [hsecurity]; exact hpolicy)
              heffect
            rwa [hsecurity, hpresented] at hverified

/-! ## Every step of a run -/

theorem spends_step {act : Act} (h : act.executes = true) :
    w.bus.config.Spends (step chip w act).bus.config := by
  cases act with
  | txComplete => exact w.bus.spends_onTxComplete chip
  | calBreak =>
      simp only [step, onBus]
      split
      · exact w.bus.spends_onCalBreak chip
      · exact ⟨.inl ⟨rfl, rfl⟩, .inl rfl, .inl rfl, .inl rfl, rfl⟩
  | takeReboot =>
      simp only [step, onBus, ServoBus.takeReboot]
      split
      · exact ⟨.inl ⟨rfl, rfl⟩, .inl rfl, .inl rfl, .inl rfl, rfl⟩
      · exact ⟨.inl ⟨rfl, rfl⟩, .inl rfl, .inr rfl, .inl rfl, rfl⟩
  | framerDue =>
      simp only [step, onBus, ServoBus.framerDue]
      split
      · exact ⟨.inl ⟨rfl, rfl⟩, .inl rfl, .inl rfl, .inr rfl, rfl⟩
      · exact ⟨.inl ⟨rfl, rfl⟩, .inl rfl, .inl rfl, .inl rfl, rfl⟩
  | _ => cases h

/-- What this step does to the protected state is nothing, or the work of an
authenticated frame, or a request that was there before is carried out. -/
def Authorised (act : Act) : Prop :=
  (step chip w act).guarded = w.guarded ∨
    (act.drives = true ∧ ∃ span, w.resolved = .frame span ∧ w.Authenticated span) ∨
    (act.executes = true ∧
      (step chip w act).guarded = { w.guarded with config := (step chip w act).bus.config } ∧
      w.bus.config.Spends (step chip w act).bus.config)

/-- Under a policy that requires authentication the step is authorised. -/
def Secures (act : Act) : Prop :=
  w.bus.security.policy.requireAuth = true → w.Authorised chip act

/-- Under such a policy a pending verdict sees the write it is for. -/
def SeesWrite (act : Act) : Prop :=
  w.bus.security.policy.requireAuth = true → act.drives = true →
    w.resolved.AtEnd fun span => w.seesWrite span = true

instance (act : Act) : Decidable (w.SeesWrite act) := inferInstanceAs (Decidable (_ → _))

theorem secures_step (hin : w.InRing) {act : Act} (hsees : w.SeesWrite act) :
    w.Secures chip act := by
  intro hpolicy
  cases hdrives : act.drives with
  | true =>
      cases act with
      | drive late =>
          rw [Authorised, step_drive]
          cases hout : w.resolved with
          | none => exact .inl rfl
          | wait due => exact .inl rfl
          | covered span due =>
              have hfits := fits_of_resolved hin (by rw [hout]; rfl)
              exact .inl (guarded_covered chip
                ((w.resolving late).onBus fun bus => { bus with framerAt := some due }) hfits)
          | frame span =>
              have hfits := fits_of_resolved hin (by rw [hout]; rfl)
              have hsees := hsees hpolicy rfl
              rw [hout] at hsees
              rcases guarded_onFrameEnd chip (w.resolving late) hfits hpolicy hsees
                with hsame | hauth
              · exact .inl hsame
              · exact .inr (.inl ⟨rfl, span, rfl, hauth.crc, hauth.flagged, hauth.verified⟩)
      | _ => cases hdrives
  | false =>
      have hdisp := disp_step chip w hdrives
      cases hexecutes : act.executes with
      | true =>
          refine .inr (.inr ⟨hexecutes, ?_, spends_step chip w hexecutes⟩)
          simp only [guarded, hdisp]
      | false =>
          left
          simp only [guarded, hdisp, config_step chip w hdrives hexecutes]

/-- In every run from power-on whose pending verdicts see the writes they are
for, the protected state changes under authentication at authenticated frames
only. -/
theorem guarded_changes_authorised (ring : Ring) (now : UInt32) (id : Byte) (rate : BaudRate)
    (responseDeadlineUs : ℕ) (disp : Dispatcher σ) (acts : List Act)
    (hsees : Transition.Meets (step chip) SeesWrite
      (boot chip ring now id rate responseDeadlineUs disp) acts) :
    Transition.Meets (step chip) (Secures chip)
      (boot chip ring now id rate responseDeadlineUs disp) acts := by
  refine Transition.Meets.forward (step chip) InRing ?_ ?_
    (inRing_boot chip ring now id rate responseDeadlineUs disp) hsees
  · exact fun w act hin _ => inRing_step chip hin act
  · exact fun w act hin hsees => secures_step chip w hin hsees

end World

/-! ### A write that outlives its frame -/

/-- A broadcast write of `torque_enable`, untagged. -/
def torqueWrite : List Byte := wireFrame ⟨0xFE⟩ ⟨0x30⟩ [0x80, 0x01, 0x01]

/-- A ping of servo 7 as long as that write. -/
def foreignPing : List Byte := wireFrame ⟨7⟩ ⟨0x10⟩ [0x11, 0x22, 0x33]

/-- The write dies at its covered checkpoint, noise without a break fills the
ring once, and a ping of another servo lands where the write stood. -/
def staleWrite : List Act :=
  .setPolicy .flight :: deliver (torqueWrite.take 7) ++ [.tick 6000, .drive 6000, .drive 6000] ++
    (List.replicate 7 (deliver (List.replicate 64 0x55))).flatten ++
    deliver (List.replicate 57 0x55) ++
    deliver (foreignPing.take 7) ++ (foreignPing.drop 7).map Act.receive

/-- The write dies at its covered checkpoint. -/
def abandonedWrite : List Act :=
  .setPolicy .flight :: deliver (torqueWrite.take 7) ++ [.tick 6000, .drive 6000, .drive 6000]

/-- Noise lands `n` bytes at a time, each time with a turn of the resolver. -/
def noisy (w : World Unit) (n : ℕ) : World Unit :=
  (w.landed (List.replicate n 0x55)).step benchChip (.drive 0)

theorem run_staleWrite (w : World Unit) :
    Transition.run (World.step benchChip) w staleWrite =
      ((([64, 64, 64, 64, 64, 64, 64, 57].foldl noisy
        (Transition.run (World.step benchChip) w abandonedWrite)).landed
          (foreignPing.take 7)).step benchChip (.drive 0)).landed (foreignPing.drop 7) := by
  simp only [staleWrite, abandonedWrite, Transition.run_append, World.run_deliver,
    World.run_receive, List.replicate_succ, List.replicate_zero, List.flatten_cons,
    List.flatten_nil, List.append_nil, List.foldl_cons, List.foldl_nil, noisy]

/-- The servo with the write dead and `n` bytes of noise read past. -/
def lappedServo (n : ℕ) : World Unit :=
  (Transition.run (World.step benchChip) benchServo abandonedWrite).onBus fun bus =>
    { bus with
      ring := bus.ring.land (List.replicate n 0x55)
      framer := { bus.framer with anchor := (7 + n) % 512 }
      now := 0 }

/-- The servo with `n` bytes of noise read past. -/
def readPast (w : World Unit) (n : ℕ) : World Unit :=
  w.onBus fun bus =>
    { bus with
      ring := bus.ring.land (List.replicate n 0x55)
      framer := bus.framer.skipped bus.ring n
      now := 0
      framerAt := none }

/-- The resolver has nothing left to read. -/
def CaughtUp (w : World Unit) : Prop := w.bus.framer.anchor = w.bus.ring.cursor

theorem CaughtUp.readPast {w : World Unit} (h : CaughtUp w) {n : ℕ} (hpos : 0 < n) :
    CaughtUp (readPast w n) := by
  have hcaught : w.bus.framer.anchor = w.bus.ring.cursor := h
  change (w.bus.framer.skipped w.bus.ring n).anchor =
    (w.bus.ring.land (List.replicate n 0x55)).cursor
  rw [Framer.skipped, if_neg (by omega), Ring.cursor_land, List.length_replicate]
  dsimp only
  rw [w.bus.ring.ringWrap_len, hcaught]

theorem readPast_readPast (w : World Unit) (m n : ℕ) :
    readPast (readPast w m) n = readPast w (m + n) := by
  simp only [readPast, World.onBus, Ring.land_land, List.replicate_append_replicate,
    Framer.skipped_skipped _ (Ring.len_land _ _)]

/-- Noise holds no break, so the resolver reads past it in one turn. -/
theorem noisy_eq {w : World Unit} (h : CaughtUp w) {n : ℕ} (hpos : 0 < n)
    (hn : n ≤ huntBytesPerWake) : noisy w n = readPast w n := by
  obtain ⟨bus, disp⟩ := w
  have hcaught : bus.framer.anchor = bus.ring.cursor := h
  have hlen := bus.ring.len_ge
  have hsmall : n < bus.ring.len := Nat.lt_of_le_of_lt hn (by rw [huntBytesPerWake]; omega)
  have hlanded : (bus.ring.land (List.replicate n 0x55)).len = bus.ring.len := Ring.len_land ..
  have hreceived : dist (bus.ring.land (List.replicate n 0x55)).cursor bus.framer.anchor
      bus.ring.len = n := by
    have hdist := bus.ring.dist_mod bus.ring.cursor hsmall
    rwa [Nat.mod_eq_of_lt bus.ring.cursor_lt_len, ← hcaught, hcaught,
      ← List.length_replicate (n := n) (a := (0x55 : Byte)), ← Ring.cursor_land,
      List.length_replicate, ← hcaught] at hdist
  have hunbroken : ∀ i < n, (bus.ring.land (List.replicate n 0x55)).byteAt
      (bus.framer.anchor + i) ≠ breakRingByte := by
    intro i hi
    rw [hcaught, Ring.byteAt_land (by rw [List.length_replicate]; omega)
      (List.getElem?_replicate_of_lt hi)]
    decide
  have hhunt :=
    Framer.hunt_unbroken (bus.ring.land (List.replicate n 0x55)) bus.now hpos hn hunbroken
  have hring : (bus.ring.len == 0) = false := by
    rw [beq_eq_false_iff_ne]
    omega
  have hsome : (n == 0) = false := by
    rw [beq_eq_false_iff_ne]
    omega
  simp only [noisy, World.landed, World.onBus, World.step, World.driveOnce, Framer.resolve, hlanded,
    hring, hreceived, hsome, hhunt, readPast, Framer.skipped]
  rfl

/-- However the noise is cut, it is read past. -/
theorem foldl_noisy {w : World Unit} (h : CaughtUp w) {n : ℕ} {sizes : List ℕ}
    (hsizes : ∀ m ∈ n :: sizes, 0 < m ∧ m ≤ huntBytesPerWake) :
    (n :: sizes).foldl noisy w = readPast w (n :: sizes).sum := by
  induction sizes generalizing w n with
  | nil =>
      obtain ⟨hpos, hn⟩ := hsizes n List.mem_cons_self
      exact noisy_eq h hpos hn
  | cons m sizes ih =>
      obtain ⟨hpos, hn⟩ := hsizes n List.mem_cons_self
      rw [List.foldl_cons, noisy_eq h hpos hn,
        ih (h.readPast hpos) fun k hk => hsizes k (List.mem_cons_of_mem _ hk),
        readPast_readPast, List.sum_cons (a := n)]

/-- The hunt goes on after the dead write, nothing is due and nothing unread. -/
theorem run_abandonedWrite :
    let bus := (Transition.run (World.step benchChip) benchServo abandonedWrite).bus
    bus.framer.anchor = bus.ring.cursor ∧ bus.framerAt = none ∧
      bus.framer.skipped bus.ring 505 = { bus.framer with anchor := (7 + 505) % 512 } := by
  decide +kernel

theorem full_lap :
    [64, 64, 64, 64, 64, 64, 64, 57].foldl noisy
      (Transition.run (World.step benchChip) benchServo abandonedWrite) = lappedServo 505 := by
  obtain ⟨hcaught, hdue, hframer⟩ := run_abandonedWrite
  rw [foldl_noisy hcaught (by decide), lappedServo]
  generalize Transition.run (World.step benchChip) benchServo abandonedWrite = w at *
  obtain ⟨bus, disp⟩ := w
  dsimp only at hdue hframer
  have hsum : [64, 64, 64, 64, 64, 64, 64, 57].sum = 505 := by decide
  simp only [readPast, World.onBus, hsum, hframer, ← hdue]

/-- The servo as the foreign ping ends. -/
def staleServo : World Unit :=
  (((lappedServo 505).landed (foreignPing.take 7)).step benchChip (.drive 0)).landed
    (foreignPing.drop 7)

theorem run_staleServo :
    Transition.run (World.step benchChip) benchServo staleWrite = staleServo := by
  rw [run_staleWrite, full_lap, staleServo]

/-- The end of an untagged ping of servo 7 switches the torque of servo 5 on. -/
theorem foreign_ping_applies_write :
    let w := Transition.run (World.step benchChip) benchServo staleWrite
    w.bus.security.policy.requireAuth = true ∧
      w.resolved = .frame ⟨0, 9, w.bus.now⟩ ∧
      (w.bus.ringInst 0).authenticated = false ∧
      w.disp.table.torqueEnable = false ∧
      (w.step benchChip (.drive 0)).disp.table.torqueEnable = true := by
  rw [run_staleServo]
  decide +kernel

/-- The same write as a whole frame is refused. -/
theorem whole_write_is_secured :
    Transition.Meets (World.step benchChip) (World.Secures benchChip) benchServo
      (.setPolicy .flight :: deliver torqueWrite) :=
  World.guarded_changes_authorised benchChip _ _ _ _ _ _ _ (by decide +kernel)

end OpenServo.Bus
