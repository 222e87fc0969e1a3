import OpenServo.Bus.Mirror
import OpenServo.Bus.Pipeline

/-!
# Deferred changes

A change of the id or the rate takes effect at the end of a reply, whichever
reply that is.  While every frame that leaves a change behind also leaves a
reply in the transmitter, and no reply is dropped over a waiting change, an idle
transmitter means that the transport runs on what the registers say.
-/

namespace OpenServo.Bus

open Security Table Dispatcher

/-! ## Replies in the transmitter -/

theorem ReplyHandle.busy_sendGather (h : ReplyHandle) (result : ResultCode) (alert : Bool)
    {spans : List (List Byte)} (hsize : h.tx.busy = true ∨ spans.flatten.length ≤ maxPayload) :
    (h.sendGather result alert spans).tx.busy = true := by
  simp only [sendGather, TxEngine.stageGather]
  cases hbusy : h.tx.busy with
  | true => simpa only [if_true] using hbusy
  | false =>
      have hfits : ¬ spans.flatten.length > maxPayload := by
        simpa [hbusy] using hsize
      simp only [Bool.false_eq_true, if_false, hfits]
      split
      · rfl
      · rfl

/-- A reply in the transmitter stays there, whatever else is sent. -/
theorem ReplyHandle.sim_busy :
    Reply.Sim fun (h : ReplyHandle) (_ : Unit) => h.tx.busy = true where
  sendStatus _ hrel := ReplyHandle.busy_sendGather _ _ _ (.inl hrel)
  sendStatusGather _ _ _ hrel := ReplyHandle.busy_sendGather _ _ _ (.inl hrel)
  stageId _ hrel := hrel
  setId _ hrel := hrel
  stageBaud _ hrel := hrel
  setResponseDeadline _ hrel := hrel
  stageReboot _ hrel := hrel
  beginClockCal _ _ hrel := hrel

theorem ReplyHandle.busy_sendStatus (h : ReplyHandle) {status : Status}
    (hsize : status.data.length ≤ maxPayload) : (Reply.sendStatus h status).tx.busy = true :=
  ReplyHandle.busy_sendGather _ _ _ (.inr (by simpa using hsize))

theorem ReplyHandle.busy_ackCode (h : ReplyHandle) (alert : Bool) {ctx : RequestCtx}
    (hctx : ctx.mayReply = true) (code : ResultCode) :
    (ackCode alert ctx code h).tx.busy = true := by
  simp only [ackCode, hctx, Bool.not_true, Bool.false_eq_true, if_false]
  exact h.busy_sendStatus (by simp)

/-- Does this request get a reply? -/
def replies {σ : Type} (d : Dispatcher σ) (req : Request FrameBytes) (ctx : RequestCtx) : Bool :=
  ctx.mayReply &&
    match req with
    | .enumerate prefixLen pre => uidPrefixMatches d.uid prefixLen pre
    | .assign uid _ => uid == d.uid
    | .calibrate _ _ => false
    | _ => true

theorem length_of_read {t : ControlTable} {addr count : ℕ} {data : List Byte}
    (h : t.read addr count = .ok data) : data.length = count := by
  rw [Storage.read] at h
  split at h
  · cases h
  · rename_i hfits
    obtain rfl := Except.ok.inj h
    have hlen := t.length_eq
    rw [List.length_take, List.length_drop]
    omega

theorem length_gatherSpans {t : ControlTable} {words : List ℕ} {spans : List (List Byte)}
    {total : ℕ} (h : gatherSpans t words = some (spans, total)) : spans.flatten.length = total := by
  induction words generalizing spans total with
  | nil =>
      obtain ⟨rfl, rfl⟩ := Prod.mk.inj (Option.some.inj h)
      rfl
  | cons w words ih =>
      simp only [gatherSpans] at h
      split at h
      · exact ih h
      · rename_i addr count _
        split at h
        · cases h
        · rename_i data hread
          obtain ⟨⟨rest, subtotal⟩, hrest, hpair⟩ := Option.map_eq_some_iff.mp h
          obtain ⟨rfl, rfl⟩ := Prod.mk.inj hpair
          rw [List.flatten_cons, List.length_append, ih hrest, length_of_read hread]

section Replies

variable {σ : Type} [ConfigStore σ] {d : Dispatcher σ} {ctx : RequestCtx}

omit [ConfigStore σ] in
theorem busy_readProfile (hctx : ctx.mayReply = true) (alert : Bool) (slot : Byte)
    (h : ReplyHandle) : (d.readProfile alert ctx slot h).tx.busy = true := by
  simp only [readProfile, hctx, Bool.not_true, Bool.false_eq_true, if_false]
  split
  · exact h.busy_sendStatus (by simp)
  · split
    · exact h.busy_sendStatus (by simp)
    · rename_i spans total hgather
      split
      · exact h.busy_sendStatus (by simp)
      · split
        · exact h.busy_sendStatus (by simp)
        · rename_i hsize
          refine ReplyHandle.busy_sendGather _ _ _ (.inr ?_)
          rw [length_gatherSpans hgather]
          exact Nat.le_of_not_lt hsize

theorem busy_mgmt (hctx : ctx.mayReply = true) (alert : Bool) (op : MgmtOp) (h : ReplyHandle) :
    (d.mgmt alert ctx op h).2.tx.busy = true := by
  have hack := fun code => h.busy_ackCode alert hctx code
  cases op with
  | save =>
      simp only [mgmt, save, Dispatcher.ack]
      repeat' split
      all_goals exact hack _
  | factory =>
      simp only [mgmt, factory, Dispatcher.ack]
      repeat' split
      all_goals exact hack _
  | reboot => exact hack .ok
  | _ =>
      simp only [mgmt, instructionError, hctx, Bool.not_true, Bool.false_eq_true, if_false]
      exact h.busy_sendStatus (by simp)

/-- A request that gets a reply leaves one in the transmitter. -/
theorem busy_dispatch (huid : d.uid.length ≤ maxPayload) {req : Request FrameBytes}
    (hreplies : replies d req ctx = true) (h : ReplyHandle) :
    (d.dispatch req ctx h).2.2.tx.busy = true := by
  have hsame : d.revertDangling.uid = d.uid := by
    simp only [revertDangling]
    split <;> rfl
  simp only [replies, Bool.and_eq_true] at hreplies
  obtain ⟨hctx, hreq⟩ := hreplies
  have hack := fun alert code => h.busy_ackCode alert hctx code
  cases req with
  | ping =>
      simp only [dispatch, ping, hctx, Bool.not_true, Bool.false_eq_true, if_false]
      refine h.busy_sendStatus ?_
      dsimp only
      split
      · rename_i data hread
        rw [length_of_read hread]
        decide
      · exact Nat.zero_le _
  | read addr count =>
      simp only [dispatch, Dispatcher.read, hctx, Bool.not_true, Bool.false_eq_true, if_false]
      split
      · exact h.busy_sendStatus (by simp)
      · split
        · exact h.busy_sendStatus (by simp)
        · rename_i hsize
          split
          · rename_i data hread
            refine h.busy_sendStatus ?_
            dsimp only
            rw [length_of_read hread]
            exact Nat.le_of_not_lt hsize
          · exact h.busy_sendStatus (by simp)
  | readProfile slot => exact busy_readProfile hctx _ _ h
  | write addr data hold =>
      simp only [dispatch, write, hctx, if_true]
      split
      · exact hack _ _
      · exact h.busy_sendStatus (by simp)
      · exact hack _ _
  | commit =>
      simp only [dispatch, applyCommit]
      have hevents := Dispatcher.rel_applyEvents ReplyHandle.sim_busy (t := ())
        (hack d.revertDangling.alert .ok)
        (commitStaged d.revertDangling.table d.revertDangling.staged).1
        (d.revertDangling.staged.iterAll.map fun item => (item.1, item.2.length))
      exact hevents.2
  | enumerate prefixLen pre =>
      dsimp only at hreq
      simp only [dispatch, enumerate, hctx, hsame, hreq, Bool.not_true, Bool.false_eq_true,
        if_false]
      exact h.busy_sendStatus huid
  | assign uid newId =>
      dsimp only at hreq
      simp only [dispatch, Dispatcher.assign, hsame, beq_iff_eq.mp hreq, ne_eq, not_true_eq_false,
        if_false, Dispatcher.ack]
      split
      · exact hack _ _
      · exact ReplyHandle.busy_ackCode _ _ hctx _
  | calibrate => cases hreq
  | mgmt op args => exact busy_mgmt hctx _ op h
  | unsupported =>
      simp only [dispatch, instructionError, hctx, Bool.not_true, Bool.false_eq_true, if_false]
      exact h.busy_sendStatus (by simp)

end Replies

/-! ## What keeps a reply in the transmitter -/

theorem TxEngine.busy_trigger {tx : TxEngine} (h : tx.busy = true) (crc : CrcEngine)
    (overResult : Option ResultCode) : (tx.trigger crc overResult).1.busy = true := by
  simp only [TxEngine.trigger]
  split
  · exact h
  · rfl

namespace ServoBus

theorem busy_routeChainLoop (fuel : ℕ) (out : ChainOut) (bus : ServoBus)
    (h : bus.tx.busy = true) : (routeChainLoop fuel out bus).tx.busy = true := by
  induction fuel generalizing out bus with
  | zero => exact h
  | succ fuel ih =>
      cases out with
      | none => exact h
      | trigger silent => exact TxEngine.busy_trigger h _ _
      | wait due =>
          simp only [routeChainLoop]
          split
          · exact h
          · exact ih _ _ h

theorem busy_routeChain (bus : ServoBus) (out : ChainOut) (h : bus.tx.busy = true) :
    (bus.routeChain out).tx.busy = true := busy_routeChainLoop _ _ bus h

end ServoBus

namespace World

variable {σ : Type} [ConfigStore σ] (chip : Chip) {w : World σ}

omit [ConfigStore σ] in
theorem busy_sequenced (h : w.bus.tx.busy = true) (staged : Bool) (slot : ℕ)
    (packetEnd : UInt32) : (w.sequenced chip staged slot packetEnd).bus.tx.busy = true := by
  simp only [sequenced]
  split
  · exact ServoBus.busy_routeChain _ _ h
  · exact h

theorem busy_dispatchDecoded (h : w.bus.tx.busy = true) (anchor footprint : ℕ) :
    (w.dispatchDecoded anchor footprint).2.bus.tx.busy = true := by
  simp only [dispatchDecoded]
  split
  · rename_i req ctx slot _
    exact (Dispatcher.rel_dispatch ReplyHandle.sim_busy (t := ())
      (show (w.bus.replyHandle (tolerates req)).tx.busy = true from h) w.disp req ctx).2.2
  · exact h

theorem busy_of_replies (huid : w.disp.uid.length ≤ maxPayload) {span : FrameSpan}
    {req : Request FrameBytes} {ctx : RequestCtx} {slot : ℕ}
    (hdecoded : w.decoded span = .own req ctx slot) (hreplies : replies w.disp req ctx = true) :
    (w.dispatchDecoded span.anchor span.footprint).2.bus.tx.busy = true := by
  rw [decoded] at hdecoded
  simp only [dispatchDecoded, hdecoded]
  exact busy_dispatch huid hreplies _

/-! ## The two copies in step -/

/-- The table plane is in step with the configuration. -/
structure InStep (operational : BaudRate) (w : World σ) : Prop where
  uid : w.disp.uid.length ≤ maxPayload
  vetted : w.disp.Vetted RateEntry
  mirrors : Mirrors operational w.disp.table w.bus.config

/-- And a change that waits has a reply to wait for. -/
structure Tuned (operational : BaudRate) (w : World σ) : Prop extends InStep operational w where
  carried : w.bus.config.outstanding = true → w.bus.tx.busy = true

/-- The request of this frame applies a change of the id or the rate. -/
def applies (w : World σ) (span : FrameSpan) : Bool :=
  match w.decoded span with
  | .own req _ _ => tunes (appliedSpans w.disp req)
  | .status | .skip => false

/-- The request of this frame gets a reply. -/
def replied (w : World σ) (span : FrameSpan) : Bool :=
  match w.decoded span with
  | .own req ctx _ => replies w.disp req ctx
  | .status | .skip => false

/-- The request of this frame assigns an id while another one waits. -/
def overrides (w : World σ) (span : FrameSpan) : Bool :=
  match w.decoded span with
  | .own req _ _ => overruled w.disp w.bus.config req
  | .status | .skip => false

/-- The frame that ends here applies a change, or comes in where one waits. -/
def retunes (w : World σ) (span : FrameSpan) : Bool :=
  match w.dueVerdict span with
  | some p => p.table && tunes (openSpans w.disp)
  | none =>
      !(w.bus.ringInst span.anchor).isStatus && (w.bus.config.outstanding || w.applies span)

/-- A reply is in the transmitter once the frame that ends here is processed. -/
def answers (w : World σ) (span : FrameSpan) : Bool :=
  match w.dueVerdict span with
  | some _ => w.bus.tx.busy
  | none => w.bus.tx.streaming || w.replied span

/-- The condition on a frame that ends here: what it applies leaves with a
reply, and it assigns no id while another one waits. -/
def Carries (w : World σ) (span : FrameSpan) : Prop :=
  w.passes span = true → (w.retunes span = true → w.answers span = true) ∧
    ((w.dueVerdict span).isSome = false → w.overrides span = false)

instance (span : FrameSpan) : Decidable (w.Carries span) := inferInstanceAs (Decidable (_ → _))

/-! ## Verdicts -/

variable {operational : BaudRate}

omit [ConfigStore σ] in
theorem Tuned.congr (h : Tuned operational w) {w' : World σ} (hdisp : w'.disp = w.disp)
    (hconfig : w'.bus.config = w.bus.config)
    (hbusy : w.bus.config.outstanding = true → w'.bus.tx.busy = true) : Tuned operational w' := by
  refine ⟨⟨?_, ?_, ?_⟩, ?_⟩
  · rw [hdisp]
    exact h.uid
  · rw [hdisp]
    exact h.vetted
  · rw [hdisp, hconfig]
    exact h.mirrors
  · rw [hconfig]
    exact hbusy

omit [ConfigStore σ] in
theorem uid_revertDangling (d : Dispatcher σ) : d.revertDangling.uid = d.uid := by
  simp only [revertDangling]
  split <;> rfl

omit [ConfigStore σ] in
theorem Tuned.revert (h : Tuned operational w) (table : Bool) :
    Tuned operational ⟨w.bus, if table then w.disp.revert else w.disp⟩ := by
  split
  · refine ⟨⟨?_, h.vetted.revertDangling, ?_⟩, h.carried⟩
    · show w.disp.revertDangling.uid.length ≤ maxPayload
      rw [uid_revertDangling]
      exact h.uid
    · show Mirrors operational w.disp.revertDangling.table w.bus.config
      rw [revertDangling_table]
      exact h.mirrors
  · exact h

omit [ConfigStore σ] in
theorem commit_config (w : World σ) :
    w.commit.disp = (w.disp.commit w.bus.config).1 ∧
      w.commit.bus.config = (w.disp.commit w.bus.config).2 :=
  Dispatcher.rel_commit ReplyHandle.sim_config (w.bus.config_replyHandle false) w.disp

omit [ConfigStore σ] in
/-- The verdict of commit, with a reply for what it applies. -/
theorem Tuned.commit (h : Tuned operational w)
    (hreply : tunes (openSpans w.disp) = true → w.bus.tx.busy = true) :
    Tuned operational w.commit := by
  obtain ⟨hdisp, hconfig⟩ := w.commit_config
  have huid : (w.disp.commit w.bus.config).1.uid = w.disp.uid := by
    simp only [Dispatcher.commit]
    split
    · rfl
    · split <;> rfl
  refine ⟨⟨?_, ?_, ?_⟩, ?_⟩
  · rw [hdisp, huid]
    exact h.uid
  · rw [hdisp]
    exact (h.vetted.commit w.bus.config).2
  · rw [hdisp, hconfig]
    exact h.mirrors.commit h.vetted
  · rw [hconfig, tx_commit]
    intro houtstanding
    obtain hbefore | htunes := outstanding_commit houtstanding
    · exact h.carried hbefore
    · exact hreply htunes

omit [ConfigStore σ] in
theorem Tuned.sequenced (h : Tuned operational w) (staged : Bool) (slot : ℕ)
    (packetEnd : UInt32) : Tuned operational (w.sequenced chip staged slot packetEnd) := by
  refine h.congr ?_ ?_ fun houtstanding => busy_sequenced chip (h.carried houtstanding) _ _ _
  · simp only [World.sequenced]
    split <;> rfl
  · simp only [World.sequenced]
    split
    · exact ServoBus.config_sequenceReply _ _ _ _
    · rfl

omit [ConfigStore σ] in
theorem Tuned.accepted (h : Tuned operational w) (anchor footprint : ℕ) :
    Tuned operational ⟨World.accepted w.bus anchor footprint, w.disp⟩ := by
  refine h.congr rfl (config_accepted _ _ _) fun houtstanding => ?_
  rw [(pipeline_accepted w.bus anchor footprint).1]
  exact h.carried houtstanding

omit [ConfigStore σ] in
/-- The verdict of a frame that was dispatched while nothing waited. -/
theorem Tuned.verify (h : Tuned operational w) (hnone : w.bus.config.outstanding = false)
    (p : Pending)
    (hreply :
      (w.bus.crcVerify p.anchor p.footprint && w.bus.authentic p.anchor p.footprint) = true →
      (p.table && tunes (openSpans w.disp)) = true → w.bus.tx.busy = true) :
    Tuned operational (verify chip p w) := by
  have hdropped : Tuned operational ⟨w.bus, if p.table then w.disp.revert else w.disp⟩ :=
    h.revert p.table
  have hnever : ∀ b : Bool, w.bus.config.outstanding = true → b = true := by
    intro b houtstanding
    rw [hnone] at houtstanding
    cases houtstanding
  rw [verify_eq]
  cases hcrc : w.bus.crcVerify p.anchor p.footprint with
  | false => exact hdropped.congr rfl rfl (hnever _)
  | true =>
      cases hauth : w.bus.authentic p.anchor p.footprint with
      | false => exact hdropped.congr rfl rfl (hnever _)
      | true =>
          rw [hcrc, hauth] at hreply
          have haccepted := h.accepted p.anchor p.footprint
          simp only [if_true]
          refine Tuned.sequenced chip ?_ _ _ _
          split
          · rename_i htable
            refine haccepted.commit fun htunes => ?_
            rw [(pipeline_accepted w.bus p.anchor p.footprint).1]
            refine hreply rfl ?_
            rw [htable]
            exact htunes
          · exact haccepted

/-! ## Dispatch -/

theorem uid_dispatch {ρ : Type} [Reply ρ] (d : Dispatcher σ) (req : Request FrameBytes)
    (ctx : RequestCtx) (reply : ρ) : (d.dispatch req ctx reply).2.1.uid = d.uid := by
  have huid := uid_revertDangling d
  have heffect := d.effect_dispatch req ctx reply
  generalize (d.dispatch req ctx reply).2.1 = d' at heffect
  cases heffect <;> exact huid

/-- The write a dispatch leaves open is the one it was asked for. -/
theorem tunes_dispatch {ρ : Type} [Reply ρ] {d : Dispatcher σ} {req : Request FrameBytes}
    {ctx : RequestCtx} {reply : ρ}
    (h : tunes (openSpans (d.dispatch req ctx reply).2.1) = true) :
    tunes (appliedSpans d req) = true := by
  rcases d.dispatch_outcome req ctx reply with ⟨-, hnone⟩ | ⟨addr, data, hold, snap, rfl, -, hopen⟩
  · rw [openSpans, hnone] at h
    cases h
  · have heffect := d.effect_write addr data hold ctx reply
    rw [openSpans, hopen] at h
    cases hhold : hold with
    | true => simp [hhold, tunes] at h
    | false =>
        generalize hd : (d.dispatch (.write addr data hold) ctx reply).2.1 = d' at heffect hopen
        cases heffect with
        | none _ hwrite => exact absurd rfl (hwrite addr data hold)
        | refused =>
            rw [d.revertDangling_pending] at hopen
            cases hopen
        | staged _ _ _ staged hstage =>
            rw [hhold] at h
            simpa only [appliedSpans, hstage, Bool.false_eq_true, if_false] using h

/-- A dispatch that leaves a reply for what it applies. -/
theorem InStep.dispatchDecoded (h : InStep operational w) {span : FrameSpan}
    (hover : w.overrides span = false)
    (hreply : (w.bus.config.outstanding || w.applies span) = true →
      (w.dispatchDecoded span.anchor span.footprint).2.bus.tx.busy = true) :
    Tuned operational (w.dispatchDecoded span.anchor span.footprint).2 ∧
      ((w.dispatchDecoded span.anchor span.footprint).1.isSome = true →
        tunes (openSpans (w.dispatchDecoded span.anchor span.footprint).2.disp) = true →
        (w.dispatchDecoded span.anchor span.footprint).2.bus.tx.busy = true) := by
  rw [Bool.or_eq_true] at hreply
  cases hdecoded : w.decoded span with
  | own req ctx slot =>
      obtain ⟨staged, w', hdispatch, hdisp, hconfig⟩ := w.dispatchDecoded_own hdecoded
      simp only [overrides, applies, hdecoded] at hover hreply
      rw [hdispatch] at hreply ⊢
      simp only [visible, dispatch_revertDangling] at hdisp hconfig
      refine ⟨⟨⟨?_, ?_, ?_⟩, ?_⟩, fun _ htunes => ?_⟩
      · rw [hdisp, uid_dispatch]
        exact h.uid
      · rw [hdisp]
        exact h.vetted.effect vets_rateEntry (w.disp.effect_dispatch req ctx w.bus.config)
      · rw [hdisp, hconfig]
        exact h.mirrors.dispatch h.vetted ctx hover
      · rw [hconfig]
        intro houtstanding
        obtain hbefore | ⟨rfl, htunes⟩ := outstanding_dispatch houtstanding
        · exact hreply (.inl hbefore)
        · exact hreply (.inr htunes)
      · rw [hdisp] at htunes
        exact hreply (.inr (tunes_dispatch htunes))
  | status | skip =>
      have hother : w.dispatchDecoded span.anchor span.footprint = (none, w) := by
        refine dispatchDecoded_other w fun req ctx slot hown => ?_
        rw [hdecoded] at hown
        cases hown
      rw [hother] at hreply ⊢
      exact ⟨⟨h, fun houtstanding => hreply (.inl houtstanding)⟩, fun hsome => by cases hsome⟩

/-! ## Frame ends -/

/-- From an idle transmitter nothing waits, and a dispatch ahead of the verdict
does not change that. -/
theorem Tuned.ahead (h : Tuned operational w) {span : FrameSpan} (hfits : Fits w.bus.ring span)
    (hspeculates : w.speculates span.anchor = true) :
    Tuned operational ((w.spined span).dispatchDecoded span.anchor span.footprint).2 ∧
      ((w.spined span).dispatchDecoded span.anchor span.footprint).2.bus.config.outstanding =
        false := by
  obtain ⟨-, -, hidle⟩ := w.idle_of_speculates hspeculates
  have hnone : w.bus.config.outstanding = false := by
    by_contra houtstanding
    rw [h.carried (by simpa using houtstanding)] at hidle
    cases hidle
  obtain ⟨hguarded, -⟩ := (w.spined span).guarded_dispatchDecoded hfits
    (w.defers_of_speculates hspeculates)
  have htable := congrArg Guarded.table hguarded
  have hconfig : ((w.spined span).dispatchDecoded span.anchor span.footprint).2.bus.config =
      w.bus.config := congrArg Guarded.config hguarded
  have hdisp :
      ((w.spined span).dispatchDecoded span.anchor span.footprint).2.disp.uid = w.disp.uid ∧
      ((w.spined span).dispatchDecoded span.anchor span.footprint).2.disp.Vetted RateEntry := by
    simp only [World.dispatchDecoded]
    split
    · rename_i req ctx slot _
      exact ⟨uid_dispatch _ _ _ _,
        h.vetted.effect vets_rateEntry (Dispatcher.effect_dispatch _ _ _ _)⟩
    · exact ⟨rfl, h.vetted⟩
  refine ⟨⟨⟨?_, hdisp.2, ?_⟩, fun houtstanding => ?_⟩, ?_⟩
  · rw [hdisp.1]
    exact h.uid
  · rw [hconfig]
    have hsame : ((w.spined span).dispatchDecoded span.anchor span.footprint).2.disp.table =
        w.disp.table := htable
    rw [hsame]
    exact h.mirrors
  · rw [hconfig, hnone] at houtstanding
    cases houtstanding
  · rw [hconfig]
    exact hnone

theorem Tuned.routeSpine (h : Tuned operational w) {span : FrameSpan}
    (hfits : Fits w.bus.ring span) (hspeculates : w.speculates span.anchor = true)
    (complete : Bool)
    (hreply : complete = true → (w.bus.freshCrc span.anchor span.footprint &&
        (w.folded span).authentic span.anchor span.footprint) = true →
      w.applies span = true → w.replied span = true) :
    Tuned operational (World.routeSpine chip span complete w) := by
  obtain ⟨hahead, hnone⟩ := h.ahead hfits hspeculates
  obtain ⟨hcrc, hauth⟩ := w.verdicts_spined hspeculates
  have hopen :
      ∀ found, ((w.spined span).dispatchDecoded span.anchor span.footprint).1 = some found →
      tunes (openSpans ((w.spined span).dispatchDecoded span.anchor span.footprint).2.disp) = true →
      ∃ req ctx slot, w.decoded span = .own req ctx slot ∧
        tunes (appliedSpans w.disp req) = true := by
    intro found hfound htunes
    cases hdecoded : w.decoded span with
    | own req ctx slot =>
        obtain ⟨staged, w', hdispatch, hdisp, -⟩ := (w.spined span).dispatchDecoded_own hdecoded
        simp only [visible, dispatch_revertDangling] at hdisp
        rw [hdispatch, hdisp] at htunes
        exact ⟨req, ctx, slot, rfl, tunes_dispatch htunes⟩
    | status | skip =>
        rw [dispatchDecoded_other (w.spined span)] at hfound
        · cases hfound
        · intro req ctx slot hown
          have hown' : w.decoded span = .own req ctx slot := hown
          rw [hdecoded] at hown'
          cases hown'
  rw [routeSpine_eq]
  split
  · rename_i staged slot out w' hout
    rw [hout] at hahead hnone hcrc hauth hopen
    split
    · rename_i hcomplete
      refine hahead.verify chip hnone _ fun hpasses htunes => ?_
      rw [hcrc, hauth] at hpasses
      obtain ⟨-, htunes⟩ := Bool.and_eq_true_iff.mp htunes
      obtain ⟨req, ctx, slot, hdecoded, happlied⟩ := hopen _ rfl htunes
      have hreplied := hreply hcomplete hpasses
      simp only [applies, replied, hdecoded] at hreplied
      have hspined : (w.spined span).decoded span = .own req ctx slot := hdecoded
      have hbusy := busy_of_replies (w := w.spined span) h.uid hspined (hreplied happlied)
      rwa [hout] at hbusy
    · exact hahead.congr rfl rfl hahead.carried
  · rename_i w' hout
    rw [hout] at hahead hnone
    split
    · exact hahead.verify chip hnone _ fun _ htable => by cases htable
    · exact hahead

theorem Tuned.routeAccepted (h : Tuned operational w) {span : FrameSpan}
    (hover : w.overrides span = false)
    (hreply : (w.bus.config.outstanding || w.applies span) = true →
      (w.bus.tx.streaming || w.replied span) = true) :
    Tuned operational (w.routeAccepted chip span) := by
  have hconfig : (w.admitted span).bus.config = w.bus.config :=
    (ServoBus.config_dropStaged _).trans (config_accepted _ _ _)
  have hsame : (w.admitted span).decoded span = w.decoded span := by
    have hring : (w.admitted span).bus.ring = w.bus.ring := ring_accepted _ _ _
    have hid : (w.admitted span).bus.id = w.bus.id := congrArg Config.id hconfig
    rw [decoded, hring, hid]
    rfl
  have hstreaming : (w.admitted span).bus.tx.streaming = w.bus.tx.streaming := by
    refine (ServoBus.streaming_dropStaged _).trans ?_
    rw [(pipeline_accepted w.bus span.anchor span.footprint).1]
  have hadmitted : InStep operational (w.admitted span) :=
    ⟨h.uid, h.vetted, by rw [hconfig]; exact h.mirrors⟩
  have hover' : (w.admitted span).overrides span = false := by
    rw [overrides, hsame, hconfig]
    exact hover
  have hbusy : ((w.admitted span).bus.config.outstanding || (w.admitted span).applies span) = true →
      ((w.admitted span).dispatchDecoded span.anchor span.footprint).2.bus.tx.busy = true := by
    intro hchange
    have happlies : (w.admitted span).applies span = w.applies span := by
      rw [applies, hsame]
      rfl
    rw [hconfig, happlies] at hchange
    obtain hstream | hreplied := Bool.or_eq_true_iff.mp (hreply hchange)
    · refine busy_dispatchDecoded ?_ _ _
      rw [TxEngine.busy_eq, hstreaming, hstream, Bool.or_true]
    · rw [replied] at hreplied
      cases hdecoded : w.decoded span with
      | own req ctx slot =>
          rw [hdecoded] at hreplied
          exact busy_of_replies hadmitted.uid (hsame.trans hdecoded) hreplied
      | status | skip =>
          rw [hdecoded] at hreplied
          cases hreplied
  obtain ⟨htuned, hopen⟩ := hadmitted.dispatchDecoded hover' hbusy
  rw [World.routeAccepted]
  split
  · rename_i w' hout
    rw [hout] at htuned
    exact htuned
  · rename_i staged slot out w' hout
    rw [hout] at htuned hopen
    refine Tuned.sequenced chip ?_ _ _ _
    split
    · exact htuned.commit (hopen rfl)
    · exact htuned

theorem Tuned.routeVerdictFirst (h : Tuned operational w) {span : FrameSpan}
    (hspan : 2 ≤ span.footprint)
    (hreply : (w.bus.freshCrc span.anchor span.footprint &&
        w.bus.authentic span.anchor span.footprint) = true →
      ((w.bus.config.outstanding || w.applies span) = true →
        (w.bus.tx.streaming || w.replied span) = true) ∧ w.overrides span = false) :
    Tuned operational (World.routeVerdictFirst chip span w) := by
  rw [routeVerdictFirst_eq chip w hspan]
  cases hcrc : w.bus.freshCrc span.anchor span.footprint with
  | false => exact h.congr rfl rfl h.carried
  | true =>
      cases hauth : w.bus.authentic span.anchor span.footprint with
      | false => exact h.congr rfl rfl h.carried
      | true =>
          obtain ⟨hanswers, hover⟩ := hreply (by rw [hcrc, hauth]; rfl)
          have hfed : Tuned operational (w.fed span) := h.congr rfl rfl h.carried
          exact hfed.routeAccepted chip hover hanswers

omit [ConfigStore σ] in
theorem Tuned.routeStatus (h : Tuned operational w) (span : FrameSpan) :
    Tuned operational (w.routeStatus span true) := by
  simp only [World.routeStatus, if_true]
  refine h.congr rfl ?_ fun houtstanding => ?_
  · exact ServoBus.config_routeChain _ _
  · exact ServoBus.busy_routeChain _ _ (h.carried houtstanding)

/-- The end of a frame that enters the spine. -/
theorem Tuned.routeFrame (h : Tuned operational w) {span : FrameSpan}
    (hfits : Fits w.bus.ring span)
    (hreply : (w.bus.ringInst span.anchor).isStatus = false →
      (w.bus.freshCrc span.anchor span.footprint &&
        (w.folded span).authentic span.anchor span.footprint) = true →
      ((w.bus.config.outstanding || w.applies span) = true →
        (w.bus.tx.streaming || w.replied span) = true) ∧ w.overrides span = false) :
    Tuned operational (World.routeFrame chip span true w) := by
  have hleast := hfits.least
  simp only [World.routeFrame]
  split
  · exact h.routeStatus span
  · rename_i hinst
    have hreply := hreply (by simpa using hinst)
    cases hspeculates : w.speculates span.anchor with
    | true =>
        obtain ⟨hquiet, -, -⟩ := w.idle_of_speculates hspeculates
        simp only [if_true]
        refine h.routeSpine chip hfits hspeculates true fun _ hpasses happlies => ?_
        have hanswers := (hreply hpasses).1 (by rw [happlies, Bool.or_true])
        rwa [hquiet.2, Bool.false_or] at hanswers
    | false =>
        simp only [Bool.false_eq_true, if_false, Bool.not_true]
        refine h.routeVerdictFirst chip (by omega) fun hpasses => hreply ?_
        simp only [folded, hspeculates, Bool.false_eq_true, if_false]
        exact hpasses

theorem pending_routeSpine {span : FrameSpan} :
    (World.routeSpine chip span true w).bus.pending = w.bus.pending := by
  obtain ⟨handle, hbus, -⟩ := (w.spined span).dispatchDecoded_eq span.anchor span.footprint
  have hpending := congrArg ServoBus.pending hbus
  rw [routeSpine_eq]
  split
  · rename_i hout
    rw [hout] at hpending
    exact (pending_verify chip _ _).trans hpending
  · rename_i hout
    rw [hout] at hpending
    exact (pending_verify chip _ _).trans hpending

theorem pending_routeFrame {span : FrameSpan} (hspan : 2 ≤ span.footprint) :
    (World.routeFrame chip span true w).bus.pending = w.bus.pending := by
  simp only [World.routeFrame]
  split
  · simp only [World.routeStatus, if_true]
    obtain ⟨_, _, _, _, h⟩ := ServoBus.routeChain_eq
      ({ w.bus with chain := (w.bus.chain.onStatusEnd span.packetEnd).1 } : ServoBus)
      (w.bus.chain.onStatusEnd span.packetEnd).2
    rw [h]
  · split
    · exact pending_routeSpine chip
    · simp only [Bool.not_true, Bool.false_eq_true, if_false]
      rw [routeVerdictFirst_eq chip w hspan]
      split
      · split
        · exact (pipeline_routeAccepted chip (w.fed span) span).2
        · rfl
      · rfl

/-- A frame end, with nothing waiting behind a pending frame. -/
theorem Tuned.onFrameEnd (h : Tuned operational w) {span : FrameSpan}
    (hfits : Fits w.bus.ring span)
    (hopened : w.bus.pending.isSome = true → w.bus.config.outstanding = false)
    (hcarries : w.Carries span) :
    Tuned operational (World.onFrameEnd chip span w) ∧
      (World.onFrameEnd chip span w).bus.pending = none := by
  have hleast := hfits.least
  simp only [Carries, passes, crcVerdict, judgedBus, retunes, answers] at hcarries
  rw [onFrameEnd_eq]
  cases hdue : w.dueVerdict span with
  | some p =>
      have hpending : w.bus.pending = some p := (Option.filter_eq_some_iff.mp hdue).1
      have hat : p.anchor = span.anchor ∧ p.footprint = span.footprint := by
        have hp : p.isAt span := (Option.filter_eq_some_iff.mp hdue).2
        simpa [Pending.isAt] using hp
      simp only [hdue, Option.isSome_some, if_true] at hcarries
      have htaken : Tuned operational { w with bus := { w.bus with pending := none } } :=
        h.congr rfl rfl h.carried
      refine ⟨htaken.verify chip (hopened (by rw [hpending]; rfl)) p fun hpasses => ?_,
        pending_verify chip _ p⟩
      rw [hat.1, hat.2] at hpasses
      exact (hcarries hpasses).1
  | none =>
      simp only [hdue, Option.isSome_none, Bool.false_eq_true, if_false] at hcarries
      have hentering : w.entering.bus.ring = w.bus.ring ∧ w.entering.bus.crc = w.bus.crc ∧
          w.entering.bus.config = w.bus.config ∧ w.entering.bus.pending = none ∧
          w.entering.bus.tx.streaming = w.bus.tx.streaming := by
        simp only [entering]
        split
        · exact ⟨rfl, rfl, rfl, rfl, ServoBus.streaming_dropStaged _⟩
        · exact ⟨rfl, rfl, rfl, rfl, rfl⟩
      obtain ⟨hring, hengine, hconfig, hnone, hstreaming⟩ := hentering
      have hid : w.entering.bus.id = w.bus.id := congrArg Config.id hconfig
      have hsame : w.entering.decoded span = w.decoded span := by
        rw [decoded, hring, hid]
        rfl
      have hdisp : w.entering.disp = w.disp := rfl
      have hentered : Tuned operational w.entering := by
        refine h.congr rfl hconfig fun houtstanding => ?_
        simp only [entering]
        split
        · rename_i hsome
          rw [hopened hsome] at houtstanding
          cases houtstanding
        · exact h.carried houtstanding
      refine ⟨hentered.routeFrame chip (hring ▸ hfits) fun hinst hpasses => ?_,
        (pending_routeFrame chip (by omega)).trans hnone⟩
      rw [ServoBus.freshCrc_congr hring (by rw [hengine])] at hpasses
      obtain ⟨hanswers, hover⟩ := hcarries hpasses
      rw [ServoBus.ringInst, hring] at hinst
      simp only [ServoBus.ringInst, hinst, Bool.not_false, Bool.true_and] at hanswers
      rw [applies, replied, overrides, hsame, hconfig, hstreaming, hdisp]
      exact ⟨hanswers, hover trivial⟩

/-- The covered checkpoint leaves nothing waiting behind the frame it opens. -/
theorem Tuned.covered (h : Tuned operational w) {span : FrameSpan} (hfits : Fits w.bus.ring span)
    (hopened : w.bus.pending.isSome = true → w.bus.config.outstanding = false) :
    Tuned operational (World.routeFrame chip span false w) ∧
      ((World.routeFrame chip span false w).bus.pending.isSome = true →
        (World.routeFrame chip span false w).bus.config.outstanding = false) := by
  have hguarded := w.guarded_covered chip hfits
  have hconfig : (World.routeFrame chip span false w).bus.config = w.bus.config :=
    congrArg Guarded.config hguarded
  rw [hconfig]
  simp only [World.routeFrame]
  split
  · exact ⟨h, hopened⟩
  · cases hspeculates : w.speculates span.anchor with
    | true =>
        simp only [if_true]
        obtain ⟨-, -, hidle⟩ := w.idle_of_speculates hspeculates
        refine ⟨h.routeSpine chip hfits hspeculates false fun hcomplete => (by cases hcomplete),
          fun _ => ?_⟩
        by_contra houtstanding
        rw [h.carried (by simpa using houtstanding)] at hidle
        cases hidle
    | false => exact ⟨h, hopened⟩

end World

end OpenServo.Bus
