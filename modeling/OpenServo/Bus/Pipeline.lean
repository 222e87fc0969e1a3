import OpenServo.Bus.Visible

/-!
# The reply pipeline

A reply is staged at dispatch and belongs to the chain only once its frame has
passed.  A staged reply is therefore either sequenced or waits for the verdict
of the pending frame, and a verdict that fails leaves neither a chain nor a
staged reply behind.
-/

namespace OpenServo.Bus

open Security

namespace ServoBus

/-- A staged reply has been handed to the chain. -/
def Parked (bus : ServoBus) : Prop := bus.tx.staged = true → bus.chain.active = true

/-- No reply is sequenced or on the wire. -/
def Quiet (bus : ServoBus) : Prop := bus.chain.active = false ∧ bus.tx.streaming = false

theorem staged_trigger (tx : TxEngine) (crc : CrcEngine) (overResult : Option ResultCode) :
    (tx.trigger crc overResult).1.staged = false := by
  simp only [TxEngine.trigger]
  split
  · rename_i h
    simpa using h
  · rfl

/-- The chain loop ends with the reply on the wire or still sequenced: its fuel
covers the turns the chain has left. -/
theorem parked_routeChainLoop (fuel : ℕ) (out : ChainOut) (bus : ServoBus)
    (hwait : ∀ due, out = .wait due → bus.chain.active = true ∧ bus.chain.turns < fuel)
    (htrigger : ∀ silent, out = .trigger silent → 0 < fuel)
    (hnone : out = .none → bus.Parked) : (routeChainLoop fuel out bus).Parked := by
  induction fuel generalizing out bus with
  | zero =>
      cases out with
      | none => exact hnone rfl
      | wait due => exact absurd (hwait due rfl).2 (Nat.not_lt_zero _)
      | trigger silent => exact absurd (htrigger silent rfl) (Nat.lt_irrefl 0)
  | succ fuel ih =>
      cases out with
      | none => exact hnone rfl
      | trigger silent =>
          intro hstaged
          simp only [routeChainLoop, staged_trigger] at hstaged
          cases hstaged
      | wait due =>
          obtain ⟨hactive, hturns⟩ := hwait due rfl
          simp only [routeChainLoop]
          split
          · exact fun _ => hactive
          · apply ih
            · intro due' hout
              have hfewer := Chain.turns_onDeadline
                (show bus.chain.onDeadline bus.now = ((bus.chain.onDeadline bus.now).1, .wait due')
                  from Prod.ext rfl hout)
              refine ⟨?_, by dsimp only; omega⟩
              simp only [Chain.onDeadline] at hout ⊢
              split at hout
              · cases hout
              · split at hout
                · cases hout
                · rename_i hne
                  simp [hne, Chain.active]
              · cases hout
            · intro silent hout
              have hpos : 0 < bus.chain.turns := by
                simp only [Chain.active, bne_iff_ne, ne_eq] at hactive
                simp only [Chain.turns]
                split <;> simp_all
              omega
            · intro hout
              exfalso
              simp only [Chain.active, bne_iff_ne, ne_eq] at hactive
              simp only [Chain.onDeadline] at hout
              split at hout
              · cases hout
              · split at hout <;> cases hout
              · rename_i hidle
                exact hactive hidle

theorem parked_routeChain (out : ChainOut) (bus : ServoBus)
    (hwait : ∀ due, out = .wait due → bus.chain.active = true)
    (hnone : out = .none → bus.Parked) : (bus.routeChain out).Parked := by
  refine parked_routeChainLoop _ out bus ?_ ?_ hnone
  · exact fun due hout => ⟨hwait due hout, by omega⟩
  · exact fun _ _ => by omega

theorem parked_sequenceReply (bus : ServoBus) (chip : Chip) (slot : ℕ) (packetEnd : UInt32) :
    (bus.sequenceReply chip slot packetEnd).Parked := by
  simp only [sequenceReply]
  apply parked_routeChain
  · intro due _
    simp only [Chain.onReplyStaged]
    split <;> rfl
  · intro hout
    simp only [Chain.onReplyStaged] at hout
    split at hout <;> cases hout

theorem staged_dropStaged (bus : ServoBus) : bus.dropStaged.tx.staged = false := by
  simp only [dropStaged]
  split
  · have hbusy := bus.tx.busy_abort
    rw [TxEngine.busy_eq, Bool.or_eq_false_iff] at hbusy
    exact hbusy.1
  · rename_i h
    simpa using h

theorem streaming_dropStaged (bus : ServoBus) :
    bus.dropStaged.tx.streaming = bus.tx.streaming := by
  simp only [dropStaged]
  split
  · rename_i hstaged
    have hidle := bus.tx.busy_abort
    rw [TxEngine.busy_eq, Bool.or_eq_false_iff] at hidle
    rw [hidle.2]
    simp only [TxEngine.staged] at hstaged
    simp only [TxEngine.streaming]
    split at hstaged <;> simp_all
  · rfl

theorem Quiet.dropStaged {bus : ServoBus} (h : bus.Quiet) : bus.dropStaged.Quiet :=
  ⟨rfl, (streaming_dropStaged bus).trans h.2⟩

theorem parked_dropStaged (bus : ServoBus) : bus.dropStaged.Parked := by
  intro hstaged
  rw [staged_dropStaged] at hstaged
  cases hstaged

end ServoBus

/-! ## Replies of a dispatch -/

/-- The transmitter streams as before, and a staged reply is the handle's own. -/
def ReplyHandle.Stages (streaming : Bool) (h : ReplyHandle) : Prop :=
  h.tx.streaming = streaming ∧ (h.tx.staged = true → h.staged = true)

theorem TxEngine.stageGather_cases (tx : TxEngine) (crc : CrcEngine) (id : Byte)
    (result : ResultCode) (alert : Bool) (spans : List (List Byte)) :
    (∃ e, (tx.stageGather crc id result alert spans).1 = .error e ∧
        (tx.stageGather crc id result alert spans).2.1 = tx) ∨
      (tx.busy = false ∧ (tx.stageGather crc id result alert spans).1 = .ok () ∧
        (tx.stageGather crc id result alert spans).2.1.state = .staged none) := by
  simp only [TxEngine.stageGather]
  split
  · exact .inl ⟨_, rfl, rfl⟩
  · rename_i hbusy
    split
    · exact .inl ⟨_, rfl, rfl⟩
    · exact .inr ⟨by simpa using hbusy, rfl, rfl⟩

theorem ReplyHandle.Stages.sendGather {streaming : Bool} {h : ReplyHandle}
    (hstages : h.Stages streaming) (result : ResultCode) (alert : Bool)
    (spans : List (List Byte)) : (h.sendGather result alert spans).Stages streaming := by
  have hcases := h.tx.stageGather_cases h.crc h.id result alert spans
  simp only [ReplyHandle.sendGather]
  split
  · rename_i e tx crc hout
    rw [hout] at hcases
    obtain ⟨_, -, rfl⟩ | ⟨-, hok, -⟩ := hcases
    · exact hstages
    · cases hok
  · rename_i tx crc hout
    rw [hout] at hcases
    obtain ⟨_, herror, -⟩ | ⟨hbusy, -, hstate⟩ := hcases
    · cases herror
    · rw [TxEngine.busy_eq, Bool.or_eq_false_iff] at hbusy
      refine ⟨?_, fun _ => rfl⟩
      rw [← hstages.1, hbusy.2]
      dsimp only at hstate ⊢
      split
      · simp [TxEngine.markCollisionTolerant, hstate, TxEngine.streaming]
      · simp [hstate, TxEngine.streaming]

theorem ReplyHandle.sim_stages (streaming : Bool) :
    Reply.Sim fun (h : ReplyHandle) (_ : Unit) => h.Stages streaming where
  sendStatus _ hrel := hrel.sendGather _ _ _
  sendStatusGather _ _ _ hrel := hrel.sendGather _ _ _
  stageId _ hrel := hrel
  setId _ hrel := hrel
  stageBaud _ hrel := hrel
  setResponseDeadline _ hrel := hrel
  stageReboot _ hrel := hrel
  beginClockCal _ _ hrel := hrel

theorem ReplyHandle.tx_dispatchEvents (table : Table.ControlTable) (addr len : ℕ)
    (h : ReplyHandle) : (Dispatcher.dispatchEvents table addr len h).tx = h.tx := by
  simp only [Dispatcher.dispatchEvents]
  repeat' split
  all_goals rfl

namespace World

variable {σ : Type} [ConfigStore σ] (chip : Chip) (w : World σ)

omit [ConfigStore σ] in
@[simp]
theorem tx_commit : w.commit.bus.tx = w.bus.tx := by
  show (w.disp.commit (w.bus.replyHandle false)).2.tx = w.bus.tx
  simp only [Dispatcher.commit]
  split
  · rfl
  · split
    · rfl
    · exact ReplyHandle.tx_dispatchEvents _ _ _ _

omit [ConfigStore σ] in
@[simp]
theorem chain_commit : w.commit.bus.chain = w.bus.chain := rfl

/-- From a transmitter with nothing staged, a dispatch stages at most its own
reply and starts nothing. -/
theorem stages_dispatchDecoded (hidle : w.bus.tx.staged = false) (anchor footprint : ℕ) :
    (w.dispatchDecoded anchor footprint).2.bus.tx.streaming = w.bus.tx.streaming ∧
      (w.dispatchDecoded anchor footprint).2.bus.chain = w.bus.chain ∧
      ((w.dispatchDecoded anchor footprint).2.bus.tx.staged = true →
        ∃ slot out, (w.dispatchDecoded anchor footprint).1 = some (true, slot, out)) := by
  simp only [dispatchDecoded]
  split
  · rename_i req ctx slot hdecode
    have hinit : (w.bus.replyHandle (tolerates req)).Stages w.bus.tx.streaming := by
      refine ⟨rfl, fun hstaged => ?_⟩
      rw [show (w.bus.replyHandle (tolerates req)).tx.staged = false from hidle] at hstaged
      cases hstaged
    obtain ⟨-, -, hstreaming, hstaged⟩ :=
      Dispatcher.rel_dispatch (ReplyHandle.sim_stages w.bus.tx.streaming) (t := ()) hinit w.disp
        req ctx
    refine ⟨hstreaming, rfl, fun h => ⟨slot, (w.disp.dispatch req ctx
      (w.bus.replyHandle (tolerates req))).1, ?_⟩⟩
    rw [← hstaged h]
  · refine ⟨rfl, rfl, fun h => ?_⟩
    rw [hidle] at h
    cases h

/-- The dispatch of the frame in the ring puts its reply into the transmitter. -/
def stagesReply (span : FrameSpan) : Bool :=
  match w.decoded span with
  | .own req ctx _ => (w.disp.dispatch req ctx (w.bus.replyHandle (tolerates req))).2.2.staged
  | .status | .skip => false

variable {w} in
theorem staged_of_dispatchDecoded {span : FrameSpan} {staged : Bool} {slot : ℕ}
    {out : Dispatched} {w' : World σ}
    (hout : w.dispatchDecoded span.anchor span.footprint = (some (staged, slot, out), w')) :
    staged = w.stagesReply span := by
  simp only [dispatchDecoded] at hout
  simp only [stagesReply, decoded]
  split at hout
  · rename_i req ctx slot' hdecode
    rw [hdecode]
    simp only [Prod.mk.injEq, Option.some.injEq] at hout
    exact hout.1.1.symm
  · cases hout

variable {w} in

/-! ## Verdicts -/

omit [ConfigStore σ] in
/-- Sequencing hands a staged reply to the chain. -/
theorem parked_sequenced {staged : Bool} (h : w.bus.tx.staged = true → staged = true) (slot : ℕ)
    (packetEnd : UInt32) : (w.sequenced chip staged slot packetEnd).bus.Parked := by
  simp only [sequenced]
  split
  · exact ServoBus.parked_sequenceReply _ _ _ _
  · rename_i hskip
    intro hstaged
    simp [hstaged, h hstaged] at hskip

omit [ConfigStore σ] in
theorem pipeline_accepted (bus : ServoBus) (anchor footprint : ℕ) :
    (accepted bus anchor footprint).tx = bus.tx ∧
      (accepted bus anchor footprint).chain = bus.chain ∧
      (accepted bus anchor footprint).pending = bus.pending := by
  obtain ⟨_, h, -⟩ := ServoBus.driftNoteVerified_eq
    ({ bus with
      security := bus.judged anchor footprint
      framer := bus.framer.onFrameVerified } : ServoBus) anchor footprint
  rw [accepted, h]
  exact ⟨rfl, rfl, rfl⟩

omit [ConfigStore σ] in
/-- A verdict sequences the reply of its frame or drops it. -/
theorem parked_verify {p : Pending} (h : w.bus.tx.staged = true → p.staged = true) :
    (verify chip p w).bus.Parked := by
  rw [verify_eq]
  split
  · split
    · refine parked_sequenced chip _ ?_ _ _
      have haccepted := (pipeline_accepted w.bus p.anchor p.footprint).1
      split
      · rw [tx_commit]
        simpa only [haccepted] using h
      · simpa only [haccepted] using h
    · exact ServoBus.parked_dropStaged _
  · exact ServoBus.parked_dropStaged _

omit [ConfigStore σ] in
/-- A verdict that fails, or that is on a frame without a reply, leaves the
pipeline quiet. -/
theorem quiet_verify {p : Pending} (hquiet : w.bus.Quiet)
    (hfails : (w.bus.crcVerify p.anchor p.footprint &&
      w.bus.authentic p.anchor p.footprint && p.staged) = false) :
    (verify chip p w).bus.Quiet := by
  rw [verify_eq]
  cases hcrc : w.bus.crcVerify p.anchor p.footprint with
  | false => exact hquiet.dropStaged
  | true =>
      cases hauth : w.bus.authentic p.anchor p.footprint with
      | false =>
          have hrefused : (refused w.bus p.anchor p.footprint).Quiet := hquiet
          exact hrefused.dropStaged
      | true =>
          have hunstaged : p.staged = false := by simpa [hcrc, hauth] using hfails
          obtain ⟨htx, hchain, -⟩ := pipeline_accepted w.bus p.anchor p.footprint
          simp only [if_true, sequenced, hunstaged, Bool.false_and, Bool.false_eq_true, if_false]
          split
          · rw [ServoBus.Quiet, tx_commit, chain_commit]
            exact ⟨by rw [hchain]; exact hquiet.1, by rw [htx]; exact hquiet.2⟩
          · exact ⟨by rw [hchain]; exact hquiet.1, by rw [htx]; exact hquiet.2⟩

omit [ConfigStore σ] in
@[simp]
theorem pending_sequenced (staged : Bool) (slot : ℕ) (packetEnd : UInt32) :
    (w.sequenced chip staged slot packetEnd).bus.pending = w.bus.pending := by
  simp only [sequenced]
  split
  · obtain ⟨_, _, _, _, h⟩ := w.bus.sequenceReply_eq chip slot packetEnd
    rw [h]
  · rfl

omit [ConfigStore σ] in
@[simp]
theorem pending_verify (p : Pending) : (verify chip p w).bus.pending = w.bus.pending := by
  rw [verify_eq]
  split
  · split
    · rw [pending_sequenced]
      split
      · exact (pipeline_accepted w.bus p.anchor p.footprint).2.2
      · exact (pipeline_accepted w.bus p.anchor p.footprint).2.2
    · rfl
  · rfl

/-! ## Frame ends -/

omit [ConfigStore σ] in
/-- The speculative path starts from an idle pipeline. -/
theorem idle_of_speculates {anchor : ℕ} (h : w.speculates anchor = true) :
    w.bus.Quiet ∧ w.bus.tx.staged = false ∧ w.bus.tx.busy = false := by
  simp only [speculates, Bool.and_eq_true, Bool.not_eq_true'] at h
  have hbusy := h.1.2
  rw [TxEngine.busy_eq, Bool.or_eq_false_iff] at hbusy
  exact ⟨⟨h.1.1, hbusy.2⟩, hbusy.1, h.1.2⟩

/-- What a dispatch ahead of the verdict leaves in the pipeline. -/
theorem pipeline_spined {span : FrameSpan} (hspeculates : w.speculates span.anchor = true) :
    ((w.spined span).dispatchDecoded span.anchor span.footprint).2.bus.Quiet ∧
      (((w.spined span).dispatchDecoded span.anchor span.footprint).2.bus.tx.staged = true →
        ∃ slot out, ((w.spined span).dispatchDecoded span.anchor span.footprint).1 =
          some (true, slot, out)) := by
  obtain ⟨hquiet, hidle, -⟩ := w.idle_of_speculates hspeculates
  obtain ⟨hstreaming, hchain, hstaged⟩ :=
    (w.spined span).stages_dispatchDecoded hidle span.anchor span.footprint
  refine ⟨⟨?_, hstreaming.trans hquiet.2⟩, hstaged⟩
  rw [hchain]
  exact hquiet.1

/-- The end of a whole frame on the speculative path. -/
theorem pipeline_routeSpine {span : FrameSpan} (hspeculates : w.speculates span.anchor = true) :
    (routeSpine chip span true w).bus.Parked ∧
      (routeSpine chip span true w).bus.pending = w.bus.pending ∧
      ((w.bus.freshCrc span.anchor span.footprint &&
          (w.folded span).authentic span.anchor span.footprint &&
          (w.spined span).stagesReply span) = false →
        (routeSpine chip span true w).bus.Quiet) := by
  obtain ⟨hquiet, hstaged⟩ := w.pipeline_spined hspeculates
  obtain ⟨hcrc, hauth⟩ := w.verdicts_spined hspeculates
  obtain ⟨h, hbus, -⟩ := (w.spined span).dispatchDecoded_eq span.anchor span.footprint
  have hpending : ((w.spined span).dispatchDecoded span.anchor span.footprint).2.bus.pending =
      w.bus.pending := by
    rw [hbus]
    rfl
  rw [routeSpine_eq]
  split
  · rename_i staged slot out w' hout
    have hflag := staged_of_dispatchDecoded hout
    rw [hout] at hquiet hstaged hcrc hauth hpending
    refine ⟨?_, ?_, fun hfails => ?_⟩
    · refine parked_verify chip w' fun h => ?_
      obtain ⟨_, _, hsome⟩ := hstaged h
      cases hsome
      rfl
    · rw [← hpending]
      exact pending_verify chip w' _
    · refine quiet_verify chip w' hquiet ?_
      rw [hcrc, hauth, hflag]
      exact hfails
  · rename_i w' hout
    rw [hout] at hquiet hstaged hcrc hauth hpending
    refine ⟨?_, ?_, fun _ => ?_⟩
    · refine parked_verify chip w' fun h => ?_
      obtain ⟨_, _, hsome⟩ := hstaged h
      cases hsome
    · rw [← hpending]
      exact pending_verify chip w' _
    · exact quiet_verify chip w' hquiet (Bool.and_false _)

theorem pipeline_routeAccepted (span : FrameSpan) :
    (w.routeAccepted chip span).bus.Parked ∧
      (w.routeAccepted chip span).bus.pending = w.bus.pending := by
  obtain ⟨-, -, hstaged⟩ := (w.admitted span).stages_dispatchDecoded
    (ServoBus.staged_dropStaged _) span.anchor span.footprint
  obtain ⟨h, hbus, -⟩ := (w.admitted span).dispatchDecoded_eq span.anchor span.footprint
  have hpending : ((w.admitted span).dispatchDecoded span.anchor span.footprint).2.bus.pending =
      w.bus.pending := by
    rw [hbus]
    exact (pipeline_accepted w.bus span.anchor span.footprint).2.2
  simp only [routeAccepted]
  split
  · rename_i w' hout
    rw [hout] at hstaged hpending
    refine ⟨fun h => ?_, hpending⟩
    obtain ⟨_, _, hsome⟩ := hstaged h
    cases hsome
  · rename_i staged slot out w' hout
    rw [hout] at hstaged hpending
    have hflag : w'.bus.tx.staged = true → staged = true := by
      intro h
      obtain ⟨_, _, hsome⟩ := hstaged h
      cases hsome
      rfl
    constructor
    · refine parked_sequenced chip _ ?_ _ _
      split
      · rw [tx_commit]
        exact hflag
      · exact hflag
    · rw [pending_sequenced]
      split
      · exact hpending
      · exact hpending

/-- Past both gates a quiet pipeline stays quiet unless the dispatch stages a
reply. -/
theorem quiet_routeAccepted {span : FrameSpan} (hquiet : w.bus.Quiet)
    (hstages : (w.admitted span).stagesReply span = false) :
    (w.routeAccepted chip span).bus.Quiet := by
  obtain ⟨htx, hchain, -⟩ := pipeline_accepted w.bus span.anchor span.footprint
  have haccepted : (accepted w.bus span.anchor span.footprint).Quiet :=
    ⟨by rw [hchain]; exact hquiet.1, by rw [htx]; exact hquiet.2⟩
  have hadmitted : (w.admitted span).bus.Quiet := haccepted.dropStaged
  obtain ⟨hstreaming, hkept, -⟩ := (w.admitted span).stages_dispatchDecoded
    (ServoBus.staged_dropStaged _) span.anchor span.footprint
  have hdispatched :
      ((w.admitted span).dispatchDecoded span.anchor span.footprint).2.bus.Quiet :=
    ⟨by rw [hkept]; exact hadmitted.1, hstreaming.trans hadmitted.2⟩
  simp only [routeAccepted]
  split
  · rename_i w' hout
    rw [hout] at hdispatched
    exact hdispatched
  · rename_i staged slot out w' hout
    have hunstaged := (staged_of_dispatchDecoded hout).trans hstages
    rw [hout] at hdispatched
    simp only [sequenced, hunstaged, Bool.false_and, Bool.false_eq_true, if_false]
    split
    · rw [ServoBus.Quiet, tx_commit, chain_commit]
      exact hdispatched
    · exact hdispatched

theorem pipeline_routeVerdictFirst {span : FrameSpan} (hspan : 2 ≤ span.footprint)
    (hparked : w.bus.Parked) :
    (routeVerdictFirst chip span w).bus.Parked ∧
      (routeVerdictFirst chip span w).bus.pending = w.bus.pending ∧
      ((w.bus.freshCrc span.anchor span.footprint &&
          w.bus.authentic span.anchor span.footprint &&
          ((w.fed span).admitted span).stagesReply span) = false →
        w.bus.Quiet → (routeVerdictFirst chip span w).bus.Quiet) := by
  obtain ⟨hpassed, hkept⟩ := pipeline_routeAccepted chip (w.fed span) span
  rw [routeVerdictFirst_eq chip w hspan]
  cases w.bus.freshCrc span.anchor span.footprint with
  | false => exact ⟨hparked, rfl, fun _ hquiet => hquiet⟩
  | true =>
      cases w.bus.authentic span.anchor span.footprint with
      | false => exact ⟨hparked, rfl, fun _ hquiet => hquiet⟩
      | true =>
          refine ⟨hpassed, hkept, fun hstages hquiet => ?_⟩
          have hfed : (w.fed span).bus.Quiet := hquiet
          exact quiet_routeAccepted chip (w.fed span) hfed (by simpa using hstages)

omit [ConfigStore σ] in
theorem pipeline_routeStatus (span : FrameSpan) (hparked : w.bus.Parked) :
    (w.routeStatus span true).bus.Parked ∧
      (w.routeStatus span true).bus.pending = w.bus.pending ∧
      (w.bus.Quiet → (w.routeStatus span true).bus.Quiet) := by
  simp only [routeStatus, if_true]
  refine ⟨?_, ?_, fun hquiet => ?_⟩
  · apply ServoBus.parked_routeChain
    · intro due hout
      simp only [Chain.onStatusEnd] at hout ⊢
      split at hout
      · rename_i hstate
        split <;> simp [Chain.active]
      · cases hout
    · intro hout
      simp only [Chain.onStatusEnd] at hout ⊢
      split at hout
      · split at hout <;> cases hout
      · exact hparked
  · obtain ⟨_, _, _, _, h⟩ := ServoBus.routeChain_eq
      ({ w.bus with chain := (w.bus.chain.onStatusEnd span.packetEnd).1 } : ServoBus)
      (w.bus.chain.onStatusEnd span.packetEnd).2
    rw [h]
  · have hidle : w.bus.chain.state = .idle := by
      simpa [Chain.active] using hquiet.1
    simp only [Chain.onStatusEnd, hidle]
    exact hquiet

/-- The frame that enters the spine here is dispatched and its reply staged,
ahead of the verdict or after it. -/
def repliesAt (span : FrameSpan) : Bool :=
  !(w.bus.ringInst span.anchor).isStatus &&
    if w.speculates span.anchor then (w.spined span).stagesReply span
    else w.bus.freshCrc span.anchor span.footprint &&
      w.bus.authentic span.anchor span.footprint && ((w.fed span).admitted span).stagesReply span

/-- The end of a frame that enters the spine. -/
theorem pipeline_routeFrame {span : FrameSpan} (hspan : 2 ≤ span.footprint)
    (hparked : w.bus.Parked) :
    (routeFrame chip span true w).bus.Parked ∧
      (routeFrame chip span true w).bus.pending = w.bus.pending ∧
      ((w.bus.freshCrc span.anchor span.footprint &&
          (w.folded span).authentic span.anchor span.footprint && w.repliesAt span) = false →
        (w.bus.Quiet ∨ w.repliesAt span = true) → (routeFrame chip span true w).bus.Quiet) := by
  simp only [routeFrame, repliesAt]
  split
  · rename_i hinst
    obtain ⟨h₁, h₂, h₃⟩ := w.pipeline_routeStatus span hparked
    refine ⟨h₁, h₂, fun _ hquiet => h₃ (hquiet.resolve_right ?_)⟩
    simp [hinst]
  · rename_i hinst
    cases hspeculates : w.speculates span.anchor with
    | true =>
        simp only [if_true, hinst, Bool.not_false, Bool.true_and]
        obtain ⟨h₁, h₂, h₃⟩ := w.pipeline_routeSpine chip hspeculates
        exact ⟨h₁, h₂, fun hfails _ => h₃ hfails⟩
    | false =>
        simp only [Bool.false_eq_true, if_false, Bool.not_true, folded, hspeculates, hinst,
          Bool.not_false, Bool.true_and]
        obtain ⟨h₁, h₂, h₃⟩ := w.pipeline_routeVerdictFirst chip hspan hparked
        refine ⟨h₁, h₂, fun hfails hquiet => ?_⟩
        -- past both gates the two conditions are the same
        have hstages : (w.bus.freshCrc span.anchor span.footprint &&
            w.bus.authentic span.anchor span.footprint &&
            ((w.fed span).admitted span).stagesReply span) = false := by
          rw [← hfails]
          cases w.bus.freshCrc span.anchor span.footprint <;>
            cases w.bus.authentic span.anchor span.footprint <;> rfl
        rw [hstages] at hquiet
        exact h₃ hstages (hquiet.resolve_right Bool.false_ne_true)

end World

/-! ## Steps outside the resolver -/

namespace ServoBus

/-- What a step outside the resolver may do to the pipeline: it stages nothing,
starts nothing of its own, and keeps a staged reply with its chain. -/
structure Steady (bus bus' : ServoBus) : Prop where
  staged : bus'.tx.staged = true → bus.tx.staged = true
  quiet : bus.Quiet → bus'.Quiet
  parked : bus.Parked → bus'.Parked

theorem Steady.of_eq {bus bus' : ServoBus} (htx : bus'.tx = bus.tx)
    (hchain : bus'.chain = bus.chain) : bus.Steady bus' := by
  constructor
  · rw [htx]
    exact fun h => h
  · rintro ⟨hactive, hstreaming⟩
    exact ⟨by rw [hchain]; exact hactive, by rw [htx]; exact hstreaming⟩
  · intro hparked hstaged
    rw [htx] at hstaged
    rw [hchain]
    exact hparked hstaged

theorem Steady.trans {bus bus' bus'' : ServoBus} (h : bus.Steady bus') (h' : bus'.Steady bus'') :
    bus.Steady bus'' :=
  ⟨fun hs => h.staged (h'.staged hs), fun hq => h'.quiet (h.quiet hq),
    fun hp => h'.parked (h.parked hp)⟩

theorem staged_routeChainLoop (fuel : ℕ) (out : ChainOut) (bus : ServoBus)
    (h : (routeChainLoop fuel out bus).tx.staged = true) : bus.tx.staged = true := by
  induction fuel generalizing out bus with
  | zero => exact h
  | succ fuel ih =>
      cases out with
      | none => exact h
      | trigger silent =>
          simp only [routeChainLoop, staged_trigger] at h
          cases h
      | wait due =>
          simp only [routeChainLoop] at h
          split at h
          · exact h
          · have hstaged := ih _ _ h
            exact hstaged

/-- An output of the chain that was asked of the chain itself. -/
theorem steady_routeChain {bus : ServoBus} {chain : Chain} {out : ChainOut}
    (hwait : ∀ due, out = .wait due → chain.active = true)
    (hnone : out = .none → chain = bus.chain)
    (hidle : bus.chain.active = false → out = .none) :
    bus.Steady (({ bus with chain } : ServoBus).routeChain out) := by
  constructor
  · exact staged_routeChainLoop _ out _
  · intro hquiet
    have hout := hidle hquiet.1
    rw [hout, hnone hout]
    exact hquiet
  · intro hparked
    refine parked_routeChain out _ hwait fun hout => ?_
    rw [hnone hout]
    exact hparked

theorem steady_onDeadline (bus : ServoBus) (now : UInt32) :
    bus.Steady (({ bus with chain := (bus.chain.onDeadline now).1 } : ServoBus).routeChain
      (bus.chain.onDeadline now).2) := by
  apply steady_routeChain
  · intro due hout
    simp only [Chain.onDeadline] at hout ⊢
    split at hout
    · cases hout
    · split at hout
      · cases hout
      · rename_i hne
        simp [hne, Chain.active]
    · cases hout
  · intro hout
    simp only [Chain.onDeadline] at hout ⊢
    split at hout
    · cases hout
    · split at hout <;> cases hout
    · rfl
  · intro hidle
    have hstate : bus.chain.state = .idle := by simpa [Chain.active] using hidle
    simp only [Chain.onDeadline, hstate]

theorem steady_abort {bus bus' : ServoBus} (htx : bus'.tx = bus.tx.abort)
    (hchain : bus'.chain = bus.chain.reset) : bus.Steady bus' := by
  have hbusy := bus.tx.busy_abort
  rw [TxEngine.busy_eq, Bool.or_eq_false_iff, ← htx] at hbusy
  have hnever : bus'.tx.staged ≠ true := by simp [hbusy.1]
  refine ⟨fun h => absurd h hnever, fun _ => ⟨?_, hbusy.2⟩, fun _ h => absurd h hnever⟩
  rw [hchain]
  rfl

theorem steady_breakTail (bus : ServoBus) (fresh : Bool) (now : UInt32) :
    bus.Steady (bus.breakTail fresh now) := by
  have hobserved : ∀ b : ServoBus, b.Steady (b.routeChain (b.chain.onBreakObserved now)) := by
    intro b
    refine @steady_routeChain b b.chain _ ?_ (fun _ => rfl) ?_
    · intro due hout
      simp only [Chain.onBreakObserved] at hout
      split at hout
      · rename_i hstate
        simp [Chain.active, hstate]
      · cases hout
    · intro hidle
      have hstate : b.chain.state = .idle := by simpa [Chain.active] using hidle
      simp only [Chain.onBreakObserved, hstate]
  simp only [breakTail]
  generalize hchecked : (if (!fresh && bus.framerAt.isNone) = true then
    { bus with framerAt := some (now + bus.tpb) } else bus : ServoBus) = checked
  have hfirst : bus.Steady checked := by
    rw [← hchecked]
    split <;> exact .of_eq rfl rfl
  refine hfirst.trans (Steady.trans ?_ ((hobserved _).trans (.of_eq rfl rfl)))
  split
  · exact steady_abort rfl rfl
  · exact .of_eq rfl rfl

theorem steady_chainDue (bus : ServoBus) (now : UInt32) : bus.Steady (bus.chainDue now) := by
  simp only [chainDue]
  split
  · exact (Steady.of_eq rfl rfl : bus.Steady { bus with chainAt := none }).trans
      (steady_onDeadline { bus with chainAt := none } now)
  · exact .of_eq rfl rfl

theorem steady_onRescueBreak (bus : ServoBus) (chip : Chip) :
    bus.Steady (bus.onRescueBreak chip) := by
  simp only [onRescueBreak]
  split
  · exact .of_eq rfl rfl
  · exact steady_abort rfl rfl

theorem steady_onTxComplete (bus : ServoBus) (chip : Chip) :
    bus.Steady (bus.onTxComplete chip) := by
  have htx : (bus.onTxComplete chip).tx = (bus.tx.onArmComplete bus.crc).2.1 ∧
      (bus.onTxComplete chip).chain = bus.chain := by
    simp only [onTxComplete]
    split
    · exact ⟨rfl, rfl⟩
    · split <;> split <;> exact ⟨rfl, rfl⟩
  have harm : ((bus.tx.onArmComplete bus.crc).2.1.staged = true → bus.tx.staged = true) ∧
      (bus.tx.streaming = false → (bus.tx.onArmComplete bus.crc).2.1.streaming = false) := by
    simp only [TxEngine.onArmComplete]
    split
    · rename_i next hstate
      refine ⟨?_, by simp [TxEngine.streaming, hstate]⟩
      split
      · simp [TxEngine.staged]
      · simp [TxEngine.staged]
    · exact ⟨fun h => h, fun h => h⟩
  refine ⟨?_, ?_, ?_⟩
  · rw [htx.1]
    exact harm.1
  · rintro ⟨hactive, hstreaming⟩
    exact ⟨by rw [htx.2]; exact hactive, by rw [htx.1]; exact harm.2 hstreaming⟩
  · intro hparked hstaged
    rw [htx.1] at hstaged
    rw [htx.2]
    exact hparked (harm.1 hstaged)

end ServoBus

namespace World

variable {σ : Type} [ConfigStore σ] (chip : Chip) (w : World σ)

theorem steady_step {act : Act} (h : act.drives = false) :
    w.bus.Steady (step chip w act).bus := by
  cases act with
  | drive late => cases h
  | breakTail fresh now => exact w.bus.steady_breakTail fresh now
  | chainDue now => exact w.bus.steady_chainDue now
  | rescue => exact w.bus.steady_onRescueBreak chip
  | txComplete => exact w.bus.steady_onTxComplete chip
  | calBreak =>
      simp only [step, onBus]
      split
      · refine .of_eq ?_ ?_ <;> (simp only [ServoBus.onCalBreak]; split <;> rfl)
      · exact .of_eq rfl rfl
  | breakHead =>
      refine .of_eq ?_ ?_ <;> (simp only [step, onBus, ServoBus.breakHead]; split <;> rfl)
  | framerDue =>
      refine .of_eq ?_ ?_ <;> (simp only [step, onBus, ServoBus.framerDue]; split <;> rfl)
  | takeReboot =>
      refine .of_eq ?_ ?_ <;> (simp only [step, onBus, ServoBus.takeReboot]; split <;> rfl)
  | _ => exact .of_eq rfl rfl

end World

end OpenServo.Bus
