import OpenServo.Bus.Speculation
import OpenServo.Core.Refinement

/-!
# The life of a reply

The chain, the transmitter and the pending frame each know a part of where a
reply is.  Between any two steps the three agree: there is no reply, or it is
held for the verdict of its frame, or it is sequenced and the chain has a tick
to look at it again, or it is on the wire; and it moves from one to the next
only as the source means it to.
-/

namespace OpenServo.Bus

/-! ## What the chain asks for -/

namespace Chain

/-- By `now` the gap behind a frame is over, alone or with a reclaim window. -/
def GapOver (chain : Chain) (packetEnd now : UInt32) : Prop :=
  tickReached now (packetEnd + chain.replyGap) = true ∨
    tickReached now (packetEnd + chain.replyGap + chain.reclaim) = true

instance (chain : Chain) (packetEnd now : UInt32) : Decidable (chain.GapOver packetEnd now) :=
  inferInstanceAs (Decidable (_ ∨ _))

theorem GapOver.congr {chain chain' : Chain} {packetEnd now : UInt32}
    (h : chain.GapOver packetEnd now) (htiming : chain'.timing = chain.timing) :
    chain'.GapOver packetEnd now := by
  simp only [timing, Prod.mk.injEq] at htiming
  rw [GapOver, htiming.1, htiming.2.1]
  exact h

end Chain

/-! ## Phases -/

/-- Where the reply of the servo is. -/
inductive Phase where
  | idle
  /-- Staged ahead of the verdict on its frame. -/
  | held
  /-- Handed to the chain, which looks at it again at `due`. -/
  | sequenced (due : UInt32)
  | sending
  deriving DecidableEq, Repr

/-- How a reply may move on in one step. -/
inductive Phase.Moves : Act → Phase → Phase → Prop
  | rest {act : Act} {phase : Phase} : Phase.Moves act phase phase
  /-- A frame is dispatched ahead of its verdict. -/
  | hold {late : UInt32} : Phase.Moves (.drive late) .idle .held
  /-- A frame ends that has no reply, or whose verdict fails. -/
  | drop {late : UInt32} {phase : Phase} (h : phase ≠ .sending) :
      Phase.Moves (.drive late) phase .idle
  | sequence {late : UInt32} {phase : Phase} {due : UInt32} (h : phase ≠ .sending) :
      Phase.Moves (.drive late) phase (.sequenced due)
  | start {late : UInt32} {phase : Phase} (h : phase ≠ .sending) :
      Phase.Moves (.drive late) phase .sending
  /-- The host has moved past the frame of a reply. -/
  | kill {fresh : Bool} {now due : UInt32} :
      Phase.Moves (.breakTail fresh now) (.sequenced due) .idle
  /-- A predecessor is alive. -/
  | suspend {fresh : Bool} {now due due' : UInt32} :
      Phase.Moves (.breakTail fresh now) (.sequenced due) (.sequenced due')
  | lapse {fresh : Bool} {now due : UInt32} :
      Phase.Moves (.breakTail fresh now) (.sequenced due) .sending
  /-- A predecessor stayed silent. -/
  | reclaim {now due due' : UInt32} (h : tickReached now due = true) :
      Phase.Moves (.chainDue now) (.sequenced due) (.sequenced due')
  | trigger {now due : UInt32} (h : tickReached now due = true) :
      Phase.Moves (.chainDue now) (.sequenced due) .sending
  | rescue {phase : Phase} (h : phase ≠ .sending) : Phase.Moves .rescue phase .idle
  | release : Phase.Moves .txComplete .sending .idle

namespace ServoBus

/-- What the three machines say of a reply in this phase. -/
def InPhase (bus : ServoBus) : Phase → Prop
  | .idle => bus.tx.busy = false ∧ bus.chain.active = false
  | .held => bus.tx.staged = true ∧ bus.chain.active = false ∧
      ∃ p, bus.pending = some p ∧ p.staged = true
  | .sequenced due => bus.tx.staged = true ∧ bus.chain.active = true ∧
      bus.chainAt = some due ∧ bus.pending = none
  | .sending => bus.tx.streaming = true ∧ bus.chain.active = false ∧ bus.pending = none

variable {bus bus' : ServoBus} {phase : Phase}

theorem InPhase.congr (h : bus.InPhase phase) (htx : bus'.tx = bus.tx)
    (hchain : bus'.chain = bus.chain) (hchainAt : bus'.chainAt = bus.chainAt)
    (hpending : bus'.pending = bus.pending) : bus'.InPhase phase := by
  cases phase <;> simpa only [InPhase, htx, hchain, hchainAt, hpending] using h

/-- A reply is in one phase at a time. -/
theorem InPhase.unique {other : Phase} (h : bus.InPhase phase) (h' : bus.InPhase other) :
    other = phase := by
  have hbusy := bus.tx.busy_eq
  have hstreaming := @TxEngine.not_staged_of_streaming bus.tx
  cases phase <;> cases other <;> simp_all [InPhase]

theorem InPhase.parked (h : bus.InPhase phase) (hpending : bus.pending = none) : bus.Parked := by
  have hbusy := bus.tx.busy_eq
  have hstreaming := @TxEngine.not_staged_of_streaming bus.tx
  cases phase <;> simp_all [InPhase, Parked]

/-- An active chain has its reply in the transmitter, and no frame is pending. -/
theorem InPhase.of_active (h : bus.InPhase phase) (hactive : bus.chain.active = true) :
    bus.tx.staged = true ∧ bus.pending = none ∧ ∃ due, phase = .sequenced due ∧
      bus.chainAt = some due := by
  cases phase with
  | sequenced due => exact ⟨h.1, h.2.2.2, due, rfl, h.2.2.1⟩
  | idle => simp [h.2] at hactive
  | held => simp [h.2.1] at hactive
  | sending => simp [h.2.1] at hactive

theorem InPhase.eq_sending (h : bus.InPhase phase) (hstreaming : bus.tx.streaming = true) :
    phase = .sending := by
  have hbusy := bus.tx.busy_eq
  have hstaged := TxEngine.not_staged_of_streaming hstreaming
  cases phase <;> simp_all [InPhase]

theorem InPhase.sequenced_of_staged (h : bus.InPhase phase) (hstaged : bus.tx.staged = true)
    (hpending : bus.pending = none) : ∃ due, phase = .sequenced due := by
  obtain ⟨-, -, due, hdue, -⟩ := h.of_active (h.parked hpending hstaged)
  exact ⟨due, hdue⟩

/-- Nothing staged and no chain: the reply is on the wire or there is none. -/
theorem inPhase_of_unstaged (hstaged : bus.tx.staged = false) (hchain : bus.chain.active = false)
    (hpending : bus.pending = none) :
    bus.InPhase (if bus.tx.streaming then .sending else .idle) := by
  have hbusy := bus.tx.busy_eq
  cases hstreaming : bus.tx.streaming with
  | true => exact ⟨hstreaming, hchain, hpending⟩
  | false => exact ⟨by rw [hbusy, hstaged, hstreaming]; rfl, hchain⟩

/-! ## Sequencing -/

/-- A wait of the chain over a staged reply: it is sequenced or on the wire, the
latter only if what was waited for is reached. -/
theorem inPhase_routeChain {due : UInt32} (hstaged : bus.tx.staged = true)
    (hpending : bus.pending = none) (hactive : bus.chain.active = true) :
    ((∃ due', (bus.routeChain (.wait due)).InPhase (.sequenced due')) ∨
        (bus.routeChain (.wait due)).InPhase .sending ∧ tickReached bus.now due = true) ∧
      (bus.routeChain (.wait due)).chain.timing = bus.chain.timing := by
  have hkept : (bus.routeChain (.wait due)).pending = none := by
    obtain ⟨_, _, _, _, h⟩ := bus.routeChain_eq (.wait due)
    rw [h]
    exact hpending
  obtain ⟨hends, htiming⟩ :=
    @routeChainLoop_wait bus (bus.chain.turns + 2) due hactive (by omega)
  refine ⟨?_, htiming⟩
  obtain ⟨next, hstill, -, hslot, -, htx⟩ | ⟨hidle, -, hstarts, hreached⟩ := hends
  · exact .inl ⟨next, (congrArg TxEngine.staged htx).trans hstaged, hstill, hslot, hkept⟩
  · exact .inr ⟨⟨hstarts hstaged, hidle, hkept⟩, hreached⟩

/-! ## The end of a frame -/

/-- What the end of a frame makes of the reply: none is held any longer, one on
the wire stays there, and one is started only once its gap is over. -/
structure Settles (bus bus' : ServoBus) (packetEnd : UInt32) : Prop where
  phase : ∃ phase, phase ≠ .held ∧ bus'.InPhase phase
  streaming : bus.tx.streaming = true → bus'.tx.streaming = true
  started : bus'.tx.streaming = true →
    bus.tx.streaming = true ∨ bus'.chain.GapOver packetEnd bus.now

variable {packetEnd : UInt32}

theorem Settles.of_eq {before : ServoBus} (h : bus.Settles bus' packetEnd)
    (hstreaming : bus.tx.streaming = before.tx.streaming) (hnow : bus.now = before.now) :
    before.Settles bus' packetEnd := by
  obtain ⟨hphase, hkept, hstarted⟩ := h
  rw [hstreaming] at hkept hstarted
  rw [hnow] at hstarted
  exact ⟨hphase, hkept, hstarted⟩

theorem Settles.of_inPhase (h : bus'.InPhase phase) (hheld : phase ≠ .held)
    (hstreaming : bus'.tx.streaming = bus.tx.streaming) : bus.Settles bus' packetEnd :=
  ⟨⟨phase, hheld, h⟩, fun hbefore => hstreaming.trans hbefore,
    fun hafter => Or.inl (hstreaming.symm.trans hafter)⟩

/-- Nothing staged is left and the chain is given up. -/
theorem settles_of_unstaged (hstaged : bus'.tx.staged = false)
    (hchain : bus'.chain.active = false) (hpending : bus'.pending = none)
    (hstreaming : bus'.tx.streaming = bus.tx.streaming) : bus.Settles bus' packetEnd := by
  refine .of_inPhase (inPhase_of_unstaged hstaged hchain hpending) ?_ hstreaming
  split <;> simp

theorem settles_dropStaged (hpending : bus.pending = none) :
    bus.Settles bus.dropStaged packetEnd :=
  settles_of_unstaged (staged_dropStaged bus) rfl hpending (streaming_dropStaged bus)

/-- A wait over a staged reply. -/
theorem settles_routeChain {bus : ServoBus} {due : UInt32} (hstaged : bus.tx.staged = true)
    (hpending : bus.pending = none) (hactive : bus.chain.active = true)
    (hdue : tickReached bus.now due = true → bus.chain.GapOver packetEnd bus.now) :
    bus.Settles (bus.routeChain (.wait due)) packetEnd := by
  have hidle : bus.tx.streaming = true → False := fun h => by
    simp [TxEngine.not_staged_of_streaming h] at hstaged
  obtain ⟨hphase, htiming⟩ := @inPhase_routeChain bus due hstaged hpending hactive
  refine ⟨?_, fun h => (hidle h).elim, fun hafter => Or.inr ?_⟩
  · obtain ⟨due', hsequenced⟩ | ⟨hsending, -⟩ := hphase
    · exact ⟨.sequenced due', by simp, hsequenced⟩
    · exact ⟨.sending, by simp, hsending⟩
  · obtain ⟨due', hsequenced⟩ | ⟨-, hreached⟩ := hphase
    · have hstill := hsequenced.1
      simp [TxEngine.not_staged_of_streaming hafter] at hstill
    · exact (hdue hreached).congr htiming

theorem settles_sequenceReply {bus : ServoBus} (hstaged : bus.tx.staged = true)
    (hpending : bus.pending = none) (chip : Chip) (slot : ℕ) (packetEnd : UInt32) :
    bus.Settles (bus.sequenceReply chip slot packetEnd) packetEnd := by
  simp only [sequenceReply, Chain.onReplyStaged]
  split
  · exact Settles.of_eq (settles_routeChain hstaged hpending rfl Or.inl) rfl rfl
  · exact Settles.of_eq (settles_routeChain hstaged hpending rfl Or.inr) rfl rfl

end ServoBus

namespace World

open ServoBus

variable {σ : Type} [ConfigStore σ] (chip : Chip) (w : World σ) {phase : Phase}

omit [ConfigStore σ] in
theorem settles_sequenced {staged : Bool} (h : w.bus.tx.staged = true → staged = true)
    (hchain : w.bus.chain.active = false) (hpending : w.bus.pending = none) (slot : ℕ)
    (packetEnd : UInt32) :
    w.bus.Settles (w.sequenced chip staged slot packetEnd).bus packetEnd := by
  simp only [sequenced]
  split
  · rename_i hboth
    exact settles_sequenceReply (Bool.and_eq_true_iff.mp hboth).2 hpending chip slot packetEnd
  · rename_i hskip
    refine settles_of_unstaged ?_ hchain hpending rfl
    cases hstaged : w.bus.tx.staged with
    | false => rfl
    | true => simp [hstaged, h hstaged] at hskip

omit [ConfigStore σ] in
theorem commit_same : w.commit.bus.pending = w.bus.pending ∧ w.commit.bus.now = w.bus.now := by
  obtain ⟨h, hbus, -⟩ := w.commit_eq
  rw [hbus]
  exact ⟨rfl, rfl⟩

omit [ConfigStore σ] in
/-- The same with or without a write to commit first. -/
theorem settles_committed {staged table : Bool} (h : w.bus.tx.staged = true → staged = true)
    (hchain : w.bus.chain.active = false) (hpending : w.bus.pending = none) (slot : ℕ)
    (packetEnd : UInt32) :
    w.bus.Settles ((if table then w.commit else w).sequenced chip staged slot packetEnd).bus
      packetEnd := by
  cases table with
  | false => exact settles_sequenced chip w h hchain hpending slot packetEnd
  | true =>
      obtain ⟨hkept, hnow⟩ := w.commit_same
      refine (settles_sequenced chip w.commit ?_ hchain (hkept.trans hpending) slot
        packetEnd).of_eq ?_ hnow
      · rw [tx_commit]
        exact h
      · rw [tx_commit]

omit [ConfigStore σ] in
theorem now_accepted (bus : ServoBus) (anchor footprint : ℕ) :
    (accepted bus anchor footprint).now = bus.now := by
  obtain ⟨_, h, -⟩ := ServoBus.driftNoteVerified_eq
    ({ bus with
      security := bus.judged anchor footprint
      framer := bus.framer.onFrameVerified } : ServoBus) anchor footprint
  rw [accepted, h]

omit [ConfigStore σ] in
theorem settles_verify {p : Pending} (h : w.bus.tx.staged = true → p.staged = true)
    (hchain : w.bus.chain.active = false) (hpending : w.bus.pending = none) :
    w.bus.Settles (verify chip p w).bus p.packetEnd := by
  rw [verify_eq]
  split
  · split
    · obtain ⟨htx, hsame, hkept⟩ := pipeline_accepted w.bus p.anchor p.footprint
      have hpassed := @settles_committed _ chip
        (World.mk (accepted w.bus p.anchor p.footprint) w.disp) p.staged p.table
        (by rw [htx]; exact h) (by rw [hsame]; exact hchain) (hkept.trans hpending) p.slot
        p.packetEnd
      exact hpassed.of_eq (congrArg TxEngine.streaming htx) (now_accepted _ _ _)
    · have hdropped := @settles_dropStaged (refused w.bus p.anchor p.footprint) p.packetEnd hpending
      exact hdropped.of_eq rfl rfl
  · exact settles_of_unstaged (staged_dropStaged w.bus) rfl hpending (streaming_dropStaged w.bus)

/-- A whole frame on the speculative path. -/
theorem settles_routeSpine {span : FrameSpan} (hspeculates : w.speculates span.anchor = true)
    (hpending : w.bus.pending = none) :
    w.bus.Settles (routeSpine chip span true w).bus span.packetEnd := by
  obtain ⟨hquiet, hstaged⟩ := w.pipeline_spined hspeculates
  obtain ⟨handle, hbus, -⟩ := (w.spined span).dispatchDecoded_eq span.anchor span.footprint
  have hbefore := (w.idle_of_speculates hspeculates).1.2
  have hkept : ((w.spined span).dispatchDecoded span.anchor span.footprint).2.bus.pending = none ∧
      ((w.spined span).dispatchDecoded span.anchor span.footprint).2.bus.now = w.bus.now := by
    rw [hbus]
    exact ⟨hpending, rfl⟩
  rw [routeSpine_eq]
  split
  · rename_i staged slot out w' hout
    rw [hout] at hquiet hstaged hkept
    have hflag : w'.bus.tx.staged = true → staged = true := by
      intro h
      obtain ⟨_, _, hsome⟩ := hstaged h
      cases hsome
      rfl
    exact (settles_verify (p := ⟨span.anchor, span.footprint, span.packetEnd, slot, staged,
      out == .pending⟩) chip w' hflag hquiet.1 hkept.1).of_eq (hquiet.2.trans hbefore.symm) hkept.2
  · rename_i w' hout
    rw [hout] at hquiet hstaged hkept
    have hflag : w'.bus.tx.staged = true → false = true := by
      intro h
      obtain ⟨_, _, hsome⟩ := hstaged h
      cases hsome
    exact (settles_verify (p := ⟨span.anchor, span.footprint, span.packetEnd, 0, false, false⟩)
      chip w' hflag hquiet.1 hkept.1).of_eq (hquiet.2.trans hbefore.symm) hkept.2

theorem settles_routeAccepted (span : FrameSpan) (hpending : w.bus.pending = none) :
    w.bus.Settles (w.routeAccepted chip span).bus span.packetEnd := by
  obtain ⟨htx, -, hsame⟩ := pipeline_accepted w.bus span.anchor span.footprint
  obtain ⟨hstreaming, hchain, hstaged⟩ := (w.admitted span).stages_dispatchDecoded
    (staged_dropStaged _) span.anchor span.footprint
  obtain ⟨handle, hbus, -⟩ := (w.admitted span).dispatchDecoded_eq span.anchor span.footprint
  have hkept : ((w.admitted span).dispatchDecoded span.anchor span.footprint).2.bus.pending =
      none ∧ ((w.admitted span).dispatchDecoded span.anchor span.footprint).2.bus.now =
        w.bus.now := by
    rw [hbus]
    exact ⟨hsame.trans hpending, now_accepted w.bus span.anchor span.footprint⟩
  have hbefore : ((w.admitted span).dispatchDecoded span.anchor
      span.footprint).2.bus.tx.streaming = w.bus.tx.streaming := by
    rw [hstreaming, ← htx]
    exact streaming_dropStaged _
  have hidle : ((w.admitted span).dispatchDecoded span.anchor span.footprint).2.bus.chain.active =
      false := by
    rw [hchain]
    rfl
  simp only [routeAccepted]
  split
  · rename_i w' hout
    rw [hout] at hstaged hkept hbefore hidle
    refine settles_of_unstaged ?_ hidle hkept.1 hbefore
    by_contra h
    obtain ⟨_, _, hsome⟩ := hstaged (by simpa using h)
    cases hsome
  · rename_i staged slot out w' hout
    rw [hout] at hstaged hkept hbefore hidle
    have hflag : w'.bus.tx.staged = true → staged = true := by
      intro h
      obtain ⟨_, _, hsome⟩ := hstaged h
      cases hsome
      rfl
    exact (settles_committed chip w' hflag hidle hkept.1 slot span.packetEnd).of_eq hbefore hkept.2

theorem settles_routeVerdictFirst {span : FrameSpan} (hspan : 2 ≤ span.footprint)
    (h : w.bus.InPhase phase) (hheld : phase ≠ .held) (hpending : w.bus.pending = none) :
    w.bus.Settles (routeVerdictFirst chip span w).bus span.packetEnd := by
  rw [routeVerdictFirst_eq chip w hspan]
  split
  · split
    · exact (settles_routeAccepted chip (w.fed span) span hpending).of_eq rfl rfl
    · exact .of_inPhase (h.congr rfl rfl rfl rfl) hheld rfl
  · exact .of_inPhase (h.congr rfl rfl rfl rfl) hheld rfl

omit [ConfigStore σ] in
/-- A status frame moves the chain of the reply it was waited for. -/
theorem settles_routeStatus (span : FrameSpan) (h : w.bus.InPhase phase) (hheld : phase ≠ .held) :
    w.bus.Settles (w.routeStatus span true).bus span.packetEnd := by
  simp only [routeStatus, if_true]
  cases hactive : w.bus.chain.active with
  | false =>
      have hstate : w.bus.chain.state = .idle := by simpa [Chain.active] using hactive
      simp only [Chain.onStatusEnd, hstate]
      exact .of_inPhase (h.congr rfl rfl rfl rfl) hheld rfl
  | true =>
      obtain ⟨hstaged, hpending, -⟩ := h.of_active hactive
      simp only [Chain.onStatusEnd]
      split
      · split
        · exact Settles.of_eq (settles_routeChain hstaged hpending rfl Or.inl) rfl rfl
        · exact Settles.of_eq (settles_routeChain hstaged hpending rfl Or.inr) rfl rfl
      · exact .of_inPhase (h.congr rfl rfl rfl rfl) hheld rfl

theorem settles_routeFrame {span : FrameSpan} (hspan : 2 ≤ span.footprint)
    (h : w.bus.InPhase phase) (hheld : phase ≠ .held) (hpending : w.bus.pending = none) :
    w.bus.Settles (routeFrame chip span true w).bus span.packetEnd := by
  simp only [routeFrame]
  split
  · exact w.settles_routeStatus span h hheld
  · split
    · rename_i hspeculates
      exact settles_routeSpine chip w hspeculates hpending
    · simp only [Bool.not_true, Bool.false_eq_true, if_false]
      exact settles_routeVerdictFirst chip w hspan h hheld hpending

/-- The end of the frame that a reply to it is timed by: the one the covered
checkpoint foresaw, if its verdict falls due here. -/
def timedEnd (span : FrameSpan) : UInt32 :=
  ((w.dueVerdict span).map Pending.packetEnd).getD span.packetEnd

theorem settles_onFrameEnd {span : FrameSpan} (hspan : 2 ≤ span.footprint)
    (h : w.bus.InPhase phase) :
    w.bus.Settles (onFrameEnd chip span w).bus (w.timedEnd span) := by
  rw [onFrameEnd_eq, timedEnd]
  cases hverdict : w.dueVerdict span with
  | some p =>
      have hpending : w.bus.pending = some p := (Option.filter_eq_some_iff.mp hverdict).1
      have hwaits : w.bus.chain.active = false ∧ (w.bus.tx.staged = true → p.staged = true) := by
        cases phase with
        | idle =>
            have hbusy := h.1
            rw [TxEngine.busy_eq, Bool.or_eq_false_iff] at hbusy
            exact ⟨h.2, fun hstaged => by simp [hbusy.1] at hstaged⟩
        | held =>
            obtain ⟨-, hchain, p', hp', hstaged⟩ := h
            obtain rfl : p' = p := Option.some.inj (hp'.symm.trans hpending)
            exact ⟨hchain, fun _ => hstaged⟩
        | sequenced due => cases h.2.2.2.symm.trans hpending
        | sending => cases h.2.2.symm.trans hpending
      exact (settles_verify chip { w with bus := { w.bus with pending := none } } hwaits.2 hwaits.1
        rfl).of_eq rfl rfl
  | none =>
      have hentered : ∃ phase, phase ≠ Phase.held ∧ w.entering.bus.InPhase phase := by
        simp only [entering]
        split
        · exact ((@settles_dropStaged { w.bus with pending := none } 0) rfl).phase
        · rename_i hsome
          have hnone : w.bus.pending = none := by simpa using hsome
          refine ⟨phase, ?_, h.congr rfl rfl rfl hnone.symm⟩
          rintro rfl
          obtain ⟨-, -, p, hp, -⟩ := h
          cases hnone.symm.trans hp
      obtain ⟨entered, hheld, hentered⟩ := hentered
      have hnone : w.entering.bus.pending = none := by
        simp only [entering]
        split <;> rfl
      refine (settles_routeFrame chip w.entering hspan hentered hheld hnone).of_eq ?_ ?_
      · simp only [entering]
        split
        · exact streaming_dropStaged _
        · rfl
      · simp only [entering]
        split <;> rfl

/-! ## One step -/

/-- What a reply that starts in a step has waited for. -/
def Timely (act : Act) (w' : World σ) : Prop :=
  match act with
  | .chainDue now => due now w.bus.chainAt = true
  | .drive late => ∃ span, w.resolved = .frame span ∧
      w'.bus.chain.GapOver (w.timedEnd span) late
  | .breakTail _ now => w.bus.chain.waiting = true ∧
      tickReached w.bus.now (now + w.bus.chain.allowance) = true
  | _ => False

/-- The step is a move of the reply, and starts it only in time. -/
def Advances (act : Act) (phase : Phase) (w' : World σ) : Prop :=
  ∃ next, Phase.Moves act phase next ∧ w'.bus.InPhase next ∧
    (next = .sending → phase = .sending ∨ w.Timely act w')

variable {w}

omit [ConfigStore σ] in
theorem Advances.rest {act : Act} {w' : World σ} (h : w'.bus.InPhase phase) :
    w.Advances act phase w' :=
  ⟨phase, .rest, h, Or.inl⟩

/-- The end of a frame. -/
theorem advances_frame {late : UInt32} {span : FrameSpan} (hin : w.InRing)
    (h : w.bus.InPhase phase) (hout : w.resolved = .frame span) :
    w.Advances (.drive late) phase (step chip w (.drive late)) := by
  have hleast := (fits_of_resolved hin (by rw [hout]; rfl)).least
  have hresolving : (w.resolving late).bus.InPhase phase := h.congr rfl rfl rfl rfl
  obtain ⟨⟨next, hheld, hnext⟩, hkept, hstarted⟩ :=
    settles_onFrameEnd chip (w.resolving late) (show 2 ≤ span.footprint by omega) hresolving
  have hstep := step_drive chip w late
  rw [hout] at hstep
  simp only at hstep
  rw [← hstep] at hnext hkept hstarted
  refine ⟨next, ?_, hnext, ?_⟩
  · by_cases hsending : phase = .sending
    · subst hsending
      obtain rfl := hnext.eq_sending (hkept h.1)
      exact .rest
    · cases next with
      | idle => exact .drop hsending
      | held => exact absurd rfl hheld
      | sequenced due => exact .sequence hsending
      | sending => exact .start hsending
  · rintro rfl
    refine (hstarted hnext.1).imp (fun hstreaming => h.eq_sending hstreaming) fun hgap => ?_
    exact ⟨span, hout, hgap⟩

/-- A covered checkpoint. -/
theorem advances_covered {late due : UInt32} {span : FrameSpan} (hin : w.InRing)
    (h : w.bus.InPhase phase) (hout : w.resolved = .covered span due) :
    w.Advances (.drive late) phase (step chip w (.drive late)) := by
  have hfits := fits_of_resolved hin (by rw [hout]; rfl)
  have hstep := step_drive chip w late
  rw [hout] at hstep
  simp only at hstep
  rw [hstep]
  have hbefore : ((w.resolving late).onBus fun bus =>
      { bus with framerAt := some due }).bus.InPhase phase := h.congr rfl rfl rfl rfl
  generalize hworld : ((w.resolving late).onBus fun bus => { bus with framerAt := some due }) =
    entered at hbefore
  have hring : Fits entered.bus.ring span := by
    rw [← hworld]
    exact hfits
  cases hspeculates : entered.speculates span.anchor with
  | false =>
      have hsame : routeFrame chip span false entered = entered := by
        simp [routeFrame, routeStatus, hspeculates]
      rw [hsame]
      exact .rest hbefore
  | true =>
      obtain ⟨hquiet, -, hidle⟩ := entered.idle_of_speculates hspeculates
      obtain rfl := (show entered.bus.InPhase .idle from ⟨hidle, hquiet.1⟩).unique hbefore
      cases hopens : entered.opensAt span with
      | false =>
          obtain ⟨-, -, htx, hchain⟩ := covered_of_not_opensAt chip entered hopens
          refine .rest ⟨?_, ?_⟩
          · rw [htx]
            exact hidle
          · rw [hchain]
            exact hquiet.1
      | true =>
          obtain ⟨p, -, -, -, hpending, -, -, hquiet', hstaged, -⟩ :=
            covered_of_opensAt chip entered hring hopens
          cases hreply : (routeFrame chip span false entered).bus.tx.staged with
          | true => exact ⟨.held, .hold, ⟨hreply, hquiet'.1, p, hpending, hstaged hreply⟩, by simp⟩
          | false =>
              refine .rest ⟨?_, hquiet'.1⟩
              rw [TxEngine.busy_eq, hreply, hquiet'.2]
              rfl

theorem advances_drive (hin : w.InRing) (h : w.bus.InPhase phase) (late : UInt32) :
    w.Advances (.drive late) phase (step chip w (.drive late)) := by
  cases hout : w.resolved with
  | frame span => exact advances_frame chip hin h hout
  | covered span due => exact advances_covered chip hin h hout
  | none | wait due =>
      have hstep := step_drive chip w late
      rw [hout] at hstep
      simp only at hstep
      rw [hstep]
      exact .rest (h.congr rfl rfl rfl rfl)

omit [ConfigStore σ] in
/-- A break puts a waiting chain off; what it observes moves no other reply. -/
theorem inPhase_observed {bus : ServoBus} (h : bus.InPhase phase) (now : UInt32) :
    (bus.routeChain (bus.chain.onBreakObserved now)).InPhase phase ∨
      ∃ due, phase = .sequenced due ∧
        ((∃ due', (bus.routeChain (bus.chain.onBreakObserved now)).InPhase (.sequenced due')) ∨
          (bus.routeChain (bus.chain.onBreakObserved now)).InPhase .sending ∧
            bus.chain.waiting = true ∧ tickReached bus.now (now + bus.chain.allowance) = true) := by
  simp only [Chain.onBreakObserved]
  split
  · rename_i remaining silent hstate
    have hactive : bus.chain.active = true := by simp [Chain.active, hstate]
    have hwaiting : bus.chain.waiting = true := by simp [Chain.waiting, hstate]
    obtain ⟨hstaged, hpending, due, rfl, -⟩ := h.of_active hactive
    refine Or.inr ⟨due, rfl, ?_⟩
    obtain ⟨hphase, -⟩ :=
      @inPhase_routeChain bus (now + bus.chain.allowance) hstaged hpending hactive
    exact hphase.imp (fun h => h) fun h => ⟨h.1, hwaiting, h.2⟩
  · exact Or.inl h

omit [ConfigStore σ] in
theorem advances_breakTail (h : w.bus.InPhase phase) (fresh : Bool) (now : UInt32) :
    w.Advances (.breakTail fresh now) phase (w.onBus fun bus => bus.breakTail fresh now) := by
  simp only [onBus, breakTail]
  generalize hchecked : (if (!fresh && w.bus.framerAt.isNone) = true then
    { w.bus with framerAt := some (now + w.bus.tpb) } else w.bus : ServoBus) = checked
  have hsame : checked.InPhase phase ∧ checked.chain = w.bus.chain ∧ checked.now = w.bus.now := by
    rw [← hchecked]
    split
    · exact ⟨h.congr rfl rfl rfl rfl, rfl, rfl⟩
    · exact ⟨h, rfl, rfl⟩
  obtain ⟨hphase, hchain, hnow⟩ := hsame
  cases hkills : checked.killsReply with
  | true =>
      -- what is killed was sequenced, and the chain has nothing left to observe
      simp only [killsReply, Bool.and_eq_true, Option.isNone_iff_eq_none] at hkills
      obtain ⟨due, rfl⟩ := hphase.sequenced_of_staged hkills.1.1.1.1 hkills.1.2
      exact ⟨.idle, .kill, ⟨checked.tx.busy_abort, rfl⟩, by simp⟩
  | false =>
      simp only [Bool.false_eq_true, if_false]
      obtain hkept | ⟨due, rfl, ⟨due', hsequenced⟩ | ⟨hsending, hwaiting, hreached⟩⟩ :=
        inPhase_observed hphase now
      · exact .rest (hkept.congr rfl rfl rfl rfl)
      · exact ⟨.sequenced due', .suspend, hsequenced.congr rfl rfl rfl rfl, by simp⟩
      · rw [hchain, hnow] at hreached
        rw [hchain] at hwaiting
        exact ⟨.sending, .lapse, hsending.congr rfl rfl rfl rfl,
          fun _ => Or.inr ⟨hwaiting, hreached⟩⟩

omit [ConfigStore σ] in
theorem advances_chainDue (h : w.bus.InPhase phase) (now : UInt32) :
    w.Advances (.chainDue now) phase (w.onBus fun bus => bus.chainDue now) := by
  simp only [onBus, chainDue]
  cases hdue : due now w.bus.chainAt with
  | false => exact .rest h
  | true =>
      simp only [if_true]
      cases hactive : w.bus.chain.active with
      | false =>
          rw [Chain.onDeadline_idle hactive]
          have hidle : ∀ due, phase ≠ .sequenced due := by
            rintro due rfl
            cases hactive.symm.trans h.2.1
          refine .rest ?_
          cases phase with
          | sequenced due => exact absurd rfl (hidle due)
          | idle | held | sending => exact h
      | true =>
          obtain ⟨hstaged, hpending, at', rfl, hat⟩ := h.of_active hactive
          have hreached : tickReached now at' = true := by
            rw [hat] at hdue
            exact hdue
          obtain ⟨silent, hdeadline⟩ | ⟨chain', due', hdeadline, hactive', -, -⟩ :=
            Chain.onDeadline_cases hactive now
          · rw [hdeadline]
            refine ⟨.sending, .trigger hreached, ⟨?_, rfl, hpending⟩, fun _ => Or.inr hdue⟩
            exact TxEngine.streaming_trigger hstaged w.bus.crc _
          · rw [hdeadline]
            obtain ⟨⟨due'', hsequenced⟩ | ⟨hsending, -⟩, -⟩ :=
              @inPhase_routeChain { w.bus with chainAt := none, chain := chain' } due' hstaged
                hpending hactive'
            · exact ⟨.sequenced due'', .reclaim hreached, hsequenced, by simp⟩
            · exact ⟨.sending, .trigger hreached, hsending, fun _ => Or.inr hdue⟩

omit [ConfigStore σ] in
theorem advances_rescue (h : w.bus.InPhase phase) :
    w.Advances .rescue phase (w.onBus fun bus => bus.onRescueBreak chip) := by
  simp only [onBus, onRescueBreak]
  cases hstreaming : w.bus.tx.streaming with
  | true => exact .rest h
  | false =>
      refine ⟨.idle, .rescue ?_, ⟨w.bus.tx.busy_abort, rfl⟩, by simp⟩
      rintro rfl
      cases hstreaming.symm.trans h.1

omit [ConfigStore σ] in
theorem advances_txComplete (h : w.bus.InPhase phase) :
    w.Advances .txComplete phase (w.onBus fun bus => bus.onTxComplete chip) := by
  have hsame : (w.bus.onTxComplete chip).tx = (w.bus.tx.onArmComplete w.bus.crc).2.1 ∧
      (w.bus.onTxComplete chip).chain = w.bus.chain ∧
      (w.bus.onTxComplete chip).chainAt = w.bus.chainAt ∧
      (w.bus.onTxComplete chip).pending = w.bus.pending := by
    simp only [onTxComplete]
    split
    · exact ⟨rfl, rfl, rfl, rfl⟩
    · split <;> split <;> exact ⟨rfl, rfl, rfl, rfl⟩
  obtain ⟨htx, hchain, hchainAt, hpending⟩ := hsame
  cases hstreaming : w.bus.tx.streaming with
  | false =>
      -- a completion nobody waits for leaves the transmitter alone
      refine .rest (h.congr (htx.trans ?_) hchain hchainAt hpending)
      simp only [TxEngine.streaming] at hstreaming
      simp only [TxEngine.onArmComplete]
      split
      · rename_i hstate
        simp [hstate] at hstreaming
      · rfl
  | true =>
      obtain rfl := h.eq_sending hstreaming
      cases hmore : (w.bus.tx.onArmComplete w.bus.crc).2.1.streaming with
      | true =>
          refine .rest ⟨?_, ?_, hpending.trans h.2.2⟩
          · exact (congrArg TxEngine.streaming htx).trans hmore
          · exact (congrArg Chain.active hchain).trans h.2.1
      | false =>
          refine ⟨.idle, .release, ⟨?_, (congrArg Chain.active hchain).trans h.2.1⟩, by simp⟩
          refine (congrArg TxEngine.busy htx).trans ?_
          rw [TxEngine.busy_eq, hmore, Bool.or_false]
          simp only [TxEngine.streaming] at hstreaming
          simp only [TxEngine.onArmComplete]
          split
          · split
            · rfl
            · rfl
          · rename_i hstate
            split at hstreaming
            · rename_i next hnext
              exact absurd hnext (hstate next)
            · cases hstreaming

/-- Every step of the transport is a move of its reply. -/
theorem advances_step (hin : w.InRing) (h : w.bus.InPhase phase) (act : Act) :
    w.Advances act phase (step chip w act) := by
  cases act with
  | drive late => exact advances_drive chip hin h late
  | breakTail fresh now => exact advances_breakTail h fresh now
  | chainDue now => exact advances_chainDue h now
  | rescue => exact advances_rescue chip h
  | txComplete => exact advances_txComplete chip h
  | calBreak =>
      simp only [step, onBus]
      split
      · simp only [onCalBreak]
        split <;> exact .rest (h.congr rfl rfl rfl rfl)
      · exact .rest h
  | breakHead =>
      simp only [step, onBus, breakHead]
      split <;> exact .rest (h.congr rfl rfl rfl rfl)
  | framerDue =>
      simp only [step, onBus, framerDue]
      split <;> exact .rest (h.congr rfl rfl rfl rfl)
  | takeReboot =>
      simp only [step, onBus, takeReboot]
      split <;> exact .rest (h.congr rfl rfl rfl rfl)
  | _ => exact .rest (h.congr rfl rfl rfl rfl)

/-! ## Every run -/

variable (w) in
/-- If the step puts a reply on the wire, it does so in time. -/
def StartsInTime (act : Act) : Prop :=
  w.bus.tx.streaming = false → (step chip w act).bus.tx.streaming = true →
    w.Timely act (step chip w act)

omit [ConfigStore σ] in
theorem inPhase_boot (ring : Ring) (now : UInt32) (id : Byte) (rate : BaudRate)
    (responseDeadlineUs : ℕ) (disp : Dispatcher σ) :
    (boot chip ring now id rate responseDeadlineUs disp).bus.InPhase .idle := ⟨rfl, rfl⟩

theorem starts_in_time (hin : w.InRing) (h : w.bus.InPhase phase) (act : Act) :
    w.StartsInTime chip act := by
  intro hbefore hafter
  obtain ⟨next, -, hnext, hstarted⟩ := advances_step chip hin h act
  obtain rfl | htimely := hstarted (hnext.eq_sending hafter)
  · cases hbefore.symm.trans h.1
  · exact htimely

/-- In every run a reply goes on the wire only when its chain slot is due, or at the end of a
frame with the gap behind it over, or at a break with the predecessor's allowance over. -/
theorem replies_start_in_time (ring : Ring) (now : UInt32) (id : Byte) (rate : BaudRate)
    (responseDeadlineUs : ℕ) (disp : Dispatcher σ) (acts : List Act) :
    Transition.Meets (step chip) (fun w act => w.StartsInTime chip act)
      (boot chip ring now id rate responseDeadlineUs disp) acts := by
  refine Transition.Meets.of_invariant (step chip)
    (fun w => w.InRing ∧ ∃ phase, w.bus.InPhase phase) ?_ ?_ ?_ acts
  · rintro w act ⟨hin, phase, h⟩
    obtain ⟨next, -, hnext, -⟩ := advances_step chip hin h act
    exact ⟨inRing_step chip hin act, next, hnext⟩
  · rintro w act ⟨hin, phase, h⟩
    exact starts_in_time chip hin h act
  · exact ⟨inRing_boot chip ring now id rate responseDeadlineUs disp, .idle,
      inPhase_boot chip ring now id rate responseDeadlineUs disp⟩

end World

end OpenServo.Bus
