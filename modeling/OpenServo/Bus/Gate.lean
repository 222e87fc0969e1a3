import OpenServo.Bus.FrameFacts
import OpenServo.Dispatch.ReplyFacts
import OpenServo.Security.Verdict

/-!
# The two gates

The CRC verdict and the authenticity verdict of a frame end, as functions of
the ring, the CRC engine and the security context alone, and what the two make
of the security context.
-/

namespace OpenServo.Bus

open Security

/-! ## The authenticity gate -/

namespace ServoBus

/-- A frame as the message plane sees it. -/
def presented (bus : ServoBus) (anchor footprint : ℕ) : Presented where
  inst := bus.ringInst anchor
  broadcast := bus.ring.byteAt ((anchor + 1) % bus.ring.len) == Id.broadcast.byte
  covered := bus.ring.window ((anchor + 1) % bus.ring.len) (footprint - 3)

/-- Is the covered span too long to be copied for the authenticator? -/
def oversize (footprint : ℕ) : Bool := footprint - 3 > authSpanMax

/-- The security context after the verdict on a frame. -/
def judged (bus : ServoBus) (anchor footprint : ℕ) : SecurityContext :=
  let frame := bus.presented anchor footprint
  if oversize footprint then bus.security
  else
    let ctx := (bus.security.verify frame.inst frame.broadcast frame.covered).2
    if frame.inst.opcode == some .commit then ctx.closeCycle else ctx

/-- Does the authenticity gate let the frame through? -/
def authentic (bus : ServoBus) (anchor footprint : ℕ) : Bool :=
  let frame := bus.presented anchor footprint
  if oversize footprint then
    !bus.security.policy.requiresTag frame.inst && !frame.inst.authenticated
  else (bus.security.verify frame.inst frame.broadcast frame.covered).1.isPass

theorem authVerify_judged (bus : ServoBus) (anchor footprint : ℕ) :
    bus.authVerify anchor footprint =
      (bus.authentic anchor footprint, { bus with security := bus.judged anchor footprint }) := by
  have hlen : (bus.ring.len == 0) = false := beq_false_of_ne bus.ring.len_pos.ne'
  simp only [authVerify, authentic, judged, oversize, coveredSpan, presented, hlen,
    Bool.false_eq_true, if_false]
  by_cases hsize : footprint - 3 > authSpanMax
  · simp [hsize]
  · simp [hsize]

/-- The gate only looks at the ring and the security context. -/
theorem authentic_congr {bus bus' : ServoBus} (hring : bus'.ring = bus.ring)
    (hsecurity : bus'.security = bus.security) (anchor footprint : ℕ) :
    bus'.authentic anchor footprint = bus.authentic anchor footprint ∧
      bus'.judged anchor footprint = bus.judged anchor footprint := by
  have hpresented : bus'.presented anchor footprint = bus.presented anchor footprint := by
    simp only [presented, ringInst, hring]
  constructor
  · rw [authentic, authentic, hpresented, hsecurity]
  · rw [judged, judged, hpresented, hsecurity]

/-- What passes the gate carries a verified tag, or needs and shows none. -/
theorem authentic_iff (bus : ServoBus) (anchor footprint : ℕ) :
    bus.authentic anchor footprint = true ↔
      (oversize footprint = false ∧
        ∃ trailer, bus.security.TagVerified (bus.presented anchor footprint) trailer) ∨
      (oversize footprint = false ∧ bus.security.Exempt (bus.presented anchor footprint)) ∨
      (oversize footprint = true ∧
        bus.security.policy.requiresTag (bus.ringInst anchor) = false ∧
        (bus.ringInst anchor).authenticated = false) := by
  have hpass := bus.security.verify_pass_iff (bus.presented anchor footprint)
  simp only [authentic]
  cases hsize : oversize footprint with
  | true => simp [presented]
  | false =>
      simp only [Bool.false_eq_true, if_false, AuthVerdict.isPass, beq_iff_eq, hpass, true_and,
        false_and, or_false]

/-! ## The CRC gate -/

/-- The CRC verdict only looks at the ring and the engine's value. -/
theorem crcVerify_congr {bus bus' : ServoBus} (hring : bus'.ring = bus.ring)
    (hcrc : bus'.crc.result = bus.crc.result) (anchor footprint : ℕ) :
    bus'.crcVerify anchor footprint = bus.crcVerify anchor footprint := by
  simp only [crcVerify, crcTail, hring, hcrc]

/-- The CRC verdict of a frame fed afresh from the ring. -/
def freshCrc (bus : ServoBus) (anchor footprint : ℕ) : Bool :=
  (bus.crcFeed anchor footprint).crcVerify anchor footprint

theorem freshCrc_congr {bus bus' : ServoBus} (hring : bus'.ring = bus.ring)
    (hstalled : bus'.crc.stalled = bus.crc.stalled) (anchor footprint : ℕ) :
    bus'.freshCrc anchor footprint = bus.freshCrc anchor footprint := by
  refine crcVerify_congr ?_ ?_ anchor footprint
  · exact hring
  · simp only [crcFeed, hring, CrcEngine.reset, CrcEngine.feed]
    split <;> simp [CrcEngine.result, hstalled]

/-- What a verdict makes of the security context. -/
def settled (bus : ServoBus) (crcPasses : Bool) (anchor footprint : ℕ) : SecurityContext :=
  if crcPasses then
    if bus.authentic anchor footprint then bus.judged anchor footprint
    else (bus.judged anchor footprint).rollbackStream
  else bus.security.rollbackStream

end ServoBus

/-! ## The reply surface and the gates -/

instance : Reply Unit where
  sendStatus _ _ := ()
  sendStatusGather _ _ _ _ := ()
  stageId _ _ := ()
  setId _ _ := ()
  stageBaud _ _ := ()
  setResponseDeadline _ _ := ()
  stageReboot _ _ := ()
  beginClockCal _ _ _ := ()

theorem TxEngine.result_snapshotSpans (crc : CrcEngine) (off : ℕ) (spans : List (List Byte)) :
    (TxEngine.snapshotSpans crc off spans).result = crc.result := by
  induction spans generalizing crc off with
  | nil => rfl
  | cons span spans ih =>
      simp only [TxEngine.snapshotSpans]
      split
      · exact ih crc off
      · exact ih _ _

theorem TxEngine.result_stageGather (tx : TxEngine) (crc : CrcEngine) (id : Byte)
    (result : ResultCode) (alert : Bool) (spans : List (List Byte)) :
    (tx.stageGather crc id result alert spans).2.2.result = crc.result := by
  simp only [TxEngine.stageGather]
  split
  · rfl
  · split
    · rfl
    · split
      · rfl
      · exact TxEngine.result_snapshotSpans crc 0 spans

theorem ReplyHandle.result_sendGather (h : ReplyHandle) (result : ResultCode) (alert : Bool)
    (spans : List (List Byte)) : (h.sendGather result alert spans).crc.result = h.crc.result := by
  have hstage := h.tx.result_stageGather h.crc h.id result alert spans
  simp only [ReplyHandle.sendGather]
  split
  · rename_i hout
    rw [hout] at hstage
    exact hstage
  · rename_i hout
    rw [hout] at hstage
    exact hstage

/-- No reply call disturbs the value the CRC verdict polls. -/
theorem ReplyHandle.sim_result (value : Option UInt16) :
    Reply.Sim fun (h : ReplyHandle) (_ : Unit) => h.crc.result = value where
  sendStatus _ hrel := (ReplyHandle.result_sendGather _ _ _ _).trans hrel
  sendStatusGather _ _ _ hrel := (ReplyHandle.result_sendGather _ _ _ _).trans hrel
  stageId _ hrel := hrel
  setId _ hrel := hrel
  stageBaud _ hrel := hrel
  setResponseDeadline _ hrel := hrel
  stageReboot _ hrel := hrel
  beginClockCal _ _ hrel := hrel

namespace World

variable {σ : Type} [ConfigStore σ] (chip : Chip) (w : World σ)

/-- A dispatch touches the fields lent to the reply surface. -/
theorem dispatchDecoded_eq (anchor footprint : ℕ) :
    ∃ h : ReplyHandle, (w.dispatchDecoded anchor footprint).2.bus = w.bus.withHandle h ∧
      h.crc.result = w.bus.crc.result := by
  simp only [dispatchDecoded]
  split
  · rename_i req ctx slot hdecode
    have hrel := Dispatcher.rel_dispatch (ReplyHandle.sim_result w.bus.crc.result)
      (show (w.bus.replyHandle (tolerates req)).crc.result = w.bus.crc.result from rfl)
      w.disp req ctx (t := ())
    exact ⟨_, rfl, hrel.2.2⟩
  · exact ⟨w.bus.replyHandle false, rfl, rfl⟩

omit [ConfigStore σ] in
theorem commit_eq :
    ∃ h : ReplyHandle, w.commit.bus = w.bus.withHandle h ∧ h.crc.result = w.bus.crc.result := by
  have hrel := Dispatcher.rel_commit (ReplyHandle.sim_result w.bus.crc.result)
    (show (w.bus.replyHandle false).crc.result = w.bus.crc.result from rfl) w.disp (t := ())
  exact ⟨_, rfl, hrel.2⟩

@[simp]
theorem security_dispatchDecoded (anchor footprint : ℕ) :
    (w.dispatchDecoded anchor footprint).2.bus.security = w.bus.security := by
  obtain ⟨h, hbus, -⟩ := w.dispatchDecoded_eq anchor footprint
  rw [hbus]
  rfl

omit [ConfigStore σ] in
@[simp]
theorem security_commit : w.commit.bus.security = w.bus.security := by
  obtain ⟨h, hbus, -⟩ := w.commit_eq
  rw [hbus]
  rfl

/-! ## The three outcomes of a verdict -/

/-- The bus once both gates let the frame through. -/
def accepted (bus : ServoBus) (anchor footprint : ℕ) : ServoBus :=
  ({ bus with
    security := bus.judged anchor footprint
    framer := bus.framer.onFrameVerified } : ServoBus).driftNoteVerified anchor footprint

/-- The bus once the authenticity gate refused the frame. -/
def refused (bus : ServoBus) (anchor footprint : ℕ) : ServoBus :=
  { bus with
    security := (bus.judged anchor footprint).rollbackStream
    framer := bus.framer.onFrameVerified }

/-- Sequence the reply if one is still staged. -/
def sequenced (staged : Bool) (slot : ℕ) (packetEnd : UInt32) : World σ :=
  if staged && w.bus.tx.staged then { w with bus := w.bus.sequenceReply chip slot packetEnd }
  else w

omit [ConfigStore σ] in
theorem verify_eq (p : Pending) :
    verify chip p w =
      if w.bus.crcVerify p.anchor p.footprint then
        if w.bus.authentic p.anchor p.footprint then
          (if p.table then (World.mk (accepted w.bus p.anchor p.footprint) w.disp).commit
            else ⟨accepted w.bus p.anchor p.footprint, w.disp⟩).sequenced chip p.staged p.slot
              p.packetEnd
        else ⟨(refused w.bus p.anchor p.footprint).dropStaged,
          if p.table then w.disp.revert else w.disp⟩
      else ⟨w.bus.dropStaged.rejectFrame p.anchor, if p.table then w.disp.revert else w.disp⟩ := by
  simp only [verify, ServoBus.authVerify_judged]
  cases w.bus.crcVerify p.anchor p.footprint with
  | false => rfl
  | true => cases w.bus.authentic p.anchor p.footprint <;> rfl

/-- The speculative path up to the dispatch. -/
def spined (span : FrameSpan) : World σ :=
  ⟨{ w.bus.crcFeed span.anchor span.footprint with
      security := w.bus.foldedSecurity span.anchor span.footprint }, w.disp⟩

theorem routeSpine_eq (span : FrameSpan) (complete : Bool) :
    routeSpine chip span complete w =
      match (w.spined span).dispatchDecoded span.anchor span.footprint with
      | (some (staged, slot, out), w) =>
          if complete then
            verify chip ⟨span.anchor, span.footprint, span.packetEnd, slot, staged,
              out == .pending⟩ w
          else { w with bus := { w.bus with pending := some ⟨span.anchor, span.footprint,
            span.packetEnd, slot, staged, out == .pending⟩ } }
      | (none, w) =>
          if complete then
            verify chip ⟨span.anchor, span.footprint, span.packetEnd, 0, false, false⟩ w
          else w := by
  have hspined : (w.bus.crcFeed span.anchor span.footprint).securityFold span.anchor
      span.footprint = (w.spined span).bus := by
    rw [ServoBus.securityFold_eq]
    rfl
  simp only [routeSpine, hspined]
  rfl

/-- Past both gates on the verdict-first path, the stale reply dropped. -/
def admitted (span : FrameSpan) : World σ :=
  ⟨(accepted w.bus span.anchor span.footprint).dropStaged, w.disp⟩

/-- The verdict-first path after both gates. -/
def routeAccepted (span : FrameSpan) : World σ :=
  match (w.admitted span).dispatchDecoded span.anchor span.footprint with
  | (none, w) => w
  | (some (staged, slot, out), w) =>
      (if out == .pending then w.commit else w).sequenced chip staged slot span.packetEnd

/-- Feeding the CRC of the verdict-first path. -/
def fed (span : FrameSpan) : World σ := ⟨w.bus.crcFeed span.anchor span.footprint, w.disp⟩

theorem routeVerdictFirst_eq {span : FrameSpan} (h : 2 ≤ span.footprint) :
    routeVerdictFirst chip span w =
      if w.bus.freshCrc span.anchor span.footprint then
        if w.bus.authentic span.anchor span.footprint then (w.fed span).routeAccepted chip span
        else ⟨refused (w.fed span).bus span.anchor span.footprint, w.disp⟩
      else ⟨(w.fed span).bus.rejectFrame span.anchor, w.disp⟩ := by
  have hlen : (w.bus.ring.len == 0) = false := beq_false_of_ne w.bus.ring.len_pos.ne'
  have hcrc : w.bus.crcOk span.anchor span.footprint =
      (w.bus.freshCrc span.anchor span.footprint, (w.fed span).bus) := by
    simp only [ServoBus.crcOk, hlen, Bool.false_or, decide_eq_true_eq]
    rw [if_neg (by omega)]
    rfl
  have hauth : (w.fed span).bus.authentic span.anchor span.footprint =
      w.bus.authentic span.anchor span.footprint :=
    (ServoBus.authentic_congr rfl rfl _ _).1
  simp only [routeVerdictFirst, hcrc, ServoBus.authVerify_judged, hauth]
  cases w.bus.freshCrc span.anchor span.footprint with
  | false => rfl
  | true =>
      cases w.bus.authentic span.anchor span.footprint with
      | false => rfl
      | true => rfl

/-! ## The security context at a verdict -/

omit [ConfigStore σ] in
@[simp]
theorem security_sequenced (staged : Bool) (slot : ℕ) (packetEnd : UInt32) :
    (w.sequenced chip staged slot packetEnd).bus.security = w.bus.security := by
  simp only [sequenced]
  split
  · exact ServoBus.security_sequenceReply _ _ _ _
  · rfl

omit [ConfigStore σ] in
@[simp]
theorem security_accepted (bus : ServoBus) (anchor footprint : ℕ) :
    (accepted bus anchor footprint).security = bus.judged anchor footprint :=
  ServoBus.security_driftNoteVerified _ _ _

omit [ConfigStore σ] in
@[simp]
theorem ring_accepted (bus : ServoBus) (anchor footprint : ℕ) :
    (accepted bus anchor footprint).ring = bus.ring := by
  obtain ⟨_, h, -⟩ := ServoBus.driftNoteVerified_eq
    ({ bus with
      security := bus.judged anchor footprint
      framer := bus.framer.onFrameVerified } : ServoBus) anchor footprint
  rw [accepted, h]

theorem security_routeAccepted (span : FrameSpan) :
    (w.routeAccepted chip span).bus.security = w.bus.judged span.anchor span.footprint := by
  have hsecurity := (w.admitted span).security_dispatchDecoded span.anchor span.footprint
  have hdropped : (w.admitted span).bus.security = w.bus.judged span.anchor span.footprint :=
    security_accepted ..
  simp only [routeAccepted]
  split
  · rename_i hout
    rw [hout] at hsecurity
    exact hsecurity.trans hdropped
  · rename_i hout
    rw [hout] at hsecurity
    split
    · simpa using hsecurity.trans hdropped
    · simpa using hsecurity.trans hdropped

omit [ConfigStore σ] in
/-- The verdict of a dispatched frame settles the security context. -/
theorem security_verify (p : Pending) :
    (verify chip p w).bus.security =
      w.bus.settled (w.bus.crcVerify p.anchor p.footprint) p.anchor p.footprint := by
  rw [verify_eq]
  cases hcrc : w.bus.crcVerify p.anchor p.footprint with
  | false => rfl
  | true =>
      cases hauth : w.bus.authentic p.anchor p.footprint with
      | false => simp [ServoBus.settled, hauth, refused, ServoBus.dropStaged]
      | true => cases p.table <;> simp [ServoBus.settled, hauth]

/-- The bus the verdict of an entering frame sees: on the speculative path the
frame has been folded. -/
def folded (span : FrameSpan) : ServoBus :=
  if w.speculates span.anchor then
    { w.bus with security := w.bus.foldedSecurity span.anchor span.footprint }
  else w.bus

omit [ConfigStore σ] in
theorem settled_congr {bus bus' : ServoBus} (hring : bus'.ring = bus.ring)
    (hsecurity : bus'.security = bus.security) (crcPasses : Bool) (anchor footprint : ℕ) :
    bus'.settled crcPasses anchor footprint = bus.settled crcPasses anchor footprint := by
  obtain ⟨hauth, hjudged⟩ := ServoBus.authentic_congr hring hsecurity anchor footprint
  rw [ServoBus.settled, ServoBus.settled, hauth, hjudged, hsecurity]

/-- The verdict of a whole frame on the speculative path: a fresh CRC, and the
gate after the fold. -/
theorem verdict_spined (span : FrameSpan) :
    ((w.spined span).dispatchDecoded span.anchor span.footprint).2.bus.crcVerify
        span.anchor span.footprint = w.bus.freshCrc span.anchor span.footprint ∧
      ((w.spined span).dispatchDecoded span.anchor span.footprint).2.bus.ring = w.bus.ring ∧
      ((w.spined span).dispatchDecoded span.anchor span.footprint).2.bus.security =
        w.bus.foldedSecurity span.anchor span.footprint := by
  obtain ⟨h, hbus, hresult⟩ := (w.spined span).dispatchDecoded_eq span.anchor span.footprint
  rw [hbus]
  refine ⟨?_, rfl, rfl⟩
  refine ServoBus.crcVerify_congr ?_ hresult _ _
  rfl

/-- The speculative path settles the folded context, at once or later. -/
theorem security_routeSpine (span : FrameSpan) (complete : Bool) :
    (routeSpine chip span complete w).bus.security =
      if complete then
        ({ w.bus with security := w.bus.foldedSecurity span.anchor span.footprint } :
          ServoBus).settled (w.bus.freshCrc span.anchor span.footprint) span.anchor span.footprint
      else w.bus.foldedSecurity span.anchor span.footprint := by
  obtain ⟨hcrc, hring, hsecurity⟩ := w.verdict_spined span
  have hsettled : ∀ passes,
      ((w.spined span).dispatchDecoded span.anchor span.footprint).2.bus.settled passes
        span.anchor span.footprint =
      ({ w.bus with security := w.bus.foldedSecurity span.anchor span.footprint } :
          ServoBus).settled passes span.anchor span.footprint := by
    intro passes
    refine settled_congr ?_ ?_ passes _ _
    · exact hring
    · exact hsecurity
  rw [routeSpine_eq]
  cases hout : (w.spined span).dispatchDecoded span.anchor span.footprint with
  | mk out w' =>
      rw [hout] at hcrc hsettled hsecurity
      cases complete with
      | true =>
          cases out with
          | none => simp only [if_true, security_verify, hcrc, hsettled]
          | some found => simp only [if_true, security_verify, hcrc, hsettled]
      | false =>
          have hpre : w'.bus.security = w.bus.foldedSecurity span.anchor span.footprint :=
            hsecurity
          cases out with
          | none => simpa using hpre
          | some found => simpa using hpre

/-- The verdict-first path settles the context as it stands. -/
theorem security_routeVerdictFirst {span : FrameSpan} (h : 2 ≤ span.footprint) :
    (routeVerdictFirst chip span w).bus.security =
      w.bus.settled (w.bus.freshCrc span.anchor span.footprint) span.anchor span.footprint := by
  have hcongr := ServoBus.authentic_congr (show (w.fed span).bus.ring = w.bus.ring from rfl)
    (show (w.fed span).bus.security = w.bus.security from rfl) span.anchor span.footprint
  rw [routeVerdictFirst_eq chip w h, ServoBus.settled]
  cases w.bus.freshCrc span.anchor span.footprint with
  | false => rfl
  | true =>
      cases w.bus.authentic span.anchor span.footprint with
      | false => simp [refused, hcongr.2]
      | true => simp [security_routeAccepted, hcongr.2]

/-- A whole instruction frame that enters the spine settles the context the
verdict sees. -/
theorem security_routeFrame {span : FrameSpan} (h : 2 ≤ span.footprint)
    (hinst : (w.bus.ringInst span.anchor).isStatus = false) :
    (routeFrame chip span true w).bus.security =
      (w.folded span).settled (w.bus.freshCrc span.anchor span.footprint) span.anchor
        span.footprint := by
  simp only [routeFrame, hinst, Bool.false_eq_true, if_false, folded, Bool.not_true]
  cases w.speculates span.anchor with
  | true => simp only [if_true, security_routeSpine]
  | false => simp only [Bool.false_eq_true, if_false, security_routeVerdictFirst chip w h]

/-- At its covered checkpoint a frame can only be folded. -/
theorem security_routeFrame_covered {span : FrameSpan}
    (hinst : (w.bus.ringInst span.anchor).isStatus = false) :
    (routeFrame chip span false w).bus.security = (w.folded span).security := by
  simp only [routeFrame, hinst, Bool.false_eq_true, if_false, folded, Bool.not_false, if_true]
  cases w.speculates span.anchor with
  | true => simp only [if_true, security_routeSpine, Bool.false_eq_true, if_false]
  | false => rfl

/-! ## The frame end -/

/-- The world a frame end hands to the spine when no verdict is due at its
place: the pending frame is gone, and with it what it staged for the wire. -/
def entering : World σ :=
  let taken := { w.bus with pending := none }
  ⟨if w.bus.pending.isSome then taken.dropStaged else taken, w.disp⟩

/-- The pending frame whose verdict this frame end brings. -/
def dueVerdict (span : FrameSpan) : Option Pending := w.bus.pending.filter (·.isAt span)

theorem onFrameEnd_eq (span : FrameSpan) :
    onFrameEnd chip span w =
      match w.dueVerdict span with
      | some p => verify chip p { w with bus := { w.bus with pending := none } }
      | none => routeFrame chip span true w.entering := by
  simp only [onFrameEnd, dueVerdict, entering]
  cases w.bus.pending with
  | none => rfl
  | some p => cases hat : p.isAt span <;> simp [Option.filter, hat]

/-- The CRC verdict of a frame end: the engine's value from the checkpoint, or
a fresh feed. -/
def crcVerdict (span : FrameSpan) : Bool :=
  if (w.dueVerdict span).isSome then w.bus.crcVerify span.anchor span.footprint
  else w.bus.freshCrc span.anchor span.footprint

/-- The bus the verdict of a frame end sees. -/
def judgedBus (span : FrameSpan) : ServoBus :=
  if (w.dueVerdict span).isSome then w.bus else w.entering.folded span

/-- What a frame end makes of the security context. -/
theorem security_onFrameEnd {span : FrameSpan} (h : 2 ≤ span.footprint)
    (hinst : (w.bus.ringInst span.anchor).isStatus = false) :
    (onFrameEnd chip span w).bus.security =
      (w.judgedBus span).settled (w.crcVerdict span) span.anchor span.footprint := by
  rw [onFrameEnd_eq, judgedBus, crcVerdict]
  cases hdue : w.dueVerdict span with
  | some p =>
      have hat : p.anchor = span.anchor ∧ p.footprint = span.footprint := by
        have hp : p.isAt span := (Option.filter_eq_some_iff.mp hdue).2
        simpa [Pending.isAt] using hp
      simp only [security_verify, hat.1, hat.2, Option.isSome_some, if_true]
      rw [settled_congr
        (show ({ w.bus with pending := none } : ServoBus).ring = w.bus.ring from rfl)
        rfl]
      rfl
  | none =>
      have hring : w.entering.bus.ring = w.bus.ring := by
        simp only [entering]
        split <;> rfl
      have hstalled : w.entering.bus.crc.stalled = w.bus.crc.stalled := by
        simp only [entering]
        split <;> rfl
      have hinst' : (w.entering.bus.ringInst span.anchor).isStatus = false := by
        rw [ServoBus.ringInst, hring]
        exact hinst
      simp only [security_routeFrame chip w.entering h hinst',
        ServoBus.freshCrc_congr hring hstalled, Option.isSome_none, Bool.false_eq_true, if_false]

end World

end OpenServo.Bus
