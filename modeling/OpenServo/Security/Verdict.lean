import OpenServo.Security.Session

/-!
# What a verdict does

`evaluate_cases` says once what one evaluation can return and change; the
frame facts of `verify` and the meaning of a `Pass` follow from it.
-/

namespace OpenServo.Security

/-- One frame as it is presented to `verify`. -/
structure Presented where
  inst : Inst
  broadcast : Bool
  covered : List Byte
  deriving DecidableEq, Repr

namespace SecurityContext

/-- The tag the servo recomputes for a frame with this trailer. -/
def expectedTag (ctx : SecurityContext) (frame : Presented) (trailer : Trailer) : Tag :=
  if frame.inst.opcode = some .commit then
    ctx.commitTag (ctx.keys.forFrame frame.broadcast) trailer.seq trailer.taggedPrefix
  else ctx.frameTag (ctx.keys.forFrame frame.broadcast) trailer.seq trailer.taggedPrefix

/-- The frame carries `FLAG_AUTH`, its sequence is accepted by the window and
its tag is the one recomputed under a ready session key. -/
structure TagVerified (ctx : SecurityContext) (frame : Presented) (trailer : Trailer) : Prop where
  carries : frame.inst.authenticated = true
  secured : ctx.state = .secured
  ready : ctx.keys.isReady = true
  split : Trailer.split frame.covered = some trailer
  fresh : ctx.replay.check trailer.seq = .ok ()
  matched : (ctx.expectedTag frame trailer).ctEq trailer.tag = true

instance (ctx : SecurityContext) (frame : Presented) (trailer : Trailer) :
    Decidable (ctx.TagVerified frame trailer) :=
  decidable_of_iff
    (frame.inst.authenticated = true ∧ ctx.state = .secured ∧ ctx.keys.isReady = true ∧
      Trailer.split frame.covered = some trailer ∧
      (ctx.replay.check trailer.seq).toBool = true ∧
      (ctx.expectedTag frame trailer).ctEq trailer.tag = true)
    ⟨fun ⟨carries, secured, ready, split, fresh, matched⟩ =>
      ⟨carries, secured, ready, split, by
        cases h : ctx.replay.check trailer.seq <;> simp_all [Except.toBool], matched⟩,
      fun h => ⟨h.carries, h.secured, h.ready, h.split, by rw [h.fresh]; rfl, h.matched⟩⟩

instance (ctx : SecurityContext) (frame : Presented) :
    Decidable (∃ trailer, ctx.TagVerified frame trailer) :=
  match hsplit : Trailer.split frame.covered with
  | none => .isFalse fun ⟨_, h⟩ => nomatch hsplit.symm.trans h.split
  | some trailer =>
      decidable_of_iff (ctx.TagVerified frame trailer)
        ⟨fun h => ⟨trailer, h⟩, fun ⟨other, h⟩ => by
          obtain rfl : trailer = other := by simpa [hsplit] using h.split
          exact h⟩

instance (ctx : SecurityContext) (frame : Presented) :
    Decidable (∀ trailer, ¬ ctx.TagVerified frame trailer) :=
  decidable_of_iff (¬ ∃ trailer, ctx.TagVerified frame trailer) not_exists

/-- `verify` passed the frame on the strength of its tag. -/
def Accepts (ctx : SecurityContext) (frame : Presented) : Prop :=
  (ctx.verify frame.inst frame.broadcast frame.covered).1 = .pass ∧
    ∃ trailer, ctx.TagVerified frame trailer

instance (ctx : SecurityContext) (frame : Presented) : Decidable (ctx.Accepts frame) :=
  inferInstanceAs (Decidable (_ ∧ _))

/-- Is this frame let through without looking at a tag? -/
def Exempt (ctx : SecurityContext) (frame : Presented) : Prop :=
  (ctx.state = .lockedOut ∨ frame.inst.authenticated = false) ∧
    ctx.policy.requiresTag frame.inst = false

instance (ctx : SecurityContext) (frame : Presented) : Decidable (ctx.Exempt frame) :=
  inferInstanceAs (Decidable (_ ∧ _))

/-- Every outcome of one evaluation: a verified tag advances the window, an
exempt frame passes, and everything else is refused and changes nothing. -/
theorem evaluate_cases (ctx : SecurityContext) (frame : Presented) :
    (∃ trailer, ctx.TagVerified frame trailer ∧
      ctx.evaluate frame.inst frame.broadcast frame.covered =
        (.pass, { ctx with replay := ctx.replay.commit trailer.seq })) ∨
    (ctx.Exempt frame ∧
      ctx.evaluate frame.inst frame.broadcast frame.covered = (.pass, ctx)) ∨
    (¬ ctx.Exempt frame ∧ (∀ trailer, ¬ ctx.TagVerified frame trailer) ∧
      ∃ verdict, verdict ≠ .pass ∧
        (verdict.isAttackEvidence = true →
          ctx.state = .secured ∧ frame.inst.authenticated = true) ∧
        ctx.evaluate frame.inst frame.broadcast frame.covered = (verdict, ctx)) := by
  by_cases hlocked : ctx.state = .lockedOut
  · cases hneeds : ctx.policy.requiresTag frame.inst with
    | false =>
        refine .inr (.inl ⟨⟨.inl hlocked, hneeds⟩, ?_⟩)
        simp [evaluate, hlocked, hneeds]
    | true =>
        refine .inr (.inr ⟨by simp [Exempt, hneeds], ?_, .lockedOut, by simp, by
          simp [AuthVerdict.isAttackEvidence], ?_⟩)
        · intro trailer hverified
          simp [hverified.secured] at hlocked
        · simp [evaluate, hlocked, hneeds]
  cases hcarries : frame.inst.authenticated with
  | false =>
      have hnot : ∀ trailer, ¬ ctx.TagVerified frame trailer := by
        intro trailer hverified
        simp [hverified.carries] at hcarries
      cases hneeds : ctx.policy.requiresTag frame.inst with
      | false =>
          refine .inr (.inl ⟨⟨.inr hcarries, hneeds⟩, ?_⟩)
          simp [evaluate, hlocked, hcarries, hneeds]
      | true =>
          refine .inr (.inr ⟨by simp [Exempt, hneeds], hnot, .missing, by simp, by
            simp [AuthVerdict.isAttackEvidence], ?_⟩)
          simp [evaluate, hlocked, hcarries, hneeds]
  | true =>
      have hexempt : ¬ ctx.Exempt frame := by simp [Exempt, hlocked, hcarries]
      by_cases hsecured : ctx.state = .secured
      case neg =>
        refine .inr (.inr ⟨hexempt, fun _ hverified => hsecured hverified.secured, .noSession,
          by simp, by simp [AuthVerdict.isAttackEvidence], ?_⟩)
        simp [evaluate, hlocked, hcarries, hsecured]
      cases hready : ctx.keys.isReady with
      | false =>
          refine .inr (.inr ⟨hexempt, fun _ hverified => ?_, .noSession, by simp, by
            simp [AuthVerdict.isAttackEvidence], ?_⟩)
          · simp [hverified.ready] at hready
          · simp [evaluate, hlocked, hcarries, hready]
      | true =>
          cases hsplit : Trailer.split frame.covered with
          | none =>
              refine .inr (.inr ⟨hexempt, fun _ hverified => ?_, .badTag, by simp,
                fun _ => ⟨hsecured, rfl⟩, ?_⟩)
              · simp [hverified.split] at hsplit
              · simp [evaluate, hcarries, hsecured, hready, hsplit]
          | some trailer =>
              cases hfresh : ctx.replay.check trailer.seq with
              | error reject =>
                  refine .inr (.inr ⟨hexempt, fun other hverified => ?_, .replay, by simp,
                    fun _ => ⟨hsecured, rfl⟩, ?_⟩)
                  · obtain rfl : trailer = other := by
                      simpa [hsplit] using hverified.split
                    simp [hverified.fresh] at hfresh
                  · simp [evaluate, hcarries, hsecured, hready, hsplit, hfresh]
              | ok _ =>
                  cases hmatch : (ctx.expectedTag frame trailer).ctEq trailer.tag with
                  | true =>
                      refine .inl ⟨trailer,
                        ⟨hcarries, hsecured, hready, hsplit, hfresh, hmatch⟩, ?_⟩
                      simp only [expectedTag] at hmatch
                      simp [evaluate, hcarries, hsecured, hready, hsplit, hfresh, hmatch]
                  | false =>
                      refine .inr (.inr ⟨hexempt, fun other hverified => ?_, .badTag, by simp,
                        fun _ => ⟨hsecured, rfl⟩, ?_⟩)
                      · obtain rfl : trailer = other := by
                          simpa [hsplit] using hverified.split
                        simp [hverified.matched] at hmatch
                      · simp only [expectedTag] at hmatch
                        simp [evaluate, hcarries, hsecured, hready, hsplit, hfresh, hmatch]

/-! ## Operations that leave the session alone -/

theorem fold_frame (ctx : SecurityContext) (inst : Inst) (segA segB : List Byte) :
    ∃ stream, ctx.fold inst segA segB = { ctx with stream } := by
  simp only [fold]
  split
  · exact ⟨ctx.stream, rfl⟩
  · exact ⟨_, rfl⟩

theorem rollbackStream_frame (ctx : SecurityContext) :
    ∃ stream, ctx.rollbackStream = { ctx with stream } := by
  simp only [rollbackStream]
  split
  · exact ⟨_, rfl⟩
  · exact ⟨ctx.stream, rfl⟩

theorem closeCycle_frame (ctx : SecurityContext) :
    ∃ stream, ctx.closeCycle = { ctx with stream } :=
  ctx.rollbackStream_frame

/-- Outside COMMIT the tag does not cover the stream. -/
theorem TagVerified.of_stream {ctx : SecurityContext} {stream : StreamDigest} {frame : Presented}
    {trailer : Trailer} (hop : frame.inst.opcode ≠ some .commit)
    (h : ({ ctx with stream } : SecurityContext).TagVerified frame trailer) :
    ctx.TagVerified frame trailer := by
  refine ⟨h.carries, h.secured, h.ready, h.split, h.fresh, ?_⟩
  have hmatched := h.matched
  simp only [expectedTag, hop, if_false] at hmatched ⊢
  exact hmatched

/-! ## Frame facts -/

section Record

variable (ctx : SecurityContext) (verdict : AuthVerdict)

@[simp]
theorem record_keys : (ctx.record verdict).keys = ctx.keys := by
  simp only [record]
  split_ifs <;> rfl

@[simp]
theorem record_replay : (ctx.record verdict).replay = ctx.replay := by
  simp only [record]
  split_ifs <;> rfl

@[simp]
theorem record_policy : (ctx.record verdict).policy = ctx.policy := by
  simp only [record]
  split_ifs <;> rfl

end Record

theorem record_pass (ctx : SecurityContext) :
    ctx.record .pass = { ctx with consecutiveFails := 0 } := rfl

/-- A refusal that is no attack evidence leaves the lockout machinery alone. -/
theorem record_of_not_evidence (ctx : SecurityContext) {verdict : AuthVerdict}
    (hpass : verdict ≠ .pass) (hevidence : verdict.isAttackEvidence = false) :
    (ctx.record verdict).state = ctx.state ∧
      (ctx.record verdict).consecutiveFails = ctx.consecutiveFails := by
  cases verdict <;> simp_all [record, AuthVerdict.isAttackEvidence]

/-- Attack evidence counts one up and locks out at the policy's threshold. -/
theorem record_of_evidence (ctx : SecurityContext) {verdict : AuthVerdict}
    (hevidence : verdict.isAttackEvidence = true) :
    (ctx.record verdict).consecutiveFails = saturatingSucc8 ctx.consecutiveFails ∧
      (ctx.record verdict).state =
        if ctx.policy.lockoutAfter ≤ saturatingSucc8 ctx.consecutiveFails ∧
          ctx.state = .secured then .lockedOut else ctx.state := by
  cases verdict <;> simp_all [record, AuthVerdict.isAttackEvidence] <;> split <;> simp_all

/-- A frame verified by its tag: the window takes its sequence, the counter
of consecutive failures restarts. -/
theorem verify_of_tagVerified {ctx : SecurityContext} {frame : Presented} {trailer : Trailer}
    (hverified : ctx.TagVerified frame trailer) :
    ctx.verify frame.inst frame.broadcast frame.covered =
      (.pass, { ctx with replay := ctx.replay.commit trailer.seq, consecutiveFails := 0 }) := by
  rcases ctx.evaluate_cases frame with ⟨other, hother, heval⟩ | ⟨hexempt, -⟩ | ⟨-, hnot, -⟩
  · obtain rfl : other = trailer := by
      simpa [hother.split] using hverified.split
    simp [verify, heval, record_pass]
  · obtain ⟨hlocked | hcarries, -⟩ := hexempt
    · simp [hverified.secured] at hlocked
    · simp [hverified.carries] at hcarries
  · exact absurd hverified (hnot trailer)

theorem verify_of_exempt {ctx : SecurityContext} {frame : Presented}
    (hexempt : ctx.Exempt frame) :
    ctx.verify frame.inst frame.broadcast frame.covered =
      (.pass, { ctx with consecutiveFails := 0 }) := by
  rcases ctx.evaluate_cases frame with ⟨trailer, hverified, -⟩ | ⟨-, heval⟩ | ⟨hnot, -⟩
  · obtain ⟨hlocked | hcarries, -⟩ := hexempt
    · simp [hverified.secured] at hlocked
    · simp [hverified.carries] at hcarries
  · simp [verify, heval, record_pass]
  · exact absurd hexempt hnot

/-- Every other frame is refused, and only the bookkeeping moves. -/
theorem verify_of_refused {ctx : SecurityContext} {frame : Presented}
    (hexempt : ¬ ctx.Exempt frame) (hverified : ∀ trailer, ¬ ctx.TagVerified frame trailer) :
    ∃ verdict, verdict ≠ .pass ∧
      (verdict.isAttackEvidence = true →
        ctx.state = .secured ∧ frame.inst.authenticated = true) ∧
      ctx.verify frame.inst frame.broadcast frame.covered = (verdict, ctx.record verdict) := by
  rcases ctx.evaluate_cases frame with ⟨trailer, h, -⟩ | ⟨h, -⟩ | ⟨-, -, verdict, hpass, hev, heval⟩
  · exact absurd h (hverified trailer)
  · exact absurd h hexempt
  · exact ⟨verdict, hpass, hev, by simp [verify, heval]⟩

theorem verify_pass_iff (ctx : SecurityContext) (frame : Presented) :
    (ctx.verify frame.inst frame.broadcast frame.covered).1 = .pass ↔
      (∃ trailer, ctx.TagVerified frame trailer) ∨ ctx.Exempt frame := by
  constructor
  · intro hpass
    by_contra hneither
    obtain ⟨hverified, hexempt⟩ := not_or.mp hneither
    obtain ⟨verdict, hnot, -, heq⟩ :=
      verify_of_refused hexempt (fun trailer h => hverified ⟨trailer, h⟩)
    rw [heq] at hpass
    exact hnot hpass
  · rintro (⟨trailer, hverified⟩ | hexempt)
    · rw [verify_of_tagVerified hverified]
    · rw [verify_of_exempt hexempt]

theorem accepts_iff (ctx : SecurityContext) (frame : Presented) :
    ctx.Accepts frame ↔ ∃ trailer, ctx.TagVerified frame trailer := by
  constructor
  · exact And.right
  · intro hverified
    exact ⟨(ctx.verify_pass_iff frame).mpr (.inl hverified), hverified⟩

section Verify

variable (ctx : SecurityContext) (frame : Presented)

theorem evaluate_frame :
    ∃ replay, (ctx.evaluate frame.inst frame.broadcast frame.covered).2 = { ctx with replay } := by
  rcases ctx.evaluate_cases frame with ⟨trailer, -, heval⟩ | ⟨-, heval⟩ | ⟨-, -, _, -, -, heval⟩
  · exact ⟨_, by rw [heval]⟩
  · exact ⟨ctx.replay, by rw [heval]⟩
  · exact ⟨ctx.replay, by rw [heval]⟩

theorem verify_keys : (ctx.verify frame.inst frame.broadcast frame.covered).2.keys = ctx.keys := by
  obtain ⟨replay, heval⟩ := ctx.evaluate_frame frame
  simp [verify, heval]

theorem verify_policy :
    (ctx.verify frame.inst frame.broadcast frame.covered).2.policy = ctx.policy := by
  obtain ⟨replay, heval⟩ := ctx.evaluate_frame frame
  simp [verify, heval]

/-- `verify` never secures a session; it can only lock a secured one out. -/
theorem verify_state :
    (ctx.verify frame.inst frame.broadcast frame.covered).2.state = ctx.state ∨
      ctx.state = .secured ∧
        (ctx.verify frame.inst frame.broadcast frame.covered).2.state = .lockedOut := by
  by_cases hexempt : ctx.Exempt frame
  · exact .inl (by rw [verify_of_exempt hexempt])
  by_cases hverified : ∃ trailer, ctx.TagVerified frame trailer
  · obtain ⟨trailer, hverified⟩ := hverified
    exact .inl (by rw [verify_of_tagVerified hverified])
  obtain ⟨verdict, hpass, -, heq⟩ :=
    verify_of_refused hexempt (fun trailer h => hverified ⟨trailer, h⟩)
  rw [heq]
  cases hevidence : verdict.isAttackEvidence with
  | false => exact .inl (ctx.record_of_not_evidence hpass hevidence).1
  | true =>
      rw [(ctx.record_of_evidence hevidence).2]
      split
      case isTrue h => exact .inr ⟨h.2, rfl⟩
      case isFalse => exact .inl rfl

end Verify

end SecurityContext

end OpenServo.Security
