import OpenServo.Security.SessionRun

/-!
# What a verdict records

The part of the context that frames leave a mark on: the session state, the
failure counters and the replay window.  Folds and resets of the stream digest
keep it; a verdict keeps it only for frames that cost nothing to judge.
-/

namespace OpenServo.Security

/-- The bookkeeping of the message plane. -/
structure Counters where
  state : SecurityState
  consecutiveFails : UInt8
  authFailCount : UInt32
  replayDropCount : UInt32
  replay : ReplayWindow
  deriving DecidableEq, Repr

namespace SecurityContext

def counters (ctx : SecurityContext) : Counters :=
  ⟨ctx.state, ctx.consecutiveFails, ctx.authFailCount, ctx.replayDropCount, ctx.replay⟩

@[simp]
theorem counters_rollbackStream (ctx : SecurityContext) :
    ctx.rollbackStream.counters = ctx.counters := by
  simp only [rollbackStream]
  split <;> rfl

@[simp]
theorem counters_closeCycle (ctx : SecurityContext) : ctx.closeCycle.counters = ctx.counters := by
  simp only [closeCycle]
  split <;> rfl

/-- The frame puts a tag to a session that can check it. -/
def Challenged (ctx : SecurityContext) (frame : Presented) : Prop :=
  frame.inst.authenticated = true ∧ ctx.state = .secured ∧ ctx.keys.isReady = true

instance (ctx : SecurityContext) (frame : Presented) : Decidable (ctx.Challenged frame) :=
  inferInstanceAs (Decidable (_ ∧ _))

/-- The verdict on the frame leaves no mark: it passes unseen with no failure
to forgive, or it is refused unchecked with the failure count saturated. -/
def Spares (ctx : SecurityContext) (frame : Presented) : Prop :=
  (ctx.Exempt frame ∧ ctx.consecutiveFails = 0) ∨
    (¬ ctx.Exempt frame ∧ ¬ ctx.Challenged frame ∧ ctx.authFailCount = 0xFFFFFFFF)

instance (ctx : SecurityContext) (frame : Presented) : Decidable (ctx.Spares frame) :=
  inferInstanceAs (Decidable (_ ∨ _))

/-- A refused tag is attack evidence exactly when the session could check it. -/
theorem evidence_iff_challenged {ctx : SecurityContext} {frame : Presented}
    (hexempt : ¬ ctx.Exempt frame) (hverified : ∀ trailer, ¬ ctx.TagVerified frame trailer) :
    (ctx.evaluate frame.inst frame.broadcast frame.covered).1.isAttackEvidence = true ↔
      ctx.Challenged frame := by
  constructor
  · intro hevidence
    rcases ctx.evaluate_cases frame with ⟨_, h, -⟩ | ⟨h, -⟩ | ⟨-, -, verdict, -, himp, heval⟩
    · exact absurd h (hverified _)
    · exact absurd h hexempt
    · rw [heval] at hevidence
      obtain ⟨hsecured, hcarries⟩ := himp hevidence
      refine ⟨hcarries, hsecured, ?_⟩
      by_contra hready
      have hnone : verdict = .noSession := by
        have hverdict := congrArg Prod.fst heval
        rw [Bool.not_eq_true] at hready
        simpa [evaluate, hsecured, hcarries, hready] using hverdict.symm
      rw [hnone] at hevidence
      cases hevidence
  · rintro ⟨hcarries, hsecured, hready⟩
    cases hsplit : Trailer.split frame.covered with
    | none => simp [evaluate, hcarries, hsecured, hready, hsplit, AuthVerdict.isAttackEvidence]
    | some trailer =>
        cases hfresh : ctx.replay.check trailer.seq with
        | error reject =>
            simp [evaluate, hcarries, hsecured, hready, hsplit, hfresh,
              AuthVerdict.isAttackEvidence]
        | ok _ =>
            have hmatch : (ctx.expectedTag frame trailer).ctEq trailer.tag = false := by
              by_contra hne
              exact hverified trailer
                ⟨hcarries, hsecured, hready, hsplit, hfresh, by simpa using hne⟩
            simp only [expectedTag] at hmatch
            simp [evaluate, hcarries, hsecured, hready, hsplit, hfresh, hmatch,
              AuthVerdict.isAttackEvidence]

theorem saturatingSucc8_eq_self {n : UInt8} : saturatingSucc8 n = n ↔ n = 0xFF := by
  simp only [saturatingSucc8]
  split
  · rename_i h
    simpa using h
  · rename_i h
    simp only [beq_iff_eq] at h
    simp [h]

theorem saturatingSucc32_eq_self {n : UInt32} : saturatingSucc32 n = n ↔ n = 0xFFFFFFFF := by
  simp only [saturatingSucc32]
  split
  · rename_i h
    simpa using h
  · rename_i h
    simp only [beq_iff_eq] at h
    simp [h]

/-- Attack evidence always shows: at a saturated count it locks the session
out. -/
theorem counters_record_of_evidence {ctx : SecurityContext} {verdict : AuthVerdict}
    (hsecured : ctx.state = .secured) (hevidence : verdict.isAttackEvidence = true) :
    (ctx.record verdict).counters ≠ ctx.counters := by
  intro hsame
  obtain ⟨hfails, hstate⟩ := ctx.record_of_evidence hevidence
  have hfails' : (ctx.record verdict).consecutiveFails = ctx.consecutiveFails :=
    congrArg Counters.consecutiveFails hsame
  have hstate' : (ctx.record verdict).state = ctx.state := congrArg Counters.state hsame
  have hfull : ctx.consecutiveFails = 0xFF := saturatingSucc8_eq_self.mp (hfails.symm.trans hfails')
  have hreached : ctx.policy.lockoutAfter ≤ saturatingSucc8 ctx.consecutiveFails := by
    have hlt := ctx.policy.lockoutAfter.toNat_lt
    rw [hfull, saturatingSucc8_eq_self.mpr rfl, UInt8.le_iff_toNat_le]
    exact Nat.le_of_lt_succ hlt
  rw [hstate', if_pos ⟨hreached, hsecured⟩, hsecured] at hstate
  cases hstate

/-- A refusal without evidence counts in one place. -/
theorem counters_record_of_not_evidence {ctx : SecurityContext} {verdict : AuthVerdict}
    (hpass : verdict ≠ .pass) (hevidence : verdict.isAttackEvidence = false) :
    (ctx.record verdict).counters = ctx.counters ↔ ctx.authFailCount = 0xFFFFFFFF := by
  have hrecord : ctx.record verdict =
      { ctx with authFailCount := saturatingSucc32 ctx.authFailCount } := by
    cases verdict <;> simp_all [record, AuthVerdict.isAttackEvidence]
  rw [hrecord, ← saturatingSucc32_eq_self]
  simp [counters]

/-- A verified tag always moves the window. -/
theorem commit_ne_of_fresh {window : ReplayWindow} {seq : Byte}
    (hfresh : window.check seq = .ok ()) : window.commit seq ≠ window := by
  intro hsame
  have hlast : window.last = seq := (congrArg ReplayWindow.last hsame).symm
  have hprimed : window.primed = true := (congrArg ReplayWindow.primed hsame).symm
  simp [ReplayWindow.check, hprimed, hlast] at hfresh

/-- The verdicts that leave the bookkeeping as it is. -/
theorem counters_verify_iff (ctx : SecurityContext) (frame : Presented) :
    (ctx.verify frame.inst frame.broadcast frame.covered).2.counters = ctx.counters ↔
      ctx.Spares frame := by
  by_cases hexempt : ctx.Exempt frame
  · rw [verify_of_exempt hexempt]
    simp [Spares, hexempt, counters, eq_comm]
  by_cases hverified : ∃ trailer, ctx.TagVerified frame trailer
  · obtain ⟨trailer, hverified⟩ := hverified
    have hchallenged : ctx.Challenged frame :=
      ⟨hverified.carries, hverified.secured, hverified.ready⟩
    rw [verify_of_tagVerified hverified]
    constructor
    · intro hsame
      exact absurd (congrArg Counters.replay hsame) (commit_ne_of_fresh hverified.fresh)
    · rintro (⟨h, -⟩ | ⟨-, h, -⟩)
      · exact absurd h hexempt
      · exact absurd hchallenged h
  · have hnone : ∀ trailer, ¬ ctx.TagVerified frame trailer := fun t h => hverified ⟨t, h⟩
    obtain ⟨verdict, hpass, himp, heq⟩ := verify_of_refused hexempt hnone
    have hverdict : (ctx.evaluate frame.inst frame.broadcast frame.covered).1 = verdict :=
      congrArg Prod.fst heq
    have hiff := evidence_iff_challenged hexempt hnone
    rw [hverdict] at hiff
    rw [heq]
    cases hevidence : verdict.isAttackEvidence with
    | true =>
        refine iff_of_false (counters_record_of_evidence (himp hevidence).1 hevidence) ?_
        rintro (⟨h, -⟩ | ⟨-, h, -⟩)
        · exact hexempt h
        · exact h (hiff.mp hevidence)
    | false =>
        have hnot : ¬ ctx.Challenged frame := fun h => by
          rw [hiff.mpr h] at hevidence
          cases hevidence
        show (ctx.record verdict).counters = ctx.counters ↔ _
        rw [counters_record_of_not_evidence hpass hevidence]
        simp [Spares, hexempt, hnot]

end SecurityContext

end OpenServo.Security
