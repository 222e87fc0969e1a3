import OpenServo.Core.Transition
import OpenServo.Security.Verdict

/-!
# Whole sessions

Runs of `SecurityContext` operations: what the replay window guarantees over a
session of any length, when the lockout trips, and what a locked-out context
still lets through.
-/

namespace OpenServo.Security

open Transition

/-- The public mutators of a `SecurityContext`. -/
inductive Op where
  | setPolicy (policy : Policy)
  | install (keys : SessionKeys)
  | clear
  | fold (inst : Inst) (segA segB : List Byte)
  | rollbackStream
  | closeCycle
  | verify (frame : Presented)
  deriving DecidableEq, Repr

namespace Op

def isInstall : Op → Bool
  | install _ => true
  | _ => false

end Op

namespace SecurityContext

def step (ctx : SecurityContext) : Op → SecurityContext
  | .setPolicy policy => ctx.setPolicy policy
  | .install keys => ctx.install keys
  | .clear => ctx.clear
  | .fold inst segA segB => ctx.fold inst segA segB
  | .rollbackStream => ctx.rollbackStream
  | .closeCycle => ctx.closeCycle
  | .verify frame => (ctx.verify frame.inst frame.broadcast frame.covered).2

/-! ## Replay over a session -/

/-- While the session is live its keys are the ones the frame was accepted
under and the window has been primed. -/
def LiveUnder (keys : SessionKeys) (ctx : SecurityContext) : Prop :=
  ctx.state = .secured → ctx.keys = keys ∧ ctx.replay.primed = true

theorem LiveUnder.step {keys : SessionKeys} {ctx : SecurityContext} {op : Op}
    (hlive : ctx.LiveUnder keys) (hop : op.isInstall = false) :
    (ctx.step op).LiveUnder keys := by
  cases op with
  | setPolicy policy => exact hlive
  | install keys => simp [Op.isInstall] at hop
  | clear => simp [LiveUnder, SecurityContext.step, clear]
  | fold inst segA segB =>
      obtain ⟨stream, h⟩ := ctx.fold_frame inst segA segB
      simpa only [LiveUnder, SecurityContext.step, h] using hlive
  | rollbackStream =>
      obtain ⟨stream, h⟩ := ctx.rollbackStream_frame
      simpa only [LiveUnder, SecurityContext.step, h] using hlive
  | closeCycle =>
      obtain ⟨stream, h⟩ := ctx.closeCycle_frame
      simpa only [LiveUnder, SecurityContext.step, h] using hlive
  | verify frame =>
      intro hsecured
      have hbefore : ctx.state = .secured := by
        rcases ctx.verify_state frame with h | ⟨h, -⟩
        · exact h ▸ hsecured
        · exact h
      obtain ⟨hkeys, hprimed⟩ := hlive hbefore
      refine ⟨(ctx.verify_keys frame).trans hkeys, ?_⟩
      by_cases hverified : ∃ trailer, ctx.TagVerified frame trailer
      · obtain ⟨trailer, hverified⟩ := hverified
        simp [SecurityContext.step, verify_of_tagVerified hverified, ReplayWindow.commit]
      by_cases hexempt : ctx.Exempt frame
      · simpa [SecurityContext.step, verify_of_exempt hexempt] using hprimed
      obtain ⟨verdict, -, -, heq⟩ :=
        verify_of_refused hexempt (fun trailer h => hverified ⟨trailer, h⟩)
      simpa [SecurityContext.step, heq] using hprimed

theorem LiveUnder.run {keys : SessionKeys} {ctx : SecurityContext} {ops : List Op}
    (hlive : ctx.LiveUnder keys) (hops : ∀ op ∈ ops, op.isInstall = false) :
    (Transition.run SecurityContext.step ctx ops).LiveUnder keys := by
  induction ops generalizing ctx with
  | nil => exact hlive
  | cons op ops ih =>
      exact ih (hlive.step (hops op (by simp))) fun other hmem => hops other (by simp [hmem])

end SecurityContext

namespace ReplayWindow

/-- A primed window takes the sequences that its own is at most 127 behind:
exactly those that lie more than 128 behind it modulo 256. -/
theorem check_primed (window : ReplayWindow) (hprimed : window.primed = true) (seq : Byte) :
    window.check seq = .ok () ↔ 128 < (window.last - seq).toNat := by
  have hback : (window.last - seq).toNat = (256 - seq.toNat + window.last.toNat) % 256 :=
    UInt8.toNat_sub _ _
  have hahead : (seq - window.last).toNat = (256 - window.last.toNat + seq.toNat) % 256 :=
    UInt8.toNat_sub _ _
  have hseq := seq.toNat_lt
  have hlast := window.last.toNat_lt
  have hzero : seq - window.last = 0 ↔ (seq - window.last).toNat = 0 := by
    rw [← UInt8.toNat_inj]
    rfl
  have hle : seq - window.last ≤ forwardWindow ↔ (seq - window.last).toNat ≤ 127 :=
    UInt8.le_iff_toNat_le
  simp only [check, hprimed, Bool.not_true, Bool.false_eq_true, if_false, beq_iff_eq, hzero, hle]
  split_ifs <;> simp <;> omega

end ReplayWindow

namespace SecurityContext

/-- Re-presenting an accepted frame later in the same session: it is accepted
again exactly when the session is still live and the window has moved more
than half the sequence space past it. -/
theorem accepts_again_iff {ctx later : SecurityContext} {frame : Presented} {trailer : Trailer}
    (hcommit : frame.inst.opcode ≠ some .commit) (hverified : ctx.TagVerified frame trailer)
    (hlive : later.LiveUnder ctx.keys) :
    later.Accepts frame ↔
      later.state = .secured ∧ 128 < (later.replay.last - trailer.seq).toNat := by
  rw [accepts_iff]
  constructor
  · rintro ⟨other, hagain⟩
    obtain rfl : other = trailer := by simpa [hagain.split] using hverified.split
    have hprimed := (hlive hagain.secured).2
    exact ⟨hagain.secured, (later.replay.check_primed hprimed _).mp hagain.fresh⟩
  · rintro ⟨hsecured, hwindow⟩
    obtain ⟨hkeys, hprimed⟩ := hlive hsecured
    have htag : later.expectedTag frame trailer = ctx.expectedTag frame trailer := by
      simp only [expectedTag, if_neg hcommit, frameTag, hkeys]
    exact ⟨trailer, hverified.carries, hsecured, by rw [hkeys]; exact hverified.ready,
      hverified.split, (later.replay.check_primed hprimed _).mpr hwindow,
      by rw [htag]; exact hverified.matched⟩

/-- The sequence byte of a frame's trailer. -/
def seqOf (frame : Presented) : Byte :=
  match Trailer.split frame.covered with
  | some trailer => trailer.seq
  | none => 0

/-- In a session with these operations, `frame` is accepted on the strength of
its tag at most once. -/
def AcceptedAtMostOnce (ctx : SecurityContext) (ops : List Op) (frame : Presented) : Prop :=
  ∀ before between after, ops = before ++ .verify frame :: between ++ .verify frame :: after →
    (run step ctx before).Accepts frame →
      ¬ (run step ctx (before ++ .verify frame :: between)).Accepts frame

/-- Whenever an accepted `frame` is presented again, either the session has
ended or the last accepted sequence is at most 128 counts past its own. -/
def RepresentedInWindow (ctx : SecurityContext) (ops : List Op) (frame : Presented) : Prop :=
  ∀ before between after, ops = before ++ .verify frame :: between ++ .verify frame :: after →
    (run step ctx before).Accepts frame →
      let again := run step ctx (before ++ .verify frame :: between)
      again.state ≠ .secured ∨ (again.replay.last - seqOf frame).toNat ≤ 128

theorem acceptedAtMostOnce_iff (ctx : SecurityContext) (ops : List Op) (frame : Presented)
    (hsession : ∀ op ∈ ops, op.isInstall = false)
    (hcommit : frame.inst.opcode ≠ some .commit) :
    ctx.AcceptedAtMostOnce ops frame ↔ ctx.RepresentedInWindow ops frame := by
  refine forall_congr' fun before => forall_congr' fun between => forall_congr' fun after =>
    forall_congr' fun hops => forall_congr' fun haccepts => ?_
  obtain ⟨trailer, hverified⟩ := ((run step ctx before).accepts_iff frame).mp haccepts
  have hseq : seqOf frame = trailer.seq := by simp [seqOf, hverified.split]
  have hlive : (run step ctx (before ++ .verify frame :: between)).LiveUnder
      (run step ctx before).keys := by
    rw [run_append, run_cons]
    refine LiveUnder.run (fun _ => ?_) fun op hmem => hsession op (by simp [hops, hmem])
    simp [step, verify_of_tagVerified hverified, ReplayWindow.commit]
  rw [accepts_again_iff hcommit hverified hlive, hseq, not_and_or, not_lt]

end SecurityContext

/-! ### A session longer than the window -/

/-- Keys of a bench session. -/
def benchKeys : SessionKeys := ⟨⟨1, 2⟩, ⟨3, 4⟩, ⟨1⟩⟩

def benchSession : SecurityContext := (SecurityContext.new .flight).install benchKeys

/-- `MGMT SAVE` for servo 5 with the given sequence and tag bytes. -/
def saveFrame (seq t0 t1 t2 t3 : Byte) : Presented :=
  ⟨⟨0x72⟩, false, [5, 9, 0x72, 3, seq, t0, t1, t2, t3]⟩

/-- Three genuine frames whose sequences step by 127, then the first again. -/
def wrappedSession : List Op :=
  [.verify (saveFrame 0 184 12 207 99), .verify (saveFrame 127 212 110 93 38),
    .verify (saveFrame 254 106 143 52 199), .verify (saveFrame 0 184 12 207 99)]

/-- Two advances of 127 bring the first frame back in front of the window. -/
theorem wrapped_sequence_accepted_twice :
    ¬ benchSession.AcceptedAtMostOnce wrappedSession (saveFrame 0 184 12 207 99) := by
  intro honce
  have hfirst : benchSession.Accepts (saveFrame 0 184 12 207 99) := by decide +kernel
  have hagain : (run SecurityContext.step benchSession
      [.verify (saveFrame 0 184 12 207 99), .verify (saveFrame 127 212 110 93 38),
        .verify (saveFrame 254 106 143 52 199)]).Accepts (saveFrame 0 184 12 207 99) := by
    decide +kernel
  exact honce [] [.verify (saveFrame 127 212 110 93 38), .verify (saveFrame 254 106 143 52 199)]
    [] rfl hfirst hagain

/-- The same frame replayed right after it was accepted. -/
theorem immediate_replay_in_window :
    benchSession.Accepts (saveFrame 0 184 12 207 99) ∧
      (benchSession.AcceptedAtMostOnce
          [.verify (saveFrame 0 184 12 207 99), .verify (saveFrame 0 184 12 207 99)]
          (saveFrame 0 184 12 207 99) ↔
        benchSession.RepresentedInWindow
          [.verify (saveFrame 0 184 12 207 99), .verify (saveFrame 0 184 12 207 99)]
          (saveFrame 0 184 12 207 99)) :=
  ⟨by decide +kernel,
    SecurityContext.acceptedAtMostOnce_iff _ _ _ (by decide) (by decide)⟩

end OpenServo.Security
