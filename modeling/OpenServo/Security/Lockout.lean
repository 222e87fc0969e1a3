import OpenServo.Security.SessionRun

/-!
# Lockout

When consecutive attack evidence locks a session out, and what a locked-out
context lets through until the next install.
-/

namespace OpenServo.Security

open Transition

namespace SecurityContext

/-- One `verify` call as a step. -/
def verifyStep (ctx : SecurityContext) (frame : Presented) : SecurityContext :=
  (ctx.verify frame.inst frame.broadcast frame.covered).2

/-- Did this call return attack evidence? -/
def evidence (ctx : SecurityContext) (frame : Presented) : Bool :=
  (ctx.verify frame.inst frame.broadcast frame.covered).1.isAttackEvidence

/-- How many calls of the run return attack evidence. -/
def evidenceCount : SecurityContext → List Presented → ℕ
  | _, [] => 0
  | ctx, frame :: frames =>
      (ctx.evidence frame).toNat + evidenceCount (ctx.verifyStep frame) frames

theorem evidenceCount_append (ctx : SecurityContext) (left right : List Presented) :
    ctx.evidenceCount (left ++ right) =
      ctx.evidenceCount left + (run verifyStep ctx left).evidenceCount right := by
  induction left generalizing ctx with
  | nil => simp [evidenceCount]
  | cons frame frames ih => simp [evidenceCount, ih, Nat.add_assoc]

theorem toNat_saturatingSucc8 (n : UInt8) :
    (saturatingSucc8 n).toNat = min 255 (n.toNat + 1) := by
  have hbound := n.toNat_lt
  have hmax : n = 0xFF ↔ n.toNat = 255 := by
    rw [← UInt8.toNat_inj]
    rfl
  by_cases hn : n = 0xFF
  · simp [saturatingSucc8, hn]
  · have hne : n.toNat ≠ 255 := fun h => hn (hmax.mpr h)
    have hsucc : (n + 1).toNat = (n.toNat + 1) % 256 := UInt8.toNat_add n 1
    simp only [saturatingSucc8, beq_iff_eq, hn, if_false, hsucc]
    omega

/-! ## One call -/

theorem verify_of_evidence {ctx : SecurityContext} {frame : Presented}
    (hevidence : ctx.evidence frame = true) :
    ctx.state = .secured ∧ frame.inst.authenticated = true ∧
      (ctx.verifyStep frame).consecutiveFails = saturatingSucc8 ctx.consecutiveFails ∧
      (ctx.verifyStep frame).state =
        if ctx.policy.lockoutAfter ≤ saturatingSucc8 ctx.consecutiveFails then .lockedOut
        else .secured := by
  by_cases hexempt : ctx.Exempt frame
  · simp [evidence, verify_of_exempt hexempt, AuthVerdict.isAttackEvidence] at hevidence
  by_cases hverified : ∃ trailer, ctx.TagVerified frame trailer
  · obtain ⟨trailer, hverified⟩ := hverified
    simp [evidence, verify_of_tagVerified hverified, AuthVerdict.isAttackEvidence] at hevidence
  obtain ⟨verdict, -, hsecured, heq⟩ :=
    verify_of_refused hexempt fun trailer h => hverified ⟨trailer, h⟩
  simp only [evidence, heq] at hevidence
  obtain ⟨hsecured, hcarries⟩ := hsecured hevidence
  obtain ⟨hfails, hstate⟩ := ctx.record_of_evidence hevidence
  exact ⟨hsecured, hcarries, by simp [verifyStep, heq, hfails], by
    simp [verifyStep, heq, hstate, hsecured]⟩

/-- A call without evidence keeps the state; a refusal also keeps the count. -/
theorem verify_of_no_evidence {ctx : SecurityContext} {frame : Presented}
    (hevidence : ctx.evidence frame = false) :
    (ctx.verifyStep frame).state = ctx.state ∧
      ((ctx.verifyStep frame).consecutiveFails = 0 ∨
        (ctx.verifyStep frame).consecutiveFails = ctx.consecutiveFails) ∧
      (¬ ctx.Exempt frame → (∀ trailer, ¬ ctx.TagVerified frame trailer) →
        (ctx.verifyStep frame).consecutiveFails = ctx.consecutiveFails) := by
  by_cases hexempt : ctx.Exempt frame
  · simp [verifyStep, verify_of_exempt hexempt, hexempt]
  by_cases hverified : ∃ trailer, ctx.TagVerified frame trailer
  · obtain ⟨trailer, hverified⟩ := hverified
    simp only [verifyStep, verify_of_tagVerified hverified, true_or, true_and]
    exact fun _ hnot => absurd hverified (hnot trailer)
  obtain ⟨verdict, hpass, -, heq⟩ :=
    verify_of_refused hexempt fun trailer h => hverified ⟨trailer, h⟩
  simp only [evidence, heq] at hevidence
  obtain ⟨hstate, hfails⟩ := ctx.record_of_not_evidence hpass hevidence
  simp [verifyStep, heq, hstate, hfails]

theorem verifyStep_policy (ctx : SecurityContext) (frame : Presented) :
    (ctx.verifyStep frame).policy = ctx.policy :=
  ctx.verify_policy frame

theorem run_verifyStep_policy (ctx : SecurityContext) (frames : List Presented) :
    (run verifyStep ctx frames).policy = ctx.policy :=
  run_invariant verifyStep (fun later => later.policy = ctx.policy)
    (fun later frame h => (later.verifyStep_policy frame).trans h) rfl frames

/-! ## Runs of calls -/

/-- A locked-out context produces no further evidence. -/
theorem evidenceCount_of_lockedOut {ctx : SecurityContext} (hlocked : ctx.state = .lockedOut)
    (frames : List Presented) :
    ctx.evidenceCount frames = 0 ∧ (run verifyStep ctx frames).state = .lockedOut := by
  induction frames generalizing ctx with
  | nil => exact ⟨rfl, hlocked⟩
  | cons frame frames ih =>
      have hnone : ctx.evidence frame = false := by
        by_contra h
        have hsecured := (verify_of_evidence (Bool.of_not_eq_false h)).1
        simp [hlocked] at hsecured
      have hstate := (verify_of_no_evidence hnone).1.trans hlocked
      simpa [evidenceCount, hnone] using ih hstate

theorem run_verifyStep_state {ctx : SecurityContext} (hsecured : ctx.state = .secured)
    (frames : List Presented) :
    (run verifyStep ctx frames).state = .secured ∨
      (run verifyStep ctx frames).state = .lockedOut := by
  refine run_invariant verifyStep (fun ctx => ctx.state = .secured ∨ ctx.state = .lockedOut)
    (fun ctx frame h => ?_) (.inl hsecured) frames
  rcases ctx.verify_state frame with hsame | ⟨-, hlocked⟩
  · rwa [verifyStep, hsame]
  · exact .inr hlocked

theorem secured_of_evidenceCount_zero {ctx : SecurityContext} (hsecured : ctx.state = .secured)
    {frames : List Presented} (hcount : ctx.evidenceCount frames = 0) :
    (run verifyStep ctx frames).state = .secured := by
  induction frames generalizing ctx with
  | nil => exact hsecured
  | cons frame frames ih =>
      simp only [evidenceCount, Nat.add_eq_zero_iff, Bool.toNat_eq_zero] at hcount
      exact ih ((verify_of_no_evidence hcount.1).1.trans hsecured) hcount.2

/-- Too little evidence for the threshold leaves a session secured. -/
theorem secured_of_evidenceCount_lt {ctx : SecurityContext} (hsecured : ctx.state = .secured)
    {frames : List Presented}
    (hcount : ctx.consecutiveFails.toNat + ctx.evidenceCount frames <
      ctx.policy.lockoutAfter.toNat) :
    (run verifyStep ctx frames).state = .secured := by
  induction frames generalizing ctx with
  | nil => exact hsecured
  | cons frame frames ih =>
      simp only [evidenceCount] at hcount
      cases hevidence : ctx.evidence frame with
      | false =>
          obtain ⟨hstate, hfails, -⟩ := verify_of_no_evidence hevidence
          refine ih (hstate.trans hsecured) ?_
          simp only [hevidence, Bool.toNat_false, Nat.zero_add] at hcount
          rw [verifyStep_policy]
          rcases hfails with h | h
          · rw [h]
            simp only [UInt8.toNat_zero]
            omega
          · rwa [h]
      | true =>
          obtain ⟨-, -, hfails, hstate⟩ := verify_of_evidence hevidence
          have hsucc := toNat_saturatingSucc8 ctx.consecutiveFails
          simp only [hevidence, Bool.toNat_true] at hcount
          have hbelow : ¬ ctx.policy.lockoutAfter ≤ saturatingSucc8 ctx.consecutiveFails := by
            rw [UInt8.le_iff_toNat_le]
            omega
          refine ih (by rw [hstate, if_neg hbelow]) ?_
          rw [verifyStep_policy, hfails, hsucc]
          omega

/-- The calls whose frame is neither verified nor exempt only ever add to the
count of consecutive failures. -/
theorem fails_of_refused {ctx : SecurityContext} (hsecured : ctx.state = .secured)
    {frames : List Presented}
    (hunverified : Meets verifyStep
      (fun ctx frame => ∀ trailer, ¬ ctx.TagVerified frame trailer) ctx frames)
    (htagged : ∀ frame ∈ frames,
      frame.inst.authenticated = true ∨ ctx.policy.requiresTag frame.inst = true) :
    (run verifyStep ctx frames).state = .lockedOut ∨
      (run verifyStep ctx frames).state = .secured ∧
      min 255 (ctx.consecutiveFails.toNat + ctx.evidenceCount frames) ≤
        (run verifyStep ctx frames).consecutiveFails.toNat := by
  induction frames generalizing ctx with
  | nil => exact .inr ⟨hsecured, by simp [evidenceCount]⟩
  | cons frame frames ih =>
      have hexempt : ¬ ctx.Exempt frame := by
        rintro ⟨hlocked | hcarries, hneeds⟩
        · simp [hsecured] at hlocked
        · rcases htagged frame (by simp) with h | h
          · simp [h] at hcarries
          · simp [h] at hneeds
      have htagged' : ∀ other ∈ frames, other.inst.authenticated = true ∨
          (ctx.verifyStep frame).policy.requiresTag other.inst = true := by
        intro other hmem
        rw [verifyStep_policy]
        exact htagged other (by simp [hmem])
      simp only [run_cons, evidenceCount]
      cases hevidence : ctx.evidence frame with
      | false =>
          obtain ⟨hstate, -, hfails⟩ := verify_of_no_evidence hevidence
          have hrest := ih (hstate.trans hsecured) hunverified.2 htagged'
          rw [hfails hexempt hunverified.1] at hrest
          simpa using hrest
      | true =>
          obtain ⟨-, -, hfails, hstate⟩ := verify_of_evidence hevidence
          by_cases hreached : ctx.policy.lockoutAfter ≤ saturatingSucc8 ctx.consecutiveFails
          · rw [if_pos hreached] at hstate
            exact .inl (evidenceCount_of_lockedOut hstate frames).2
          · rw [if_neg hreached] at hstate
            have hrest := ih hstate hunverified.2 htagged'
            rw [hfails, toNat_saturatingSucc8] at hrest
            refine hrest.imp_right fun ⟨hs, hle⟩ => ⟨hs, ?_⟩
            simp only [Bool.toNat_true]
            omega

/-- Calls from a first to a last attack-evidence verdict, as many of them as
the policy tolerates, none of them on a frame whose tag verified. -/
structure EvidenceSpan (ctx : SecurityContext) (frames : List Presented) : Prop where
  opens : ∃ first rest, frames = first :: rest ∧ ctx.evidence first = true
  closes : ∃ init last, frames = init ++ [last] ∧
    (run verifyStep ctx init).evidence last = true
  count : ctx.evidenceCount frames = ctx.policy.lockoutAfter.toNat
  unverified : Meets verifyStep
    (fun ctx frame => ∀ trailer, ¬ ctx.TagVerified frame trailer) ctx frames

/-- Every frame of the span carries a tag or was required to. -/
theorem EvidenceSpan.lockedOut {ctx : SecurityContext} {frames : List Presented}
    (hspan : ctx.EvidenceSpan frames) (hsecured : ctx.state = .secured)
    (htagged : ∀ frame ∈ frames,
      frame.inst.authenticated = true ∨ ctx.policy.requiresTag frame.inst = true) :
    (run verifyStep ctx frames).state = .lockedOut := by
  obtain ⟨init, last, rfl, hlast⟩ := hspan.closes
  have hcount := hspan.count
  rw [evidenceCount_append] at hcount
  simp only [evidenceCount, hlast, Bool.toNat_true, Nat.add_zero] at hcount
  obtain ⟨hbefore, -, -, hstate⟩ := verify_of_evidence hlast
  rw [run_append, run_cons, run_nil, hstate, if_pos]
  have hpolicy := ctx.run_verifyStep_policy init
  rcases fails_of_refused hsecured ((Meets.append verifyStep).mp hspan.unverified).1
    (fun frame hmem => htagged frame (by simp [hmem])) with h | ⟨-, hfails⟩
  · simp [h] at hbefore
  · have hbound := ctx.policy.lockoutAfter.toNat_lt
    rw [UInt8.le_iff_toNat_le, hpolicy, toNat_saturatingSucc8]
    omega

/-- An exempt frame inside the span restarts the count, and too little
evidence is left to reach the threshold. -/
theorem EvidenceSpan.secured {ctx : SecurityContext} {frames : List Presented}
    (hspan : ctx.EvidenceSpan frames) (hsecured : ctx.state = .secured)
    {frame : Presented} (hmem : frame ∈ frames) (hcarries : frame.inst.authenticated = false)
    (hneeds : ctx.policy.requiresTag frame.inst = false) :
    (run verifyStep ctx frames).state = .secured := by
  obtain ⟨left, right, rfl⟩ := List.append_of_mem hmem
  have hcount := hspan.count
  rw [evidenceCount_append] at hcount
  obtain ⟨first, rest, hfirst, hopens⟩ := hspan.opens
  -- the evidence that opens the span stands strictly before the exempt frame
  have hleft : 1 ≤ ctx.evidenceCount left := by
    cases left with
    | nil =>
        obtain ⟨rfl, -⟩ : frame = first ∧ right = rest := by simpa using hfirst
        simp [(verify_of_evidence hopens).2.1] at hcarries
    | cons head left =>
        obtain ⟨rfl, -⟩ : head = first ∧ left ++ frame :: right = rest := by simpa using hfirst
        simp [evidenceCount, hopens]
  have hnone : (run verifyStep ctx left).evidence frame = false := by
    by_contra h
    simp [(verify_of_evidence (Bool.of_not_eq_false h)).2.1] at hcarries
  have hbefore : (run verifyStep ctx left).state = .secured := by
    refine (run_verifyStep_state hsecured left).resolve_right fun hlocked => ?_
    obtain ⟨init, last, hsplit, hcloses⟩ := hspan.closes
    rcases List.eq_nil_or_concat right with rfl | ⟨middle, final, rfl⟩
    · obtain ⟨rfl, rfl⟩ : left = init ∧ frame = last := by simpa using hsplit
      simp [hnone] at hcloses
    · have hends : left ++ frame :: middle ++ [final] = init ++ [last] := by
        simpa using hsplit
      obtain ⟨rfl, -⟩ := List.append_inj' hends rfl
      rw [run_append] at hcloses
      have hlater := (evidenceCount_of_lockedOut hlocked (frame :: middle)).2
      rw [(verify_of_evidence hcloses).1] at hlater
      cases hlater
  have hexempt : (run verifyStep ctx left).Exempt frame :=
    ⟨.inr hcarries, by rw [run_verifyStep_policy]; exact hneeds⟩
  have hfails : ((run verifyStep ctx left).verifyStep frame).consecutiveFails = 0 := by
    simp [verifyStep, verify_of_exempt hexempt]
  rw [run_append, run_cons]
  refine secured_of_evidenceCount_lt ((verify_of_no_evidence hnone).1.trans hbefore) ?_
  simp only [evidenceCount, hnone, Bool.toNat_false, Nat.zero_add] at hcount
  rw [verifyStep_policy, run_verifyStep_policy, hfails, UInt8.toNat_zero]
  omega

/-- After as many attack-evidence verdicts as the policy tolerates, with no
verified tag among them, the session is locked out exactly when no untagged
frame that the policy lets through came in between. -/
theorem lockedOut_iff_no_exempt_between (ctx : SecurityContext) (hsecured : ctx.state = .secured)
    (before frames : List Presented) (hquiet : ctx.evidenceCount before = 0)
    (hspan : (run verifyStep ctx before).EvidenceSpan frames) :
    (run verifyStep ctx (before ++ frames)).state = .lockedOut ↔
      ∀ frame ∈ frames,
        frame.inst.authenticated = true ∨ ctx.policy.requiresTag frame.inst = true := by
  have hstart := secured_of_evidenceCount_zero hsecured hquiet
  have hpolicy := ctx.run_verifyStep_policy before
  rw [run_append]
  constructor
  · intro hlocked frame hmem
    by_contra htagged
    obtain ⟨hcarries, hneeds⟩ := not_or.mp htagged
    have hsecured' := hspan.secured hstart hmem (by simpa using hcarries)
      (by rw [hpolicy]; simpa using hneeds)
    simp [hsecured'] at hlocked
  · intro htagged
    exact hspan.lockedOut hstart (by rw [hpolicy]; exact htagged)

end SecurityContext

/-- Two forged frames, an untagged `PING`, and a third forged frame. -/
def interleavedAttack : List Presented :=
  [saveFrame 0 0 0 0 0, saveFrame 0 0 0 0 0, ⟨⟨0x10⟩, false, [5, 3, 0x10]⟩, saveFrame 0 0 0 0 0]

theorem interleaved_attack_stays_secured :
    benchSession.EvidenceSpan interleavedAttack ∧
      (run SecurityContext.verifyStep benchSession interleavedAttack).state ≠ .lockedOut :=
  ⟨⟨⟨_, _, rfl, by decide +kernel⟩,
      ⟨interleavedAttack.take 3, saveFrame 0 0 0 0 0, rfl, by decide +kernel⟩,
      by decide +kernel, by decide +kernel⟩, by decide +kernel⟩

/-- Three forged frames in a row. -/
theorem plain_attack_locked_out :
    (run SecurityContext.verifyStep benchSession
      ([] ++ [saveFrame 0 0 0 0 0, saveFrame 0 0 0 0 0, saveFrame 0 0 0 0 0])).state =
      .lockedOut :=
  (SecurityContext.lockedOut_iff_no_exempt_between benchSession rfl [] _ rfl
    ⟨⟨_, _, rfl, by decide +kernel⟩,
      ⟨[saveFrame 0 0 0 0 0, saveFrame 0 0 0 0 0], saveFrame 0 0 0 0 0, rfl, by decide +kernel⟩,
      by decide +kernel, by decide +kernel⟩).mpr (by decide)

/-! ## After a lockout -/

/-- The policy in force after these operations. -/
def policyAfter (policy : Policy) : List Op → Policy
  | [] => policy
  | .setPolicy next :: ops => policyAfter next ops
  | _ :: ops => policyAfter policy ops

namespace SecurityContext

/-- Until the next install a locked-out context stays locked out or, once
cleared, unsecured; only `setPolicy` moves the policy. -/
theorem run_of_lockedOut {ctx : SecurityContext} {ops : List Op}
    (hstate : ctx.state = .lockedOut ∨ ctx.state = .unsecured)
    (hops : ∀ op ∈ ops, op.isInstall = false) :
    (run step ctx ops).state = (if .clear ∈ ops then .unsecured else ctx.state) ∧
      (run step ctx ops).policy = policyAfter ctx.policy ops := by
  induction ops generalizing ctx with
  | nil => simp [policyAfter]
  | cons op ops ih =>
      have hrest : ∀ other ∈ ops, other.isInstall = false :=
        fun other hmem => hops other (by simp [hmem])
      have hkeep : ∀ next : SecurityContext, ctx.step op = next → next.state = ctx.state →
          next.policy = ctx.policy → op ≠ .clear →
          policyAfter ctx.policy (op :: ops) = policyAfter ctx.policy ops →
          (run step ctx (op :: ops)).state =
              (if .clear ∈ op :: ops then .unsecured else ctx.state) ∧
            (run step ctx (op :: ops)).policy = policyAfter ctx.policy (op :: ops) := by
        intro next hnext hsame hpolicy hclear hafter
        obtain ⟨ih₁, ih₂⟩ := @ih next (by rwa [hsame]) hrest
        rw [run_cons, hnext, ih₁, ih₂, hsame, hpolicy, hafter]
        simp [List.mem_cons, Ne.symm hclear]
      cases op with
      | setPolicy policy =>
          obtain ⟨ih₁, ih₂⟩ := @ih (ctx.setPolicy policy) hstate hrest
          simp only [run_cons, step, ih₁, ih₂, policyAfter, List.mem_cons, reduceCtorEq, false_or]
          simp [setPolicy]
      | install keys => simpa [Op.isInstall] using hops (.install keys)
      | clear =>
          obtain ⟨ih₁, ih₂⟩ := @ih ctx.clear (.inr rfl) hrest
          simp only [run_cons, step, ih₁, ih₂, policyAfter, List.mem_cons, true_or, if_true]
          simp [clear]
      | fold inst segA segB =>
          obtain ⟨stream, h⟩ := ctx.fold_frame inst segA segB
          exact hkeep _ h rfl rfl (by simp) rfl
      | rollbackStream =>
          obtain ⟨stream, h⟩ := ctx.rollbackStream_frame
          exact hkeep _ h rfl rfl (by simp) rfl
      | closeCycle =>
          obtain ⟨stream, h⟩ := ctx.closeCycle_frame
          exact hkeep _ h rfl rfl (by simp) rfl
      | verify frame =>
          refine hkeep _ rfl ?_ (ctx.verify_policy frame) (by simp) rfl
          rcases ctx.verify_state frame with h | ⟨h, -⟩
          · exact h
          · simp [h] at hstate

/-- What a lockout refuses until the next install: an effect-bearing frame is
let through unless the policy then in force demands tags, or the session was
cleared and the frame carries a tag nobody can verify. -/
theorem lockedOut_refuses_iff (ctx : SecurityContext) (hlocked : ctx.state = .lockedOut)
    (ops : List Op) (hops : ∀ op ∈ ops, op.isInstall = false) (frame : Presented)
    (heffect : Policy.effectBearing frame.inst = true) :
    ((run step ctx ops).verify frame.inst frame.broadcast frame.covered).1 ≠ .pass ↔
      (policyAfter ctx.policy ops).requireAuth = true ∨
        (.clear ∈ ops ∧ frame.inst.authenticated = true) := by
  obtain ⟨hstate, hpolicy⟩ := run_of_lockedOut (.inl hlocked) hops
  have hverified : ¬ ∃ trailer, (run step ctx ops).TagVerified frame trailer := by
    rintro ⟨trailer, h⟩
    have hsecured := h.secured
    rw [hstate] at hsecured
    split at hsecured <;> simp [hlocked] at hsecured
  have hexempt : (run step ctx ops).Exempt frame ↔
      (.clear ∉ ops ∨ frame.inst.authenticated = false) ∧
        (policyAfter ctx.policy ops).requireAuth = false := by
    rw [Exempt, hstate, hpolicy, Policy.requiresTag_of_effectBearing heffect, hlocked]
    by_cases hclear : .clear ∈ ops <;> simp [hclear]
  rw [Ne, verify_pass_iff, or_iff_right hverified, hexempt]
  cases (policyAfter ctx.policy ops).requireAuth <;> simp

end SecurityContext

/-- Loosening the policy after three forged frames. -/
theorem open_policy_rearms_lockedOut :
    (run SecurityContext.verifyStep benchSession
        [saveFrame 0 0 0 0 0, saveFrame 0 0 0 0 0, saveFrame 0 0 0 0 0]).state = .lockedOut ∧
      Policy.effectBearing ⟨0x70⟩ = true ∧
      ((run SecurityContext.step
        (run SecurityContext.verifyStep benchSession
          [saveFrame 0 0 0 0 0, saveFrame 0 0 0 0 0, saveFrame 0 0 0 0 0])
        [.setPolicy .open]).verify ⟨0x70⟩ false [5, 4, 0x70, 4]).1 = .pass := by
  decide +kernel

/-- Under the flight policy a locked-out servo refuses an untagged reboot. -/
theorem flight_policy_refuses_reboot :
    ((run SecurityContext.step { benchSession with state := .lockedOut }
      [.rollbackStream]).verify ⟨0x70⟩ false [5, 4, 0x70, 4]).1 ≠ .pass :=
  (SecurityContext.lockedOut_refuses_iff { benchSession with state := .lockedOut } rfl
    [.rollbackStream] (by decide) ⟨⟨0x70⟩, false, [5, 4, 0x70, 4]⟩ (by decide)).mpr
    (.inl (by decide))

end OpenServo.Security
