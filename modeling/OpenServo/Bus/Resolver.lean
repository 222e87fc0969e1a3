import OpenServo.Bus.Framer

/-!
# One step of the resolver, case by case

Where the ladder stands is measured from a base index of the ring: `pos` bytes
are behind it, `total` bytes have landed.  `resolve_cases` says everything one
step can do in these terms; the stream and the recovery results are derived
from it alone.
-/

namespace OpenServo.Bus

/-- The ladder stands `pos` bytes and the cursor `total` bytes past `base`. -/
structure Stands (framer : Framer) (ring : Ring) (base pos total : ℕ) : Prop where
  anchor : framer.anchor = (base + pos) % ring.len
  cursor : ring.cursor = (base + total) % ring.len
  behind : pos ≤ total
  lap : total < pos + ring.len

theorem Stands.anchor_lt {framer : Framer} {ring : Ring} {base pos total : ℕ}
    (h : Stands framer ring base pos total) : framer.anchor < ring.len := by
  rw [h.anchor]
  exact Nat.mod_lt _ ring.len_pos

/-- Indices less than a lap apart are as far apart on the ring. -/
theorem Ring.dist_mod (ring : Ring) (i : ℕ) {gap : ℕ} (hgap : gap < ring.len) :
    dist ((i + gap) % ring.len) (i % ring.len) ring.len = gap := by
  have hi := Nat.mod_lt i ring.len_pos
  rw [Bus.dist, ring.ringWrap_len, ← Nat.mod_add_mod]
  generalize i % ring.len = a at hi
  by_cases hwrap : a + gap < ring.len
  · rw [Nat.mod_eq_of_lt hwrap]
    have hsum : a + gap + ring.len - a = gap + ring.len := by omega
    rw [hsum, Nat.add_mod_right, Nat.mod_eq_of_lt hgap]
  · have hmod : (a + gap) % ring.len = a + gap - ring.len := by
      rw [Nat.mod_eq_sub_mod (by omega), Nat.mod_eq_of_lt (by omega)]
    have hsum : a + gap - ring.len + ring.len - a = gap := by omega
    rw [hmod, hsum, Nat.mod_eq_of_lt hgap]

/-- The bytes ringed since the anchor. -/
theorem Stands.dist {framer : Framer} {ring : Ring} {base pos total : ℕ}
    (h : Stands framer ring base pos total) :
    dist ring.cursor framer.anchor ring.len = total - pos := by
  have hlap := h.lap
  obtain ⟨gap, rfl⟩ := Nat.exists_eq_add_of_le h.behind
  rw [h.anchor, h.cursor, ← Nat.add_assoc, ring.dist_mod _ (by omega), Nat.add_sub_cancel_left]

/-- A byte past the ladder. -/
theorem Stands.byteAt {framer : Framer} {ring : Ring} {base pos total : ℕ}
    (h : Stands framer ring base pos total) (i : ℕ) :
    ring.byteAt (framer.anchor + i) = ring.byteAt (base + pos + i) := by
  rw [h.anchor, ← ring.byteAt_mod, Nat.mod_add_mod, ring.byteAt_mod]

namespace Framer

/-- A break with plausible geometry at index `i`, `received` bytes deep. -/
def PlausibleAt (ring : Ring) (i received : ℕ) : Prop :=
  ring.byteAt i = breakRingByte ∧ (received < headerSpanBytes ∨ 3 ≤ ring.byteAt (i + 2))

theorem plausibleHead_iff {framer : Framer} {ring : Ring} {received : ℕ} :
    framer.plausibleHead ring received = true ↔ PlausibleAt ring framer.anchor received := by
  simp only [plausibleHead, PlausibleAt, Bool.and_eq_true, beq_iff_eq, Bool.or_eq_true,
    decide_eq_true_eq, ge_iff_le]

/-- The framer after `n` skipped bytes. -/
def skipped (framer : Framer) (ring : Ring) (n : ℕ) : Framer :=
  if n = 0 then framer
  else
    { framer with
      hunting := true
      anchor := ringWrap (framer.anchor + n) ring.len
      frontier := .idle }

/-- What the step does at a plausible candidate. -/
def atCandidate (framer : Framer) (ring : Ring) (received : ℕ) (now tpb : UInt32) :
    Framer × FramerOut :=
  if received < headerSpanBytes then
    framer.wait (now + wireLead (UInt32.ofNat (headerSpanBytes - received)) tpb
      + tpb / breakTailEpsDiv) now tpb ring.cursor ring.len
  else framer.resolveHeader ring received now tpb

/-- How a hunt over `received` bytes ends: all of them skipped, the budget used
up, or a plausible candidate found.  Every skipped byte was implausible. -/
inductive HuntEnd (framer : Framer) (ring : Ring) (now : UInt32) (received : ℕ) :
    Framer × (FramerOut ⊕ ℕ) → Prop where
  | scanned : (∀ i < received, ¬ PlausibleAt ring (framer.anchor + i) (received - i)) →
      HuntEnd framer ring now received (framer.skipped ring received, .inl .none)
  | spent (n : ℕ) : 0 < n → n < received →
      (∀ i < n, ¬ PlausibleAt ring (framer.anchor + i) (received - i)) →
      HuntEnd framer ring now received (framer.skipped ring n, .inl (.wait now))
  | found (n : ℕ) : n < received →
      (∀ i < n, ¬ PlausibleAt ring (framer.anchor + i) (received - i)) →
      PlausibleAt ring (framer.anchor + n) (received - n) →
      HuntEnd framer ring now received (framer.skipped ring n, .inr (received - n))

theorem skip_skipped (framer : Framer) (ring : Ring) (n : ℕ) :
    (framer.skip ring).skipped ring n = framer.skipped ring (n + 1) := by
  have hwrap : ringWrap (ringWrap (framer.anchor + 1) ring.len + n) ring.len =
      ringWrap (framer.anchor + (n + 1)) ring.len := by
    simp only [ring.ringWrap_len]
    rw [Nat.mod_add_mod, Nat.add_assoc, Nat.add_comm 1 n]
  cases n with
  | zero => simp [skipped, skip]
  | succ n =>
      simp only [skipped, skip, Nat.add_eq_zero_iff, one_ne_zero, and_false, if_false, hwrap]

theorem skipped_skipped (framer : Framer) {ring ring' : Ring} (hlen : ring'.len = ring.len)
    (m n : ℕ) : (framer.skipped ring m).skipped ring' n = framer.skipped ring (m + n) := by
  have hwrap : ringWrap (ringWrap (framer.anchor + m) ring.len + n) ring.len =
      ringWrap (framer.anchor + (m + n)) ring.len := by
    simp only [ring.ringWrap_len]
    rw [Nat.mod_add_mod, Nat.add_assoc]
  cases n with
  | zero => simp [skipped]
  | succ n =>
      cases m with
      | zero => simp [skipped, hlen]
      | succ m =>
          simp only [skipped, Nat.add_eq_zero_iff, one_ne_zero, and_false, if_false, hlen, hwrap]

theorem byteAt_skip (framer : Framer) (ring : Ring) (i : ℕ) :
    ring.byteAt ((framer.skip ring).anchor + i) = ring.byteAt (framer.anchor + (i + 1)) := by
  rw [skip, ring.ringWrap_len, ← ring.byteAt_mod, Nat.mod_add_mod, ring.byteAt_mod]
  congr 1
  omega

theorem PlausibleAt.skip_iff {framer : Framer} {ring : Ring} {i received : ℕ} :
    PlausibleAt ring ((framer.skip ring).anchor + i) received ↔
      PlausibleAt ring (framer.anchor + (i + 1)) received := by
  have hlen := framer.byteAt_skip ring (i + 2)
  rw [← Nat.add_assoc] at hlen
  rw [PlausibleAt, PlausibleAt, framer.byteAt_skip, hlen]
  rfl

/-- A hunt that meets no break skips everything, budget permitting. -/
theorem hunt_unbroken (ring : Ring) (now : UInt32) {budget received : ℕ} {framer : Framer}
    (hpos : 0 < received) (hbudget : received ≤ budget)
    (hunbroken : ∀ i < received, ring.byteAt (framer.anchor + i) ≠ breakRingByte) :
    hunt ring now budget framer received = (framer.skipped ring received, .inl .none) := by
  induction budget generalizing framer received with
  | zero => omega
  | succ budget ih =>
      obtain ⟨rest, rfl⟩ : ∃ rest, received = rest + 1 := ⟨received - 1, by omega⟩
      have hskip : framer.plausibleHead ring (rest + 1) ≠ true := by
        intro hplausible
        exact hunbroken 0 hpos (plausibleHead_iff.mp hplausible).1
      rw [hunt, if_neg hskip, Nat.add_sub_cancel, ← skip_skipped]
      by_cases hdone : rest = 0
      · simp [hdone, skipped]
      · dsimp only
        rw [if_neg (by simpa using hdone), ih (Nat.pos_of_ne_zero hdone) (by omega)]
        intro i hi
        rw [byteAt_skip]
        exact hunbroken (i + 1) (by omega)

theorem hunt_end (ring : Ring) (now : UInt32) (budget : ℕ) (framer : Framer) (received : ℕ)
    (hbudget : 0 < budget) (hreceived : 0 < received) :
    HuntEnd framer ring now received (hunt ring now budget framer received) := by
  induction budget generalizing framer received with
  | zero => omega
  | succ budget ih =>
      simp only [hunt]
      split
      · rename_i hplaus
        have hfound :
            HuntEnd framer ring now received (framer.skipped ring 0, .inr (received - 0)) :=
          .found 0 hreceived (fun i hi => absurd hi (Nat.not_lt_zero i))
            (plausibleHead_iff.mp hplaus)
        exact hfound
      · rename_i hnot
        rw [plausibleHead_iff] at hnot
        have hone : (framer.skip ring) = framer.skipped ring 1 := skip_skipped framer ring 0
        -- every position skipped before, one further in
        have hshift : ∀ {n : ℕ}, (∀ i < n, ¬ PlausibleAt ring ((framer.skip ring).anchor + i)
            (received - 1 - i)) →
            ∀ i < n + 1, ¬ PlausibleAt ring (framer.anchor + i) (received - i) := by
          intro n hskip i hi
          cases i with
          | zero => exact hnot
          | succ i =>
              have hprev := hskip i (by omega)
              rwa [PlausibleAt.skip_iff, show received - 1 - i = received - (i + 1) by omega]
                at hprev
        have hfirst : ∀ i < 1, ¬ PlausibleAt ring (framer.anchor + i) (received - i) := by
          intro i hi
          obtain rfl : i = 0 := by omega
          exact hnot
        split
        · rename_i hlast
          rw [beq_iff_eq] at hlast
          obtain rfl : received = 1 := by omega
          rw [hone]
          exact .scanned hfirst
        · rename_i hmore
          rw [beq_iff_eq] at hmore
          cases budget with
          | zero =>
              rw [hunt, hone]
              exact .spent 1 (by omega) (by omega) hfirst
          | succ budget =>
              have hrest := ih (framer.skip ring) (received - 1) (by omega) (by omega)
              generalize hunt ring now (budget + 1) (framer.skip ring) (received - 1) = out at hrest
              cases hrest with
              | scanned hskip =>
                  rw [skip_skipped, show received - 1 + 1 = received by omega]
                  refine .scanned ?_
                  have hall := hshift hskip
                  rwa [show received - 1 + 1 = received by omega] at hall
              | spent n hpos hlt hskip =>
                  rw [skip_skipped]
                  exact .spent (n + 1) (by omega) (by omega) (hshift hskip)
              | found n hlt hskip hplaus =>
                  rw [skip_skipped, show received - 1 - n = received - (n + 1) by omega]
                  rw [PlausibleAt.skip_iff, show received - 1 - n = received - (n + 1) by omega]
                    at hplaus
                  exact .found (n + 1) (by omega) (hshift hskip) hplaus

/-- The frontier made no progress since it was last observed and its starve
horizon has passed. -/
def Starved (framer : Framer) (cursor : ℕ) (now tpb : UInt32) : Prop :=
  framer.frontier.observed = true ∧ cursor = framer.frontier.seen ∧
    tickReached now (framer.frontier.progressTick + starveHorizonByteTimes * tpb) = true

instance (framer : Framer) (cursor : ℕ) (now tpb : UInt32) :
    Decidable (framer.Starved cursor now tpb) :=
  inferInstanceAs (Decidable (_ ∧ _ ∧ _))

/-- The bytes a candidate claims. -/
def claimed (ring : Ring) (i : ℕ) : ℕ := footprint (ring.byteAt (i + 2))

/-- The candidate at the ladder is not whole yet. -/
def Partial (framer : Framer) (ring : Ring) (received : ℕ) : Prop :=
  received < headerSpanBytes ∨ received < claimed ring framer.anchor

/-- What one step does at a plausible candidate. -/
inductive CandidateEnd (framer : Framer) (ring : Ring) (received : ℕ) (now tpb : UInt32) :
    Framer × FramerOut → Prop where
  | parked (due : UInt32) : framer.Partial ring received →
      ¬ framer.Starved ring.cursor now tpb →
      CandidateEnd framer ring received now tpb
        ({ framer with frontier := framer.frontier.advance ring.cursor now }, .wait due)
  | died (drops : UInt32) : framer.Partial ring received →
      framer.Starved ring.cursor now tpb →
      CandidateEnd framer ring received now tpb
        ({ framer with
            hunting := true
            drops := drops
            anchor := ringWrap (framer.anchor + 1) ring.len
            frontier := .idle }, .wait now)
  | covered (packetEnd : UInt32) : framer.Partial ring received → headerSpanBytes ≤ received →
      framer.frontier.covered = false →
      CandidateEnd framer ring received now tpb
        ({ framer with
            frontier := { framer.frontier.advance ring.cursor now with covered := true } },
          .covered ⟨framer.anchor, claimed ring framer.anchor, packetEnd⟩ packetEnd)
  | whole : headerSpanBytes ≤ received → claimed ring framer.anchor ≤ received →
      CandidateEnd framer ring received now tpb
        ({ framer with
            anchor := ringWrap (framer.anchor + claimed ring framer.anchor) ring.len
            frontier := .idle },
          .frame ⟨framer.anchor, claimed ring framer.anchor, now⟩)

theorem wait_end (framer : Framer) (ring : Ring) (received : ℕ) (aim now tpb : UInt32)
    (hpart : framer.Partial ring received) :
    CandidateEnd framer ring received now tpb (framer.wait aim now tpb ring.cursor ring.len) := by
  -- a stalled frontier keeps its watermark and its tick
  have hsame : framer.frontier.observed = true → ring.cursor = framer.frontier.seen →
      framer.frontier.advance ring.cursor now = framer.frontier := by
    intro hobserved hseen
    simp [Frontier.advance, hobserved, hseen]
  simp only [wait]
  split
  · rename_i hdead
    simp only [Bool.and_eq_true, beq_iff_eq] at hdead
    obtain ⟨⟨hobserved, hseen⟩, htick⟩ := hdead
    rw [hsame hobserved hseen] at htick ⊢
    have hstarved : framer.Starved ring.cursor now tpb := ⟨hobserved, hseen, htick⟩
    simp only [giveUp]
    split
    · exact .died _ hpart hstarved
    · rename_i hhunting
      simp only [Bool.not_eq_true', Bool.not_eq_false] at hhunting
      have hdied : CandidateEnd framer ring received now tpb _ :=
        .died framer.drops hpart hstarved
      rw [← hhunting] at hdied
      exact hdied
  · rename_i halive
    refine .parked _ hpart ?_
    rintro ⟨hobserved, hseen, htick⟩
    apply halive
    rw [hsame hobserved hseen]
    simp [hobserved, hseen, htick]

theorem candidate_end (framer : Framer) (ring : Ring) (received : ℕ) (now tpb : UInt32) :
    CandidateEnd framer ring received now tpb (framer.atCandidate ring received now tpb) := by
  simp only [atCandidate]
  split
  · rename_i hshort
    exact framer.wait_end ring received _ now tpb (.inl hshort)
  · rename_i hheader
    simp only [resolveHeader]
    split
    · rename_i hwhole
      exact .whole (Nat.le_of_not_lt hheader) hwhole
    · rename_i hmissing
      have hpart : framer.Partial ring received := .inr (Nat.lt_of_not_le hmissing)
      split
      · rename_i hcovered
        simp only [Bool.and_eq_true, Bool.not_eq_true'] at hcovered
        exact .covered _ hpart (Nat.le_of_not_lt hheader) hcovered.1
      · exact framer.wait_end ring received _ now tpb hpart

/-- What one step does, `received` bytes past the ladder. -/
inductive ResolveEnd (framer : Framer) (ring : Ring) (received : ℕ) (now tpb : UInt32) :
    Framer × FramerOut → Prop where
  | caughtUp : received = 0 →
      ResolveEnd framer ring received now tpb ({ framer with frontier := .idle }, .none)
  | scanned : 0 < received →
      (∀ i < received, ¬ PlausibleAt ring (framer.anchor + i) (received - i)) →
      ResolveEnd framer ring received now tpb (framer.skipped ring received, .none)
  | spent (n : ℕ) : 0 < n → n < received →
      (∀ i < n, ¬ PlausibleAt ring (framer.anchor + i) (received - i)) →
      ResolveEnd framer ring received now tpb (framer.skipped ring n, .wait now)
  | candidate (n : ℕ) (out : Framer × FramerOut) : n < received →
      (∀ i < n, ¬ PlausibleAt ring (framer.anchor + i) (received - i)) →
      PlausibleAt ring (framer.anchor + n) (received - n) →
      CandidateEnd (framer.skipped ring n) ring (received - n) now tpb out →
      ResolveEnd framer ring received now tpb out

theorem resolve_cases (framer : Framer) (ring : Ring) (now tpb : UInt32) :
    ResolveEnd framer ring (dist ring.cursor framer.anchor ring.len) now tpb
      (framer.resolve ring now tpb) := by
  have hlen : (ring.len == 0) = false := beq_false_of_ne ring.len_pos.ne'
  simp only [resolve, hlen, Bool.false_eq_true, if_false]
  split
  · rename_i hzero
    exact .caughtUp (beq_iff_eq.mp hzero)
  · rename_i hpos
    rw [beq_iff_eq] at hpos
    have hhunt := hunt_end ring now huntBytesPerWake framer
      (dist ring.cursor framer.anchor ring.len) (by decide) (by omega)
    generalize hunt ring now huntBytesPerWake framer
      (dist ring.cursor framer.anchor ring.len) = out at hhunt
    cases hhunt with
    | scanned hskip => exact .scanned (by omega) hskip
    | spent n hn hlt hskip => exact .spent n hn hlt hskip
    | found n hlt hskip hplaus =>
        exact .candidate n _ hlt hskip hplaus (candidate_end _ ring _ now tpb)

end Framer

end OpenServo.Bus
