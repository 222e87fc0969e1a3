import OpenServo.Bus.Ring
import OpenServo.Protocol.Parse

/-!
# The frame resolver

The ladder over the receive ring: anchors are derived from the stream, never
sampled, and the clock only schedules when to look again.  `resolve` is one
step against the current ring: it hunts past implausible bytes, reports the
covered checkpoint of the frontier frame once, and then the whole frame.
-/

namespace OpenServo.Bus

/-- Wrap-aware "`a` is at or after `b`" on the tick domain. -/
def tickReached (a b : UInt32) : Bool := a - b < 0x7FFFFFFF

/-- A resolved frame in the ring, with its wire-end estimate. -/
structure FrameSpan where
  anchor : ℕ
  footprint : ℕ
  packetEnd : UInt32
  deriving DecidableEq, Repr

inductive FramerOut where
  | none
  | wait (due : UInt32)
  | covered (span : FrameSpan) (endDue : UInt32)
  | frame (span : FrameSpan)
  deriving DecidableEq, Repr

/-- The frame a resolver output is about. -/
def FramerOut.subject : FramerOut → Option FrameSpan
  | .covered span _ | .frame span => some span
  | .none | .wait _ => Option.none

/-- `p` holds of the frame that ends here, if one does. -/
def FramerOut.AtEnd (p : FrameSpan → Prop) : FramerOut → Prop
  | .frame span => p span
  | _ => True

instance (p : FrameSpan → Prop) [DecidablePred p] : ∀ out : FramerOut, Decidable (out.AtEnd p)
  | .frame span => inferInstanceAs (Decidable (p span))
  | .none | .wait _ | .covered _ _ => .isTrue trivial

def headerSpanBytes : ℕ := Header.size
def breakRingByte : Byte := 0x00
def breakTailEpsDiv : UInt32 := 2
def driftShift : UInt32 := 6
def coveredTailBytes : ℕ := 2
def huntBytesPerWake : ℕ := 64

/-- Wire time for `bytes` more bytes, drift-padded. -/
def wireLead (bytes tpb : UInt32) : UInt32 :=
  let t := bytes * tpb
  t + (t >>> driftShift)

/-- Frontier bookkeeping; schedule hints only. -/
structure Frontier where
  covered : Bool
  observed : Bool
  seen : ℕ
  progressTick : UInt32
  deriving DecidableEq, Repr

namespace Frontier

def idle : Frontier := ⟨false, false, 0, 0⟩

/-- Progress observation: advance the watermark. -/
def advance (frontier : Frontier) (cursor : ℕ) (now : UInt32) : Frontier :=
  if !frontier.observed then { frontier with observed := true, seen := cursor, progressTick := now }
  else if cursor == frontier.seen then frontier
  else { frontier with seen := cursor, progressTick := now }

end Frontier

structure Framer where
  anchor : ℕ
  hunting : Bool
  frontier : Frontier
  /-- Cursor at the last wire-fault service. -/
  faultSeen : ℕ
  drops : UInt32
  deriving DecidableEq, Repr

/-- Bytes ringed since the anchor. -/
def dist (cursor anchor len : ℕ) : ℕ := ringWrap (cursor + len - anchor) len

namespace Framer

def new : Framer := ⟨0, false, .idle, 0, 0⟩

/-- Re-sync the ladder to a known ring position. -/
def resync (framer : Framer) (cursor : ℕ) : Framer :=
  { framer with anchor := cursor, frontier := .idle, faultSeen := cursor }

/-- Freshness of a wire fault: did bytes ring since the last service? -/
def onWireFault (framer : Framer) (cursor : ℕ) : Bool × Framer :=
  if cursor == framer.faultSeen then (false, framer)
  else (true, { framer with faultSeen := cursor })

/-- A resolved frame failed its CRC: resume the hunt one byte in. -/
def onFrameRejected (framer : Framer) (anchor ringLen : ℕ) : Framer :=
  { framer with
    hunting := true
    anchor := ringWrap (anchor + 1) ringLen
    frontier := .idle }

/-- A resolved frame verified: any recovery episode ends here. -/
def onFrameVerified (framer : Framer) : Framer := { framer with hunting := false }

def caughtUp (framer : Framer) (cursor : ℕ) : Bool := framer.anchor == cursor

def probing (framer : Framer) : Bool := framer.hunting

/-- A break with plausible geometry at the ladder, `received` bytes deep. -/
def plausibleHead (framer : Framer) (ring : Ring) (received : ℕ) : Bool :=
  ring.byteAt framer.anchor == breakRingByte &&
    (received < headerSpanBytes || ring.byteAt (framer.anchor + 2) ≥ 3)

/-- One byte of the scan. -/
def skip (framer : Framer) (ring : Ring) : Framer :=
  { framer with
    hunting := true
    anchor := ringWrap (framer.anchor + 1) ring.len
    frontier := .idle }

/-- The bounded hunt: the bytes received at a plausible candidate, or what the
step yields when the scan ran out of bytes or of budget. -/
def hunt (ring : Ring) (now : UInt32) : ℕ → Framer → ℕ → Framer × (FramerOut ⊕ ℕ)
  | 0, framer, _ => (framer, .inl (.wait now))
  | budget + 1, framer, received =>
      if framer.plausibleHead ring received then (framer, .inr received)
      else
        let framer := framer.skip ring
        let received := received - 1
        if received == 0 then (framer, .inl .none)
        else hunt ring now budget framer received

/-- The candidate is dead: sacrifice one byte and resume the hunt. -/
def giveUp (framer : Framer) (ringLen : ℕ) (now : UInt32) : Framer × FramerOut :=
  let framer :=
    if !framer.hunting then { framer with drops := framer.drops + 1, hunting := true }
    else framer
  ({ framer with anchor := ringWrap (framer.anchor + 1) ringLen, frontier := .idle }, .wait now)

/-- Track progress and wake at the sooner of the aim and the starve horizon. -/
def wait (framer : Framer) (aim now tpb : UInt32) (cursor ringLen : ℕ) : Framer × FramerOut :=
  let giveupSpan := starveHorizonByteTimes * tpb
  let stalled := framer.frontier.observed && cursor == framer.frontier.seen
  let framer := { framer with frontier := framer.frontier.advance cursor now }
  let horizon := framer.frontier.progressTick + giveupSpan
  if stalled && tickReached now horizon then framer.giveUp ringLen now
  else (framer, .wait (if aim - now ≤ horizon - now then aim else horizon))

/-- The frontier frame once its header is readable. -/
def resolveHeader (framer : Framer) (ring : Ring) (received : ℕ) (now tpb : UInt32) :
    Framer × FramerOut :=
  let anchor := framer.anchor
  let h := Header.fromBytes (ring.byteAt anchor) (ring.byteAt (anchor + 1))
    (ring.byteAt (anchor + 2)) (ring.byteAt (anchor + 3))
  let footprint := h.frameEnd
  if received ≥ footprint then
    ({ framer with anchor := ringWrap (anchor + footprint) ring.len, frontier := .idle },
      .frame ⟨anchor, footprint, now⟩)
  else
    let missing := footprint - received
    if !framer.frontier.covered && missing ≤ coveredTailBytes then
      let frontier := { framer.frontier.advance ring.cursor now with covered := true }
      let packetEnd := now + wireLead (UInt32.ofNat missing) tpb
      ({ framer with frontier }, .covered ⟨anchor, footprint, packetEnd⟩ packetEnd)
    else
      let toTarget := if framer.frontier.covered then missing else missing - coveredTailBytes
      let aim := now + wireLead (UInt32.ofNat toTarget) tpb
      framer.wait aim now tpb ring.cursor ring.len

/-- One resolution step against the current ring. -/
def resolve (framer : Framer) (ring : Ring) (now tpb : UInt32) : Framer × FramerOut :=
  if ring.len == 0 then (framer, .none)
  else
    let received := dist ring.cursor framer.anchor ring.len
    if received == 0 then ({ framer with frontier := .idle }, .none)
    else
      match hunt ring now huntBytesPerWake framer received with
      | (framer, .inl out) => (framer, out)
      | (framer, .inr received) =>
          if received < headerSpanBytes then
            let aim := now + wireLead (UInt32.ofNat (headerSpanBytes - received)) tpb
              + tpb / breakTailEpsDiv
            framer.wait aim now tpb ring.cursor ring.len
          else framer.resolveHeader ring received now tpb

/-! ## What a resolved span is -/

/-- A span the resolver hands out: it starts at a break byte and is as long as
its LEN byte says. -/
structure Spans (ring : Ring) (span : FrameSpan) : Prop where
  headed : ring.byteAt span.anchor = breakRingByte
  sized : span.footprint = footprint (ring.byteAt (span.anchor + 2))
  geometry : 3 ≤ ring.byteAt (span.anchor + 2)

theorem Spans.footprint_bounds {ring : Ring} {span : FrameSpan} (h : Spans ring span) :
    6 ≤ span.footprint ∧ span.footprint ≤ frameMax := by
  have hlow := UInt8.le_iff_toNat_le.mp h.geometry
  have hhigh := (ring.byteAt (span.anchor + 2)).toNat_lt
  rw [h.sized]
  simp only [footprint, frameMax, UInt8.reduceToNat] at hlow hhigh ⊢
  omega

theorem hunt_spec (ring : Ring) (now : UInt32) (budget : ℕ) (framer : Framer) (received : ℕ) :
    (∀ n, (hunt ring now budget framer received).2 = .inr n →
        (hunt ring now budget framer received).1.plausibleHead ring n = true) ∧
      (∀ out, (hunt ring now budget framer received).2 = .inl out → out.subject = Option.none) ∧
      (framer.anchor < ring.len → (hunt ring now budget framer received).1.anchor < ring.len) := by
  induction budget generalizing framer received with
  | zero => exact ⟨by simp [hunt], by simp [hunt, FramerOut.subject], id⟩
  | succ budget ih =>
      have hskip : (framer.skip ring).anchor < ring.len := by
        rw [skip, ring.ringWrap_len]
        exact Nat.mod_lt _ ring.len_pos
      simp only [hunt]
      split
      · rename_i hplaus
        exact ⟨by simpa using hplaus, by simp, id⟩
      · split
        · exact ⟨by simp, by simp [FramerOut.subject], fun _ => hskip⟩
        · obtain ⟨hfound, hnone, hanchor⟩ := ih (framer.skip ring) (received - 1)
          exact ⟨hfound, hnone, fun _ => hanchor hskip⟩

theorem wait_spec (framer : Framer) (aim now tpb : UInt32) (ring : Ring) :
    (framer.wait aim now tpb ring.cursor ring.len).2.subject = Option.none ∧
      (framer.anchor < ring.len →
        (framer.wait aim now tpb ring.cursor ring.len).1.anchor < ring.len) := by
  have hwrap : ∀ i, ringWrap i ring.len < ring.len := by
    intro i
    rw [ring.ringWrap_len]
    exact Nat.mod_lt _ ring.len_pos
  simp only [wait]
  split
  · exact ⟨rfl, fun _ => hwrap _⟩
  · exact ⟨rfl, id⟩

theorem resolveHeader_spec (framer : Framer) (ring : Ring) (received : ℕ) (now tpb : UInt32)
    (hplaus : framer.plausibleHead ring received = true) (hheader : headerSpanBytes ≤ received) :
    (∀ span, (framer.resolveHeader ring received now tpb).2.subject = some span →
        Spans ring span ∧ span.anchor = framer.anchor) ∧
      (framer.anchor < ring.len →
        (framer.resolveHeader ring received now tpb).1.anchor < ring.len) := by
  simp only [plausibleHead, Bool.and_eq_true, beq_iff_eq, Bool.or_eq_true,
    decide_eq_true_eq] at hplaus
  obtain ⟨hhead, hshort | hlen⟩ := hplaus
  · omega
  have hspans : ∀ packetEnd : UInt32,
      Spans ring ⟨framer.anchor, footprint (ring.byteAt (framer.anchor + 2)), packetEnd⟩ :=
    fun _ => ⟨hhead, rfl, hlen⟩
  simp only [resolveHeader]
  split
  · refine ⟨?_, fun _ => ?_⟩
    · rintro span ⟨⟩
      exact ⟨hspans now, rfl⟩
    · rw [ring.ringWrap_len]
      exact Nat.mod_lt _ ring.len_pos
  · split
    · refine ⟨?_, id⟩
      rintro span ⟨⟩
      exact ⟨hspans _, rfl⟩
    · obtain ⟨hnone, hanchor⟩ := framer.wait_spec _ now tpb ring
      refine ⟨?_, hanchor⟩
      intro span hspan
      rw [hnone] at hspan
      cases hspan

/-- Every span the resolver hands out is a frame in the ring, and the ladder
stays inside the ring. -/
theorem resolve_spec (framer : Framer) (ring : Ring) (now tpb : UInt32) :
    (∀ span, (framer.resolve ring now tpb).2.subject = some span → Spans ring span) ∧
      (framer.anchor < ring.len →
        (framer.resolve ring now tpb).1.anchor < ring.len ∧
          ∀ span, (framer.resolve ring now tpb).2.subject = some span →
            span.anchor < ring.len) := by
  have hlen : (ring.len == 0) = false := beq_false_of_ne ring.len_pos.ne'
  obtain ⟨hfound, hnone, hhunt⟩ :=
    hunt_spec ring now huntBytesPerWake framer (dist ring.cursor framer.anchor ring.len)
  simp only [resolve, hlen, Bool.false_eq_true, if_false]
  split
  · exact ⟨by simp [FramerOut.subject], fun h => ⟨h, by simp [FramerOut.subject]⟩⟩
  · split
    · rename_i framer' out hout
      rw [hout] at hnone hhunt
      have hsilent := hnone out rfl
      refine ⟨?_, fun h => ⟨hhunt h, ?_⟩⟩
      all_goals
        intro span hspan
        rw [hsilent] at hspan
        cases hspan
    · rename_i framer' n hout
      rw [hout] at hfound hhunt
      split
      · obtain ⟨hsilent, hwait⟩ := framer'.wait_spec
          (now + wireLead (UInt32.ofNat (headerSpanBytes - n)) tpb + tpb / breakTailEpsDiv)
          now tpb ring
        refine ⟨?_, fun h => ⟨hwait (hhunt h), ?_⟩⟩
        all_goals
          intro span hspan
          rw [hsilent] at hspan
          cases hspan
      · rename_i hge
        obtain ⟨hspans, hheader⟩ := framer'.resolveHeader_spec ring n now tpb (hfound n rfl)
          (Nat.le_of_not_lt hge)
        refine ⟨fun span h => (hspans span h).1, fun h => ⟨hheader (hhunt h), ?_⟩⟩
        intro span hspan
        rw [(hspans span hspan).2]
        exact hhunt h

end Framer

end OpenServo.Bus
