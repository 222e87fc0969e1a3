import OpenServo.Bus.Gate
import OpenServo.Bus.Resolver
import OpenServo.Core.Transition

/-!
# Resynchronisation over noise

The ring holds arbitrary bytes and the cursor stands still.  The composite keeps
looking: a span with a matching CRC is reported verified, any other rejected.
No complete frame the ladder passes is lost, the ladder moves by more than one
byte only over a verified frame, and the loop comes to rest; a junk header that
claims more than has landed parks the ladder until the starve horizon passes.
-/

namespace OpenServo.Bus

open Transition

/-! ## Frames in a ring -/

/-- The CRC on the wire after a span of `footprint` bytes. -/
def Ring.wireCrc (ring : Ring) (start footprint : ℕ) : UInt16 :=
  let stop := start + (footprint - 2)
  (ring.byteAt stop).toUInt16 ||| ((ring.byteAt (stop + 1)).toUInt16 <<< 8)

/-- The span's CRC matches the one it carries. -/
def Ring.crcValid (ring : Ring) (start footprint : ℕ) : Bool :=
  Crc.oscCrc (ring.window start (footprint - 2)) == ring.wireCrc start footprint

theorem Ring.crcValid_mod (ring : Ring) (start footprint : ℕ) :
    ring.crcValid (start % ring.len) footprint = ring.crcValid start footprint := by
  have hbyte : ∀ j, ring.byteAt (start % ring.len + j) = ring.byteAt (start + j) := by
    intro j
    rw [← ring.byteAt_mod, Nat.mod_add_mod, ring.byteAt_mod]
  simp only [crcValid, wireCrc, ring.window_mod, hbyte, Nat.add_assoc]

theorem Ring.window_succ (ring : Ring) (start n : ℕ) :
    ring.window start (n + 1) = ring.byteAt start :: ring.window (start + 1) n := by
  rw [Nat.add_comm n 1, ring.window_add]
  rfl

/-- What the engine holds after the even bulk of a span. -/
theorem ServoBus.crcFeed_value {bus : ServoBus} {anchor footprint : ℕ}
    (hanchor : anchor < bus.ring.len) (hlow : 6 ≤ footprint) (hhigh : footprint ≤ bus.ring.len) :
    let start := anchor + anchor % 2
    let covered := anchor + footprint - 2 - start
    (bus.crcFeed anchor footprint).crc.value =
      Crc.oscCrc (bus.ring.window start (covered - covered % 2)) := by
  intro start covered
  have hstart : start ≤ bus.ring.len := by
    have hodd := Nat.mod_lt anchor (show 0 < 2 by decide)
    omega
  have hbulk : anchor + footprint - 2 - covered % 2 - start = covered - covered % 2 := by omega
  simp only [crcFeed, CrcEngine.reset, CrcEngine.feed]
  split
  · rename_i hinside
    show Crc.oscCrcContinue 0 _ = _
    rw [Ring.slice_eq_window (by omega) hinside, hbulk]
    rfl
  · rename_i hacross
    show Crc.oscCrcContinue (Crc.oscCrcContinue 0 _) _ = _
    rw [← Crc.oscCrcContinue_append,
      Ring.slice_append_slice hstart (by omega) (by omega), hbulk]
    rfl

/-- Fed the span of a frame, the engine's verdict is the CRC of the span's bytes. -/
theorem ServoBus.crcVerify_crcFeed {bus : ServoBus} {anchor footprint : ℕ}
    (hanchor : anchor < bus.ring.len) (hlow : 6 ≤ footprint) (hfit : footprint ≤ bus.ring.len)
    (hhead : bus.ring.byteAt anchor = 0) (hready : bus.crc.stalled = false) :
    (bus.crcFeed anchor footprint).crcVerify anchor footprint =
      bus.ring.crcValid anchor footprint := by
  have hvalue := crcFeed_value hanchor hlow hfit
  -- an odd anchor leaves the break byte out, which the CRC does not see
  have hcovered : Crc.oscCrc (bus.ring.window anchor (footprint - 2)) =
      Crc.oscCrc (bus.ring.window (anchor + anchor % 2)
        (anchor + footprint - 2 - (anchor + anchor % 2))) := by
    obtain heven | hodd := Nat.mod_two_eq_zero_or_one anchor
    · rw [heven]
      congr 2
      omega
    · have hsplit : footprint - 2 = footprint - 3 + 1 := by omega
      rw [hsplit, Ring.window_succ, hhead, Crc.oscCrc_zero_cons, hodd]
      congr 2
      omega
  have hresult : (bus.crcFeed anchor footprint).crc.result =
      some (bus.crcFeed anchor footprint).crc.value := by
    have hstalled : (bus.crcFeed anchor footprint).crc.stalled = false := by
      simp only [crcFeed, CrcEngine.reset, CrcEngine.feed]
      split <;> exact hready
    rw [CrcEngine.result, hstalled]
    rfl
  have hring : (bus.crcFeed anchor footprint).ring = bus.ring := rfl
  rw [Ring.crcValid, hcovered, crcVerify, hresult, hvalue, hring]
  simp only [crcTail, hring]
  generalize hn : anchor + footprint - 2 - (anchor + anchor % 2) = n
  obtain heven | hodd := Nat.mod_two_eq_zero_or_one n
  · simp only [heven]
    rfl
  · have hlast : anchor + footprint - 2 - 1 = anchor + anchor % 2 + (n - 1) := by omega
    have hwindow : bus.ring.window (anchor + anchor % 2) n =
        bus.ring.window (anchor + anchor % 2) (n - 1) ++
          [bus.ring.byteAt (anchor + footprint - 2 - 1)] := by
      conv_lhs => rw [show n = n - 1 + 1 by omega, Ring.window_add]
      rw [hlast]
      rfl
    simp only [hodd, hwindow, Crc.oscCrc, Crc.oscCrcContinue_append]
    rfl

/-- A complete frame with a matching CRC, within `room` bytes of index `start`. -/
structure FrameAt (ring : Ring) (start room : ℕ) : Prop where
  headed : ring.byteAt start = breakRingByte
  geometry : 3 ≤ ring.byteAt (start + 2)
  fits : Framer.claimed ring start ≤ room
  crc : ring.crcValid start (Framer.claimed ring start) = true

theorem FrameAt.plausibleAt {ring : Ring} {start room : ℕ} (h : FrameAt ring start room) :
    Framer.PlausibleAt ring start room :=
  ⟨h.headed, .inr h.geometry⟩

/-- A frame is longer than its header. -/
theorem headerSpanBytes_lt_claimed {ring : Ring} {start : ℕ} (h : 3 ≤ ring.byteAt (start + 2)) :
    headerSpanBytes < Framer.claimed ring start := by
  have hlow := UInt8.le_iff_toNat_le.mp h
  simp only [headerSpanBytes, Header.size, Framer.claimed, footprint, UInt8.reduceToNat] at hlow ⊢
  omega

/-! ## The drive -/

/-- A span the resolver reported: how far from the start of the drive it lies,
its footprint, and the verdict on it. -/
structure Emitted where
  pos : ℕ
  footprint : ℕ
  verified : Bool
  deriving DecidableEq, Repr

/-- The resolver under the composite's loop, with the bytes the ladder has passed
and the spans reported since the drive began. -/
structure Drive where
  framer : Framer
  pos : ℕ
  emitted : List Emitted
  last : FramerOut
  deriving DecidableEq, Repr

namespace Drive

def start (framer : Framer) : Drive := ⟨framer, 0, [], .wait 0⟩

/-- One look, at a tick and a byte time: a reported frame is verified or
rejected by its CRC. -/
def step (ring : Ring) (drive : Drive) : UInt32 × UInt32 → Drive
  | (now, tpb) =>
      let (framer, out) := drive.framer.resolve ring now tpb
      let passed (framer : Framer) : ℕ :=
        drive.pos + dist framer.anchor drive.framer.anchor ring.len
      match out with
      | .frame span =>
          let verified := ring.crcValid span.anchor span.footprint
          let framer :=
            if verified then framer.onFrameVerified
            else framer.onFrameRejected span.anchor ring.len
          { framer := framer
            pos := passed framer
            emitted := drive.emitted ++
              [⟨drive.pos + dist span.anchor drive.framer.anchor ring.len, span.footprint,
                verified⟩]
            last := out }
      | _ => { drive with framer := framer, pos := passed framer, last := out }

/-- Nothing plausible in the `n` bytes from the ladder on. -/
def Barren (ring : Ring) (base total pos n : ℕ) : Prop :=
  ∀ i < n, ¬ Framer.PlausibleAt ring (base + (pos + i)) (total - (pos + i))

/-- Everything one look can do. -/
inductive DriveEnd (ring : Ring) (base total : ℕ) (drive : Drive) (now tpb : UInt32) :
    Drive → Prop where
  | drained (n : ℕ) (framer : Framer) : drive.pos + n = total →
      Barren ring base total drive.pos n →
      DriveEnd ring base total drive now tpb ⟨framer, drive.pos + n, drive.emitted, .none⟩
  | spent (n : ℕ) : 0 < n → Barren ring base total drive.pos n →
      DriveEnd ring base total drive now tpb
        ⟨drive.framer.skipped ring n, drive.pos + n, drive.emitted, .wait now⟩
  | parked (n : ℕ) (due : UInt32) : Barren ring base total drive.pos n →
      ¬ (drive.framer.skipped ring n).Starved ring.cursor now tpb →
      DriveEnd ring base total drive now tpb
        ⟨{ drive.framer.skipped ring n with
            frontier := (drive.framer.skipped ring n).frontier.advance ring.cursor now },
          drive.pos + n, drive.emitted, .wait due⟩
  | died (n : ℕ) (framer : Framer) : Barren ring base total drive.pos n →
      ¬ FrameAt ring (base + (drive.pos + n)) (total - (drive.pos + n)) →
      framer.frontier = .idle →
      DriveEnd ring base total drive now tpb ⟨framer, drive.pos + n + 1, drive.emitted, .wait now⟩
  | covered (n : ℕ) (span : FrameSpan) (due : UInt32) : Barren ring base total drive.pos n →
      (drive.framer.skipped ring n).frontier.covered = false →
      DriveEnd ring base total drive now tpb
        ⟨{ drive.framer.skipped ring n with
            frontier :=
              { (drive.framer.skipped ring n).frontier.advance ring.cursor now with
                covered := true } },
          drive.pos + n, drive.emitted, .covered span due⟩
  | rejected (n : ℕ) (framer : Framer) (span : FrameSpan) :
      Barren ring base total drive.pos n →
      ¬ FrameAt ring (base + (drive.pos + n)) (total - (drive.pos + n)) →
      framer.frontier = .idle →
      DriveEnd ring base total drive now tpb
        ⟨framer, drive.pos + n + 1, drive.emitted ++ [⟨drive.pos + n, span.footprint, false⟩],
          .frame span⟩
  | verified (n : ℕ) (framer : Framer) (span : FrameSpan) :
      Barren ring base total drive.pos n →
      FrameAt ring (base + (drive.pos + n)) (total - (drive.pos + n)) →
      span.footprint = Framer.claimed ring (base + (drive.pos + n)) →
      framer.frontier = .idle →
      DriveEnd ring base total drive now tpb
        ⟨framer, drive.pos + n + span.footprint,
          drive.emitted ++ [⟨drive.pos + n, span.footprint, true⟩], .frame span⟩

theorem skipped_anchor {ring : Ring} {framer : Framer} {base pos total : ℕ}
    (h : Stands framer ring base pos total) (n : ℕ) :
    (framer.skipped ring n).anchor = (base + (pos + n)) % ring.len := by
  simp only [Framer.skipped]
  split
  · rename_i hzero
    rw [h.anchor, hzero, Nat.add_zero]
  · rw [ring.ringWrap_len, h.anchor, Nat.mod_add_mod, Nat.add_assoc]

/-- The bytes passed are measured off the anchors. -/
theorem dist_of_stands {ring : Ring} {framer : Framer} {base pos total n i : ℕ}
    (h : Stands framer ring base pos total) (hi : i = (base + (pos + n)) % ring.len)
    (hn : pos + n ≤ total) : dist i framer.anchor ring.len = n := by
  have hlap := h.lap
  rw [hi, h.anchor, ← Nat.add_assoc]
  exact ring.dist_mod _ (by omega)

theorem stands_at {ring : Ring} {framer framer' : Framer} {base pos total n : ℕ}
    (h : Stands framer ring base pos total)
    (hanchor : framer'.anchor = (base + (pos + n)) % ring.len)
    (hn : pos + n ≤ total) : Stands framer' ring base (pos + n) total := by
  have hlap := h.lap
  exact ⟨hanchor, h.cursor, hn, by omega⟩

theorem barren_of_skipped {ring : Ring} {framer : Framer} {base pos total n : ℕ}
    (h : Stands framer ring base pos total)
    (hskip : ∀ i < n, ¬ Framer.PlausibleAt ring (framer.anchor + i) (total - pos - i)) :
    Barren ring base total pos n := by
  intro i hi hplaus
  refine hskip i hi ?_
  rw [Framer.PlausibleAt, Nat.add_assoc framer.anchor, h.byteAt, h.byteAt, Nat.sub_sub]
  simpa only [Framer.PlausibleAt, Nat.add_assoc] using hplaus

/-- What a candidate claims, seen from the start of the drive. -/
theorem claimed_skipped {ring : Ring} {framer : Framer} {base pos total : ℕ}
    (h : Stands framer ring base pos total) (n : ℕ) :
    Framer.claimed ring (framer.skipped ring n).anchor =
      Framer.claimed ring (base + (pos + n)) := by
  rw [Framer.claimed, Framer.claimed, skipped_anchor h, ← ring.byteAt_mod, Nat.mod_add_mod,
    ring.byteAt_mod]

/-- No complete frame starts where the candidate is partial. -/
theorem not_frameAt_of_part {ring : Ring} {framer : Framer} {base pos total n : ℕ}
    (h : Stands framer ring base pos total)
    (hpart : (framer.skipped ring n).Partial ring (total - pos - n)) :
    ¬ FrameAt ring (base + (pos + n)) (total - (pos + n)) := by
  intro hframe
  have hlong := headerSpanBytes_lt_claimed hframe.geometry
  have hfits := hframe.fits
  rw [Framer.Partial, claimed_skipped h] at hpart
  omega

theorem step_cases {ring : Ring} {base total : ℕ} {drive : Drive}
    (h : Stands drive.framer ring base drive.pos total) (now tpb : UInt32) :
    Stands (drive.step ring (now, tpb)).framer ring base (drive.step ring (now, tpb)).pos total ∧
      DriveEnd ring base total drive now tpb (drive.step ring (now, tpb)) := by
  have hresolve := drive.framer.resolve_cases ring now tpb
  rw [h.dist] at hresolve
  have hbehind := h.behind
  generalize hout : drive.framer.resolve ring now tpb = out at hresolve
  simp only [step, hout]
  cases hresolve with
  | caughtUp hzero =>
      have hanchor : drive.framer.anchor = (base + (drive.pos + 0)) % ring.len := h.anchor
      have hpassed := dist_of_stands h hanchor hbehind
      simp only [hpassed]
      exact ⟨stands_at h hanchor hbehind, .drained 0 _ (by omega)
        (fun i hi => absurd hi (Nat.not_lt_zero i))⟩
  | scanned hpos hskip =>
      have hanchor := skipped_anchor h (total - drive.pos)
      have hpassed := dist_of_stands h hanchor (by omega)
      simp only [hpassed]
      exact ⟨stands_at h hanchor (by omega), .drained _ _ (by omega) (barren_of_skipped h hskip)⟩
  | spent n hn hlt hskip =>
      have hanchor := skipped_anchor h n
      have hpassed := dist_of_stands h hanchor (by omega)
      simp only [hpassed]
      exact ⟨stands_at h hanchor (by omega), .spent n hn (barren_of_skipped h hskip)⟩
  | candidate n _ hlt hskip hplaus hend =>
      have hbarren := barren_of_skipped h hskip
      have hanchor := skipped_anchor h n
      have hnext : ∀ k, ringWrap ((drive.framer.skipped ring n).anchor + k) ring.len =
          (base + (drive.pos + (n + k))) % ring.len := by
        intro k
        rw [ring.ringWrap_len, hanchor, Nat.mod_add_mod]
        congr 1
        omega
      cases hend with
      | parked due hmissing hstarved =>
          have hpassed := dist_of_stands h hanchor (by omega)
          simp only [hpassed]
          exact ⟨stands_at h hanchor (by omega), .parked n due hbarren hstarved⟩
      | died drops hmissing hstarved =>
          have hpassed := dist_of_stands h (hnext 1) (by omega)
          simp only [hpassed]
          exact ⟨stands_at h (hnext 1) (by omega),
            .died n _ hbarren (not_frameAt_of_part h hmissing) rfl⟩
      | covered packetEnd hmissing hheader hnew =>
          have hpassed := dist_of_stands h hanchor (by omega)
          simp only [hpassed]
          exact ⟨stands_at h hanchor (by omega), .covered n _ _ hbarren hnew⟩
      | whole hheader hclaimed =>
          have hstart := dist_of_stands h hanchor (by omega)
          have hclaim := claimed_skipped h n
          have hwhole := hnext (Framer.claimed ring (drive.framer.skipped ring n).anchor)
          simp only [hstart]
          cases hcrc : ring.crcValid (drive.framer.skipped ring n).anchor
              (Framer.claimed ring (drive.framer.skipped ring n).anchor) with
          | true =>
              have hpassed := dist_of_stands h hwhole (by omega)
              simp only [if_true, Framer.onFrameVerified, hpassed]
              refine ⟨stands_at h hwhole (by omega), ?_⟩
              rw [← Nat.add_assoc]
              have hframe : FrameAt ring (base + (drive.pos + n)) (total - (drive.pos + n)) := by
                obtain ⟨hhead, hshort | hgeometry⟩ := hplaus
                · omega
                rw [Nat.add_assoc, h.byteAt, Nat.add_assoc, ← Nat.add_assoc drive.pos,
                  ← Nat.add_assoc base] at hgeometry
                rw [h.byteAt, Nat.add_assoc] at hhead
                rw [hanchor, ring.crcValid_mod, ← hanchor, hclaim] at hcrc
                exact ⟨hhead, hgeometry, by omega, hcrc⟩
              exact .verified n _ ⟨_, _, now⟩ hbarren hframe hclaim rfl
          | false =>
              have hpassed := dist_of_stands h (hnext 1) (by omega)
              simp only [Bool.false_eq_true, if_false, Framer.onFrameRejected, hpassed]
              refine ⟨stands_at h (hnext 1) (by omega), ?_⟩
              have hnone : ¬ FrameAt ring (base + (drive.pos + n)) (total - (drive.pos + n)) := by
                intro hframe
                have hvalid := hframe.crc
                rw [← hclaim, ← ring.crcValid_mod, ← hanchor, hcrc] at hvalid
                cases hvalid
              exact .rejected n _ ⟨_, _, now⟩ hbarren hnone rfl

/-! ## Nothing is lost -/

/-- The emitted entry covers position `i` with a verified frame. -/
def Covers (e : Emitted) (i : ℕ) : Prop :=
  e.verified = true ∧ e.pos ≤ i ∧ i < e.pos + e.footprint

/-- The ladder stands in the span of the drive, every complete frame behind it is
covered by an emitted one, and every verified entry is a complete frame. -/
structure Sound (ring : Ring) (base total : ℕ) (drive : Drive) : Prop where
  stands : Stands drive.framer ring base drive.pos total
  accounted : ∀ i < drive.pos, FrameAt ring (base + i) (total - i) →
    ∃ e ∈ drive.emitted, Covers e i
  genuine : ∀ e ∈ drive.emitted, e.verified = true →
    FrameAt ring (base + e.pos) (total - e.pos) ∧
      e.footprint = Framer.claimed ring (base + e.pos)

/-- Passing positions without a frame keeps the account, whatever is emitted. -/
theorem accounted_of_frameless {ring : Ring} {base total : ℕ} {drive : Drive}
    (h : drive.Sound ring base total) {n : ℕ} (emitted : List Emitted)
    (hframeless : ∀ i < n, ¬ FrameAt ring (base + (drive.pos + i)) (total - (drive.pos + i))) :
    ∀ i < drive.pos + n, FrameAt ring (base + i) (total - i) →
      ∃ e ∈ drive.emitted ++ emitted, Covers e i := by
  intro i hi hframe
  by_cases hold : i < drive.pos
  · obtain ⟨e, hmem, hcovers⟩ := h.accounted i hold hframe
    exact ⟨e, List.mem_append_left _ hmem, hcovers⟩
  · obtain ⟨j, rfl⟩ := Nat.exists_eq_add_of_le (Nat.le_of_not_lt hold)
    exact absurd hframe (hframeless j (by omega))

theorem Barren.frameless {ring : Ring} {base total pos n : ℕ} (h : Barren ring base total pos n) :
    ∀ i < n, ¬ FrameAt ring (base + (pos + i)) (total - (pos + i)) :=
  fun i hi hframe => h i hi hframe.plausibleAt

theorem Barren.frameless_succ {ring : Ring} {base total pos n : ℕ}
    (h : Barren ring base total pos n)
    (hlast : ¬ FrameAt ring (base + (pos + n)) (total - (pos + n))) :
    ∀ i < n + 1, ¬ FrameAt ring (base + (pos + i)) (total - (pos + i)) := by
  intro i hi
  obtain hlt | rfl := Nat.lt_succ_iff_lt_or_eq.mp hi
  · exact h.frameless i hlt
  · exact hlast

theorem Sound.step {ring : Ring} {base total : ℕ} {drive : Drive}
    (h : drive.Sound ring base total) (look : UInt32 × UInt32) :
    (drive.step ring look).Sound ring base total := by
  obtain ⟨now, tpb⟩ := look
  obtain ⟨hstands, hend⟩ := step_cases h.stands now tpb
  have hsilent : ∀ {n}, (∀ i < n, ¬ FrameAt ring (base + (drive.pos + i))
      (total - (drive.pos + i))) → ∀ i < drive.pos + n, FrameAt ring (base + i) (total - i) →
        ∃ e ∈ drive.emitted, Covers e i := by
    intro n hframeless
    have hkept := accounted_of_frameless h [] hframeless
    rwa [List.append_nil] at hkept
  generalize drive.step ring (now, tpb) = next at hstands hend
  cases hend with
  | drained n framer hdone hbarren => exact ⟨hstands, hsilent hbarren.frameless, h.genuine⟩
  | spent n hn hbarren => exact ⟨hstands, hsilent hbarren.frameless, h.genuine⟩
  | parked n due hbarren hstarved => exact ⟨hstands, hsilent hbarren.frameless, h.genuine⟩
  | died n framer hbarren hnone hidle =>
      exact ⟨hstands, hsilent (hbarren.frameless_succ hnone), h.genuine⟩
  | covered n span due hbarren hnew => exact ⟨hstands, hsilent hbarren.frameless, h.genuine⟩
  | rejected n framer span hbarren hnone hidle =>
      refine ⟨hstands, accounted_of_frameless h _ (hbarren.frameless_succ hnone), ?_⟩
      intro e hmem hverified
      obtain hold | hnew := List.mem_append.mp hmem
      · exact h.genuine e hold hverified
      · rw [List.mem_singleton.mp hnew] at hverified
        cases hverified
  | verified n framer span hbarren hframe hclaim hidle =>
      refine ⟨hstands, ?_, ?_⟩
      · intro i hi hframe'
        by_cases hbefore : i < drive.pos + n
        · exact accounted_of_frameless h _ hbarren.frameless i hbefore hframe'
        · exact ⟨_, List.mem_append_right _ (List.mem_singleton_self _), rfl,
            Nat.le_of_not_lt hbefore, hi⟩
      · intro e hmem hverified
        obtain hold | hnew := List.mem_append.mp hmem
        · exact h.genuine e hold hverified
        · rw [List.mem_singleton.mp hnew]
          exact ⟨hframe, hclaim⟩

theorem sound_start {ring : Ring} {framer : Framer} (hanchor : framer.anchor < ring.len) :
    (start framer).Sound ring framer.anchor (dist ring.cursor framer.anchor ring.len) := by
  refine ⟨⟨(Nat.mod_eq_of_lt hanchor).symm, ?_, Nat.zero_le _, ?_⟩, ?_, ?_⟩
  · have hcursor := ring.cursor_lt_len
    rw [dist, ring.ringWrap_len, Nat.add_mod_mod,
      show framer.anchor + (ring.cursor + ring.len - framer.anchor) =
        ring.cursor + ring.len by omega,
      Nat.add_mod_right, Nat.mod_eq_of_lt hcursor]
  · show dist _ _ _ < 0 + ring.len
    rw [dist, ring.ringWrap_len, Nat.zero_add]
    exact Nat.mod_lt _ ring.len_pos
  · intro i hi
    exact absurd hi (Nat.not_lt_zero i)
  · intro e hmem
    cases hmem

/-! ## The loop comes to rest -/

/-- The resolver has nothing more to report on these bytes. -/
def Rests : FramerOut → Prop
  | .none | .wait _ => True
  | .covered _ _ | .frame _ => False

instance : DecidablePred Rests
  | .none | .wait _ => .isTrue trivial
  | .covered _ _ | .frame _ => .isFalse id

/-- The frontier was last seen at this cursor. -/
def stalled (ring : Ring) (frontier : Frontier) : Bool :=
  frontier.observed && ring.cursor == frontier.seen

theorem stalled_advance (ring : Ring) (frontier : Frontier) (now : UInt32) :
    stalled ring (frontier.advance ring.cursor now) = true := by
  simp only [Frontier.advance, stalled]
  split
  · simp
  · split
    · simp_all
    · simp_all

/-- Each position may be announced once and parked on once. -/
def progress (ring : Ring) (drive : Drive) : ℕ :=
  3 * drive.pos + drive.framer.frontier.covered.toNat + (stalled ring drive.framer.frontier).toNat

/-- A stalled frontier is looked at past its starve horizon. -/
def Patient (ring : Ring) (drive : Drive) : UInt32 × UInt32 → Prop
  | (now, tpb) => stalled ring drive.framer.frontier = true →
      tickReached now (drive.framer.frontier.progressTick + starveHorizonByteTimes * tpb) = true

/-- A look that reports something, or that waits past the horizon, makes progress. -/
theorem progress_lt {ring : Ring} {base total : ℕ} {drive : Drive} {look : UInt32 × UInt32}
    (h : drive.Sound ring base total)
    (hbusy : ¬ Rests (drive.step ring look).last ∨
      (drive.step ring look).last ≠ .none ∧ drive.Patient ring look) :
    progress ring drive < progress ring (drive.step ring look) := by
  obtain ⟨now, tpb⟩ := look
  obtain ⟨-, hend⟩ := step_cases h.stands now tpb
  have hcovered := Bool.toNat_le drive.framer.frontier.covered
  have hstalled := Bool.toNat_le (stalled ring drive.framer.frontier)
  generalize drive.step ring (now, tpb) = next at hbusy hend
  cases hend with
  | drained n framer hdone hbarren =>
      obtain hrests | ⟨hnone, -⟩ := hbusy
      · exact absurd trivial hrests
      · exact absurd rfl hnone
  | spent n hn hbarren =>
      simp only [progress]
      omega
  | parked n due hbarren hstarved =>
      obtain hrests | ⟨-, hpatient⟩ := hbusy
      · exact absurd trivial hrests
      simp only [progress, stalled_advance, Bool.toNat_true]
      cases n with
      | zero =>
          -- parked where it stood: the frontier had not been seen at this cursor
          have hfresh : stalled ring drive.framer.frontier = false := by
            by_contra hseen
            rw [Bool.not_eq_false] at hseen
            have htick := hpatient hseen
            simp only [stalled, Bool.and_eq_true, beq_iff_eq] at hseen
            exact hstarved ⟨hseen.1, hseen.2, htick⟩
          have hkept : ((drive.framer.skipped ring 0).frontier.advance ring.cursor now).covered =
              drive.framer.frontier.covered := by
            simp only [Framer.skipped, if_true, Frontier.advance]
            split
            · rfl
            · split <;> rfl
          simp only [hfresh, hkept, Bool.toNat_false]
          omega
      | succ n => omega
  | died n framer hbarren hnone hidle =>
      simp only [progress]
      omega
  | covered n span due hbarren hnew =>
      simp only [progress, Bool.toNat_true]
      cases n with
      | zero =>
          have hnew : drive.framer.frontier.covered = false := hnew
          have hseen : stalled ring { (drive.framer.skipped ring 0).frontier.advance ring.cursor now
              with covered := true } = true := stalled_advance ring _ now
          simp only [hnew, hseen, Bool.toNat_true, Bool.toNat_false]
          omega
      | succ n => omega
  | rejected n framer span hbarren hnone hidle =>
      simp only [progress]
      omega
  | verified n framer span hbarren hframe hclaim hidle =>
      have hlong := headerSpanBytes_lt_claimed hframe.geometry
      simp only [progress]
      omega

theorem progress_le {ring : Ring} {base total : ℕ} {drive : Drive}
    (h : drive.Sound ring base total) : progress ring drive ≤ 3 * total + 2 := by
  have hbehind := h.stands.behind
  have hcovered := Bool.toNat_le drive.framer.frontier.covered
  have hstalled := Bool.toNat_le (stalled ring drive.framer.frontier)
  simp only [progress]
  omega

/-- The ladder moves byte by byte over implausible bytes, and by more than one
byte more only over a frame it reports verified. -/
def StepwiseOver (ring : Ring) (base total : ℕ) (drive next : Drive) : Prop :=
  ∃ n k, next.pos = drive.pos + n + k ∧ Barren ring base total drive.pos n ∧
    (k ≤ 1 ∨ next.emitted = drive.emitted ++ [⟨drive.pos + n, k, true⟩])

theorem stepwise {ring : Ring} {base total : ℕ} {drive : Drive}
    (h : drive.Sound ring base total) (look : UInt32 × UInt32) :
    StepwiseOver ring base total drive (drive.step ring look) := by
  obtain ⟨now, tpb⟩ := look
  obtain ⟨-, hend⟩ := step_cases h.stands now tpb
  generalize drive.step ring (now, tpb) = next at hend
  cases hend with
  | drained n framer hdone hbarren => exact ⟨n, 0, rfl, hbarren, .inl (by decide)⟩
  | spent n hn hbarren => exact ⟨n, 0, rfl, hbarren, .inl (by decide)⟩
  | parked n due hbarren hstarved => exact ⟨n, 0, rfl, hbarren, .inl (by decide)⟩
  | died n framer hbarren hnone hidle => exact ⟨n, 1, rfl, hbarren, .inl le_rfl⟩
  | covered n span due hbarren hnew => exact ⟨n, 0, rfl, hbarren, .inl (by decide)⟩
  | rejected n framer span hbarren hnone hidle => exact ⟨n, 1, rfl, hbarren, .inl le_rfl⟩
  | verified n framer span hbarren hframe hclaim hidle =>
      exact ⟨n, span.footprint, rfl, hbarren, .inr rfl⟩

/-- The bytes are used up once the resolver reports nothing. -/
def DrainedAt (total : ℕ) (drive : Drive) : Prop := drive.last = .none → drive.pos = total

theorem drained_step {ring : Ring} {base total : ℕ} {drive : Drive}
    (h : drive.Sound ring base total) (look : UInt32 × UInt32) :
    (drive.step ring look).DrainedAt total := by
  obtain ⟨now, tpb⟩ := look
  obtain ⟨-, hend⟩ := step_cases h.stands now tpb
  generalize drive.step ring (now, tpb) = next at hend
  intro hlast
  cases hend with
  | drained n framer hdone hbarren => exact hdone
  | spent n hn hbarren => cases hlast
  | parked n due hbarren hstarved => cases hlast
  | died n framer hbarren hnone hidle => cases hlast
  | covered n span due hbarren hnew => cases hlast
  | rejected n framer span hbarren hnone hidle => cases hlast
  | verified n framer span hbarren hframe hclaim hidle => cases hlast

theorem sound_run {ring : Ring} {base total : ℕ} {drive : Drive}
    (h : drive.Sound ring base total) (looks : List (UInt32 × UInt32)) :
    (run (Drive.step ring) drive looks).Sound ring base total :=
  run_invariant _ _ (fun _ look h => h.step look) h looks

/-- Looks that each report something, or wait past the horizon, are few. -/
theorem length_le_of_busy {ring : Ring} {base total : ℕ} {drive : Drive}
    {looks : List (UInt32 × UInt32)} (h : drive.Sound ring base total)
    (hbusy : Meets (Drive.step ring) (fun drive look => ¬ Rests (drive.step ring look).last ∨
      (drive.step ring look).last ≠ .none ∧ drive.Patient ring look) drive looks) :
    looks.length ≤ 3 * total + 2 := by
  have hrises : Meets (Drive.step ring)
      (fun drive look => progress ring drive < progress ring (drive.step ring look)) drive looks :=
    Meets.forward (Drive.step ring) (Sound ring base total) (fun _ look h _ => h.step look)
      (fun _ _ h hbusy => progress_lt h hbusy) h hbusy
  have hlength := Meets.length_le (Drive.step ring) (progress ring) (fun _ _ hlt => hlt) hrises
  have hbound := progress_le (sound_run h looks)
  omega

end Drive

/-! ## From every reachable ladder -/

/-- The states the composite can bring a framer into over rings of one length. -/
inductive Framer.Reachable (len : ℕ) : Framer → Prop where
  | new : Reachable len .new
  | resync {framer : Framer} (ring : Ring) : Reachable len framer → ring.len = len →
      Reachable len (framer.resync ring.cursor)
  | resolve {framer : Framer} (ring : Ring) (now tpb : UInt32) : Reachable len framer →
      ring.len = len → Reachable len (framer.resolve ring now tpb).1
  | rejected {framer : Framer} (anchor : ℕ) : Reachable len framer →
      Reachable len (framer.onFrameRejected anchor len)
  | verified {framer : Framer} : Reachable len framer → Reachable len framer.onFrameVerified
  | wireFault {framer : Framer} (cursor : ℕ) : Reachable len framer →
      Reachable len (framer.onWireFault cursor).2

theorem Framer.Reachable.anchor_lt {framer : Framer} (ring : Ring)
    (h : framer.Reachable ring.len) : framer.anchor < ring.len := by
  generalize hlen : ring.len = len at h
  induction h with
  | new => exact hlen ▸ ring.len_pos
  | resync ring' h hsame ih => exact hsame ▸ ring'.cursor_lt_len
  | resolve ring' now tpb h hsame ih =>
      subst hsame
      exact ((Framer.resolve_spec _ ring' now tpb).2 ih).1
  | rejected anchor h ih =>
      show ringWrap (anchor + 1) len < len
      rw [← hlen, ring.ringWrap_len]
      exact Nat.mod_lt _ ring.len_pos
  | verified h ih => exact ih
  | wireFault cursor h ih =>
      simp only [Framer.onWireFault]
      split <;> exact ih

/-- Over any bytes and from any reachable ladder: every complete frame the ladder
passes is emitted or lies in a verified frame that is, nothing is left over once
the resolver reports nothing, only verified frames move the ladder by more than a
byte, and the loop comes to rest; the looks past a wait, each taken when the
starve horizon of a stalled frontier has passed, are as few. -/
theorem resync_loses_no_frame {ring : Ring} {framer : Framer}
    (hreachable : framer.Reachable ring.len) (looks : List (UInt32 × UInt32)) :
    let received := dist ring.cursor framer.anchor ring.len
    let drive := run (Drive.step ring) (Drive.start framer) looks
    drive.Sound ring framer.anchor received ∧
      drive.framer.anchor < ring.len ∧
      (drive.last = .none → ∀ i < received, FrameAt ring (framer.anchor + i) (received - i) →
        ∃ e ∈ drive.emitted, Drive.Covers e i) ∧
      (∀ look, Drive.StepwiseOver ring framer.anchor received drive (drive.step ring look)) ∧
      (Meets (Drive.step ring) (fun drive look => ¬ Drive.Rests (drive.step ring look).last)
        (Drive.start framer) looks → looks.length ≤ 3 * received + 2) ∧
      (Meets (Drive.step ring)
        (fun drive look => (drive.step ring look).last ≠ .none ∧ drive.Patient ring look)
        (Drive.start framer) looks → looks.length ≤ 3 * received + 2) := by
  intro received drive
  have hstart := Drive.sound_start (hreachable.anchor_lt ring)
  have hsound : drive.Sound ring framer.anchor received := Drive.sound_run hstart looks
  refine ⟨hsound, hsound.stands.anchor_lt, ?_, Drive.stepwise hsound, ?_, ?_⟩
  · intro hnone i hi hframe
    have hdrained : drive.DrainedAt received := by
      obtain rfl | ⟨before, look, rfl⟩ := List.eq_nil_or_concat looks
      · intro hlast
        cases hlast
      · have hlast :
            drive = (run (Drive.step ring) (Drive.start framer) before).step ring look := by
          simp only [drive, List.concat_eq_append, run_append, run_cons, run_nil]
        rw [hlast]
        exact Drive.drained_step (Drive.sound_run hstart before) look
    exact hsound.accounted i (by rw [hdrained hnone]; exact hi) hframe
  · intro hbusy
    exact Drive.length_le_of_busy hstart (Meets.mono _ (fun _ _ => .inl) hbusy)
  · intro hpatient
    exact Drive.length_le_of_busy hstart (Meets.mono _ (fun _ _ => .inr) hpatient)

instance (ring : Ring) (start room : ℕ) : Decidable (FrameAt ring start room) :=
  decidable_of_iff (ring.byteAt start = breakRingByte ∧ 3 ≤ ring.byteAt (start + 2) ∧
    Framer.claimed ring start ≤ room ∧ ring.crcValid start (Framer.claimed ring start) = true)
    ⟨fun ⟨hheaded, hgeometry, hfits, hcrc⟩ => ⟨hheaded, hgeometry, hfits, hcrc⟩,
      fun ⟨hheaded, hgeometry, hfits, hcrc⟩ => ⟨hheaded, hgeometry, hfits, hcrc⟩⟩

/-- A junk header that claims 258 bytes, and a whole ping behind it. -/
def junkBeforePing : Ring :=
  [0x00, 0x01, 0xFF, 0x10, 0x00, 0x07, 0x03, 0x10, 0xB0, 0xFD].foldl Ring.push
    (Ring.fresh 9 Ring.lapMargin_nine Ring.indexed_nine)

/-- Past the starve horizon the ping is found. -/
theorem resync_past_junk_header :
    let looks := [(0, 8), (100000, 8), (100000, 8), (100000, 8)]
    let drive := run (Drive.step junkBeforePing) (Drive.start .new) looks
    drive.last = .none ∧ ∃ e ∈ drive.emitted, Drive.Covers e 4 := by
  intro looks drive
  have hnone : drive.last = .none := by decide +kernel
  have hreceived : 4 < dist junkBeforePing.cursor Framer.new.anchor junkBeforePing.len := by
    decide +kernel
  have hframe : FrameAt junkBeforePing (Framer.new.anchor + 4)
      (dist junkBeforePing.cursor Framer.new.anchor junkBeforePing.len - 4) := by
    decide +kernel
  exact ⟨hnone, (resync_loses_no_frame .new looks).2.2.1 hnone 4 hreceived hframe⟩

/-- Before the horizon the loop rests at the junk header with the ping behind it
neither emitted nor overlapped. -/
theorem junk_header_parks_the_ladder :
    ¬ ∀ (ring : Ring) (framer : Framer) (looks : List (UInt32 × UInt32)),
      framer.Reachable ring.len →
      let received := dist ring.cursor framer.anchor ring.len
      let drive := run (Drive.step ring) (Drive.start framer) looks
      Drive.Rests drive.last → looks ≠ [] →
        ∀ i < received, FrameAt ring (framer.anchor + i) (received - i) →
          ∃ e ∈ drive.emitted, e.verified = true ∧
            e.pos < i + Framer.claimed ring (framer.anchor + i) ∧ i < e.pos + e.footprint := by
  intro hclaim
  obtain ⟨e, hmem, -⟩ := hclaim junkBeforePing .new [(0, 8)] .new (by decide +kernel) (by decide) 4
    (by decide +kernel) (by decide +kernel)
  have hsilent : (run (Drive.step junkBeforePing) (Drive.start .new) [(0, 8)]).emitted = [] := by
    decide +kernel
  rw [hsilent] at hmem
  cases hmem

end OpenServo.Bus
