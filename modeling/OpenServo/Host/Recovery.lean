import OpenServo.Core.Hunt
import OpenServo.Host.Framer
import OpenServo.Protocol.CrcDetection

/-!
# Finding every frame again

The walker is a hunt over the bytes no verdict has consumed, read out of the ring in order.
A frame is a whole header with its CRC behind it; whatever noise surrounds it, the walker
either takes it or takes one that overlaps it, and its verdicts add up to what it consumed.
-/

namespace OpenServo.Host

open Hunt

/-! ## Reading the ring -/

/-- The `n` bytes of a ring from an index on, across the seam. -/
def reading (ring : List Byte) (start n : ℕ) : List Byte :=
  (List.range n).map fun i => Framer.byteAt ring (start + i)

variable {ring : List Byte} {start n : ℕ}

@[simp]
theorem length_reading (ring : List Byte) (start n : ℕ) : (reading ring start n).length = n := by
  rw [reading, List.length_map, List.length_range]

theorem getElem_reading {i : ℕ} (h : i < (reading ring start n).length) :
    (reading ring start n)[i] = Framer.byteAt ring (start + i) := by
  simp [reading]

theorem getD_reading {i : ℕ} (h : i < n) :
    (reading ring start n).getD i 0 = Framer.byteAt ring (start + i) := by
  rw [List.getD_eq_getElem _ _ (by rwa [length_reading]), getElem_reading]

theorem reading_add (ring : List Byte) (start m n : ℕ) :
    reading ring start (m + n) = reading ring start m ++ reading ring (start + m) n := by
  simp only [reading, List.range_add, List.map_append, List.map_map, Function.comp_def,
    Nat.add_assoc]

theorem take_reading {m : ℕ} (h : m ≤ n) :
    (reading ring start n).take m = reading ring start m := by
  rw [← Nat.add_sub_cancel' h, reading_add, List.take_left' (length_reading _ _ _)]

theorem drop_reading {m : ℕ} (h : m ≤ n) :
    (reading ring start n).drop m = reading ring (start + m) (n - m) := by
  conv_lhs => rw [← Nat.add_sub_cancel' h]
  rw [reading_add, List.drop_left' (length_reading _ _ _)]

theorem byteAt_mod (ring : List Byte) (pos : ℕ) :
    Framer.byteAt ring (pos % ring.length) = Framer.byteAt ring pos := by
  rw [Framer.byteAt, Framer.byteAt, Nat.mod_mod]

theorem byteAt_mod_add (ring : List Byte) (pos i : ℕ) :
    Framer.byteAt ring (pos % ring.length + i) = Framer.byteAt ring (pos + i) := by
  rw [Framer.byteAt, Framer.byteAt, Nat.mod_add_mod]

theorem reading_mod (ring : List Byte) (start n : ℕ) :
    reading ring (start % ring.length) n = reading ring start n :=
  List.map_congr_left fun i _ => byteAt_mod_add ring start i

/-- Two segments of a ring are the reading across the seam. -/
theorem segments_eq_reading (hstart : start < ring.length) (hn : n ≤ ring.length) :
    (ring.drop start).take (min n (ring.length - start)) ++
        ring.take (n - min n (ring.length - start)) = reading ring start n := by
  apply List.ext_getElem
  · simp
    omega
  · intro i hi hi'
    rw [length_reading] at hi'
    rw [getElem_reading, Framer.byteAt]
    by_cases hseam : start + i < ring.length
    · rw [List.getElem_append_left (by simp; omega), List.getElem_take, List.getElem_drop,
        Nat.mod_eq_of_lt hseam, List.getD_eq_getElem _ _ hseam]
    · have hback : (start + i) % ring.length = start + i - ring.length := by
        rw [Nat.mod_eq_sub_mod (by omega), Nat.mod_eq_of_lt (by omega)]
      rw [List.getElem_append_right (by simp; omega), List.getElem_take, hback,
        List.getD_eq_getElem _ _ (by omega)]
      congr 1
      simp
      omega

theorem ringCrc_reading (hstart : start < ring.length) (hn : n ≤ ring.length) :
    ringCrc ring start n = Crc.oscCrc (reading ring start n) := by
  rw [ringCrc, ← segments_eq_reading hstart hn]
  simp only [beq_iff_eq]
  split
  · rename_i hhead
    rw [hhead, Nat.sub_self, List.take_zero, List.append_nil]
  · rw [Crc.oscCrc, Crc.oscCrc, Crc.oscCrcContinue_append]

theorem bytes_payloadView_reading (hstart : start < ring.length) (hn : n ≤ ring.length) :
    (payloadView ring start n).bytes = reading ring start n :=
  segments_eq_reading hstart hn

/-! ## Frames in the ring -/

/-- A complete frame: a legal header, and the CRC over the ring. -/
structure CleanAt (ring : List Byte) (pos size : ℕ) : Prop where
  headed : Framer.byteAt ring pos = 0
  len : 3 ≤ Framer.byteAt ring (pos + 2)
  id : (Id.mk (Framer.byteAt ring (pos + 1))).isValid = true
  inst : (Inst.mk (Framer.byteAt ring (pos + 3))).isStatus = true ∨
    (Inst.mk (Framer.byteAt ring (pos + 3))).opcode.isSome = true
  fits : size ≤ ring.length
  sized : size = footprint (Framer.byteAt ring (pos + 2))
  crc : Crc.checks (reading ring pos size) = true

/-- The shape a header must have. -/
def legalHeader (cap : ℕ) (stream : List Byte) : Bool :=
  3 ≤ stream.getD 2 0 && (Id.mk (stream.getD 1 0)).isValid &&
    ((Inst.mk (stream.getD 3 0)).isStatus || (Inst.mk (stream.getD 3 0)).opcode.isSome) &&
    footprint (stream.getD 2 0) ≤ cap

/-- What the walker says of a candidate with all the unconsumed bytes behind it. -/
def headerVerdict (cap : ℕ) (stream : List Byte) : Verdict :=
  if stream.length < 4 then .waiting
  else if !legalHeader cap stream then .dead
  else if stream.length < footprint (stream.getD 2 0) then .waiting
  else if Crc.checks (stream.take (footprint (stream.getD 2 0))) then
    .whole (footprint (stream.getD 2 0))
  else .dead

theorem whole_of_headerVerdict {cap : ℕ} {stream : List Byte}
    (h : headerVerdict cap stream = .whole n) :
    4 ≤ stream.length ∧ legalHeader cap stream = true ∧ n = footprint (stream.getD 2 0) ∧
      n ≤ stream.length ∧ Crc.checks (stream.take n) = true := by
  rw [headerVerdict] at h
  split at h
  · cases h
  · split at h
    · cases h
    · rename_i hlegal
      split at h
      · cases h
      · split at h
        · rename_i hcrc
          cases h
          exact ⟨by omega, by simpa using hlegal, rfl, by omega, hcrc⟩
        · cases h

theorem fits_of_headerVerdict {cap n : ℕ} {stream : List Byte}
    (h : headerVerdict cap stream = .whole n) : 0 < n ∧ n ≤ stream.length := by
  obtain ⟨-, -, rfl, hle, -⟩ := whole_of_headerVerdict h
  exact ⟨by rw [footprint]; omega, hle⟩

def frameJudge (cap : ℕ) : Judge Byte where
  starts b := b == 0
  verdict := headerVerdict cap
  fits := fits_of_headerVerdict

theorem head?_reading (h : 0 < n) :
    (reading ring start n).head? = some (Framer.byteAt ring start) := by
  rw [List.head?_eq_getElem?, List.getElem?_eq_getElem (by rwa [length_reading]), getElem_reading,
    Nat.add_zero]

theorem legalHeader_eq (h : 4 ≤ n) :
    legalHeader ring.length (reading ring start n) =
      (3 ≤ Framer.byteAt ring (start + 2) &&
        (Id.mk (Framer.byteAt ring (start + 1))).isValid &&
        ((Inst.mk (Framer.byteAt ring (start + 3))).isStatus ||
          (Inst.mk (Framer.byteAt ring (start + 3))).opcode.isSome) &&
        footprint (Framer.byteAt ring (start + 2)) ≤ ring.length) := by
  rw [legalHeader, getD_reading (by omega), getD_reading (by omega), getD_reading (by omega)]

theorem legalHeader_reading (h : 4 ≤ n) :
    legalHeader ring.length (reading ring start n) = true ↔
      3 ≤ Framer.byteAt ring (start + 2) ∧
        (Id.mk (Framer.byteAt ring (start + 1))).isValid = true ∧
        ((Inst.mk (Framer.byteAt ring (start + 3))).isStatus = true ∨
          (Inst.mk (Framer.byteAt ring (start + 3))).opcode.isSome = true) ∧
        footprint (Framer.byteAt ring (start + 2)) ≤ ring.length := by
  rw [legalHeader_eq h]
  simp only [Bool.and_eq_true, Bool.or_eq_true, decide_eq_true_eq, and_assoc]

/-- The walker's CRC comparison is the receivers' check over the whole frame. -/
theorem checks_reading {len : Byte} (hstart : start < ring.length)
    (hfits : footprint len ≤ ring.length) :
    Crc.checks (reading ring start (footprint len)) =
      ((ringCrc ring start (coveredLen len)).toNat ==
        u16FromLe (Framer.byteAt ring (start + coveredLen len))
          (Framer.byteAt ring (start + coveredLen len + 1))) := by
  have hcovered : footprint len - 2 = coveredLen len := by
    rw [footprint, coveredLen]
    omega
  have hinside : coveredLen len + 2 = footprint len := by
    rw [footprint, coveredLen]
    omega
  rw [Crc.checks, length_reading, hcovered, take_reading (by omega), getD_reading (by omega),
    getD_reading (by omega), ringCrc_reading hstart (by omega)]
  rfl

/-- A clean frame in the ring is an item wherever the walker reads all of it. -/
theorem item_iff_cleanAt {avail : ℕ} (hfull : n ≤ avail) :
    next (frameJudge ring.length) (reading ring start avail) = some (.item n) ↔
      CleanAt ring start n := by
  rw [next_eq_item]
  constructor
  · rintro ⟨⟨b, hhead, hstarts⟩, hwhole⟩
    obtain ⟨hlong, hlegal, hsized, -, hcrc⟩ := whole_of_headerVerdict hwhole
    rw [length_reading] at hlong
    rw [head?_reading (by omega)] at hhead
    rw [legalHeader_reading hlong] at hlegal
    rw [getD_reading (by omega)] at hsized
    rw [take_reading hfull] at hcrc
    obtain ⟨hlen, hid, hinst, hfits⟩ := hlegal
    constructor
    case headed => rwa [Option.some.inj hhead, ← beq_iff_eq]
    case len => exact hlen
    case id => exact hid
    case inst => exact hinst
    case fits => rwa [hsized]
    case sized => exact hsized
    case crc => exact hcrc
  · intro h
    have hlow := UInt8.le_iff_toNat_le.mp h.len
    have hsized := h.sized
    rw [footprint] at hsized
    have hlong : 4 ≤ avail := by
      simp only [UInt8.reduceToNat] at hlow
      omega
    refine ⟨⟨Framer.byteAt ring start, head?_reading (by omega), by rw [h.headed]; rfl⟩, ?_⟩
    have hlegal := (@legalHeader_reading ring start _ hlong).mpr
      ⟨h.len, h.id, h.inst, by rw [← h.sized]; exact h.fits⟩
    show headerVerdict ring.length (reading ring start avail) = .whole n
    rw [headerVerdict, length_reading, getD_reading (by omega), ← h.sized, take_reading hfull,
      if_neg (by omega), if_neg (by rw [hlegal]; decide), if_neg (by omega), if_pos h.crc]

/-! ## One step -/

theorem huntFrom_eq (ring : List Byte) (anchor avail fuel : ℕ) {k : ℕ} (hk : k ≤ avail)
    (hfuel : avail - k ≤ fuel) :
    Framer.huntFrom ring anchor avail fuel k =
      k + ((reading ring (anchor + k) (avail - k)).takeWhile fun b => !(b == 0)).length := by
  induction fuel generalizing k with
  | zero =>
      rw [Framer.huntFrom, show avail - k = 0 by omega]
      rfl
  | succ fuel ih =>
      rw [Framer.huntFrom]
      by_cases hlast : k = avail
      · rw [if_neg (by simp [hlast]), hlast, Nat.sub_self]
        rfl
      · have hsplit : avail - k = 1 + (avail - (k + 1)) := by omega
        have hread : reading ring (anchor + k) (avail - k) =
            Framer.byteAt ring (anchor + k) ::
              reading ring (anchor + (k + 1)) (avail - (k + 1)) := by
          rw [hsplit, reading_add]
          rfl
        rw [hread]
        by_cases hzero : Framer.byteAt ring (anchor + k) = 0
        · rw [if_neg (by simp [hzero]), List.takeWhile_cons_of_neg (by simp [hzero])]
          rfl
        · have hlt : k < avail := by omega
          rw [if_pos (by simp [hzero, hlt]), ih (by omega) (by omega),
            List.takeWhile_cons_of_pos (by simp [hzero]), List.length_cons]
          omega

/-- What a step answers to what the bytes in front are. -/
inductive Answers (framer : Framer) (ring : List Byte) : Option Token → Step × Framer → Prop where
  | stops {verdict : Step} (hverdict : verdict = .idle ∨ verdict = .parked) :
      Answers framer ring none (verdict, framer)
  | skips (n : ℕ) :
      Answers framer ring (some (.skip n)) (.garble n, ⟨(framer.anchor + n) % ring.length⟩)
  | takes {n : ℕ} {frame : Frame} (hclean : CleanAt ring framer.anchor n)
      (hid : frame.id = ⟨Framer.byteAt ring (framer.anchor + 1)⟩)
      (hinst : frame.inst = ⟨Framer.byteAt ring (framer.anchor + 3)⟩)
      (hpayload : frame.payload.bytes = reading ring (framer.anchor + 4) (n - 6)) :
      Answers framer ring (some (.item n))
        (.frame frame, ⟨(framer.anchor + n) % ring.length⟩)

/-- The bytes no verdict has consumed. -/
def unread (framer : Framer) (ring : List Byte) (cursor : ℕ) : List Byte :=
  reading ring framer.anchor (unresolved framer.anchor cursor ring.length)

theorem hunt_eq {framer : Framer} {avail : ℕ} (havail : 0 < avail) :
    framer.hunt ring avail =
      (.garble (gap (frameJudge ring.length) (reading ring framer.anchor avail)),
        ⟨(framer.anchor + gap (frameJudge ring.length) (reading ring framer.anchor avail)) %
          ring.length⟩) := by
  have hread : reading ring framer.anchor avail =
      Framer.byteAt ring framer.anchor :: reading ring (framer.anchor + 1) (avail - 1) := by
    conv_lhs => rw [show avail = 1 + (avail - 1) by omega, reading_add]
    rfl
  rw [Framer.hunt, huntFrom_eq ring framer.anchor avail avail havail (Nat.sub_le _ _), hread]
  rfl

theorem step_answers {framer : Framer} {cursor : ℕ} (hanchor : framer.anchor < ring.length) :
    Answers framer ring (next (frameJudge ring.length) (unread framer ring cursor))
      (framer.step ring cursor) := by
  rw [Framer.step, unread]
  generalize unresolved framer.anchor cursor ring.length = avail
  by_cases hnone : avail = 0
  · subst hnone
    exact .stops (.inl rfl)
  · have hread : reading ring framer.anchor avail =
        Framer.byteAt ring framer.anchor :: reading ring (framer.anchor + 1) (avail - 1) := by
      conv_lhs => rw [show avail = 1 + (avail - 1) by omega, reading_add]
      rfl
    have hskips : Answers framer ring
        (some (.skip (gap (frameJudge ring.length) (reading ring framer.anchor avail))))
        (framer.hunt ring avail) := by
      rw [hunt_eq (Nat.pos_of_ne_zero hnone)]
      exact .skips _
    have hstarts : (frameJudge ring.length).starts (Framer.byteAt ring framer.anchor) =
        (Framer.byteAt ring framer.anchor == 0) := rfl
    have hverdict : (frameJudge ring.length).verdict = headerVerdict ring.length := rfl
    have hsome : (avail == 0) = false := beq_false_of_ne hnone
    rw [hread, next, ← hread, hstarts, hverdict, hsome, if_neg Bool.false_ne_true, bne]
    cases hhead : Framer.byteAt ring framer.anchor == 0 with
    | false => exact hskips
    | true =>
        rw [if_pos rfl, Bool.not_true, if_neg Bool.false_ne_true, headerVerdict, length_reading]
        by_cases hshort : avail < 4
        · rw [if_pos hshort, if_pos hshort]
          exact .stops (.inr rfl)
        have hlong : 4 ≤ avail := Nat.le_of_not_lt hshort
        rw [if_neg hshort, if_neg hshort]
        dsimp only
        rw [← legalHeader_eq hlong, getD_reading (by omega)]
        cases hshape : legalHeader ring.length (reading ring framer.anchor avail) with
        | false => exact hskips
        | true =>
            have hfits := ((legalHeader_reading hlong).mp hshape).2.2.2
            rw [Bool.not_true, if_neg Bool.false_ne_true, if_neg Bool.false_ne_true]
            by_cases hmore : avail < footprint (Framer.byteAt ring (framer.anchor + 2))
            · rw [if_pos hmore, if_pos hmore]
              exact .stops (.inr rfl)
            have hfull := Nat.le_of_not_lt hmore
            rw [if_neg hmore, if_neg hmore, take_reading hfull, bne,
              ← checks_reading hanchor hfits]
            cases hcrc : Crc.checks (reading ring framer.anchor
              (footprint (Framer.byteAt ring (framer.anchor + 2)))) with
            | false => exact hskips
            | true =>
                obtain ⟨hlow, hid, hinst, -⟩ := (legalHeader_reading hlong).mp hshape
                have hsize : payloadLen (Framer.byteAt ring (framer.anchor + 2)) =
                    footprint (Framer.byteAt ring (framer.anchor + 2)) - 6 := by
                  have hlen : (Framer.byteAt ring (framer.anchor + 2) - 3).toNat =
                      (Framer.byteAt ring (framer.anchor + 2)).toNat - 3 :=
                    UInt8.toNat_sub_of_le _ _ hlow
                  rw [payloadLen, hlen, footprint]
                  omega
                have hpos : (framer.anchor + 4) % ring.length < ring.length :=
                  Nat.mod_lt _ (by omega)
                rw [Bool.not_true, if_neg Bool.false_ne_true, if_pos rfl]
                refine .takes ⟨eq_of_beq hhead, hlow, hid, hinst, hfits, rfl, hcrc⟩ rfl rfl ?_
                dsimp only
                rw [hsize, bytes_payloadView_reading hpos (by omega), reading_mod]

/-! ## The whole walk -/

/-- Step until there is nothing to take, with every answer. -/
def Framer.walk (ring : List Byte) (cursor : ℕ) : ℕ → Framer → List Step × Framer
  | 0, framer => ([], framer)
  | fuel + 1, framer =>
      match framer.step ring cursor with
      | (.idle, framer) => ([.idle], framer)
      | (.parked, framer) => ([.parked], framer)
      | (verdict, framer) =>
          let (verdicts, last) := Framer.walk ring cursor fuel framer
          (verdict :: verdicts, last)

/-- The footprint of a frame. -/
def Frame.size (frame : Frame) : ℕ := frame.payload.len + 6

/-- Ring bytes a step says it took; a garble count is a `u16`. -/
def Step.taken : Step → ℕ
  | .idle | .parked => 0
  | .frame found => found.size
  | .garble n => (UInt16.ofNat n).toNat

def Step.frame? : Step → Option Frame
  | .frame found => some found
  | _ => none

/-- The frames among some answers, each with the bytes taken before it. -/
def framesAt : ℕ → List Step → List (ℕ × Frame)
  | _, [] => []
  | offset, verdict :: verdicts =>
      (verdict.frame?.map fun frame => (offset, frame)).toList ++
        framesAt (offset + verdict.taken) verdicts

/-- A frame as it was read out of the ring. -/
structure ReadAt (ring : List Byte) (pos : ℕ) (frame : Frame) : Prop where
  clean : CleanAt ring pos frame.size
  id : frame.id = ⟨Framer.byteAt ring (pos + 1)⟩
  inst : frame.inst = ⟨Framer.byteAt ring (pos + 3)⟩
  payload : frame.payload.bytes = reading ring (pos + 4) frame.payload.len

variable {framer : Framer} {cursor : ℕ}

theorem ReadAt.of_mod {pos : ℕ} {frame : Frame} (h : ReadAt ring (pos % ring.length) frame) :
    ReadAt ring pos frame := by
  obtain ⟨⟨headed, len, id, inst, fits, sized, crc⟩, hid, hinst, hpayload⟩ := h
  rw [byteAt_mod] at headed
  rw [byteAt_mod_add] at len id inst sized hid hinst
  rw [reading_mod] at crc
  rw [← reading_mod, Nat.mod_add_mod, reading_mod] at hpayload
  exact ⟨⟨headed, len, id, inst, fits, sized, crc⟩, hid, hinst, hpayload⟩

theorem readAt_of_takes {frame : Frame} (hclean : CleanAt ring framer.anchor n)
    (hid : frame.id = ⟨Framer.byteAt ring (framer.anchor + 1)⟩)
    (hinst : frame.inst = ⟨Framer.byteAt ring (framer.anchor + 3)⟩)
    (hpayload : frame.payload.bytes = reading ring (framer.anchor + 4) (n - 6)) :
    frame.size = n ∧ ReadAt ring framer.anchor frame := by
  have hlen : frame.payload.len = n - 6 := by
    rw [← FrameBytes.length_bytes, hpayload, length_reading]
  have hlow := UInt8.le_iff_toNat_le.mp hclean.len
  have hsized := hclean.sized
  rw [footprint] at hsized
  have hsize : frame.size = n := by
    simp only [UInt8.reduceToNat] at hlow
    rw [Frame.size, hlen]
    omega
  exact ⟨hsize, hsize.symm ▸ hclean, hid, hinst, hlen.symm ▸ hpayload⟩

theorem unread_advance (hanchor : framer.anchor < ring.length) (hcursor : cursor < ring.length)
    (hn : n ≤ (unread framer ring cursor).length) :
    unread ⟨(framer.anchor + n) % ring.length⟩ ring cursor =
      (unread framer ring cursor).drop n := by
  rw [unread, length_reading] at hn
  rw [unread, unread, Framer.unresolved_advance hanchor hcursor hn, reading_mod, drop_reading hn]

/-- The answers of a walk, beside the tokens of the hunt. -/
structure WalkedAs (framer : Framer) (ring : List Byte) (cursor : ℕ) (tokens : List Token)
    (rest : List Byte) (out : List Step × Framer) : Prop where
  stops : ∃ verdicts last, out.1 = verdicts ++ [last] ∧ (last = .idle ∨ last = .parked)
  left : unread out.2 ring cursor = rest
  total : (out.1.map Step.taken).sum = taken tokens
  sizes : ∀ offset,
    (framesAt offset out.1).map (fun found => (found.1, found.2.size)) = items offset tokens
  read : ∀ base offset, framer.anchor = (base + offset) % ring.length →
    ∀ found ∈ framesAt offset out.1, ReadAt ring (base + found.1) found.2

namespace WalkedAs

variable {tokens : List Token} {rest : List Byte} {out : List Step × Framer}

theorem stop {verdict : Step} (hverdict : verdict = .idle ∨ verdict = .parked)
    (hstream : unread framer ring cursor = rest) :
    WalkedAs framer ring cursor [] rest ([verdict], framer) where
  stops := ⟨[], verdict, rfl, hverdict⟩
  left := hstream
  total := by obtain rfl | rfl := hverdict <;> rfl
  sizes _ := by obtain rfl | rfl := hverdict <;> rfl
  read _ _ _ := by obtain rfl | rfl := hverdict <;> exact fun _ h => nomatch h

theorem skip (h : WalkedAs ⟨(framer.anchor + n) % ring.length⟩ ring cursor tokens rest out)
    (hn : n < 65536) :
    WalkedAs framer ring cursor (.skip n :: tokens) rest (.garble n :: out.1, out.2) := by
  have htaken : (Step.garble n).taken = n := UInt16.toNat_ofNat_of_lt hn
  constructor
  case stops =>
    obtain ⟨verdicts, last, hout, hlast⟩ := h.stops
    exact ⟨.garble n :: verdicts, last, by rw [hout]; rfl, hlast⟩
  case left => exact h.left
  case total => rw [List.map_cons, List.sum_cons, h.total, htaken]; rfl
  case sizes =>
    intro offset
    rw [framesAt, htaken]
    exact h.sizes (offset + n)
  case read =>
    intro base offset hbase found hfound
    rw [framesAt, htaken] at hfound
    refine h.read base (offset + n) ?_ found hfound
    rw [hbase, Nat.mod_add_mod, Nat.add_assoc]

theorem item {frame : Frame}
    (h : WalkedAs ⟨(framer.anchor + n) % ring.length⟩ ring cursor tokens rest out)
    (hsize : frame.size = n) (hread : ReadAt ring framer.anchor frame) :
    WalkedAs framer ring cursor (.item n :: tokens) rest (.frame frame :: out.1, out.2) := by
  have htaken : (Step.frame frame).taken = n := hsize
  constructor
  case stops =>
    obtain ⟨verdicts, last, hout, hlast⟩ := h.stops
    exact ⟨.frame frame :: verdicts, last, by rw [hout]; rfl, hlast⟩
  case left => exact h.left
  case total => rw [List.map_cons, List.sum_cons, h.total, htaken]; rfl
  case sizes =>
    intro offset
    rw [framesAt, htaken, items, List.map_append, h.sizes (offset + n), ← hsize]
    rfl
  case read =>
    intro base offset hbase found hfound
    rw [framesAt, htaken] at hfound
    obtain hfirst | hlater := List.mem_append.mp hfound
    · obtain rfl : found = (offset, frame) := by simpa [Step.frame?] using hfirst
      rw [hbase] at hread
      exact hread.of_mod
    · refine h.read base (offset + n) ?_ found hlater
      rw [hbase, Nat.mod_add_mod, Nat.add_assoc]

end WalkedAs

theorem walkedAs {stream rest : List Byte} {tokens : List Token}
    (h : Walks (frameJudge ring.length) stream tokens rest) (hanchor : framer.anchor < ring.length)
    (hcursor : cursor < ring.length) (hindexed : ring.length ≤ 65536)
    (hstream : unread framer ring cursor = stream) {fuel : ℕ} (hfuel : tokens.length < fuel) :
    WalkedAs framer ring cursor tokens rest (framer.walk ring cursor fuel) := by
  obtain ⟨fuel, rfl⟩ := Nat.exists_eq_succ_of_ne_zero (by omega : fuel ≠ 0)
  have hanswers := @step_answers ring framer cursor hanchor
  rw [hstream] at hanswers
  induction h generalizing framer fuel with
  | stop hstop =>
      rw [hstop] at hanswers
      rw [Framer.walk]
      generalize framer.step ring cursor = answer at hanswers
      cases hanswers with
      | stops hverdict =>
          have hwalked := WalkedAs.stop hverdict hstream
          obtain rfl | rfl := hverdict <;> exact hwalked
  | @more stream rest token tokens hnext hrest ih =>
      obtain ⟨-, hle⟩ := next_size hnext
      rw [← hstream] at hle
      rw [List.length_cons] at hfuel
      obtain ⟨fuel, rfl⟩ := Nat.exists_eq_succ_of_ne_zero (by omega : fuel ≠ 0)
      have hadvance := unread_advance hanchor hcursor hle
      have hinside : (framer.anchor + token.size) % ring.length < ring.length :=
        Nat.mod_lt _ (by omega)
      have hnextAnswers :=
        @step_answers ring ⟨(framer.anchor + token.size) % ring.length⟩ cursor hinside
      rw [hadvance, hstream] at hnextAnswers
      have hlater := @ih ⟨(framer.anchor + token.size) % ring.length⟩ hinside
        (by rw [hadvance, hstream]) fuel (by omega) hnextAnswers
      rw [hnext] at hanswers
      rw [Framer.walk]
      generalize framer.step ring cursor = answer at hanswers
      cases hanswers with
      | skips n =>
          have hbound : n < 65536 := by
            have hlap : unresolved framer.anchor cursor ring.length < ring.length :=
              Nat.mod_lt _ (by omega)
            rw [unread, length_reading] at hle
            exact hle.trans_lt (hlap.trans_le hindexed)
          exact hlater.skip hbound
      | takes hclean hid hinst hpayload =>
          obtain ⟨hsize, hread⟩ := readAt_of_takes hclean hid hinst hpayload
          exact hlater.item hsize hread

/-- What is asked of a walk: it ends for want of bytes; its frames are legal and clean; its
garble and its frames are all it consumed; and no clean frame in there was passed over, unless
it overlaps one that was taken. -/
structure Recovers (framer : Framer) (ring : List Byte) (cursor : ℕ) (out : List Step × Framer) :
    Prop where
  stops : ∃ verdicts last, out.1 = verdicts ++ [last] ∧ (last = .idle ∨ last = .parked)
  legal : ∀ found ∈ framesAt 0 out.1, ReadAt ring (framer.anchor + found.1) found.2
  accounts : (out.1.map Step.taken).sum + unresolved out.2.anchor cursor ring.length =
    unresolved framer.anchor cursor ring.length
  noLoss : ∀ pos size, CleanAt ring (framer.anchor + pos) size →
    pos + size ≤ (out.1.map Step.taken).sum →
      ∃ found ∈ framesAt 0 out.1, found.1 < pos + size ∧ pos < found.1 + found.2.size

/-- The walk over any ring that a 16-bit cursor can index. -/
theorem walk_recovers {bits : ℕ} (hlen : ring.length = 2 ^ bits) (hindexed : bits ≤ 16)
    (hanchor : framer.anchor < ring.length) (hcursor : cursor < ring.length) {fuel : ℕ}
    (hfuel : unresolved framer.anchor cursor ring.length < fuel) :
    Recovers framer ring cursor (framer.walk ring cursor fuel) := by
  have hshort : ring.length ≤ 65536 := by
    rw [hlen]
    exact Nat.pow_le_pow_right (by decide) hindexed
  have havail : (unread framer ring cursor).length = unresolved framer.anchor cursor ring.length :=
    length_reading _ _ _
  obtain ⟨tokens, rest, hwalks⟩ :=
    exists_walks (frameJudge ring.length) (unread framer ring cursor)
  have hcount := hwalks.length_le
  have haccount := hwalks.account
  have hwalked := walkedAs hwalks hanchor hcursor hshort rfl (show tokens.length < fuel by omega)
  have hsizes := hwalked.sizes 0
  constructor
  case stops => exact hwalked.stops
  case legal =>
    exact hwalked.read framer.anchor 0 (by rw [Nat.add_zero, Nat.mod_eq_of_lt hanchor])
  case accounts =>
    have hleft := congrArg List.length hwalked.left
    rw [unread, length_reading] at hleft
    rw [hwalked.total, hleft, haccount, havail]
  case noLoss =>
    intro pos size hclean hin
    rw [hwalked.total] at hin
    have hitem : next (frameJudge ring.length) ((unread framer ring cursor).drop pos) =
        some (.item size) := by
      rw [unread, drop_reading (by omega)]
      exact (item_iff_cleanAt (by omega)).mpr hclean
    obtain ⟨item, hmem, hbefore, hafter⟩ := hwalks.no_loss 0 hitem hin
    rw [← hsizes] at hmem
    obtain ⟨found, hfound, rfl⟩ := List.mem_map.mp hmem
    rw [Nat.zero_add] at hbefore hafter
    exact ⟨found, hfound, hbefore, hafter⟩

/-- Sixteen bytes with a false header before a ping that wraps the seam. -/
def noisyRing : List Byte :=
  [0x10, 0xB0, 0xFD, 0, 0, 0, 0, 0, 0, 0xAA, 0x00, 0x05, 0x09, 0x00, 0x07, 0x03]

theorem noisy_walk_recovers :
    Recovers ⟨9⟩ noisyRing 3 (Framer.walk noisyRing 3 11 ⟨9⟩) :=
  walk_recovers (show noisyRing.length = 2 ^ 4 from rfl) (by decide) (by decide) (by decide)
    (by decide)

end OpenServo.Host
