import OpenServo.Bus.CrcSpans
import OpenServo.Bus.Run
import OpenServo.Bus.Stream
import OpenServo.Bus.Transmission
import OpenServo.Host.Framer

/-!
# The walker over a live ring

Bytes land while the walker stands still.  What no verdict has consumed is the stretch of
the ring from the anchor to the cursor: landing bytes extends that stretch as long as it
stays under a lap, and a verdict takes a nonempty front of it.
-/

namespace OpenServo

open Table

namespace Host

open Bus

/-! ## The unconsumed stretch -/

theorem unresolved_lt {anchor cursor len : ℕ} (hlen : 0 < len) :
    unresolved anchor cursor len < len := Nat.mod_lt _ hlen

/-- The unconsumed stretch reaches the cursor. -/
theorem unresolved_reach {anchor cursor len : ℕ} (hanchor : anchor < len)
    (hcursor : cursor < len) : (anchor + unresolved anchor cursor len) % len = cursor := by
  rw [unresolved, Nat.add_mod_mod, show anchor + (cursor + len - anchor) = cursor + len by omega,
    Nat.add_mod_right, Nat.mod_eq_of_lt hcursor]

/-- What lies between an anchor and a cursor less than a lap ahead of it. -/
theorem unresolved_ahead {anchor span len : ℕ} (hanchor : anchor < len) (hspan : span < len) :
    unresolved anchor ((anchor + span) % len) len = span := by
  rw [unresolved]
  by_cases hwrap : anchor + span < len
  · rw [Nat.mod_eq_of_lt hwrap, show anchor + span + len - anchor = span + len by omega,
      Nat.add_mod_right, Nat.mod_eq_of_lt hspan]
  · have hback : (anchor + span) % len = anchor + span - len := by
      rw [Nat.mod_eq_sub_mod (by omega), Nat.mod_eq_of_lt (by omega)]
    rw [hback, show anchor + span - len + len - anchor = span by omega, Nat.mod_eq_of_lt hspan]

theorem unresolved_land {anchor cursor len n : ℕ} (hanchor : anchor < len)
    (hcursor : cursor < len) (hlap : unresolved anchor cursor len + n < len) :
    unresolved anchor ((cursor + n) % len) len = unresolved anchor cursor len + n := by
  have hahead := unresolved_ahead hanchor hlap
  rwa [← Nat.add_assoc, ← Nat.mod_add_mod, unresolved_reach hanchor hcursor] at hahead

namespace Framer

variable {framer framer' : Framer} {ring : Ring}

/-- The bytes no verdict has consumed, in the order in which they landed. -/
def pending (framer : Framer) (ring : Ring) : List Byte :=
  ring.window framer.anchor (unresolved framer.anchor ring.cursor ring.len)

@[simp]
theorem length_pending (framer : Framer) (ring : Ring) :
    (framer.pending ring).length = unresolved framer.anchor ring.cursor ring.len := by
  rw [pending, Ring.length_window]

theorem pending_land (hanchor : framer.anchor < ring.len) {bytes : List Byte}
    (hlap : (framer.pending ring).length + bytes.length < ring.len) :
    framer.pending (ring.land bytes) = framer.pending ring ++ bytes := by
  rw [length_pending] at hlap
  rw [pending, Ring.cursor_land, Ring.len_land,
    unresolved_land hanchor ring.cursor_lt_len hlap,
    Ring.window_land (unresolved_reach hanchor ring.cursor_lt_len) bytes (by omega), pending]

theorem pending_resync (framer : Framer) (ring : Ring) :
    (framer.resync ring.cursor).pending ring = [] := by
  have hnone : unresolved ring.cursor ring.cursor ring.len = 0 := by
    rw [unresolved, Nat.add_sub_cancel_left, Nat.mod_self]
  rw [pending, resync, hnone]
  rfl

/-- A verdict takes a nonempty front of the unconsumed bytes. -/
structure Cuts (framer framer' : Framer) (ring : Ring) (front : List Byte) : Prop where
  inRing : framer'.anchor < ring.len
  some : front ≠ []
  cut : framer.pending ring = front ++ framer'.pending ring

theorem cuts_advance (hanchor : framer.anchor < ring.len) {n : ℕ} (hpos : 0 < n)
    (hn : n ≤ (framer.pending ring).length) :
    Cuts framer ⟨(framer.anchor + n) % ring.len⟩ ring (ring.window framer.anchor n) where
  inRing := Nat.mod_lt _ ring.len_pos
  some := List.ne_nil_of_length_pos (by rwa [Ring.length_window])
  cut := by
    rw [length_pending] at hn
    have hsplit : unresolved framer.anchor ring.cursor ring.len =
        n + (unresolved framer.anchor ring.cursor ring.len - n) := by omega
    rw [pending, pending, unresolved_advance hanchor ring.cursor_lt_len hn, Ring.window_mod,
      ← Ring.window_add, ← hsplit]

/-! ## Spans of the ring -/

theorem byteAt_bytes (ring : Ring) (pos : ℕ) : byteAt ring.bytes pos = ring.byteAt pos := by
  rw [byteAt, Ring.byteAt, ring.length_bytes]

/-- Two segments of the ring are the stretch across the seam. -/
theorem take_append_take {start n : ℕ} (hstart : start < ring.len) (hn : n ≤ ring.len) :
    (ring.bytes.drop start).take (min n (ring.bytes.length - start)) ++
        ring.bytes.take (n - min n (ring.bytes.length - start)) = ring.window start n := by
  rw [ring.length_bytes, List.take_drop]
  change ring.slice start _ ++ _ = _
  by_cases hseam : n ≤ ring.len - start
  · rw [min_eq_left hseam, Nat.sub_self, List.take_zero, List.append_nil,
      Ring.slice_eq_window (by omega) (by omega), Nat.add_sub_cancel_left]
  · rw [min_eq_right (by omega), show start + (ring.len - start) = ring.len by omega]
    have hback : n - (ring.len - start) = start + n - ring.len := by omega
    have hacross : ring.slice start ring.len ++ ring.slice 0 (start + n - ring.len) =
        ring.window start (start + n - start) :=
      Ring.slice_append_slice hstart.le (by omega) (by omega)
    rw [Nat.add_sub_cancel_left] at hacross
    rw [hback, ← hacross]
    rfl

theorem bytes_payloadView {start n : ℕ} (hstart : start < ring.len) (hn : n ≤ ring.len) :
    (payloadView ring.bytes start n).bytes = ring.window start n :=
  take_append_take hstart hn

theorem len_payloadView {start n : ℕ} (hstart : start < ring.len) (hn : n ≤ ring.len) :
    (payloadView ring.bytes start n).len = n := by
  rw [← FrameBytes.length_bytes, bytes_payloadView hstart hn, Ring.length_window]

theorem ringCrc_eq {start n : ℕ} (hstart : start < ring.len) (hn : n ≤ ring.len) :
    ringCrc ring.bytes start n = Crc.oscCrc (ring.window start n) := by
  rw [ringCrc, ← take_append_take hstart hn]
  simp only [beq_iff_eq]
  split
  · rename_i hhead
    rw [hhead, Nat.sub_self, List.take_zero, List.append_nil]
  · rw [Crc.oscCrc, Crc.oscCrc, Crc.oscCrcContinue_append]

/-! ## What a verdict says of the bytes it takes -/

theorem lenFor_payloadLen {len : Byte} : lenFor (UInt8.ofNat (payloadLen len)) = len := by
  rw [lenFor, payloadLen, UInt8.ofNat_toNat, UInt8.add_comm, UInt8.sub_add_cancel]

theorem toNat_eq_payloadLen {len : Byte} (h : 3 ≤ len) : len.toNat = 3 + payloadLen len := by
  have hlow : 3 ≤ len.toNat := UInt8.le_iff_toNat_le.mp h
  have hsub : (len - 3).toNat = len.toNat - 3 := UInt8.toNat_sub_of_le _ _ h
  rw [payloadLen, hsub]
  omega

theorem leBytes16_of_toNat {crc : UInt16} {lo hi : Byte} (h : crc.toNat = u16FromLe lo hi) :
    leBytes16 crc = [lo, hi] := by
  rw [← eq_fromLeBytes16_iff, ← UInt16.toNat_inj, toNat_fromLeBytes16]
  exact h

/-- A stretch that starts with a break and says its own CRC is a wire frame. -/
theorem window_eq_wireFrame {start : ℕ} {len : Byte} (hhead : ring.byteAt start = 0)
    (hlen : ring.byteAt (start + 2) = len) (hlow : 3 ≤ len)
    (hcrc : (Crc.oscCrc (ring.window start (coveredLen len))).toNat =
      u16FromLe (ring.byteAt (start + coveredLen len)) (ring.byteAt (start + coveredLen len + 1))) :
    ring.window start (footprint len) = wireFrame ⟨ring.byteAt (start + 1)⟩
      ⟨ring.byteAt (start + 3)⟩ (ring.window (start + 4) (payloadLen len)) := by
  have hsize := toNat_eq_payloadLen hlow
  have hcovered : coveredLen len = payloadLen len + 3 + 1 := by
    rw [coveredLen, hsize]
    omega
  have hbody : ring.window (start + 1) (payloadLen len + 3) = ring.byteAt (start + 1) :: len ::
      ring.byteAt (start + 3) :: ring.window (start + 4) (payloadLen len) := by
    rw [Ring.window_succ, Ring.window_succ, Ring.window_succ, ← hlen]
  have hend := leBytes16_of_toNat hcrc
  rw [hcovered, Ring.oscCrc_window_headed hhead, hbody] at hend
  have hsplit : footprint len = 1 + (payloadLen len + 3) + 2 := by
    rw [footprint, hsize]
    omega
  have htail : ring.window (start + (1 + (payloadLen len + 3))) 2 =
      [ring.byteAt (start + (payloadLen len + 3 + 1)),
        ring.byteAt (start + (payloadLen len + 3 + 1) + 1)] := by
    rw [Nat.add_comm 1]
    rfl
  have hone : ring.window start 1 = [0] := by
    rw [← hhead]
    rfl
  simp only [leBytes16, List.cons.injEq, and_true] at hend
  rw [hsplit, Ring.window_add, Ring.window_add, hbody, hone, htail, wireFrame, frameBytes,
    Ring.length_window, lenFor_payloadLen]
  simp only [hend.1, hend.2, List.cons_append, List.nil_append]

/-- A frame verdict takes a wire frame. -/
theorem step_frame (hanchor : framer.anchor < ring.len) {frame : Frame}
    (h : framer.step ring.bytes ring.cursor = (.frame frame, framer')) :
    Cuts framer framer' ring (wireFrame frame.id frame.inst frame.payload.bytes) ∧
      frame.payload.len ≤ maxPayload ∧
      payloadView ring.bytes frame.payloadPos frame.payload.len = frame.payload := by
  rw [step] at h
  simp only [byteAt_bytes, ring.length_bytes] at h
  split at h
  · cases h
  · split at h
    · cases h
    · rename_i hhead
      split at h
      · cases h
      · split at h
        · cases h
        · rename_i hvalid
          split at h
          · cases h
          · rename_i hfull
            split at h
            · cases h
            · rename_i hcrc
              simp only [Bool.not_eq_true, Bool.not_eq_false', Bool.and_eq_true,
                decide_eq_true_eq] at hvalid
              simp only [bne_iff_ne, ne_eq, not_not] at hhead hcrc
              obtain ⟨⟨⟨hlow, -⟩, -⟩, hfits⟩ := hvalid
              have hsize := toNat_eq_payloadLen hlow
              have hcovered : coveredLen (ring.byteAt (framer.anchor + 2)) ≤ ring.len := by
                rw [coveredLen]
                rw [footprint] at hfits
                omega
              rw [ringCrc_eq hanchor hcovered] at hcrc
              have hpos : (framer.anchor + 4) % ring.len < ring.len := Nat.mod_lt _ ring.len_pos
              have hpay : payloadLen (ring.byteAt (framer.anchor + 2)) ≤ ring.len := by
                rw [footprint] at hfits
                omega
              have hbound : payloadLen (ring.byteAt (framer.anchor + 2)) ≤ maxPayload := by
                have hbyte := (ring.byteAt (framer.anchor + 2)).toNat_lt
                rw [maxPayload]
                omega
              obtain ⟨hframe, rfl⟩ := Prod.mk.inj h
              obtain rfl := Step.frame.inj hframe
              dsimp only
              rw [len_payloadView hpos hpay, bytes_payloadView hpos hpay, Ring.window_mod]
              refine ⟨?_, hbound, rfl⟩
              rw [← window_eq_wireFrame hhead rfl hlow hcrc]
              exact cuts_advance hanchor (by rw [footprint]; omega)
                (by rw [length_pending]; omega)

theorem hunt_garble (hanchor : framer.anchor < ring.len) {n : ℕ}
    (hsome : (framer.pending ring).length ≠ 0)
    (h : framer.hunt ring.bytes (framer.pending ring).length = (.garble n, framer')) :
    Cuts framer framer' ring (ring.window framer.anchor n) := by
  obtain ⟨hskip, rfl⟩ := Prod.mk.inj h
  obtain rfl := Step.garble.inj hskip
  rw [ring.length_bytes]
  exact cuts_advance hanchor (huntFrom_pos _ _ _ _ le_rfl)
    (huntFrom_le _ _ _ _ (Nat.one_le_iff_ne_zero.mpr hsome))

/-- A garble verdict takes the bytes it counts. -/
theorem step_garble (hanchor : framer.anchor < ring.len) {n : ℕ}
    (h : framer.step ring.bytes ring.cursor = (.garble n, framer')) :
    ∃ front, front.length = n ∧ Cuts framer framer' ring front := by
  refine ⟨ring.window framer.anchor n, ring.length_window _ _, ?_⟩
  rw [step] at h
  simp only [ring.length_bytes, ← length_pending] at h
  split at h
  · cases h
  · rename_i hsome
    have hsome : (framer.pending ring).length ≠ 0 := fun hnone => hsome (beq_iff_eq.mpr hnone)
    split at h
    · exact hunt_garble hanchor hsome h
    · split at h
      · cases h
      · split at h
        · exact hunt_garble hanchor hsome h
        · split at h
          · cases h
          · split at h
            · exact hunt_garble hanchor hsome h
            · cases h

/-- Without a verdict nothing is taken. -/
theorem step_stays {ring : List Byte} {cursor : ℕ} {verdict : Step}
    (hverdict : verdict = .idle ∨ verdict = .parked)
    (h : framer.step ring cursor = (verdict, framer')) : framer' = framer := by
  obtain rfl : (framer.step ring cursor).1 = verdict := congrArg Prod.fst h
  obtain rfl : (framer.step ring cursor).2 = framer' := congrArg Prod.snd h
  revert hverdict
  simp only [step, hunt]
  repeat' split
  all_goals simp

theorem step_idle (h : framer.pending ring = []) :
    framer.step ring.bytes ring.cursor = (.idle, framer) := by
  have hnone : unresolved framer.anchor ring.cursor ring.len = 0 := by
    rw [← length_pending, h]
    rfl
  rw [step, ring.length_bytes, hnone]
  rfl

end Framer

/-! ## Statuses on the wire -/

theorem length_wireFrame (id : Id) (inst : Inst) (payload : List Byte) :
    (wireFrame id inst payload).length = payload.length + 6 := by
  simp [wireFrame, frameBytes]

/-- A status a servo can send. -/
structure Reply where
  id : Id
  inst : Inst
  payload : List Byte
  unicast : id.isUnicast = true
  status : inst.isStatus = true
  fits : payload.length ≤ maxPayload

namespace Reply

variable {framer : Framer} {ring : Ring} {reply : Reply}

def frame (reply : Reply) : List Byte := wireFrame reply.id reply.inst reply.payload

theorem status_ok : (Inst.mk 0x80).isStatus = true := by decide

theorem length_frame (reply : Reply) : reply.frame.length = reply.payload.length + 6 :=
  length_wireFrame _ _ _

def len (reply : Reply) : Byte := lenFor (UInt8.ofNat reply.payload.length)

theorem toNat_len (reply : Reply) : reply.len.toNat = 3 + reply.payload.length :=
  toNat_lenFor reply.fits

theorem footprint_len (reply : Reply) : footprint reply.len = reply.frame.length := by
  rw [footprint, toNat_len, length_frame]
  omega

/-- What is unconsumed starts with (part of) the frame, the header included. -/
structure Headed (reply : Reply) (framer : Framer) (ring : Ring) : Prop where
  head : ring.byteAt framer.anchor = 0
  id : ring.byteAt (framer.anchor + 1) = reply.id.byte
  len : ring.byteAt (framer.anchor + 2) = reply.len
  inst : ring.byteAt (framer.anchor + 3) = reply.inst.byte

theorem byteAt_of_pending {i : ℕ} {b : Byte} (h : (framer.pending ring)[i]? = some b) :
    ring.byteAt (framer.anchor + i) = b := by
  obtain ⟨hi, -⟩ := List.getElem?_eq_some_iff.mp h
  rw [Framer.length_pending] at hi
  rw [Framer.pending, Ring.getElem?_window hi] at h
  exact Option.some.inj h

/-- The header of a frame is one the walker takes for plausible. -/
theorem Headed.plausible (h : Headed reply framer ring) :
    (3 ≤ ring.byteAt (framer.anchor + 2) &&
      (Id.mk (ring.byteAt (framer.anchor + 1))).isValid &&
      ((Inst.mk (ring.byteAt (framer.anchor + 3))).isStatus ||
        (Inst.mk (ring.byteAt (framer.anchor + 3))).opcode.isSome) &&
      footprint (ring.byteAt (framer.anchor + 2)) ≤ ring.len) = true := by
  have hlow : 3 ≤ reply.len := by
    rw [UInt8.le_iff_toNat_le, toNat_len]
    exact Nat.le_add_right _ _
  have hfits : footprint reply.len ≤ ring.len := by
    have hpayload : reply.payload.length ≤ 252 := reply.fits
    have hring := ring.len_ge
    rw [footprint_len, length_frame]
    omega
  rw [h.len, h.id, h.inst]
  simp [hlow, hfits, Id.isValid, reply.unicast, reply.status]

theorem headed_of_starts {front rest : List Byte} (hpending : framer.pending ring = front)
    (hfront : front ++ rest = reply.frame) (hlong : 4 ≤ front.length) :
    Headed reply framer ring := by
  have hbyte : ∀ i < 4, (framer.pending ring)[i]? = reply.frame[i]? := fun i hi => by
    rw [hpending, ← hfront, List.getElem?_append_left (by omega)]
  exact ⟨byteAt_of_pending (hbyte 0 (by omega)), byteAt_of_pending (hbyte 1 (by omega)),
    byteAt_of_pending (hbyte 2 (by omega)), byteAt_of_pending (hbyte 3 (by omega))⟩

/-- A frame that has only begun to land is waited for. -/
theorem step_begun {front rest : List Byte} (hpending : framer.pending ring = front)
    (hfront : front ++ rest = reply.frame) (hsome : front ≠ []) (hmore : rest ≠ []) :
    framer.step ring.bytes ring.cursor = (.parked, framer) := by
  have hpos := List.length_pos_iff.mpr hsome
  have hrest := List.length_pos_iff.mpr hmore
  have hhead : ring.byteAt framer.anchor = 0 := by
    refine byteAt_of_pending (i := 0) ?_
    rw [hpending, ← List.getElem?_append_left hpos, hfront]
    rfl
  have hlength := congrArg List.length hfront
  rw [List.length_append] at hlength
  rw [Framer.step]
  simp only [Framer.byteAt_bytes, ring.length_bytes, ← Framer.length_pending]
  rw [if_neg (by rw [hpending, beq_iff_eq]; omega), hhead, if_neg (by decide)]
  by_cases hlong : 4 ≤ front.length
  · have hheaded := headed_of_starts hpending hfront hlong
    rw [if_neg (by rw [hpending]; omega), hheaded.plausible, if_neg (by decide), hheaded.len,
      footprint_len, if_pos (by rw [hpending]; omega)]
  · rw [if_pos (by rw [hpending]; omega)]

/-- A frame is cut where its covered bytes end. -/
theorem frame_eq (reply : Reply) :
    reply.frame = (0 :: reply.id.byte :: reply.len :: reply.inst.byte :: reply.payload) ++
      leBytes16 (Crc.oscCrc (reply.id.byte :: reply.len :: reply.inst.byte :: reply.payload)) := by
  rfl

theorem window_of_whole {rest : List Byte} (h : framer.pending ring = reply.frame ++ rest) :
    ring.window framer.anchor reply.frame.length = reply.frame := by
  have hlength := congrArg List.length h
  rw [Framer.length_pending, List.length_append] at hlength
  rw [Framer.pending, hlength, Ring.window_add] at h
  exact (List.append_inj h (Ring.length_window _ _ _)).1

/-- A frame that has landed is taken. -/
theorem step_landed (hanchor : framer.anchor < ring.len) {rest : List Byte}
    (hpending : framer.pending ring = reply.frame ++ rest) :
    ∃ frame framer', framer.step ring.bytes ring.cursor = (.frame frame, framer') ∧
      frame.id = reply.id ∧ frame.inst = reply.inst ∧ frame.payload.bytes = reply.payload := by
  have hlength := reply.length_frame
  have hfits := reply.fits
  have hfull : (framer.pending ring).length = reply.frame.length + rest.length := by
    rw [hpending, List.length_append]
  have hring := ring.len_ge
  have hmax : maxPayload = 252 := rfl
  have hheaded : Headed reply framer ring := by
    have hbyte : ∀ i < 4, (framer.pending ring)[i]? = reply.frame[i]? := fun i hi => by
      rw [hpending, List.getElem?_append_left (by omega)]
    exact ⟨byteAt_of_pending (hbyte 0 (by omega)), byteAt_of_pending (hbyte 1 (by omega)),
      byteAt_of_pending (hbyte 2 (by omega)), byteAt_of_pending (hbyte 3 (by omega))⟩
  have hcovered : coveredLen reply.len = reply.payload.length + 4 := by
    rw [coveredLen, toNat_len]
    omega
  have hwhole := window_of_whole hpending
  rw [hlength, show reply.payload.length + 6 = reply.payload.length + 4 + 2 from rfl,
    Ring.window_add] at hwhole
  obtain ⟨hbody, hend⟩ := List.append_inj (hwhole.trans reply.frame_eq)
    (by rw [Ring.length_window]; rfl)
  have hcrc : (ringCrc ring.bytes framer.anchor (coveredLen reply.len)).toNat =
      u16FromLe (ring.byteAt (framer.anchor + coveredLen reply.len))
        (ring.byteAt (framer.anchor + coveredLen reply.len + 1)) := by
    rw [hcovered, Framer.ringCrc_eq hanchor (by omega), hbody, Crc.oscCrc_zero_cons]
    have hvalue := eq_fromLeBytes16_iff.mpr hend.symm
    rw [hvalue, toNat_fromLeBytes16]
    rfl
  have hpayload : ring.window (framer.anchor + 4) reply.payload.length = reply.payload := by
    rw [Nat.add_comm reply.payload.length, Ring.window_add] at hbody
    have hsplit : ring.window framer.anchor 4 ++
        ring.window (framer.anchor + 4) reply.payload.length =
          [0, reply.id.byte, reply.len, reply.inst.byte] ++ reply.payload := hbody
    exact (List.append_inj hsplit (Ring.length_window _ _ _)).2
  have hpos : (framer.anchor + 4) % ring.len < ring.len := Nat.mod_lt _ ring.len_pos
  have hsize : payloadLen reply.len = reply.payload.length := payloadLen_lenFor reply.fits
  rw [Framer.step]
  simp only [Framer.byteAt_bytes, ring.length_bytes, ← Framer.length_pending]
  rw [if_neg (by rw [beq_iff_eq]; omega), hheaded.head, if_neg (by decide),
    if_neg (by omega), hheaded.plausible, if_neg (by decide), hheaded.len, footprint_len,
    if_neg (by omega), hcrc, if_neg (by simp)]
  refine ⟨_, _, rfl, ?_, ?_, ?_⟩
  · rw [hheaded.id]
  · rw [hheaded.inst]
  · dsimp only
    rw [Framer.bytes_payloadView hpos (by omega), Ring.window_mod, hsize, hpayload]

end Reply

end Host

end OpenServo
