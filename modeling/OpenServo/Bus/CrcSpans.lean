import OpenServo.Bus.Resync
import OpenServo.Table.Persist

/-!
# What the receive check hands the engine

The engine takes halfwords, so the driver feeds it spans with an even start and an
even length: an odd anchor leaves out the break byte, which the CRC does not see, the
seam cuts the bulk in two, and an odd last byte is folded in software.  Whatever the
three parities, the verdict is the CRC of the frame from its ID to its payload.
-/

namespace OpenServo.Bus

open Table

/-- A span the engine takes: halfwords of the ring, from an even index on. -/
structure HalfwordSpan (ring : Ring) (span : ℕ × List Byte) : Prop where
  even_start : span.1 % 2 = 0
  even_length : span.2.length % 2 = 0
  inside : span.1 + span.2.length ≤ ring.len
  bytes : span.2 = ring.slice span.1 (span.1 + span.2.length)

theorem Ring.len_even (ring : Ring) : ring.len % 2 = 0 := by
  have hlap := ring.lapMargin
  rw [len, ← Nat.sub_add_cancel (show 1 ≤ ring.bits by omega), Nat.pow_succ]
  exact Nat.mul_mod_left _ _

theorem Ring.length_slice (ring : Ring) (start : ℕ) {stop : ℕ} (hstop : stop ≤ ring.len) :
    (ring.slice start stop).length = stop - start := by
  rw [slice, List.length_drop, List.length_take_of_le (hstop.trans_eq ring.length_eq.symm)]

/-- A slice between two even indices is a halfword span. -/
theorem halfwordSpan_slice (ring : Ring) {start stop : ℕ} (hstart : start % 2 = 0)
    (hstop : stop % 2 = 0) (hordered : start ≤ stop) (hinside : stop ≤ ring.len) :
    HalfwordSpan ring (start, ring.slice start stop) := by
  have hlength := ring.length_slice start hinside
  have hend : start + (ring.slice start stop).length = stop := by omega
  exact ⟨hstart, by dsimp only; omega, by dsimp only; omega, by dsimp only; rw [hend]⟩

namespace ServoBus

/-- Whatever the anchor and wherever the seam, the engine is fed halfword spans. -/
theorem halfwordSpan_crcFeed {bus : ServoBus} {anchor footprint : ℕ}
    (hanchor : anchor < bus.ring.len) (hlow : 6 ≤ footprint) (hfit : footprint ≤ bus.ring.len) :
    ∀ span ∈ (bus.crcFeed anchor footprint).crc.fed, HalfwordSpan bus.ring span := by
  have heven := bus.ring.len_even
  intro span hspan
  simp only [crcFeed, CrcEngine.feed, CrcEngine.reset] at hspan
  split at hspan
  · rename_i hinside
    obtain rfl := List.mem_singleton.mp hspan
    exact halfwordSpan_slice bus.ring (by omega) (by omega) (by omega) hinside
  · rename_i hacross
    obtain rfl | rfl := List.mem_pair.mp hspan
    · exact halfwordSpan_slice bus.ring (by omega) heven (by omega) le_rfl
    · exact halfwordSpan_slice bus.ring rfl (by omega) (Nat.zero_le _) (by omega)

/-- The feed is nothing but the engine fed the spans of its log. -/
theorem crcFeed_eq (bus : ServoBus) (anchor footprint : ℕ) :
    bus.crcFeed anchor footprint =
      { bus with
        crc := (bus.crcFeed anchor footprint).crc.fed.foldl
          (fun crc span => crc.feed span.1 span.2) bus.crc.reset } := by
  simp only [crcFeed]
  split <;> rfl

end ServoBus

/-! ## The CRC on the wire -/

theorem toNat_fromLeBytes16 (lo hi : Byte) :
    (fromLeBytes16 lo hi).toNat = lo.toNat + 256 * hi.toNat := by
  have hlo := lo.toNat_lt
  have hhi := hi.toNat_lt
  have hnat : (fromLeBytes16 lo hi).toNat = lo.toNat ||| (hi.toNat <<< 8 % 65536) := by
    simp [fromLeBytes16]
  rw [hnat, Nat.shiftLeft_eq, Nat.mod_eq_of_lt (by omega), Nat.or_comm, Nat.mul_comm,
    ← Nat.two_pow_add_eq_or_of_lt hlo]
  omega

theorem eq_fromLeBytes16_iff {v : UInt16} {lo hi : Byte} :
    v = fromLeBytes16 lo hi ↔ leBytes16 v = [lo, hi] := by
  constructor
  · rintro rfl
    have hvalue := toNat_fromLeBytes16 lo hi
    have hlo := lo.toNat_lt
    have hhi := hi.toNat_lt
    have hlow : (fromLeBytes16 lo hi).toUInt8 = lo := by
      apply UInt8.toNat_inj.mp
      rw [UInt16.toNat_toUInt8, hvalue]
      omega
    have hhigh : (fromLeBytes16 lo hi >>> 8).toUInt8 = hi := by
      apply UInt8.toNat_inj.mp
      rw [UInt16.toNat_toUInt8, UInt16.toNat_shiftRight, hvalue]
      change (lo.toNat + 256 * hi.toNat) >>> 8 % 2 ^ 8 = hi.toNat
      rw [Nat.shiftRight_eq_div_pow]
      omega
    rw [leBytes16, hlow, hhigh]
  · intro h
    simp only [leBytes16, List.cons.injEq, and_true] at h
    rw [← h.1, ← h.2, fromLeBytes16_leBytes16]

theorem Ring.wireCrc_eq (ring : Ring) {anchor footprint : ℕ} (hlow : 2 ≤ footprint) :
    ring.wireCrc anchor footprint =
      fromLeBytes16 (ring.byteAt (anchor + footprint - 2))
        (ring.byteAt (anchor + footprint - 1)) := by
  have hlo : anchor + (footprint - 2) = anchor + footprint - 2 := by omega
  have hhi : anchor + (footprint - 2) + 1 = anchor + footprint - 1 := by omega
  rw [wireCrc, fromLeBytes16, hhi, hlo]

/-- The break byte is no part of what the CRC says. -/
theorem Ring.oscCrc_window_headed {ring : Ring} {anchor : ℕ} (hhead : ring.byteAt anchor = 0)
    (n : ℕ) :
    Crc.oscCrc (ring.window anchor (n + 1)) = Crc.oscCrc (ring.window (anchor + 1) n) := by
  rw [Ring.window_succ, hhead, Crc.oscCrc_zero_cons]

/-- Every span the engine is fed is a halfword span, and the verdict is whether the CRC of the
bytes from the ID to the end of the payload is what the frame's last two bytes say. -/
theorem crc_check_is_exact {bus : ServoBus} {anchor footprint : ℕ}
    (hanchor : anchor < bus.ring.len) (hlow : 6 ≤ footprint) (hhigh : footprint ≤ 258)
    (hhead : bus.ring.byteAt anchor = 0) (hready : bus.crc.stalled = false) :
    bus.crcFeed anchor footprint =
        { bus with
          crc := (bus.crcFeed anchor footprint).crc.fed.foldl
            (fun crc span => crc.feed span.1 span.2) bus.crc.reset } ∧
      (∀ span ∈ (bus.crcFeed anchor footprint).crc.fed, HalfwordSpan bus.ring span) ∧
      ((bus.crcFeed anchor footprint).crcVerify anchor footprint = true ↔
        leBytes16 (Crc.oscCrc (bus.ring.window (anchor + 1) (footprint - 3))) =
          [bus.ring.byteAt (anchor + footprint - 2), bus.ring.byteAt (anchor + footprint - 1)]) ∧
      bus.crcOk anchor footprint =
        ((bus.crcFeed anchor footprint).crcVerify anchor footprint,
          bus.crcFeed anchor footprint) := by
  have hlen := bus.ring.len_ge
  have hfit : footprint ≤ bus.ring.len := by omega
  refine ⟨bus.crcFeed_eq anchor footprint, ServoBus.halfwordSpan_crcFeed hanchor hlow hfit, ?_, ?_⟩
  · have hcovered : footprint - 2 = footprint - 3 + 1 := by omega
    rw [ServoBus.crcVerify_crcFeed hanchor hlow hfit hhead hready, Ring.crcValid, beq_iff_eq,
      hcovered, Ring.oscCrc_window_headed hhead, Ring.wireCrc_eq _ (by omega),
      eq_fromLeBytes16_iff]
  · have hskip : ¬ (bus.ring.len == 0 || decide (footprint < 2)) = true := by
      simp only [Bool.or_eq_true, beq_iff_eq, decide_eq_true_eq]
      omega
    rw [ServoBus.crcOk, if_neg hskip]

/-- A ping of six bytes at index 509, its INST byte behind the seam. -/
def seamPing : Ring where
  bits := 9
  bytes := [0x10, 0xB0, 0xFD] ++ List.replicate 506 0xAA ++ [0x00, 0x07, 0x03]
  cursor := 3
  length_eq := by rw [List.length_append, List.length_append, List.length_replicate]; rfl
  lapMargin := Ring.lapMargin_nine
  indexed := Ring.indexed_nine
  cursor_lt := by decide

def seamBus : ServoBus := .new ⟨8, 1000⟩ seamPing 0 7 .b1000000 0

theorem crc_check_across_the_seam : (seamBus.crcFeed 509 6).crcVerify 509 6 = true := by
  have hanchor : 509 < seamBus.ring.len := by decide
  have hhead : seamBus.ring.byteAt 509 = 0 := by decide +kernel
  obtain ⟨-, -, hverdict, -⟩ := crc_check_is_exact hanchor (show 6 ≤ 6 by decide)
    (show 6 ≤ 258 by decide) hhead rfl
  exact hverdict.mpr (by decide +kernel)

end OpenServo.Bus
