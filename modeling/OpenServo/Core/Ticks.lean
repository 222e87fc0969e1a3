import Mathlib

/-!
# Wrapping clocks

A free-running counter shows its true instant modulo a power of two.  Two
readings of different widths compose: the low half of a later instant and the
full reading of an earlier one fix the later reading, as long as the two
instants lie less than one low-half wrap apart.
-/

namespace OpenServo

theorem ofInt32_toNat (instant : ℤ) : ((UInt32.ofInt instant).toNat : ℤ) = instant % 2 ^ 32 := by
  have hmod : (UInt32.ofInt instant).toNat = (instant % 2 ^ 32).toNat := by
    simp only [UInt32.ofInt, UInt32.toNat_ofNat']
    omega
  rw [hmod]
  omega

theorem ofInt16_toNat (instant : ℤ) : ((UInt16.ofInt instant).toNat : ℤ) = instant % 2 ^ 16 := by
  have hmod : (UInt16.ofInt instant).toNat = (instant % 2 ^ 16).toNat := by
    simp only [UInt16.ofInt, UInt16.toNat_ofNat']
    omega
  rw [hmod]
  omega

/-- The low half of a 32-bit reading is the 16-bit reading of that instant. -/
theorem ofInt32_toUInt16 (instant : ℤ) :
    (UInt32.ofInt instant).toUInt16 = UInt16.ofInt instant := by
  apply UInt16.toNat_inj.mp
  have hwide := ofInt32_toNat instant
  have hlow := ofInt16_toNat instant
  rw [UInt32.toNat_toUInt16]
  omega

theorem ofInt32_sub (later earlier : ℤ) :
    UInt32.ofInt later - UInt32.ofInt earlier = UInt32.ofInt (later - earlier) := by
  apply UInt32.toNat_inj.mp
  have hdiff := ofInt32_toNat (later - earlier)
  have hlater := ofInt32_toNat later
  have hearlier := ofInt32_toNat earlier
  rw [UInt32.toNat_sub]
  omega

theorem ofInt16_sub (later earlier : ℤ) :
    UInt16.ofInt later - UInt16.ofInt earlier = UInt16.ofInt (later - earlier) := by
  apply UInt16.toNat_inj.mp
  have hdiff := ofInt16_toNat (later - earlier)
  have hlater := ofInt16_toNat later
  have hearlier := ofInt16_toNat earlier
  rw [UInt16.toNat_sub]
  omega

theorem ofInt32_add (instant span : ℤ) :
    UInt32.ofInt instant + UInt32.ofInt span = UInt32.ofInt (instant + span) :=
  (UInt32.ofInt_add instant span).symm

/-- A span shorter than one low-half wrap is read exactly by the low half. -/
theorem ofInt16_toUInt32 {span : ℤ} (hpos : 0 ≤ span) (hshort : span < 2 ^ 16) :
    (UInt16.ofInt span).toUInt32 = UInt32.ofInt span := by
  apply UInt32.toNat_inj.mp
  have hwide := ofInt32_toNat span
  have hlow := ofInt16_toNat span
  rw [UInt16.toNat_toUInt32]
  omega

/-- Chaining forward: the first instant at or after `earlier` that shows the
low half of `later` is `later` itself. -/
theorem chain_forward {earlier later : ℤ} (horder : earlier ≤ later)
    (hshort : later - earlier < 2 ^ 16) :
    UInt32.ofInt earlier +
        (UInt16.ofInt later - (UInt32.ofInt earlier).toUInt16).toUInt32 =
      UInt32.ofInt later := by
  rw [ofInt32_toUInt16, ofInt16_sub, ofInt16_toUInt32 (by omega) hshort, ofInt32_add]
  congr 1
  omega

/-- Seeding backward: the last instant at or before `later` that shows the low
half of `earlier` is `earlier` itself. -/
theorem seed_backward {earlier later : ℤ} (horder : earlier ≤ later)
    (hshort : later - earlier < 2 ^ 16) :
    UInt32.ofInt later -
        ((UInt32.ofInt later).toUInt16 - UInt16.ofInt earlier).toUInt32 =
      UInt32.ofInt earlier := by
  rw [ofInt32_toUInt16, ofInt16_sub, ofInt16_toUInt32 (by omega) hshort, ofInt32_sub]
  congr 1
  omega

/-- The serial comparison of two readings that lie less than half a wrap apart. -/
theorem ofInt32_sub_lt {later earlier : ℤ} (bound : UInt32) :
    UInt32.ofInt later - UInt32.ofInt earlier < bound ↔
      (later - earlier) % 2 ^ 32 < bound.toNat := by
  rw [ofInt32_sub, UInt32.lt_iff_toNat_lt, ← ofInt32_toNat]
  omega

end OpenServo
