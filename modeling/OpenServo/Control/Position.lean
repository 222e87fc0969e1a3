import OpenServo.Core.Interpolation
import OpenServo.Dispatch.Containment

/-!
# The position reading

The control loop's position: an ADC code placed between the two physical limits.  The
product is taken in 64 bits and the offset narrowed to 32 before it is added to the lower
limit, so the reading is the interpolation as long as the offset fits.
-/

namespace OpenServo.Control

open Table Interpolation

/-! ## The conversion -/

def adcMaxRaw : UInt16 := 4095

/-- What a frame's conversion needs of the live table. -/
structure ConversionVariables where
  posMinPhysUrad : Int32
  posMaxPhysUrad : Int32
  deriving DecidableEq, Repr

def ConversionVariables.snapshot (t : ControlTable) : ConversionVariables where
  posMinPhysUrad := .ofInt (limit t Addr.posMinPhysUrad)
  posMaxPhysUrad := .ofInt (limit t Addr.posMaxPhysUrad)

/-- `a.saturating_add(b)` on `i32`. -/
def saturatingAdd (a b : Int32) : Int32 := .ofIntClamp (a.toInt + b.toInt)

/-- The `>> 12` stands for a division by 4095. -/
def posToMicrorads (raw : UInt16) (minUrad maxUrad : Int32) : Int32 :=
  let span := maxUrad.toInt64 - minUrad.toInt64
  let interp := (span * raw.toUInt64.toInt64) >>> 12
  saturatingAdd minUrad interp.toInt32

/-- The position of a sample. -/
def samplePos (vars : ConversionVariables) (raw : UInt16) : Int32 :=
  posToMicrorads raw vars.posMinPhysUrad vars.posMaxPhysUrad

/-! ## Machine integers -/

theorem toInt_shiftRight_12 (x : Int64) : (x >>> 12).toInt = x.toInt / 4096 := by
  have hbits : (x >>> 12).toInt = x.toInt >>> (12 : ℕ) := BitVec.toInt_sshiftRight' (y := 12)
  rw [hbits, Int.shiftRight_eq_div_pow]
  rfl

theorem toInt_raw (raw : UInt16) : raw.toUInt64.toInt64.toInt = raw.toNat := by
  have hlt := raw.toNat_lt
  have hbits : raw.toUInt64.toInt64.toInt = (raw.toUInt64.toNat : ℤ).bmod (2 ^ 64) :=
    BitVec.toInt_eq_toNat_bmod _
  rw [hbits, UInt16.toNat_toUInt64]
  exact Int.bmod_eq_of_le (by omega) (by omega)

/-- The interpolated offset is exact in 64 bits. -/
theorem toInt_interp (raw : UInt16) (minUrad maxUrad : Int32) :
    (((maxUrad.toInt64 - minUrad.toInt64) * raw.toUInt64.toInt64) >>> 12).toInt =
      (maxUrad.toInt - minUrad.toInt) * raw.toNat / 4096 := by
  have hraw := raw.toNat_lt
  have hminLow := minUrad.le_toInt
  have hminHigh := minUrad.toInt_lt
  have hmaxLow := maxUrad.le_toInt
  have hmaxHigh := maxUrad.toInt_lt
  have hspan : (maxUrad.toInt64 - minUrad.toInt64).toInt = maxUrad.toInt - minUrad.toInt := by
    rw [Int64.toInt_sub, Int32.toInt_toInt64, Int32.toInt_toInt64]
    exact Int.bmod_eq_of_le (by omega) (by omega)
  have habs : |(maxUrad.toInt - minUrad.toInt) * raw.toNat| ≤ 4294967296 * 65536 := by
    rw [abs_mul]
    exact mul_le_mul (abs_le.mpr ⟨by omega, by omega⟩) (abs_le.mpr ⟨by omega, by omega⟩)
      (abs_nonneg _) (by norm_num)
  obtain ⟨hlow, hhigh⟩ := abs_le.mp habs
  rw [toInt_shiftRight_12, Int64.toInt_mul, hspan, toInt_raw]
  congr 1
  exact Int.bmod_eq_of_le (by omega) (by omega)

theorem toInt_saturatingAdd (a b : Int32) :
    (saturatingAdd a b).toInt = max (-2147483648) (min 2147483647 (a.toInt + b.toInt)) := by
  have hmin : Int32.minValue.toInt = -2147483648 := rfl
  have hmax : Int32.maxValue.toInt = 2147483647 := rfl
  rw [saturatingAdd, Int32.ofIntClamp]
  split
  · split
    · rw [Int32.toInt_ofIntLE]
      omega
    · rw [hmax]
      omega
  · rw [hmin]
    omega

/-- The reading: the offset narrowed to 32 bits, the sum clamped. -/
theorem toInt_posToMicrorads (raw : UInt16) (minUrad maxUrad : Int32) :
    (posToMicrorads raw minUrad maxUrad).toInt =
      max (-2147483648) (min 2147483647 (minUrad.toInt +
        ((maxUrad.toInt - minUrad.toInt) * raw.toNat / 4096).bmod 4294967296)) := by
  rw [posToMicrorads, toInt_saturatingAdd, Int64.toInt_toInt32, toInt_interp]

/-! ## When the offset fits -/

variable {minUrad maxUrad : Int32} {raw r1 r2 : UInt16}

/-- The interpolated offset of a code fits 32 bits. -/
def OffsetFits (minUrad maxUrad : Int32) (raw : UInt16) : Prop :=
  (maxUrad.toInt - minUrad.toInt) * raw.toNat / 4096 < 2147483648

instance (minUrad maxUrad : Int32) (raw : UInt16) : Decidable (OffsetFits minUrad maxUrad raw) :=
  inferInstanceAs (Decidable (_ < _))

theorem OffsetFits.mono (hlt : minUrad.toInt < maxUrad.toInt) (hle : r1.toNat ≤ r2.toNat)
    (h : OffsetFits minUrad maxUrad r2) : OffsetFits minUrad maxUrad r1 := by
  have hpoint := @point_mono _ _ 4096 r1.toNat r2.toNat hlt.le (by decide) (by exact_mod_cast hle)
  rw [point, point, add_le_add_iff_left] at hpoint
  exact hpoint.trans_lt h

theorem toInt_of_fits (hlt : minUrad.toInt < maxUrad.toInt) (hcode : raw.toNat ≤ 4096)
    (h : OffsetFits minUrad maxUrad raw) :
    (posToMicrorads raw minUrad maxUrad).toInt =
      point minUrad.toInt maxUrad.toInt 4096 raw.toNat := by
  have hlow := lo_le_point (n := 4096) (k := raw.toNat) hlt.le (by decide) (by omega)
  have hhigh := point_le_hi (n := 4096) (k := raw.toNat) hlt.le (by decide)
    (by exact_mod_cast hcode)
  have hmin := minUrad.le_toInt
  have hmax := maxUrad.toInt_lt
  rw [OffsetFits] at h
  rw [toInt_posToMicrorads, Int.bmod_eq_of_le (by rw [point] at hlow; omega) (by omega)]
  rw [point] at hlow hhigh ⊢
  omega

/-- An offset past 32 bits is taken for a negative one. -/
theorem toInt_of_not_fits (hlt : minUrad.toInt < maxUrad.toInt) (hcode : raw.toNat ≤ 4096)
    (h : ¬ OffsetFits minUrad maxUrad raw) :
    (posToMicrorads raw minUrad maxUrad).toInt + 2147483648 ≤
      point minUrad.toInt maxUrad.toInt 4096 raw.toNat := by
  have hhigh := point_le_hi (n := 4096) (k := raw.toNat) hlt.le (by decide)
    (by exact_mod_cast hcode)
  have hmin := minUrad.le_toInt
  have hmax := maxUrad.toInt_lt
  rw [OffsetFits, not_lt] at h
  rw [point] at hhigh ⊢
  have hback : ((maxUrad.toInt - minUrad.toInt) * raw.toNat / 4096).bmod 4294967296 =
      (maxUrad.toInt - minUrad.toInt) * raw.toNat / 4096 - 4294967296 := by
    rw [← Int.sub_bmod_right]
    exact Int.bmod_eq_of_le (by omega) (by omega)
  rw [toInt_posToMicrorads, hback]
  omega

/-! ## The reading over the table -/

/-- The limits read back are those of the table. -/
theorem limit_mem (t : ControlTable) (addr : ℕ) :
    -2147483648 ≤ limit t addr ∧ limit t addr < 2147483648 := by
  have hfits : leNat (fieldBytes t addr 4) < 4294967296 := by
    have hbytes : fieldBytes t addr 4 =
        [t.get addr, t.get (addr + 1), t.get (addr + 2), t.get (addr + 3)] := rfl
    have h0 := (t.get addr).toNat_lt
    have h1 := (t.get (addr + 1)).toNat_lt
    have h2 := (t.get (addr + 2)).toNat_lt
    have h3 := (t.get (addr + 3)).toNat_lt
    rw [hbytes]
    simp only [leNat, List.foldr_cons, List.foldr_nil]
    omega
  simp only [limit, fieldValue, signExtend]
  split <;> omega

theorem toInt_snapshot (t : ControlTable) :
    (ConversionVariables.snapshot t).posMinPhysUrad.toInt = limit t Addr.posMinPhysUrad ∧
      (ConversionVariables.snapshot t).posMaxPhysUrad.toInt = limit t Addr.posMaxPhysUrad := by
  have hmin := limit_mem t Addr.posMinPhysUrad
  have hmax := limit_mem t Addr.posMaxPhysUrad
  exact ⟨Int32.toInt_ofInt_of_le hmin.1 hmin.2, Int32.toInt_ofInt_of_le hmax.1 hmax.2⟩

/-- What is asked of the readings of two codes: between the limits, in order, within a part
in 4096 of the span and one of the exact point, and the exact point rounded down. -/
structure Interpolates (t : ControlTable) (r1 r2 : UInt16) : Prop where
  inRange : ∀ r ∈ [r1, r2],
    limit t Addr.posMinPhysUrad ≤ (samplePos (.snapshot t) r).toInt ∧
      (samplePos (.snapshot t) r).toInt ≤ limit t Addr.posMaxPhysUrad
  mono : (samplePos (.snapshot t) r1).toInt ≤ (samplePos (.snapshot t) r2).toInt
  near : ∀ r ∈ [r1, r2],
    |((samplePos (.snapshot t) r).toInt : ℚ) - exact ℚ (limit t Addr.posMinPhysUrad)
        (limit t Addr.posMaxPhysUrad) 4096 r.toNat| ≤
      ((limit t Addr.posMaxPhysUrad - limit t Addr.posMinPhysUrad : ℤ) : ℚ) / 4096 + 1
  whole : ∀ r ∈ [r1, r2], (samplePos (.snapshot t) r).toInt =
    point (limit t Addr.posMinPhysUrad) (limit t Addr.posMaxPhysUrad) 4096 r.toNat

/-- The readings of two codes, the second no lower than the first, interpolate exactly if the
offset of the second fits 32 bits. -/
theorem position_interpolates {t : ControlTable}
    (hordered : limit t Addr.posMinPhysUrad < limit t Addr.posMaxPhysUrad) (hle : r1 ≤ r2)
    (hcode : r2 ≤ adcMaxRaw) :
    Interpolates t r1 r2 ↔
      (limit t Addr.posMaxPhysUrad - limit t Addr.posMinPhysUrad) * r2.toNat / 4096 <
        2147483648 := by
  obtain ⟨hmin, hmax⟩ := toInt_snapshot t
  have hcodes : r1.toNat ≤ r2.toNat := hle
  have hlast : r2.toNat ≤ 4095 := hcode
  rw [← hmin, ← hmax] at hordered ⊢
  constructor
  · intro h
    by_contra hnot
    have hlow := toInt_of_not_fits hordered (by omega) hnot
    have hwhole := h.whole r2 (by simp)
    rw [← hmin, ← hmax] at hwhole
    rw [samplePos] at hwhole
    omega
  · intro hfits
    have hpoint : ∀ r ∈ [r1, r2], r.toNat ≤ 4095 ∧ (samplePos (.snapshot t) r).toInt =
        point (limit t Addr.posMinPhysUrad) (limit t Addr.posMaxPhysUrad) 4096 r.toNat := by
      intro r hr
      have hbelow : r.toNat ≤ r2.toNat := by
        obtain rfl | rfl := List.mem_pair.mp hr
        · exact hcodes
        · exact le_rfl
      refine ⟨hbelow.trans hlast, ?_⟩
      rw [samplePos, toInt_of_fits hordered (by omega) (OffsetFits.mono hordered hbelow hfits),
        hmin, hmax]
    rw [hmin, hmax] at hordered
    constructor
    case inRange =>
      intro r hr
      obtain ⟨hr, heq⟩ := hpoint r hr
      rw [heq]
      exact ⟨lo_le_point hordered.le (by decide) (by omega),
        point_le_hi hordered.le (by decide) (by omega)⟩
    case mono =>
      rw [(hpoint r1 (by simp)).2, (hpoint r2 (by simp)).2]
      exact point_mono hordered.le (by decide) (by omega)
    case near =>
      intro r hr
      have hspan : (0 : ℚ) ≤
          ((limit t Addr.posMaxPhysUrad - limit t Addr.posMinPhysUrad : ℤ) : ℚ) / 4096 :=
        div_nonneg (Int.cast_nonneg (sub_nonneg.mpr hordered.le)) (by norm_num)
      have hbelow := @point_le_exact (limit t Addr.posMinPhysUrad) (limit t Addr.posMaxPhysUrad)
        4096 r.toNat ℚ _ _ _ (by decide)
      have habove := @exact_lt_point_add_one (limit t Addr.posMinPhysUrad)
        (limit t Addr.posMaxPhysUrad) 4096 r.toNat ℚ _ _ _ (by decide)
      rw [(hpoint r hr).2, abs_le]
      constructor <;> linarith only [hspan, hbelow, habove]
    case whole => exact fun r hr => (hpoint r hr).2

/-! ## On the bench -/

/-- A quarter and three quarters of the way between 0 and 100. -/
theorem position_interpolates_on_the_bench : Interpolates GuardedPair.benchLimits 1000 3000 :=
  (position_interpolates (by decide +kernel) (by decide) (by decide)).mpr (by decide +kernel)

/-- The widest limits a host can write: from `i32::MIN` to `i32::MAX`. -/
def widestLimits : List Byte := [0x00, 0x00, 0x00, 0x80, 0xFF, 0xFF, 0xFF, 0x7F]

/-- Between the widest limits the top code reads as the lowest position. -/
theorem top_code_reads_lowest :
    ¬ ∀ (t : ControlTable) (addr : ℕ) (data : List Byte) (r1 r2 : UInt16),
      Table.Accepts controlMap t addr data →
      ReachesLimit Addr.posMinPhysUrad addr data.length →
      ReachesLimit Addr.posMaxPhysUrad addr data.length →
      r1 ≤ r2 → r2 ≤ adcMaxRaw → Interpolates (t.copy addr data) r1 r2 := by
  intro hclaim
  have hvalid : validate controlMap ControlTable.new Addr.posMinPhysUrad widestLimits [] =
      .ok () := by
    decide +kernel
  have haccepted : Table.Accepts controlMap ControlTable.new Addr.posMinPhysUrad widestLimits :=
    ((validate_eq_ok_iff controlMap_indexed).mp hvalid).resolve_left (by decide)
  have hread := hclaim ControlTable.new Addr.posMinPhysUrad widestLimits 2047 4095 haccepted
    (by decide) (by decide) (by decide) (by decide)
  have hfalls : ¬ (samplePos (.snapshot (ControlTable.new.copy Addr.posMinPhysUrad widestLimits))
      2047).toInt ≤ (samplePos (.snapshot (ControlTable.new.copy Addr.posMinPhysUrad
        widestLimits)) 4095).toInt := by
    decide +kernel
  exact hfalls hread.mono

end OpenServo.Control
