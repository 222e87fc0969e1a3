import OpenServo.Core.FeedbackRegister
import OpenServo.Protocol.Crc
import OpenServo.Protocol.FrameBytes

/-!
# What the checksum detects

The running CRC is a linear feedback register over bits: what a corrupted frame leaves
behind is what the error pattern alone would.  A pattern of odd weight changes the parity the
shift keeps, two bits would have to be a period apart, and a short burst fits the register.
-/

namespace OpenServo.Crc

/-! ## The CRC value as a vector of bits -/

/-- A CRC value, added bit by bit. -/
@[ext] structure Remainder where
  value : UInt16
  deriving DecidableEq

namespace Remainder

instance : Add Remainder := ⟨fun v w => ⟨v.value ^^^ w.value⟩⟩

instance : Zero Remainder := ⟨⟨0⟩⟩

instance : Neg Remainder := ⟨id⟩

@[simp] theorem value_add (v w : Remainder) : (v + w).value = v.value ^^^ w.value := rfl

@[simp] theorem value_zero : (0 : Remainder).value = 0 := rfl

theorem add_self (v : Remainder) : v + v = 0 := Remainder.ext UInt16.xor_self

instance : AddCommGroup Remainder where
  add_assoc _ _ _ := Remainder.ext (UInt16.xor_assoc _ _ _)
  zero_add _ := Remainder.ext UInt16.zero_xor
  add_zero _ := Remainder.ext UInt16.xor_zero
  nsmul := nsmulRec
  zsmul := zsmulRec
  neg_add_cancel := add_self
  add_comm _ _ := Remainder.ext (UInt16.xor_comm _ _)

instance : Module (ZMod 2) Remainder :=
  AddCommGroup.zmodModule fun v => (two_nsmul v).trans (add_self v)

end Remainder

def bit (v : UInt16) (i : ℕ) : Bool := v.toBitVec.getLsbD i

theorem eq_of_bit {v w : UInt16} (h : ∀ i < 16, bit v i = bit w i) : v = w :=
  UInt16.toBitVec_inj.mp (BitVec.eq_of_getLsbD_eq h)

theorem bit_xor (v w : UInt16) (i : ℕ) : bit (v ^^^ w) i = (bit v i ^^ bit w i) := by
  rw [bit, UInt16.toBitVec_xor, BitVec.getLsbD_xor]
  rfl

/-- A shift moves every bit down one place and folds the lowest into the polynomial. -/
theorem bit_shiftStep (v : UInt16) (i : ℕ) :
    bit (shiftStep v) i = (bit v (i + 1) ^^ (bit v 0 && bit polyReflected i)) := by
  have hlow : (v &&& 1 != 0) = bit v 0 := by
    have hmod : (v &&& 1).toNat = v.toNat % 2 := by
      rw [UInt16.toNat_and]
      exact Nat.and_one_is_mod _
    have hbit : bit v 0 = decide (v.toNat % 2 = 1) := Nat.testBit_zero _
    rw [hbit, bne, Bool.eq_iff_iff, Bool.not_eq_true', beq_eq_false_iff_ne, decide_eq_true_iff,
      ne_eq, ← UInt16.toNat_inj, hmod, UInt16.toNat_zero]
    omega
  have hshift : bit (v >>> 1) i = bit v (i + 1) := by
    rw [bit, UInt16.toBitVec_shiftRight]
    show (v.toBitVec >>> 1).getLsbD i = _
    rw [BitVec.getLsbD_ushiftRight, Nat.add_comm]
    rfl
  rw [shiftStep, hlow]
  cases hbit : bit v 0 with
  | true => rw [if_pos rfl, bit_xor, hshift, Bool.true_and]
  | false => rw [if_neg Bool.false_ne_true, hshift, Bool.false_and, Bool.xor_false]

/-! ## The register -/

theorem shiftStep_xor (v w : UInt16) : shiftStep (v ^^^ w) = shiftStep v ^^^ shiftStep w := by
  apply eq_of_bit
  intro i _
  rw [bit_xor, bit_shiftStep, bit_shiftStep, bit_shiftStep, bit_xor, bit_xor]
  cases bit v 0 <;> cases bit w 0 <;> cases bit polyReflected i <;> simp

def shift : Remainder →+ Remainder where
  toFun v := ⟨shiftStep v.value⟩
  map_zero' := rfl
  map_add' v w := Remainder.ext (shiftStep_xor v.value w.value)

/-- The register of the running CRC: a bit enters at the low end and is shifted. -/
def register : FeedbackRegister (ZMod 2) Remainder := ⟨shift.toZModLinearMap 2, ⟨1⟩⟩

@[simp] theorem value_step (v : Remainder) : (register.step v).value = shiftStep v.value := rfl

/-- A shift loses nothing: the polynomial puts the bit shifted out at the top. -/
theorem step_injective : Function.Injective register.step := by
  rw [injective_iff_map_eq_zero]
  intro v hv
  have hbits : ∀ i, bit (shiftStep v.value) i = false := fun i => by
    rw [← value_step, hv]
    exact BitVec.getLsbD_zero
  have hout : bit v.value 0 = false := by
    have htop := hbits 15
    have hpast : bit v.value 16 = false := BitVec.getLsbD_of_ge _ _ le_rfl
    have hpoly : bit polyReflected 15 = true := rfl
    rwa [bit_shiftStep, hpast, Bool.false_xor, hpoly, Bool.and_true] at htop
  apply Remainder.ext
  apply eq_of_bit
  intro i _
  have hzero : bit (0 : Remainder).value i = false := BitVec.getLsbD_zero
  rw [hzero]
  cases i with
  | zero => exact hout
  | succ i =>
      have hnext := hbits i
      rwa [bit_shiftStep, hout, Bool.false_and, Bool.xor_false] at hnext

/-! ## Bytes as bits -/

/-- The bits of a frame as transmitted: each byte lowest bit first. -/
def bits (bytes : List Byte) : List Bool :=
  bytes.flatMap fun b => (List.range 8).map b.toNat.testBit

def symbol (b : Bool) : ZMod 2 := if b then 1 else 0

@[simp] theorem bits_cons (b : Byte) (bytes : List Byte) :
    bits (b :: bytes) = (List.range 8).map b.toNat.testBit ++ bits bytes := rfl

@[simp] theorem length_bits (bytes : List Byte) : (bits bytes).length = 8 * bytes.length := by
  induction bytes with
  | nil => rfl
  | cons b bytes ih =>
      rw [bits_cons, List.length_append, List.length_map, List.length_range, ih, List.length_cons]
      omega

theorem getD_bits_cons (b : Byte) (bytes : List Byte) (i : ℕ) :
    (bits (b :: bytes)).getD i false =
      if i < 8 then b.toNat.testBit i else (bits bytes).getD (i - 8) false := by
  have hlen : ((List.range 8).map b.toNat.testBit).length = 8 := rfl
  rw [bits_cons]
  split
  · rename_i hlow
    rw [List.getD_append _ _ _ _ (by omega), List.getD_eq_getElem _ _ (by omega),
      List.getElem_map, List.getElem_range]
  · rw [List.getD_append_right _ _ _ _ (by omega), hlen]

theorem getD_bits_byte (b : Byte) (i : ℕ) : (bits [b]).getD i false = b.toNat.testBit i := by
  rw [getD_bits_cons]
  split
  · rfl
  · have hpow : 2 ^ 8 ≤ 2 ^ i := Nat.pow_le_pow_right (by decide) (by omega)
    exact (Nat.testBit_lt_two_pow (lt_of_lt_of_le b.toNat_lt hpow)).symm

theorem getD_bits_pair (lo hi : Byte) (i : ℕ) :
    (bits [lo, hi]).getD i false = (u16FromLe lo hi).testBit i := by
  rw [getD_bits_cons, getD_bits_byte, u16FromLe, Nat.add_comm,
    Nat.testBit_two_pow_mul_add (i := 8) _ lo.toNat_lt]

/-- The state with a single bit set. -/
def rung (i : ℕ) : Remainder := ⟨1 <<< UInt16.ofNat i⟩

theorem ladder : register.Ladder rung 16 where
  tap := rfl
  falls k hk := by
    have hall : ∀ k < 15, register.step (rung (k + 1)) = rung k := by
      intro k hk
      apply Remainder.ext
      rw [value_step]
      revert k
      decide
    exact hall k (by omega)

theorem bit_rung {i j : ℕ} (hi : i < 16) (hj : j < 16) :
    bit (rung j).value i = decide (i = j) := by
  have hall : ∀ i < 16, ∀ j < 16, bit (rung j).value i = decide (i = j) := by decide
  exact hall i hi j hj

/-- Bits laid from a rung up are the bits of the state. -/
theorem bit_packed {j i : ℕ} (s : List Bool) (hi : i < 16) (hlen : j + s.length ≤ 16) :
    bit (FeedbackRegister.packed (fun k => rung (j + k)) (s.map symbol)).value i =
      (decide (j ≤ i) && s.getD (i - j) false) := by
  induction s generalizing j with
  | nil => simp [FeedbackRegister.packed, bit]
  | cons b s ih =>
      rw [List.length_cons] at hlen
      have hsmul : symbol b • rung j = if b then rung j else 0 := by
        cases b with
        | true => exact one_smul _ _
        | false => exact zero_smul _ _
      have hrest := ih (j := j + 1) (by omega)
      simp only [Nat.add_assoc, Nat.add_comm 1] at hrest
      rw [List.map_cons, FeedbackRegister.packed, Remainder.value_add, bit_xor, hrest,
        Nat.add_zero, hsmul]
      have hfirst : bit (if b then rung j else 0).value i = (decide (i = j) && b) := by
        cases b with
        | true => rw [if_pos rfl, bit_rung hi (by omega), Bool.and_true]
        | false => rw [if_neg Bool.false_ne_true, Bool.and_false]; exact BitVec.getLsbD_zero
      rw [hfirst]
      obtain hbelow | rfl | habove := lt_trichotomy i j
      · simp [Nat.not_le.mpr hbelow, hbelow.ne, show ¬ j + 1 ≤ i by omega]
      · simp
      · rw [show i - j = i - (j + 1) + 1 by omega, List.getD_cons_succ]
        simp [habove.ne', habove.le, Nat.succ_le_of_lt habove]

/-- A stream no longer than the register enters at once. -/
theorem feed_short (v : Remainder) {bytes : List Byte} {word : UInt16}
    (hlen : 8 * bytes.length ≤ 16)
    (hbits : ∀ i < 16, bit word i = (bits bytes).getD i false) :
    register.feed v ((bits bytes).map symbol) =
      register.step^[8 * bytes.length] (v + ⟨word⟩) := by
  have hpacked : FeedbackRegister.packed rung ((bits bytes).map symbol) = ⟨word⟩ := by
    apply Remainder.ext
    apply eq_of_bit
    intro i hi
    have hbit := bit_packed (j := 0) (bits bytes) hi (by rwa [length_bits, Nat.zero_add])
    simp only [Nat.zero_add] at hbit
    rw [hbit, hbits i hi, decide_eq_true (Nat.zero_le i), Bool.true_and, Nat.sub_zero]
  rw [ladder.feed v (by rwa [List.length_map, length_bits]), hpacked, List.length_map,
    length_bits]

theorem feed_byte (v : Remainder) (b : Byte) :
    (register.feed v ((bits [b]).map symbol)).value = update v.value b := by
  have hbits : ∀ i < 16, bit b.toUInt16 i = (bits [b]).getD i false := by
    intro i hi
    rw [getD_bits_byte, bit, BitVec.getLsbD]
    rfl
  rw [feed_short v (by simp) hbits]
  rfl

/-- The running CRC is what the register holds after the bits. -/
theorem feed_bits (v : Remainder) (bytes : List Byte) :
    (register.feed v ((bits bytes).map symbol)).value = oscCrcContinue v.value bytes := by
  induction bytes generalizing v with
  | nil => rfl
  | cons b bytes ih =>
      have hsplit : bits (b :: bytes) = bits [b] ++ bits bytes := by
        rw [bits_cons, bits_cons, List.append_assoc]
        rfl
      rw [hsplit, List.map_append, FeedbackRegister.feed_append, ih, feed_byte]
      rfl

/-! ## Corruption -/

/-- The bytes with the bits of an error pattern flipped. -/
def corrupt (frame error : List Byte) : List Byte := List.zipWith (· ^^^ ·) frame error

theorem symbol_xor (a b : Bool) : symbol (a ^^ b) = symbol a + symbol b := by
  revert a b
  decide

theorem symbols_corrupt {frame error : List Byte} (hlen : frame.length = error.length) :
    (bits (corrupt frame error)).map symbol =
      List.zipWith (· + ·) ((bits frame).map symbol) ((bits error).map symbol) := by
  induction frame generalizing error with
  | nil =>
      rw [List.eq_nil_of_length_eq_zero hlen.symm]
      rfl
  | cons a frame ih =>
      cases error with
      | nil => cases hlen
      | cons b error =>
          have hbyte : ((List.range 8).map (a ^^^ b).toNat.testBit).map symbol =
              List.zipWith (· + ·) (((List.range 8).map a.toNat.testBit).map symbol)
                (((List.range 8).map b.toNat.testBit).map symbol) := by
            simp [List.zipWith_map, List.zipWith_self, symbol_xor, UInt8.toNat_xor,
              Nat.testBit_xor]
          have hrest := ih (Nat.succ_injective hlen)
          rw [corrupt] at hrest
          rw [corrupt, List.zipWith_cons_cons, bits_cons, bits_cons, bits_cons, List.map_append,
            List.map_append, List.map_append, hbyte, hrest, List.zipWith_append (by simp)]

/-- The CRC of a corrupted frame: that of the frame and that of the error pattern. -/
theorem oscCrc_corrupt {frame error : List Byte} (hlen : frame.length = error.length) :
    oscCrc (corrupt frame error) = oscCrc frame ^^^ oscCrc error := by
  have hbits : ((bits frame).map symbol).length = ((bits error).map symbol).length := by
    rw [List.length_map, List.length_map, length_bits, length_bits, hlen]
  calc
    oscCrc (corrupt frame error)
        = (register.feed (0 + 0) ((bits (corrupt frame error)).map symbol)).value := by
          rw [add_zero, feed_bits]
          rfl
    _ = oscCrc frame ^^^ oscCrc error := by
          rw [symbols_corrupt hlen, FeedbackRegister.feed_add _ hbits, Remainder.value_add,
            feed_bits, feed_bits]
          rfl

/-! ## The receivers' check -/

/-- Do a frame's last two bytes, low byte first, hold the CRC of the bytes before? -/
def checks (frame : List Byte) : Bool :=
  let clen := frame.length - 2
  (oscCrc (frame.take clen)).toNat == u16FromLe (frame.getD clen 0) (frame.getD (clen + 1) 0)

/-- The CRC's two bytes cancel exactly the value they spell. -/
theorem oscCrcContinue_pair (crc : UInt16) (lo hi : Byte) :
    oscCrcContinue crc [lo, hi] = 0 ↔ crc.toNat = u16FromLe lo hi := by
  have hlt := u16FromLe_lt lo hi
  have hword : (UInt16.ofNat (u16FromLe lo hi)).toNat = u16FromLe lo hi :=
    UInt16.toNat_ofNat_of_lt hlt
  have hbits : ∀ i < 16, bit (UInt16.ofNat (u16FromLe lo hi)) i = (bits [lo, hi]).getD i false := by
    intro i _
    rw [getD_bits_pair, bit, BitVec.getLsbD]
    exact congrArg (·.testBit i) hword
  have hvalue := feed_bits ⟨crc⟩ [lo, hi]
  rw [feed_short ⟨crc⟩ (by simp) hbits] at hvalue
  have hzero : oscCrcContinue crc [lo, hi] = 0 ↔
      (⟨crc⟩ + ⟨UInt16.ofNat (u16FromLe lo hi)⟩ : Remainder) = 0 := by
    rw [← hvalue, ← (step_injective.iterate (8 * [lo, hi].length)).eq_iff, iterate_map_zero,
      Remainder.ext_iff]
    rfl
  rw [hzero, Remainder.ext_iff, Remainder.value_add, Remainder.value_zero, UInt16.xor_eq_zero_iff,
    ← UInt16.toNat_inj, hword]

/-- A frame that carries its own CRC leaves the register at zero. -/
theorem checks_iff {frame : List Byte} (hlen : 2 ≤ frame.length) :
    checks frame = true ↔ oscCrc frame = 0 := by
  have htail : (frame.drop (frame.length - 2)).length = 2 := by
    rw [List.length_drop]
    omega
  obtain ⟨lo, hi, hpair⟩ := List.length_eq_two.mp htail
  have hframe : frame = frame.take (frame.length - 2) ++ [lo, hi] := by
    rw [← hpair, List.take_append_drop]
  have hlast : ∀ i, frame.getD (frame.length - 2 + i) 0 = [lo, hi].getD i 0 := fun i => by
    rw [← hpair, List.getD_eq_getElem?_getD, List.getD_eq_getElem?_getD, List.getElem?_drop]
  have hlo : frame.getD (frame.length - 2) 0 = lo := hlast 0
  have hhi : frame.getD (frame.length - 2 + 1) 0 = hi := hlast 1
  have hcrc : oscCrc frame = oscCrcContinue (oscCrc (frame.take (frame.length - 2))) [lo, hi] := by
    conv_lhs => rw [hframe]
    exact oscCrcContinue_append 0 _ _
  rw [checks, hlo, hhi, hcrc, oscCrcContinue_pair, beq_iff_eq]

/-! ## The detected patterns -/

/-- What the register holds after an error pattern alone. -/
def residue (pattern : List Bool) : Remainder := register.feed 0 (pattern.map symbol)

theorem value_residue (error : List Byte) : (residue (bits error)).value = oscCrc error :=
  feed_bits 0 error

/-- The sum of a CRC value's bits. -/
def parity : Remainder →ₗ[ZMod 2] ZMod 2 :=
  AddMonoidHom.toZModLinearMap 2
    { toFun := fun v => ∑ i ∈ Finset.range 16, symbol (bit v.value i)
      map_zero' := by decide
      map_add' := fun v w => by
        rw [← Finset.sum_add_distrib]
        exact Finset.sum_congr rfl fun i _ => by rw [Remainder.value_add, bit_xor, symbol_xor] }

theorem parity_apply (v : Remainder) :
    parity v = ∑ i ∈ Finset.range 16, symbol (bit v.value i) := rfl

/-- The polynomial's own bits are odd in number, so a shift keeps the parity. -/
theorem parity_step (v : Remainder) : parity (register.step v) = parity v := by
  have hpast : symbol (bit v.value 16) = 0 := by
    have hbit : bit v.value 16 = false := BitVec.getLsbD_of_ge _ _ le_rfl
    rw [hbit]
    rfl
  have hpoly : ∑ i ∈ Finset.range 16, symbol (bit v.value 0 && bit polyReflected i) =
      symbol (bit v.value 0) := by
    cases bit v.value 0 <;> decide
  have hmoved : ∑ i ∈ Finset.range 16, symbol (bit v.value (i + 1)) + symbol (bit v.value 0) =
      ∑ i ∈ Finset.range 16, symbol (bit v.value i) := by
    have hsum := Finset.sum_range_succ' (fun i => symbol (bit v.value i)) 16
    rw [← hsum, Finset.sum_range_succ, hpast, add_zero]
  calc
    parity (register.step v)
        = ∑ i ∈ Finset.range 16, symbol (bit v.value (i + 1)) +
            ∑ i ∈ Finset.range 16, symbol (bit v.value 0 && bit polyReflected i) := by
          rw [parity_apply, ← Finset.sum_add_distrib]
          exact Finset.sum_congr rfl fun i _ => by rw [value_step, bit_shiftStep, symbol_xor]
    _ = parity v := by rw [hpoly, hmoved, parity_apply]

theorem sum_symbols (pattern : List Bool) :
    (pattern.map symbol).sum = (pattern.count true : ZMod 2) := by
  induction pattern with
  | nil => rfl
  | cons b pattern ih =>
      rw [List.map_cons, List.sum_cons, ih, List.count_cons, add_comm]
      cases b <;> simp [symbol]

theorem odd_detected {pattern : List Bool} (h : Odd (pattern.count true)) :
    residue pattern ≠ 0 := by
  intro hzero
  have hparity := register.feed_conserved parity_step 0 (pattern.map symbol)
  have htap : parity register.tap = 1 := by decide
  rw [residue] at hzero
  rw [hzero, map_zero, zero_add, sum_symbols, ZMod.natCast_eq_one_iff_odd.mpr h, htap] at hparity
  exact absurd hparity (by decide)

/-- Does the state come back to `start` within so many shifts? -/
def returns (start : UInt16) : ℕ → UInt16 → Bool
  | 0, _ => false
  | n + 1, v => v == start || returns start n (shiftStep v)

theorem iterate_ne_of_returns {start : UInt16} {n : ℕ} {v : UInt16}
    (h : returns start n v = false) {d : ℕ} (hd : d < n) : shiftStep^[d] v ≠ start := by
  induction n generalizing v d with
  | zero => omega
  | succ n ih =>
      rw [returns, Bool.or_eq_false_iff, beq_eq_false_iff_ne] at h
      cases d with
      | zero => exact h.1
      | succ d => exact ih h.2 (Nat.lt_of_succ_lt_succ hd)

/-- No two bits of a frame are a period apart: 258 bytes have 2064 bits. -/
theorem returns_within_frame : returns 1 2063 (shiftStep 1) = false := by decide +kernel

theorem value_iterate (n : ℕ) (v : Remainder) :
    (register.step^[n] v).value = shiftStep^[n] v.value := by
  induction n generalizing v with
  | zero => rfl
  | succ n ih => exact ih (register.step v)

theorem eq_replicate_of_count {pattern : List Bool} (h : pattern.count true = 0) :
    pattern = List.replicate pattern.length false := by
  rw [List.eq_replicate_iff]
  refine ⟨rfl, fun b hmem => ?_⟩
  have hnot : true ∉ pattern := List.count_eq_zero.mp h
  cases b with
  | false => rfl
  | true => exact absurd hmem hnot

/-- The first set bit. -/
theorem exists_first {pattern : List Bool} (h : 0 < pattern.count true) :
    ∃ before rest, pattern = List.replicate before false ++ true :: rest ∧
      pattern.count true = rest.count true + 1 := by
  induction pattern with
  | nil => cases h
  | cons b pattern ih =>
      cases b with
      | true => exact ⟨0, pattern, rfl, List.count_cons_self⟩
      | false =>
          rw [List.count_cons_of_ne (by decide)] at h ⊢
          obtain ⟨before, rest, heq, hcount⟩ := ih h
          exact ⟨before + 1, rest, by rw [heq, List.replicate_succ, List.cons_append], hcount⟩

theorem pair_detected {pattern : List Bool} (hlen : pattern.length ≤ 2064)
    (h : pattern.count true = 2) : residue pattern ≠ 0 := by
  obtain ⟨before, rest, rfl, hcount⟩ := exists_first (show 0 < pattern.count true by omega)
  obtain ⟨gap, tail, rfl, hcount'⟩ := exists_first (show 0 < rest.count true by omega)
  have htail := eq_replicate_of_count (show tail.count true = 0 by omega)
  intro hzero
  have hpair :
      (List.replicate before false ++ true :: (List.replicate gap false ++ true :: tail)).map
      symbol = FeedbackRegister.pair before gap tail.length 1 1 := by
    rw [htail]
    simp [FeedbackRegister.pair, symbol]
  rw [residue, hpair, FeedbackRegister.feed_pair, one_smul, one_smul] at hzero
  have hsum : register.step^[gap + 1] register.tap + register.tap = 0 := by
    apply (step_injective.iterate (tail.length + 1))
    rw [hzero, iterate_map_zero]
  have hback : (register.step^[gap + 1] register.tap).value = register.tap.value :=
    congrArg Remainder.value ((eq_neg_of_add_eq_zero_left hsum).trans rfl)
  rw [value_iterate] at hback
  simp only [List.length_append, List.length_replicate, List.length_cons] at hlen
  exact iterate_ne_of_returns returns_within_frame (d := gap) (by omega) hback

theorem burst_detected {before after : ℕ} {window : List Bool} (hlen : window.length ≤ 16)
    (hset : true ∈ window) :
    residue (List.replicate before false ++ window ++ List.replicate after false) ≠ 0 := by
  intro hzero
  have hzeros : ∀ n, (List.replicate n false).map symbol = List.replicate n 0 := fun n => by
    rw [List.map_replicate]
    rfl
  rw [residue, List.map_append, List.map_append, hzeros, hzeros, FeedbackRegister.feed_append,
    FeedbackRegister.feed_append, FeedbackRegister.feed_zeros, FeedbackRegister.feed_zeros,
    iterate_map_zero, ladder.feed 0 (by rwa [List.length_map]), zero_add] at hzero
  have hpacked : FeedbackRegister.packed rung (window.map symbol) = 0 := by
    apply step_injective.iterate (window.map symbol).length
    apply step_injective.iterate after
    rw [hzero, iterate_map_zero, iterate_map_zero]
  obtain ⟨i, hi, hbit⟩ := List.mem_iff_getElem.mp hset
  have hstate := bit_packed (j := 0) (i := i) window (by omega) (by omega)
  simp only [Nat.zero_add] at hstate
  rw [hpacked, decide_eq_true (Nat.zero_le i), Bool.true_and, Nat.sub_zero,
    List.getD_eq_getElem _ _ hi, hbit] at hstate
  exact absurd hstate (by rw [Remainder.value_zero, bit]; simp)

/-- An odd number of bits, two bits, or any within sixteen consecutive ones. -/
def Detectable (error : List Byte) : Prop :=
  Odd ((bits error).count true) ∨ (bits error).count true = 2 ∨
    ∃ before window after,
      bits error = List.replicate before false ++ window ++ List.replicate after false ∧
        window.length ≤ 16

theorem residue_of_detectable {error : List Byte} (hlen : error.length ≤ 258)
    (hset : true ∈ bits error) (h : Detectable error) : residue (bits error) ≠ 0 := by
  obtain hodd | htwo | ⟨before, window, after, hbits, hwindow⟩ := h
  · exact odd_detected hodd
  · exact pair_detected (by rw [length_bits]; omega) htwo
  · rw [hbits] at hset ⊢
    have hmem : true ∈ window := by simpa using hset
    exact burst_detected hwindow hmem

theorem checks_corrupt {frame error : List Byte} (hlen : 2 ≤ frame.length)
    (hsame : error.length = frame.length) (hframe : checks frame = true) :
    checks (corrupt frame error) = true ↔ residue (bits error) = 0 := by
  have hcorrupt : (corrupt frame error).length = frame.length := by
    rw [corrupt, List.length_zipWith, hsame, Nat.min_self]
  rw [checks_iff (by omega), oscCrc_corrupt hsame.symm, (checks_iff hlen).mp hframe,
    UInt16.zero_xor, Remainder.ext_iff, value_residue]
  rfl

/-- The check catches every detectable error in a frame of up to 258 bytes; the CRC continues
across any chunking, and a leading break byte is a no-op. -/
theorem crc_detects_corruption :
    (∀ frame error : List Byte, 2 ≤ frame.length → frame.length ≤ 258 → checks frame = true →
      error.length = frame.length → true ∈ bits error → Detectable error →
        checks (corrupt frame error) = false) ∧
    (∀ (crc : UInt16) (chunks : List (List Byte)),
      chunks.foldl oscCrcContinue crc = oscCrcContinue crc chunks.flatten) ∧
    ∀ bytes : List Byte, oscCrc (0 :: bytes) = oscCrc bytes := by
  refine ⟨fun frame error hlen hmax hframe hsame hset h => ?_, fun crc chunks => ?_,
    oscCrc_zero_cons⟩
  · rw [← Bool.not_eq_true, checks_corrupt hlen hsame hframe]
    exact residue_of_detectable (by omega) hset h
  · induction chunks generalizing crc with
    | nil => rfl
    | cons chunk chunks ih => rw [List.foldl_cons, ih, List.flatten_cons, oscCrcContinue_append]

/-- A ping with two bits flipped, one of them in the CRC. -/
theorem corrupt_ping_is_caught :
    checks (corrupt [0x01, 0x03, 0x10, 0x50, 0xFC] [0x00, 0x80, 0x00, 0x01, 0x00]) = false :=
  crc_detects_corruption.1 [0x01, 0x03, 0x10, 0x50, 0xFC] [0x00, 0x80, 0x00, 0x01, 0x00]
    (by decide) (by decide) (by decide +kernel) rfl (by decide) (.inr (.inl (by decide)))

end OpenServo.Crc
