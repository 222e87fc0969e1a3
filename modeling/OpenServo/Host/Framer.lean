import OpenServo.Host.Shape
import OpenServo.Protocol.Crc

/-!
# The ring walker

All reception is solicited, so frames are found from ring data alone: a candidate
starts at a `0x00` byte, its header fixes its end, and the CRC verdict is the only
accept authority.  A dead candidate is skipped to the next `0x00`.  The ring length
is a power of two, so the masks of the source are remainders.
-/

namespace OpenServo.Host

/-- Logical bytes as two contiguous spans of the ring. -/
def payloadView (ring : List Byte) (start n : ℕ) : FrameBytes :=
  let head := min n (ring.length - start)
  ⟨(ring.drop start).take head, ring.take (n - head)⟩

/-- osc-CRC over a possibly wrapped ring span. -/
def ringCrc (ring : List Byte) (start n : ℕ) : UInt16 :=
  let head := min n (ring.length - start)
  let crc := Crc.oscCrc ((ring.drop start).take head)
  if head == n then crc else Crc.oscCrcContinue crc (ring.take (n - head))

/-- One CRC-clean frame view over the ring. -/
structure Frame where
  id : Id
  inst : Inst
  payload : FrameBytes
  payloadPos : ℕ
  deriving DecidableEq, Repr

inductive Step where
  /-- No unconsumed bytes. -/
  | idle
  /-- A candidate has started and is not fully in the ring; positions hold. -/
  | parked
  | frame (frame : Frame)
  /-- So many ring bytes skipped that anchored no frame. -/
  | garble (skipped : ℕ)
  deriving DecidableEq, Repr

structure Framer where
  anchor : ℕ
  deriving DecidableEq, Repr

/-- Ring span `anchor..cursor`: the bytes no verdict has consumed. -/
def unresolved (anchor cursor len : ℕ) : ℕ := (cursor + len - anchor) % len

namespace Framer

def new : Framer := ⟨0⟩

/-- Jump to `cursor`, discarding anything unconsumed. -/
def resync (_framer : Framer) (cursor : ℕ) : Framer := ⟨cursor⟩

def byteAt (ring : List Byte) (pos : ℕ) : Byte := ring.getD (pos % ring.length) 0

/-- The next `0x00` past the dead anchor, or all of `avail`. -/
def huntFrom (ring : List Byte) (anchor avail : ℕ) : ℕ → ℕ → ℕ
  | 0, n => n
  | fuel + 1, n =>
      if n < avail && byteAt ring (anchor + n) != 0 then huntFrom ring anchor avail fuel (n + 1)
      else n

def hunt (framer : Framer) (ring : List Byte) (avail : ℕ) : Step × Framer :=
  let n := huntFrom ring framer.anchor avail avail 1
  (.garble n, ⟨(framer.anchor + n) % ring.length⟩)

/-- One step of the walk against the ring state. -/
def step (framer : Framer) (ring : List Byte) (cursor : ℕ) : Step × Framer :=
  let avail := unresolved framer.anchor cursor ring.length
  if avail == 0 then (.idle, framer)
  else if byteAt ring framer.anchor != 0 then framer.hunt ring avail
  else if avail < 4 then (.parked, framer)
  else
    let id : Id := ⟨byteAt ring (framer.anchor + 1)⟩
    let len := byteAt ring (framer.anchor + 2)
    let inst : Inst := ⟨byteAt ring (framer.anchor + 3)⟩
    let validShape := 3 ≤ len && id.isValid && (inst.isStatus || inst.opcode.isSome) &&
      footprint len ≤ ring.length
    if !validShape then framer.hunt ring avail
    else if avail < footprint len then (.parked, framer)
    else
      let clen := coveredLen len
      let crc := ringCrc ring framer.anchor clen
      let lo := byteAt ring (framer.anchor + clen)
      let hi := byteAt ring (framer.anchor + clen + 1)
      if crc.toNat != u16FromLe lo hi then framer.hunt ring avail
      else
        let payloadPos := (framer.anchor + 4) % ring.length
        let payload := payloadView ring payloadPos (payloadLen len)
        (.frame ⟨id, inst, payload, payloadPos⟩,
          ⟨(framer.anchor + footprint len) % ring.length⟩)

/-! ## Every verdict consumes ring bytes -/

theorem huntFrom_pos (ring : List Byte) (anchor avail fuel : ℕ) {n : ℕ} (h : 1 ≤ n) :
    1 ≤ huntFrom ring anchor avail fuel n := by
  induction fuel generalizing n with
  | zero => exact h
  | succ fuel ih =>
      rw [huntFrom]
      split
      · exact ih (Nat.le_succ_of_le h)
      · exact h

theorem huntFrom_le (ring : List Byte) (anchor avail fuel : ℕ) {n : ℕ} (h : n ≤ avail) :
    huntFrom ring anchor avail fuel n ≤ avail := by
  induction fuel generalizing n with
  | zero => exact h
  | succ fuel ih =>
      rw [huntFrom]
      split
      · rename_i hnext
        rw [Bool.and_eq_true, decide_eq_true_iff] at hnext
        exact ih hnext.1
      · exact h

/-- Consuming `n` of the unresolved bytes leaves the others. -/
theorem unresolved_advance {anchor cursor len n : ℕ} (hanchor : anchor < len)
    (hcursor : cursor < len) (hn : n ≤ unresolved anchor cursor len) :
    unresolved ((anchor + n) % len) cursor len = unresolved anchor cursor len - n := by
  have hpos : 0 < len := by omega
  simp only [unresolved] at hn ⊢
  by_cases hwrap : anchor ≤ cursor
  · have hspan : (cursor + len - anchor) % len = cursor - anchor := by
      rw [show cursor + len - anchor = (cursor - anchor) + len by omega, Nat.add_mod_right,
        Nat.mod_eq_of_lt (by omega)]
    rw [hspan] at hn ⊢
    rw [Nat.mod_eq_of_lt (show anchor + n < len by omega),
      show cursor + len - (anchor + n) = (cursor - anchor - n) + len by omega,
      Nat.add_mod_right, Nat.mod_eq_of_lt (by omega)]
  · have hspan : (cursor + len - anchor) % len = cursor + len - anchor :=
      Nat.mod_eq_of_lt (by omega)
    rw [hspan] at hn ⊢
    by_cases hlap : anchor + n < len
    · rw [Nat.mod_eq_of_lt hlap, Nat.mod_eq_of_lt (by omega)]
      omega
    · have hback : (anchor + n) % len = anchor + n - len := by
        rw [Nat.mod_eq_sub_mod (by omega), Nat.mod_eq_of_lt (by omega)]
      rw [hback, show cursor + len - (anchor + n - len) =
        (cursor + len - anchor - n) + len by omega, Nat.add_mod_right,
        Nat.mod_eq_of_lt (by omega)]

end Framer

end OpenServo.Host
