import OpenServo.Protocol.FrameBytes

/-!
# The receive ring

A counted circular DMA ring of a power-of-two length, written byte by byte at
the cursor and never drained.  The driver reads it in place, in up to two
segments where a span wraps the seam; `window` is what such a span says.
-/

namespace OpenServo.Bus

/-- Ring-index wrap, a mask on a power-of-two length. -/
def ringWrap (i len : ℕ) : ℕ := i &&& (len - 1)

/-- The ring storage and the index where the next byte will land.  The length
leaves lap margin over the largest frame and is indexed by 16 bits. -/
structure Ring where
  bits : ℕ
  bytes : List Byte
  cursor : ℕ
  length_eq : bytes.length = 2 ^ bits
  lapMargin : 9 ≤ bits
  indexed : bits ≤ 16
  cursor_lt : cursor < 2 ^ bits
  deriving DecidableEq

namespace Ring

def len (ring : Ring) : ℕ := 2 ^ ring.bits

theorem length_bytes (ring : Ring) : ring.bytes.length = ring.len := ring.length_eq

/-- The byte at an index, wrapped. -/
def byteAt (ring : Ring) (i : ℕ) : Byte := ring.bytes.getD (i % ring.len) 0

theorem ringWrap_two_pow (i bits : ℕ) : ringWrap i (2 ^ bits) = i % 2 ^ bits :=
  Nat.and_two_pow_sub_one_eq_mod i bits

theorem ringWrap_len (ring : Ring) (i : ℕ) : ringWrap i ring.len = i % ring.len := by
  rw [len, ringWrap_two_pow]

theorem len_pos (ring : Ring) : 0 < ring.len := Nat.two_pow_pos ring.bits

theorem len_ge (ring : Ring) : 512 ≤ ring.len := by
  calc
    512 = 2 ^ 9 := rfl
    _ ≤ 2 ^ ring.bits := Nat.pow_le_pow_right (by decide) ring.lapMargin

/-- An empty ring of `2 ^ bits` bytes. -/
def fresh (bits : ℕ) (hlap : 9 ≤ bits) (hindex : bits ≤ 16) : Ring where
  bits := bits
  bytes := List.replicate (2 ^ bits) 0
  cursor := 0
  length_eq := List.length_replicate
  lapMargin := hlap
  indexed := hindex
  cursor_lt := Nat.two_pow_pos bits

theorem lapMargin_nine : 9 ≤ 9 := le_rfl

theorem indexed_nine : 9 ≤ 16 := by decide

/-- A ring of 512 bytes. -/
def bench : Ring := .fresh 9 lapMargin_nine indexed_nine

/-- The DMA engine lands one byte. -/
def push (ring : Ring) (b : Byte) : Ring :=
  { ring with
    bytes := ring.bytes.set ring.cursor b
    cursor := ringWrap (ring.cursor + 1) (2 ^ ring.bits)
    length_eq := by rw [List.length_set, ring.length_eq]
    cursor_lt := by
      rw [ringWrap_two_pow]
      exact Nat.mod_lt _ (Nat.two_pow_pos ring.bits) }

/-- The slice `ring[start..stop]`. -/
def slice (ring : Ring) (start stop : ℕ) : List Byte := (ring.bytes.take stop).drop start

/-- A resolved frame as up to two ring segments. -/
def frameView (ring : Ring) (anchor footprint : ℕ) : FrameBytes :=
  if anchor + footprint ≤ ring.len then .ofList (ring.slice anchor (anchor + footprint))
  else ⟨ring.bytes.drop anchor, ring.bytes.take (footprint - (ring.len - anchor))⟩

/-- The `n` bytes from index `start` on, across the seam. -/
def window (ring : Ring) (start n : ℕ) : List Byte :=
  (List.range n).map fun i => ring.byteAt (start + i)

@[simp]
theorem length_window (ring : Ring) (start n : ℕ) : (ring.window start n).length = n := by
  simp [window]

theorem window_add (ring : Ring) (start m n : ℕ) :
    ring.window start (m + n) = ring.window start m ++ ring.window (start + m) n := by
  simp only [window, List.range_add, List.map_append, List.map_map]
  congr 2
  funext i
  simp only [Function.comp_apply, Nat.add_assoc]

theorem getElem?_window {ring : Ring} {start n i : ℕ} (h : i < n) :
    (ring.window start n)[i]? = some (ring.byteAt (start + i)) := by
  simp [window, h]

theorem byteAt_mod (ring : Ring) (i : ℕ) : ring.byteAt (i % ring.len) = ring.byteAt i := by
  simp only [byteAt, Nat.mod_mod]

theorem window_mod (ring : Ring) (start n : ℕ) :
    ring.window (start % ring.len) n = ring.window start n := by
  simp only [window]
  congr 1
  funext i
  rw [← byteAt_mod, Nat.mod_add_mod, byteAt_mod]

/-- A slice inside the ring is its window. -/
theorem slice_eq_window {ring : Ring} {start stop : ℕ} (hle : start ≤ stop)
    (hstop : stop ≤ ring.len) : ring.slice start stop = ring.window start (stop - start) := by
  apply List.ext_getElem?
  intro i
  by_cases h : i < stop - start
  · have hlt : start + i < stop := by omega
    have hlen : start + i < ring.bytes.length := by
      rw [length_bytes]
      omega
    rw [getElem?_window h, slice, List.getElem?_drop, List.getElem?_take_of_lt hlt, byteAt,
      ← length_bytes, Nat.mod_eq_of_lt hlen, List.getD_eq_getElem?_getD,
      List.getElem?_eq_getElem hlen, Option.getD_some]
  · have hshort : (ring.slice start stop).length ≤ i := by
      simp only [slice, List.length_drop, List.length_take]
      omega
    rw [List.getElem?_eq_none hshort, List.getElem?_eq_none (by simp; omega)]

/-- Two segments that wrap the seam are the window across it. -/
theorem slice_append_slice {ring : Ring} {start stop : ℕ} (hstart : start ≤ ring.len)
    (hwrap : ring.len ≤ stop) (hstop : stop ≤ 2 * ring.len) :
    ring.slice start ring.len ++ ring.slice 0 (stop - ring.len) =
      ring.window start (stop - start) := by
  have hsplit : stop - start = (ring.len - start) + (stop - ring.len) := by omega
  have hseam : start + (ring.len - start) = ring.len := by omega
  rw [slice_eq_window hstart le_rfl, slice_eq_window (Nat.zero_le _) (by omega), hsplit,
    window_add, hseam, Nat.sub_zero]
  congr 1
  rw [← window_mod ring ring.len, Nat.mod_self]

theorem bytes_frameView {ring : Ring} {anchor footprint : ℕ} (hanchor : anchor < ring.len)
    (hfit : footprint ≤ ring.len) :
    (ring.frameView anchor footprint).bytes = ring.window anchor footprint := by
  simp only [frameView]
  split
  · rename_i hle
    rw [FrameBytes.bytes_ofList, slice_eq_window (by omega) hle]
    congr 1
    omega
  · rename_i hgt
    have hdrop : ring.bytes.drop anchor = ring.slice anchor ring.len := by
      rw [slice, ← length_bytes, List.take_length]
    have htake : ring.bytes.take (footprint - (ring.len - anchor)) =
        ring.slice 0 (anchor + footprint - ring.len) := by
      simp only [slice, List.drop_zero]
      congr 1
      omega
    rw [FrameBytes.bytes, hdrop, htake, slice_append_slice (by omega) (by omega) (by omega)]
    congr 1
    omega

theorem u8At_frameView {ring : Ring} {anchor footprint i : ℕ} (hanchor : anchor < ring.len)
    (hfit : footprint ≤ ring.len) (hi : i < footprint) :
    (ring.frameView anchor footprint).u8At i = some (ring.byteAt (anchor + i)) := by
  rw [FrameBytes.u8At_eq, bytes_frameView hanchor hfit, getElem?_window hi]

@[simp]
theorem len_push (ring : Ring) (b : Byte) : (ring.push b).len = ring.len := rfl

theorem cursor_lt_len (ring : Ring) : ring.cursor < ring.len := ring.cursor_lt

theorem byteAt_push (ring : Ring) (b : Byte) (i : ℕ) :
    (ring.push b).byteAt i = if i % ring.len = ring.cursor then b else ring.byteAt i := by
  have hlt : i % ring.len < ring.bytes.length := by
    rw [ring.length_bytes]
    exact Nat.mod_lt _ ring.len_pos
  simp only [byteAt, len_push]
  simp only [push, List.getD_eq_getElem?_getD, List.getElem?_set, ring.length_bytes,
    ring.cursor_lt_len, if_true]
  by_cases heq : i % ring.len = ring.cursor
  · rw [if_pos heq.symm, if_pos heq, Option.getD_some]
  · rw [if_neg (fun h => heq h.symm), if_neg heq]

theorem cursor_push (ring : Ring) (b : Byte) :
    (ring.push b).cursor = (ring.cursor + 1) % ring.len :=
  ring.ringWrap_len _

end Ring

/-- Indices less than a lap apart are different places. -/
theorem mod_ne_of_lt {len i j : ℕ} (hlt : i < j) (hlap : j < i + len) : i % len ≠ j % len := by
  intro heq
  have hdvd := (Nat.modEq_iff_dvd' hlt.le).mp heq
  have hle := Nat.le_of_dvd (by omega) hdvd
  omega

end OpenServo.Bus
