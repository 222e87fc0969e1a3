import OpenServo.Protocol.Wire

/-!
# Frame bytes across the ring seam

A frame that wraps the receive ring arrives as two contiguous segments.  The
accessors below branch on the seam exactly as the firmware's do; each has one
lemma that states it on the logical byte string `bytes = head ++ tail`, and
everything above this module reasons through those lemmas only.
-/

namespace OpenServo

/-- Little-endian `u16` of two bytes. -/
def u16FromLe (lo hi : Byte) : ℕ := lo.toNat + 256 * hi.toNat

theorem u16FromLe_lt (lo hi : Byte) : u16FromLe lo hi < 65536 := by
  have hlo := lo.toNat_lt
  have hhi := hi.toNat_lt
  simp only [u16FromLe]
  omega

structure FrameBytes where
  head : List Byte
  tail : List Byte
  deriving DecidableEq, Repr

namespace FrameBytes

def ofList (bytes : List Byte) : FrameBytes := ⟨bytes, []⟩

/-- The logical bytes in order. -/
def bytes (fb : FrameBytes) : List Byte := fb.head ++ fb.tail

def len (fb : FrameBytes) : ℕ := fb.head.length + fb.tail.length

def isEmpty (fb : FrameBytes) : Bool := fb.head.isEmpty && fb.tail.isEmpty

def u8At (fb : FrameBytes) (i : ℕ) : Option Byte :=
  let hlen := fb.head.length
  if i < hlen then fb.head[i]? else fb.tail[i - hlen]?

def u16LeAt (fb : FrameBytes) (i : ℕ) : Option ℕ := do
  let lo ← fb.u8At i
  let hi ← fb.u8At (i + 1)
  return u16FromLe lo hi

/-- The `len`-byte sub-range at logical offset `start`, itself possibly
spanning the seam. -/
def sub (fb : FrameBytes) (start len : ℕ) : Option FrameBytes :=
  let stop := start + len
  if stop > fb.len then none
  else
    let hlen := fb.head.length
    if start ≥ hlen then
      let s := start - hlen
      some ⟨(fb.tail.drop s).take len, []⟩
    else if stop ≤ hlen then
      some ⟨(fb.head.drop start).take (stop - start), []⟩
    else
      some ⟨fb.head.drop start, fb.tail.take (stop - hlen)⟩

/-- The raw head and tail spans. -/
def segments (fb : FrameBytes) : List Byte × List Byte := (fb.head, fb.tail)

/-- Copy the view into `dst`: the outcome and the destination afterwards.  The
head is copied before the room for the tail is checked. -/
def copyInto (fb : FrameBytes) (dst : List Byte) : Option Unit × List Byte :=
  let hlen := fb.head.length
  if dst.length < hlen then (none, dst)
  else
    let d1 := dst.drop hlen
    if d1.length < fb.tail.length then (none, fb.head ++ d1)
    else (some (), fb.head ++ (fb.tail ++ d1.drop fb.tail.length))

/-! ## The logical reading of the accessors -/

@[simp]
theorem bytes_ofList (bytes : List Byte) : (ofList bytes).bytes = bytes := by
  simp [ofList, FrameBytes.bytes]

@[simp]
theorem length_bytes (fb : FrameBytes) : fb.bytes.length = fb.len := by
  simp [bytes, len]

theorem isEmpty_eq (fb : FrameBytes) : fb.isEmpty = fb.bytes.isEmpty := by
  cases fb with
  | mk head tail => cases head <;> cases tail <;> rfl

theorem u8At_eq (fb : FrameBytes) (i : ℕ) : fb.u8At i = fb.bytes[i]? := by
  simp only [u8At, bytes]
  split
  · rename_i h
    rw [List.getElem?_append_left h]
  · rename_i h
    rw [List.getElem?_append_right (not_lt.mp h)]

/-- Little-endian `u16` at offset `i` of a plain byte string. -/
def leAt (bytes : List Byte) (i : ℕ) : Option ℕ := do
  let lo ← bytes[i]?
  let hi ← bytes[i + 1]?
  return u16FromLe lo hi

theorem u16LeAt_eq (fb : FrameBytes) (i : ℕ) : fb.u16LeAt i = leAt fb.bytes i := by
  simp only [u16LeAt, leAt, u8At_eq]

theorem sub_eq_none {fb : FrameBytes} {start len : ℕ} :
    fb.sub start len = none ↔ fb.len < start + len := by
  simp only [sub]
  constructor
  · intro h
    by_contra hle
    rw [if_neg (by omega)] at h
    split at h
    · simp at h
    · split at h <;> simp at h
  · intro h
    rw [if_pos (by omega)]

theorem bytes_of_sub {fb out : FrameBytes} {start len : ℕ}
    (h : fb.sub start len = some out) :
    out.bytes = (fb.bytes.drop start).take len := by
  have hle : ¬ start + len > fb.len := by
    intro hgt
    rw [sub_eq_none.mpr (by omega)] at h
    simp at h
  simp only [sub, if_neg hle] at h
  simp only [FrameBytes.len] at hle
  split at h
  · rename_i hstart
    simp only [Option.some.injEq] at h
    subst h
    simp only [bytes, List.append_nil]
    rw [List.drop_append, List.drop_of_length_le hstart, List.nil_append]
  · rename_i hstart
    split at h
    · rename_i hstop
      simp only [Option.some.injEq] at h
      subst h
      simp only [bytes, List.append_nil]
      rw [List.drop_append_of_le_length (by omega),
        List.take_append_of_le_length (by simp; omega)]
      congr 1
      omega
    · rename_i hstop
      simp only [Option.some.injEq] at h
      subst h
      simp only [bytes]
      rw [List.drop_append_of_le_length (by omega), List.take_append]
      congr 1
      · rw [List.take_of_length_le (by simp; omega)]
      · congr 1
        simp
        omega

theorem exists_sub (fb : FrameBytes) {start len : ℕ} (h : start + len ≤ fb.len) :
    ∃ out, fb.sub start len = some out ∧ out.bytes = (fb.bytes.drop start).take len := by
  cases hsub : fb.sub start len with
  | none =>
      rw [sub_eq_none] at hsub
      omega
  | some out => exact ⟨out, rfl, bytes_of_sub hsub⟩

/-- Views of the same bytes have the same sub-ranges. -/
theorem sub_congr {fb gb : FrameBytes} (h : fb.bytes = gb.bytes) (start len : ℕ) :
    (fb.sub start len).map bytes = (gb.sub start len).map bytes := by
  have hlen : fb.len = gb.len := by rw [← fb.length_bytes, h, gb.length_bytes]
  by_cases hle : start + len ≤ fb.len
  · obtain ⟨out, hsub, hout⟩ := fb.exists_sub hle
    obtain ⟨out', hsub', hout'⟩ := gb.exists_sub (hlen ▸ hle)
    rw [hsub, hsub', Option.map_some, Option.map_some, hout, hout', h]
  · rw [sub_eq_none.mpr (by omega), sub_eq_none.mpr (by omega)]

theorem len_of_isEmpty {fb : FrameBytes} (h : fb.isEmpty) : fb.len = 0 := by
  rw [isEmpty_eq, List.isEmpty_iff] at h
  rw [← length_bytes, h, List.length_nil]

/-- A sub-range of a leading sub-range is the sub-range itself, seam and all. -/
theorem sub_of_leading {fb out : FrameBytes} {len start n : ℕ} (h : fb.sub 0 len = some out)
    (hle : start + n ≤ len) : out.sub start n = fb.sub start n := by
  have hlen : len ≤ fb.len := by
    by_contra hgt
    rw [sub_eq_none.mpr (by omega)] at h
    cases h
  have hfit : ¬ start + n > fb.len := by omega
  obtain ⟨head, tail⟩ := fb
  simp only [FrameBytes.len] at hlen hfit
  simp only [sub, FrameBytes.len, Nat.zero_add] at h
  rw [if_neg (by omega)] at h
  -- the leading range ends in the tail alone, in the head, or across the seam
  split at h
  · rename_i hhead
    obtain rfl := Option.some.inj h
    have hnil : head = [] := List.eq_nil_of_length_eq_zero (by omega)
    subst hnil
    simp only [List.length_nil, Nat.zero_add, Nat.sub_zero, List.drop_zero] at hlen hfit ⊢
    simp only [sub, FrameBytes.len, List.length_take, List.length_nil, Nat.min_eq_left hlen,
      Nat.add_zero, Nat.zero_add, Nat.sub_zero, Nat.zero_le, ge_iff_le, if_true]
    rw [if_neg (by omega), if_neg hfit]
    split
    · have hzero : n = 0 := by omega
      simp [hzero]
    · rw [List.drop_take, List.take_take]
      congr 3
      omega
  · split at h
    · rename_i hpos hseam
      obtain rfl := Option.some.inj h
      simp only [sub, FrameBytes.len, List.length_take, List.length_nil, List.drop_zero,
        Nat.sub_zero, Nat.min_eq_left hseam, Nat.add_zero]
      rw [if_neg (by omega), if_neg hfit]
      split
      · have hzero : n = 0 := by omega
        subst hzero
        simp only [List.take_zero, Nat.add_zero, Nat.sub_self]
        split
        · rfl
        · rw [if_pos (by omega)]
      · rw [if_neg (by omega), if_pos (by omega), List.drop_take, List.take_take]
        congr 3
        omega
    · rename_i hpos hseam
      obtain rfl := Option.some.inj h
      simp only [sub, FrameBytes.len, List.drop_zero, List.length_take]
      rw [if_neg (by omega), if_neg hfit]
      split
      · rw [List.drop_take, List.take_take]
        congr 3
        omega
      · split
        · rfl
        · rw [List.take_take]
          congr 3
          omega

/-! ## Copying a view out -/

theorem copyInto_of_len_le {fb : FrameBytes} {dst : List Byte} (h : fb.len ≤ dst.length) :
    fb.copyInto dst = (some (), fb.bytes ++ dst.drop fb.len) := by
  rw [len] at h
  simp only [copyInto, List.length_drop]
  rw [if_neg (by omega), if_neg (by omega), List.drop_drop, bytes, len, List.append_assoc]

/-- A view that fills its destination exactly is copied whole. -/
theorem copyInto_of_len_eq {fb : FrameBytes} {dst : List Byte}
    (h : dst.length = fb.len) : fb.copyInto dst = (some (), fb.bytes) := by
  rw [copyInto_of_len_le h.ge, ← h, List.drop_length, List.append_nil]

theorem copyInto_of_short_head {fb : FrameBytes} {dst : List Byte}
    (h : dst.length < fb.head.length) : fb.copyInto dst = (none, dst) := by
  simp only [copyInto]
  rw [if_pos h]

/-- With room for the head alone, the head is already in place. -/
theorem copyInto_of_short_tail {fb : FrameBytes} {dst : List Byte}
    (hhead : fb.head.length ≤ dst.length) (htail : dst.length < fb.len) :
    fb.copyInto dst = (none, fb.head ++ dst.drop fb.head.length) := by
  rw [len] at htail
  simp only [copyInto, List.length_drop]
  rw [if_neg (not_lt.mpr hhead), if_pos (by omega)]

/-- The view is copied whole where there is room for it, and else not at all. -/
structure AllOrNothing (fb : FrameBytes) (dst : List Byte) : Prop where
  fits : (fb.copyInto dst).1 = some () ↔ fb.len ≤ dst.length
  copied : (fb.copyInto dst).1 = some () → (fb.copyInto dst).2 = fb.bytes ++ dst.drop fb.len
  kept : (fb.copyInto dst).1 = none → (fb.copyInto dst).2 = dst

theorem AllOrNothing.of_len_le {fb : FrameBytes} {dst : List Byte} (h : fb.len ≤ dst.length) :
    fb.AllOrNothing dst := by
  have hcopy := copyInto_of_len_le h
  constructor
  case fits =>
      rw [hcopy]
      exact iff_of_true rfl h
  case copied =>
      intro _
      rw [hcopy]
  case kept =>
      rw [hcopy]
      exact nofun

/-- A refused copy is right exactly when it leaves the destination as it was. -/
theorem AllOrNothing.iff_of_refused {fb : FrameBytes} {dst left : List Byte}
    (hshort : dst.length < fb.len) (hcopy : fb.copyInto dst = (none, left)) :
    fb.AllOrNothing dst ↔ left = dst := by
  constructor
  · intro h
    have hkept := h.kept (by rw [hcopy])
    rwa [hcopy] at hkept
  · intro hleft
    constructor
    case fits =>
        rw [hcopy]
        exact iff_of_false nofun (not_le.mpr hshort)
    case copied =>
        rw [hcopy]
        exact nofun
    case kept =>
        intro _
        rw [hcopy, hleft]

theorem append_drop_eq_iff {head dst : List Byte} :
    head ++ dst.drop head.length = dst ↔ head <+: dst := by
  constructor
  · intro h
    exact ⟨dst.drop head.length, h⟩
  · rintro ⟨rest, rfl⟩
    rw [List.drop_left]

/-- A destination with room for the head and not for the tail has the head
written into it. -/
theorem copies_all_or_nothing_iff (fb : FrameBytes) (dst : List Byte) :
    fb.AllOrNothing dst ↔
      fb.len ≤ dst.length ∨ dst.length < fb.head.length ∨ fb.head <+: dst := by
  by_cases hfits : fb.len ≤ dst.length
  · exact iff_of_true (.of_len_le hfits) (.inl hfits)
  have hshort : dst.length < fb.len := not_le.mp hfits
  by_cases hhead : fb.head.length ≤ dst.length
  · rw [AllOrNothing.iff_of_refused hshort (copyInto_of_short_tail hhead hshort),
      append_drop_eq_iff, or_iff_right hfits, or_iff_right (not_lt.mpr hhead)]
  · have hcopy := copyInto_of_short_head (not_le.mp hhead)
    exact iff_of_true ((AllOrNothing.iff_of_refused hshort hcopy).mpr rfl)
      (.inr (.inl (not_le.mp hhead)))

/-- One byte of room for a view of one byte either side of the seam. -/
theorem refused_copy_leaves_the_head :
    ¬ ∀ (fb : FrameBytes) (dst : List Byte), fb.AllOrNothing dst := by
  intro hclaim
  have hkept := (hclaim ⟨[0x11], [0x22]⟩ [0x00]).kept rfl
  exact absurd hkept (by decide)

end FrameBytes

end OpenServo
