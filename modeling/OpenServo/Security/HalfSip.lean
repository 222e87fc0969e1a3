import OpenServo.Core.Blocks
import OpenServo.Security.Session

/-!
# The authenticator against HalfSipHash-2-4

The reference reads a whole message: it is padded with zeros and its length to
whole little-endian words, every word is compressed in two rounds, and four rounds
finish.  The hasher sees the message in chunks and keeps the word in progress in a
four-byte array whose free bytes still hold earlier words.  Whatever the chunks,
its tag is the reference's.
-/

namespace OpenServo.Security

open Blocks

/-! ## The reference -/

namespace HalfSipHash

structure State where
  v0 : BitVec 32
  v1 : BitVec 32
  v2 : BitVec 32
  v3 : BitVec 32
  deriving DecidableEq

/-- Both columns of a round side by side. -/
def sipRound (s : State) : State :=
  let v0 := s.v0 + s.v1
  let v2 := s.v2 + s.v3
  let v1 := s.v1.rotateLeft 5 ^^^ v0
  let v3 := s.v3.rotateLeft 8 ^^^ v2
  let v0 := v0.rotateLeft 16
  let v2 := v2 + v1
  let v0 := v0 + v3
  let v1 := v1.rotateLeft 13 ^^^ v2
  let v3 := v3.rotateLeft 7 ^^^ v0
  let v2 := v2.rotateLeft 16
  ⟨v0, v1, v2, v3⟩

/-- The "2": rounds for each word. -/
def compress (s : State) (m : BitVec 32) : State :=
  let s := sipRound (sipRound { s with v3 := s.v3 ^^^ m })
  { s with v0 := s.v0 ^^^ m }

def init (k0 k1 : BitVec 32) : State := ⟨k0, k1, 0x6c796765 ^^^ k0, 0x74656462 ^^^ k1⟩

/-- Zeros up to the last byte of a word, which is the length modulo 256. -/
def pad (msg : List Byte) : List Byte :=
  msg ++ (List.replicate (3 - msg.length % 4) 0 ++ [UInt8.ofNat msg.length])

/-- A block of four bytes as a little-endian word. -/
def word (block : List Byte) : BitVec 32 :=
  BitVec.ofNat 32 (block.foldr (fun b high => b.toNat + 256 * high) 0)

def absorb (s : State) (block : List Byte) : State := compress s (word block)

/-- The "4": rounds after the last word, for a tag of 32 bits. -/
def finalize (s : State) : BitVec 32 :=
  let s := sipRound (sipRound (sipRound (sipRound { s with v2 := s.v2 ^^^ 0xff })))
  s.v1 ^^^ s.v3

/-- The 32-bit tag of a whole message. -/
def tag (k0 k1 : BitVec 32) (msg : List Byte) : BitVec 32 :=
  finalize ((whole 4 (pad msg)).foldl absorb (init k0 k1))

-- A vector of the reference implementation, for the key `k[i] = i`.
example : tag 0x03020100 0x07060504 [0, 1, 2, 3, 4] = 0x69b6fac5 := by decide +kernel

/-- Padding completes the last word and changes none before it. -/
theorem whole_pad (msg : List Byte) :
    whole 4 (pad msg) = whole 4 msg ++
      [rest 4 msg ++ (List.replicate (3 - msg.length % 4) 0 ++ [UInt8.ofNat msg.length])] := by
  have hlength : (rest 4 msg ++
      (List.replicate (3 - msg.length % 4) 0 ++ [UInt8.ofNat msg.length])).length = 4 := by
    simp only [List.length_append, length_rest, List.length_replicate, List.length_singleton]
    omega
  rw [pad, whole_extend (by decide), whole_of_full (by decide) hlength]

end HalfSipHash

/-! ## Words and rounds -/

theorem toBitVec_rotateLeft (x : UInt32) {n : UInt32} (hpos : 0 < n.toNat) (hlt : n.toNat < 32) :
    (rotateLeft x n).toBitVec = x.toBitVec.rotateLeft n.toNat := by
  rw [rotateLeft, BitVec.rotateLeft_def, Nat.mod_eq_of_lt hlt, UInt32.toBitVec_or,
    UInt32.toBitVec_shiftLeft, UInt32.toBitVec_shiftRight]
  congr 1
  · rw [BitVec.shiftLeft_eq']
    congr 1
    simp
    omega
  · rw [BitVec.ushiftRight_eq']
    congr 1
    simp
    omega

theorem toNat_shiftLeft_byte (b : Byte) {n : UInt32} (hn : n.toNat ≤ 24) :
    (b.toUInt32 <<< n).toNat = b.toNat <<< n.toNat := by
  have hb := b.toNat_lt
  have hpow : 2 ^ n.toNat ≤ 2 ^ 24 := Nat.pow_le_pow_right (by decide) hn
  have hbound : b.toNat * 2 ^ n.toNat < 2 ^ 32 := by
    calc
      b.toNat * 2 ^ n.toNat ≤ b.toNat * 2 ^ 24 := Nat.mul_le_mul_left _ hpow
      _ < 2 ^ 32 := by omega
  rw [UInt32.toNat_shiftLeft, UInt8.toNat_toUInt32, Nat.mod_eq_of_lt (show n.toNat < 32 by omega),
    Nat.shiftLeft_eq, Nat.mod_eq_of_lt hbound]

theorem toNat_u32FromLe (b0 b1 b2 b3 : Byte) :
    (u32FromLe b0 b1 b2 b3).toNat =
      b0.toNat + 256 * (b1.toNat + 256 * (b2.toNat + 256 * b3.toNat)) := by
  have h0 := b0.toNat_lt
  have h1 := b1.toNat_lt
  have h2 := b2.toNat_lt
  have hor : ∀ {low high : ℕ} (i : ℕ), low < 2 ^ i → low ||| high <<< i = low + 2 ^ i * high := by
    intro low high i hlow
    rw [Nat.or_comm, ← Nat.shiftLeft_add_eq_or_of_lt hlow, Nat.shiftLeft_eq]
    ring
  rw [u32FromLe, UInt32.toNat_or, UInt32.toNat_or, UInt32.toNat_or, UInt8.toNat_toUInt32,
    toNat_shiftLeft_byte b1 (by decide), toNat_shiftLeft_byte b2 (by decide),
    toNat_shiftLeft_byte b3 (by decide)]
  change b0.toNat ||| b1.toNat <<< 8 ||| b2.toNat <<< 16 ||| b3.toNat <<< 24 = _
  rw [hor 8 (by omega), hor 16 (by omega), hor 24 (by omega)]
  ring

theorem toBitVec_wordOf {block : List Byte} (h : block.length = 4) :
    (wordOf block).toBitVec = HalfSipHash.word block := by
  match block, h with
  | [b0, b1, b2, b3], _ =>
      apply BitVec.eq_of_toNat_eq
      have hword := toNat_u32FromLe b0 b1 b2 b3
      have hlt := (u32FromLe b0 b1 b2 b3).toNat_lt
      show (u32FromLe b0 b1 b2 b3).toNat = (HalfSipHash.word [b0, b1, b2, b3]).toNat
      simp only [HalfSipHash.word, List.foldr_cons, List.foldr_nil, BitVec.toNat_ofNat]
      rw [Nat.mod_eq_of_lt (by omega)]
      omega

namespace HalfSipHasher

/-- The four words of the state, as the reference has them. -/
def lanes (h : HalfSipHasher) : HalfSipHash.State :=
  ⟨h.v0.toBitVec, h.v1.toBitVec, h.v2.toBitVec, h.v3.toBitVec⟩

theorem lanes_new (key : MacKey) :
    (new key).lanes = HalfSipHash.init key.k0.toBitVec key.k1.toBitVec := by
  simp [lanes, new, HalfSipHash.init, initV2, initV3]

theorem lanes_round (h : HalfSipHasher) : h.round.lanes = HalfSipHash.sipRound h.lanes := by
  have h5 : ∀ x, (rotateLeft x 5).toBitVec = x.toBitVec.rotateLeft 5 :=
    fun x => toBitVec_rotateLeft x (by decide) (by decide)
  have h7 : ∀ x, (rotateLeft x 7).toBitVec = x.toBitVec.rotateLeft 7 :=
    fun x => toBitVec_rotateLeft x (by decide) (by decide)
  have h8 : ∀ x, (rotateLeft x 8).toBitVec = x.toBitVec.rotateLeft 8 :=
    fun x => toBitVec_rotateLeft x (by decide) (by decide)
  have h13 : ∀ x, (rotateLeft x 13).toBitVec = x.toBitVec.rotateLeft 13 :=
    fun x => toBitVec_rotateLeft x (by decide) (by decide)
  have h16 : ∀ x, (rotateLeft x 16).toBitVec = x.toBitVec.rotateLeft 16 :=
    fun x => toBitVec_rotateLeft x (by decide) (by decide)
  simp only [lanes, round, HalfSipHash.sipRound, UInt32.toBitVec_add, UInt32.toBitVec_xor, h5, h7,
    h8, h13, h16]

theorem lanes_absorbWord (h : HalfSipHasher) (m : UInt32) :
    (h.absorbWord m).lanes = HalfSipHash.compress h.lanes m.toBitVec := by
  have hrounds : (round (round { h with v3 := h.v3 ^^^ m })).lanes =
      HalfSipHash.sipRound (HalfSipHash.sipRound (lanes { h with v3 := h.v3 ^^^ m })) :=
    (lanes_round _).trans (congrArg HalfSipHash.sipRound (lanes_round _))
  simp only [lanes, UInt32.toBitVec_xor] at hrounds
  simp only [lanes, absorbWord, HalfSipHash.compress, UInt32.toBitVec_xor, ← hrounds]

/-- The last word: the leftover bytes, zeros, and the length. -/
theorem finalBlock_eq (h : HalfSipHasher) :
    h.finalBlock =
      wordOf (h.tail.val ++ (List.replicate (3 - h.tail.val.length) 0 ++ [h.total.toUInt8])) := by
  obtain ⟨v0, v1, v2, v3, ⟨tail, hbound⟩, total⟩ := h
  have htop : (total &&& 0xff) <<< 24 = total.toUInt8.toUInt32 <<< 24 := by
    congr 1
    apply UInt32.toNat_inj.mp
    rw [UInt32.toNat_and, UInt8.toNat_toUInt32, UInt32.toNat_toUInt8]
    exact Nat.and_two_pow_sub_one_eq_mod _ 8
  have hlow : ∀ b : Byte, b.toUInt32 <<< 0 = b.toUInt32 := fun b => by simp
  rcases tail with _ | ⟨t0, _ | ⟨t1, _ | ⟨t2, _ | ⟨t3, rest⟩⟩⟩⟩
  · show (total &&& 0xff) <<< 24 = u32FromLe 0 0 0 total.toUInt8
    rw [htop, u32FromLe]
    simp
  · show (total &&& 0xff) <<< 24 ||| t0.toUInt32 <<< 0 = u32FromLe t0 0 0 total.toUInt8
    rw [htop, hlow, u32FromLe]
    simp [UInt32.or_comm]
  · show (total &&& 0xff) <<< 24 ||| t0.toUInt32 <<< 0 ||| t1.toUInt32 <<< 8 =
      u32FromLe t0 t1 0 total.toUInt8
    rw [htop, hlow, u32FromLe, UInt32.or_assoc, UInt32.or_comm]
    simp
  · show (total &&& 0xff) <<< 24 ||| t0.toUInt32 <<< 0 ||| t1.toUInt32 <<< 8 |||
      t2.toUInt32 <<< 16 = u32FromLe t0 t1 t2 total.toUInt8
    rw [htop, hlow, u32FromLe, UInt32.or_assoc, UInt32.or_assoc, UInt32.or_comm]
    simp only [UInt32.or_assoc]
  · simp only [List.length_cons] at hbound
    omega

/-! ## A whole message -/

/-- The hasher as a block absorber. -/
def absorber (h : HalfSipHasher) : Absorber HalfSipHash.State Byte := ⟨h.lanes, h.tail.val⟩

theorem absorber_fillByte (h : HalfSipHasher) (b : Byte) :
    (h.fillByte b).absorber =
      h.absorber.push HalfSipHash.absorb 4 b := by
  simp only [fillByte, Absorber.push]
  cases hpush : h.tail.push b with
  | some tail =>
      have htail := BoundedVec.push_eq_some.mp hpush
      have hbound := tail.bound
      rw [htail] at hbound
      have hshort : (h.absorber.residue ++ [b]).length < 4 := Nat.lt_succ_of_le hbound
      rw [if_pos hshort]
      simp only [absorber, htail]
      rfl
  | none =>
      have hfull := BoundedVec.push_eq_none.mp hpush
      have hbound := h.tail.bound
      have hlength : (h.tail.val ++ [b]).length = 4 := by
        rw [List.length_append, List.length_singleton]
        omega
      have hfilled : ¬ (h.absorber.residue ++ [b]).length < 4 := by
        simp only [absorber, hlength, lt_self_iff_false, not_false_eq_true]
      rw [if_neg hfilled]
      simp only [absorber, HalfSipHash.absorb, ← toBitVec_wordOf hlength, ← lanes_absorbWord]
      rfl

theorem absorber_fill (h : HalfSipHasher) (data : List Byte) :
    (h.fill data).absorber = data.foldl (Absorber.push HalfSipHash.absorb 4) h.absorber := by
  rw [fill_eq_foldl]
  induction data generalizing h with
  | nil => rfl
  | cons b data ih => rw [List.foldl_cons, List.foldl_cons, ih, absorber_fillByte]

theorem lanes_withV2 (h : HalfSipHasher) (x : UInt32) :
    lanes { h with v2 := h.v2 ^^^ x } = { h.lanes with v2 := h.lanes.v2 ^^^ x.toBitVec } := by
  simp [lanes]

theorem finish_eq (h : HalfSipHasher) :
    h.finish.word.toBitVec =
      HalfSipHash.finalize (HalfSipHash.compress h.lanes h.finalBlock.toBitVec) := by
  have hxor : (0xff : BitVec 32) = finalXor.toBitVec := rfl
  simp only [HalfSipHash.finalize, ← lanes_absorbWord, hxor, ← lanes_withV2, ← lanes_round]
  rfl

/-- After a whole message: its whole words are mixed in, the rest of it waits. -/
theorem absorber_update (key : MacKey) (msg : List Byte) :
    ((new key).update msg).absorber =
      ⟨(whole 4 msg).foldl HalfSipHash.absorb (HalfSipHash.init key.k0.toBitVec key.k1.toBitVec),
        rest 4 msg⟩ := by
  have hstart : ((new key).withTotal ((new key).total + UInt32.ofNat msg.length)).absorber =
      ⟨HalfSipHash.init key.k0.toBitVec key.k1.toBitVec, []⟩ := by
    rw [← lanes_new]
    rfl
  rw [update, absorber_fill, hstart, Absorber.foldl_push _ (by decide)]

/-- One update with the whole message gives the reference's tag. -/
theorem mac_eq (key : MacKey) (msg : List Byte) :
    (mac key msg).word.toBitVec = HalfSipHash.tag key.k0.toBitVec key.k1.toBitVec msg := by
  have hlanes : ((new key).update msg).lanes = _ :=
    congrArg Absorber.state (absorber_update key msg)
  have htail : ((new key).update msg).tail.val = rest 4 msg :=
    congrArg Absorber.residue (absorber_update key msg)
  have htotal : ((new key).update msg).total = UInt32.ofNat msg.length := by
    rw [update, fill_withTotal]
    simp [withTotal, new]
  have hlast : ((new key).update msg).finalBlock.toBitVec = HalfSipHash.word
      (rest 4 msg ++ (List.replicate (3 - msg.length % 4) 0 ++ [UInt8.ofNat msg.length])) := by
    rw [finalBlock_eq, htail, htotal, length_rest, toBitVec_wordOf]
    · congr 4
      apply UInt8.toNat_inj.mp
      simp
    · simp only [List.length_append, length_rest, List.length_replicate, List.length_singleton]
      omega
  rw [mac, finish_eq, hlast, hlanes, HalfSipHash.tag, HalfSipHash.whole_pad, List.foldl_append]
  rfl

/-- A partial word is topped up, and mixed in if that fills it. -/
theorem fill_of_ne_nil {h : HalfSipHasher} (hne : h.tail.val ≠ []) (data : List Byte) :
    let filled := h.tail.val ++ data.take (4 - h.tail.val.length)
    h.fill data =
      if hpartial : filled.length ≤ 3 then { h with tail := ⟨filled, hpartial⟩ }
      else
        absorbWords { h.absorbWord (wordOf filled) with tail := .empty }
          (data.drop (4 - h.tail.val.length)) := by
  intro filled
  rw [fill]
  split
  · rename_i hnil
    exact absurd hnil hne
  · rfl

theorem foldl_update (h : HalfSipHasher) (chunks : List (List Byte)) :
    chunks.foldl update h = h.update chunks.flatten := by
  induction chunks generalizing h with
  | nil =>
      rw [List.foldl_nil, List.flatten_nil, update, fill_nil]
      simp [withTotal]
  | cons chunk chunks ih => rw [List.foldl_cons, ih, List.flatten_cons, update_append]

end HalfSipHasher

/-! ## The hasher in memory -/

namespace InMemory

/-- The four tail bytes are always there; those from `tailLen` on are stale. -/
structure HalfSipHasher where
  v0 : UInt32
  v1 : UInt32
  v2 : UInt32
  v3 : UInt32
  tail : Vector Byte 4
  tailLen : Fin 4
  total : UInt32

/-- `tail[off..off + src.len()].copy_from_slice(src)`. -/
def overwrite (tail : Vector Byte 4) (off : ℕ) (src : List Byte) : Vector Byte 4 :=
  .ofFn fun i => if off ≤ i.val ∧ i.val < off + src.length then src.getD (i - off) 0 else tail[i]

/-- The bytes before the copy are kept, the copied ones follow. -/
theorem take_overwrite (tail : Vector Byte 4) (off : ℕ) {src : List Byte}
    (h : off + src.length ≤ 4) :
    (overwrite tail off src).toList.take (off + src.length) = tail.toList.take off ++ src := by
  have hlength : (tail.toList.take off).length = off := by
    rw [List.length_take, Vector.length_toList]
    omega
  apply List.ext_getElem
  · rw [List.length_take, Vector.length_toList, List.length_append, hlength]
    omega
  · intro i hleft hright
    rw [List.length_append, hlength] at hright
    simp only [overwrite, List.getElem_take, Vector.getElem_toList, Vector.getElem_ofFn]
    by_cases hcopied : off ≤ i
    · rw [if_pos ⟨hcopied, hright⟩, List.getElem_append_right (by omega)]
      simp only [hlength]
      exact List.getD_eq_getElem src 0 (by omega)
    · rw [if_neg (by omega), List.getElem_append_left (by omega), List.getElem_take,
        Vector.getElem_toList]
      rfl

namespace HalfSipHasher

def new (key : MacKey) : HalfSipHasher where
  v0 := key.k0
  v1 := key.k1
  v2 := initV2 ^^^ key.k0
  v3 := initV3 ^^^ key.k1
  tail := .replicate 4 0
  tailLen := 0
  total := 0

/-- The bytes absorbed, whatever lies behind them: the hasher the source's layout
stands for. -/
def stream (h : HalfSipHasher) : Security.HalfSipHasher where
  v0 := h.v0
  v1 := h.v1
  v2 := h.v2
  v3 := h.v3
  tail := ⟨h.tail.toList.take h.tailLen, by
    rw [List.length_take]
    omega⟩
  total := h.total

/-- Two rounds on the four words; the tail is left alone. -/
def absorbWord (h : HalfSipHasher) (m : UInt32) : HalfSipHasher :=
  let mixed := h.stream.absorbWord m
  { h with v0 := mixed.v0, v1 := mixed.v1, v2 := mixed.v2, v3 := mixed.v3 }

/-- `chunks_exact(4)`, then the remainder over the front of the tail. -/
def absorbChunks (h : HalfSipHasher) : List Byte → HalfSipHasher
  | b0 :: b1 :: b2 :: b3 :: rest => (h.absorbWord (u32FromLe b0 b1 b2 b3)).absorbChunks rest
  | [] => h
  | [b0] => { h with tail := overwrite h.tail 0 [b0], tailLen := 1 }
  | [b0, b1] => { h with tail := overwrite h.tail 0 [b0, b1], tailLen := 2 }
  | [b0, b1, b2] => { h with tail := overwrite h.tail 0 [b0, b1, b2], tailLen := 3 }

/-- A partial word topped up with `src`; a whole one is mixed and `rest` follows. -/
def topUp (h : HalfSipHasher) (src rest : List Byte) : HalfSipHasher :=
  let tail := overwrite h.tail h.tailLen src
  let tailLen := h.tailLen.val + src.length
  if hpartial : tailLen < 4 then { h with tail, tailLen := ⟨tailLen, hpartial⟩ }
  else
    let h := { h with tail }.absorbWord (wordOf tail.toList)
    absorbChunks { h with tailLen := 0 } rest

def fill (h : HalfSipHasher) (data : List Byte) : HalfSipHasher :=
  if h.tailLen ≠ 0 then
    let want := 4 - h.tailLen.val
    let take := min want data.length
    h.topUp (data.take take) (data.drop take)
  else h.absorbChunks data

def update (h : HalfSipHasher) (data : List Byte) : HalfSipHasher :=
  fill { h with total := h.total + UInt32.ofNat data.length } data

/-- Only the first `tailLen` bytes of the tail are read. -/
def finish (h : HalfSipHasher) : Tag := h.stream.finish

/-! ### No stale byte is read -/

theorem stream_tail (h : HalfSipHasher) : h.stream.tail.val = h.tail.toList.take h.tailLen := rfl

theorem length_stream_tail (h : HalfSipHasher) : h.stream.tail.val.length = h.tailLen := by
  rw [stream_tail, List.length_take, Vector.length_toList]
  omega

theorem stream_new (key : MacKey) : (new key).stream = Security.HalfSipHasher.new key := rfl

theorem stream_absorbWord (h : HalfSipHasher) (m : UInt32) :
    (h.absorbWord m).stream = h.stream.absorbWord m := rfl

/-- A copy behind the live bytes of the tail makes them longer. -/
theorem stream_overwrite (h : HalfSipHasher) {src : List Byte}
    (hfits : h.tailLen.val + src.length < 4) :
    stream { h with tail := overwrite h.tail h.tailLen src, tailLen := ⟨_, hfits⟩ } =
      { h.stream with
        tail := ⟨h.stream.tail.val ++ src, by
          rw [List.length_append, length_stream_tail]
          omega⟩ } := by
  simp only [stream, take_overwrite h.tail h.tailLen hfits.le]

theorem stream_remainder (h : HalfSipHasher) (rem : List Byte) (hshort : rem.length < 4) :
    stream { h with tail := overwrite h.tail 0 rem, tailLen := ⟨rem.length, hshort⟩ } =
      { h.stream with tail := ⟨rem, Nat.le_of_lt_succ hshort⟩ } := by
  have hfits : 0 + rem.length ≤ 4 := by omega
  have htake := take_overwrite h.tail 0 hfits
  rw [Nat.zero_add, List.take_zero, List.nil_append] at htake
  simp only [stream, htake]

theorem stream_absorbChunks {h : HalfSipHasher} (hempty : h.tailLen = 0) (data : List Byte) :
    (h.absorbChunks data).stream = h.stream.absorbWords data := by
  induction h, data using absorbChunks.induct with
  | case1 h b0 b1 b2 b3 rest ih =>
      rw [absorbChunks, Security.HalfSipHasher.absorbWords, ← stream_absorbWord]
      exact ih hempty
  | case2 h => rfl
  | case3 h b0 => exact stream_remainder h [b0] (by simp)
  | case4 h b0 b1 => exact stream_remainder h [b0, b1] (by simp)
  | case5 h b0 b1 b2 => exact stream_remainder h [b0, b1, b2] (by simp)

theorem stream_topUp (h : HalfSipHasher) {src : List Byte} (rest : List Byte)
    (hfits : h.tailLen.val + src.length ≤ 4) :
    (h.topUp src rest).stream =
      if hpartial : (h.stream.tail.val ++ src).length ≤ 3 then
        { h.stream with tail := ⟨h.stream.tail.val ++ src, hpartial⟩ }
      else
        Security.HalfSipHasher.absorbWords
          { h.stream.absorbWord (wordOf (h.stream.tail.val ++ src)) with tail := .empty } rest := by
  have hlength : (h.stream.tail.val ++ src).length = h.tailLen + src.length := by
    rw [List.length_append, length_stream_tail]
  rw [topUp]
  by_cases hpartial : h.tailLen.val + src.length < 4
  · rw [dif_pos hpartial, dif_pos (by omega), stream_overwrite h hpartial]
  · have hfull : h.tailLen.val + src.length = 4 := by omega
    have hword : (overwrite h.tail h.tailLen src).toList = h.stream.tail.val ++ src := by
      have hwhole := take_overwrite h.tail h.tailLen hfull.le
      rwa [hfull, List.take_of_length_le (by simp)] at hwhole
    rw [dif_neg hpartial, dif_neg (by omega), hword, stream_absorbChunks rfl]
    rfl

theorem stream_fill (h : HalfSipHasher) (data : List Byte) :
    (h.fill data).stream = h.stream.fill data := by
  have hlength := length_stream_tail h
  by_cases hempty : h.tailLen = 0
  · have hnil : h.stream.tail.val = [] := by
      rw [← List.length_eq_zero_iff, hlength, hempty]
      rfl
    rw [fill, if_neg (by simpa using hempty), stream_absorbChunks hempty,
      Security.HalfSipHasher.fill]
    split
    · rfl
    · rename_i hcons
      exact absurd hnil hcons
  · have hpos : h.tailLen.val ≠ 0 := fun hzero => hempty (Fin.ext hzero)
    have hne : h.stream.tail.val ≠ [] := by
      rw [← List.length_pos_iff, hlength]
      omega
    have htake : data.take (min (4 - h.tailLen.val) data.length) =
        data.take (4 - h.tailLen.val) := by
      rw [← List.take_take, List.take_length]
    have hdrop : data.drop (min (4 - h.tailLen.val) data.length) =
        data.drop (4 - h.tailLen.val) := by
      rcases Nat.le_total (4 - h.tailLen.val) data.length with hle | hle
      · rw [Nat.min_eq_left hle]
      · rw [Nat.min_eq_right hle, List.drop_length, List.drop_eq_nil_of_le hle]
    have hfits : h.tailLen.val + (data.take (4 - h.tailLen.val)).length ≤ 4 := by
      rw [List.length_take]
      omega
    simp only [fill, if_pos hempty, htake, hdrop]
    rw [stream_topUp h _ hfits, Security.HalfSipHasher.fill_of_ne_nil hne, hlength]

theorem stream_update (h : HalfSipHasher) (data : List Byte) :
    (h.update data).stream = h.stream.update data := by
  rw [update, stream_fill]
  rfl

theorem stream_foldl_update (h : HalfSipHasher) (chunks : List (List Byte)) :
    (chunks.foldl update h).stream = chunks.foldl Security.HalfSipHasher.update h.stream := by
  induction chunks generalizing h with
  | nil => rfl
  | cons chunk chunks ih => rw [List.foldl_cons, ih, stream_update, List.foldl_cons]

/-- Any sequence of updates gives the reference's tag of the whole message. -/
theorem finish_foldl_update (key : MacKey) (chunks : List (List Byte)) :
    (chunks.foldl update (new key)).finish.word.toBitVec =
      HalfSipHash.tag key.k0.toBitVec key.k1.toBitVec chunks.flatten := by
  rw [finish, stream_foldl_update, stream_new, Security.HalfSipHasher.foldl_update,
    ← Security.HalfSipHasher.mac_eq]
  rfl

end HalfSipHasher

/-! ## The stream digest -/

structure StreamDigest where
  hasher : HalfSipHasher
  key : MacKey
  frames : UInt16

namespace StreamDigest

def new (key : MacKey) : StreamDigest where
  hasher := (HalfSipHasher.new key).update [domainStream]
  key := key
  frames := 0

def foldFrame (stream : StreamDigest) (segA segB : List Byte) : StreamDigest :=
  { stream with
    hasher := (stream.hasher.update segA).update segB
    frames := if stream.frames == 0xFFFF then stream.frames else stream.frames + 1 }

def digest (stream : StreamDigest) : Tag := stream.hasher.finish

/-- The frames folded so far, each as its two ring segments. -/
def foldFrames (stream : StreamDigest) (frames : List (List Byte × List Byte)) : StreamDigest :=
  frames.foldl (fun stream frame => stream.foldFrame frame.1 frame.2) stream

theorem hasher_foldFrames (stream : StreamDigest) (frames : List (List Byte × List Byte)) :
    (stream.foldFrames frames).hasher =
      (frames.flatMap fun frame => [frame.1, frame.2]).foldl HalfSipHasher.update
        stream.hasher := by
  rw [foldFrames]
  induction frames generalizing stream with
  | nil => rfl
  | cons frame frames ih => rw [List.foldl_cons, ih, List.flatMap_cons, List.foldl_append]; rfl

end StreamDigest

/-- However the message is cut into updates, and every frame at the ring seam, the tag is
the reference's tag of the bytes in order. -/
theorem tag_of_concatenation (key : MacKey) :
    (∀ chunks : List (List Byte),
      (chunks.foldl HalfSipHasher.update (HalfSipHasher.new key)).finish.word.toBitVec =
        HalfSipHash.tag key.k0.toBitVec key.k1.toBitVec chunks.flatten) ∧
    ∀ frames : List (List Byte × List Byte),
      ((StreamDigest.new key).foldFrames frames).digest.word.toBitVec =
        HalfSipHash.tag key.k0.toBitVec key.k1.toBitVec
          (domainStream :: frames.flatMap fun frame => frame.1 ++ frame.2) := by
  refine ⟨HalfSipHasher.finish_foldl_update key, fun frames => ?_⟩
  have hflatten : (frames.flatMap fun frame => [frame.1, frame.2]).flatten =
      frames.flatMap fun frame => frame.1 ++ frame.2 := by
    induction frames with
    | nil => rfl
    | cons frame frames ih => simp [ih]
  have hfold := HalfSipHasher.finish_foldl_update key
    ([domainStream] :: frames.flatMap fun frame => [frame.1, frame.2])
  rw [List.flatten_cons, hflatten] at hfold
  rw [StreamDigest.digest, StreamDigest.hasher_foldFrames]
  exact hfold

end InMemory

end OpenServo.Security
