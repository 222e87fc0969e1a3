import OpenServo.Core.BoundedVec
import OpenServo.Protocol.Wire

/-!
# HalfSipHash-2-4

The keyed 32-bit authenticator of the message plane, as a streaming hasher:
bytes are absorbed in chunks of any size, whole little-endian words are mixed
as they fill up, and the last zero to three bytes wait in the tail.
-/

namespace OpenServo.Security

/-- Little-endian word of the first four bytes. -/
def u32FromLe (b0 b1 b2 b3 : Byte) : UInt32 :=
  b0.toUInt32 ||| (b1.toUInt32 <<< 8) ||| (b2.toUInt32 <<< 16) ||| (b3.toUInt32 <<< 24)

/-- The word of a filled four-byte tail. -/
def wordOf (bytes : List Byte) : UInt32 :=
  u32FromLe (bytes.getD 0 0) (bytes.getD 1 0) (bytes.getD 2 0) (bytes.getD 3 0)

structure MacKey where
  k0 : UInt32
  k1 : UInt32
  deriving DecidableEq, Repr

namespace MacKey

def zero : MacKey := ⟨0, 0⟩

def isZero (key : MacKey) : Bool := key.k0 == 0 && key.k1 == 0

end MacKey

structure Tag where
  word : UInt32
  deriving DecidableEq, Repr

namespace Tag

def toBytes (tag : Tag) : List Byte := leBytes32 tag.word

def fromBytes (b0 b1 b2 b3 : Byte) : Tag := ⟨u32FromLe b0 b1 b2 b3⟩

/-- Branch-free equality: any differing bit reaches bit 31 of `d | -d`. -/
def ctEq (tag other : Tag) : Bool :=
  let d := tag.word ^^^ other.word
  (d ||| -d) >>> 31 == 0

end Tag

def rotateLeft (x n : UInt32) : UInt32 := (x <<< n) ||| (x >>> (32 - n))

def initV2 : UInt32 := 0x6c796765
def initV3 : UInt32 := 0x74656462
def finalXor : UInt32 := 0xff

structure HalfSipHasher where
  v0 : UInt32
  v1 : UInt32
  v2 : UInt32
  v3 : UInt32
  /-- Bytes of the in-progress word, never a whole one. -/
  tail : BoundedVec Byte 3
  /-- Bytes absorbed, modulo `2^32`. -/
  total : UInt32
  deriving DecidableEq

namespace HalfSipHasher

def new (key : MacKey) : HalfSipHasher where
  v0 := key.k0
  v1 := key.k1
  v2 := initV2 ^^^ key.k0
  v3 := initV3 ^^^ key.k1
  tail := .empty
  total := 0

def round (h : HalfSipHasher) : HalfSipHasher :=
  let v0 := h.v0 + h.v1
  let v1 := rotateLeft h.v1 5 ^^^ v0
  let v0 := rotateLeft v0 16
  let v2 := h.v2 + h.v3
  let v3 := rotateLeft h.v3 8 ^^^ v2
  let v0 := v0 + v3
  let v3 := rotateLeft v3 7 ^^^ v0
  let v2 := v2 + v1
  let v1 := rotateLeft v1 13 ^^^ v2
  let v2 := rotateLeft v2 16
  { h with v0, v1, v2, v3 }

def absorbWord (h : HalfSipHasher) (m : UInt32) : HalfSipHasher :=
  let h := { h with v3 := h.v3 ^^^ m }
  let h := h.round.round
  { h with v0 := h.v0 ^^^ m }

/-- Whole words, then the remainder into the tail. -/
def absorbWords (h : HalfSipHasher) : List Byte → HalfSipHasher
  | b0 :: b1 :: b2 :: b3 :: rest => (h.absorbWord (u32FromLe b0 b1 b2 b3)).absorbWords rest
  | [b0, b1, b2] => { h with tail := ⟨[b0, b1, b2], by simp⟩ }
  | [b0, b1] => { h with tail := ⟨[b0, b1], by simp⟩ }
  | [b0] => { h with tail := ⟨[b0], by simp⟩ }
  | [] => h

/-- The bytes of `data` into the state; a partial word is topped up first. -/
def fill (h : HalfSipHasher) (data : List Byte) : HalfSipHasher :=
  match h.tail.val with
  | [] => h.absorbWords data
  | tail =>
      let want := 4 - tail.length
      let filled := tail ++ data.take want
      if hpartial : filled.length ≤ 3 then { h with tail := ⟨filled, hpartial⟩ }
      else
        absorbWords { h.absorbWord (wordOf filled) with tail := .empty } (data.drop want)

def withTotal (h : HalfSipHasher) (total : UInt32) : HalfSipHasher := { h with total }

/-- Absorb `data`; may be called any number of times with any chunking. -/
def update (h : HalfSipHasher) (data : List Byte) : HalfSipHasher :=
  (h.withTotal (h.total + UInt32.ofNat data.length)).fill data

/-- The final block: the leftover bytes low, the length in the top byte. -/
def finalBlock (h : HalfSipHasher) : UInt32 :=
  let b := (h.total &&& 0xff) <<< 24
  h.tail.val.zipIdx.foldl (fun b (byte, i) => b ||| (byte.toUInt32 <<< UInt32.ofNat (8 * i))) b

/-- One byte at a time: what `fill` does for any chunking. -/
def fillByte (h : HalfSipHasher) (b : Byte) : HalfSipHasher :=
  match h.tail.push b with
  | some tail => { h with tail }
  | none => { h.absorbWord (wordOf (h.tail.val ++ [b])) with tail := .empty }

theorem fill_nil (h : HalfSipHasher) : h.fill [] = h := by
  obtain ⟨v0, v1, v2, v3, ⟨tail, hbound⟩, total⟩ := h
  rcases tail with _ | ⟨t0, tail⟩
  · simp [fill, absorbWords]
  · have hpartial : tail.length + 1 ≤ 3 := hbound
    simp [fill, hpartial]

/-- The tail has zero to three bytes; in each case `data` is examined until
the word in progress is filled. -/
theorem fill_cons (h : HalfSipHasher) (b : Byte) (data : List Byte) :
    h.fill (b :: data) = (h.fillByte b).fill data := by
  obtain ⟨v0, v1, v2, v3, ⟨tail, hbound⟩, total⟩ := h
  rcases tail with _ | ⟨t0, _ | ⟨t1, _ | ⟨t2, _ | ⟨t3, rest⟩⟩⟩⟩
  · rcases data with _ | ⟨d0, _ | ⟨d1, _ | ⟨d2, rest⟩⟩⟩
    · simp [fill, fillByte, BoundedVec.push, BoundedVec.extend, absorbWords]
    · simp [fill, fillByte, BoundedVec.push, BoundedVec.extend, absorbWords]
    · simp [fill, fillByte, BoundedVec.push, BoundedVec.extend, absorbWords]
    · simp [fill, fillByte, BoundedVec.push, BoundedVec.extend, absorbWords, wordOf]
      rfl
  · rcases data with _ | ⟨d0, _ | ⟨d1, rest⟩⟩
    · simp [fill, fillByte, BoundedVec.push, BoundedVec.extend]
    · simp [fill, fillByte, BoundedVec.push, BoundedVec.extend]
    · simp [fill, fillByte, BoundedVec.push, BoundedVec.extend, wordOf]
      rfl
  · rcases data with _ | ⟨d0, rest⟩
    · simp [fill, fillByte, BoundedVec.push, BoundedVec.extend]
    · simp [fill, fillByte, BoundedVec.push, BoundedVec.extend, wordOf]
      rfl
  · simp [fill, fillByte, BoundedVec.push, BoundedVec.extend, wordOf]
  · simp only [List.length_cons] at hbound
    omega

theorem fill_eq_foldl (h : HalfSipHasher) (data : List Byte) :
    h.fill data = data.foldl fillByte h := by
  induction data generalizing h with
  | nil => exact fill_nil h
  | cons b data ih => rw [fill_cons, ih, List.foldl_cons]

theorem fillByte_withTotal (h : HalfSipHasher) (b : Byte) (total : UInt32) :
    (h.withTotal total).fillByte b = (h.fillByte b).withTotal total := by
  simp only [fillByte, withTotal]
  split <;> rfl

theorem fill_withTotal (h : HalfSipHasher) (data : List Byte) (total : UInt32) :
    (h.withTotal total).fill data = (h.fill data).withTotal total := by
  induction data generalizing h with
  | nil => simp only [fill_nil]
  | cons b data ih => rw [fill_cons, fill_cons, fillByte_withTotal, ih]

theorem fill_append (h : HalfSipHasher) (left right : List Byte) :
    h.fill (left ++ right) = (h.fill left).fill right := by
  simp only [fill_eq_foldl, List.foldl_append]

/-- Absorbing in chunks is absorbing the concatenation. -/
theorem update_append (h : HalfSipHasher) (left right : List Byte) :
    h.update (left ++ right) = (h.update left).update right := by
  simp only [update, fill_withTotal, fill_append]
  simp only [withTotal, List.length_append, UInt32.ofNat_add, UInt32.add_assoc]

def finish (h : HalfSipHasher) : Tag :=
  let b := h.finalBlock
  let h := h.absorbWord b
  let h := { h with v2 := h.v2 ^^^ finalXor }
  let h := h.round.round.round.round
  ⟨h.v1 ^^^ h.v3⟩

end HalfSipHasher

/-- One-shot HalfSipHash-2-4. -/
def mac (key : MacKey) (msg : List Byte) : Tag :=
  ((HalfSipHasher.new key).update msg).finish

-- The reference implementation's vectors for the key `k[i] = i`.
example : (mac ⟨0x03020100, 0x07060504⟩ []).toBytes = [0xa9, 0x35, 0x9f, 0x5b] := by
  decide +kernel

example : (mac ⟨0x03020100, 0x07060504⟩ [0, 1, 2, 3, 4]).toBytes =
    [0xc5, 0xfa, 0xb6, 0x69] := by
  decide +kernel

end OpenServo.Security
