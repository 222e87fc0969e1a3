import OpenServo.Protocol.Build

/-!
# UID prefixes

The prefix walk names a subtree of UIDs by a length and a bit pattern, least
significant bit first.  The client compares bit by bit, the servo byte by byte
under a mask; both read the ENUM payload alike.
-/

namespace OpenServo.Client

/-- Bit `k` of the UID stream, in the order the UART shifts it onto the wire. -/
def bit (uid : List Byte) (k : ℕ) : Bool :=
  uid.getD (k / 8) 0 >>> UInt8.ofNat (k % 8) &&& 1 != 0

def matchesPrefix (uid pre : List Byte) (len : ℕ) : Bool :=
  (List.range len).all fun k => bit uid k == bit pre k

/-- Set bit `k` when `v` says so; the caller's prefix has it clear. -/
def withBit (pre : List Byte) (k : ℕ) (v : Bool) : List Byte :=
  if v then pre.set (k / 8) (pre.getD (k / 8) 0 ||| 1 <<< UInt8.ofNat (k % 8)) else pre

/-! ## Bits of a byte -/

theorem byte_shift_bit (b : Byte) {i : ℕ} (hi : i < 8) :
    (b >>> UInt8.ofNat i &&& 1 != 0) = b.toNat.testBit i := by
  have hshift : (b >>> UInt8.ofNat i &&& 1).toNat = b.toNat >>> i &&& 1 := by
    have hrem : i % 2 ^ 8 % 8 = i := by omega
    rw [UInt8.toNat_and, UInt8.toNat_shiftRight, UInt8.toNat_ofNat', hrem]
    rfl
  rw [Nat.testBit, Nat.and_comm, ← hshift]
  rw [Bool.eq_iff_iff, bne_iff_ne, bne_iff_ne, Ne, Ne, ← UInt8.toNat_inj]
  rfl

theorem bit_eq_testBit (uid : List Byte) (k : ℕ) :
    bit uid k = (uid.getD (k / 8) 0).toNat.testBit (k % 8) :=
  byte_shift_bit _ (Nat.mod_lt k (by decide))

theorem byte_eq_iff_testBit {a b : Byte} :
    a = b ↔ ∀ i < 8, a.toNat.testBit i = b.toNat.testBit i := by
  constructor
  · rintro rfl i _
    rfl
  · intro hbits
    apply UInt8.toNat_inj.mp
    apply Nat.eq_of_testBit_eq
    intro i
    by_cases hi : i < 8
    · exact hbits i hi
    · have hbig : 2 ^ 8 ≤ 2 ^ i := Nat.pow_le_pow_right (by decide) (by omega)
      rw [Nat.testBit_lt_two_pow (lt_of_lt_of_le a.toNat_lt hbig),
        Nat.testBit_lt_two_pow (lt_of_lt_of_le b.toNat_lt hbig)]

theorem mask_toNat {count : ℕ} (h : count < 8) :
    ((1 : Byte) <<< UInt8.ofNat count - 1).toNat = 2 ^ count - 1 := by
  interval_cases count <;> rfl

/-- The masked comparison of the servo sees the low bits only. -/
theorem masked_xor_eq_zero_iff {a b : Byte} {count : ℕ} (h : count < 8) :
    ((a ^^^ b) &&& ((1 <<< UInt8.ofNat count) - 1)) = 0 ↔
      ∀ i < count, a.toNat.testBit i = b.toNat.testBit i := by
  have hlow : ((a ^^^ b) &&& ((1 <<< UInt8.ofNat count) - 1)) = 0 ↔
      (a.toNat ^^^ b.toNat) % 2 ^ count = 0 := by
    rw [← UInt8.toNat_inj, UInt8.toNat_and, mask_toNat h, UInt8.toNat_xor,
      Nat.and_two_pow_sub_one_eq_mod]
    rfl
  rw [hlow]
  constructor
  · intro hzero i hi
    have hbit := congrArg (Nat.testBit · i) hzero
    simp only [Nat.testBit_mod_two_pow, hi, decide_true, Bool.true_and, Nat.testBit_xor,
      Nat.zero_testBit] at hbit
    cases ha : a.toNat.testBit i <;> cases hb : b.toNat.testBit i <;> simp_all
  · intro hbits
    apply Nat.eq_of_testBit_eq
    intro i
    rw [Nat.testBit_mod_two_pow, Nat.zero_testBit, Nat.testBit_xor]
    by_cases hi : i < count
    · rw [hbits i hi]
      simp
    · simp [hi]

/-! ## Prefixes -/

theorem matchesPrefix_iff {uid pre : List Byte} {len : ℕ} :
    matchesPrefix uid pre len = true ↔ ∀ k < len, bit uid k = bit pre k := by
  simp [matchesPrefix]

theorem take_eq_iff_bits {uid pre : List Byte} {full : ℕ} (huid : full ≤ uid.length)
    (hpre : full ≤ pre.length) :
    uid.take full = pre.take full ↔ ∀ k < 8 * full, bit uid k = bit pre k := by
  have hbytes : uid.take full = pre.take full ↔ ∀ j < full, uid.getD j 0 = pre.getD j 0 := by
    constructor
    · intro htake j hj
      have hat := congrArg (fun bytes => bytes.getD j 0) htake
      simpa only [List.getD_eq_getElem?_getD, List.getElem?_take_of_lt hj] using hat
    · intro hat
      apply List.ext_getElem?
      intro j
      by_cases hj : j < full
      · have hget := hat j hj
        rw [List.getElem?_take_of_lt hj, List.getElem?_take_of_lt hj,
          List.getElem?_eq_getElem (by omega), List.getElem?_eq_getElem (by omega)]
        simpa only [List.getD_eq_getElem?_getD,
          List.getElem?_eq_getElem (show j < uid.length by omega),
          List.getElem?_eq_getElem (show j < pre.length by omega), Option.getD_some,
          Option.some.injEq] using hget
      · rw [List.getElem?_eq_none (by rw [List.length_take]; omega),
          List.getElem?_eq_none (by rw [List.length_take]; omega)]
  rw [hbytes]
  constructor
  · intro hat k hk
    rw [bit_eq_testBit, bit_eq_testBit, hat (k / 8) (by omega)]
  · intro hbits j hj
    apply byte_eq_iff_testBit.mpr
    intro i hi
    have hbit := hbits (8 * j + i) (by omega)
    have hbyte : (8 * j + i) / 8 = j := by omega
    have hrem : (8 * j + i) % 8 = i := by omega
    rwa [bit_eq_testBit, bit_eq_testBit, hbyte, hrem] at hbit

/-- The servo's comparison of the ENUM prefix is the client's. -/
theorem uidPrefixMatches_eq {uid pre : List Byte} {prefixLen : Byte} (huid : uid.length = uidLen)
    (hpre : pre.length = uidLen) (hbits : prefixLen ≤ EnumReq.maxPrefixBits) :
    uidPrefixMatches uid prefixLen pre = matchesPrefix uid pre prefixLen.toNat := by
  have hlen : prefixLen.toNat ≤ 128 := UInt8.le_iff_toNat_le.mp hbits
  have huid' : uid.length = 16 := huid
  have hpre' : pre.length = 16 := hpre
  have hfull : uid.take (prefixLen.toNat / 8) = pre.take (prefixLen.toNat / 8) ↔ _ :=
    take_eq_iff_bits (by omega) (by omega)
  have hmask := masked_xor_eq_zero_iff (a := uid.getD (prefixLen.toNat / 8) 0)
    (b := pre.getD (prefixLen.toNat / 8) 0) (Nat.mod_lt prefixLen.toNat (show 0 < 8 by decide))
  have hlast : ∀ i < prefixLen.toNat % 8, ∀ bytes : List Byte,
      bit bytes (8 * (prefixLen.toNat / 8) + i) =
        (bytes.getD (prefixLen.toNat / 8) 0).toNat.testBit i := by
    intro i hi bytes
    have hbyte : (8 * (prefixLen.toNat / 8) + i) / 8 = prefixLen.toNat / 8 := by omega
    have hrem : (8 * (prefixLen.toNat / 8) + i) % 8 = i := by omega
    rw [bit_eq_testBit, hbyte, hrem]
  rw [Bool.eq_iff_iff, matchesPrefix_iff, uidPrefixMatches]
  simp only [ne_eq, ite_not, Bool.if_false_right, Bool.and_eq_true, decide_eq_true_eq,
    Bool.or_eq_true, beq_iff_eq]
  rw [hfull, hmask]
  constructor
  · rintro ⟨hbytes, hbits⟩ k hk
    by_cases hin : k < 8 * (prefixLen.toNat / 8)
    · exact hbytes k hin
    · obtain ⟨i, rfl⟩ : ∃ i, k = 8 * (prefixLen.toNat / 8) + i :=
        ⟨k - 8 * (prefixLen.toNat / 8), by omega⟩
      have hi : i < prefixLen.toNat % 8 := by omega
      rw [hlast i hi, hlast i hi]
      rcases hbits with hnone | hbits
      · omega
      · exact hbits i hi
  · intro hall
    refine ⟨fun k hk => hall k (by omega), Or.inr fun i hi => ?_⟩
    have hbit := hall (8 * (prefixLen.toNat / 8) + i) (by omega)
    rwa [hlast i hi, hlast i hi] at hbit

theorem eq_of_matchesPrefix_full {uid other : List Byte} (huid : uid.length = uidLen)
    (hother : other.length = uidLen) (h : matchesPrefix uid other 128 = true) : uid = other := by
  have huid' : uid.length = 16 := huid
  have hother' : other.length = 16 := hother
  have htake : uid.take 16 = other.take 16 :=
    (take_eq_iff_bits (by omega) (by omega)).mpr (matchesPrefix_iff.mp h)
  rwa [List.take_of_length_le (by omega), List.take_of_length_le (by omega)] at htake

/-! ## Extending a prefix by one bit -/

@[simp]
theorem withBit_length (pre : List Byte) (k : ℕ) (v : Bool) :
    (withBit pre k v).length = pre.length := by
  cases v <;> simp [withBit]

theorem or_bit_testBit (b : Byte) {i j : ℕ} (hi : i < 8) :
    (b ||| 1 <<< UInt8.ofNat i).toNat.testBit j = (b.toNat.testBit j || decide (i = j)) := by
  have hone : ((1 : Byte) <<< UInt8.ofNat i).toNat = 2 ^ i := by
    interval_cases i <;> rfl
  rw [UInt8.toNat_or, Nat.testBit_or, hone, Nat.testBit_two_pow]

theorem bit_withBit {pre : List Byte} {k : ℕ} (h : k / 8 < pre.length) (v : Bool) (j : ℕ) :
    bit (withBit pre k v) j = if j = k then v || bit pre k else bit pre j := by
  cases v with
  | false =>
      by_cases hj : j = k
      · simp [withBit, hj]
      · simp [withBit, hj]
  | true =>
      have hmod : k % 8 < 8 := Nat.mod_lt _ (by decide)
      rw [bit_eq_testBit, bit_eq_testBit pre j]
      simp only [withBit, if_true, Bool.true_or]
      by_cases hbyte : j / 8 = k / 8
      · rw [hbyte, List.getD_eq_getElem?_getD, List.getElem?_set_self h, Option.getD_some,
          or_bit_testBit _ hmod]
        by_cases hj : j = k
        · simp [hj]
        · have hrem : k % 8 ≠ j % 8 := by omega
          simp [hj, hrem]
      · have hj : j ≠ k := by
          rintro rfl
          exact hbyte rfl
        rw [if_neg hj, List.getD_eq_getElem?_getD, List.getElem?_set_ne (Ne.symm hbyte),
          ← List.getD_eq_getElem?_getD]

/-- A prefix one bit longer asks for the shorter one and for that bit. -/
theorem matchesPrefix_withBit_iff {uid pre : List Byte} {k : ℕ} (h : k / 8 < pre.length)
    (v : Bool) :
    matchesPrefix uid (withBit pre k v) (k + 1) = true ↔
      matchesPrefix uid pre k = true ∧ bit uid k = (v || bit pre k) := by
  rw [matchesPrefix_iff, matchesPrefix_iff]
  constructor
  · intro hall
    refine ⟨fun j hj => ?_, ?_⟩
    · have hat := hall j (Nat.lt_succ_of_lt hj)
      rwa [bit_withBit h, if_neg hj.ne] at hat
    · have hat := hall k (Nat.lt_succ_self k)
      rwa [bit_withBit h, if_pos rfl] at hat
  · rintro ⟨hall, hbit⟩ j hj
    rw [bit_withBit h]
    rcases Nat.lt_succ_iff_lt_or_eq.mp hj with hbefore | rfl
    · rw [if_neg hbefore.ne]
      exact hall j hbefore
    · rw [if_pos rfl]
      exact hbit

/-- Setting a bit that is set already leaves one extension in place of two. -/
theorem existsUnique_extension_iff {uid pre : List Byte} {k : ℕ} (h : k / 8 < pre.length)
    (hmatch : matchesPrefix uid pre k = true) :
    (∃! v, matchesPrefix uid (withBit pre k v) (k + 1) = true) ↔ bit pre k = false := by
  simp only [matchesPrefix_withBit_iff h, hmatch, true_and]
  cases bit pre k with
  | false => simp only [Bool.or_false, existsUnique_eq']
  | true =>
      simp only [Bool.or_true, Bool.true_eq_false, iff_false]
      rintro ⟨v, hbit, hunique⟩
      have htrue := hunique true hbit
      have hfalse := hunique false hbit
      rw [← htrue] at hfalse
      cases hfalse

/-! ## Through the builder and the parser -/

theorem mgmtEnum_of_room {dst : List Byte} {prefixLen : Byte} (pre : List Byte)
    (hbits : prefixLen ≤ EnumReq.maxPrefixBits)
    (hroom : 2 + EnumReq.prefixBytes prefixLen ≤ Build.cap dst) :
    ∃ dst', Build.mgmtEnum dst prefixLen pre =
      some (2 + EnumReq.prefixBytes prefixLen, dst') := by
  have hmax : ¬ prefixLen > UInt8.ofNat (uidLen * 8) := UInt8.not_lt.mpr hbits
  rw [Build.mgmtEnum, if_neg hmax]
  simp only
  rw [EnumReq.prefixBytes] at hroom
  rw [if_neg (not_lt.mpr hroom)]
  exact ⟨_, rfl⟩

/-- The bytes that go on the wire hold the whole prefix. -/
theorem bit_keptPrefix {e : EnumReq} (hsize : e.pre.length = uidLen) {k : ℕ}
    (hk : k < e.prefixLen.toNat) : bit (Build.keptPrefix e).pre k = bit e.pre k := by
  have hbytes : k / 8 < EnumReq.prefixBytes e.prefixLen := by
    rw [EnumReq.prefixBytes]
    omega
  rw [bit_eq_testBit, bit_eq_testBit, Build.keptPrefix]
  simp only [List.getD_eq_getElem?_getD]
  by_cases hin : k / 8 < e.pre.length
  · rw [List.getElem?_append_left (by rw [List.length_take]; omega),
      List.getElem?_take_of_lt hbytes]
  · have hnone : uidLen - EnumReq.prefixBytes e.prefixLen = 0 := by omega
    rw [hnone, List.replicate_zero, List.append_nil, List.getElem?_take_of_lt hbytes]

theorem uidPrefixMatches_keptPrefix {e : EnumReq} {uid : List Byte} (huid : uid.length = uidLen)
    (hpre : e.pre.length = uidLen) (hbits : e.prefixLen ≤ EnumReq.maxPrefixBits) :
    uidPrefixMatches uid (Build.keptPrefix e).prefixLen (Build.keptPrefix e).pre =
      uidPrefixMatches uid e.prefixLen e.pre := by
  have hwf := (Build.keptPrefix_wf hpre).mpr hbits
  rw [uidPrefixMatches_eq huid hwf.size hwf.bits, uidPrefixMatches_eq huid hpre hbits,
    Bool.eq_iff_iff, matchesPrefix_iff, matchesPrefix_iff]
  constructor
  · intro hall k hk
    rw [hall k hk, bit_keptPrefix hpre hk]
  · intro hall k hk
    rw [hall k hk, bit_keptPrefix hpre hk]

/-- The servo's comparison is the client's; a prefix splits in two where its next
bit is clear; and the ENUM payload asks for the same UIDs as the prefix it was
built from. -/
theorem prefix_bits_agree {uid pre : List Byte} {len : Byte} (huid : uid.length = uidLen)
    (hpre : pre.length = uidLen) (hlen : len ≤ EnumReq.maxPrefixBits) :
    (uidPrefixMatches uid len pre = true ↔ ∀ k < len.toNat, bit uid k = bit pre k) ∧
      uidPrefixMatches uid len pre = matchesPrefix uid pre len.toNat ∧
      (len < EnumReq.maxPrefixBits → uidPrefixMatches uid len pre = true →
        ((∃! v, matchesPrefix uid (withBit pre len.toNat v) (len.toNat + 1) = true) ↔
          bit pre len.toNat = false)) ∧
      ∀ dst, 2 + EnumReq.prefixBytes len ≤ Build.cap dst →
        ∃ n dst', Build.mgmtEnum dst len pre = some (n, dst') ∧
          ∀ view : FrameBytes, view.bytes = dst'.take n →
            ∃ e, MgmtReq.parseOp .enum EnumReq.parse view = some e ∧
              ∀ other, other.length = uidLen →
                uidPrefixMatches other e.prefixLen e.pre = uidPrefixMatches other len pre := by
  have hsame := uidPrefixMatches_eq huid hpre hlen
  refine ⟨?_, hsame, ?_, ?_⟩
  · rw [hsame, matchesPrefix_iff]
  · intro hlt hmatch
    have hlt' : len.toNat < 128 := UInt8.lt_iff_toNat_lt.mp hlt
    have hin : len.toNat / 8 < pre.length := by
      rw [hpre, uidLen]
      omega
    exact existsUnique_extension_iff hin (hsame ▸ hmatch)
  · intro dst hroom
    obtain ⟨dst', hbuild⟩ := mgmtEnum_of_room pre hlen hroom
    obtain ⟨-, -, -, hparse⟩ := Build.mgmtEnum_mirrors.roundTrip (x := ⟨len, pre⟩) hpre hbuild
    exact ⟨_, dst', hbuild, fun view hview => ⟨_, hparse view hview, fun other hother =>
      uidPrefixMatches_keptPrefix hother hpre hlen⟩⟩

/-- Twelve bits of one UID asked of another. -/
theorem prefix_bits_agree_twelve :
    (uidPrefixMatches (List.replicate 16 0xA5) 12 (0xA5 :: 0x05 :: List.replicate 14 0) = true ↔
        ∀ k < 12, bit (List.replicate 16 0xA5) k =
          bit (0xA5 :: 0x05 :: List.replicate 14 0) k) ∧
      ∃! v, matchesPrefix (List.replicate 16 0xA5)
        (withBit (0xA5 :: 0x05 :: List.replicate 14 0) 12 v) 13 = true := by
  obtain ⟨hbits, -, hsplit, -⟩ := @prefix_bits_agree (List.replicate 16 0xA5)
    (0xA5 :: 0x05 :: List.replicate 14 0) 12 rfl rfl (by decide)
  exact ⟨hbits, (hsplit (by decide) (by decide)).mpr (by decide)⟩

/-- With the next bit set, both extensions are the prefix itself. -/
theorem set_bit_hides_the_split :
    ¬ ∀ (uid pre : List Byte) (len : Byte), uid.length = uidLen → pre.length = uidLen →
      len < EnumReq.maxPrefixBits → matchesPrefix uid pre len.toNat = true →
        ∃! v, matchesPrefix uid (withBit pre len.toNat v) (len.toNat + 1) = true := by
  intro hclaim
  have hsplit := hclaim (List.replicate 16 0) (1 :: List.replicate 15 0) 0 rfl rfl (by decide)
    (by decide)
  have hclear := (existsUnique_extension_iff (by decide) (by decide)).mp hsplit
  exact absurd hclear (by decide)

end OpenServo.Client
