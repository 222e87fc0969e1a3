import OpenServo.Core.Unambiguous
import OpenServo.Security.HalfSip
import OpenServo.Security.Session

/-!
# What the keys are asked to sign

The byte strings the MAC absorbs for a stream digest, an inline tag and a COMMIT tag, and the
three messages the key derivation is handed.  A domain byte tells the first three apart and a
label the last three; what follows is of fixed width but for the spans, which spell their own
length, and one prefix at the end.
-/

namespace OpenServo.Security

open Unambiguous

/-! ## Fixed-width fields -/

theorem Epoch.toLeBytes_injective : Function.Injective Epoch.toLeBytes := by
  rintro ⟨x⟩ ⟨y⟩ heq
  have hbytes : ∀ v : UInt16, v.toNat = v.toUInt8.toNat + 256 * (v >>> 8).toUInt8.toNat := by
    intro v
    have hlt := v.toNat_lt
    have hhigh : (v >>> 8).toNat = v.toNat / 256 := by
      rw [UInt16.toNat_shiftRight, Nat.shiftRight_eq_div_pow]
      rfl
    rw [UInt16.toNat_toUInt8, UInt16.toNat_toUInt8, hhigh]
    omega
  rw [toLeBytes, toLeBytes, List.cons.injEq, List.cons.injEq] at heq
  rw [Epoch.mk.injEq, ← UInt16.toNat_inj, hbytes x, hbytes y, heq.1, heq.2.1]

theorem Tag.toBytes_injective : Function.Injective Tag.toBytes := by
  rintro ⟨x⟩ ⟨y⟩ heq
  have hbytes : ∀ v : UInt32, v.toNat = v.toUInt8.toNat + 256 * ((v >>> 8).toUInt8.toNat +
      256 * ((v >>> 16).toUInt8.toNat + 256 * (v >>> 24).toUInt8.toNat)) := by
    intro v
    have hlt := v.toNat_lt
    have hone : (v >>> 8).toNat = v.toNat / 256 := by
      rw [UInt32.toNat_shiftRight, Nat.shiftRight_eq_div_pow]
      rfl
    have htwo : (v >>> 16).toNat = v.toNat / 65536 := by
      rw [UInt32.toNat_shiftRight, Nat.shiftRight_eq_div_pow]
      rfl
    have hthree : (v >>> 24).toNat = v.toNat / 16777216 := by
      rw [UInt32.toNat_shiftRight, Nat.shiftRight_eq_div_pow]
      rfl
    rw [UInt32.toNat_toUInt8, UInt32.toNat_toUInt8, UInt32.toNat_toUInt8, UInt32.toNat_toUInt8,
      hone, htwo, hthree]
    omega
  simp only [toBytes, leBytes32, List.cons.injEq, and_true] at heq
  obtain ⟨h0, h1, h2, h3⟩ := heq
  rw [Tag.mk.injEq, ← UInt32.toNat_inj, hbytes x, hbytes y, h0, h1, h2, h3]

/-! ## Covered spans -/

/-- `ID | LEN | INST | payload`, LEN its own length. -/
structure CoveredSpan where
  bytes : List Byte
  header : 3 ≤ bytes.length
  len_eq : (bytes.getD 1 0).toNat = bytes.length
  deriving DecidableEq

/-- Spans spell their length in their second byte. -/
theorem prefixFree_spans : PrefixFree (Set.range CoveredSpan.bytes) := by
  refine @prefixFree_of_length _ _ (fun stream => (stream.getD 1 0).toNat) ?_
  rintro - ⟨span, rfl⟩ rest
  have hheader := span.header
  rw [List.getD_append _ _ _ _ (by omega), span.len_eq]

theorem folded_injective {spans spans' : List CoveredSpan}
    (h : spans.flatMap CoveredSpan.bytes = spans'.flatMap CoveredSpan.bytes) : spans = spans' := by
  have hbytes : Function.Injective CoveredSpan.bytes := by
    rintro ⟨bytes, _, _⟩ ⟨bytes', _, _⟩ rfl
    rfl
  have hsome : [] ∉ Set.range CoveredSpan.bytes := by
    rintro ⟨span, hspan⟩
    have hheader := span.header
    rw [hspan, List.length_nil] at hheader
    omega
  have hmem : ∀ spans : List CoveredSpan, ∀ w ∈ spans.map CoveredSpan.bytes,
      w ∈ Set.range CoveredSpan.bytes := by
    intro spans w hw
    obtain ⟨span, -, rfl⟩ := List.mem_map.mp hw
    exact ⟨span, rfl⟩
  rw [List.flatMap_def, List.flatMap_def] at h
  exact List.map_injective_iff.mpr hbytes
    (prefixFree_spans.flatten_injective hsome (hmem spans) (hmem spans') h)

/-! ## Messages under the MAC -/

inductive MacRole where
  | stream
  | frame
  | commit
  deriving DecidableEq

structure FrameFields where
  epoch : Epoch
  seq : Byte
  taggedPrefix : List Byte

structure CommitFields where
  epoch : Epoch
  seq : Byte
  digest : Tag
  taggedPrefix : List Byte

namespace MacRole

def fields : MacRole → Type
  | stream => List CoveredSpan
  | frame => FrameFields
  | commit => CommitFields

def domain : MacRole → Byte
  | stream => domainStream
  | frame => domainFrame
  | commit => domainCommit

/-- The updates after the domain byte, one chunk each. -/
def chunks : (role : MacRole) → role.fields → List (List Byte)
  | stream, spans => List.map CoveredSpan.bytes spans
  | frame, ⟨epoch, seq, taggedPrefix⟩ => [epoch.toLeBytes, [seq], taggedPrefix]
  | commit, ⟨epoch, seq, digest, taggedPrefix⟩ =>
      [epoch.toLeBytes, [seq], digest.toBytes, taggedPrefix]

def body (role : MacRole) (fields : role.fields) : List Byte := (role.chunks fields).flatten

theorem body_injective (role : MacRole) : Function.Injective role.body := by
  cases role with
  | stream =>
      intro spans spans' heq
      exact folded_injective heq
  | frame =>
      rintro ⟨epoch, seq, tagged⟩ ⟨epoch', seq', tagged'⟩ heq
      simp only [body, chunks, List.flatten_cons, List.flatten_nil, List.append_nil] at heq
      obtain ⟨hepoch, heq⟩ := List.append_inj heq rfl
      obtain ⟨hseq, htagged⟩ := List.append_inj heq rfl
      obtain rfl := Epoch.toLeBytes_injective hepoch
      obtain rfl := List.singleton_injective hseq
      rw [htagged]
  | commit =>
      rintro ⟨epoch, seq, digest, tagged⟩ ⟨epoch', seq', digest', tagged'⟩ heq
      simp only [body, chunks, List.flatten_cons, List.flatten_nil, List.append_nil] at heq
      obtain ⟨hepoch, heq⟩ := List.append_inj heq rfl
      obtain ⟨hseq, heq⟩ := List.append_inj heq rfl
      obtain ⟨hdigest, htagged⟩ := List.append_inj heq rfl
      obtain rfl := Epoch.toLeBytes_injective hepoch
      obtain rfl := List.singleton_injective hseq
      obtain rfl := Tag.toBytes_injective hdigest
      rw [htagged]

end MacRole

/-- What the MAC absorbs. -/
def macMessage (m : Message MacRole.fields) : List Byte := [m.1.domain] ++ m.1.body m.2

theorem macMessage_injective : Function.Injective macMessage := by
  have hdomain : Function.Injective fun role : MacRole => [role.domain] := by
    intro role role' heq
    cases role <;> cases role' <;> first | rfl | exact absurd heq (by decide)
  have hwidth : ∀ role : MacRole, [role.domain].length = 1 := fun _ => rfl
  exact labelled_injective hwidth hdomain MacRole.body_injective

/-! ### Where the MAC is fed -/

theorem foldl_update_new (key : MacKey) (chunks : List (List Byte)) :
    (chunks.foldl HalfSipHasher.update (HalfSipHasher.new key)).finish =
      mac key chunks.flatten := by
  rw [HalfSipHasher.foldl_update]
  rfl

theorem SecurityContext.frameTag_eq (ctx : SecurityContext) (key : MacKey) (seq : Byte)
    (tagged : List Byte) :
    ctx.frameTag key seq tagged =
      mac key (macMessage ⟨.frame, ⟨ctx.keys.epoch, seq, tagged⟩⟩) :=
  foldl_update_new key ([domainFrame] :: MacRole.chunks .frame ⟨ctx.keys.epoch, seq, tagged⟩)

theorem SecurityContext.commitTag_eq (ctx : SecurityContext) (key : MacKey) (seq : Byte)
    (tagged : List Byte) :
    ctx.commitTag key seq tagged =
      mac key (macMessage ⟨.commit, ⟨ctx.keys.epoch, seq, ctx.stream.digest, tagged⟩⟩) :=
  foldl_update_new key
    ([domainCommit] :: MacRole.chunks .commit ⟨ctx.keys.epoch, seq, ctx.stream.digest, tagged⟩)

/-- The frames folded into a fresh stream, each as its two ring segments. -/
def StreamDigest.ofFrames (key : MacKey) (frames : List (List Byte × List Byte)) : StreamDigest :=
  frames.foldl (fun stream frame => stream.foldFrame frame.1 frame.2) (.new key)

theorem StreamDigest.digest_eq (key : MacKey) {frames : List (List Byte × List Byte)}
    {spans : List CoveredSpan}
    (h : frames.map (fun frame => frame.1 ++ frame.2) = spans.map CoveredSpan.bytes) :
    (StreamDigest.ofFrames key frames).digest = mac key (macMessage ⟨.stream, spans⟩) := by
  have hfold : ∀ stream : StreamDigest,
      (frames.foldl (fun stream frame => stream.foldFrame frame.1 frame.2) stream).hasher =
        (frames.map fun frame => frame.1 ++ frame.2).foldl HalfSipHasher.update
          stream.hasher := by
    clear h
    induction frames with
    | nil => exact fun _ => rfl
    | cons frame frames ih =>
        intro stream
        rw [List.foldl_cons, ih, List.map_cons, List.foldl_cons, HalfSipHasher.update_append]
        rfl
  rw [digest, ofFrames, hfold, h]
  exact foldl_update_new key ([domainStream] :: MacRole.chunks .stream spans)

/-! ## Key derivation messages -/

namespace Label

def unicast : List Byte := [0x4F, 0x53, 0x43, 0x31, 0x55]
def wrap : List Byte := [0x4F, 0x53, 0x43, 0x31, 0x57]
def wrapTag : List Byte := [0x4F, 0x53, 0x43, 0x31, 0x54]

end Label

def nonceLen : ℕ := 16
def wrapLen : ℕ := 16

def unicastKdfMessage (epoch : Epoch) (hostNonce servoNonce : Vector Byte nonceLen) : List Byte :=
  Label.unicast ++ epoch.toLeBytes ++ hostNonce.toList ++ servoNonce.toList

def wrapKdfMessage (epoch : Epoch) (hostNonce : Vector Byte nonceLen) : List Byte :=
  Label.wrap ++ epoch.toLeBytes ++ hostNonce.toList

def wrapTagMessage (epoch : Epoch) (wrapped : Vector Byte wrapLen) : List Byte :=
  Label.wrapTag ++ epoch.toLeBytes ++ wrapped.toList

inductive KdfRole where
  | unicast
  | wrap
  | wrapTag
  deriving DecidableEq

namespace KdfRole

def fields : KdfRole → Type
  | unicast => Epoch × Vector Byte nonceLen × Vector Byte nonceLen
  | wrap => Epoch × Vector Byte nonceLen
  | wrapTag => Epoch × Vector Byte wrapLen

def label : KdfRole → List Byte
  | unicast => Label.unicast
  | wrap => Label.wrap
  | wrapTag => Label.wrapTag

def body : (role : KdfRole) → role.fields → List Byte
  | unicast, (epoch, hostNonce, servoNonce) =>
      epoch.toLeBytes ++ (hostNonce.toList ++ servoNonce.toList)
  | wrap, (epoch, hostNonce) => epoch.toLeBytes ++ hostNonce.toList
  | wrapTag, (epoch, wrapped) => epoch.toLeBytes ++ wrapped.toList

theorem toList_injective {n : ℕ} : Function.Injective (Vector.toList (α := Byte) (n := n)) :=
  fun _ _ heq => Vector.toList_inj.mp heq

theorem body_injective (role : KdfRole) : Function.Injective role.body := by
  have hpair : ∀ {n : ℕ} {epoch epoch' : Epoch} {v v' : Vector Byte n},
      epoch.toLeBytes ++ v.toList = epoch'.toLeBytes ++ v'.toList → epoch = epoch' ∧ v = v' := by
    intro n epoch epoch' v v' heq
    obtain ⟨hepoch, hv⟩ := List.append_inj heq rfl
    exact ⟨Epoch.toLeBytes_injective hepoch, toList_injective hv⟩
  cases role with
  | unicast =>
      rintro ⟨epoch, hostNonce, servoNonce⟩ ⟨epoch', hostNonce', servoNonce'⟩ heq
      obtain ⟨hepoch, hnonces⟩ := List.append_inj heq rfl
      obtain ⟨hhost, hservo⟩ := List.append_inj hnonces (by simp)
      rw [Epoch.toLeBytes_injective hepoch, toList_injective hhost, toList_injective hservo]
  | wrap =>
      rintro ⟨epoch, hostNonce⟩ ⟨epoch', hostNonce'⟩ heq
      obtain ⟨rfl, rfl⟩ := hpair heq
      rfl
  | wrapTag =>
      rintro ⟨epoch, wrapped⟩ ⟨epoch', wrapped'⟩ heq
      obtain ⟨rfl, rfl⟩ := hpair heq
      rfl

end KdfRole

/-- What the secure element is asked to derive from. -/
def kdfMessage : Message KdfRole.fields → List Byte
  | ⟨.unicast, (epoch, hostNonce, servoNonce)⟩ => unicastKdfMessage epoch hostNonce servoNonce
  | ⟨.wrap, (epoch, hostNonce)⟩ => wrapKdfMessage epoch hostNonce
  | ⟨.wrapTag, (epoch, wrapped)⟩ => wrapTagMessage epoch wrapped

theorem kdfMessage_eq (m : Message KdfRole.fields) :
    kdfMessage m = m.1.label ++ m.1.body m.2 := by
  obtain ⟨role, fields⟩ := m
  cases role with
  | unicast =>
      obtain ⟨epoch, hostNonce, servoNonce⟩ := fields
      rw [kdfMessage, unicastKdfMessage, List.append_assoc, List.append_assoc]
      rfl
  | wrap =>
      obtain ⟨epoch, hostNonce⟩ := fields
      rw [kdfMessage, wrapKdfMessage, List.append_assoc]
      rfl
  | wrapTag =>
      obtain ⟨epoch, wrapped⟩ := fields
      rw [kdfMessage, wrapTagMessage, List.append_assoc]
      rfl

theorem kdfMessage_injective : Function.Injective kdfMessage := by
  have hwidth : ∀ role : KdfRole, role.label.length = 5 := by
    intro role
    cases role <;> rfl
  have hlabel : Function.Injective KdfRole.label := by
    intro role role' heq
    cases role <;> cases role' <;> first | rfl | exact absurd heq (by decide)
  have heq : kdfMessage = fun m => m.1.label ++ m.1.body m.2 := funext kdfMessage_eq
  rw [heq]
  exact labelled_injective hwidth hlabel KdfRole.body_injective

end OpenServo.Security
