import OpenServo.Protocol.Crc
import OpenServo.Table.Validity

/-!
# The saved image

One image holds the config and profile regions behind an eight-byte header with
a sequence number and a CRC.  A slot is read back only if every gate passes:
magic, version, length, CRC, and a last pass over the bytes that back enum and
bool fields.  At boot the wrapping-newest valid slot is laid over the table.
-/

namespace OpenServo.Table

def configLen : ℕ := configRegionSize
def profileLen : ℕ := profileRegionSize
def headerLen : ℕ := 8
def imageLen : ℕ := headerLen + configLen + profileLen

def imageMagic : Byte := 0x43
def imageVersion : Byte := 1

theorem fromLeBytes16_leBytes16 (v : UInt16) :
    fromLeBytes16 v.toUInt8 (v >>> 8).toUInt8 = v := by
  have hv := v.toNat_lt
  apply UInt16.toNat_inj.mp
  have hnat : (fromLeBytes16 v.toUInt8 (v >>> 8).toUInt8).toNat =
      v.toNat % 256 ||| ((v.toNat >>> 8 % 256) <<< 8 % 65536) := by
    simp [fromLeBytes16]
  rw [hnat, Nat.shiftRight_eq_div_pow, Nat.shiftLeft_eq, Nat.or_comm,
    Nat.mod_eq_of_lt (show v.toNat / 2 ^ 8 % 256 * 2 ^ 8 < 65536 by omega), Nat.mul_comm,
    ← Nat.two_pow_add_eq_or_of_lt (show v.toNat % 256 < 2 ^ 8 by omega)]
  omega

inductive Slot where
  | a
  | b
  deriving DecidableEq, Repr

def Slot.other : Slot → Slot
  | .a => .b
  | .b => .a

/-- Store state found at boot: the slot the next SAVE programs, the sequence
number it carries, and whether an image was laid over the table. -/
structure BootPick where
  nextSlot : Slot
  nextSeq : UInt16
  loaded : Bool
  deriving DecidableEq, Repr

/-- The header of an image whose body is `config ++ profile`. -/
def header (seq : UInt16) (config profile : List Byte) : List Byte :=
  let h := [imageMagic, imageVersion] ++ leBytes16 seq ++
    leBytes16 (UInt16.ofNat (configLen + profileLen))
  h ++ leBytes16 (Crc.oscCrcContinue (Crc.oscCrcContinue (Crc.oscCrc h) config) profile)

/-- A whole image. -/
def assemble (seq : UInt16) (config profile : List Byte) : List Byte :=
  header seq config profile ++ config ++ profile

structure Image where
  seq : UInt16
  config : List Byte
  profile : List Byte
  deriving DecidableEq, Repr

namespace Image

def persistedByte (img : Image) (addr : ℕ) : Option Byte :=
  if configBaseAddr ≤ addr ∧ addr < configBaseAddr + configRegionSize then
    some (img.config.getD (addr - configBaseAddr) 0)
  else if profileBaseAddr ≤ addr ∧ addr < profileBaseAddr + profileRegionSize then
    some (img.profile.getD (addr - profileBaseAddr) 0)
  else none

/-- Every enum or bool byte of the persisted regions is an allowed one. -/
def fieldsAllowed (img : Image) : Bool :=
  controlMap.allowedRules.all fun r =>
    match img.persistedByte r.addr with
    | some b => r.allowed.contains b
    | none => true

/-- Validate a slot; bytes past the image are ignored. -/
def parse (slot : List Byte) : Option Image :=
  if slot.length < imageLen then none
  else
    let bytes := slot.take imageLen
    if bytes.getD 0 0 != imageMagic || bytes.getD 1 0 != imageVersion then none
    else
      let seq := fromLeBytes16 (bytes.getD 2 0) (bytes.getD 3 0)
      if fromLeBytes16 (bytes.getD 4 0) (bytes.getD 5 0) != UInt16.ofNat (configLen + profileLen)
      then none
      else
        let crc := fromLeBytes16 (bytes.getD 6 0) (bytes.getD 7 0)
        if Crc.oscCrcContinue (Crc.oscCrc (bytes.take 6)) (bytes.drop headerLen) != crc then none
        else
          let img : Image :=
            ⟨seq, (bytes.drop headerLen).take configLen, bytes.drop (headerLen + configLen)⟩
          if img.fieldsAllowed then some img else none

end Image

/-- Raw copy of an image over the table, the identity front left out. -/
def overlayPersistent (t : ControlTable) (config profile : List Byte) : ControlTable :=
  (t.copy (configBaseAddr + Addr.id) (config.drop Addr.id)).copy profileBaseAddr profile

/-- The newest valid image and the slot the next SAVE programs. -/
def newest (slotA slotB : List Byte) : Option Image × Slot :=
  match Image.parse slotA, Image.parse slotB with
  | some a, some b => if (a.seq - b.seq).toInt16 > 0 then (some a, .b) else (some b, .a)
  | some a, none => (some a, .b)
  | none, b => (b, .a)

/-- Boot-time load. -/
def bootOverlay (t : ControlTable) (slotA slotB : List Byte) : BootPick × ControlTable :=
  match newest slotA slotB with
  | (some img, nextSlot) =>
      (⟨nextSlot, img.seq + 1, true⟩, overlayPersistent t img.config img.profile)
  | (none, _) => (⟨.a, 1, false⟩, t)

/-! ## What parses -/

theorem length_header (seq : UInt16) (config profile : List Byte) :
    (header seq config profile).length = headerLen := rfl

/-- An assembled image reads back as what it was made of. -/
theorem parse_assemble {seq : UInt16} {config profile : List Byte}
    (hconfig : config.length = configLen) (hprofile : profile.length = profileLen)
    (hallowed : (Image.mk seq config profile).fieldsAllowed = true) :
    Image.parse (assemble seq config profile) = some ⟨seq, config, profile⟩ := by
  have hlength : (assemble seq config profile).length = imageLen := by
    simp only [assemble, List.length_append, length_header, hconfig, hprofile, imageLen]
  have hbody : (assemble seq config profile).drop headerLen = config ++ profile := by
    rw [assemble, List.append_assoc, ← length_header seq config profile, List.drop_left]
  have htail : (assemble seq config profile).drop (headerLen + configLen) = profile := by
    rw [← List.drop_drop, hbody, ← hconfig, List.drop_left]
  have hcrc : Crc.oscCrcContinue (Crc.oscCrc ((assemble seq config profile).take 6))
      (config ++ profile) =
        fromLeBytes16 ((assemble seq config profile).getD 6 0)
          ((assemble seq config profile).getD 7 0) := by
    rw [Crc.oscCrcContinue_append]
    exact (fromLeBytes16_leBytes16 _).symm
  have hseq : fromLeBytes16 ((assemble seq config profile).getD 2 0)
      ((assemble seq config profile).getD 3 0) = seq := fromLeBytes16_leBytes16 seq
  have hlen : fromLeBytes16 ((assemble seq config profile).getD 4 0)
      ((assemble seq config profile).getD 5 0) = UInt16.ofNat (configLen + profileLen) :=
    fromLeBytes16_leBytes16 _
  have hmagic : (assemble seq config profile).getD 0 0 = imageMagic := rfl
  have hversion : (assemble seq config profile).getD 1 0 = imageVersion := rfl
  rw [Image.parse, if_neg (by omega)]
  simp only [List.take_of_length_le hlength.le, hmagic, hversion, hseq, hlen, hbody, hcrc, htail,
    bne_self_eq_false, Bool.or_false, Bool.false_eq_true, if_false]
  rw [← hconfig, List.take_left, if_pos hallowed]

/-- An image that parsed has whole regions and only allowed enum and bool bytes. -/
theorem facts_of_parse {slot : List Byte} {img : Image} (h : Image.parse slot = some img) :
    img.config.length = configLen ∧ img.profile.length = profileLen ∧ img.fieldsAllowed = true := by
  simp only [Image.parse] at h
  split at h
  · cases h
  rename_i hlength
  split at h
  · cases h
  split at h
  · cases h
  split at h
  · cases h
  split at h
  · rename_i hallowed
    obtain rfl := Option.some.inj h
    have htake : (slot.take imageLen).length = imageLen := by
      rw [List.length_take]
      omega
    refine ⟨?_, ?_, hallowed⟩
    · rw [List.length_take, List.length_drop, htake]
      decide
    · rw [List.length_drop, htake]
      decide
  · cases h

/-! ## Bytes behind enum and bool fields -/

/-- Every byte behind an enum or bool field is one of its allowed values. -/
def TypedFields (t : ControlTable) : Prop := ∀ r ∈ controlMap.allowedRules, r.Holds t

instance (t : ControlTable) : Decidable (TypedFields t) :=
  inferInstanceAs (Decidable (∀ r ∈ controlMap.allowedRules, t.get r.addr ∈ r.allowed))

/-- A copy that puts only allowed bytes behind such fields. -/
theorem TypedFields.copy {t : ControlTable} (h : TypedFields t) {addr : ℕ} {data : List Byte}
    (hdata : ∀ r ∈ controlMap.allowedRules, addr ≤ r.addr → r.addr < addr + data.length →
      data.getD (r.addr - addr) 0 ∈ r.allowed) : TypedFields (t.copy addr data) := by
  intro r hmem
  by_cases hfits : addr + data.length ≤ controlMap.size
  · rw [AllowedRule.Holds, Storage.get_copy hfits]
    split
    · rename_i hin
      exact hdata r hmem hin.1 hin.2
    · exact h r hmem
  · rw [Storage.copy, dif_neg hfits]
    exact h r hmem

/-- A copy beside such fields. -/
theorem TypedFields.copy_beside {t : ControlTable} (h : TypedFields t) {addr : ℕ}
    {data : List Byte}
    (hbeside : ∀ r ∈ controlMap.allowedRules, ¬ (addr ≤ r.addr ∧ r.addr < addr + data.length)) :
    TypedFields (t.copy addr data) :=
  h.copy fun r hmem hlow hhigh => absurd ⟨hlow, hhigh⟩ (hbeside r hmem)

/-- The regions of a table, as SAVE reads them. -/
def configRegion (t : ControlTable) : List Byte :=
  (t.bytes.drop configBaseAddr).take configRegionSize
def profileRegion (t : ControlTable) : List Byte :=
  (t.bytes.drop profileBaseAddr).take profileRegionSize

theorem getD_region {t : ControlTable} {base size i : ℕ} (hi : i < size) :
    ((t.bytes.drop base).take size).getD i 0 = t.get (base + i) := by
  rw [List.getD_eq_getElem?_getD, List.getElem?_take_of_lt hi, List.getElem?_drop, Storage.get,
    List.getD_eq_getElem?_getD]

/-- A table with valid fields makes an image that parses. -/
theorem TypedFields.fieldsAllowed {t : ControlTable} (h : TypedFields t) (seq : UInt16) :
    (Image.mk seq (configRegion t) (profileRegion t)).fieldsAllowed = true := by
  simp only [Image.fieldsAllowed, List.all_eq_true]
  intro r hmem
  simp only [Image.persistedByte]
  split
  · rename_i b hbyte
    rw [List.contains_iff_mem]
    split at hbyte
    · rename_i hin
      obtain rfl := Option.some.inj hbyte
      rw [configRegion, getD_region (by omega), Nat.add_sub_cancel' hin.1]
      exact h r hmem
    · split at hbyte
      · rename_i hin
        obtain rfl := Option.some.inj hbyte
        rw [profileRegion, getD_region (by omega), Nat.add_sub_cancel' hin.1]
        exact h r hmem
      · cases hbyte
  · rfl

theorem TypedFields.overlayPersistent {t : ControlTable} (h : TypedFields t) {img : Image}
    (hconfig : img.config.length = configLen) (hprofile : img.profile.length = profileLen)
    (hallowed : img.fieldsAllowed = true) :
    TypedFields (overlayPersistent t img.config img.profile) := by
  rw [Image.fieldsAllowed, List.all_eq_true] at hallowed
  have hconst : configBaseAddr = 0 ∧ configLen = 128 ∧ profileLen = 64 ∧ Addr.id = 16 ∧
      configRegionSize = 128 ∧ profileRegionSize = 64 ∧ profileBaseAddr = 640 := by decide
  refine (h.copy ?_).copy ?_
  · intro r hmem hlow hhigh
    have hbyte := hallowed r hmem
    rw [List.length_drop] at hhigh
    rw [Image.persistedByte, if_pos (by omega)] at hbyte
    rw [List.getD_eq_getElem?_getD, List.getElem?_drop, ← List.getD_eq_getElem?_getD]
    rw [List.contains_iff_mem] at hbyte
    convert hbyte using 2
    omega
  · intro r hmem hlow hhigh
    have hbyte := hallowed r hmem
    rw [Image.persistedByte, if_neg (by omega), if_pos (by omega)] at hbyte
    exact List.contains_iff_mem.mp hbyte

theorem parse_newest {slotA slotB : List Byte} {img : Image} {slot : Slot}
    (h : newest slotA slotB = (some img, slot)) :
    Image.parse slotA = some img ∨ Image.parse slotB = some img := by
  simp only [newest] at h
  split at h
  · rename_i a b hA hB
    split at h
    · obtain ⟨hsome, -⟩ := Prod.mk.inj h
      exact .inl (hA.trans hsome)
    · obtain ⟨hsome, -⟩ := Prod.mk.inj h
      exact .inr (hB.trans hsome)
  · rename_i a hA hB
    obtain ⟨hsome, -⟩ := Prod.mk.inj h
    exact .inl (hA.trans hsome)
  · rename_i hA
    obtain ⟨hsome, -⟩ := Prod.mk.inj h
    exact .inr hsome

/-- Whatever the slots hold, boot keeps the fields valid. -/
theorem TypedFields.bootOverlay {t : ControlTable} (h : TypedFields t) (slotA slotB : List Byte) :
    TypedFields (bootOverlay t slotA slotB).2 := by
  simp only [Table.bootOverlay]
  split
  · rename_i img slot hnewest
    have hparse := parse_newest hnewest
    obtain ⟨hconfig, hprofile, hallowed⟩ := hparse.elim facts_of_parse facts_of_parse
    exact h.overlayPersistent hconfig hprofile hallowed
  · exact h

end OpenServo.Table
