import OpenServo.Core.Transition
import OpenServo.Table.Persist

/-!
# Two slots in flash

SAVE programs the older of two slots and then swaps their roles; boot picks the
wrapping-newest image that parses.  Power may fail while a slot is erased or
programmed, and a program may fail to verify: the slot then holds the whole image
or something that does not parse.  Either way the other slot is untouched.
-/

namespace OpenServo.Table

open Transition

/-- The two slots, and what the provider remembers in RAM. -/
structure FlashStore where
  slotA : List Byte
  slotB : List Byte
  nextSlot : Slot
  nextSeq : UInt16
  deriving DecidableEq

namespace FlashStore

def slotBytes (store : FlashStore) : Slot → List Byte
  | .a => store.slotA
  | .b => store.slotB

/-- Erase and program a slot; `left` is what it reads as afterwards. -/
def program (store : FlashStore) (slot : Slot) (left : List Byte) : FlashStore :=
  match slot with
  | .a => { store with slotA := left }
  | .b => { store with slotB := left }

/-- Program the older slot, read it back, and swap the roles if it holds what was
written. -/
def save (store : FlashStore) (config profile left : List Byte) : Bool × FlashStore :=
  let stored := store.program store.nextSlot left
  let intact := left.take headerLen == header store.nextSeq config profile &&
    (left.drop headerLen).take configLen == config && left.drop (headerLen + configLen) == profile
  if !intact then (false, stored)
  else (true, { stored with nextSlot := store.nextSlot.other, nextSeq := store.nextSeq + 1 })

/-- Erase both slots and check that they are. -/
def wipe (store : FlashStore) (leftA leftB : List Byte) : Bool × FlashStore :=
  let stored := (store.program .a leftA).program .b leftB
  if (leftA ++ leftB).any (· != 0xFF) then (false, stored)
  else (true, { stored with nextSlot := .a, nextSeq := 1 })

/-- Boot-time load: overlay the table, prime the provider. -/
def bootLoad (store : FlashStore) (t : ControlTable) : FlashStore × ControlTable :=
  let (pick, t) := bootOverlay t store.slotA store.slotB
  ({ store with nextSlot := pick.nextSlot, nextSeq := pick.nextSeq }, t)

/-- A part fresh from the factory, both pages erased. -/
def blank : FlashStore :=
  ⟨List.replicate imageLen 0xFF, List.replicate imageLen 0xFF, .a, 1⟩

/-- The image a SAVE of these regions would program now. -/
def imageOf (store : FlashStore) (t : ControlTable) : List Byte :=
  assemble store.nextSeq (configRegion t) (profileRegion t)

/-- The provider's state after a boot, which the table does not bear on. -/
def rebooted (store : FlashStore) : FlashStore := (store.bootLoad .new).1

end FlashStore

/-! ## Histories -/

/-- A table whose enum and bool bytes are valid, as every live table is. -/
abbrev LiveTable := { t : ControlTable // TypedFields t }

inductive StoreEvent where
  /-- A SAVE that runs to its end; the readback decides. -/
  | save (t : LiveTable) (left : List Byte)
  /-- A SAVE cut by power loss, and the boot that follows. -/
  | saveCut (t : LiveTable) (left : List Byte)
  | wipe (leftA leftB : List Byte)
  /-- A wipe cut by power loss, and the boot that follows. -/
  | wipeCut (leftA leftB : List Byte)
  | reboot

/-- A store with its history: the regions of the last completed SAVE since the
last completed wipe, and whether a wipe was left incomplete since. -/
structure History where
  store : FlashStore
  expected : Option (List Byte × List Byte)
  sure : Bool

namespace History

def regionsOf (t : LiveTable) : List Byte × List Byte := (configRegion t.val, profileRegion t.val)

def step (h : History) : StoreEvent → History
  | .save t left =>
      match h.store.save (configRegion t.val) (profileRegion t.val) left with
      | (true, store) => ⟨store, some (regionsOf t), true⟩
      | (false, store) => { h with store }
  | .saveCut t left =>
      let store := (h.store.program h.store.nextSlot left).rebooted
      if left = h.store.imageOf t.val then ⟨store, some (regionsOf t), true⟩ else { h with store }
  | .wipe leftA leftB =>
      match h.store.wipe leftA leftB with
      | (true, store) => ⟨store, none, true⟩
      | (false, store) => { h with store, sure := false }
  | .wipeCut leftA leftB =>
      { h with store := ((h.store.program .a leftA).program .b leftB).rebooted, sure := false }
  | .reboot => { h with store := h.store.rebooted }

/-- A torn slot fails its check or holds the complete image; an erased one fails
its check or still holds what it held. -/
def Torn (h : History) : StoreEvent → Prop
  | .save t left | .saveCut t left => Image.parse left = none ∨ left = h.store.imageOf t.val
  | .wipe leftA leftB | .wipeCut leftA leftB =>
      (Image.parse leftA = none ∨ leftA = h.store.slotA) ∧
        (Image.parse leftB = none ∨ leftB = h.store.slotB)
  | .reboot => True

instance (h : History) : ∀ event, Decidable (h.Torn event)
  | .save _ _ | .saveCut _ _ => inferInstanceAs (Decidable (_ ∨ _))
  | .wipe _ _ | .wipeCut _ _ => inferInstanceAs (Decidable (_ ∧ _))
  | .reboot => .isTrue trivial

def start : History := ⟨.blank, none, true⟩

end History

/-! ## The alternation -/

namespace FlashStore

/-- The slot last programmed carries the number before the next one, the slot to
be programmed the one before that, as far as they hold images. -/
structure Alternates (store : FlashStore) : Prop where
  newer : ∀ img, Image.parse (store.slotBytes store.nextSlot.other) = some img →
    img.seq = store.nextSeq - 1
  older : ∀ img, Image.parse (store.slotBytes store.nextSlot) = some img →
    img.seq = store.nextSeq - 2

/-- What a boot lays over the table. -/
def current (store : FlashStore) : Option Image :=
  (Image.parse (store.slotBytes store.nextSlot.other)).or
    (Image.parse (store.slotBytes store.nextSlot))

theorem seq_newer (n : UInt16) : ((n - 1) - (n - 2)).toInt16 > 0 := by
  have hone : (n - 1) - (n - 2) = 1 := by grind
  rw [hone]
  decide

theorem seq_older (n : UInt16) : ¬ ((n - 2) - (n - 1)).toInt16 > 0 := by
  have hminus : (n - 2) - (n - 1) = 0xFFFF := by grind
  rw [hminus]
  decide

/-- Across the wrap of the sequence number too, boot picks the slot programmed
last and goes on where the provider stood. -/
theorem newest_of_alternates {store : FlashStore} (h : store.Alternates) :
    newest store.slotA store.slotB =
      match Image.parse (store.slotBytes store.nextSlot.other),
        Image.parse (store.slotBytes store.nextSlot) with
      | some newer, _ => (some newer, store.nextSlot)
      | none, some older => (some older, store.nextSlot.other)
      | none, none => (none, .a) := by
  obtain ⟨slotA, slotB, nextSlot, nextSeq⟩ := store
  cases nextSlot with
  | a =>
      have hnewer := h.newer
      have holder := h.older
      simp only [slotBytes, Slot.other] at hnewer holder ⊢
      cases hA : Image.parse slotA <;> cases hB : Image.parse slotB <;> simp only [newest, hA, hB]
      rename_i older newer
      rw [hnewer newer hB, holder older hA, if_neg (seq_older nextSeq)]
  | b =>
      have hnewer := h.newer
      have holder := h.older
      simp only [slotBytes, Slot.other] at hnewer holder ⊢
      cases hA : Image.parse slotA <;> cases hB : Image.parse slotB <;> simp only [newest, hA, hB]
      rename_i newer older
      rw [hnewer newer hA, holder older hB, if_pos (seq_newer nextSeq)]

theorem rebooted_eq (store : FlashStore) :
    store.rebooted =
      match newest store.slotA store.slotB with
      | (some img, slot) => { store with nextSlot := slot, nextSeq := img.seq + 1 }
      | (none, _) => { store with nextSlot := .a, nextSeq := 1 } := by
  rw [rebooted, bootLoad, bootOverlay]
  obtain ⟨_ | img, slot⟩ := newest store.slotA store.slotB
  · rfl
  · rfl

/-- RAM does not survive: only the slots bear on a boot. -/
theorem rebooted_congr {store store' : FlashStore} (hA : store'.slotA = store.slotA)
    (hB : store'.slotB = store.slotB) : store'.rebooted = store.rebooted := by
  rw [rebooted_eq, rebooted_eq, hA, hB]

theorem slots_rebooted (store : FlashStore) (slot : Slot) :
    store.rebooted.slotBytes slot = store.slotBytes slot := by
  rw [rebooted_eq]
  split <;> cases slot <;> rfl

theorem other_other (slot : Slot) : slot.other.other = slot := by
  cases slot <;> rfl

/-- A boot keeps the alternation and what is current. -/
theorem Alternates.rebooted {store : FlashStore} (h : store.Alternates) :
    store.rebooted.Alternates ∧
      ∀ img, store.current = some img →
        Image.parse (store.rebooted.slotBytes store.rebooted.nextSlot.other) = some img := by
  have hnewest := newest_of_alternates h
  have hslots := store.slots_rebooted
  cases hnewer : Image.parse (store.slotBytes store.nextSlot.other) with
  | some newer =>
      have hstate : store.rebooted.nextSlot = store.nextSlot ∧
          store.rebooted.nextSeq = store.nextSeq := by
        simp only [rebooted_eq, hnewest, hnewer, h.newer newer hnewer, true_and]
        grind
      refine ⟨⟨?_, ?_⟩, ?_⟩
      · rw [hslots, hstate.1, hstate.2]
        exact h.newer
      · rw [hslots, hstate.1, hstate.2]
        exact h.older
      · intro img hcurrent
        rw [current, hnewer, Option.some_or] at hcurrent
        rw [hslots, hstate.1, hnewer, hcurrent]
  | none =>
      cases holder : Image.parse (store.slotBytes store.nextSlot) with
      | some older =>
          have hstate : store.rebooted.nextSlot = store.nextSlot.other ∧
              store.rebooted.nextSeq = store.nextSeq - 1 := by
            simp only [rebooted_eq, hnewest, hnewer, holder, h.older older holder, true_and]
            grind
          have hseq : store.nextSeq - 1 - 1 = store.nextSeq - 2 := by grind
          refine ⟨⟨?_, ?_⟩, ?_⟩
          · rw [hslots, hstate.1, hstate.2, other_other, hseq]
            exact h.older
          · rw [hslots, hstate.1, hnewer]
            intro img hsome
            cases hsome
          · intro img hcurrent
            rw [current, hnewer, holder, Option.none_or] at hcurrent
            rw [hslots, hstate.1, other_other, holder, hcurrent]
      | none =>
          have hslot : ∀ slot, Image.parse (store.slotBytes slot) = none := by
            intro slot
            cases hnext : store.nextSlot <;> rw [hnext] at hnewer holder <;> cases slot <;>
              assumption
          refine ⟨⟨?_, ?_⟩, ?_⟩
          · rw [hslots, hslot]
            intro img hsome
            cases hsome
          · rw [hslots, hslot]
            intro img hsome
            cases hsome
          · intro img hcurrent
            rw [current, hnewer, holder] at hcurrent
            cases hcurrent

/-! ## What an operation leaves -/

theorem slotBytes_program (store : FlashStore) (slot : Slot) (left : List Byte) :
    (store.program slot left).slotBytes slot = left := by
  cases slot <;> rfl

theorem slotBytes_program_other (store : FlashStore) (slot : Slot) (left : List Byte) :
    (store.program slot left).slotBytes slot.other = store.slotBytes slot.other := by
  cases slot <;> rfl

theorem state_program (store : FlashStore) (slot : Slot) (left : List Byte) :
    (store.program slot left).nextSlot = store.nextSlot ∧
      (store.program slot left).nextSeq = store.nextSeq := by
  cases slot <;> exact ⟨rfl, rfl⟩

/-- The store once the image of the next SAVE stands in its slot. -/
def swapped (store : FlashStore) (left : List Byte) : FlashStore :=
  { store.program store.nextSlot left with
    nextSlot := store.nextSlot.other
    nextSeq := store.nextSeq + 1 }

theorem slotBytes_swapped (store : FlashStore) (left : List Byte) (slot : Slot) :
    (store.swapped left).slotBytes slot = (store.program store.nextSlot left).slotBytes slot := by
  cases slot <;> rfl

theorem length_regions (t : ControlTable) :
    (configRegion t).length = configLen ∧ (profileRegion t).length = profileLen := by
  have hlen := t.length_eq
  have hsize : controlMap.size = 1024 := by decide +kernel
  simp only [configRegion, profileRegion, List.length_take, List.length_drop, hlen, hsize]
  exact ⟨by decide, by decide⟩

/-- The readback passes exactly on the image that was to be written. -/
theorem save_eq (store : FlashStore) (t : ControlTable) (left : List Byte) :
    store.save (configRegion t) (profileRegion t) left =
      if left = store.imageOf t then (true, store.swapped left)
      else (false, store.program store.nextSlot left) := by
  obtain ⟨hconfig, hprofile⟩ := length_regions t
  have hintact : (left.take headerLen ==
        header store.nextSeq (configRegion t) (profileRegion t) &&
      (left.drop headerLen).take configLen == configRegion t &&
      left.drop (headerLen + configLen) == profileRegion t) = true ↔ left = store.imageOf t := by
    simp only [Bool.and_eq_true, beq_iff_eq]
    constructor
    · rintro ⟨⟨hhead, hbody⟩, htail⟩
      rw [imageOf, assemble, ← hhead, ← hbody, ← htail, ← List.drop_drop, List.append_assoc,
        List.take_append_drop, List.take_append_drop]
    · rintro rfl
      have hhead := length_header store.nextSeq (configRegion t) (profileRegion t)
      have hsplit : (store.imageOf t).drop headerLen = configRegion t ++ profileRegion t := by
        rw [imageOf, assemble, List.append_assoc, ← hhead, List.drop_left]
      refine ⟨⟨?_, ?_⟩, ?_⟩
      · rw [imageOf, assemble, List.append_assoc, ← hhead, List.take_left]
      · rw [hsplit, ← hconfig, List.take_left]
      · rw [← List.drop_drop, hsplit, ← hconfig, List.drop_left]
  simp only [save]
  by_cases himage : left = store.imageOf t
  · rw [hintact.mpr himage, if_pos himage]
    rfl
  · rw [Bool.eq_false_iff.mpr (fun h => himage (hintact.mp h)), if_neg himage]
    rfl

/-- Erased flash is no image. -/
theorem parse_erased {left : List Byte} (h : ∀ b ∈ left, b = 0xFF) : Image.parse left = none := by
  simp only [Image.parse]
  split
  · rfl
  · rename_i hlength
    have hmagic : ((left.take imageLen).getD 0 0 != imageMagic) = true := by
      cases left with
      | nil => exact absurd (by decide) hlength
      | cons b left =>
          have hfirst : ((b :: left).take imageLen).getD 0 0 = b := rfl
          rw [hfirst, h b List.mem_cons_self]
          decide
    rw [hmagic, Bool.true_or, if_pos rfl]

namespace Alternates

variable {store : FlashStore}

theorem swapped (h : store.Alternates) (t : LiveTable) :
    (store.swapped (store.imageOf t.val)).Alternates ∧
      Image.parse ((store.swapped (store.imageOf t.val)).slotBytes store.nextSlot) =
        some ⟨store.nextSeq, configRegion t.val, profileRegion t.val⟩ := by
  obtain ⟨hconfig, hprofile⟩ := length_regions t.val
  have hparse := parse_assemble hconfig hprofile (t.property.fieldsAllowed store.nextSeq)
  have hslot : (store.swapped (store.imageOf t.val)).slotBytes store.nextSlot =
      store.imageOf t.val := by
    rw [slotBytes_swapped, slotBytes_program]
  refine ⟨⟨?_, ?_⟩, by rw [hslot]; exact hparse⟩
  · intro img himg
    have hother : (store.swapped (store.imageOf t.val)).nextSlot.other = store.nextSlot :=
      other_other store.nextSlot
    rw [hother, hslot] at himg
    obtain rfl := Option.some.inj (hparse.symm.trans himg)
    show store.nextSeq = store.nextSeq + 1 - 1
    grind
  · intro img himg
    have hnext : (store.swapped (store.imageOf t.val)).slotBytes store.nextSlot.other =
        store.slotBytes store.nextSlot.other := by
      rw [slotBytes_swapped, slotBytes_program_other]
    have hseq := h.newer img (hnext ▸ himg)
    show img.seq = store.nextSeq + 1 - 2
    rw [hseq]
    grind

/-- A torn program costs the older slot alone. -/
theorem torn (h : store.Alternates) {left : List Byte} (hleft : Image.parse left = none) :
    (store.program store.nextSlot left).Alternates := by
  obtain ⟨hslot, hseq⟩ := store.state_program store.nextSlot left
  constructor
  · rw [hslot, hseq, slotBytes_program_other]
    exact h.newer
  · rw [hslot, slotBytes_program, hleft]
    intro img hsome
    cases hsome

/-- Slots that are erased, torn or untouched. -/
theorem erased (h : store.Alternates) {leftA leftB : List Byte}
    (hA : Image.parse leftA = none ∨ leftA = store.slotA)
    (hB : Image.parse leftB = none ∨ leftB = store.slotB) :
    ((store.program .a leftA).program .b leftB).Alternates := by
  have hslots : ∀ slot img,
      Image.parse (((store.program .a leftA).program .b leftB).slotBytes slot) = some img →
        Image.parse (store.slotBytes slot) = some img := by
    intro slot img himg
    cases slot with
    | a =>
        obtain hnone | rfl := hA
        · exact absurd (hnone.symm.trans himg) (by simp)
        · exact himg
    | b =>
        obtain hnone | rfl := hB
        · exact absurd (hnone.symm.trans himg) (by simp)
        · exact himg
  exact ⟨fun img himg => h.newer img (hslots _ img himg),
    fun img himg => h.older img (hslots _ img himg)⟩

end Alternates

end FlashStore

namespace History

/-- The alternation holds, and what is expected is what a boot would load. -/
structure Tracks (h : History) : Prop where
  alternates : h.store.Alternates
  nothing : h.sure = true → h.expected = none → ∀ slot, Image.parse (h.store.slotBytes slot) = none
  something : h.sure = true → ∀ regions, h.expected = some regions →
    ∃ seq, Image.parse (h.store.slotBytes h.store.nextSlot.other) =
      some ⟨seq, regions.1, regions.2⟩

/-- A boot keeps track. -/
theorem Tracks.reboot {h : History} (htracks : h.Tracks) :
    Tracks { h with store := h.store.rebooted } := by
  obtain ⟨halternates, hcurrent⟩ := htracks.alternates.rebooted
  refine ⟨halternates, ?_, ?_⟩
  · intro hsure hnone slot
    show Image.parse (h.store.rebooted.slotBytes slot) = none
    rw [FlashStore.slots_rebooted]
    exact htracks.nothing hsure hnone slot
  · intro hsure regions hsome
    obtain ⟨seq, himg⟩ := htracks.something hsure regions hsome
    refine ⟨seq, hcurrent _ ?_⟩
    rw [FlashStore.current, himg, Option.some_or]

/-- The history once a SAVE has left its whole image. -/
theorem Tracks.saved {h : History} (htracks : h.Tracks) (t : LiveTable) :
    Tracks ⟨h.store.swapped (h.store.imageOf t.val), some (regionsOf t), true⟩ := by
  obtain ⟨halternates, himg⟩ := htracks.alternates.swapped t
  refine ⟨halternates, fun _ hnone => (by cases hnone), ?_⟩
  intro _ regions hsome
  obtain rfl := Option.some.inj hsome
  refine ⟨h.store.nextSeq, ?_⟩
  have hother : (h.store.swapped (h.store.imageOf t.val)).nextSlot.other = h.store.nextSlot :=
    FlashStore.other_other h.store.nextSlot
  rw [hother]
  exact himg

/-- The history once a SAVE has left a slot that does not parse. -/
theorem Tracks.torn {h : History} (htracks : h.Tracks) {left : List Byte}
    (hleft : Image.parse left = none) :
    Tracks { h with store := h.store.program h.store.nextSlot left } := by
  obtain ⟨hslot, -⟩ := h.store.state_program h.store.nextSlot left
  refine ⟨htracks.alternates.torn hleft, ?_, ?_⟩
  · intro hsure hnone slot
    have hold := htracks.nothing hsure hnone slot
    show Image.parse ((h.store.program h.store.nextSlot left).slotBytes slot) = none
    by_cases hsame : slot = h.store.nextSlot
    · rw [hsame, FlashStore.slotBytes_program, hleft]
    · have hother : slot = h.store.nextSlot.other := by
        cases slot <;> cases hnext : h.store.nextSlot <;> simp_all [Slot.other]
      rw [hother, FlashStore.slotBytes_program_other, ← hother]
      exact hold
  · intro hsure regions hsome
    show ∃ seq, Image.parse ((h.store.program h.store.nextSlot left).slotBytes
      (h.store.program h.store.nextSlot left).nextSlot.other) = _
    rw [hslot, FlashStore.slotBytes_program_other]
    exact htracks.something hsure regions hsome

theorem Tracks.step {h : History} (htracks : h.Tracks) {event : StoreEvent}
    (htorn : h.Torn event) : (h.step event).Tracks := by
  cases event with
  | save t left =>
      simp only [History.step, FlashStore.save_eq]
      by_cases himage : left = h.store.imageOf t.val
      · rw [if_pos himage, himage]
        exact htracks.saved t
      · rw [if_neg himage]
        exact htracks.torn (htorn.resolve_right himage)
  | saveCut t left =>
      simp only [History.step]
      by_cases himage : left = h.store.imageOf t.val
      · rw [if_pos himage, himage]
        have hsame : (h.store.program h.store.nextSlot (h.store.imageOf t.val)).rebooted =
            (h.store.swapped (h.store.imageOf t.val)).rebooted :=
          FlashStore.rebooted_congr rfl rfl
        rw [hsame]
        exact (htracks.saved t).reboot
      · rw [if_neg himage]
        exact (htracks.torn (htorn.resolve_right himage)).reboot
  | wipe leftA leftB =>
      simp only [History.step, FlashStore.wipe]
      split
      · rename_i store hwipe
        split at hwipe
        · cases hwipe
        · rename_i herased
          obtain ⟨-, rfl⟩ := Prod.mk.inj hwipe
          rw [Bool.not_eq_true, List.any_eq_false] at herased
          have hbyte : ∀ b ∈ leftA ++ leftB, b = 0xFF := by
            intro b hmem
            have hne := herased b hmem
            simpa using hne
          have hslots : ∀ slot, Image.parse
              (((h.store.program .a leftA).program .b leftB).slotBytes slot) = none := by
            intro slot
            cases slot with
            | a => exact FlashStore.parse_erased fun b hmem => hbyte b (List.mem_append_left _ hmem)
            | b =>
                exact FlashStore.parse_erased fun b hmem => hbyte b (List.mem_append_right _ hmem)
          refine ⟨⟨?_, ?_⟩, fun _ _ => hslots, fun _ regions hsome => by cases hsome⟩
          · intro img himg
            exact absurd ((hslots .b).symm.trans himg) (by simp)
          · intro img himg
            exact absurd ((hslots .a).symm.trans himg) (by simp)
      · rename_i store hwipe
        split at hwipe
        · obtain ⟨-, rfl⟩ := Prod.mk.inj hwipe
          exact ⟨htracks.alternates.erased htorn.1 htorn.2, fun hsure => (by cases hsure),
            fun hsure => (by cases hsure)⟩
        · cases hwipe
  | wipeCut leftA leftB =>
      exact ⟨(htracks.alternates.erased htorn.1 htorn.2).rebooted.1, fun hsure => (by cases hsure),
        fun hsure => (by cases hsure)⟩
  | reboot => exact htracks.reboot

theorem tracks_start : start.Tracks := by
  have hblank : ∀ slot, Image.parse (FlashStore.blank.slotBytes slot) = none := by
    intro slot
    cases slot <;> exact FlashStore.parse_erased fun b hmem => List.eq_of_mem_replicate hmem
  refine ⟨⟨?_, ?_⟩, fun _ _ => hblank, fun _ regions hsome => by cases hsome⟩
  · intro img himg
    exact absurd ((hblank .b).symm.trans himg) (by simp)
  · intro img himg
    exact absurd ((hblank .a).symm.trans himg) (by simp)

/-- What a boot makes of a table when these regions are expected. -/
def loaded (t : ControlTable) : Option (List Byte × List Byte) → ControlTable
  | some (config, profile) => overlayPersistent t config profile
  | none => t

/-- After any history of SAVEs that complete, fail to verify or lose power, of
wipes and of boots: unless a wipe was left incomplete since, a boot lays exactly
the regions of the last completed SAVE since the last completed wipe over the
table, and nothing if there is none. -/
theorem boot_loads_the_last_save {events : List StoreEvent}
    (htorn : Meets step Torn start events) :
    let h := run step start events
    h.sure = true → ∀ t, (h.store.bootLoad t).2 = loaded t h.expected := by
  intro h hsure t
  have htracks : h.Tracks := Meets.invariant step Tracks
    (fun _ _ htracks htorn => htracks.step htorn) tracks_start htorn
  have hnewest := FlashStore.newest_of_alternates htracks.alternates
  cases hexpected : h.expected with
  | none =>
      have hnone := htracks.nothing hsure hexpected
      rw [hnone, hnone] at hnewest
      simp only [FlashStore.bootLoad, bootOverlay, hnewest, loaded]
  | some regions =>
      obtain ⟨seq, himg⟩ := htracks.something hsure regions hexpected
      rw [himg] at hnewest
      simp only [FlashStore.bootLoad, bootOverlay, hnewest, loaded]

/-! ### On the bench -/

/-- A live table that is all zeros but for its ID. -/
def benchTable (id : Byte) : ControlTable := ControlTable.new.set Addr.id id

/-- A SAVE whose image the slot took. -/
theorem step_save_image (h : History) (t : LiveTable) :
    h.step (.save t (h.store.imageOf t.val)) =
      ⟨h.store.swapped (h.store.imageOf t.val), some (regionsOf t), true⟩ := by
  simp only [step, FlashStore.save_eq, if_true]

/-- A SAVE, one that loses power half-way, and one that fails to verify. -/
theorem boot_loads_the_bench_save :
    let five : LiveTable := ⟨benchTable 5, by decide +kernel⟩
    let events := [.save five (start.store.imageOf five.val), .saveCut five [], .save five [0x43]]
    ((run step start events).store.bootLoad .new).2 =
      loaded .new (run step start events).expected := by
  intro five events
  have htorn : Meets step Torn start events := ⟨.inr rfl, .inl rfl, .inl rfl, trivial⟩
  have hsure : (run step start events).sure = true := by
    have hcut : ∀ h : History, (h.step (.saveCut five [])).sure = h.sure := by
      intro h
      simp only [step]
      rw [if_neg (fun himage => by cases himage)]
    have hfail : ∀ h : History, (h.step (.save five [0x43])).sure = h.sure := by
      intro h
      simp only [step, FlashStore.save_eq]
      rw [if_neg (fun himage => by cases himage)]
    simp only [events, run_cons, run_nil, hfail, hcut, step_save_image]
  exact boot_loads_the_last_save htorn hsure .new

/-- Slot A went first, and slot B still holds an image. -/
theorem bootLoad_wipeCut {h : History} {seq : UInt16} {t : LiveTable}
    (hslotB : h.store.slotB = assemble seq (configRegion t.val) (profileRegion t.val)) :
    ((h.step (.wipeCut [] h.store.slotB)).store.bootLoad .new).2 =
      overlayPersistent .new (configRegion t.val) (profileRegion t.val) := by
  obtain ⟨hconfig, hprofile⟩ := FlashStore.length_regions t.val
  have hparse := parse_assemble hconfig hprofile (t.property.fieldsAllowed seq)
  have hslots := FlashStore.slots_rebooted ((h.store.program .a []).program .b h.store.slotB)
  have hA : (h.step (.wipeCut [] h.store.slotB)).store.slotA = [] := hslots .a
  have hB : (h.step (.wipeCut [] h.store.slotB)).store.slotB =
      assemble seq (configRegion t.val) (profileRegion t.val) := (hslots .b).trans hslotB
  have hnone : Image.parse [] = none := rfl
  simp only [FlashStore.bootLoad, bootOverlay, newest]
  rw [hA, hB, hnone, hparse]

/-- A wipe that loses power between the two slots brings back the SAVE before the
last. -/
theorem cut_wipe_resurrects :
    ¬ ∀ events, Meets step Torn start events → ∀ t,
      ((run step start events).store.bootLoad t).2 = loaded t (run step start events).expected := by
  intro hclaim
  obtain ⟨five, hfive⟩ : ∃ t : LiveTable, t.val = benchTable 5 := ⟨⟨_, by decide +kernel⟩, rfl⟩
  obtain ⟨six, hsix⟩ : ∃ t : LiveTable, t.val = benchTable 6 := ⟨⟨_, by decide +kernel⟩, rfl⟩
  obtain ⟨seven, hseven⟩ : ∃ t : LiveTable, t.val = benchTable 7 := ⟨⟨_, by decide +kernel⟩, rfl⟩
  obtain ⟨first, hfirst⟩ : ∃ h, start.step (.save five (start.store.imageOf five.val)) = h :=
    ⟨_, rfl⟩
  obtain ⟨second, hsecond⟩ : ∃ h, first.step (.save six (first.store.imageOf six.val)) = h :=
    ⟨_, rfl⟩
  obtain ⟨third, hthird⟩ : ∃ h, second.step (.save seven (second.store.imageOf seven.val)) = h :=
    ⟨_, rfl⟩
  have hloads := hclaim [.save five (start.store.imageOf five.val),
    .save six (first.store.imageOf six.val), .save seven (second.store.imageOf seven.val),
    .wipeCut [] third.store.slotB]
  simp only [Meets, run_cons, run_nil, hfirst, hsecond, hthird] at hloads
  have htorn := hloads ⟨.inr rfl, .inr rfl, .inr rfl, ⟨.inl rfl, .inr rfl⟩, trivial⟩ .new
  rw [step_save_image] at hfirst hsecond hthird
  have hslotB : third.store.slotB = assemble 2 (configRegion six.val) (profileRegion six.val) := by
    rw [← hthird, ← hsecond, ← hfirst]
    rfl
  have hexpected :
      (third.step (.wipeCut [] third.store.slotB)).expected = some (regionsOf seven) := by
    rw [← hthird]
    rfl
  rw [bootLoad_wipeCut hslotB, hexpected] at htorn
  have hid := congrArg (fun t : ControlTable => t.get Addr.id) htorn
  simp only [loaded, regionsOf, hsix, hseven] at hid
  have hne : (overlayPersistent .new (configRegion (benchTable 6))
        (profileRegion (benchTable 6))).get Addr.id ≠
      (overlayPersistent .new (configRegion (benchTable 7))
        (profileRegion (benchTable 7))).get Addr.id := by
    decide +kernel
  exact hne hid

end History

end OpenServo.Table
