import OpenServo.Core.Transition
import OpenServo.Dispatch.Dispatcher
import OpenServo.Table.Persist

/-!
# Enum and bool bytes over every table operation

A typed read of the table is sound only while every byte behind an enum or bool
field is one of its allowed values.  The bytes change through direct writes,
through entries that were validated on one table and land on another, through
ASSIGN and through an image from flash; each is checked in its own way, and none
can put another byte there.
-/

namespace OpenServo.Table

open Transition

/-! ## The buffer as the list it holds -/

namespace StagedWrites

/-- The entry records of a packed list, from arena offset `off` on. -/
def entriesOf : ℕ → List (ℕ × List Byte) → List StagedEntry
  | _, [] => []
  | off, (addr, bytes) :: items => ⟨addr, bytes.length, off⟩ :: entriesOf (off + bytes.length) items

def arena (items : List (ℕ × List Byte)) : List Byte := (items.map Prod.snd).flatten

/-- The buffer holds exactly these items, packed from the arena's start. -/
structure Represents (staged : StagedWrites) (items : List (ℕ × List Byte)) : Prop where
  data : staged.data.val = arena items
  entries : staged.entries.val = entriesOf 0 items

/-- The watermarks after the first `n` items. -/
def markAt (items : List (ℕ × List Byte)) (n : ℕ) : Snapshot := ⟨(arena (items.take n)).length, n⟩

theorem arena_append (left right : List (ℕ × List Byte)) :
    arena (left ++ right) = arena left ++ arena right := by
  simp [arena]

theorem entriesOf_append (off : ℕ) (left right : List (ℕ × List Byte)) :
    entriesOf off (left ++ right) =
      entriesOf off left ++ entriesOf (off + (arena left).length) right := by
  induction left generalizing off with
  | nil => rfl
  | cons item left ih =>
      obtain ⟨addr, bytes⟩ := item
      simp only [List.cons_append, entriesOf, ih, arena, List.map_cons, List.flatten_cons,
        List.length_append, Nat.add_assoc]

theorem length_entriesOf (off : ℕ) (items : List (ℕ × List Byte)) :
    (entriesOf off items).length = items.length := by
  induction items generalizing off with
  | nil => rfl
  | cons item items ih => simp [entriesOf, ih]

/-- Each record reads its own bytes back. -/
theorem map_item_entriesOf {staged : StagedWrites} (before items : List (ℕ × List Byte))
    (hdata : staged.data.val = arena (before ++ items)) :
    (entriesOf (arena before).length items).map staged.item = items := by
  induction items generalizing before with
  | nil => rfl
  | cons item items ih =>
      obtain ⟨addr, bytes⟩ := item
      have hnext :
          (arena before).length + bytes.length = (arena (before ++ [(addr, bytes)])).length := by
        simp [arena]
      have hrest := ih (before ++ [(addr, bytes)]) (by rw [hdata, List.append_assoc]; rfl)
      simp only [entriesOf, List.map_cons, hnext, hrest, List.cons.injEq, and_true]
      rw [item, hdata, arena_append, List.drop_left]
      simp [arena]

namespace Represents

variable {staged next : StagedWrites} {items : List (ℕ × List Byte)}

theorem new : StagedWrites.new.Represents [] := ⟨rfl, rfl⟩

theorem clear (staged : StagedWrites) : staged.clear.Represents [] := ⟨rfl, rfl⟩

theorem push (h : staged.Represents items) {addr : ℕ} {bytes : List Byte}
    (hpushed : staged.Pushed next addr bytes) : next.Represents (items ++ [(addr, bytes)]) where
  data := by rw [hpushed.data, h.data, arena_append]; simp [arena]
  entries := by
    rw [hpushed.entries, h.entries, h.data, entriesOf_append, Nat.zero_add]
    rfl

theorem snapshot_eq (h : staged.Represents items) :
    staged.snapshot = markAt items items.length := by
  simp only [StagedWrites.snapshot, markAt, BoundedVec.length, h.data, h.entries, List.take_length,
    length_entriesOf]

/-- Reverting to a mark keeps the items below it. -/
theorem revertTo (h : staged.Represents items) {n : ℕ} (hn : n ≤ items.length) :
    (staged.revertTo (markAt items n)).Represents (items.take n) := by
  have hsplit := List.take_append_drop n items
  have harena : arena items = arena (items.take n) ++ arena (items.drop n) := by
    rw [← arena_append, hsplit]
  constructor
  · simp only [StagedWrites.revertTo, markAt, BoundedVec.val_truncate, h.data]
    rw [harena, List.take_left]
  · simp only [StagedWrites.revertTo, markAt, BoundedVec.val_truncate, h.entries]
    have hlength : (entriesOf 0 (items.take n)).length = n := by
      rw [length_entriesOf, List.length_take, Nat.min_eq_left hn]
    conv_lhs => rw [← hsplit, entriesOf_append]
    rw [List.take_append_of_le_length (by omega), List.take_of_length_le (by omega)]

/-- What lies above a mark. -/
theorem iterFrom (h : staged.Represents items) {n : ℕ} (hn : n ≤ items.length) :
    staged.iterFrom (markAt items n) = items.drop n := by
  have hsplit := List.take_append_drop n items
  have hlength : (entriesOf 0 (items.take n)).length = n := by
    rw [length_entriesOf, List.length_take, Nat.min_eq_left hn]
  simp only [StagedWrites.iterFrom, markAt, h.entries]
  conv_lhs => rw [← hsplit, entriesOf_append, Nat.zero_add]
  rw [List.drop_append_of_le_length (by omega), List.drop_of_length_le (by omega), List.nil_append]
  exact map_item_entriesOf _ _ (by rw [hsplit, h.data])

theorem iterAll (h : staged.Represents items) : staged.iterAll = items :=
  h.iterFrom (Nat.zero_le _)

end Represents

end StagedWrites

/-! ## Table operations -/

/-- The live table, the staging buffer, and the watermarks callers still hold, the
latest first.  A watermark is given up once the buffer drops below it. -/
structure Device where
  table : ControlTable
  staged : StagedWrites
  handles : List Snapshot

inductive TableOp where
  /-- `write_split`; a plain write has an empty tail. -/
  | write (addr : ℕ) (head tail : List Byte)
  | snapshot
  /-- `stage_split`; a plain stage has an empty tail. -/
  | stage (addr : ℕ) (head tail : List Byte)
  | commitStaged
  | commitFrom (handle : ℕ)
  | revertTo (handle : ℕ)
  | assign (newId : Byte)
  | bootOverlay (slotA slotB : List Byte)

namespace Device

def step (dev : Device) : TableOp → Device
  | .write addr head tail =>
      match writeSplit dev.table addr head tail with
      | .ok table => { dev with table }
      | .error _ => dev
  | .snapshot => { dev with handles := dev.staged.snapshot :: dev.handles }
  | .stage addr head tail =>
      match stageSplit dev.table addr head tail dev.staged with
      | .ok staged => { dev with staged }
      | .error _ => dev
  | .commitStaged =>
      let (table, staged) := Table.commitStaged dev.table dev.staged
      ⟨table, staged, []⟩
  | .commitFrom handle =>
      match dev.handles.drop handle with
      | [] => dev
      | snap :: rest =>
          let (table, staged) := Table.commitFrom dev.table dev.staged snap
          ⟨table, staged, snap :: rest⟩
  | .revertTo handle =>
      match dev.handles.drop handle with
      | [] => dev
      | snap :: rest => { dev with staged := dev.staged.revertTo snap, handles := snap :: rest }
  | .assign newId =>
      if (Id.tryUnicast newId).isNone then dev
      else { dev with table := Dispatcher.setDirty (dev.table.set Addr.id newId) }
  | .bootOverlay slotA slotB => { dev with table := (Table.bootOverlay dev.table slotA slotB).2 }

/-- The table as bringup leaves it, and an empty buffer. -/
def seeded (defaults : ConfigDefaults) (model : UInt16) (hwRev : Byte) : Device :=
  ⟨(ControlTable.new.seedConfigDefaults defaults).seedIdentity model hwRev, .new, []⟩

end Device

/-! ## The invariant -/

/-- An entry that puts only allowed bytes behind enum and bool fields. -/
def TypedEntry (addr : ℕ) (data : List Byte) : Prop :=
  ∀ r ∈ controlMap.allowedRules, addr ≤ r.addr → r.addr < addr + data.length →
    data.getD (r.addr - addr) 0 ∈ r.allowed

/-- Validation on one table is enough for every table: the rule is on one byte,
and the entry brings it. -/
theorem typedEntry_of_validate {t : ControlTable} {addr : ℕ} {head tail : List Byte}
    (hok : validate controlMap t addr head tail = .ok ()) : TypedEntry addr (head ++ tail) := by
  intro r hmem hlow hhigh
  obtain hempty | hvalid := validated_of_validate controlMap_indexed hok
  · rw [hempty, List.length_nil] at hhigh
    omega
  · have hholds := hvalid.allowed r hmem hlow hhigh
    rwa [AllowedRule.Holds, Storage.get_copy hvalid.fits, if_pos ⟨hlow, hhigh⟩] at hholds

theorem TypedFields.applyEntries {t : ControlTable} (h : TypedFields t)
    {items : List (ℕ × List Byte)} (hitems : ∀ item ∈ items, TypedEntry item.1 item.2) :
    TypedFields (applyEntries t items) := by
  induction items generalizing t with
  | nil => exact h
  | cons item items ih =>
      obtain ⟨hitem, hrest⟩ := List.forall_mem_cons.mp hitems
      exact ih (h.copy hitem) hrest

theorem TypedFields.set_beside {t : ControlTable} (h : TypedFields t) {addr : ℕ} (b : Byte)
    (hbeside : ∀ r ∈ controlMap.allowedRules, r.addr ≠ addr) : TypedFields (t.set addr b) := by
  apply h.copy_beside
  intro r hmem hin
  have hne := hbeside r hmem
  simp only [List.length_singleton] at hin
  omega

/-- The enum and bool fields of the map. -/
theorem allowedRules_addrs :
    controlMap.allowedRules.map AllowedRule.addr = [48, 89, 384, 385, 400, 412] := by
  decide +kernel

theorem forall_allowedRules {p : ℕ → Prop} (h : ∀ addr ∈ [48, 89, 384, 385, 400, 412], p addr) :
    ∀ r ∈ controlMap.allowedRules, p r.addr := by
  intro r hmem
  apply h
  rw [← allowedRules_addrs]
  exact List.mem_map_of_mem hmem

theorem TypedFields.setDirty {t : ControlTable} (h : TypedFields t) :
    TypedFields (Dispatcher.setDirty t) :=
  h.set_beside _ (forall_allowedRules (p := (· ≠ Addr.statusFlags)) (by decide))

/-- Marks of a packed list, each below the one before. -/
inductive Marks (items : List (ℕ × List Byte)) : ℕ → List Snapshot → Prop where
  | nil (n : ℕ) : Marks items n []
  | cons {n m : ℕ} {handles : List Snapshot} : m ≤ n → Marks items m handles →
      Marks items n (StagedWrites.markAt items m :: handles)

namespace Marks

variable {items : List (ℕ × List Byte)} {n : ℕ} {handles : List Snapshot}

theorem drop (h : Marks items n handles) (k : ℕ) : Marks items n (handles.drop k) := by
  induction k generalizing n handles with
  | zero => exact h
  | succ k ih =>
      cases h with
      | nil => exact .nil n
      | cons hle hrest =>
          have hdropped := ih hrest
          rw [List.drop_succ_cons]
          generalize List.drop k _ = rest at hdropped
          cases hdropped with
          | nil => exact .nil n
          | cons hle' hrest' => exact .cons (hle'.trans hle) hrest'

/-- Marks only look at the items below them. -/
theorem congr {items' : List (ℕ × List Byte)} (h : Marks items n handles)
    (hsame : items'.take n = items.take n) : Marks items' n handles := by
  induction h with
  | nil n => exact .nil n
  | @cons n m handles hle hrest ih =>
      have hbelow : items'.take m = items.take m := by
        have htake := congrArg (List.take m) hsame
        rwa [List.take_take, List.take_take, Nat.min_eq_left hle] at htake
      have hmark : StagedWrites.markAt items m = StagedWrites.markAt items' m := by
        simp only [StagedWrites.markAt, hbelow]
      rw [hmark]
      exact .cons hle (ih hbelow)

theorem mono {m : ℕ} (h : Marks items n handles) (hle : n ≤ m) : Marks items m handles := by
  cases h with
  | nil => exact .nil m
  | cons hle' hrest => exact .cons (hle'.trans hle) hrest

end Marks

/-- Valid fields, valid entries in wait, and watermarks that cut between entries. -/
structure Device.Typed (dev : Device) : Prop where
  fields : TypedFields dev.table
  buffer : ∃ items, dev.staged.Represents items ∧ (∀ item ∈ items, TypedEntry item.1 item.2) ∧
    Marks items items.length dev.handles

namespace Device.Typed

variable {dev : Device}

/-- A watermark a caller holds is a mark of the buffer. -/
theorem handle {items : List (ℕ × List Byte)} {snap : Snapshot} {rest : List Snapshot} {k : ℕ}
    (hmarks : Marks items items.length dev.handles) (hdrop : dev.handles.drop k = snap :: rest) :
    ∃ n ≤ items.length, snap = StagedWrites.markAt items n ∧ Marks items n (snap :: rest) := by
  have hdropped := hmarks.drop k
  rw [hdrop] at hdropped
  cases hdropped with
  | cons hle hrest => exact ⟨_, hle, rfl, .cons le_rfl hrest⟩

/-- What a buffer cut back to a mark still satisfies. -/
theorem cut {items : List (ℕ × List Byte)} {handles : List Snapshot} {n : ℕ}
    (hbuffer : dev.staged.Represents items) (hitems : ∀ item ∈ items, TypedEntry item.1 item.2)
    (hn : n ≤ items.length) (hmarks : Marks items n handles) :
    ∃ kept, (dev.staged.revertTo (StagedWrites.markAt items n)).Represents kept ∧
      (∀ item ∈ kept, TypedEntry item.1 item.2) ∧ Marks kept kept.length handles := by
  refine ⟨items.take n, hbuffer.revertTo hn,
    fun item hmem => hitems item (List.mem_of_mem_take hmem), ?_⟩
  rw [List.length_take, Nat.min_eq_left hn]
  exact hmarks.congr (by rw [List.take_take, Nat.min_self])

theorem write (h : dev.Typed) (addr : ℕ) (head tail : List Byte) :
    (dev.step (.write addr head tail)).Typed := by
  simp only [step]
  split
  · rename_i table hwrite
    obtain ⟨⟨⟩, hok, hcopied⟩ := ok_of_bind hwrite
    obtain rfl := Except.ok.inj hcopied
    have hentry := typedEntry_of_validate hok
    refine ⟨(h.fields.copy ?_).copy ?_, h.buffer⟩
    · intro r hmem hlow hhigh
      have hbyte := hentry r hmem hlow (by rw [List.length_append]; omega)
      rwa [List.getD_append _ _ _ _ (by omega)] at hbyte
    · intro r hmem hlow hhigh
      have hbyte := hentry r hmem (by omega) (by rw [List.length_append]; omega)
      rwa [List.getD_append_right _ _ _ _ (by omega), Nat.sub_sub] at hbyte
  · exact h

theorem stage (h : dev.Typed) (addr : ℕ) (head tail : List Byte) :
    (dev.step (.stage addr head tail)).Typed := by
  simp only [step]
  split
  · rename_i staged hstage
    obtain ⟨⟨⟩, hok, hpush⟩ := ok_of_bind hstage
    have hpushed := StagedWrites.pushSplit_eq_ok.mp hpush
    obtain ⟨items, hbuffer, hitems, hmarks⟩ := h.buffer
    refine ⟨h.fields, _, hbuffer.push hpushed, ?_, ?_⟩
    · intro item hmem
      obtain hold | hnew := List.mem_append.mp hmem
      · exact hitems item hold
      · rw [List.mem_singleton.mp hnew]
        exact typedEntry_of_validate hok
    · refine (hmarks.congr ?_).mono (by rw [List.length_append]; omega)
      rw [List.take_left, List.take_length]
  · exact h

theorem commitFrom (h : dev.Typed) (k : ℕ) : (dev.step (.commitFrom k)).Typed := by
  obtain ⟨items, hbuffer, hitems, hmarks⟩ := h.buffer
  simp only [step]
  split
  · exact h
  · rename_i snap rest hdrop
    obtain ⟨n, hn, rfl, hbelow⟩ := handle hmarks hdrop
    refine ⟨?_, cut hbuffer hitems hn hbelow⟩
    show TypedFields (applyEntries dev.table (dev.staged.iterFrom _))
    rw [hbuffer.iterFrom hn]
    exact h.fields.applyEntries fun item hmem => hitems item (List.mem_of_mem_drop hmem)

theorem revertTo (h : dev.Typed) (k : ℕ) : (dev.step (.revertTo k)).Typed := by
  obtain ⟨items, hbuffer, hitems, hmarks⟩ := h.buffer
  simp only [step]
  split
  · exact h
  · rename_i snap rest hdrop
    obtain ⟨n, hn, rfl, hbelow⟩ := handle hmarks hdrop
    exact ⟨h.fields, cut hbuffer hitems hn hbelow⟩

theorem commitStaged (h : dev.Typed) : (dev.step .commitStaged).Typed := by
  obtain ⟨items, hbuffer, hitems, -⟩ := h.buffer
  refine ⟨?_, [], .clear dev.staged, fun item hmem => absurd hmem List.not_mem_nil, .nil _⟩
  show TypedFields (applyEntries dev.table dev.staged.iterAll)
  rw [hbuffer.iterAll]
  exact h.fields.applyEntries hitems

theorem assign (h : dev.Typed) (newId : Byte) : (dev.step (.assign newId)).Typed := by
  simp only [step]
  split
  · exact h
  · have hbeside := forall_allowedRules (p := (· ≠ Addr.id)) (by decide)
    exact ⟨(h.fields.set_beside newId hbeside).setDirty, h.buffer⟩

theorem step (h : dev.Typed) (op : TableOp) : (dev.step op).Typed := by
  cases op with
  | write addr head tail => exact h.write addr head tail
  | snapshot =>
      obtain ⟨items, hbuffer, hitems, hmarks⟩ := h.buffer
      refine ⟨h.fields, items, hbuffer, hitems, ?_⟩
      show Marks items items.length (dev.staged.snapshot :: dev.handles)
      rw [hbuffer.snapshot_eq]
      exact .cons le_rfl hmarks
  | stage addr head tail => exact h.stage addr head tail
  | commitStaged => exact h.commitStaged
  | commitFrom k => exact h.commitFrom k
  | revertTo k => exact h.revertTo k
  | assign newId => exact h.assign newId
  | bootOverlay slotA slotB => exact ⟨h.fields.bootOverlay slotA slotB, h.buffer⟩

end Device.Typed

theorem typedFields_new : TypedFields ControlTable.new := by decide +kernel

theorem TypedFields.copy_free {t : ControlTable} (h : TypedFields t) {addr : ℕ} {data : List Byte}
    (n : ℕ) (hlength : data.length = n)
    (hfree : ∀ field ∈ [48, 89, 384, 385, 400, 412], ¬ (addr ≤ field ∧ field < addr + n)) :
    TypedFields (t.copy addr data) := by
  subst hlength
  exact h.copy_beside (forall_allowedRules hfree)

/-- Seeding writes no enum or bool field, whatever the defaults. -/
theorem TypedFields.seedConfigDefaults {t : ControlTable} (h : TypedFields t)
    (defaults : ConfigDefaults) : TypedFields (t.seedConfigDefaults defaults) := by
  simp only [ControlTable.seedConfigDefaults, Storage.set]
  refine copy_free ?_ 2 rfl (by decide)
  refine copy_free ?_ 1 rfl (by decide)
  refine copy_free ?_ 1 rfl (by decide)
  refine copy_free ?_ 2 rfl (by decide)
  refine copy_free ?_ 4 rfl (by decide)
  refine copy_free ?_ 4 rfl (by decide)
  refine copy_free ?_ 4 rfl (by decide)
  exact copy_free h 4 rfl (by decide)

theorem TypedFields.seedIdentity {t : ControlTable} (h : TypedFields t) (model : UInt16)
    (hwRev : Byte) : TypedFields (t.seedIdentity model hwRev) := by
  simp only [ControlTable.seedIdentity, Storage.set]
  refine copy_free ?_ 1 rfl (by decide)
  refine copy_free ?_ 1 rfl (by decide)
  exact copy_free h 2 rfl (by decide)

/-- After any sequence of table operations on the seeded table, every byte behind
an enum or bool field is one of the field's allowed values. -/
theorem typed_fields_stay_valid (defaults : ConfigDefaults) (model : UInt16) (hwRev : Byte)
    (ops : List TableOp) :
    ∀ r ∈ controlMap.allowedRules,
      (run Device.step (Device.seeded defaults model hwRev) ops).table.get r.addr ∈ r.allowed := by
  have hinit : (Device.seeded defaults model hwRev).Typed :=
    ⟨(typedFields_new.seedConfigDefaults defaults).seedIdentity model hwRev, [], .new,
      fun item hmem => absurd hmem List.not_mem_nil, .nil _⟩
  exact (run_invariant Device.step Device.Typed (fun _ op h => h.step op) hinit ops).fields

/-- Torque is enabled, then a byte that is no bool is refused. -/
theorem torque_enable_stays_valid :
    (run Device.step (Device.seeded ⟨0, 100, 3300, 5, .b1000000, 60⟩ 1 1)
      [.write Addr.torqueEnable [1] [], .write Addr.torqueEnable [7] []]).table.get
        Addr.torqueEnable ∈ [0, 1] :=
  typed_fields_stay_valid _ _ _ _ ⟨Addr.torqueEnable, [0, 1]⟩ (by decide +kernel)

end OpenServo.Table
