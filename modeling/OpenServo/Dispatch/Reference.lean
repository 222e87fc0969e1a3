import OpenServo.Core.Transition
import OpenServo.Dispatch.Dispatcher
import OpenServo.Table.Validity

/-!
# Reference semantics of the table plane

What the dispatcher is for, without arenas or watermarks: the live table, the
list of held writes whose frames passed, and at most one write that still
waits for its verdict.  Writes are applied byte by byte, the last one to reach a
byte leaves it.  `Refines` relates the two, every dispatcher call keeps it, and
so does every sequence of calls.
-/

namespace OpenServo

open Table

/-- A write whose frame has no verdict yet. -/
structure OpenWrite where
  hold : Bool
  addr : ℕ
  bytes : List Byte
  deriving DecidableEq, Repr

structure Reference where
  table : ControlTable
  /-- Held writes whose verdict was commit, in arrival order. -/
  held : List (ℕ × List Byte)
  opened : Option OpenWrite
  deriving DecidableEq

namespace Reference

def heldBytes (held : List (ℕ × List Byte)) : ℕ := (held.map fun entry => entry.2.length).sum

/-- There is room for one more entry of these bytes. -/
def fits (held : List (ℕ × List Byte)) (bytes : List Byte) : Bool :=
  heldBytes held + bytes.length ≤ stageDataCap && held.length < stageEntryCap

/-- Validation lets the write through on the live table. -/
def valid (table : ControlTable) (addr : ℕ) (data : FrameBytes) : Bool :=
  (validate controlMap table addr data.head data.tail).toBool

/-- A write that got no verdict never happened. -/
def abandon (ref : Reference) : Reference := { ref with opened := none }

def write (ref : Reference) (addr : ℕ) (data : FrameBytes) (hold : Bool) : Reference :=
  if valid ref.table addr data && fits ref.held data.bytes then
    { ref with opened := some ⟨hold, addr, data.bytes⟩ }
  else ref.abandon

/-- The byte a write leaves at `i`, if it reaches so far. -/
def written (entry : ℕ × List Byte) (i : ℕ) : Option Byte :=
  if entry.1 ≤ i then entry.2[i - entry.1]? else none

/-- The byte the last of these writes, in arrival order, to reach `i` leaves there. -/
def lastWritten (entries : List (ℕ × List Byte)) (i : ℕ) : Option Byte :=
  entries.reverse.findSome? fun entry => written entry i

/-- One of the writes starts in CONFIG or reaches into PROFILE. -/
def modifies (entries : List (ℕ × List Byte)) : Bool :=
  entries.any fun entry => Dispatcher.hitsPersistent entry.1 entry.2.length

/-- Byte `i` of the table after these writes. -/
def byteAfter (table : ControlTable) (entries : List (ℕ × List Byte)) (i : ℕ) : Byte :=
  let b := (lastWritten entries i).getD (table.get i)
  if i = Addr.statusFlags ∧ modifies entries = true then b ||| statusFlagConfigDirty else b

/-- Each byte is the last one written there, and the modified flag is up if the
writes ask for it. -/
def applied (table : ControlTable) (entries : List (ℕ × List Byte)) : ControlTable :=
  .ofFn (byteAfter table entries)

def commitAll (ref : Reference) : Reference :=
  ⟨applied ref.table ref.held, [], none⟩

def commit (ref : Reference) : Reference :=
  match ref.opened with
  | none => ref
  | some write =>
      if write.hold then ⟨ref.table, ref.held ++ [(write.addr, write.bytes)], none⟩
      else ⟨applied ref.table [(write.addr, write.bytes)], ref.held, none⟩

end Reference

/-- Dispatcher calls: requests of the table plane and verdicts. -/
inductive Call where
  | write (addr : ℕ) (data : FrameBytes) (hold : Bool) (ctx : RequestCtx)
  | read (addr count : ℕ) (ctx : RequestCtx)
  | ping (ctx : RequestCtx)
  | commitAll (ctx : RequestCtx)
  | commit
  | revert
  deriving DecidableEq, Repr

def Reference.step (ref : Reference) : Call → Reference
  | .write addr data hold _ => ref.write addr data hold
  | .read _ _ _ | .ping _ => ref.abandon
  | .commitAll _ => ref.commitAll
  | .commit => ref.commit
  | .revert => ref.abandon

/-! ## Copying entry by entry -/

namespace Reference

/-- An entry that validation let through lies inside the map. -/
def InMap (entry : ℕ × List Byte) : Prop :=
  entry.2 = [] ∨ entry.1 + entry.2.length ≤ controlMap.size

theorem inMap_of_valid {table : ControlTable} {addr : ℕ} {data : FrameBytes}
    (h : valid table addr data = true) : InMap (addr, data.bytes) := by
  have hok : validate controlMap table addr data.head data.tail = .ok () := by
    rw [valid] at h
    cases hvalid : validate controlMap table addr data.head data.tail with
    | ok _ => rfl
    | error e => simp [hvalid, Except.toBool] at h
  simp only [validate] at hok
  split at hok
  · rename_i hempty
    left
    simpa [FrameBytes.bytes] using hempty
  · split at hok
    · cases hok
    · rename_i hfits
      right
      simp only [FrameBytes.bytes, List.length_append]
      omega

@[simp]
theorem lastWritten_nil (i : ℕ) : lastWritten [] i = none := rfl

theorem lastWritten_append (entries : List (ℕ × List Byte)) (entry : ℕ × List Byte) (i : ℕ) :
    lastWritten (entries ++ [entry]) i = (written entry i).or (lastWritten entries i) := by
  rw [lastWritten, List.reverse_append, List.reverse_singleton, List.singleton_append,
    List.findSome?_cons]
  cases written entry i <;> rfl

theorem lastWritten_singleton (entry : ℕ × List Byte) (i : ℕ) :
    lastWritten [entry] i = written entry i := by
  rw [← List.nil_append [entry], lastWritten_append, lastWritten_nil, Option.or_none]

theorem get_copy_of_inMap {entry : ℕ × List Byte} (h : InMap entry) (table : ControlTable)
    (i : ℕ) :
    (table.copy entry.1 entry.2).get i = (written entry i).getD (table.get i) := by
  obtain hempty | hfits := h
  · rw [written, hempty]
    simp only [List.getElem?_nil, ite_self, Option.getD_none]
    exact Storage.get_copy_of_not_mem (by simp only [List.length_nil]; omega)
  · rw [Storage.get_copy hfits, written]
    by_cases hreach : entry.1 ≤ i
    · by_cases hin : i < entry.1 + entry.2.length
      · rw [if_pos ⟨hreach, hin⟩, if_pos hreach,
          List.getElem?_eq_getElem (show i - entry.1 < entry.2.length by omega)]
        simp [show i - entry.1 < entry.2.length by omega]
      · rw [if_neg (by omega), if_pos hreach, List.getElem?_eq_none (by omega)]
        rfl
    · rw [if_neg (by omega), if_neg hreach]
      rfl

/-- Copying the entries in order leaves at each byte the last one written there. -/
theorem get_applyEntries {entries : List (ℕ × List Byte)} (h : ∀ entry ∈ entries, InMap entry)
    (table : ControlTable) (i : ℕ) :
    (applyEntries table entries).get i = (lastWritten entries i).getD (table.get i) := by
  induction entries using List.reverseRecOn with
  | nil => rfl
  | append_singleton entries entry ih =>
      have hlast : InMap entry := h entry (by simp)
      have hrest := ih fun entry hmem => h entry (by simp [hmem])
      rw [applyEntries_append, lastWritten_append]
      show ((applyEntries table entries).copy entry.1 entry.2).get i = _
      rw [get_copy_of_inMap hlast, hrest]
      cases written entry i <;> rfl

theorem get_marked (entries : List (ℕ × List Byte)) (table : ControlTable) (i : ℕ) :
    (entries.foldl (fun table entry =>
        Dispatcher.markDirtyIfPersistent table entry.1 entry.2.length) table).get i =
      if i = Addr.statusFlags ∧ modifies entries = true then
        table.get i ||| statusFlagConfigDirty
      else table.get i := by
  induction entries generalizing table with
  | nil => simp [modifies]
  | cons entry entries ih =>
      have hmark : (Dispatcher.markDirtyIfPersistent table entry.1 entry.2.length).get i =
          if i = Addr.statusFlags ∧ Dispatcher.hitsPersistent entry.1 entry.2.length = true then
            table.get i ||| statusFlagConfigDirty
          else table.get i := by
        simp only [Dispatcher.markDirtyIfPersistent, Dispatcher.setDirty]
        split
        · rename_i hhits
          rw [Storage.get_set (by decide)]
          split
          · rename_i hflag
            rw [if_pos ⟨hflag, hhits⟩, hflag]
          · rename_i hother
            rw [if_neg fun h => hother h.1]
        · rename_i hmiss
          rw [if_neg fun h => hmiss h.2]
      have hidem : ∀ b : Byte, (b ||| statusFlagConfigDirty) ||| statusFlagConfigDirty =
          b ||| statusFlagConfigDirty := fun b => by rw [UInt8.or_assoc, UInt8.or_self]
      have hany : modifies (entry :: entries) =
          (Dispatcher.hitsPersistent entry.1 entry.2.length || modifies entries) := List.any_cons
      rw [List.foldl_cons, ih, hmark, hany]
      by_cases hflag : i = Addr.statusFlags
      · cases Dispatcher.hitsPersistent entry.1 entry.2.length <;> cases modifies entries <;>
          simp only [hflag, true_and, Bool.or_true, Bool.or_false, Bool.false_eq_true, if_true,
            if_false, hidem]
      · simp only [hflag, false_and, if_false]

/-- What the code does with entries inside the map is what the reference says. -/
theorem applied_eq {entries : List (ℕ × List Byte)} (h : ∀ entry ∈ entries, InMap entry)
    (table : ControlTable) :
    entries.foldl (fun table entry =>
        Dispatcher.markDirtyIfPersistent table entry.1 entry.2.length)
      (applyEntries table entries) = applied table entries := by
  refine Storage.ext_get fun i hi => ?_
  rw [get_marked, get_applyEntries h, applied, Storage.get_ofFn _ hi]
  rfl

end Reference

namespace Dispatcher

/-! ## The simulation relation -/

/-- The buffer holds exactly these entries, packed from the arena's start. -/
structure Holds (staged : StagedWrites) (held : List (ℕ × List Byte)) : Prop where
  bounds : staged.InBounds
  entries : staged.iterAll = held
  packed : staged.data.val.length = Reference.heldBytes held

theorem holds_new : Holds .new [] := ⟨StagedWrites.inBounds_new, rfl, rfl⟩

theorem Holds.pushed {staged next : StagedWrites} {held : List (ℕ × List Byte)} {addr : ℕ}
    {bytes : List Byte} (hholds : Holds staged held) (hpushed : staged.Pushed next addr bytes) :
    Holds next (held ++ [(addr, bytes)]) where
  bounds := hpushed.inBounds hholds.bounds
  entries := by rw [hpushed.iterAll hholds.bounds, hholds.entries]
  packed := by simp [hpushed.data, hholds.packed, Reference.heldBytes]

theorem Holds.length_entries {staged : StagedWrites} {held : List (ℕ × List Byte)}
    (hholds : Holds staged held) : staged.entries.val.length = held.length := by
  rw [← hholds.entries]
  simp [StagedWrites.iterAll, StagedWrites.iterFrom, Snapshot.zero]

variable {σ : Type}

/-- The staging buffer of a dispatcher, read against the held list and the
open write. -/
def Staging (d : Dispatcher σ) (held : List (ℕ × List Byte)) : Option OpenWrite → Prop
  | none => d.pending = none ∧ Holds d.staged held
  | some write => ∃ base : StagedWrites, Holds base held ∧
      base.Pushed d.staged write.addr write.bytes ∧
      d.pending = some ⟨base.snapshot, write.hold, write.addr, write.bytes.length⟩

structure Refines (d : Dispatcher σ) (ref : Reference) : Prop where
  table : d.table = ref.table
  staging : d.Staging ref.held ref.opened
  held : ∀ entry ∈ ref.held, Reference.InMap entry
  opened : ∀ write, ref.opened = some write → Reference.InMap (write.addr, write.bytes)

theorem Staging.revertDangling {d : Dispatcher σ} {held : List (ℕ × List Byte)}
    {opened : Option OpenWrite} (hstaging : d.Staging held opened) :
    d.revertDangling.pending = none ∧ Holds d.revertDangling.staged held := by
  cases opened with
  | none =>
      obtain ⟨hpending, hholds⟩ := hstaging
      simpa [Dispatcher.revertDangling, hpending] using hholds
  | some write =>
      obtain ⟨base, hholds, hpushed, hpending⟩ := hstaging
      simpa [Dispatcher.revertDangling, hpending, hpushed.revertTo] using hholds

theorem Refines.abandon {d : Dispatcher σ} {ref : Reference} (href : d.Refines ref) :
    d.revertDangling.Refines ref.abandon :=
  ⟨(revertDangling_table d).trans href.table, href.staging.revertDangling, href.held,
    fun _ hnone => by cases hnone⟩

/-! ## One call -/

/-- A stage attempt succeeds exactly on a valid write that fits. -/
theorem stageSplit_cases (table : ControlTable) (addr : ℕ) (data : FrameBytes)
    {staged : StagedWrites} {held : List (ℕ × List Byte)} (hholds : Holds staged held) :
    (∃ next, stageSplit table addr data.head data.tail staged = .ok next ∧
        staged.Pushed next addr data.bytes ∧
        Reference.valid table addr data = true ∧ Reference.fits held data.bytes = true) ∨
      (∃ e, stageSplit table addr data.head data.tail staged = .error e ∧
        (Reference.valid table addr data && Reference.fits held data.bytes) = false) := by
  cases hvalid : validate controlMap table addr data.head data.tail with
  | error e =>
      exact .inr ⟨e, by simp [stageSplit, hvalid, bind, Except.bind],
        by simp [Reference.valid, hvalid, Except.toBool]⟩
  | ok _ =>
      have hstage : stageSplit table addr data.head data.tail staged =
          staged.pushSplit addr data.head data.tail := by
        simp [stageSplit, hvalid, bind, Except.bind]
      have hacc : Reference.valid table addr data = true := by
        simp [Reference.valid, hvalid, Except.toBool]
      rw [hstage]
      cases hpush : staged.pushSplit addr data.head data.tail with
      | ok next =>
          have hpushed := StagedWrites.pushSplit_eq_ok.mp hpush
          have h₁ := next.data.bound
          have h₂ := next.entries.bound
          rw [hpushed.data, List.length_append, hholds.packed] at h₁
          rw [hpushed.entries, List.length_append, hholds.length_entries,
            List.length_singleton] at h₂
          refine .inl ⟨next, rfl, hpushed, hacc, ?_⟩
          simp only [Reference.fits, Bool.and_eq_true, decide_eq_true_eq]
          exact ⟨h₁, h₂⟩
      | error e =>
          obtain ⟨-, hfull⟩ := StagedWrites.pushSplit_eq_error.mp hpush
          refine .inr ⟨e, rfl, ?_⟩
          rw [hholds.packed, hholds.length_entries] at hfull
          simp only [Reference.fits, hacc, Bool.true_and, Bool.and_eq_false_iff,
            decide_eq_false_iff_not, not_le, not_lt]
          exact hfull

variable {ρ : Type} [ConfigStore σ] [Reply ρ]

theorem Refines.write {d : Dispatcher σ} {ref : Reference} (href : d.Refines ref) (addr : ℕ)
    (data : FrameBytes) (hold : Bool) (ctx : RequestCtx) (reply : ρ) :
    (d.dispatch (.write addr data hold) ctx reply).2.1.Refines (ref.write addr data hold) := by
  have hrev := href.abandon
  have htable : d.revertDangling.table = ref.table := hrev.table
  have hholds : Holds d.revertDangling.staged ref.held := href.staging.revertDangling.2
  simp only [dispatch, Dispatcher.write, FrameBytes.segments]
  rcases stageSplit_cases d.revertDangling.table addr data hholds with
    ⟨next, hstage, hpushed, hvalid, hfits⟩ | ⟨e, hstage, hrefused⟩
  · rw [htable] at hvalid
    rw [hstage]
    simp only [Reference.write, hvalid, hfits, Bool.and_self, if_true]
    refine ⟨htable, ⟨d.revertDangling.staged, hholds, hpushed, by simp⟩, href.held, ?_⟩
    intro write hopened
    obtain rfl := Option.some.inj hopened
    exact Reference.inMap_of_valid hvalid
  · rw [htable] at hrefused
    have hwrite : ref.write addr data hold = ref.abandon := by
      simp only [Reference.write, hrefused, Bool.false_eq_true, if_false]
    rw [hstage, hwrite]
    cases e <;> exact hrev

/-- Dirty accounting and hooks of a commit, on the table alone. -/
theorem applyEvents_table (t : ControlTable) (spans : List (ℕ × ℕ)) (reply : ρ) :
    (applyEvents t spans reply).1 =
      spans.foldl (fun t span => markDirtyIfPersistent t span.1 span.2) t := by
  simp only [applyEvents]
  induction spans generalizing t reply with
  | nil => rfl
  | cons span spans ih => simp only [List.foldl_cons, ih]

theorem Refines.commitAll {d : Dispatcher σ} {ref : Reference} (href : d.Refines ref)
    (ctx : RequestCtx) (reply : ρ) :
    (d.dispatch .commit ctx reply).2.1.Refines ref.commitAll := by
  have htable : d.revertDangling.table = ref.table := href.abandon.table
  obtain ⟨hnone, hholds⟩ := href.staging.revertDangling
  simp only [dispatch, applyCommit, commitStaged]
  refine ⟨?_, ⟨hnone, holds_new⟩, by simp [Reference.commitAll], by simp [Reference.commitAll]⟩
  simp only [applyEvents_table, htable, hholds.entries, Reference.commitAll, List.foldl_map]
  exact Reference.applied_eq href.held ref.table

omit [ConfigStore σ] in
theorem Refines.commit {d : Dispatcher σ} {ref : Reference} (href : d.Refines ref) (reply : ρ) :
    (d.commit reply).1.Refines ref.commit := by
  obtain ⟨htable, hstaging, hheld, hwrites⟩ := href
  cases hopened : ref.opened with
  | none =>
      rw [hopened] at hstaging
      obtain ⟨hpending, hholds⟩ := hstaging
      simp only [Dispatcher.commit, hpending, Reference.commit, hopened]
      exact ⟨htable, by rw [hopened]; exact ⟨hpending, hholds⟩, hheld, hwrites⟩
  | some write =>
      have hwrite := hwrites write hopened
      rw [hopened] at hstaging
      obtain ⟨base, hholds, hpushed, hpending⟩ := hstaging
      cases hhold : write.hold with
      | true =>
          simp only [Dispatcher.commit, hpending, hhold, if_true, Reference.commit, hopened]
          refine ⟨htable, ⟨rfl, hholds.pushed hpushed⟩, ?_, fun _ hnone => by cases hnone⟩
          intro entry hmem
          obtain hbefore | hlast := List.mem_append.mp hmem
          · exact hheld entry hbefore
          · rw [List.mem_singleton.mp hlast]
            exact hwrite
      | false =>
          simp only [Dispatcher.commit, hpending, hhold, Bool.false_eq_true, if_false,
            Reference.commit, hopened, commitFrom, hpushed.iterFrom, hpushed.revertTo]
          refine ⟨?_, ⟨rfl, hholds⟩, hheld, fun _ hnone => by cases hnone⟩
          rw [htable]
          have hin : ∀ entry ∈ [(write.addr, write.bytes)], Reference.InMap entry := by
            simpa using hwrite
          exact Reference.applied_eq hin ref.table

/-! ## Sequences of calls -/

def step (s : Dispatcher σ × ρ) : Call → Dispatcher σ × ρ
  | .write addr data hold ctx => (s.1.dispatch (.write addr data hold) ctx s.2).2
  | .read addr count ctx => (s.1.dispatch (.read addr count) ctx s.2).2
  | .ping ctx => (s.1.dispatch .ping ctx s.2).2
  | .commitAll ctx => (s.1.dispatch .commit ctx s.2).2
  | .commit => s.1.commit s.2
  | .revert => (s.1.revert, s.2)

theorem Refines.step {s : Dispatcher σ × ρ} {ref : Reference} (href : s.1.Refines ref)
    (call : Call) : (Dispatcher.step s call).1.Refines (ref.step call) := by
  cases call with
  | write addr data hold ctx => exact href.write addr data hold ctx s.2
  | read addr count ctx => exact href.abandon
  | ping ctx => exact href.abandon
  | commitAll ctx => exact href.commitAll ctx s.2
  | commit => exact href.commit s.2
  | revert => exact href.abandon

/-- A session's dispatcher before its first request. -/
def fresh (table : ControlTable) (uid : List Byte) (store : Option σ) : Dispatcher σ :=
  ⟨table, uid, store, .new, none⟩

omit [ConfigStore σ] in
theorem refines_fresh (table : ControlTable) (uid : List Byte) (store : Option σ) :
    (fresh table uid store).Refines ⟨table, [], none⟩ :=
  ⟨rfl, ⟨rfl, holds_new⟩, by simp, by simp⟩

/-- After any sequence of calls the live table is the reference table, and the
staging buffer holds the reference's held writes in order, with the open write
alone on top of them. -/
theorem run_refines_reference (table : ControlTable) (uid : List Byte) (store : Option σ)
    (reply : ρ) (calls : List Call) :
    (Transition.run Dispatcher.step (fresh table uid store, reply) calls).1.table =
        (Transition.run Reference.step ⟨table, [], none⟩ calls).table ∧
      (Transition.run Dispatcher.step (fresh table uid store, reply) calls).1.staged.iterAll =
        (Transition.run Reference.step ⟨table, [], none⟩ calls).held ++
          ((Transition.run Reference.step ⟨table, [], none⟩ calls).opened.map
            fun write => (write.addr, write.bytes)).toList := by
  have hinit : (fresh table uid store, reply).1.Refines ⟨table, [], none⟩ :=
    refines_fresh table uid store
  have hfinal := Transition.run_simulation Dispatcher.step Reference.step
    (fun s ref => s.1.Refines ref) (fun s ref call href => href.step call) hinit calls
  refine ⟨hfinal.table, ?_⟩
  have hstaging := hfinal.staging
  cases hopened : (Transition.run Reference.step ⟨table, [], none⟩ calls).opened with
  | none =>
      rw [hopened] at hstaging
      simpa using hstaging.2.entries
  | some write =>
      rw [hopened] at hstaging
      obtain ⟨base, hholds, hpushed, -⟩ := hstaging
      simpa using (hholds.pushed hpushed).entries

end Dispatcher

end OpenServo
