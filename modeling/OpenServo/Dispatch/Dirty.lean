import OpenServo.Core.Transition
import OpenServo.Dispatch.Effect
import OpenServo.Table.Persist

/-!
# Modified since save

The config-dirty flag against the bytes it speaks for: what was booted or last
handed to the store.  Persistent bytes change through plain writes, through held
entries applied in one batch, and through ASSIGN; none of them forgets the flag,
and nothing but a successful SAVE takes it back.
-/

namespace OpenServo

open Table Transition

/-- The regions SAVE keeps. -/
def persisted (t : ControlTable) : List Byte × List Byte := (configRegion t, profileRegion t)

/-- Byte `i` lies in one of them. -/
def Persistent (i : ℕ) : Prop :=
  (configBaseAddr ≤ i ∧ i < configBaseAddr + configRegionSize) ∨
    (profileBaseAddr ≤ i ∧ i < profileBaseAddr + profileRegionSize)

def dirty (t : ControlTable) : Bool := t.get Addr.statusFlags &&& statusFlagConfigDirty != 0

theorem region_congr {t t' : ControlTable} {base size : ℕ}
    (h : ∀ i, base ≤ i → i < base + size → t'.get i = t.get i) :
    (t'.bytes.drop base).take size = (t.bytes.drop base).take size := by
  have hlen := t.length_eq
  have hlen' := t'.length_eq
  apply List.ext_getElem
  · simp only [List.length_take, List.length_drop, hlen, hlen']
  · intro i hi hi'
    simp only [List.length_take, List.length_drop] at hi hi'
    have hbyte := h (base + i) (by omega) (by omega)
    simp only [Storage.get, List.getD_eq_getElem?_getD] at hbyte
    rw [List.getElem?_eq_getElem (by omega), List.getElem?_eq_getElem (by omega),
      Option.getD_some, Option.getD_some] at hbyte
    simpa only [List.getElem_take, List.getElem_drop] using hbyte

theorem persisted_congr {t t' : ControlTable} (h : ∀ i, Persistent i → t'.get i = t.get i) :
    persisted t' = persisted t := by
  rw [persisted, persisted]
  congr 1
  · exact region_congr fun i hlow hhigh => h i (.inl ⟨hlow, hhigh⟩)
  · exact region_congr fun i hlow hhigh => h i (.inr ⟨hlow, hhigh⟩)

theorem Persistent.ne_statusFlags {i : ℕ} (h : Persistent i) : i ≠ Addr.statusFlags := by
  have hconst : configBaseAddr = 0 ∧ configRegionSize = 128 ∧ profileBaseAddr = 640 ∧
      profileRegionSize = 64 ∧ Addr.statusFlags = 513 := by decide
  rw [Persistent] at h
  omega

/-- Setting flag bits leaves the regions alone. -/
theorem persisted_set_statusFlags (t : ControlTable) (b : Byte) :
    persisted (t.set Addr.statusFlags b) = persisted t := by
  apply persisted_congr
  intro i hi
  rw [Storage.get_set (by decide), if_neg hi.ne_statusFlags]

/-! ## What marks the flag -/

theorem dirty_setDirty (t : ControlTable) : dirty (Dispatcher.setDirty t) = true := by
  have hbit :
      ∀ b : Byte, ((b ||| statusFlagConfigDirty) &&& statusFlagConfigDirty != 0) = true := by
    decide +kernel
  rw [dirty, Dispatcher.setDirty, Storage.get_set (by decide), if_pos rfl]
  exact hbit _

theorem dirty_markDirty {t : ControlTable} (h : dirty t = true) (addr len : ℕ) :
    dirty (Dispatcher.markDirtyIfPersistent t addr len) = true := by
  simp only [Dispatcher.markDirtyIfPersistent]
  split
  · exact dirty_setDirty t
  · exact h

theorem persisted_markDirty (t : ControlTable) (addr len : ℕ) :
    persisted (Dispatcher.markDirtyIfPersistent t addr len) = persisted t := by
  simp only [Dispatcher.markDirtyIfPersistent, Dispatcher.setDirty]
  split
  · exact persisted_set_statusFlags t _
  · rfl

theorem dirty_markDirtyAll {t : ControlTable} (h : dirty t = true) (spans : List (ℕ × ℕ)) :
    dirty (Dispatcher.markDirtyAll t spans) = true := by
  induction spans generalizing t with
  | nil => exact h
  | cons span spans ih => exact ih (dirty_markDirty h span.1 span.2)

theorem persisted_markDirtyAll (t : ControlTable) (spans : List (ℕ × ℕ)) :
    persisted (Dispatcher.markDirtyAll t spans) = persisted t := by
  induction spans generalizing t with
  | nil => rfl
  | cons span spans ih => exact (ih _).trans (persisted_markDirty t span.1 span.2)

/-- One span in a persistent region is enough. -/
theorem dirty_of_hits {spans : List (ℕ × ℕ)} {span : ℕ × ℕ} (hmem : span ∈ spans)
    (hhits : Dispatcher.hitsPersistent span.1 span.2 = true) (t : ControlTable) :
    dirty (Dispatcher.markDirtyAll t spans) = true := by
  induction spans generalizing t with
  | nil => cases hmem
  | cons first spans ih =>
      obtain rfl | hlater := List.mem_cons.mp hmem
      · refine dirty_markDirtyAll ?_ spans
        show dirty (Dispatcher.markDirtyIfPersistent t span.1 span.2) = true
        rw [Dispatcher.markDirtyIfPersistent, if_pos hhits]
        exact dirty_setDirty t
      · exact ih hlater _

/-- The span arithmetic misses no persistent byte. -/
theorem not_mem_of_misses {addr len i : ℕ} (h : Dispatcher.hitsPersistent addr len = false)
    (hi : Persistent i) : ¬ (addr ≤ i ∧ i < addr + len) := by
  have hconst : configBaseAddr = 0 ∧ configRegionSize = 128 ∧ profileBaseAddr = 640 ∧
      profileRegionSize = 64 := by decide
  simp only [Dispatcher.hitsPersistent, Bool.or_eq_false_iff, Bool.and_eq_false_iff,
    decide_eq_false_iff_not] at h
  rw [Persistent] at hi
  omega

/-! ## Entries -/

/-- The entry leaves the status flags alone. -/
def SparesFlags (addr : ℕ) (data : List Byte) : Prop :=
  ¬ (addr ≤ Addr.statusFlags ∧ Addr.statusFlags < addr + data.length)

/-- The flags are read-only, so no validated write reaches them. -/
theorem vets_sparesFlags : Dispatcher.Vets SparesFlags := by
  intro t addr head tail hok hin
  obtain hempty | hvalid := validated_of_validate controlMap_indexed hok
  · rw [hempty, List.length_nil] at hin
    omega
  · have hwritable := hvalid.writable _ hin.1 hin.2
    have hreadOnly : controlMap.isWritable Addr.statusFlags = false := by decide +kernel
    rw [hreadOnly] at hwritable
    cases hwritable

theorem dirty_applyEntries {items : List (ℕ × List Byte)}
    (hitems : ∀ item ∈ items, SparesFlags item.1 item.2) (t : ControlTable) :
    dirty (applyEntries t items) = dirty t := by
  induction items generalizing t with
  | nil => rfl
  | cons item items ih =>
      obtain ⟨hitem, hrest⟩ := List.forall_mem_cons.mp hitems
      refine (ih hrest _).trans ?_
      rw [dirty, dirty, Storage.get_copy_of_not_mem hitem]

theorem persisted_applyEntries {items : List (ℕ × List Byte)}
    (hmisses : ∀ item ∈ items, Dispatcher.hitsPersistent item.1 item.2.length = false)
    (t : ControlTable) : persisted (applyEntries t items) = persisted t := by
  induction items generalizing t with
  | nil => rfl
  | cons item items ih =>
      obtain ⟨hitem, hrest⟩ := List.forall_mem_cons.mp hmisses
      refine (ih hrest _).trans (persisted_congr ?_)
      intro i hi
      exact Storage.get_copy_of_not_mem (not_mem_of_misses hitem hi)

/-- A change of the regions is marked, and a mark stays. -/
structure Accounts (t t' : ControlTable) : Prop where
  marked : persisted t' ≠ persisted t → dirty t' = true
  kept : dirty t = true → dirty t' = true

theorem Accounts.refl (t : ControlTable) : Accounts t t := ⟨fun h => absurd rfl h, id⟩

/-- A batch of entries, applied and then accounted for. -/
theorem accounts_batch {t : ControlTable} {items : List (ℕ × List Byte)}
    (hitems : ∀ item ∈ items, SparesFlags item.1 item.2) :
    Accounts t (Dispatcher.markDirtyAll (applyEntries t items)
      (items.map fun item => (item.1, item.2.length))) := by
  constructor
  · intro hchanged
    rw [persisted_markDirtyAll] at hchanged
    have hhit : ∃ item ∈ items, Dispatcher.hitsPersistent item.1 item.2.length = true := by
      by_contra hnone
      refine hchanged (persisted_applyEntries ?_ t)
      intro item hmem
      by_contra hhits
      exact hnone ⟨item, hmem, Bool.eq_true_of_not_eq_false hhits⟩
    obtain ⟨item, hmem, hhits⟩ := hhit
    exact dirty_of_hits (List.mem_map_of_mem hmem) hhits _
  · intro hdirty
    rw [← dirty_applyEntries hitems] at hdirty
    exact dirty_markDirtyAll hdirty _

/-! ## Runs of requests -/

/-- A dispatcher, its reply surface, and the regions as booted or last saved. -/
structure Session (σ ρ : Type) where
  disp : Dispatcher σ
  reply : ρ
  baseline : List Byte × List Byte

inductive HostCall where
  | request (req : Request FrameBytes) (ctx : RequestCtx)
  | commit
  | revert

/-- The request is a SAVE that succeeds. -/
def saveSucceeds {σ : Type} [ConfigStore σ] (d : Dispatcher σ) : HostCall → Bool
  | .request (.mgmt .save _) _ =>
      !d.table.torqueEnable &&
        match d.store with
        | some store => (ConfigStore.save store (configRegion d.table) (profileRegion d.table)).1
        | none => false
  | _ => false

namespace Session

variable {σ ρ : Type} [ConfigStore σ] [Reply ρ]

def call (s : Session σ ρ) : HostCall → Dispatcher σ × ρ
  | .request req ctx => (s.disp.dispatch req ctx s.reply).2
  | .commit => s.disp.commit s.reply
  | .revert => (s.disp.revert, s.reply)

/-- One call; a SAVE that succeeds has stored the regions it found. -/
def step (s : Session σ ρ) (c : HostCall) : Session σ ρ where
  disp := (s.call c).1
  reply := (s.call c).2
  baseline := if saveSucceeds s.disp c then persisted s.disp.table else s.baseline

/-- After boot, before the first request. -/
def boot (table : ControlTable) (uid : List Byte) (store : Option σ) (reply : ρ) : Session σ ρ :=
  ⟨.fresh table uid store, reply, persisted table⟩

end Session

theorem saves_iff {σ : Type} [ConfigStore σ] {d : Dispatcher σ} {args : FrameBytes}
    {ctx : RequestCtx} :
    saveSucceeds d (.request (.mgmt .save args) ctx) = true ↔ ∃ store, d.Saves store := by
  simp only [saveSucceeds, Dispatcher.Saves, Bool.and_eq_true, Bool.not_eq_true']
  constructor
  · rintro ⟨htorque, hstore⟩
    cases hsome : d.store with
    | none => simp [hsome] at hstore
    | some before =>
        simp only [hsome] at hstore
        exact ⟨_, htorque, before, rfl, Prod.ext hstore rfl⟩
  · rintro ⟨store, htorque, before, hsome, hsave⟩
    refine ⟨htorque, ?_⟩
    simp only [hsome, configRegion, profileRegion, hsave]

namespace Session

variable {σ ρ : Type} [ConfigStore σ] [Reply ρ]

/-- Every call but a successful SAVE accounts for what it changes. -/
theorem accounts {s : Session σ ρ} (h : s.disp.Vetted SparesFlags) (c : HostCall)
    (hsave : saveSucceeds s.disp c = false) : Accounts s.disp.table (s.call c).1.table := by
  cases c with
  | request req ctx =>
      have heffect := s.disp.effect_dispatch req ctx s.reply
      simp only [call]
      generalize (s.disp.dispatch req ctx s.reply).2.1 = d' at heffect
      have hsame : Accounts s.disp.table s.disp.revertDangling.table := by
        rw [Dispatcher.revertDangling_table]
        exact .refl _
      cases heffect with
      | none => exact hsame
      | refused => exact hsame
      | staged => exact hsame
      | committed => exact accounts_batch h.items
      | assigned uid newId => exact ⟨fun _ => dirty_setDirty _, fun _ => dirty_setDirty _⟩
      | saved args store hsaves =>
          have hsucceeds : saveSucceeds s.disp (.request (.mgmt .save args) ctx) = true :=
            saves_iff.mpr ⟨store, hsaves⟩
          rw [hsave] at hsucceeds
          cases hsucceeds
      | stored => exact hsame
  | commit =>
      obtain ⟨hverdict, -⟩ := h.commit s.reply
      simp only [call]
      generalize (s.disp.commit s.reply).1 = d' at hverdict
      cases hverdict with
      | none => exact .refl _
      | held => exact .refl _
      | applied pending bytes staged hpending hhold hlength hspares =>
          have hitems : ∀ item ∈ [(pending.addr, bytes)], SparesFlags item.1 item.2 := by
            simpa using hspares
          rw [← hlength]
          exact accounts_batch hitems
  | revert =>
      show Accounts s.disp.table s.disp.revertDangling.table
      rw [Dispatcher.revertDangling_table]
      exact .refl _

theorem vetted_call {s : Session σ ρ} (h : s.disp.Vetted SparesFlags) (c : HostCall) :
    (s.call c).1.Vetted SparesFlags := by
  cases c with
  | request req ctx => exact h.effect vets_sparesFlags (s.disp.effect_dispatch req ctx s.reply)
  | commit => exact (h.commit s.reply).2
  | revert => exact h.revertDangling

/-- A successful SAVE leaves the regions as it stored them. -/
theorem persisted_save {s : Session σ ρ} {c : HostCall} (hsave : saveSucceeds s.disp c = true) :
    persisted (s.call c).1.table = persisted s.disp.table := by
  cases c with
  | request req ctx =>
      have heffect := s.disp.effect_dispatch req ctx s.reply
      simp only [call]
      generalize (s.disp.dispatch req ctx s.reply).2.1 = d' at heffect
      have hsame : persisted s.disp.revertDangling.table = persisted s.disp.table := by
        rw [Dispatcher.revertDangling_table]
      cases heffect with
      | none => exact hsame
      | refused => exact hsame
      | staged => exact hsame
      | committed => cases hsave
      | assigned uid newId => cases hsave
      | saved args store hsaves => exact persisted_set_statusFlags _ _
      | stored => exact hsame
  | commit => cases hsave
  | revert => cases hsave

/-- The entries in wait spare the flag, and a change since the baseline is marked. -/
structure Tracked (s : Session σ ρ) : Prop where
  vetted : s.disp.Vetted SparesFlags
  marked : persisted s.disp.table ≠ s.baseline → dirty s.disp.table = true

theorem Tracked.step {s : Session σ ρ} (h : s.Tracked) (c : HostCall) : (s.step c).Tracked := by
  refine ⟨vetted_call h.vetted c, ?_⟩
  intro hchanged
  cases hsave : saveSucceeds s.disp c with
  | true =>
      simp only [Session.step, hsave, if_true, persisted_save hsave, ne_eq, not_true_eq_false]
        at hchanged
  | false =>
      simp only [Session.step, hsave, Bool.false_eq_true, if_false] at hchanged
      have haccounts := accounts h.vetted c hsave
      by_cases hsame : persisted (s.call c).1.table = persisted s.disp.table
      · rw [hsame] at hchanged
        exact haccounts.kept (h.marked hchanged)
      · exact haccounts.marked hsame

/-- In every run of requests and verdicts after boot: whenever the regions differ
from what was booted or last saved the flag is set, and no call but a successful
SAVE clears it. -/
theorem dirty_flag_is_kept (table : ControlTable) (uid : List Byte) (store : Option σ) (reply : ρ)
    (calls : List HostCall) :
    let s := run Session.step (Session.boot table uid store reply) calls
    (persisted s.disp.table ≠ s.baseline → dirty s.disp.table = true) ∧
      ∀ c, saveSucceeds s.disp c = false → dirty s.disp.table = true →
        dirty (s.step c).disp.table = true := by
  intro s
  have hboot : (Session.boot table uid store reply).Tracked :=
    ⟨Dispatcher.vetted_fresh table uid store, fun hne => absurd rfl hne⟩
  have htracked : s.Tracked :=
    run_invariant Session.step Tracked (fun _ c h => h.step c) hboot calls
  exact ⟨htracked.marked, fun c hsave => (accounts htracked.vetted c hsave).kept⟩

end Session

end OpenServo
