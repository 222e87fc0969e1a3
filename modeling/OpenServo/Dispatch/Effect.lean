import OpenServo.Dispatch.Reference
import OpenServo.Table.Validity

/-!
# Everything a request can do to the table plane

One case for each way a request or a verdict changes the dispatcher, whatever the
reply surface.  Results about whole runs take a run apart with these cases and
never unfold the dispatcher.
-/

namespace OpenServo

open Table

namespace Dispatcher

variable {σ : Type}

/-- The dirty accounting of applied spans. -/
def markDirtyAll (t : ControlTable) (spans : List (ℕ × ℕ)) : ControlTable :=
  spans.foldl (fun t span => markDirtyIfPersistent t span.1 span.2) t

def clearDirty (t : ControlTable) : ControlTable :=
  t.set Addr.statusFlags (t.get Addr.statusFlags &&& ~~~statusFlagConfigDirty)

/-- The SAVE this dispatcher would make succeeds, and leaves this store. -/
def Saves [ConfigStore σ] (d : Dispatcher σ) (store : σ) : Prop :=
  d.table.torqueEnable = false ∧ ∃ before, d.store = some before ∧
    ConfigStore.save before ((d.table.bytes.drop configBaseAddr).take configRegionSize)
      ((d.table.bytes.drop profileBaseAddr).take profileRegionSize) = (true, store)

/-- What a request makes of the dispatcher. -/
inductive Effect [ConfigStore σ] (d : Dispatcher σ) : Request FrameBytes → Dispatcher σ → Prop where
  | none (req : Request FrameBytes) : (∀ addr data hold, req ≠ .write addr data hold) →
      req ≠ .commit → Effect d req d.revertDangling
  | refused (addr : ℕ) (data : FrameBytes) (hold : Bool) (e : Error) :
      stageSplit d.table addr data.head data.tail d.revertDangling.staged = .error e →
      Effect d (.write addr data hold) d.revertDangling
  | staged (addr : ℕ) (data : FrameBytes) (hold : Bool) (staged : StagedWrites) :
      stageSplit d.table addr data.head data.tail d.revertDangling.staged = .ok staged →
      Effect d (.write addr data hold)
        { d.revertDangling with
          staged := staged
          pending := some ⟨d.revertDangling.staged.snapshot, hold, addr, data.len⟩ }
  | committed :
      Effect d .commit
        { d.revertDangling with
          table := markDirtyAll (applyEntries d.table d.revertDangling.staged.iterAll)
            (d.revertDangling.staged.iterAll.map fun item => (item.1, item.2.length))
          staged := d.revertDangling.staged.clear }
  | assigned (uid : List Byte) (newId : Byte) : uid = d.uid → (Id.tryUnicast newId).isSome →
      Effect d (.assign uid newId)
        { d.revertDangling with table := setDirty (d.table.set Addr.id newId) }
  | saved (args : FrameBytes) (store : σ) : d.Saves store →
      Effect d (.mgmt .save args)
        { d.revertDangling with table := clearDirty d.table, store := some store }
  | stored (op : MgmtOp) (args : FrameBytes) (store : σ) : (op = .save → ∀ after, ¬ d.Saves after) →
      Effect d (.mgmt op args) { d.revertDangling with store := some store }

section Requests

variable {ρ : Type} [ConfigStore σ] [Reply ρ]

theorem effect_write (d : Dispatcher σ) (addr : ℕ) (data : FrameBytes) (hold : Bool)
    (ctx : RequestCtx) (reply : ρ) :
    d.Effect (.write addr data hold) (d.dispatch (.write addr data hold) ctx reply).2.1 := by
  have htable := d.revertDangling_table
  simp only [dispatch, write, FrameBytes.segments]
  cases hstage : stageSplit d.revertDangling.table addr data.head data.tail
      d.revertDangling.staged with
  | ok staged =>
      rw [htable] at hstage
      exact .staged addr data hold staged hstage
  | error e =>
      rw [htable] at hstage
      cases e <;> exact .refused addr data hold _ hstage

theorem effect_commit (d : Dispatcher σ) (ctx : RequestCtx) (reply : ρ) :
    d.Effect .commit (d.dispatch .commit ctx reply).2.1 := by
  have heffect : d.Effect .commit _ := .committed
  simpa only [dispatch, applyCommit, commitStaged, applyEvents_table, revertDangling_table,
    markDirtyAll] using heffect

theorem effect_assign (d : Dispatcher σ) (uid : List Byte) (newId : Byte) (ctx : RequestCtx)
    (reply : ρ) : d.Effect (.assign uid newId) (d.dispatch (.assign uid newId) ctx reply).2.1 := by
  have huid : d.revertDangling.uid = d.uid := by
    simp only [revertDangling]
    split <;> rfl
  simp only [dispatch, assign, huid, revertDangling_table]
  split
  · exact .none _ (by simp) (by simp)
  · rename_i hmine
    split
    · exact .none _ (by simp) (by simp)
    · rename_i hvalid
      have hunicast : (Id.tryUnicast newId).isSome = true := by
        simpa only [Option.isSome_iff_ne_none, ne_eq, Option.isNone_iff_eq_none] using hvalid
      have heffect : d.Effect (.assign uid newId) _ :=
        .assigned uid newId (not_not.mp hmine) hunicast
      simpa only [huid] using heffect

theorem effect_save (d : Dispatcher σ) (args : FrameBytes) (ctx : RequestCtx) (reply : ρ) :
    d.Effect (.mgmt .save args) (d.dispatch (.mgmt .save args) ctx reply).2.1 := by
  simp only [dispatch, mgmt, save, revertDangling_table, revertDangling_store]
  split
  · exact .none _ (by simp) (by simp)
  · rename_i htorque
    split
    · exact .none _ (by simp) (by simp)
    · rename_i before hstore
      split
      · rename_i after hsave
        exact .saved args after ⟨Bool.eq_false_iff.mpr htorque, before, hstore, hsave⟩
      · rename_i after hfail
        have hfails : ∀ store, ¬ d.Saves store := by
          rintro store ⟨-, before', hstore', hsave⟩
          obtain rfl := Option.some.inj (hstore.symm.trans hstore')
          rw [hfail] at hsave
          cases hsave
        have heffect : d.Effect (.mgmt .save args) _ := .stored .save args after fun _ => hfails
        simpa only [revertDangling_table] using heffect

theorem effect_factory (d : Dispatcher σ) (args : FrameBytes) (ctx : RequestCtx) (reply : ρ) :
    d.Effect (.mgmt .factory args) (d.dispatch (.mgmt .factory args) ctx reply).2.1 := by
  simp only [dispatch, mgmt, factory, revertDangling_table, revertDangling_store]
  split
  · exact .none _ (by simp) (by simp)
  · split
    · exact .none _ (by simp) (by simp)
    · split
      · rename_i after _
        have heffect : d.Effect (.mgmt .factory args) _ := .stored .factory args after (by simp)
        simpa only [revertDangling_table] using heffect
      · rename_i after _
        have heffect : d.Effect (.mgmt .factory args) _ := .stored .factory args after (by simp)
        simpa only [revertDangling_table] using heffect

/-- Every request has one of these effects. -/
theorem effect_dispatch (d : Dispatcher σ) (req : Request FrameBytes) (ctx : RequestCtx)
    (reply : ρ) : d.Effect req (d.dispatch req ctx reply).2.1 := by
  cases req with
  | write addr data hold => exact d.effect_write addr data hold ctx reply
  | commit => exact d.effect_commit ctx reply
  | assign uid newId => exact d.effect_assign uid newId ctx reply
  | mgmt op args =>
      cases op with
      | save => exact d.effect_save args ctx reply
      | factory => exact d.effect_factory args ctx reply
      | _ => exact .none _ (by simp) (by simp)
  | _ => exact .none _ (by simp) (by simp)

end Requests

/-! ## Entries that were checked -/

/-- Every entry in wait, held or open, satisfies `P`. -/
def Vetted (P : ℕ → List Byte → Prop) (d : Dispatcher σ) : Prop :=
  ∃ held opened, d.Staging held opened ∧ (∀ item ∈ held, P item.1 item.2) ∧
    ∀ write, opened = some write → P write.addr write.bytes

/-- Validation lets through only what satisfies `P`. -/
def Vets (P : ℕ → List Byte → Prop) : Prop :=
  ∀ (t : ControlTable) (addr : ℕ) (head tail : List Byte),
    validate controlMap t addr head tail = .ok () → P addr (head ++ tail)

variable {P : ℕ → List Byte → Prop} {d : Dispatcher σ}

theorem vetted_fresh (table : ControlTable) (uid : List Byte) (store : Option σ) :
    Vetted P (fresh table uid store) :=
  ⟨[], none, ⟨rfl, holds_new⟩, fun _ hmem => absurd hmem List.not_mem_nil,
    fun _ hnone => by cases hnone⟩

theorem Vetted.revertDangling (h : d.Vetted P) : d.revertDangling.Vetted P := by
  obtain ⟨held, opened, hstaging, hheld, -⟩ := h
  exact ⟨held, none, hstaging.revertDangling, hheld, fun _ hnone => by cases hnone⟩

theorem Vetted.items (h : d.Vetted P) :
    ∀ item ∈ d.revertDangling.staged.iterAll, P item.1 item.2 := by
  obtain ⟨held, opened, hstaging, hheld, -⟩ := h
  rw [hstaging.revertDangling.2.entries]
  exact hheld

theorem Vetted.effect [ConfigStore σ] (hvets : Vets P) (h : d.Vetted P) {req : Request FrameBytes}
    {d' : Dispatcher σ} (heffect : d.Effect req d') : d'.Vetted P := by
  cases heffect with
  | none => exact h.revertDangling
  | refused => exact h.revertDangling
  | staged addr data hold staged hstage =>
      obtain ⟨⟨⟩, hok, hpush⟩ := ok_of_bind hstage
      obtain ⟨held, opened, hstaging, hheld, -⟩ := h
      refine ⟨held, some ⟨hold, addr, data.bytes⟩, ⟨d.revertDangling.staged,
        hstaging.revertDangling.2, StagedWrites.pushSplit_eq_ok.mp hpush, ?_⟩, hheld, ?_⟩
      · simp only [FrameBytes.length_bytes]
      · intro write hwrite
        obtain rfl := Option.some.inj hwrite
        exact hvets _ _ _ _ hok
  | committed =>
      refine ⟨[], none, ⟨d.revertDangling_pending, holds_new⟩,
        fun _ hmem => absurd hmem List.not_mem_nil, fun _ hnone => by cases hnone⟩
  | assigned => exact h.revertDangling
  | saved => exact h.revertDangling
  | stored => exact h.revertDangling

/-- The verdict of an open write. -/
inductive Verdict (P : ℕ → List Byte → Prop) (d : Dispatcher σ) : Dispatcher σ → Prop where
  | none : d.pending = none → Verdict P d d
  | held (pending : PendingWrite) : d.pending = some pending → pending.hold = true →
      Verdict P d { d with pending := none }
  | applied (pending : PendingWrite) (bytes : List Byte) (staged : StagedWrites) :
      d.pending = some pending → pending.hold = false → bytes.length = pending.len →
      P pending.addr bytes →
      Verdict P d
        { d with
          table := markDirtyIfPersistent (d.table.copy pending.addr bytes) pending.addr pending.len
          staged := staged
          pending := none }

theorem Vetted.commit {ρ : Type} [Reply ρ] (h : d.Vetted P) (reply : ρ) :
    Verdict P d (d.commit reply).1 ∧ (d.commit reply).1.Vetted P := by
  obtain ⟨held, opened, hstaging, hheld, hopened⟩ := h
  cases opened with
  | none =>
      obtain ⟨hpending, hholds⟩ := hstaging
      simp only [Dispatcher.commit, hpending]
      exact ⟨.none hpending, held, none, ⟨hpending, hholds⟩, hheld, fun _ hnone => by cases hnone⟩
  | some write =>
      obtain ⟨base, hholds, hpushed, hpending⟩ := hstaging
      have hwrite := hopened write rfl
      simp only [Dispatcher.commit, hpending]
      cases hhold : write.hold with
      | true =>
          simp only [if_true]
          refine ⟨.held _ hpending hhold, held ++ [(write.addr, write.bytes)], none,
            ⟨rfl, hholds.pushed hpushed⟩, ?_, fun _ hnone => by cases hnone⟩
          intro item hmem
          obtain hold | hnew := List.mem_append.mp hmem
          · exact hheld item hold
          · rw [List.mem_singleton.mp hnew]
            exact hwrite
      | false =>
          simp only [Bool.false_eq_true, if_false, commitFrom, hpushed.iterFrom, hpushed.revertTo]
          exact ⟨.applied _ write.bytes base hpending hhold rfl hwrite, held, none,
            ⟨rfl, hholds⟩, hheld, fun _ hnone => by cases hnone⟩

end Dispatcher

end OpenServo
