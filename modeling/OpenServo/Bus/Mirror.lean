import OpenServo.Bus.Visible
import OpenServo.Dispatch.Effect

/-!
# The comms registers and the transport

The id and the rate are kept twice: as registers of the table, and as what the
transport runs on.  A write that touches either register tells the transport,
which takes the value over at the end of a reply; ASSIGN tells it at once.  What
the transport runs on, or is about to, is what the registers say.
-/

namespace OpenServo

open Table Dispatcher

namespace Bus

/-- The rate the register selects. -/
def selectedRate (t : ControlTable) : Option BaudRate :=
  BaudRate.fromIdx (t.get Addr.baudRateIdx)

/-- A change of the id or the rate waits for the end of a reply. -/
def Config.outstanding (config : Config) : Bool :=
  config.pendingId.isSome || config.pendingBaud.isSome

/-- The transport runs on what the registers say, or is about to.  `operational`
is the rate it ran on before any rescue. -/
structure Mirrors (operational : BaudRate) (t : ControlTable) (config : Config) : Prop where
  id : config.pendingId.getD config.id = t.get Addr.id
  rate : selectedRate t = some (config.pendingBaud.getD operational)

/-- The same, but for the hooks of these spans, which are still to fire. -/
structure Owes (operational : BaudRate) (spans : List (ℕ × ℕ)) (t : ControlTable)
    (config : Config) : Prop where
  id : (∀ span ∈ spans, touches span.1 span.2 Addr.id 1 = false) →
    config.pendingId.getD config.id = t.get Addr.id
  rate : (∀ span ∈ spans, touches span.1 span.2 Addr.baudRateIdx 1 = false) →
    selectedRate t = some (config.pendingBaud.getD operational)
  valid : (selectedRate t).isSome = true

/-- Some span touches the id or the rate. -/
def tunes (spans : List (ℕ × ℕ)) : Bool :=
  spans.any fun span => touches span.1 span.2 Addr.id 1 || touches span.1 span.2 Addr.baudRateIdx 1

variable {operational : BaudRate} {t t' : ControlTable} {config : Config}

theorem Owes.congr {spans : List (ℕ × ℕ)} (h : Owes operational spans t config)
    (hid : t'.get Addr.id = t.get Addr.id)
    (hrate : t'.get Addr.baudRateIdx = t.get Addr.baudRateIdx) :
    Owes operational spans t' config := by
  have hselected : selectedRate t' = selectedRate t := by
    rw [selectedRate, selectedRate, hrate]
  refine ⟨?_, ?_, ?_⟩
  · rw [hid]
    exact h.id
  · rw [hselected]
    exact h.rate
  · rw [hselected]
    exact h.valid

theorem Mirrors.congr (h : Mirrors operational t config) (hid : t'.get Addr.id = t.get Addr.id)
    (hrate : t'.get Addr.baudRateIdx = t.get Addr.baudRateIdx) : Mirrors operational t' config := by
  refine ⟨h.id.trans hid.symm, ?_⟩
  rw [selectedRate, hrate]
  exact h.rate

theorem mirrors_of_owes (h : Owes operational [] t config) : Mirrors operational t config :=
  ⟨h.id (by simp), h.rate (by simp)⟩

/-! ## The hooks of a span -/

theorem dispatchEvents_config (t : ControlTable) (addr len : ℕ) (config : Config) :
    (dispatchEvents t addr len config).id = config.id ∧
      (dispatchEvents t addr len config).pendingId =
        (if touches addr len Addr.id 1 then some (t.get Addr.id) else config.pendingId) ∧
      (dispatchEvents t addr len config).pendingBaud =
        if touches addr len Addr.baudRateIdx 1 then (selectedRate t).or config.pendingBaud
        else config.pendingBaud := by
  simp only [dispatchEvents, selectedRate]
  cases touches addr len Addr.id 1 <;> cases touches addr len Addr.baudRateIdx 1 <;>
    cases BaudRate.fromIdx (t.get Addr.baudRateIdx) <;>
    cases touches addr len Addr.responseDeadlineUs 2 <;> exact ⟨rfl, rfl, rfl⟩

theorem Owes.dispatchEvents {addr len : ℕ} {spans : List (ℕ × ℕ)}
    (h : Owes operational ((addr, len) :: spans) t config) :
    Owes operational spans t (dispatchEvents t addr len config) := by
  obtain ⟨hid, hpendingId, hpendingBaud⟩ := dispatchEvents_config t addr len config
  refine ⟨fun hrest => ?_, fun hrest => ?_, h.valid⟩
  · rw [hpendingId, hid]
    cases htouched : touches addr len Addr.id 1 with
    | true => rfl
    | false =>
        refine h.id fun span hmem => ?_
        obtain rfl | hlater := List.mem_cons.mp hmem
        · exact htouched
        · exact hrest span hlater
  · rw [hpendingBaud]
    cases htouched : touches addr len Addr.baudRateIdx 1 with
    | true =>
        obtain ⟨rate, hrate⟩ := Option.isSome_iff_exists.mp h.valid
        rw [hrate]
        rfl
    | false =>
        refine h.rate fun span hmem => ?_
        obtain rfl | hlater := List.mem_cons.mp hmem
        · exact htouched
        · exact hrest span hlater

theorem outstanding_dispatchEvents {addr len : ℕ}
    (h : (dispatchEvents t addr len config).outstanding = true) :
    config.outstanding = true ∨ tunes [(addr, len)] = true := by
  obtain ⟨-, hpendingId, hpendingBaud⟩ := dispatchEvents_config t addr len config
  simp only [Config.outstanding, hpendingId, hpendingBaud] at h
  simp only [tunes, List.any_cons, List.any_nil, Bool.or_false, Config.outstanding]
  cases hid : touches addr len Addr.id 1 with
  | true => exact .inr rfl
  | false =>
      cases hrate : touches addr len Addr.baudRateIdx 1 with
      | true => exact .inr rfl
      | false =>
          simp only [hid, hrate, Bool.false_eq_true, if_false] at h
          exact .inl h

/-! ## Applied entries -/

theorem get_setDirty (t : ControlTable) {i : ℕ} (h : i ≠ Addr.statusFlags) :
    (setDirty t).get i = t.get i := by
  rw [setDirty, Storage.get_set (by decide), if_neg h]

theorem get_markDirtyIfPersistent (t : ControlTable) (addr len : ℕ) {i : ℕ}
    (h : i ≠ Addr.statusFlags) : (markDirtyIfPersistent t addr len).get i = t.get i := by
  rw [markDirtyIfPersistent]
  split
  · exact get_setDirty t h
  · rfl

theorem Owes.markDirty {spans : List (ℕ × ℕ)} (h : Owes operational spans t config)
    (addr len : ℕ) :
    Owes operational spans (markDirtyIfPersistent t addr len) config :=
  h.congr (get_markDirtyIfPersistent t addr len (by decide))
    (get_markDirtyIfPersistent t addr len (by decide))

theorem Owes.applyEvents {spans : List (ℕ × ℕ)} (h : Owes operational spans t config) :
    Mirrors operational (applyEvents t spans config).1
      (applyEvents t spans config).2 := by
  simp only [Dispatcher.applyEvents]
  induction spans generalizing t config with
  | nil => exact mirrors_of_owes h
  | cons span spans ih => exact ih (h.markDirty span.1 span.2).dispatchEvents

theorem outstanding_applyEvents {spans : List (ℕ × ℕ)}
    (h : (applyEvents t spans config).2.outstanding = true) :
    config.outstanding = true ∨ tunes spans = true := by
  simp only [applyEvents] at h
  induction spans generalizing t config with
  | nil => exact .inl h
  | cons span spans ih =>
      obtain hbefore | htunes := ih h
      · obtain hold | hspan := outstanding_dispatchEvents hbefore
        · exact .inl hold
        · right
          simp only [tunes, List.any_cons, List.any_nil, Bool.or_false] at hspan ⊢
          rw [hspan, Bool.true_or]
      · right
        simp only [tunes, List.any_cons] at htunes ⊢
        rw [htunes, Bool.or_true]

theorem not_mem_of_not_touches {addr len i : ℕ} (h : touches addr len i 1 = false) :
    ¬ (addr ≤ i ∧ i < addr + len) := by
  simp only [touches, Bool.and_eq_false_iff, decide_eq_false_iff_not] at h
  omega

theorem get_applyEntries {items : List (ℕ × List Byte)} {i : ℕ}
    (h : ∀ item ∈ items, touches item.1 item.2.length i 1 = false) :
    (applyEntries t items).get i = t.get i := by
  induction items generalizing t with
  | nil => rfl
  | cons item items ih =>
      have hrest := ih (t := t.copy item.1 item.2) fun later hmem =>
        h later (List.mem_cons_of_mem _ hmem)
      refine hrest.trans (Storage.get_copy_of_not_mem ?_)
      exact not_mem_of_not_touches (h item List.mem_cons_self)

/-! ## Rates that were checked -/

/-- A write that reaches the rate register writes an index there. -/
def RateEntry (addr : ℕ) (data : List Byte) : Prop :=
  addr ≤ Addr.baudRateIdx → Addr.baudRateIdx < addr + data.length →
    (BaudRate.fromIdx (data.getD (Addr.baudRateIdx - addr) 0)).isSome = true

theorem selectedRate_copy (h : (selectedRate t).isSome = true) {addr : ℕ} {data : List Byte}
    (hentry : RateEntry addr data) : (selectedRate (t.copy addr data)).isSome = true := by
  rw [selectedRate]
  by_cases hin : addr ≤ Addr.baudRateIdx ∧ Addr.baudRateIdx < addr + data.length
  · by_cases hfits : addr + data.length ≤ controlMap.size
    · rw [Storage.get_copy hfits, if_pos hin]
      exact hentry hin.1 hin.2
    · rw [Storage.copy, dif_neg hfits]
      exact h
  · rw [Storage.get_copy_of_not_mem hin]
    exact h

theorem selectedRate_applyEntries (h : (selectedRate t).isSome = true)
    {items : List (ℕ × List Byte)} (hitems : ∀ item ∈ items, RateEntry item.1 item.2) :
    (selectedRate (applyEntries t items)).isSome = true := by
  induction items generalizing t with
  | nil => exact h
  | cons item items ih =>
      exact ih (selectedRate_copy h (hitems item List.mem_cons_self)) fun later hmem =>
        hitems later (List.mem_cons_of_mem _ hmem)

/-- The rule on the rate register, as the table derive packs it. -/
def rateRule : CmpRule := cmpRuleOf Addr.baudRateIdx (.uint 1 []) (.le, .imm 3)

theorem rateRule_mem : rateRule ∈ controlMap.cmpRules := by decide +kernel

theorem fromIdx_of_le : ∀ b : Byte, b.toNat ≤ 3 → (BaudRate.fromIdx b).isSome = true := by
  intro b hle
  simp only [BaudRate.fromIdx]
  generalize b.toNat = n at hle
  match n, hle with
  | 0, _ | 1, _ | 2, _ | 3, _ => rfl

/-- Loading an unsigned byte. -/
theorem widen_byte (t : ControlTable) {addr : ℕ} (h : addr + 1 ≤ controlMap.size) :
    widen (.plain t) addr 1 false = .ok ((t.get addr).toNat : ℤ) := by
  rw [widen, View.readFixed_eq (Storage.length_eq _), View.plain, if_neg (Nat.not_lt.mpr h)]
  have hbyte : (View.mk t.bytes controlMap.size 0 [] []).pick addr = t.get addr :=
    View.pick_plain t addr
  simp [bind, Except.bind, pure, Except.pure, List.range_succ, leNat, hbyte]

theorem selectedRate_of_rule (h : rateRule.Holds t) : (selectedRate t).isSome = true := by
  have hload := widen_byte t (show Addr.baudRateIdx + 1 ≤ controlMap.size by decide)
  have hrhs : rateRule.rhs = .imm 3 := by decide
  have hspec : (rateRule.spec &&& 0xF).toNat = 1 ∧ (rateRule.spec &&& specSigned != 0) = false ∧
      (rateRule.spec &&& specAbs != 0) = false ∧ ((rateRule.spec >>> 8) &&& 0xFF).toNat = 1 := by
    decide
  obtain ⟨hwidth, hsigned, habs, hop⟩ := hspec
  rw [CmpRule.Holds, hrhs] at h
  simp only [checkCmp, hwidth, hsigned, habs, hop] at h
  change (widen (.plain t) Addr.baudRateIdx 1 false >>= _) = _ at h
  obtain ⟨a, ha, h⟩ := ok_of_bind h
  obtain ⟨r, hr, h⟩ := ok_of_bind h
  obtain rfl := Except.ok.inj (hload.symm.trans ha)
  obtain rfl := Except.ok.inj hr
  simp only [Bool.false_eq_true, if_false] at h
  split at h
  · rename_i hholds
    simp only [cmpHolds, decide_eq_true_eq] at hholds
    exact fromIdx_of_le _ (by omega)
  · cases h

theorem vets_rateEntry : Vets RateEntry := by
  intro t addr head tail hok hlow hhigh
  obtain hempty | hvalid := validated_of_validate controlMap_indexed hok
  · rw [hempty, List.length_nil] at hhigh
    omega
  · have hmeets : overlaps rateRule.addr rateRule.width addr (addr + (head ++ tail).length) =
        true := by
      have hwidth : rateRule.width = 1 := by decide
      simp only [overlaps, hwidth, Bool.and_eq_true, decide_eq_true_eq]
      exact ⟨hhigh, Nat.lt_succ_of_le hlow⟩
    have hselected := selectedRate_of_rule (hvalid.cmp _ rateRule_mem hmeets)
    rw [selectedRate, Storage.get_copy hvalid.fits, if_pos ⟨hlow, hhigh⟩] at hselected
    exact hselected

/-- Applied entries leave their hooks to fire. -/
theorem Mirrors.applyEntries (h : Mirrors operational t config) {items : List (ℕ × List Byte)}
    (hitems : ∀ item ∈ items, RateEntry item.1 item.2) :
    Owes operational (items.map fun item => (item.1, item.2.length))
      (Table.applyEntries t items) config := by
  have hvalid : (selectedRate t).isSome = true := by rw [h.rate]; rfl
  refine ⟨fun huntouched => ?_, fun huntouched => ?_, selectedRate_applyEntries hvalid hitems⟩
  · rw [get_applyEntries fun item hmem => huntouched _ (List.mem_map_of_mem hmem)]
    exact h.id
  · rw [selectedRate, get_applyEntries fun item hmem => huntouched _ (List.mem_map_of_mem hmem)]
    exact h.rate

/-! ## What requests do -/

section Requests

variable {σ : Type} {d : Dispatcher σ}

/-- The span of an open plain write. -/
def openSpans (d : Dispatcher σ) : List (ℕ × ℕ) :=
  match d.pending with
  | some write => if write.hold then [] else [(write.addr, write.len)]
  | none => []

/-- The verdict of commit keeps the two in step. -/
theorem Mirrors.commit (hvetted : d.Vetted RateEntry) (h : Mirrors operational d.table config) :
    Mirrors operational (d.commit config).1.table (d.commit config).2 := by
  obtain ⟨held, opened, hstaging, -, hopened⟩ := hvetted
  cases opened with
  | none =>
      obtain ⟨hpending, -⟩ := hstaging
      simp only [Dispatcher.commit, hpending]
      exact h
  | some write =>
      obtain ⟨base, -, hpushed, hpending⟩ := hstaging
      simp only [Dispatcher.commit, hpending]
      cases hhold : write.hold with
      | true => exact h
      | false =>
          simp only [Bool.false_eq_true, if_false, commitFrom, hpushed.iterFrom]
          have hentries : ∀ item ∈ [(write.addr, write.bytes)], RateEntry item.1 item.2 := by
            intro item hmem
            rw [List.mem_singleton.mp hmem]
            exact hopened write rfl
          have howes := h.applyEntries hentries
          exact mirrors_of_owes (howes.markDirty _ _).dispatchEvents

theorem outstanding_commit (h : (d.commit config).2.outstanding = true) :
    config.outstanding = true ∨ tunes (openSpans d) = true := by
  simp only [Dispatcher.commit] at h
  simp only [openSpans]
  split at h
  · exact .inl h
  · rename_i write hpending
    rw [hpending]
    dsimp only
    cases hhold : write.hold with
    | true =>
        simp only [hhold, if_true] at h
        exact .inl h
    | false =>
        simp only [hhold, Bool.false_eq_true, if_false] at h ⊢
        exact outstanding_dispatchEvents h

/-- The spans a request applies once its frame has passed. -/
def appliedSpans (d : Dispatcher σ) : Request FrameBytes → List (ℕ × ℕ)
  | .write addr data hold =>
      if hold then []
      else
        match stageSplit d.table addr data.head data.tail d.revertDangling.staged with
        | .ok _ => [(addr, data.len)]
        | .error _ => []
  | .commit => d.revertDangling.staged.iterAll.map fun item => (item.1, item.2.length)
  | _ => []

/-- An ASSIGN that this servo takes, while another id waits. -/
def overruled (d : Dispatcher σ) (config : Config) : Request FrameBytes → Bool
  | .assign uid newId =>
      uid == d.uid && (Id.tryUnicast newId).isSome && config.pendingId.any (· != newId)
  | _ => false

variable [ConfigStore σ]

omit [ConfigStore σ] in
theorem config_ackCode (alert : Bool) (ctx : RequestCtx) (code : ResultCode) (config : Config) :
    ackCode alert ctx code config = config := by
  simp only [ackCode]
  split <;> rfl

theorem config_mgmt (d : Dispatcher σ) (alert : Bool) (ctx : RequestCtx) (op : MgmtOp)
    (config : Config) :
    ∃ pendingReboot, (d.mgmt alert ctx op config).2 = { config with pendingReboot } := by
  cases op with
  | save =>
      simp only [mgmt, save, Dispatcher.ack, config_ackCode]
      repeat' split
      all_goals exact ⟨_, rfl⟩
  | factory =>
      simp only [mgmt, factory, Dispatcher.ack, config_ackCode]
      repeat' split
      all_goals exact ⟨_, rfl⟩
  | reboot =>
      simp only [mgmt, Dispatcher.ack, config_ackCode]
      exact ⟨_, rfl⟩
  | _ =>
      simp only [mgmt, instructionError]
      split <;> exact ⟨_, rfl⟩

theorem get_mgmt (d : Dispatcher σ) (alert : Bool) (ctx : RequestCtx) (op : MgmtOp)
    (config : Config) {i : ℕ} (h : i ≠ Addr.statusFlags) :
    (d.mgmt alert ctx op config).1.table.get i = d.table.get i := by
  cases op with
  | save =>
      simp only [mgmt, save]
      repeat' split
      all_goals first
        | rfl
        | rw [Storage.get_set (by decide), if_neg h]
  | factory =>
      simp only [mgmt, factory]
      repeat' split
      all_goals rfl
  | _ => rfl

theorem Mirrors.mgmt (h : Mirrors operational d.table config) (alert : Bool) (ctx : RequestCtx)
    (op : MgmtOp) :
    Mirrors operational (d.mgmt alert ctx op config).1.table (d.mgmt alert ctx op config).2 := by
  obtain ⟨pendingReboot, hconfig⟩ := config_mgmt d alert ctx op config
  have hkept : Mirrors operational d.table { config with pendingReboot } := ⟨h.id, h.rate⟩
  rw [hconfig]
  exact hkept.congr (get_mgmt d alert ctx op config (by decide))
    (get_mgmt d alert ctx op config (by decide))

omit [ConfigStore σ] in
theorem Mirrors.assign (h : Mirrors operational d.table config) (alert : Bool) (ctx : RequestCtx)
    (uid : List Byte) (newId : Byte) (hover : overruled d config (.assign uid newId) = false) :
    Mirrors operational (d.assign alert ctx uid newId config).1.table
      (d.assign alert ctx uid newId config).2 := by
  simp only [Dispatcher.assign, Dispatcher.ack, config_ackCode]
  split
  · exact h
  · rename_i hmine
    split
    · exact h
    · rename_i hvalid
      have hunicast : (Id.tryUnicast newId).isSome = true := by
        simpa only [Option.isSome_iff_ne_none, ne_eq, Option.isNone_iff_eq_none] using hvalid
      have hwaiting : config.pendingId.getD newId = newId := by
        simp only [overruled, not_not.mp hmine, hunicast, beq_self_eq_true, Bool.true_and] at hover
        cases hpending : config.pendingId with
        | none => rfl
        | some id =>
            rw [hpending] at hover
            simpa using hover
      refine ⟨?_, ?_⟩
      · rw [get_setDirty _ (by decide), Storage.get_set (by decide), if_pos rfl]
        exact hwaiting
      · rw [selectedRate, get_setDirty _ (by decide), Storage.get_set (by decide),
          if_neg (by decide)]
        exact h.rate

/-- A dispatch keeps the two in step, unless it assigns past a waiting id. -/
theorem Mirrors.dispatch (hvetted : d.Vetted RateEntry) (h : Mirrors operational d.table config)
    {req : Request FrameBytes} (ctx : RequestCtx) (hover : overruled d config req = false) :
    Mirrors operational (d.dispatch req ctx config).2.1.table (d.dispatch req ctx config).2.2 := by
  have htable := d.revertDangling_table
  have hreverted : Mirrors operational d.revertDangling.table config := by rw [htable]; exact h
  cases hstages : req.stages with
  | true =>
      obtain ⟨hsame, -, hconfig⟩ :=
        Dispatcher.keeps_dispatch (World.Config.keeps config) rfl d ctx hstages
      rw [hsame, hconfig]
      exact h
  | false =>
      cases req with
      | commit =>
          have howes := hreverted.applyEntries hvetted.items
          have hmirrors := howes.applyEvents
          simpa only [Dispatcher.dispatch, applyCommit, commitStaged, Dispatcher.ack,
            config_ackCode]
            using hmirrors
      | assign uid newId =>
          have huid : d.revertDangling.uid = d.uid := by
            simp only [revertDangling]
            split <;> rfl
          refine hreverted.assign d.revertDangling.alert ctx uid newId ?_
          simpa only [overruled, huid] using hover
      | calibrate => exact ⟨hreverted.id, hreverted.rate⟩
      | mgmt op args => exact hreverted.mgmt d.revertDangling.alert ctx op
      | _ => cases hstages

theorem outstanding_dispatch {req : Request FrameBytes} {ctx : RequestCtx}
    (h : (d.dispatch req ctx config).2.2.outstanding = true) :
    config.outstanding = true ∨ (req = .commit ∧ tunes (appliedSpans d .commit) = true) := by
  cases hstages : req.stages with
  | true =>
      obtain ⟨-, -, hconfig⟩ :=
        Dispatcher.keeps_dispatch (World.Config.keeps config) rfl d ctx hstages
      rw [hconfig] at h
      exact .inl h
  | false =>
      cases req with
      | commit =>
          simp only [Dispatcher.dispatch, applyCommit, Dispatcher.ack, config_ackCode] at h
          obtain hbefore | htunes := outstanding_applyEvents h
          · exact .inl hbefore
          · exact .inr ⟨rfl, htunes⟩
      | assign uid newId =>
          left
          simp only [Dispatcher.dispatch, Dispatcher.assign, Dispatcher.ack, config_ackCode] at h
          split at h
          · exact h
          · split at h
            · exact h
            · exact h
      | calibrate => exact .inl h
      | mgmt op args =>
          obtain ⟨_, hconfig⟩ := config_mgmt d.revertDangling d.revertDangling.alert ctx op config
          left
          simp only [Dispatcher.dispatch, hconfig] at h
          exact h
      | _ => cases hstages

end Requests

end Bus

end OpenServo
