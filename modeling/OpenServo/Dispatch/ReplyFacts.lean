import OpenServo.Dispatch.Dispatcher

/-!
# The dispatcher and its reply surface

The dispatcher only calls the reply surface, it never looks at it.  Two
surfaces that stay related under every call stay related under a dispatch,
and the dispatcher's own result is the same over both.  Requests that stage
nothing but a reply or a write call nothing but the send operations.
-/

namespace OpenServo

section Relations

variable {ρ τ : Type} [Reply ρ] [Reply τ]

/-- Every call of the reply surface keeps the two sides related. -/
structure Reply.Sim (rel : ρ → τ → Prop) : Prop where
  sendStatus : ∀ {r t} status, rel r t → rel (Reply.sendStatus r status) (Reply.sendStatus t status)
  sendStatusGather : ∀ {r t} result alert spans, rel r t →
    rel (Reply.sendStatusGather r result alert spans) (Reply.sendStatusGather t result alert spans)
  stageId : ∀ {r t} id, rel r t → rel (Reply.stageId r id) (Reply.stageId t id)
  setId : ∀ {r t} id, rel r t → rel (Reply.setId r id) (Reply.setId t id)
  stageBaud : ∀ {r t} baud, rel r t → rel (Reply.stageBaud r baud) (Reply.stageBaud t baud)
  setResponseDeadline : ∀ {r t} us, rel r t →
    rel (Reply.setResponseDeadline r us) (Reply.setResponseDeadline t us)
  stageReboot : ∀ {r t} mode, rel r t → rel (Reply.stageReboot r mode) (Reply.stageReboot t mode)
  beginClockCal : ∀ {r t} gapUs gaps, rel r t →
    rel (Reply.beginClockCal r gapUs gaps) (Reply.beginClockCal t gapUs gaps)

/-- The send calls keep a property of the surface. -/
structure Reply.Keeps (inv : ρ → Prop) : Prop where
  sendStatus : ∀ {r} status, inv r → inv (Reply.sendStatus r status)
  sendStatusGather : ∀ {r} result alert spans, inv r →
    inv (Reply.sendStatusGather r result alert spans)

end Relations

/-- Requests whose effects all stage: a reply, or a write. -/
def Request.stages {δ : Type} : Request δ → Bool
  | .ping | .read _ _ | .readProfile _ | .write _ _ _ | .enumerate _ _ | .unsupported => true
  | .commit | .assign _ _ | .calibrate _ _ | .mgmt _ _ => false

namespace Dispatcher

variable {σ ρ τ : Type} [ConfigStore σ] [Reply ρ] [Reply τ]

/-! ## Related surfaces -/

section Related

variable {rel : ρ → τ → Prop} (hsim : Reply.Sim rel) {r : ρ} {t : τ}

include hsim

theorem rel_ackCode (hrel : rel r t) (alert : Bool) (ctx : RequestCtx) (code : ResultCode) :
    rel (ackCode alert ctx code r) (ackCode alert ctx code t) := by
  simp only [ackCode]
  split
  · exact hrel
  · exact hsim.sendStatus _ hrel

theorem rel_ack (hrel : rel r t) (alert : Bool) (ctx : RequestCtx)
    (result : Except Table.Error Unit) :
    rel (ack alert ctx result r) (ack alert ctx result t) :=
  rel_ackCode hsim hrel alert ctx _

theorem rel_instructionError (hrel : rel r t) (alert : Bool) (ctx : RequestCtx) :
    rel (instructionError alert ctx r) (instructionError alert ctx t) := by
  simp only [instructionError]
  split
  · exact hrel
  · exact hsim.sendStatus _ hrel

theorem rel_dispatchEvents (hrel : rel r t) (table : Table.ControlTable) (addr len : ℕ) :
    rel (dispatchEvents table addr len r) (dispatchEvents table addr len t) := by
  have hid : rel (if touches addr len Table.Addr.id 1 then
        Reply.stageId r (table.get Table.Addr.id) else r)
      (if touches addr len Table.Addr.id 1 then
        Reply.stageId t (table.get Table.Addr.id) else t) := by
    split
    · exact hsim.stageId _ hrel
    · exact hrel
  simp only [dispatchEvents]
  cases touches addr len Table.Addr.baudRateIdx 1 <;>
    cases BaudRate.fromIdx (table.get Table.Addr.baudRateIdx) <;>
    cases touches addr len Table.Addr.responseDeadlineUs 2
  all_goals first
    | exact hid
    | exact hsim.stageBaud _ hid
    | exact hsim.setResponseDeadline _ hid
    | exact hsim.setResponseDeadline _ (hsim.stageBaud _ hid)

theorem rel_applyEvents (hrel : rel r t) (table : Table.ControlTable) (spans : List (ℕ × ℕ)) :
    (applyEvents table spans r).1 = (applyEvents table spans t).1 ∧
      rel (applyEvents table spans r).2 (applyEvents table spans t).2 := by
  simp only [applyEvents]
  induction spans generalizing table r t with
  | nil => exact ⟨rfl, hrel⟩
  | cons span spans ih =>
      simp only [List.foldl_cons]
      exact ih (rel_dispatchEvents hsim hrel _ _ _) _

omit [ConfigStore σ] in
/-- A commit gives the same dispatcher over related surfaces. -/
theorem rel_commit (hrel : rel r t) (d : Dispatcher σ) :
    (d.commit r).1 = (d.commit t).1 ∧ rel (d.commit r).2 (d.commit t).2 := by
  simp only [commit]
  split
  · exact ⟨rfl, hrel⟩
  · split
    · exact ⟨rfl, hrel⟩
    · exact ⟨rfl, rel_dispatchEvents hsim hrel _ _ _⟩

omit [ConfigStore σ] in
theorem rel_applyCommit (hrel : rel r t) (d : Dispatcher σ) (alert : Bool) (ctx : RequestCtx) :
    (d.applyCommit alert ctx r).1 = (d.applyCommit alert ctx t).1 ∧
      rel (d.applyCommit alert ctx r).2 (d.applyCommit alert ctx t).2 := by
  have hevents := rel_applyEvents hsim (rel_ack hsim hrel alert ctx (.ok ()))
    (Table.commitStaged d.table d.staged).1
    (d.staged.iterAll.map fun entry => (entry.1, entry.2.length))
  simp only [applyCommit]
  exact ⟨by rw [hevents.1], hevents.2⟩

omit [ConfigStore σ] in
theorem rel_assign (hrel : rel r t) (d : Dispatcher σ) (alert : Bool) (ctx : RequestCtx)
    (uid : List Byte) (newId : Byte) :
    (d.assign alert ctx uid newId r).1 = (d.assign alert ctx uid newId t).1 ∧
      rel (d.assign alert ctx uid newId r).2 (d.assign alert ctx uid newId t).2 := by
  simp only [assign]
  split
  · exact ⟨rfl, hrel⟩
  · split
    · exact ⟨rfl, rel_ack hsim hrel alert ctx (.error (.validationError .compare))⟩
    · exact ⟨rfl, rel_ack hsim (hsim.setId newId hrel) alert ctx (.ok ())⟩

theorem rel_mgmt (hrel : rel r t) (d : Dispatcher σ) (alert : Bool) (ctx : RequestCtx)
    (op : MgmtOp) :
    (d.mgmt alert ctx op r).1 = (d.mgmt alert ctx op t).1 ∧
      rel (d.mgmt alert ctx op r).2 (d.mgmt alert ctx op t).2 := by
  cases op with
  | save =>
      simp only [mgmt, save]
      split
      · exact ⟨rfl, rel_ack hsim hrel alert ctx (.error .accessError)⟩
      · split
        · exact ⟨rfl, rel_ackCode hsim hrel _ _ _⟩
        · split
          · exact ⟨rfl, rel_ackCode hsim hrel _ _ _⟩
          · exact ⟨rfl, rel_ackCode hsim hrel _ _ _⟩
  | factory =>
      simp only [mgmt, factory]
      split
      · exact ⟨rfl, rel_ack hsim hrel alert ctx (.error .accessError)⟩
      · split
        · exact ⟨rfl, rel_ackCode hsim hrel _ _ _⟩
        · split
          · exact ⟨rfl, hsim.stageReboot _ (rel_ack hsim hrel _ _ _)⟩
          · exact ⟨rfl, rel_ackCode hsim hrel _ _ _⟩
  | reboot => exact ⟨rfl, hsim.stageReboot _ (rel_ack hsim hrel _ _ _)⟩
  | _ => exact ⟨rfl, rel_instructionError hsim hrel _ _⟩

omit [ConfigStore σ] in
theorem rel_readProfile (hrel : rel r t) (d : Dispatcher σ) (alert : Bool) (ctx : RequestCtx)
    (slot : Byte) :
    rel (d.readProfile alert ctx slot r) (d.readProfile alert ctx slot t) := by
  simp only [readProfile]
  repeat' split
  all_goals first
    | exact hrel
    | exact hsim.sendStatus _ hrel
    | exact hsim.sendStatusGather _ _ _ hrel

/-- A dispatch gives the same outcome and dispatcher over related surfaces. -/
theorem rel_dispatch (hrel : rel r t) (d : Dispatcher σ) (req : Request FrameBytes)
    (ctx : RequestCtx) :
    (d.dispatch req ctx r).1 = (d.dispatch req ctx t).1 ∧
      (d.dispatch req ctx r).2.1 = (d.dispatch req ctx t).2.1 ∧
      rel (d.dispatch req ctx r).2.2 (d.dispatch req ctx t).2.2 := by
  cases req with
  | ping =>
      refine ⟨rfl, rfl, ?_⟩
      simp only [dispatch, ping]
      split
      · exact hrel
      · exact hsim.sendStatus _ hrel
  | read addr count =>
      refine ⟨rfl, rfl, ?_⟩
      simp only [dispatch, read]
      repeat' split
      all_goals first
        | exact hrel
        | exact hsim.sendStatus _ hrel
  | readProfile slot => exact ⟨rfl, rfl, rel_readProfile hsim hrel _ _ _ _⟩
  | write addr data hold =>
      simp only [dispatch, write]
      split
      · exact ⟨rfl, rfl, rel_ack hsim hrel d.revertDangling.alert ctx (.ok ())⟩
      · refine ⟨rfl, rfl, ?_⟩
        dsimp only
        split
        · exact hsim.sendStatus _ hrel
        · exact hrel
      · rename_i e _ _
        exact ⟨rfl, rfl, rel_ack hsim hrel d.revertDangling.alert ctx (.error e)⟩
  | commit => exact ⟨rfl, rel_applyCommit hsim hrel _ _ _⟩
  | enumerate prefixLen pre =>
      refine ⟨rfl, rfl, ?_⟩
      simp only [dispatch, enumerate]
      repeat' split
      all_goals first
        | exact hrel
        | exact hsim.sendStatus _ hrel
  | assign uid newId => exact ⟨rfl, rel_assign hsim hrel _ _ _ _ _⟩
  | calibrate gapUs gaps => exact ⟨rfl, rfl, hsim.beginClockCal _ _ hrel⟩
  | mgmt op args => exact ⟨rfl, rel_mgmt hsim hrel _ _ _ _⟩
  | unsupported => exact ⟨rfl, rfl, rel_instructionError hsim hrel _ _⟩

end Related

/-- The outcome of a dispatch does not depend on the surface. -/
theorem dispatch_surface (d : Dispatcher σ) (req : Request FrameBytes) (ctx : RequestCtx) (r : ρ)
    (t : τ) :
    (d.dispatch req ctx r).1 = (d.dispatch req ctx t).1 ∧
      (d.dispatch req ctx r).2.1 = (d.dispatch req ctx t).2.1 := by
  have hsim : Reply.Sim fun (_ : ρ) (_ : τ) => True := by
    constructor <;> intros <;> trivial
  obtain ⟨hout, hdisp, -⟩ := rel_dispatch hsim (r := r) (t := t) trivial d req ctx
  exact ⟨hout, hdisp⟩

/-! ## Requests that only stage -/

section Quiet

variable {inv : ρ → Prop} (hkeeps : Reply.Keeps inv) {r : ρ}

include hkeeps

theorem keeps_ackCode (hinv : inv r) (alert : Bool) (ctx : RequestCtx) (code : ResultCode) :
    inv (ackCode alert ctx code r) := by
  simp only [ackCode]
  split
  · exact hinv
  · exact hkeeps.sendStatus _ hinv

/-- A request whose effects stage leaves the table and the store as they are,
and only sends. -/
theorem keeps_dispatch (hinv : inv r) (d : Dispatcher σ) {req : Request FrameBytes}
    (ctx : RequestCtx) (hreq : req.stages) :
    (d.dispatch req ctx r).2.1.table = d.table ∧ (d.dispatch req ctx r).2.1.store = d.store ∧
      inv (d.dispatch req ctx r).2.2 := by
  have htable := d.revertDangling_table
  have hstore := d.revertDangling_store
  cases req with
  | write addr data hold =>
      simp only [dispatch, write, ack]
      split
      · exact ⟨htable, hstore, keeps_ackCode hkeeps hinv _ _ _⟩
      · refine ⟨htable, hstore, ?_⟩
        dsimp only
        split
        · exact hkeeps.sendStatus _ hinv
        · exact hinv
      · exact ⟨htable, hstore, keeps_ackCode hkeeps hinv _ _ _⟩
  | commit | assign | calibrate | mgmt => cases hreq
  | _ =>
      refine ⟨htable, hstore, ?_⟩
      simp only [dispatch, ping, read, readProfile, enumerate, instructionError]
      repeat' split
      all_goals first
        | exact hinv
        | exact hkeeps.sendStatus _ hinv
        | exact hkeeps.sendStatusGather _ _ _ hinv

end Quiet

/-! ## What a dispatch leaves open -/

/-- Only a staged write is left open, with the request's own hold. -/
theorem dispatch_outcome (d : Dispatcher σ) (req : Request FrameBytes) (ctx : RequestCtx) (r : ρ) :
    ((d.dispatch req ctx r).1 = .done ∧ (d.dispatch req ctx r).2.1.pending = none) ∨
      ∃ addr data hold snap, req = .write addr data hold ∧
        (d.dispatch req ctx r).1 = .pending ∧
        (d.dispatch req ctx r).2.1.pending = some ⟨snap, hold, addr, data.len⟩ := by
  have hnone := d.revertDangling_pending
  cases req with
  | write addr data hold =>
      simp only [dispatch, write]
      split
      · exact .inr ⟨addr, data, hold, _, rfl, rfl, rfl⟩
      · exact .inl ⟨rfl, hnone⟩
      · exact .inl ⟨rfl, hnone⟩
  | assign uid newId =>
      simp only [dispatch, assign]
      repeat' split
      all_goals exact .inl ⟨trivial, hnone⟩
  | mgmt op args =>
      simp only [dispatch, mgmt, save, factory]
      repeat' split
      all_goals exact .inl ⟨trivial, hnone⟩
  | _ => exact .inl ⟨rfl, hnone⟩

omit [ConfigStore σ] in
theorem revertDangling_of_none {d : Dispatcher σ} (h : d.pending = none) :
    d.revertDangling = d := by
  simp only [revertDangling, h]

/-- A dispatch starts from what is left once a dangling write is dropped. -/
theorem dispatch_revertDangling (d : Dispatcher σ) (req : Request FrameBytes) (ctx : RequestCtx)
    (r : ρ) : d.revertDangling.dispatch req ctx r = d.dispatch req ctx r := by
  have hidem := revertDangling_of_none d.revertDangling_pending
  simp only [dispatch, hidem]

omit [ConfigStore σ] [Reply ρ] in
theorem pushed_of_stageSplit {table : Table.ControlTable} {addr : ℕ} {head tail : List Byte}
    {staged next : Table.StagedWrites}
    (h : Table.stageSplit table addr head tail staged = .ok next) :
    staged.Pushed next addr (head ++ tail) := by
  simp only [Table.stageSplit, bind, Except.bind] at h
  split at h
  · cases h
  · exact Table.StagedWrites.pushSplit_eq_ok.mp h

/-- Dropping what a staging request left open undoes its dispatch. -/
theorem revertDangling_dispatch (d : Dispatcher σ) {req : Request FrameBytes} (ctx : RequestCtx)
    (r : ρ) (hreq : req.stages) : (d.dispatch req ctx r).2.1.revertDangling = d.revertDangling := by
  have hidem := revertDangling_of_none d.revertDangling_pending
  have hnone := d.revertDangling_pending
  cases req with
  | write addr data hold =>
      simp only [dispatch, write]
      generalize d.revertDangling = base at hidem hnone ⊢
      split
      · rename_i next hstage
        have hundone := (pushed_of_stageSplit hstage).revertTo
        show ({ base with
          staged := next.revertTo base.staged.snapshot, pending := none } : Dispatcher σ) = base
        rw [hundone, ← hnone]
      · exact hidem
      · exact hidem
  | commit | assign | calibrate | mgmt => cases hreq
  | _ => exact hidem

omit [ConfigStore σ] in
theorem pending_commit (d : Dispatcher σ) (r : ρ) : (d.commit r).1.pending = none := by
  simp only [commit]
  split
  · assumption
  · split <;> rfl

end Dispatcher

end OpenServo
