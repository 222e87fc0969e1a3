import OpenServo.Dispatch.Reference
import OpenServo.Table.Validity

/-!
# Mutually guarded registers

Two registers that each refuse to pass the other: the physical limits, the soft
limits, and the winding thresholds.  A write is checked against the live table
alone, so a plain write keeps such a pair ordered whatever is held beside it;
what COMMIT makes of the held writes together nobody has checked.
-/

namespace OpenServo

open Table Transition

/-! ## The pairs -/

inductive GuardedPair where
  | physicalLimits
  | softLimits
  | winding
  deriving DecidableEq, Repr

namespace GuardedPair

/-- The register that must stay below. -/
def low : GuardedPair → ℕ
  | .physicalLimits => Addr.posMinPhysUrad
  | .softLimits => Addr.posMinSoftUrad
  | .winding => Addr.windingRecoverCc

def high : GuardedPair → ℕ
  | .physicalLimits => Addr.posMaxPhysUrad
  | .softLimits => Addr.posMaxSoftUrad
  | .winding => Addr.windingCutoffCc

/-- Both are `i32`, or both `i16`. -/
def width : GuardedPair → ℕ
  | .physicalLimits | .softLimits => 4
  | .winding => 2

/-- Byte `i` belongs to one of the two registers. -/
def owns (pair : GuardedPair) (i : ℕ) : Prop :=
  (pair.low ≤ i ∧ i < pair.low + pair.width) ∨ (pair.high ≤ i ∧ i < pair.high + pair.width)

/-- A write of `len` bytes at `addr` reaches one of the two. -/
def touchedBy (pair : GuardedPair) (addr len : ℕ) : Bool :=
  0 < len && (overlaps pair.low pair.width addr (addr + len) ||
    overlaps pair.high pair.width addr (addr + len))

/-- The `i16` or `i32` at an address. -/
def valueAt (pair : GuardedPair) (t : ControlTable) (addr : ℕ) : ℤ :=
  signExtend (8 * pair.width) (leNat ((List.range pair.width).map fun i => t.get (addr + i)))

def Ordered (pair : GuardedPair) (t : ControlTable) : Prop :=
  pair.valueAt t pair.low < pair.valueAt t pair.high

instance (pair : GuardedPair) (t : ControlTable) : Decidable (pair.Ordered t) :=
  inferInstanceAs (Decidable (_ < _))

theorem ordered_congr {pair : GuardedPair} {t t' : ControlTable}
    (h : ∀ i, pair.owns i → t'.get i = t.get i) (hordered : pair.Ordered t) : pair.Ordered t' := by
  have hvalue : ∀ addr, addr = pair.low ∨ addr = pair.high →
      pair.valueAt t' addr = pair.valueAt t addr := by
    intro addr hside
    rw [valueAt, valueAt]
    congr 2
    apply List.map_congr_left
    intro i hi
    rw [List.mem_range] at hi
    apply h
    rw [owns]
    omega
  rw [Ordered, hvalue _ (.inl rfl), hvalue _ (.inr rfl)]
  exact hordered

theorem not_mem_of_untouched {pair : GuardedPair} {addr len i : ℕ}
    (h : pair.touchedBy addr len = false) (howns : pair.owns i) :
    ¬ (addr ≤ i ∧ i < addr + len) := by
  intro hin
  simp only [touchedBy, overlaps, Bool.and_eq_false_iff, Bool.or_eq_false_iff,
    decide_eq_false_iff_not] at h
  rw [owns] at howns
  omega

/-- The two rules that guard the pair, as the table derive packs them. -/
def lowRule (pair : GuardedPair) : CmpRule :=
  cmpRuleOf pair.low (.int pair.width []) (.lt, .reg pair.high)

def highRule (pair : GuardedPair) : CmpRule :=
  cmpRuleOf pair.high (.int pair.width []) (.gt, .reg pair.low)

theorem rules_mem (pair : GuardedPair) :
    pair.lowRule ∈ controlMap.cmpRules ∧ pair.highRule ∈ controlMap.cmpRules := by
  cases pair <;> decide +kernel

/-- Loading one of the two registers. -/
theorem widen_eq (pair : GuardedPair) (t : ControlTable) {addr : ℕ}
    (h : addr = pair.low ∨ addr = pair.high) :
    widen (.plain t) addr pair.width true = .ok (pair.valueAt t addr) := by
  have hfits : addr + pair.width ≤ controlMap.size := by
    cases pair <;> obtain rfl | rfl := h <;> decide
  rw [widen, View.readFixed_eq (Storage.length_eq _), View.plain,
    if_neg (show ¬ addr + pair.width > controlMap.size by omega)]
  cases pair <;> simp only [bind, Except.bind] <;> rfl

/-- A signed comparison of two registers, unpacked from its rule. -/
theorem checkCmp_eq_ok {pair : GuardedPair} {t : ControlTable} {addr other : ℕ} {op : CmpOp}
    (haddr : addr = pair.low ∨ addr = pair.high) (hother : other = pair.low ∨ other = pair.high)
    (h : (cmpRuleOf addr (.int pair.width []) (op, .reg other)).Holds t) :
    cmpHolds op.code.toNat (pair.valueAt t addr) (pair.valueAt t other) = true := by
  have hleft := pair.widen_eq t haddr
  have hright := pair.widen_eq t hother
  have hspec : let spec := spec (UInt16.ofNat pair.width) true false op ||| specRhsReg
      (spec &&& 0xF).toNat = pair.width ∧ (spec &&& specSigned != 0) = true ∧
        (spec &&& specAbs != 0) = false ∧ ((spec >>> 8) &&& 0xFF).toNat = op.code.toNat ∧
        (spec &&& specRhsReg != 0) = true := by
    cases pair <;> cases op <;> decide
  have hreg : UInt32.toNat (UInt32.ofNat other) % 65536 = other := by
    cases pair <;> obtain rfl | rfl := hother <;> decide
  obtain ⟨hwidth, hsigned, habs, hop, hrhs⟩ := hspec
  have hpacked : (cmpRuleOf addr (.int pair.width []) (op, .reg other)).spec =
      spec (UInt16.ofNat pair.width) true false op ||| specRhsReg := rfl
  rw [CmpRule.Holds, CmpRule.rhs, hpacked, hrhs, if_pos rfl] at h
  simp only [checkCmp, hwidth, hsigned, habs, hop] at h
  change (widen (.plain t) addr pair.width true >>= _) = _ at h
  obtain ⟨a, ha, h⟩ := ok_of_bind h
  obtain ⟨r, hr, h⟩ := ok_of_bind h
  change widen (.plain t) (UInt32.toNat (UInt32.ofNat other) % 65536) pair.width true = _ at hr
  rw [hleft] at ha
  rw [hreg, hright] at hr
  obtain rfl := Except.ok.inj ha
  obtain rfl := Except.ok.inj hr
  simp only [Bool.false_eq_true, if_false] at h
  split at h
  · rename_i hholds
    exact hholds
  · cases h

/-- Either rule says that the pair is ordered. -/
theorem ordered_of_holds {pair : GuardedPair} {t : ControlTable}
    (h : pair.lowRule.Holds t ∨ pair.highRule.Holds t) : pair.Ordered t := by
  obtain hlow | hhigh := h
  · have hlt := checkCmp_eq_ok (.inl rfl) (.inr rfl) hlow
    exact of_decide_eq_true hlt
  · have hgt := checkCmp_eq_ok (.inr rfl) (.inl rfl) hhigh
    exact of_decide_eq_true hgt

/-- A checked write leaves the pair ordered if it touches it. -/
theorem ordered_of_validated {pair : GuardedPair} {t : ControlTable} {addr : ℕ} {data : List Byte}
    (h : Validated t addr data) (htouched : pair.touchedBy addr data.length = true) :
    pair.Ordered (t.copy addr data) := by
  obtain ⟨hlow, hhigh⟩ := pair.rules_mem
  have hwidths : pair.lowRule.width = pair.width ∧ pair.highRule.width = pair.width := by
    cases pair <;> decide
  simp only [touchedBy, Bool.and_eq_true, Bool.or_eq_true] at htouched
  apply ordered_of_holds
  obtain ⟨-, hmeets | hmeets⟩ := htouched
  · exact .inl (h.cmp _ hlow (by rw [hwidths.1]; exact hmeets))
  · exact .inr (h.cmp _ hhigh (by rw [hwidths.2]; exact hmeets))

/-! ## Bytes of the pair -/

theorem ne_statusFlags {pair : GuardedPair} {i : ℕ} (howns : pair.owns i) :
    i ≠ Addr.statusFlags := by
  cases pair <;> simp only [owns, low, high, width, Addr.posMinPhysUrad, Addr.posMaxPhysUrad,
    Addr.posMinSoftUrad, Addr.posMaxSoftUrad, Addr.windingRecoverCc, Addr.windingCutoffCc,
    Addr.statusFlags] at howns ⊢ <;> omega

/-- The modified flag lies outside every pair. -/
theorem get_applied {pair : GuardedPair} {i : ℕ} (howns : pair.owns i) {t : ControlTable}
    {entry : ℕ × List Byte} (hin : Reference.InMap entry) :
    (Reference.applied t [entry]).get i = (t.copy entry.1 entry.2).get i := by
  have hfits : i < controlMap.size := by
    have hends : pair.low + pair.width ≤ controlMap.size ∧
        pair.high + pair.width ≤ controlMap.size := by
      cases pair <;> decide
    rw [owns] at howns
    omega
  rw [Reference.applied, Storage.get_ofFn _ hfits, Reference.byteAfter,
    if_neg fun h => ne_statusFlags howns h.1, Reference.get_copy_of_inMap hin,
    Reference.lastWritten_singleton]

/-! ## The invariant -/

/-- A write that waits for its verdict leaves the pair ordered if it reaches it. -/
def Checked (pair : GuardedPair) (ref : Reference) : Prop :=
  ∀ write, ref.opened = some write → pair.touchedBy write.addr write.bytes.length = true →
    pair.Ordered (ref.table.copy write.addr write.bytes)

variable {pair : GuardedPair} {ref : Reference}

theorem Checked.of_none (h : ref.opened = none) : pair.Checked ref := by
  intro write hopened
  cases h.symm.trans hopened

/-- A write is accepted only if it leaves the live pair ordered. -/
theorem checked_write (ref : Reference) (addr : ℕ) (data : FrameBytes) (hold : Bool) :
    pair.Checked (ref.write addr data hold) := by
  simp only [Reference.write]
  split
  · rename_i haccepted
    rw [Bool.and_eq_true] at haccepted
    intro write hopened htouched
    obtain rfl := Option.some.inj hopened
    have hok : validate controlMap ref.table addr data.head data.tail = .ok () := by
      have hvalid := haccepted.1
      rw [Reference.valid] at hvalid
      cases hcheck : validate controlMap ref.table addr data.head data.tail with
      | error e => simp [hcheck, Except.toBool] at hvalid
      | ok _ => rfl
    obtain hempty | hvalidated := validated_of_validate controlMap_indexed hok
    · simp only [FrameBytes.bytes, hempty, touchedBy, List.length_nil, lt_self_iff_false,
        decide_false, Bool.false_and, Bool.false_eq_true] at htouched
    · exact ordered_of_validated hvalidated htouched
  · exact .of_none rfl

theorem Checked.commit (h : pair.Checked ref) : pair.Checked ref.commit := by
  simp only [Reference.commit]
  split
  · exact h
  · split <;> exact .of_none rfl

/-- The verdict of an open write keeps the live pair ordered, whatever is held. -/
theorem Checked.ordered_commit (h : pair.Checked ref)
    (hopened : ∀ write, ref.opened = some write → Reference.InMap (write.addr, write.bytes))
    (hordered : pair.Ordered ref.table) : pair.Ordered ref.commit.table := by
  simp only [Reference.commit]
  split
  · exact hordered
  · rename_i write hwrite
    split
    · exact hordered
    · have hsame : ∀ i, pair.owns i →
          (Reference.applied ref.table [(write.addr, write.bytes)]).get i =
            (ref.table.copy write.addr write.bytes).get i :=
        fun i howns => get_applied howns (hopened write hwrite)
      refine ordered_congr hsame ?_
      cases htouched : pair.touchedBy write.addr write.bytes.length with
      | true => exact h write hwrite htouched
      | false =>
          exact ordered_congr (fun i howns =>
            Storage.get_copy_of_not_mem (not_mem_of_untouched htouched howns)) hordered

/-! ## Runs -/

/-- What COMMIT makes of the live table: the held writes laid over it in their
order of arrival leave the pair ordered. -/
def BatchOrdered {σ ρ : Type} (pair : GuardedPair) (s : Dispatcher σ × ρ) : Call → Prop
  | .commitAll _ =>
      pair.Ordered (Reference.applied s.1.table s.1.revertDangling.staged.iterAll)
  | .write _ _ _ _ | .read _ _ _ | .ping _ | .commit | .revert => True

instance {σ ρ : Type} (pair : GuardedPair) (s : Dispatcher σ × ρ) :
    ∀ call, Decidable (pair.BatchOrdered s call)
  | .commitAll _ => inferInstanceAs (Decidable (pair.Ordered _))
  | .write _ _ _ _ | .read _ _ _ | .ping _ | .commit | .revert => .isTrue trivial

section Runs

variable {σ ρ : Type} [ConfigStore σ] [Reply ρ]

/-- Some reference stands behind the dispatcher, with its open write checked. -/
def Stands (pair : GuardedPair) (s : Dispatcher σ × ρ) : Prop :=
  ∃ ref, s.1.Refines ref ∧ pair.Checked ref

theorem Stands.step {s : Dispatcher σ × ρ} (h : pair.Stands s) (call : Call) :
    pair.Stands (Dispatcher.step s call) := by
  obtain ⟨ref, href, hchecked⟩ := h
  refine ⟨ref.step call, href.step call, ?_⟩
  cases call with
  | write addr data hold ctx => exact checked_write ref addr data hold
  | commit => exact hchecked.commit
  | read addr count ctx => exact .of_none rfl
  | ping ctx => exact .of_none rfl
  | commitAll ctx => exact .of_none rfl
  | revert => exact .of_none rfl

/-- Only a COMMIT can cross the pair, and it does if its batch does. -/
theorem Stands.ordered_step {s : Dispatcher σ × ρ} (h : pair.Stands s)
    (hordered : pair.Ordered s.1.table) (call : Call) :
    pair.Ordered (Dispatcher.step s call).1.table ↔ pair.BatchOrdered s call := by
  obtain ⟨ref, href, hchecked⟩ := h
  have htable : (Dispatcher.step s call).1.table = (ref.step call).table := (href.step call).table
  have hbefore : pair.Ordered ref.table := by
    rw [← href.table]
    exact hordered
  rw [htable]
  cases call with
  | write addr data hold ctx =>
      refine iff_of_true ?_ trivial
      simp only [Reference.step, Reference.write]
      split <;> exact hbefore
  | commit => exact iff_of_true (hchecked.ordered_commit href.opened hbefore) trivial
  | commitAll ctx =>
      rw [BatchOrdered, href.staging.revertDangling.2.entries, href.table]
      rfl
  | read addr count ctx => exact iff_of_true hbefore trivial
  | ping ctx => exact iff_of_true hbefore trivial
  | revert => exact iff_of_true hbefore trivial

/-- In every run of requests and verdicts from a table with the pair ordered,
the pair is ordered after every request exactly if each COMMIT finds a batch
that leaves it so; and no other request ever crosses an ordered pair, whatever
came before it. -/
theorem pairs_stay_ordered {table : ControlTable} (hordered : pair.Ordered table) (uid : List Byte)
    (store : Option σ) (reply : ρ) (calls : List Call) :
    ((∀ done, done <+: calls →
        pair.Ordered (run Dispatcher.step (Dispatcher.fresh table uid store, reply) done).1.table) ↔
      Meets Dispatcher.step pair.BatchOrdered (Dispatcher.fresh table uid store, reply) calls) ∧
    Meets Dispatcher.step (fun s call => pair.Ordered s.1.table →
        (pair.Ordered (Dispatcher.step s call).1.table ↔ pair.BatchOrdered s call))
      (Dispatcher.fresh table uid store, reply) calls := by
  have hinit : pair.Stands (Dispatcher.fresh table uid store, reply) :=
    ⟨⟨table, [], none⟩, Dispatcher.refines_fresh table uid store, .of_none rfl⟩
  constructor
  · exact Meets.iff_always Dispatcher.step pair.Stands (fun s => pair.Ordered s.1.table)
      (fun _ call h => h.step call) (fun _ call h hbefore => h.ordered_step hbefore call)
      hinit hordered
  · exact Meets.of_invariant Dispatcher.step pair.Stands (fun _ call h => h.step call)
      (fun _ call h hbefore => h.ordered_step hbefore call) hinit calls

end Runs

/-! ### On the bench -/

section Bench

/-- Physical limits 0 and 100, soft limits and thresholds alike. -/
def benchLimits : ControlTable :=
  [Addr.posMaxPhysUrad, Addr.posMaxSoftUrad, Addr.windingCutoffCc].foldl
    (fun t addr => t.set addr 100) ControlTable.new

/-- A register write as a call, with the verdict behind it. -/
def benchWrite (addr : ℕ) (value : Byte) (hold : Bool) : List Call :=
  [.write addr (.ofList [value, 0, 0, 0]) hold ⟨false⟩, .commit]

/-- A store that accepts everything. -/
local instance benchStore : ConfigStore Unit where
  save store _ _ := (true, store)
  wipe store := (true, store)

/-- A wire nobody listens to. -/
local instance benchReply : Reply Unit where
  sendStatus _ _ := ()
  sendStatusGather _ _ _ _ := ()
  stageId _ _ := ()
  setId _ _ := ()
  stageBaud _ _ := ()
  setResponseDeadline _ _ := ()
  stageReboot _ _ := ()
  beginClockCal _ _ _ := ()

/-- Both limits held to be moved together, a plain write to one of them in
between, and a held one that is refused. -/
theorem limits_stay_ordered_on_the_bench :
    GuardedPair.physicalLimits.Ordered
      (run Dispatcher.step (Dispatcher.fresh benchLimits [] (none : Option Unit), ())
        (benchWrite Addr.posMinPhysUrad 50 true ++ benchWrite Addr.posMaxPhysUrad 80 true ++
          benchWrite Addr.posMaxPhysUrad 90 false ++ benchWrite Addr.posMinPhysUrad 95 true ++
          [.commitAll ⟨false⟩])).1.table :=
  (pairs_stay_ordered (by decide +kernel) [] none () _).1.mpr (by decide +kernel) _
    List.prefix_rfl

/-- Two held writes, each fine beside the live table, cross once COMMIT applies
them. -/
theorem held_writes_cross :
    ¬ ∀ (table : ControlTable) (calls : List Call) (pair : GuardedPair),
      (∀ pair : GuardedPair, pair.Ordered table) →
        pair.Ordered (run Dispatcher.step
          (Dispatcher.fresh table [] (none : Option Unit), ()) calls).1.table := by
  intro hclaim
  have hordered : ∀ pair : GuardedPair, pair.Ordered benchLimits := by
    intro pair
    cases pair <;> decide +kernel
  have hcrossed := hclaim benchLimits (benchWrite Addr.posMinPhysUrad 50 true ++
    benchWrite Addr.posMaxPhysUrad 20 true ++ [.commitAll ⟨false⟩]) .physicalLimits hordered
  have hnot : ¬ GuardedPair.physicalLimits.Ordered (run Dispatcher.step
      (Dispatcher.fresh benchLimits [] (none : Option Unit), ())
      (benchWrite Addr.posMinPhysUrad 50 true ++ benchWrite Addr.posMaxPhysUrad 20 true ++
        [.commitAll ⟨false⟩])).1.table := by
    decide +kernel
  exact hnot hcrossed

end Bench

end GuardedPair

end OpenServo
