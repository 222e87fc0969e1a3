import OpenServo.Dispatch.OrderedPairs
import OpenServo.Table.Exactness

/-!
# Soft limits inside the physical ones

The soft limits are checked against the physical ones whenever a write reaches a soft
limit; the physical limits are checked against each other alone.  So a plain write keeps
the soft limits inside exactly if, where it moves a physical limit and leaves the soft
limit of that side be, the new bound does not pass the old one.
-/

namespace OpenServo

open Table Transition

/-! ## The four limits -/

/-- A position limit, an `i32`. -/
def limit (t : ControlTable) (addr : ℕ) : ℤ := fieldValue t addr 4 true

/-- `pos_min_phys <= pos_min_soft < pos_max_soft <= pos_max_phys`. -/
structure Contained (t : ControlTable) : Prop where
  low : limit t Addr.posMinPhysUrad ≤ limit t Addr.posMinSoftUrad
  ordered : limit t Addr.posMinSoftUrad < limit t Addr.posMaxSoftUrad
  high : limit t Addr.posMaxSoftUrad ≤ limit t Addr.posMaxPhysUrad

theorem contained_iff {t : ControlTable} :
    Contained t ↔ limit t Addr.posMinPhysUrad ≤ limit t Addr.posMinSoftUrad ∧
      limit t Addr.posMinSoftUrad < limit t Addr.posMaxSoftUrad ∧
      limit t Addr.posMaxSoftUrad ≤ limit t Addr.posMaxPhysUrad :=
  ⟨fun h => ⟨h.low, h.ordered, h.high⟩, fun h => ⟨h.1, h.2.1, h.2.2⟩⟩

instance (t : ControlTable) : Decidable (Contained t) := decidable_of_iff _ contained_iff.symm

def posLimits : List ℕ :=
  [Addr.posMinPhysUrad, Addr.posMaxPhysUrad, Addr.posMinSoftUrad, Addr.posMaxSoftUrad]

/-- A write of `len` bytes at `addr` reaches the limit. -/
def ReachesLimit (limitAddr addr len : ℕ) : Prop :=
  0 < len ∧ MeetsField limitAddr 4 addr (addr + len)

instance (limitAddr addr len : ℕ) : Decidable (ReachesLimit limitAddr addr len) :=
  inferInstanceAs (Decidable (_ ∧ _ ∧ _))

theorem limit_congr {t t' : ControlTable} {addr : ℕ}
    (h : ∀ i, addr ≤ i → i < addr + 4 → t'.get i = t.get i) : limit t' addr = limit t addr := by
  have hbytes : fieldBytes t' addr 4 = fieldBytes t addr 4 := by
    rw [fieldBytes, fieldBytes]
    refine List.map_congr_left fun i hi => ?_
    rw [List.mem_range] at hi
    exact h _ (Nat.le_add_right _ _) (by omega)
  rw [limit, limit, fieldValue, fieldValue, hbytes]

theorem limit_copy_of_not_reached {t : ControlTable} {limitAddr addr : ℕ} {data : List Byte}
    (h : ¬ ReachesLimit limitAddr addr data.length) :
    limit (t.copy addr data) limitAddr = limit t limitAddr := by
  refine limit_congr fun i hlow hhigh => Storage.get_copy_of_not_mem fun hin => h ?_
  exact ⟨by omega, by omega, by omega⟩

/-- The bookkeeping of a commit leaves the limits alone. -/
theorem limit_applied {t : ControlTable} {limitAddr : ℕ} (hlimit : limitAddr ∈ posLimits)
    {entry : ℕ × List Byte} (hin : Reference.InMap entry) :
    limit (Reference.applied t [entry]) limitAddr = limit (t.copy entry.1 entry.2) limitAddr := by
  have howned : ∃ pair : GuardedPair, ∀ i, limitAddr ≤ i → i < limitAddr + 4 → pair.owns i := by
    simp only [posLimits, List.mem_cons, List.not_mem_nil, or_false] at hlimit
    obtain rfl | rfl | rfl | rfl := hlimit
    · exact ⟨.physicalLimits, fun i hlow hhigh => .inl ⟨hlow, hhigh⟩⟩
    · exact ⟨.physicalLimits, fun i hlow hhigh => .inr ⟨hlow, hhigh⟩⟩
    · exact ⟨.softLimits, fun i hlow hhigh => .inl ⟨hlow, hhigh⟩⟩
    · exact ⟨.softLimits, fun i hlow hhigh => .inr ⟨hlow, hhigh⟩⟩
  obtain ⟨pair, howned⟩ := howned
  exact limit_congr fun i hlow hhigh => GuardedPair.get_applied (howned i hlow hhigh) hin

/-! ## What the rules say -/

/-- A rule between two limits, as the derive packs it. -/
def limitRule (addr : ℕ) (op : CmpOp) (other : ℕ) : CmpRule :=
  cmpRuleOf addr (.int 4 []) (op, .reg other)

theorem limitRule_unpacked (addr : ℕ) (op : CmpOp) {other : ℕ} (hother : other ∈ posLimits) :
    (limitRule addr op other).width = 4 ∧ (limitRule addr op other).signed = true ∧
      (limitRule addr op other).abs = false ∧ (limitRule addr op other).op = op.code.toNat ∧
      (limitRule addr op other).rhs = .reg other := by
  have hspec : let spec := spec 4 true false op ||| specRhsReg
      (spec &&& 0xF).toNat = 4 ∧ (spec &&& specSigned != 0) = true ∧
        (spec &&& specAbs != 0) = false ∧ ((spec >>> 8) &&& 0xFF).toNat = op.code.toNat ∧
        (spec &&& specRhsReg != 0) = true := by
    cases op <;> decide
  have hreg : ∀ reg ∈ posLimits, (UInt32.ofNat reg).toNat % 65536 = reg := by decide
  obtain ⟨hwidth, hsigned, habs, hop, hrhs⟩ := hspec
  refine ⟨hwidth, hsigned, habs, hop, (if_pos hrhs).trans ?_⟩
  exact congrArg Rhs.reg (hreg other hother)

/-- What an accepted write leaves of a limit it reaches. -/
theorem limits_of_accepts {t : ControlTable} {addr : ℕ} {data : List Byte}
    (h : Table.Accepts controlMap t addr data) {limitAddr : ℕ} (op : CmpOp) (other : ℕ)
    (hrule : limitRule limitAddr op other ∈ controlMap.cmpRules) (hother : other ∈ posLimits)
    (hreach : ReachesLimit limitAddr addr data.length) :
    cmpHolds op.code.toNat (limit (t.copy addr data) limitAddr)
      (limit (t.copy addr data) other) = true := by
  obtain ⟨hwidth, hsigned, habs, hop, hrhs⟩ := limitRule_unpacked limitAddr op hother
  have hcompares := (h.rules.cmp _ hrule (by rw [hwidth]; exact hreach.2)).2
  rw [CmpRule.Compares, CmpRule.rhsValue, hwidth, hsigned, habs, hop, hrhs] at hcompares
  exact hcompares

section Accepted

variable {t : ControlTable} {addr : ℕ} {data : List Byte}

/-- A write that reaches the lower soft limit leaves it inside, and below the upper one. -/
theorem minSoft_of_accepts (h : Table.Accepts controlMap t addr data)
    (hreach : ReachesLimit Addr.posMinSoftUrad addr data.length) :
    limit (t.copy addr data) Addr.posMinPhysUrad ≤ limit (t.copy addr data) Addr.posMinSoftUrad ∧
      limit (t.copy addr data) Addr.posMinSoftUrad <
        limit (t.copy addr data) Addr.posMaxSoftUrad := by
  have hge := limits_of_accepts h .ge Addr.posMinPhysUrad (by decide +kernel)
    (by decide) hreach
  have hlt := limits_of_accepts h .lt Addr.posMaxSoftUrad (by decide +kernel)
    (by decide) hreach
  exact ⟨of_decide_eq_true hge, of_decide_eq_true hlt⟩

theorem maxSoft_of_accepts (h : Table.Accepts controlMap t addr data)
    (hreach : ReachesLimit Addr.posMaxSoftUrad addr data.length) :
    limit (t.copy addr data) Addr.posMaxSoftUrad ≤ limit (t.copy addr data) Addr.posMaxPhysUrad ∧
      limit (t.copy addr data) Addr.posMinSoftUrad <
        limit (t.copy addr data) Addr.posMaxSoftUrad := by
  have hle := limits_of_accepts h .le Addr.posMaxPhysUrad (by decide +kernel)
    (by decide) hreach
  have hgt := limits_of_accepts h .gt Addr.posMinSoftUrad (by decide +kernel)
    (by decide) hreach
  exact ⟨of_decide_eq_true hle, of_decide_eq_true hgt⟩

/-- A write that moves a physical limit and not the soft limit of its side leaves the new
bound where the soft limit does not pass it. -/
structure ClearsSoft (t : ControlTable) (addr : ℕ) (data : List Byte) : Prop where
  low : ReachesLimit Addr.posMinPhysUrad addr data.length →
    ¬ ReachesLimit Addr.posMinSoftUrad addr data.length →
      limit (t.copy addr data) Addr.posMinPhysUrad ≤ limit t Addr.posMinSoftUrad
  high : ReachesLimit Addr.posMaxPhysUrad addr data.length →
    ¬ ReachesLimit Addr.posMaxSoftUrad addr data.length →
      limit t Addr.posMaxSoftUrad ≤ limit (t.copy addr data) Addr.posMaxPhysUrad

instance (t : ControlTable) (addr : ℕ) (data : List Byte) : Decidable (ClearsSoft t addr data) :=
  decidable_of_iff
    ((ReachesLimit Addr.posMinPhysUrad addr data.length →
      ¬ ReachesLimit Addr.posMinSoftUrad addr data.length →
        limit (t.copy addr data) Addr.posMinPhysUrad ≤ limit t Addr.posMinSoftUrad) ∧
      (ReachesLimit Addr.posMaxPhysUrad addr data.length →
        ¬ ReachesLimit Addr.posMaxSoftUrad addr data.length →
          limit t Addr.posMaxSoftUrad ≤ limit (t.copy addr data) Addr.posMaxPhysUrad))
    ⟨fun h => ⟨h.1, h.2⟩, fun h => ⟨h.1, h.2⟩⟩

theorem contained_copy_iff (hin : Contained t) (h : Table.Accepts controlMap t addr data) :
    Contained (t.copy addr data) ↔ ClearsSoft t addr data := by
  constructor
  · intro hafter
    refine ⟨fun _ hbeside => ?_, fun _ hbeside => ?_⟩
    · rw [← limit_copy_of_not_reached hbeside]
      exact hafter.low
    · rw [← limit_copy_of_not_reached hbeside]
      exact hafter.high
  · intro hclears
    refine ⟨?_, ?_, ?_⟩
    · by_cases hsoft : ReachesLimit Addr.posMinSoftUrad addr data.length
      · exact (minSoft_of_accepts h hsoft).1
      · rw [limit_copy_of_not_reached hsoft]
        by_cases hphys : ReachesLimit Addr.posMinPhysUrad addr data.length
        · exact hclears.low hphys hsoft
        · rw [limit_copy_of_not_reached hphys]
          exact hin.low
    · by_cases hmin : ReachesLimit Addr.posMinSoftUrad addr data.length
      · exact (minSoft_of_accepts h hmin).2
      · by_cases hmax : ReachesLimit Addr.posMaxSoftUrad addr data.length
        · exact (maxSoft_of_accepts h hmax).2
        · rw [limit_copy_of_not_reached hmin, limit_copy_of_not_reached hmax]
          exact hin.ordered
    · by_cases hsoft : ReachesLimit Addr.posMaxSoftUrad addr data.length
      · exact (maxSoft_of_accepts h hsoft).1
      · rw [limit_copy_of_not_reached hsoft]
        by_cases hphys : ReachesLimit Addr.posMaxPhysUrad addr data.length
        · exact hclears.high hphys hsoft
        · rw [limit_copy_of_not_reached hphys]
          exact hin.high

end Accepted

/-! ## Plain writes -/

/-- A WRITE without HOLD and the commit verdict of its frame. -/
structure PlainWrite where
  addr : ℕ
  data : FrameBytes
  ctx : RequestCtx

namespace PlainWrite

def calls (w : PlainWrite) : List Call := [.write w.addr w.data false w.ctx, .commit]

/-- The write is accepted on this table, with nothing held. -/
def accepted (w : PlainWrite) (t : ControlTable) : Bool :=
  Reference.valid t w.addr w.data && Reference.fits [] w.data.bytes

/-- The table after the write. -/
def after (w : PlainWrite) (t : ControlTable) : ControlTable :=
  if w.accepted t then Reference.applied t [(w.addr, w.data.bytes)] else t

end PlainWrite

theorem accepts_of_valid {t : ControlTable} {addr : ℕ} {data : FrameBytes}
    (h : Reference.valid t addr data = true) :
    data.bytes = [] ∨ Table.Accepts controlMap t addr data.bytes := by
  refine (validate_eq_ok_iff controlMap_indexed).mp ?_
  rw [Reference.valid] at h
  cases hvalid : validate controlMap t addr data.head data.tail with
  | ok u => rfl
  | error e =>
      rw [hvalid] at h
      cases h

/-- A plain write keeps the soft limits inside exactly if it clears them. -/
theorem contained_after_iff {t : ControlTable} (hin : Contained t) (w : PlainWrite) :
    Contained (w.after t) ↔ (w.accepted t = true → ClearsSoft t w.addr w.data.bytes) := by
  rw [PlainWrite.after]
  cases haccepted : w.accepted t with
  | false => exact iff_of_true hin fun h => (nomatch h)
  | true =>
      have hvalid : Reference.valid t w.addr w.data = true := by
        rw [PlainWrite.accepted, Bool.and_eq_true] at haccepted
        exact haccepted.1
      have hfits := Reference.inMap_of_valid hvalid
      have hsame : Contained (Reference.applied t [(w.addr, w.data.bytes)]) ↔
          Contained (t.copy w.addr w.data.bytes) := by
        rw [contained_iff, contained_iff, limit_applied (by decide) hfits,
          limit_applied (by decide) hfits, limit_applied (by decide) hfits,
          limit_applied (by decide) hfits]
      rw [if_pos rfl, hsame, forall_prop_of_true rfl]
      obtain hempty | haccepts := accepts_of_valid hvalid
      · have hnone : ∀ limitAddr, ¬ ReachesLimit limitAddr w.addr w.data.bytes.length := by
          intro limitAddr hreach
          rw [hempty] at hreach
          exact absurd hreach.1 (lt_irrefl 0)
        rw [contained_iff, limit_copy_of_not_reached (hnone _), limit_copy_of_not_reached (hnone _),
          limit_copy_of_not_reached (hnone _), limit_copy_of_not_reached (hnone _)]
        exact iff_of_true (contained_iff.mp hin)
          ⟨fun h => absurd h (hnone _), fun h => absurd h (hnone _)⟩
      · exact contained_copy_iff hin haccepts

section Runs

variable {σ ρ : Type} [ConfigStore σ] [Reply ρ]

def plainStep (s : Dispatcher σ × ρ) (w : PlainWrite) : Dispatcher σ × ρ :=
  run Dispatcher.step s w.calls

/-- An accepted write clears the soft limits. -/
def Clears (s : Dispatcher σ × ρ) (w : PlainWrite) : Prop :=
  w.accepted s.1.table = true → ClearsSoft s.1.table w.addr w.data.bytes

instance (s : Dispatcher σ × ρ) (w : PlainWrite) : Decidable (Clears s w) :=
  inferInstanceAs (Decidable (_ → _))

/-- Nothing is held and no write is open. -/
def Idle (s : Dispatcher σ × ρ) : Prop := s.1.Refines ⟨s.1.table, [], none⟩

theorem refines_plainStep {s : Dispatcher σ × ρ} (h : Idle s) (w : PlainWrite) :
    (plainStep s w).1.Refines ⟨w.after s.1.table, [], none⟩ := by
  have hopened : (Dispatcher.step s (.write w.addr w.data false w.ctx)).1.Refines
      (Reference.write ⟨s.1.table, [], none⟩ w.addr w.data false) :=
    Dispatcher.Refines.step h (.write w.addr w.data false w.ctx)
  have hclosed : (plainStep s w).1.Refines
      (Reference.write ⟨s.1.table, [], none⟩ w.addr w.data false).commit :=
    Dispatcher.Refines.step hopened .commit
  have hafter : (Reference.write ⟨s.1.table, [], none⟩ w.addr w.data false).commit =
      ⟨w.after s.1.table, [], none⟩ := by
    rw [Reference.write, PlainWrite.after, PlainWrite.accepted]
    split <;> rfl
  rw [← hafter]
  exact hclosed

theorem table_plainStep {s : Dispatcher σ × ρ} (h : Idle s) (w : PlainWrite) :
    (plainStep s w).1.table = w.after s.1.table := (refines_plainStep h w).table

theorem idle_plainStep {s : Dispatcher σ × ρ} (h : Idle s) (w : PlainWrite) :
    Idle (plainStep s w) := by
  have hrefines := refines_plainStep h w
  rw [← table_plainStep h w] at hrefines
  exact hrefines

/-- Along a run of plain writes the soft limits stay inside the physical ones exactly if
every accepted write clears them. -/
theorem soft_limits_stay_inside {table : ControlTable} (hinside : Contained table)
    (uid : List Byte) (store : Option σ) (reply : ρ) (writes : List PlainWrite) :
    (∀ done, done <+: writes →
      Contained (run plainStep (Dispatcher.fresh table uid store, reply) done).1.table) ↔
    Meets plainStep Clears (Dispatcher.fresh table uid store, reply) writes :=
  Meets.iff_always plainStep Idle (fun s => Contained s.1.table)
    (fun _ w hidle => idle_plainStep hidle w)
    (fun s w hidle hin => by rw [table_plainStep hidle w]; exact contained_after_iff hin w)
    (Dispatcher.refines_fresh table uid store) hinside

end Runs

/-! ### On the bench -/

section Bench

local instance : ConfigStore Unit := GuardedPair.benchStore

local instance : Reply Unit := GuardedPair.benchReply

def limitWrite (addr : ℕ) (value : Byte) : PlainWrite :=
  ⟨addr, .ofList [value, 0, 0, 0], ⟨false⟩⟩

/-- The upper soft limit moved to 80, then the physical one to 90. -/
theorem soft_limits_stay_inside_on_the_bench :
    Contained (run plainStep
      (Dispatcher.fresh GuardedPair.benchLimits [] (none : Option Unit), ())
      [limitWrite Addr.posMaxSoftUrad 80, limitWrite Addr.posMaxPhysUrad 90]).1.table :=
  (soft_limits_stay_inside (by decide +kernel) [] none () _).mpr (by decide +kernel) _
    (List.prefix_refl _)

/-- The upper physical limit moved to 50, past the upper soft limit at 100. -/
theorem physical_limit_passes_soft :
    ¬ ∀ (table : ControlTable) (writes : List PlainWrite), Contained table →
      Contained (run plainStep
        (Dispatcher.fresh table [] (none : Option Unit), ()) writes).1.table := by
  intro hclaim
  have hinside : Contained GuardedPair.benchLimits := by decide +kernel
  have hpassed := hclaim GuardedPair.benchLimits [limitWrite Addr.posMaxPhysUrad 50] hinside
  have hnot : ¬ Contained (run plainStep
      (Dispatcher.fresh GuardedPair.benchLimits [] (none : Option Unit), ())
      [limitWrite Addr.posMaxPhysUrad 50]).1.table := by
    decide +kernel
  exact hnot hpassed

end Bench

end OpenServo
