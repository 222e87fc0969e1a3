import OpenServo.Table.Regions

/-!
# What a validated write leaves behind

The pending view reads like storage with the write already laid over it, so the
checks of `validate` are statements about the table the write would make.  Every
rule whose field the span meets is checked, however the span cuts the field, and
every byte of the span is one the host may write.
-/

namespace OpenServo.Table

/-! ## Storage after a copy -/

namespace Storage

variable {size : ℕ}

theorem getElem?_copy {storage : Storage size} {addr : ℕ} {data : List Byte}
    (h : addr + data.length ≤ size) (i : ℕ) :
    (storage.copy addr data).bytes[i]? =
      if addr ≤ i ∧ i < addr + data.length then data[i - addr]? else storage.bytes[i]? := by
  have hlen := storage.length_eq
  rw [copy, dif_pos h]
  simp only [List.append_assoc]
  by_cases hlow : i < addr
  · rw [if_neg (by omega), List.getElem?_append_left (by rw [List.length_take]; omega),
      List.getElem?_take_of_lt hlow]
  · rw [List.getElem?_append_right (by rw [List.length_take]; omega), List.length_take,
      Nat.min_eq_left (by omega)]
    by_cases hin : i < addr + data.length
    · rw [if_pos ⟨Nat.le_of_not_lt hlow, hin⟩, List.getElem?_append_left (by omega)]
    · rw [if_neg (by omega), List.getElem?_append_right (by omega), List.getElem?_drop]
      congr 1
      omega

theorem get_copy {storage : Storage size} {addr : ℕ} {data : List Byte}
    (h : addr + data.length ≤ size) (i : ℕ) :
    (storage.copy addr data).get i =
      if addr ≤ i ∧ i < addr + data.length then data.getD (i - addr) 0 else storage.get i := by
  simp only [get, List.getD_eq_getElem?_getD, getElem?_copy h]
  split <;> rfl

/-- A byte a copy does not reach. -/
theorem get_copy_of_not_mem {storage : Storage size} {addr i : ℕ} {data : List Byte}
    (h : ¬ (addr ≤ i ∧ i < addr + data.length)) :
    (storage.copy addr data).get i = storage.get i := by
  by_cases hfits : addr + data.length ≤ size
  · rw [get_copy hfits, if_neg h]
  · rw [copy, dif_neg hfits]

theorem get_set {storage : Storage size} {addr : ℕ} (h : addr < size) (b : Byte) (i : ℕ) :
    (storage.set addr b).get i = if i = addr then b else storage.get i := by
  rw [set, get_copy (by simpa using h)]
  by_cases heq : i = addr
  · rw [if_pos heq, if_pos (by simp only [List.length_singleton]; omega), heq, Nat.sub_self]
    rfl
  · rw [if_neg heq, if_neg (by simp only [List.length_singleton]; omega)]

/-- The storage with these bytes. -/
def ofFn (f : ℕ → Byte) : Storage size := ⟨(List.range size).map f, by simp⟩

theorem get_ofFn (f : ℕ → Byte) {i : ℕ} (h : i < size) :
    (ofFn f : Storage size).get i = f i := by
  simp [ofFn, get, h]

theorem ext_get {left right : Storage size} (h : ∀ i < size, left.get i = right.get i) :
    left = right := by
  obtain ⟨left, hleft⟩ := left
  obtain ⟨right, hright⟩ := right
  congr 1
  apply List.ext_getElem
  · rw [hleft, hright]
  · intro i hi hi'
    have hbyte := h i (by omega)
    simpa [get, hi, hi'] using hbyte

end Storage

/-! ## The pending view -/

namespace View

/-- The byte a check sees. -/
def pick (view : View) (a : ℕ) : Byte :=
  let oLo := view.overlayAddr
  let split := oLo + view.o1.length
  let oHi := split + view.o2.length
  if a ≥ oLo ∧ a < split then view.o1.getD (a - oLo) 0
  else if a ≥ split ∧ a < oHi then view.o2.getD (a - split) 0
  else view.base.getD a 0

theorem loadLe4_eq {p : List Byte} {len : ℕ} (h : len ≤ p.length) :
    loadLe4 p len = (List.range 4).map fun i => if i < len then p.getD i 0 else 0 := by
  apply List.ext_getElem?
  intro i
  have htake : (p.take (min len 4)).length = min len 4 := by
    rw [List.length_take]
    omega
  simp only [loadLe4, htake, List.getElem?_map]
  by_cases hlow : i < min len 4
  · rw [List.getElem?_append_left (by omega), List.getElem?_take_of_lt hlow,
      List.getElem?_range (by omega), Option.map_some, if_pos (by omega),
      List.getD_eq_getElem?_getD, List.getElem?_eq_getElem (by omega), Option.getD_some]
  · rw [List.getElem?_append_right (by omega), htake, List.getElem?_replicate]
    by_cases hi : i < 4
    · rw [if_pos (by omega), List.getElem?_range hi, Option.map_some, if_neg (by omega)]
    · rw [if_neg (by omega), List.getElem?_eq_none (by simpa using hi), Option.map_none]

/-- Three ways to load, one value. -/
theorem readFixed_eq {view : View} (hbase : view.base.length = view.size) (addr len : ℕ) :
    view.readFixed addr len =
      if addr + len > view.size then .error .outOfRange
      else .ok ((List.range 4).map fun i => if i < len then view.pick (addr + i) else 0) := by
  simp only [readFixed]
  split
  · rfl
  · rename_i hfits
    split
    · rename_i houtside
      rw [loadLe4_eq (by rw [List.length_drop]; omega)]
      congr 2
      funext i
      split
      · rw [pick, if_neg (by omega), if_neg (by omega), List.getD_eq_getElem?_getD,
          List.getElem?_drop, List.getD_eq_getElem?_getD]
      · rfl
    · split
      · rename_i hinside
        rw [loadLe4_eq (by rw [List.length_drop]; omega)]
        congr 2
        funext i
        split
        · rw [pick, if_pos (by omega), List.getD_eq_getElem?_getD, List.getElem?_drop,
            List.getD_eq_getElem?_getD]
          congr 2
          omega
        · rfl
      · rfl

/-- A view of storage with nothing pending. -/
def plain {size : ℕ} (storage : Storage size) : View := ⟨storage.bytes, size, 0, [], []⟩

theorem pick_plain {size : ℕ} (storage : Storage size) (a : ℕ) :
    (plain storage).pick a = storage.get a := by
  simp [pick, plain, Storage.get]

theorem pick_overlay {size : ℕ} {storage : Storage size} {addr : ℕ} {o1 o2 : List Byte}
    (h : addr + (o1 ++ o2).length ≤ size) (a : ℕ) :
    (View.mk storage.bytes size addr o1 o2).pick a = (storage.copy addr (o1 ++ o2)).get a := by
  rw [Storage.get_copy h]
  simp only [pick, List.length_append]
  by_cases hfirst : addr ≤ a ∧ a < addr + o1.length
  · rw [if_pos hfirst, if_pos (by omega), List.getD_append _ _ _ _ (by omega)]
  · rw [if_neg hfirst]
    by_cases hsecond : addr + o1.length ≤ a ∧ a < addr + o1.length + o2.length
    · rw [if_pos hsecond, if_pos (by omega), List.getD_append_right _ _ _ _ (by omega)]
      congr 1
      omega
    · rw [if_neg hsecond, if_neg (by omega)]
      rfl

/-- A check of the pending view is a check of the table the write would make. -/
theorem readFixed_overlay {size : ℕ} {storage : Storage size} {addr : ℕ} {o1 o2 : List Byte}
    (h : addr + (o1 ++ o2).length ≤ size) (a len : ℕ) :
    (View.mk storage.bytes size addr o1 o2).readFixed a len =
      (plain (storage.copy addr (o1 ++ o2))).readFixed a len := by
  rw [readFixed_eq storage.length_eq, readFixed_eq (Storage.length_eq _)]
  simp only [pick_overlay h, pick_plain]
  rfl

end View

/-! ## Rules of a table -/

def AllowedRule.Holds {size : ℕ} (storage : Storage size) (r : AllowedRule) : Prop :=
  storage.get r.addr ∈ r.allowed

/-- The width of the field a compare rule is on. -/
def CmpRule.width (r : CmpRule) : ℕ := (r.spec &&& 0xF).toNat

def CmpRule.rhs (r : CmpRule) : Rhs :=
  if r.spec &&& specRhsReg != 0 then .reg (r.val.toNat % 65536)
  else .imm (signExtend 32 r.val.toNat)

def CmpRule.Holds {size : ℕ} (storage : Storage size) (r : CmpRule) : Prop :=
  checkCmp (.plain storage) r.addr r.spec r.rhs = .ok ()

theorem checkAllowed_overlay {size : ℕ} {storage : Storage size} {addr : ℕ} {o1 o2 : List Byte}
    (h : addr + (o1 ++ o2).length ≤ size) {r : AllowedRule}
    (hok : checkAllowed ⟨storage.bytes, size, addr, o1, o2⟩ r.addr r.allowed = .ok ()) :
    r.Holds (storage.copy addr (o1 ++ o2)) := by
  rw [checkAllowed, View.readFixed_overlay h, View.readFixed_eq (Storage.length_eq _)] at hok
  by_cases hfits : r.addr + 1 > size
  · rw [View.plain, if_pos hfits] at hok
    cases hok
  · rw [View.plain, if_neg hfits] at hok
    simp only [bind, Except.bind] at hok
    split at hok
    · rename_i hmem
      rw [List.contains_iff_mem] at hmem
      have hbyte := View.pick_plain (storage.copy addr (o1 ++ o2)) r.addr
      rw [AllowedRule.Holds, ← hbyte]
      simpa [View.plain] using hmem
    · cases hok

theorem checkCmp_overlay {size : ℕ} {storage : Storage size} {addr : ℕ} {o1 o2 : List Byte}
    (h : addr + (o1 ++ o2).length ≤ size) (a : ℕ) (spec : UInt16) (rhs : Rhs) :
    checkCmp ⟨storage.bytes, size, addr, o1, o2⟩ a spec rhs =
      checkCmp (.plain (storage.copy addr (o1 ++ o2))) a spec rhs := by
  simp only [checkCmp, widen, View.readFixed_overlay h]

/-! ## Rule stripes -/

theorem ok_of_bind {ε α β : Type} {x : Except ε α} {f : α → Except ε β} {b : β}
    (h : (x >>= f) = .ok b) : ∃ a, x = .ok a ∧ f a = .ok b := by
  cases x with
  | error e => cases h
  | ok a => exact ⟨a, rfl, h⟩

/-- The scan of an address-ordered stripe sees every rule the span meets. -/
theorem checkAllowedRules_eq_ok {view : View} {lo hi : ℕ} {rules : List AllowedRule}
    (hsorted : rules.Pairwise fun r s => r.addr ≤ s.addr)
    (hok : checkAllowedRules view lo hi rules = .ok ()) :
    ∀ r ∈ rules, lo ≤ r.addr → r.addr < hi → checkAllowed view r.addr r.allowed = .ok () := by
  induction rules with
  | nil =>
      intro r hmem
      cases hmem
  | cons first rules ih =>
      obtain ⟨hfirst, hrest⟩ := List.pairwise_cons.mp hsorted
      intro r hmem hlow hhigh
      have hle : first.addr ≤ r.addr := by
        obtain rfl | hlater := List.mem_cons.mp hmem
        · exact le_rfl
        · exact hfirst r hlater
      simp only [checkAllowedRules] at hok
      rw [if_neg (by omega)] at hok
      split at hok
      · obtain ⟨⟨⟩, hhead, htail⟩ := ok_of_bind hok
        obtain rfl | hlater := List.mem_cons.mp hmem
        · exact hhead
        · exact ih hrest htail r hlater hlow hhigh
      · rename_i hmiss
        obtain rfl | hlater := List.mem_cons.mp hmem
        · simp only [overlaps, Bool.and_eq_true, decide_eq_true_eq, not_and] at hmiss
          exact absurd (hmiss hhigh) (by omega)
        · exact ih hrest hok r hlater hlow hhigh

theorem checkCmpRules_eq_ok {view : View} {lo hi : ℕ} {rules : List CmpRule}
    (hsorted : rules.Pairwise fun r s => r.addr ≤ s.addr)
    (hok : checkCmpRules view lo hi rules = .ok ()) :
    ∀ r ∈ rules, overlaps r.addr r.width lo hi = true →
      checkCmp view r.addr r.spec r.rhs = .ok () := by
  induction rules with
  | nil =>
      intro r hmem
      cases hmem
  | cons first rules ih =>
      obtain ⟨hfirst, hrest⟩ := List.pairwise_cons.mp hsorted
      intro r hmem hmeets
      have hle : first.addr ≤ r.addr := by
        obtain rfl | hlater := List.mem_cons.mp hmem
        · exact le_rfl
        · exact hfirst r hlater
      have hhigh : r.addr < hi := by
        simp only [overlaps, Bool.and_eq_true, decide_eq_true_eq] at hmeets
        exact hmeets.1
      simp only [checkCmpRules] at hok
      rw [if_neg (by omega)] at hok
      split at hok
      · obtain ⟨⟨⟩, hhead, htail⟩ := ok_of_bind hok
        obtain rfl | hlater := List.mem_cons.mp hmem
        · exact hhead
        · exact ih hrest htail r hlater hmeets
      · rename_i hmiss
        obtain rfl | hlater := List.mem_cons.mp hmem
        · exact absurd hmeets hmiss
        · exact ih hrest hok r hlater hmeets

theorem checkSections_eq_ok {map : RegisterMap} {view : View} {lo hi : ℕ} {secs : List SectionMeta}
    (hok : checkSections map view lo hi secs = .ok ()) :
    ∀ sec ∈ secs, overlaps sec.base sec.size lo hi = true →
      checkAllowedRules view lo hi (stripe map.allowedRules sec.allowedRules) = .ok () ∧
        checkCmpRules view lo hi (stripe map.cmpRules sec.cmpRules) = .ok () := by
  induction secs with
  | nil =>
      intro sec hmem
      cases hmem
  | cons first secs ih =>
      intro sec hmem hmeets
      simp only [checkSections] at hok
      split at hok
      · rename_i hmiss
        obtain rfl | hlater := List.mem_cons.mp hmem
        · simp only [hmeets, Bool.not_true, Bool.false_eq_true] at hmiss
        · exact ih hok sec hlater hmeets
      · obtain ⟨⟨⟩, hallowed, hok⟩ := ok_of_bind hok
        obtain ⟨⟨⟩, hcmp, hok⟩ := ok_of_bind hok
        obtain rfl | hlater := List.mem_cons.mp hmem
        · exact ⟨hallowed, hcmp⟩
        · exact ih hok sec hlater hmeets

/-- Each rule is in the stripe of a section that holds its field, and stripes are
address-ordered. -/
structure RegisterMap.Indexed (map : RegisterMap) : Prop where
  allowed : ∀ r ∈ map.allowedRules, ∃ sec ∈ map.sections,
    r ∈ stripe map.allowedRules sec.allowedRules ∧ sec.base ≤ r.addr ∧
      r.addr < sec.base + sec.size
  cmp : ∀ r ∈ map.cmpRules, ∃ sec ∈ map.sections,
    r ∈ stripe map.cmpRules sec.cmpRules ∧ sec.base ≤ r.addr ∧
      r.addr + r.width ≤ sec.base + sec.size
  allowedSorted : ∀ sec ∈ map.sections,
    (stripe map.allowedRules sec.allowedRules).Pairwise fun r s => r.addr ≤ s.addr
  cmpSorted : ∀ sec ∈ map.sections,
    (stripe map.cmpRules sec.cmpRules).Pairwise fun r s => r.addr ≤ s.addr

theorem controlMap_indexed : controlMap.Indexed where
  allowed := by decide +kernel
  cmp := by decide +kernel
  allowedSorted := by decide +kernel
  cmpSorted := by decide +kernel

/-! ## The writable mask -/

/-- The host may write byte `i`. -/
def RegisterMap.isWritable (map : RegisterMap) (i : ℕ) : Bool :=
  (map.writable.getD (i / 32) 0).toBitVec.getLsbD (i % 32)

theorem getLsbD_lowMask : ∀ n < 32, ∀ b < 32,
    ((1 <<< UInt32.ofNat n : UInt32) - 1).toBitVec.getLsbD b = decide (b < n) := by
  decide +kernel

theorem getLsbD_wordMask {lo hi i : ℕ} (hlow : lo ≤ i) (hhigh : i < hi) :
    (wordMask lo hi (i / 32)).toBitVec.getLsbD (i % 32) = true := by
  have hbit := Nat.mod_lt i (show 0 < 32 by decide)
  have hword := Nat.div_add_mod i 32
  simp only [wordMask, UInt32.toBitVec_and, UInt32.toBitVec_not, BitVec.getLsbD_and,
    BitVec.getLsbD_not, Bool.and_eq_true, Bool.not_eq_true']
  have hstart : (1 <<< UInt32.ofNat (lo - i / 32 * 32) - 1 : UInt32).toBitVec.getLsbD (i % 32) =
      false := by
    rw [getLsbD_lowMask _ (by omega) _ hbit]
    simp only [decide_eq_false_iff_not]
    omega
  refine ⟨?_, by simpa using hbit, hstart⟩
  split
  · have hones : ∀ b < 32, (0xFFFFFFFF : UInt32).toBitVec.getLsbD b = true := by decide
    exact hones _ hbit
  · rename_i hshort
    rw [beq_iff_eq] at hshort
    rw [getLsbD_lowMask _ (by omega) _ hbit]
    simp only [decide_eq_true_eq]
    omega

/-- A span that passes the mask check is writable byte by byte. -/
theorem isWritable_of_writableSpan {map : RegisterMap} {lo hi i : ℕ}
    (h : writableSpan map lo hi = true) (hlow : lo ≤ i) (hhigh : i < hi) :
    map.isWritable i = true := by
  simp only [writableSpan, List.all_eq_true] at h
  have hword : i / 32 ∈ List.range' (lo / 32) ((hi - 1) / 32 + 1 - lo / 32) := by
    have hfirst : lo / 32 ≤ i / 32 := Nat.div_le_div_right hlow
    have hlast : i / 32 ≤ (hi - 1) / 32 := Nat.div_le_div_right (by omega)
    rw [List.mem_range'_1]
    omega
  have hmask := h _ hword
  rw [beq_iff_eq] at hmask
  have hbit := getLsbD_wordMask hlow hhigh
  rw [← hmask, UInt32.toBitVec_and, BitVec.getLsbD_and, Bool.and_eq_true] at hbit
  exact hbit.1

/-! ## What validation says -/

/-- A write that may reach the table: it fits the map, touches writable bytes
alone, and every rule it meets holds of the table it makes. -/
structure Validated {map : RegisterMap} (storage : Storage map.size) (addr : ℕ)
    (data : List Byte) : Prop where
  fits : addr + data.length ≤ map.size
  writable : ∀ i, addr ≤ i → i < addr + data.length → map.isWritable i = true
  allowed : ∀ r ∈ map.allowedRules, addr ≤ r.addr → r.addr < addr + data.length →
    r.Holds (storage.copy addr data)
  cmp : ∀ r ∈ map.cmpRules, overlaps r.addr r.width addr (addr + data.length) = true →
    r.Holds (storage.copy addr data)

/-- An empty write passes validation anywhere; any other is checked in full. -/
theorem validated_of_validate {map : RegisterMap} (hmap : map.Indexed) {storage : Storage map.size}
    {addr : ℕ} {o1 o2 : List Byte} (hok : validate map storage addr o1 o2 = .ok ()) :
    o1 ++ o2 = [] ∨ Validated storage addr (o1 ++ o2) := by
  simp only [validate, ← List.length_append] at hok
  split at hok
  · rename_i hempty
    exact .inl (List.length_eq_zero_iff.mp (beq_iff_eq.mp hempty))
  · split at hok
    · cases hok
    · rename_i hfits
      split at hok
      · cases hok
      · rename_i hmask
        have hfits : addr + (o1 ++ o2).length ≤ map.size := Nat.le_of_not_lt hfits
        rw [Bool.not_eq_true, Bool.not_eq_false'] at hmask
        have hsections := checkSections_eq_ok hok
        refine .inr ⟨hfits, ?_, ?_, ?_⟩
        · intro i hlow hhigh
          exact isWritable_of_writableSpan hmask hlow hhigh
        · intro r hmem hlow hhigh
          obtain ⟨sec, hsec, hstripe, hbase, hend⟩ := hmap.allowed r hmem
          have hmeets : overlaps sec.base sec.size addr (addr + (o1 ++ o2).length) = true := by
            simp only [overlaps, Bool.and_eq_true, decide_eq_true_eq]
            omega
          exact checkAllowed_overlay hfits (checkAllowedRules_eq_ok (hmap.allowedSorted sec hsec)
            (hsections sec hsec hmeets).1 r hstripe hlow hhigh)
        · intro r hmem hrule
          obtain ⟨sec, hsec, hstripe, hbase, hend⟩ := hmap.cmp r hmem
          have hmeets : overlaps sec.base sec.size addr (addr + (o1 ++ o2).length) = true := by
            simp only [overlaps, Bool.and_eq_true, decide_eq_true_eq] at hrule ⊢
            omega
          have hcheck := checkCmpRules_eq_ok (hmap.cmpSorted sec hsec)
            (hsections sec hsec hmeets).2 r hstripe hrule
          rwa [checkCmp_overlay hfits] at hcheck

end OpenServo.Table
