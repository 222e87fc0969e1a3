import OpenServo.Table.Validity

/-!
# Validation against its definition

What a write must satisfy is said byte by byte and rule by rule: it lies in the map,
every byte it covers is writable, and every rule whose field it meets holds of the
table it would make.  The driver checks the mask a word at a time, leaves a sorted
stripe at the first rule behind the write and reads rule operands through a split
overlay; it accepts exactly the writes so described.
-/

namespace OpenServo.Table

variable {size : ℕ}

/-! ## Rules by their meaning -/

/-- The bytes of a field, four at most. -/
def fieldBytes (t : Storage size) (addr width : ℕ) : List Byte :=
  (List.range (min width 4)).map fun i => t.get (addr + i)

/-- The number in a field: one and two bytes as their sign says, any other as an `i32`. -/
def fieldValue (t : Storage size) (addr width : ℕ) (signed : Bool) : ℤ :=
  let n := leNat (fieldBytes t addr width)
  if width = 1 ∨ width = 2 then if signed then signExtend (8 * width) n else n
  else signExtend 32 n

namespace CmpRule

def signed (r : CmpRule) : Bool := r.spec &&& specSigned != 0

def abs (r : CmpRule) : Bool := r.spec &&& specAbs != 0

def op (r : CmpRule) : ℕ := ((r.spec >>> 8) &&& 0xFF).toNat

/-- The field lies in a map of `size` bytes, and so does the register it is compared to. -/
def Inside (size : ℕ) (r : CmpRule) : Prop :=
  r.addr + r.width ≤ size ∧
    match r.rhs with
    | .imm _ => True
    | .reg reg => reg + r.width ≤ size

/-- The number the field is compared to. -/
def rhsValue (t : Storage size) (r : CmpRule) : ℤ :=
  match r.rhs with
  | .imm value => value
  | .reg reg => fieldValue t reg r.width r.signed

def Compares (t : Storage size) (r : CmpRule) : Prop :=
  let a := fieldValue t r.addr r.width r.signed
  let b := r.rhsValue t
  if r.abs then cmpHolds r.op (saturatingAbs r.width a) (saturatingAbs r.width b) = true
  else cmpHolds r.op a b = true

end CmpRule

/-- The span `[lo, hi)` meets the field at `addr`. -/
def MeetsField (addr width lo hi : ℕ) : Prop := addr < hi ∧ lo < addr + width

/-- Every rule whose field the span meets holds of the table. -/
structure RulesHold (map : RegisterMap) (t : Storage map.size) (lo hi : ℕ) : Prop where
  allowed : ∀ r ∈ map.allowedRules, MeetsField r.addr 1 lo hi → t.get r.addr ∈ r.allowed
  cmp : ∀ r ∈ map.cmpRules, MeetsField r.addr r.width lo hi → r.Inside map.size ∧ r.Compares t

/-- What a write must satisfy. -/
structure Accepts (map : RegisterMap) (t : Storage map.size) (addr : ℕ) (data : List Byte) :
    Prop where
  fits : addr + data.length ≤ map.size
  writable : ∀ i, addr ≤ i → i < addr + data.length → map.isWritable i = true
  rules : RulesHold map (t.copy addr data) addr (addr + data.length)

theorem overlaps_iff {addr width lo hi : ℕ} :
    overlaps addr width lo hi = true ↔ MeetsField addr width lo hi := by
  simp [overlaps, MeetsField]

/-! ## One check -/

theorem leNat_padded (bytes : List Byte) (n : ℕ) :
    leNat (bytes ++ List.replicate n 0) = leNat bytes := by
  induction bytes with
  | nil =>
      induction n with
      | zero => rfl
      | succ n ih =>
          rw [List.nil_append] at ih ⊢
          rw [List.replicate_succ]
          show (0 : Byte).toNat + 256 * leNat (List.replicate n 0) = leNat []
          rw [ih]
          rfl
  | cons b bytes ih =>
      show b.toNat + 256 * leNat (bytes ++ List.replicate n 0) = b.toNat + 256 * leNat bytes
      rw [ih]

/-- What a check loads is the field, padded with zeros. -/
theorem readFixed_plain (t : Storage size) (addr width : ℕ) :
    (View.plain t).readFixed addr width =
      if addr + width > size then .error .outOfRange
      else .ok (fieldBytes t addr width ++ List.replicate (4 - width) 0) := by
  have hsplit : 4 = min width 4 + (4 - width) := by omega
  have hloaded : ((List.range 4).map fun i =>
      if i < width then (View.plain t).pick (addr + i) else 0) =
        fieldBytes t addr width ++ List.replicate (4 - width) 0 := by
    conv_lhs => rw [hsplit, List.range_add, List.map_append, List.map_map]
    congr 1
    · refine List.map_congr_left fun i hi => ?_
      rw [List.mem_range] at hi
      rw [if_pos (by omega), View.pick_plain]
    · rw [List.eq_replicate_iff]
      refine ⟨by rw [List.length_map, List.length_range], fun b hb => ?_⟩
      obtain ⟨i, hi, rfl⟩ := List.mem_map.mp hb
      rw [List.mem_range] at hi
      exact if_neg (show ¬ min width 4 + i < width by omega)
  rw [View.readFixed_eq t.length_eq, hloaded]
  rfl

theorem widen_plain (t : Storage size) (addr width : ℕ) (signed : Bool) :
    widen (.plain t) addr width signed =
      if addr + width > size then .error .outOfRange
      else .ok (fieldValue t addr width signed) := by
  rw [widen, readFixed_plain]
  split
  · rfl
  · have hlength : (fieldBytes t addr width).length = min width 4 := by
      rw [fieldBytes, List.length_map, List.length_range]
    have htake : width ≤ 4 →
        (fieldBytes t addr width ++ List.replicate (4 - width) 0).take width =
          fieldBytes t addr width := fun hle => List.take_left' (by omega)
    simp only [bind, Except.bind, pure, Except.pure, fieldValue]
    congr 1
    split
    · rw [htake (by decide)]
      rfl
    · rw [htake (by decide)]
      rfl
    · rw [htake (by decide)]
      rfl
    · rw [htake (by decide)]
      rfl
    · rename_i hone hone' htwo htwo'
      have hother : ¬ (width = 1 ∨ width = 2) := by
        rintro (rfl | rfl) <;> cases signed <;> simp_all
      rw [if_neg hother, leNat_padded]

/-- The field of a rule, loaded as the check loads it. -/
theorem widen_field (t : Storage size) (r : CmpRule) (addr : ℕ) :
    widen (.plain t) addr (r.spec &&& 0xF).toNat (r.spec &&& specSigned != 0) =
      if addr + r.width > size then .error .outOfRange
      else .ok (fieldValue t addr r.width r.signed) :=
  widen_plain t addr r.width r.signed

/-- What is compared once both sides are loaded. -/
theorem checkCmp_inside {t : Storage size} {r : CmpRule} (hin : r.Inside size) :
    checkCmp (.plain t) r.addr r.spec r.rhs =
      let a := fieldValue t r.addr r.width r.signed
      let b := r.rhsValue t
      let (a, b) := if r.abs then (saturatingAbs r.width a, saturatingAbs r.width b) else (a, b)
      if cmpHolds r.op a b then .ok () else .error (.validationError .compare) := by
  obtain ⟨hfield, hrhs⟩ := hin
  rw [checkCmp, CmpRule.rhsValue]
  cases hside : r.rhs with
  | imm value =>
      simp only [widen_field, if_neg (Nat.not_lt.mpr hfield), bind, Except.bind]
      rfl
  | reg reg =>
      rw [hside] at hrhs
      simp only [widen_field, if_neg (Nat.not_lt.mpr hfield), if_neg (Nat.not_lt.mpr hrhs), bind,
        Except.bind]
      rfl

theorem checkCmp_of_compares {t : Storage size} {r : CmpRule} (hin : r.Inside size)
    (h : r.Compares t) : checkCmp (.plain t) r.addr r.spec r.rhs = .ok () := by
  rw [checkCmp_inside hin]
  rw [CmpRule.Compares] at h
  cases habs : r.abs with
  | false =>
      rw [habs] at h
      exact if_pos h
  | true =>
      rw [habs] at h
      exact if_pos h

theorem checkCmp_of_not_compares {t : Storage size} {r : CmpRule} (hin : r.Inside size)
    (h : ¬ r.Compares t) :
    checkCmp (.plain t) r.addr r.spec r.rhs = .error (.validationError .compare) := by
  rw [checkCmp_inside hin]
  rw [CmpRule.Compares] at h
  cases habs : r.abs with
  | false =>
      rw [habs] at h
      exact if_neg h
  | true =>
      rw [habs] at h
      exact if_neg h

theorem checkCmp_of_not_inside {t : Storage size} {r : CmpRule} (h : ¬ r.Inside size) :
    checkCmp (.plain t) r.addr r.spec r.rhs = .error .outOfRange := by
  rw [checkCmp]
  rw [CmpRule.Inside, not_and_or] at h
  by_cases hfield : r.addr + r.width ≤ size
  · have hrhs := h.resolve_left (not_not_intro hfield)
    cases hside : r.rhs with
    | imm value =>
        rw [hside] at hrhs
        exact absurd trivial hrhs
    | reg reg =>
        rw [hside] at hrhs
        simp only [widen_field, if_neg (Nat.not_lt.mpr hfield), if_pos (Nat.lt_of_not_le hrhs),
          bind, Except.bind]
  · simp only [widen_field, if_pos (Nat.lt_of_not_le hfield), bind, Except.bind]

theorem checkAllowed_plain (t : Storage size) (r : AllowedRule) (hin : r.addr < size) :
    checkAllowed (.plain t) r.addr r.allowed =
      if t.get r.addr ∈ r.allowed then .ok () else .error (.validationError .enum) := by
  have hbyte : (fieldBytes t r.addr 1 ++ List.replicate (4 - 1) 0).getD 0 0 = t.get r.addr := rfl
  rw [checkAllowed, readFixed_plain, if_neg (by omega)]
  simp only [bind, Except.bind, hbyte, List.contains_iff_mem]

/-! ## The scans -/

/-- An error of the scan is the error of a rule the span meets. -/
theorem checkAllowedRules_eq_error {view : View} {lo hi : ℕ} {rules : List AllowedRule} {e : Error}
    (h : checkAllowedRules view lo hi rules = .error e) :
    ∃ r ∈ rules, MeetsField r.addr 1 lo hi ∧ checkAllowed view r.addr r.allowed = .error e := by
  induction rules with
  | nil => cases h
  | cons r rules ih =>
      rw [checkAllowedRules] at h
      split at h
      · cases h
      · split at h
        · rename_i hmeets
          cases hcheck : checkAllowed view r.addr r.allowed with
          | error e' =>
              rw [hcheck] at h
              cases h
              exact ⟨r, List.mem_cons_self, overlaps_iff.mp hmeets, hcheck⟩
          | ok u =>
              rw [hcheck] at h
              obtain ⟨s, hmem, hs⟩ := ih h
              exact ⟨s, List.mem_cons_of_mem _ hmem, hs⟩
        · obtain ⟨s, hmem, hs⟩ := ih h
          exact ⟨s, List.mem_cons_of_mem _ hmem, hs⟩

theorem checkCmpRules_cons (view : View) (lo hi : ℕ) (r : CmpRule) (rules : List CmpRule) :
    checkCmpRules view lo hi (r :: rules) =
      if r.addr ≥ hi then .ok ()
      else if overlaps r.addr r.width lo hi then
        checkCmp view r.addr r.spec r.rhs >>= fun _ => checkCmpRules view lo hi rules
      else checkCmpRules view lo hi rules := rfl

theorem checkCmpRules_eq_error {view : View} {lo hi : ℕ} {rules : List CmpRule} {e : Error}
    (h : checkCmpRules view lo hi rules = .error e) :
    ∃ r ∈ rules, MeetsField r.addr r.width lo hi ∧
      checkCmp view r.addr r.spec r.rhs = .error e := by
  induction rules with
  | nil => cases h
  | cons r rules ih =>
      rw [checkCmpRules_cons] at h
      split at h
      · cases h
      · split at h
        · rename_i hmeets
          cases hcheck : checkCmp view r.addr r.spec r.rhs with
          | error e' =>
              rw [hcheck] at h
              cases h
              exact ⟨r, List.mem_cons_self, overlaps_iff.mp hmeets, hcheck⟩
          | ok u =>
              rw [hcheck] at h
              obtain ⟨s, hmem, hs⟩ := ih h
              exact ⟨s, List.mem_cons_of_mem _ hmem, hs⟩
        · obtain ⟨s, hmem, hs⟩ := ih h
          exact ⟨s, List.mem_cons_of_mem _ hmem, hs⟩

theorem mem_of_mem_stripe {α : Type} {rules : List α} {range : ℕ × ℕ} {r : α}
    (h : r ∈ stripe rules range) : r ∈ rules := by
  rw [stripe] at h
  split at h
  · exact List.mem_of_mem_drop (List.mem_of_mem_take h)
  · cases h

/-- An error of the rule pass is the error of a rule the span meets. -/
theorem checkSections_eq_error {map : RegisterMap} {view : View} {lo hi : ℕ}
    {secs : List SectionMeta} {e : Error} (h : checkSections map view lo hi secs = .error e) :
    (∃ r ∈ map.allowedRules, MeetsField r.addr 1 lo hi ∧
        checkAllowed view r.addr r.allowed = .error e) ∨
      ∃ r ∈ map.cmpRules, MeetsField r.addr r.width lo hi ∧
        checkCmp view r.addr r.spec r.rhs = .error e := by
  induction secs with
  | nil => cases h
  | cons sec secs ih =>
      rw [checkSections] at h
      split at h
      · exact ih h
      · cases hallowed :
            checkAllowedRules view lo hi (stripe map.allowedRules sec.allowedRules) with
        | error e' =>
            rw [hallowed] at h
            cases h
            obtain ⟨r, hmem, hr⟩ := checkAllowedRules_eq_error hallowed
            exact .inl ⟨r, mem_of_mem_stripe hmem, hr⟩
        | ok u =>
            cases hcmp : checkCmpRules view lo hi (stripe map.cmpRules sec.cmpRules) with
            | error e' =>
                rw [hallowed, hcmp] at h
                cases h
                obtain ⟨r, hmem, hr⟩ := checkCmpRules_eq_error hcmp
                exact .inr ⟨r, mem_of_mem_stripe hmem, hr⟩
            | ok u' =>
                rw [hallowed, hcmp] at h
                exact ih h

/-! ## The mask -/

/-- Every bit a word's mask asks for is a covered byte. -/
theorem covered_of_getLsbD_wordMask {lo hi wi b : ℕ} (hlow : lo / 32 ≤ wi) (hb : b < 32)
    (h : (wordMask lo hi wi).toBitVec.getLsbD b = true) :
    lo ≤ wi * 32 + b ∧ wi * 32 + b < hi := by
  simp only [wordMask, UInt32.toBitVec_and, UInt32.toBitVec_not, BitVec.getLsbD_and,
    BitVec.getLsbD_not, Bool.and_eq_true, Bool.not_eq_true'] at h
  obtain ⟨hend, -, hstart⟩ := h
  rw [getLsbD_lowMask _ (by omega) _ hb, decide_eq_false_iff_not] at hstart
  refine ⟨by omega, ?_⟩
  by_cases hwhole : min (hi - wi * 32) 32 = 32
  · omega
  · have hshort : (min (hi - wi * 32) 32 == 32) = false := by simpa using hwhole
    rw [hshort, if_neg Bool.false_ne_true, getLsbD_lowMask _ (by omega) _ hb,
      decide_eq_true_eq] at hend
    omega

/-- The mask check accepts exactly the spans whose bytes are all writable. -/
theorem writableSpan_iff {map : RegisterMap} {lo hi : ℕ} :
    writableSpan map lo hi = true ↔ ∀ i, lo ≤ i → i < hi → map.isWritable i = true := by
  refine ⟨fun h i hlow hhigh => isWritable_of_writableSpan h hlow hhigh, fun h => ?_⟩
  simp only [writableSpan, List.all_eq_true]
  intro wi hwi
  rw [List.mem_range'_1] at hwi
  rw [beq_iff_eq]
  apply UInt32.toBitVec_inj.mp
  apply BitVec.eq_of_getLsbD_eq
  intro b hb
  rw [UInt32.toBitVec_and, BitVec.getLsbD_and]
  cases hbit : (wordMask lo hi wi).toBitVec.getLsbD b with
  | false => rw [Bool.and_false]
  | true =>
      obtain ⟨hlow, hhigh⟩ := covered_of_getLsbD_wordMask (by omega) hb hbit
      have hwritable := h _ hlow hhigh
      have hword : (wi * 32 + b) / 32 = wi := by omega
      have hrest : (wi * 32 + b) % 32 = b := by omega
      rw [RegisterMap.isWritable, hword, hrest] at hwritable
      rw [hwritable, Bool.and_true]

/-! ## The whole validation -/

section Validation

variable {map : RegisterMap} {t : Storage map.size} {addr : ℕ}

theorem checkAllowedRules_congr {view view' : View}
    (h : ∀ a len, view.readFixed a len = view'.readFixed a len) (lo hi : ℕ)
    (rules : List AllowedRule) :
    checkAllowedRules view lo hi rules = checkAllowedRules view' lo hi rules := by
  induction rules with
  | nil => rfl
  | cons r rules ih => simp only [checkAllowedRules, checkAllowed, h, ih]

theorem checkCmpRules_congr {view view' : View}
    (h : ∀ a len, view.readFixed a len = view'.readFixed a len) (lo hi : ℕ)
    (rules : List CmpRule) :
    checkCmpRules view lo hi rules = checkCmpRules view' lo hi rules := by
  induction rules with
  | nil => rfl
  | cons r rules ih => simp only [checkCmpRules, checkCmp, widen, h, ih]

/-- The rule pass looks at the view through its reads alone. -/
theorem checkSections_congr {view view' : View}
    (h : ∀ a len, view.readFixed a len = view'.readFixed a len) (lo hi : ℕ)
    (secs : List SectionMeta) :
    checkSections map view lo hi secs = checkSections map view' lo hi secs := by
  induction secs with
  | nil => rfl
  | cons sec secs ih =>
      simp only [checkSections, checkAllowedRules_congr h, checkCmpRules_congr h, ih]

/-- Validation, with the data in one piece and the rules on the table the write would make. -/
theorem validate_eq (o1 o2 : List Byte) :
    validate map t addr o1 o2 =
      if (o1 ++ o2).length = 0 then .ok ()
      else if addr + (o1 ++ o2).length > map.size then .error .outOfRange
      else if !writableSpan map addr (addr + (o1 ++ o2).length) then .error .accessError
      else checkSections map (.plain (t.copy addr (o1 ++ o2))) addr
        (addr + (o1 ++ o2).length) map.sections := by
  simp only [validate, ← List.length_append, beq_iff_eq]
  split_ifs with hempty hout hmask
  · rfl
  · rfl
  · rfl
  · exact checkSections_congr (View.readFixed_overlay (Nat.le_of_not_lt hout)) _ _ _

/-- Where the ring seam cuts the data does not matter. -/
theorem validate_split (o1 o2 : List Byte) :
    validate map t addr o1 o2 = validate map t addr (o1 ++ o2) [] := by
  rw [validate_eq, validate_eq, List.append_nil]

theorem checkSections_of_rulesHold {t' : Storage map.size} {lo hi : ℕ} (hfits : hi ≤ map.size)
    (h : RulesHold map t' lo hi) :
    checkSections map (.plain t') lo hi map.sections = .ok () := by
  cases hcheck : checkSections map (.plain t') lo hi map.sections with
  | ok u => rfl
  | error e =>
      obtain ⟨r, hmem, hmeets, hr⟩ | ⟨r, hmem, hmeets, hr⟩ := checkSections_eq_error hcheck
      · rw [checkAllowed_plain t' r (by have := hmeets.1; omega),
          if_pos (h.allowed r hmem hmeets)] at hr
        cases hr
      · obtain ⟨hin, hcmp⟩ := h.cmp r hmem hmeets
        rw [checkCmp_of_compares hin hcmp] at hr
        cases hr

theorem compares_of_ok {t' : Storage map.size} {r : CmpRule}
    (h : checkCmp (.plain t') r.addr r.spec r.rhs = .ok ()) :
    r.Inside map.size ∧ r.Compares t' := by
  by_cases hin : r.Inside map.size
  · refine ⟨hin, ?_⟩
    by_contra hcmp
    rw [checkCmp_of_not_compares hin hcmp] at h
    cases h
  · rw [checkCmp_of_not_inside hin] at h
    cases h

/-- Everything but the empty write is accepted for what it must satisfy, and for nothing
less. -/
theorem validate_eq_ok_iff (hmap : map.Indexed) {o1 o2 : List Byte} :
    validate map t addr o1 o2 = .ok () ↔ o1 ++ o2 = [] ∨ Accepts map t addr (o1 ++ o2) := by
  constructor
  · intro hok
    obtain hempty | ⟨hfits, hwritable, hallowed, hcmp⟩ := validated_of_validate hmap hok
    · exact .inl hempty
    · refine .inr ⟨hfits, hwritable, fun r hmem hmeets => ?_, fun r hmem hmeets => ?_⟩
      · have hlow := hmeets.2
        exact hallowed r hmem (by omega) hmeets.1
      · exact compares_of_ok (hcmp r hmem (overlaps_iff.mpr hmeets))
  · rintro (hempty | ⟨hfits, hwritable, hrules⟩)
    · rw [validate_eq, hempty]
      rfl
    · rw [validate_eq]
      split_ifs with hzero hout hmask
      · rfl
      · exact absurd hfits (Nat.not_le.mpr hout)
      · rw [writableSpan_iff.mpr hwritable] at hmask
        cases hmask
      · exact checkSections_of_rulesHold hfits hrules

/-- Why a write that is not empty is refused: the map before the mask, the mask before the
rules.  A rule is out of range itself if it names a byte behind the map. -/
structure Refusal (map : RegisterMap) (t : Storage map.size) (addr : ℕ) (data : List Byte)
    (result : Except Error Unit) : Prop where
  outOfRange : map.size < addr + data.length → result = .error .outOfRange
  access : addr + data.length ≤ map.size →
    (∃ i, addr ≤ i ∧ i < addr + data.length ∧ map.isWritable i = false) →
      result = .error .accessError
  rules : addr + data.length ≤ map.size →
    (∀ i, addr ≤ i → i < addr + data.length → map.isWritable i = true) →
    ¬ RulesHold map (t.copy addr data) addr (addr + data.length) →
      (∃ kind, result = .error (.validationError kind)) ∨
        result = .error .outOfRange ∧ ∃ r ∈ map.cmpRules,
          MeetsField r.addr r.width addr (addr + data.length) ∧ ¬ r.Inside map.size

theorem refusal_of_validate (hmap : map.Indexed) {o1 o2 : List Byte} (hne : o1 ++ o2 ≠ []) :
    Refusal map t addr (o1 ++ o2) (validate map t addr o1 o2) := by
  have hlength : (o1 ++ o2).length ≠ 0 := fun hzero => hne (List.length_eq_zero_iff.mp hzero)
  refine ⟨fun hout => ?_, fun hfits hlocked => ?_, fun hfits hwritable hrules => ?_⟩
  · rw [validate_eq, if_neg hlength, if_pos hout]
  · obtain ⟨i, hlow, hhigh, hro⟩ := hlocked
    have hmask : writableSpan map addr (addr + (o1 ++ o2).length) = false := by
      rw [Bool.eq_false_iff]
      intro hmask
      rw [writableSpan_iff.mp hmask i hlow hhigh] at hro
      cases hro
    rw [validate_eq, if_neg hlength, if_neg (Nat.not_lt.mpr hfits), hmask]
    rfl
  · cases hcheck : validate map t addr o1 o2 with
    | ok u =>
        obtain hempty | haccepts := (validate_eq_ok_iff hmap).mp hcheck
        · exact absurd hempty hne
        · exact absurd haccepts.rules hrules
    | error e =>
        rw [validate_eq, if_neg hlength, if_neg (Nat.not_lt.mpr hfits),
          writableSpan_iff.mpr hwritable] at hcheck
        obtain ⟨r, -, hmeets, hr⟩ | ⟨r, hmem, hmeets, hr⟩ := checkSections_eq_error hcheck
        · rw [checkAllowed_plain _ r (by have := hmeets.1; omega)] at hr
          split at hr
          · cases hr
          · cases hr
            exact .inl ⟨_, rfl⟩
        · by_cases hin : r.Inside map.size
          · by_cases hcmp : r.Compares (t.copy addr (o1 ++ o2))
            · rw [checkCmp_of_compares hin hcmp] at hr
              cases hr
            · rw [checkCmp_of_not_compares hin hcmp] at hr
              cases hr
              exact .inl ⟨_, rfl⟩
          · rw [checkCmp_of_not_inside hin] at hr
            cases hr
            exact .inr ⟨rfl, r, hmem, hmeets, hin⟩

end Validation

/-! ## Writing and staging in place -/

/-- `push_split` as it works on the buffer: what a late failure leaves in the arena is
truncated away. -/
def StagedWrites.pushSplitInPlace (staged : StagedWrites) (addr : ℕ) (head tail : List Byte) :
    Except Error Unit × StagedWrites :=
  let dataOff := staged.data.length
  let total := head.length + tail.length
  if dataOff + total > stageDataCap then (.error .stagingFull, staged)
  else
    match staged.data.extend head with
    | none => (.error .stagingFull, staged)
    | some data =>
        match data.extend tail with
        | none => (.error .stagingFull, { staged with data := data.truncate dataOff })
        | some data =>
            match staged.entries.push ⟨addr, total, dataOff⟩ with
            | none => (.error .stagingFull, { staged with data := data.truncate dataOff })
            | some entries => (.ok (), ⟨data, entries⟩)

section InPlace

variable {map : RegisterMap}

def writeSplitInPlace (t : Storage map.size) (addr : ℕ) (head tail : List Byte) :
    Except Error Unit × Storage map.size :=
  match validate map t addr head tail with
  | .error e => (.error e, t)
  | .ok () => (.ok (), (t.copy addr head).copy (addr + head.length) tail)

def stageSplitInPlace (t : Storage map.size) (addr : ℕ) (head tail : List Byte)
    (staged : StagedWrites) : Except Error Unit × StagedWrites :=
  match validate map t addr head tail with
  | .error e => (.error e, staged)
  | .ok () => staged.pushSplitInPlace addr head tail

end InPlace

theorem truncate_extended {α : Type} {cap : ℕ} {v w : BoundedVec α cap} {src : List α}
    (h : v.extend src = some w) : w.truncate v.length = v :=
  BoundedVec.truncate_of_extend (BoundedVec.extend_eq_some.mp h)

/-- In place, a push that fails leaves the buffer as it was. -/
theorem pushSplitInPlace_eq (staged : StagedWrites) (addr : ℕ) (head tail : List Byte) :
    staged.pushSplitInPlace addr head tail =
      match staged.pushSplit addr head tail with
      | .ok next => (.ok (), next)
      | .error e => (.error e, staged) := by
  rw [StagedWrites.pushSplitInPlace, StagedWrites.pushSplit]
  split
  · rfl
  · cases hhead : staged.data.extend head with
    | none => rfl
    | some data =>
        have hback := truncate_extended hhead
        dsimp only
        cases htail : data.extend tail with
        | none =>
            dsimp only
            rw [hback]
        | some data' =>
            have hboth : data'.val = staged.data.val ++ (head ++ tail) := by
              rw [BoundedVec.extend_eq_some.mp htail, BoundedVec.extend_eq_some.mp hhead,
                List.append_assoc]
            dsimp only
            cases staged.entries.push ⟨addr, head.length + tail.length, staged.data.length⟩ with
            | none =>
                dsimp only
                rw [BoundedVec.truncate_of_extend hboth]
            | some entries => rfl

section InPlace

variable {map : RegisterMap} (t : Storage map.size) (addr : ℕ) (head tail : List Byte)

/-- Written in place, a table becomes what `writeSplit` returns. -/
theorem writeSplitInPlace_eq :
    writeSplitInPlace t addr head tail =
      match writeSplit t addr head tail with
      | .ok next => (.ok (), next)
      | .error e => (.error e, t) := by
  rw [writeSplitInPlace, writeSplit]
  cases validate map t addr head tail <;> rfl

/-- Staged in place, a buffer becomes what `stageSplit` returns. -/
theorem stageSplitInPlace_eq (staged : StagedWrites) :
    stageSplitInPlace t addr head tail staged =
      match stageSplit t addr head tail staged with
      | .ok next => (.ok (), next)
      | .error e => (.error e, staged) := by
  rw [stageSplitInPlace, stageSplit]
  cases validate map t addr head tail with
  | error e => rfl
  | ok u => exact pushSplitInPlace_eq staged addr head tail

end InPlace

/-- The two copies of a write are one. -/
theorem copy_copy {size : ℕ} (t : Storage size) {addr : ℕ} {head tail : List Byte}
    (h : addr + (head ++ tail).length ≤ size) :
    (t.copy addr head).copy (addr + head.length) tail = t.copy addr (head ++ tail) := by
  have htotal : (head ++ tail).length = head.length + tail.length := List.length_append
  apply Storage.ext_get
  intro i hi
  rw [Storage.get_copy (by omega), Storage.get_copy (by omega), Storage.get_copy h]
  by_cases hhead : addr ≤ i ∧ i < addr + head.length
  · rw [if_neg (by omega), if_pos hhead, if_pos (by omega), List.getD_append _ _ _ _ (by omega)]
  · by_cases htail : addr + head.length ≤ i ∧ i < addr + head.length + tail.length
    · rw [if_pos htail, if_pos (by omega), List.getD_append_right _ _ _ _ (by omega),
        Nat.sub_sub]
    · rw [if_neg htail, if_neg hhead, if_neg (by omega)]

/-! ## What the derive emits -/

/-- The fields of a section fill no more than its size; an allowed-value field has a byte, a
compared one four at most. -/
structure Section.WellFormed (sec : Section) : Prop where
  fits : (sec.fields.map Field.width).sum ≤ sec.size
  allowed : ∀ field ∈ sec.fields, field.allowed ≠ none → 0 < field.width
  compares : ∀ field ∈ sec.fields, field.compares ≠ [] → field.width ≤ 4

theorem mem_layout {fields : List Field} : ∀ {addr a : ℕ} {field : Field},
    (a, field) ∈ layout addr fields →
      field ∈ fields ∧ addr ≤ a ∧ a + field.width ≤ addr + (fields.map Field.width).sum := by
  induction fields with
  | nil =>
      intro addr a field hmem
      cases hmem
  | cons first fields ih =>
      intro addr a field hmem
      rw [layout, List.mem_cons] at hmem
      rw [List.map_cons, List.sum_cons]
      obtain hfirst | hrest := hmem
      · cases hfirst
        exact ⟨List.mem_cons_self, le_refl _, by omega⟩
      · obtain ⟨hfield, hlow, hhigh⟩ := ih hrest
        exact ⟨List.mem_cons_of_mem _ hfield, by omega, by omega⟩

/-- Declaration order is address order. -/
theorem layout_sorted (fields : List Field) : ∀ addr : ℕ,
    (layout addr fields).Pairwise fun x y => x.1 ≤ y.1 := by
  induction fields with
  | nil => exact fun addr => List.Pairwise.nil
  | cons first fields ih =>
      intro addr
      rw [layout, List.pairwise_cons]
      refine ⟨fun y hmem => ?_, ih _⟩
      have hlow := (mem_layout hmem).2.1
      exact Nat.le_trans (Nat.le_add_right _ _) hlow

theorem width_cmpRuleOf {addr : ℕ} {field : Field} (h : field.width ≤ 4) (c : CmpOp × Rhs) :
    (cmpRuleOf addr field c).addr = addr ∧ (cmpRuleOf addr field c).width = field.width := by
  have hspec : ∀ w ≤ 4, ∀ signed abs : Bool, ∀ op : CmpOp,
      (spec (UInt16.ofNat w) signed abs op &&& 0xF).toNat = w ∧
        ((spec (UInt16.ofNat w) signed abs op ||| specRhsReg) &&& 0xF).toNat = w := by
    intro w hw signed abs op
    cases op <;> revert w signed abs <;> decide
  obtain ⟨op, rhs⟩ := c
  obtain ⟨hplain, hreg⟩ := hspec field.width h field.signed field.abs op
  cases rhs with
  | imm value => exact ⟨rfl, hplain⟩
  | reg reg => exact ⟨rfl, hreg⟩

section Derived

variable {sec : Section}

theorem mem_allowedRulesAbs (hsec : sec.WellFormed) {r : AllowedRule}
    (h : r ∈ sec.allowedRulesAbs) : sec.base ≤ r.addr ∧ r.addr < sec.base + sec.size := by
  rw [Section.allowedRulesAbs, List.mem_filterMap] at h
  obtain ⟨⟨a, field⟩, hplaced, hrule⟩ := h
  obtain ⟨hfield, hlow, hhigh⟩ := mem_layout hplaced
  obtain ⟨allowed, hallowed, rfl⟩ := Option.map_eq_some_iff.mp hrule
  have hwidth := hsec.allowed field hfield (by rw [hallowed]; exact Option.some_ne_none _)
  have hfits := hsec.fits
  exact ⟨hlow, by dsimp only; omega⟩

theorem mem_cmpRulesAbs (hsec : sec.WellFormed) {r : CmpRule} (h : r ∈ sec.cmpRulesAbs) :
    sec.base ≤ r.addr ∧ r.addr + r.width ≤ sec.base + sec.size := by
  rw [Section.cmpRulesAbs, List.mem_flatMap] at h
  obtain ⟨⟨a, field⟩, hplaced, hrule⟩ := h
  obtain ⟨hfield, hlow, hhigh⟩ := mem_layout hplaced
  obtain ⟨c, hc, rfl⟩ := List.mem_map.mp hrule
  obtain ⟨haddr, hwidth⟩ :=
    @width_cmpRuleOf a _ (hsec.compares field hfield (List.ne_nil_of_mem hc)) c
  have hfits := hsec.fits
  exact ⟨by omega, by omega⟩

theorem allowedRulesAbs_sorted (sec : Section) :
    sec.allowedRulesAbs.Pairwise fun r s => r.addr ≤ s.addr := by
  refine List.Pairwise.filterMap _ (fun x y hle r hr s hs => ?_) (layout_sorted sec.fields sec.base)
  obtain ⟨_, -, rfl⟩ := Option.map_eq_some_iff.mp hr
  obtain ⟨_, -, rfl⟩ := Option.map_eq_some_iff.mp hs
  exact hle

theorem addr_of_mem_map_cmpRuleOf {addr : ℕ} {field : Field} {r : CmpRule}
    (h : r ∈ field.compares.map (cmpRuleOf addr field)) : r.addr = addr := by
  obtain ⟨⟨op, rhs⟩, -, rfl⟩ := List.mem_map.mp h
  cases rhs <;> rfl

theorem cmpRulesAbs_sorted (sec : Section) :
    sec.cmpRulesAbs.Pairwise fun r s => r.addr ≤ s.addr := by
  rw [Section.cmpRulesAbs, List.pairwise_flatMap]
  refine ⟨fun x hx => ?_, (layout_sorted sec.fields sec.base).imp fun {x y} hle r hr s hs => ?_⟩
  · refine List.pairwise_of_forall_mem_list fun r hr s hs => ?_
    rw [addr_of_mem_map_cmpRuleOf hr, addr_of_mem_map_cmpRuleOf hs]
  · rw [addr_of_mem_map_cmpRuleOf hr, addr_of_mem_map_cmpRuleOf hs]
    exact hle

end Derived

/-- The table's record of a section: its place, and the stripes that are its rules. -/
structure Describes (cmp : List CmpRule) (allowed : List AllowedRule) (sec : Section)
    (m : SectionMeta) : Prop where
  base : m.base = sec.base
  size : m.size = sec.size
  cmpRules : stripe cmp m.cmpRules = sec.cmpRulesAbs
  allowedRules : stripe allowed m.allowedRules = sec.allowedRulesAbs

theorem stripe_middle {α : Type} (before rules after : List α) :
    stripe (before ++ (rules ++ after)) (before.length, before.length + rules.length) = rules := by
  rw [stripe, if_pos ⟨Nat.le_add_right _ _, by rw [List.length_append, List.length_append]; omega⟩,
    List.drop_left, Nat.add_sub_cancel_left, List.take_left]

/-- Every section has its record, and every record is a section's. -/
theorem sectionMetas_describe (secs : List Section) : ∀ cmp allowed,
    let describes := Describes (cmp ++ secs.flatMap Section.cmpRulesAbs)
      (allowed ++ secs.flatMap Section.allowedRulesAbs)
    let metas := sectionMetas cmp.length allowed.length secs
    (∀ sec ∈ secs, ∃ m ∈ metas, describes sec m) ∧ ∀ m ∈ metas, ∃ sec ∈ secs, describes sec m := by
  induction secs with
  | nil => exact fun cmp allowed => ⟨fun _ h => absurd h List.not_mem_nil,
      fun _ h => absurd h List.not_mem_nil⟩
  | cons sec secs ih =>
      intro cmp allowed
      obtain ⟨hforth, hback⟩ := ih (cmp ++ sec.cmpRulesAbs) (allowed ++ sec.allowedRulesAbs)
      rw [List.append_assoc, List.append_assoc, List.length_append, List.length_append]
        at hforth hback
      rw [List.flatMap_cons, List.flatMap_cons, sectionMetas]
      constructor
      · intro s hs
        obtain rfl | hs := List.mem_cons.mp hs
        · exact ⟨_, List.mem_cons_self, rfl, rfl, stripe_middle _ _ _, stripe_middle _ _ _⟩
        · obtain ⟨m, hm, hdescribes⟩ := hforth s hs
          exact ⟨m, List.mem_cons_of_mem _ hm, hdescribes⟩
      · intro m hm
        obtain rfl | hm := List.mem_cons.mp hm
        · exact ⟨sec, List.mem_cons_self, rfl, rfl, stripe_middle _ _ _, stripe_middle _ _ _⟩
        · obtain ⟨s, hs, hdescribes⟩ := hback m hm
          exact ⟨s, List.mem_cons_of_mem _ hs, hdescribes⟩

/-- The derive's maps are indexed. -/
theorem deriveMap_indexed {size : ℕ} {secs : List Section} (hsecs : ∀ sec ∈ secs, sec.WellFormed) :
    (deriveMap size secs).Indexed := by
  obtain ⟨hforth, hback⟩ := sectionMetas_describe secs [] []
  refine ⟨fun r hmem => ?_, fun r hmem => ?_, fun m hmem => ?_, fun m hmem => ?_⟩
  · obtain ⟨sec, hsec, hr⟩ := List.mem_flatMap.mp hmem
    obtain ⟨m, hm, hdescribes⟩ := hforth sec hsec
    obtain ⟨hlow, hhigh⟩ := mem_allowedRulesAbs (hsecs sec hsec) hr
    refine ⟨m, hm, hdescribes.allowedRules.symm ▸ hr, ?_⟩
    rw [hdescribes.base, hdescribes.size]
    exact ⟨hlow, hhigh⟩
  · obtain ⟨sec, hsec, hr⟩ := List.mem_flatMap.mp hmem
    obtain ⟨m, hm, hdescribes⟩ := hforth sec hsec
    obtain ⟨hlow, hhigh⟩ := mem_cmpRulesAbs (hsecs sec hsec) hr
    refine ⟨m, hm, hdescribes.cmpRules.symm ▸ hr, ?_⟩
    rw [hdescribes.base, hdescribes.size]
    exact ⟨hlow, hhigh⟩
  · obtain ⟨sec, -, hdescribes⟩ := hback m hmem
    exact hdescribes.allowedRules.symm ▸ allowedRulesAbs_sorted sec
  · obtain ⟨sec, -, hdescribes⟩ := hback m hmem
    exact hdescribes.cmpRules.symm ▸ cmpRulesAbs_sorted sec

/-! ## Validation, writing and staging -/

section Exactness

variable {map : RegisterMap}

/-- A write in place: refused, the table is as it was; accepted, the span holds the data and
every other byte is kept. -/
structure WritesExactly (t : Storage map.size) (addr : ℕ) (data : List Byte)
    (verdict : Except Error Unit) (out : Except Error Unit × Storage map.size) : Prop where
  result : out.1 = verdict
  refused : ∀ e, out.1 = .error e → out.2 = t
  accepted : out.1 = .ok () → ∀ i, out.2.get i =
    if addr ≤ i ∧ i < addr + data.length then data.getD (i - addr) 0 else t.get i

/-- A staging in place: refused, by the validation or for want of room, the buffer is as it
was; accepted, it holds the write as one more entry. -/
structure StagesExactly (addr : ℕ) (data : List Byte) (verdict : Except Error Unit)
    (staged : StagedWrites) (out : Except Error Unit × StagedWrites) : Prop where
  invalid : ∀ e, verdict = .error e → out.1 = .error e
  refused : ∀ e, out.1 = .error e → out.2 = staged ∧ (verdict = .ok () → e = .stagingFull)
  accepted : out.1 = .ok () → verdict = .ok () ∧ staged.Pushed out.2 addr data

variable {t : Storage map.size} {addr : ℕ} {head tail : List Byte}

/-- Of a write that passes validation, one copy of the whole data is made. -/
theorem copied_of_validate (hmap : map.Indexed) (hok : validate map t addr head tail = .ok ()) :
    (t.copy addr head).copy (addr + head.length) tail = t.copy addr (head ++ tail) ∧
      ∀ i, (t.copy addr (head ++ tail)).get i =
        if addr ≤ i ∧ i < addr + (head ++ tail).length then (head ++ tail).getD (i - addr) 0
        else t.get i := by
  obtain hempty | haccepts := (validate_eq_ok_iff hmap).mp hok
  · obtain ⟨rfl, rfl⟩ := List.append_eq_nil_iff.mp hempty
    have hsame : ∀ at' : ℕ, t.copy at' [] = t := fun at' => Storage.ext_get fun i _ =>
      Storage.get_copy_of_not_mem (by rw [List.length_nil]; omega)
    rw [List.append_nil, hsame, hsame]
    refine ⟨rfl, fun i => (if_neg ?_).symm⟩
    rw [List.length_nil]
    omega
  · exact ⟨copy_copy t haccepts.fits, fun i => Storage.get_copy haccepts.fits i⟩

theorem writesExactly (hmap : map.Indexed) :
    WritesExactly t addr (head ++ tail) (validate map t addr head tail)
      (writeSplitInPlace t addr head tail) := by
  rw [writeSplitInPlace]
  cases hvalid : validate map t addr head tail with
  | error e => exact ⟨rfl, fun _ _ => rfl, fun h => nomatch h⟩
  | ok u =>
      obtain ⟨hcopy, hbytes⟩ := copied_of_validate hmap hvalid
      refine ⟨rfl, fun e h => (nomatch h), fun _ i => ?_⟩
      rw [hcopy]
      exact hbytes i

theorem stagesExactly (staged : StagedWrites) :
    StagesExactly addr (head ++ tail) (validate map t addr head tail) staged
      (stageSplitInPlace t addr head tail staged) := by
  rw [stageSplitInPlace]
  cases hvalid : validate map t addr head tail with
  | error e =>
      exact ⟨fun e' h => h, fun e' _ => ⟨rfl, fun h => (nomatch h)⟩, fun h => (nomatch h)⟩
  | ok u =>
      rw [pushSplitInPlace_eq]
      cases hpush : staged.pushSplit addr head tail with
      | error e =>
          refine ⟨fun e' h => (nomatch h), fun e' h => ⟨rfl, fun _ => ?_⟩, fun h => (nomatch h)⟩
          cases h
          exact StagedWrites.stagingFull_of_pushSplit hpush
      | ok next =>
          exact ⟨fun e' h => (nomatch h), fun e' h => (nomatch h),
            fun _ => ⟨rfl, StagedWrites.pushSplit_eq_ok.mp hpush⟩⟩

variable {head' tail' : List Byte}

theorem pushSplit_split (staged : StagedWrites) (h : head' ++ tail' = head ++ tail) :
    staged.pushSplit addr head' tail' = staged.pushSplit addr head tail := by
  cases hpush : staged.pushSplit addr head tail with
  | ok next =>
      rw [StagedWrites.pushSplit_eq_ok] at hpush ⊢
      rw [h]
      exact hpush
  | error e =>
      cases hpush' : staged.pushSplit addr head' tail' with
      | error e' =>
          rw [StagedWrites.stagingFull_of_pushSplit hpush,
            StagedWrites.stagingFull_of_pushSplit hpush']
      | ok next =>
          rw [StagedWrites.pushSplit_eq_ok, h, ← StagedWrites.pushSplit_eq_ok, hpush] at hpush'
          cases hpush'

/-- The same data, cut elsewhere, is validated, written and staged the same. -/
theorem same_of_split (hmap : map.Indexed) (staged : StagedWrites)
    (h : head' ++ tail' = head ++ tail) :
    validate map t addr head' tail' = validate map t addr head tail ∧
      writeSplitInPlace t addr head' tail' = writeSplitInPlace t addr head tail ∧
      stageSplitInPlace t addr head' tail' staged = stageSplitInPlace t addr head tail staged := by
  have hvalid : validate map t addr head' tail' = validate map t addr head tail := by
    rw [validate_split head' tail', validate_split head tail, h]
  refine ⟨hvalid, ?_, ?_⟩
  · rw [writeSplitInPlace, writeSplitInPlace, hvalid]
    cases hok : validate map t addr head tail with
    | error e => rfl
    | ok u =>
        rw [← hvalid] at hok
        dsimp only
        rw [(copied_of_validate hmap hok).1, (copied_of_validate hmap (hvalid ▸ hok)).1, h]
  · rw [stageSplitInPlace, stageSplitInPlace, hvalid, pushSplitInPlace_eq, pushSplitInPlace_eq,
      pushSplit_split staged h]

/-- A write is accepted exactly if it is empty or fits the map, touches writable bytes alone
and satisfies every rule it meets; what refuses it is the first of these it fails.  Where
its data is cut does not matter, and nothing changes but the span of an accepted write. -/
theorem validation_is_exact {map : RegisterMap} (hmap : map.Indexed) (t : Storage map.size)
    (addr : ℕ) (head tail : List Byte) (staged : StagedWrites) :
    let data := head ++ tail
    let verdict := validate map t addr head tail
    (verdict = .ok () ↔ data = [] ∨ Accepts map t addr data) ∧
    (data ≠ [] → Refusal map t addr data verdict) ∧
    (∀ head' tail', head' ++ tail' = data →
      validate map t addr head' tail' = verdict ∧
      writeSplitInPlace t addr head' tail' = writeSplitInPlace t addr head tail ∧
      stageSplitInPlace t addr head' tail' staged = stageSplitInPlace t addr head tail staged) ∧
    WritesExactly t addr data verdict (writeSplitInPlace t addr head tail) ∧
    StagesExactly addr data verdict staged (stageSplitInPlace t addr head tail staged) :=
  ⟨validate_eq_ok_iff hmap, refusal_of_validate hmap,
    fun _ _ h => same_of_split hmap staged h, writesExactly hmap, stagesExactly staged⟩

end Exactness

/-- On the servo's own table: a cutoff temperature, cut between its two bytes. -/
theorem validation_of_a_cutoff :
    let table : ControlTable := .new
    validate controlMap table Addr.windingCutoffCc [5] [0] = .ok () ∧
      Accepts controlMap table Addr.windingCutoffCc [5, 0] ∧
      ∀ i, (writeSplitInPlace table Addr.windingCutoffCc [5] [0]).2.get i =
        if Addr.windingCutoffCc ≤ i ∧ i < Addr.windingCutoffCc + 2 then
          [5, 0].getD (i - Addr.windingCutoffCc) 0
        else table.get i := by
  have hok : validate controlMap ControlTable.new Addr.windingCutoffCc [5] [0] = .ok () := by
    decide +kernel
  obtain ⟨haccepted, -, -, hwrites, -⟩ :=
    validation_is_exact controlMap_indexed ControlTable.new Addr.windingCutoffCc [5] [0] .new
  exact ⟨hok, (haccepted.mp hok).resolve_left (by decide),
    hwrites.accepted (hwrites.result.trans hok)⟩

end OpenServo.Table
