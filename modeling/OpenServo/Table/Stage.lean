import OpenServo.Core.BoundedVec
import OpenServo.Protocol.Wire

/-!
# The staging buffer

Writes wait in one bounded byte arena with a bounded list of entries over it.
A snapshot is a pair of watermarks: reverting truncates back to it, and
`iterFrom` walks what was pushed since.
-/

namespace OpenServo.Table

inductive ValidationKind where
  | enum
  | compare
  deriving DecidableEq, Repr

inductive Error where
  | outOfRange
  | accessError
  | stagingFull
  | validationError (kind : ValidationKind)
  deriving DecidableEq, Repr

def stageDataCap : ℕ := 256

def stageEntryCap : ℕ := 16

structure StagedEntry where
  addr : ℕ
  len : ℕ
  dataOff : ℕ
  deriving DecidableEq, Repr

/-- Watermarks into the arena and the entry list. -/
structure Snapshot where
  data : ℕ
  entries : ℕ
  deriving DecidableEq, Repr

def Snapshot.zero : Snapshot := ⟨0, 0⟩

structure StagedWrites where
  data : BoundedVec Byte stageDataCap
  entries : BoundedVec StagedEntry stageEntryCap
  deriving DecidableEq

namespace StagedWrites

def new : StagedWrites := ⟨.empty, .empty⟩

def clear (_ : StagedWrites) : StagedWrites := ⟨.empty, .empty⟩

def snapshot (staged : StagedWrites) : Snapshot :=
  ⟨staged.data.length, staged.entries.length⟩

/-- Discard everything pushed since `snap`. -/
def revertTo (staged : StagedWrites) (snap : Snapshot) : StagedWrites :=
  ⟨staged.data.truncate snap.data, staged.entries.truncate snap.entries⟩

/-- Stage one entry whose source is split across the ring seam; a failed push
leaves the buffer as it was. -/
def pushSplit (staged : StagedWrites) (addr : ℕ) (head tail : List Byte) :
    Except Error StagedWrites :=
  let dataOff := staged.data.length
  let total := head.length + tail.length
  if dataOff + total > stageDataCap then .error .stagingFull
  else
    match staged.data.extend head with
    | none => .error .stagingFull
    | some data =>
        match data.extend tail with
        | none => .error .stagingFull
        | some data =>
            match staged.entries.push ⟨addr, total, dataOff⟩ with
            | none => .error .stagingFull
            | some entries => .ok ⟨data, entries⟩

/-- The address and bytes of one entry. -/
def item (staged : StagedWrites) (e : StagedEntry) : ℕ × List Byte :=
  (e.addr, (staged.data.val.drop e.dataOff).take e.len)

def iterFrom (staged : StagedWrites) (snap : Snapshot) : List (ℕ × List Byte) :=
  (staged.entries.val.drop snap.entries).map staged.item

/-- Every staged entry, oldest first. -/
def iterAll (staged : StagedWrites) : List (ℕ × List Byte) :=
  staged.iterFrom .zero

/-! ## What a push does -/

/-- `next` is `staged` with one more entry on top. -/
structure Pushed (staged next : StagedWrites) (addr : ℕ) (bytes : List Byte) : Prop where
  data : next.data.val = staged.data.val ++ bytes
  entries : next.entries.val =
    staged.entries.val ++ [⟨addr, bytes.length, staged.data.val.length⟩]

theorem pushSplit_eq_ok {staged next : StagedWrites} {addr : ℕ} {head tail : List Byte} :
    staged.pushSplit addr head tail = .ok next ↔ staged.Pushed next addr (head ++ tail) := by
  constructor
  · intro h
    simp only [pushSplit] at h
    split at h
    · cases h
    split at h
    · cases h
    next data₁ hhead =>
      split at h
      · cases h
      next data₂ htail =>
        split at h
        · cases h
        next entries hentries =>
          cases h
          rw [BoundedVec.extend_eq_some] at hhead htail
          rw [BoundedVec.push_eq_some] at hentries
          exact ⟨by simp [htail, hhead], by simp [hentries, BoundedVec.length]⟩
  · rintro ⟨hdata, hentries⟩
    have hcap : (staged.data.val ++ (head ++ tail)).length ≤ stageDataCap := hdata ▸ next.data.bound
    simp only [List.length_append] at hcap
    have hhead : (staged.data.val ++ head).length ≤ stageDataCap := by
      simp only [List.length_append]
      omega
    have h₁ : staged.data.extend head = some ⟨staged.data.val ++ head, hhead⟩ :=
      BoundedVec.extend_eq_some.mpr rfl
    have h₂ : BoundedVec.extend ⟨staged.data.val ++ head, hhead⟩ tail = some next.data :=
      BoundedVec.extend_eq_some.mpr (by simp [hdata])
    have h₃ : staged.entries.push ⟨addr, head.length + tail.length, staged.data.length⟩ =
        some next.entries :=
      BoundedVec.push_eq_some.mpr (by simp [hentries, BoundedVec.length])
    simp only [pushSplit, h₁, h₂, h₃]
    rw [if_neg (by simp only [BoundedVec.length]; omega)]

theorem stagingFull_of_pushSplit {staged : StagedWrites} {addr : ℕ} {head tail : List Byte}
    {e : Error} (h : staged.pushSplit addr head tail = .error e) : e = .stagingFull := by
  simp only [pushSplit] at h
  repeat' split at h
  all_goals first
    | exact (Except.error.inj h).symm
    | cases h

/-- A push is refused exactly when the bytes or the entry do not fit. -/
theorem pushSplit_eq_error {staged : StagedWrites} {addr : ℕ} {head tail : List Byte}
    {e : Error} :
    staged.pushSplit addr head tail = .error e ↔
      e = .stagingFull ∧
        (stageDataCap < staged.data.val.length + (head ++ tail).length ∨
          stageEntryCap ≤ staged.entries.val.length) := by
  constructor
  · intro h
    refine ⟨stagingFull_of_pushSplit h, ?_⟩
    by_contra hroom
    obtain ⟨hdata, hentries⟩ := not_or.mp hroom
    have hd : (staged.data.val ++ (head ++ tail)).length ≤ stageDataCap := by
      rw [List.length_append]
      omega
    have he : (staged.entries.val ++
        [(⟨addr, (head ++ tail).length, staged.data.val.length⟩ : StagedEntry)]).length ≤
          stageEntryCap := by
      simp only [List.length_append, List.length_singleton]
      omega
    have hok : staged.pushSplit addr head tail = .ok ⟨⟨_, hd⟩, ⟨_, he⟩⟩ :=
      pushSplit_eq_ok.mpr ⟨rfl, rfl⟩
    rw [hok] at h
    cases h
  · rintro ⟨rfl, hfull⟩
    cases hpush : staged.pushSplit addr head tail with
    | ok next =>
        obtain ⟨hdata, hentries⟩ := pushSplit_eq_ok.mp hpush
        have h₁ := next.data.bound
        have h₂ := next.entries.bound
        simp only [hdata, hentries, List.length_append, List.length_singleton] at h₁ h₂
        simp only [List.length_append] at hfull
        omega
    | error e => rw [stagingFull_of_pushSplit hpush]

/-- Every entry lies inside the arena. -/
def InBounds (staged : StagedWrites) : Prop :=
  ∀ e ∈ staged.entries.val, e.dataOff + e.len ≤ staged.data.val.length

theorem inBounds_new : new.InBounds := by simp [InBounds, new]

namespace Pushed

variable {staged next : StagedWrites} {addr : ℕ} {bytes : List Byte}

theorem inBounds (hpushed : staged.Pushed next addr bytes) (hbounds : staged.InBounds) :
    next.InBounds := by
  intro e hmem
  rw [hpushed.entries, List.mem_append, List.mem_singleton] at hmem
  rw [hpushed.data, List.length_append]
  rcases hmem with hold | rfl
  · exact (hbounds e hold).trans (Nat.le_add_right _ _)
  · exact le_refl _

/-- Reverting to the snapshot before the push undoes it. -/
theorem revertTo (hpushed : staged.Pushed next addr bytes) :
    next.revertTo staged.snapshot = staged := by
  simp only [StagedWrites.revertTo, snapshot]
  rw [BoundedVec.truncate_of_extend hpushed.data, BoundedVec.truncate_of_extend hpushed.entries]

/-- Only the pushed entry lies above the snapshot before the push. -/
theorem iterFrom (hpushed : staged.Pushed next addr bytes) :
    next.iterFrom staged.snapshot = [(addr, bytes)] := by
  simp [StagedWrites.iterFrom, snapshot, BoundedVec.length, hpushed.entries, hpushed.data, item]

/-- Entries staged before keep their bytes. -/
theorem iterAll (hpushed : staged.Pushed next addr bytes) (hbounds : staged.InBounds) :
    next.iterAll = staged.iterAll ++ [(addr, bytes)] := by
  simp only [StagedWrites.iterAll, StagedWrites.iterFrom, Snapshot.zero, List.drop_zero,
    hpushed.entries, List.map_append, List.map_singleton]
  congr 1
  · apply List.map_congr_left
    intro e hmem
    have hin := hbounds e hmem
    simp only [item, hpushed.data]
    rw [List.drop_append_of_le_length (by omega),
      List.take_append_of_le_length (by simp only [List.length_drop]; omega)]
  · simp [item, hpushed.data]

end Pushed

end StagedWrites

end OpenServo.Table
