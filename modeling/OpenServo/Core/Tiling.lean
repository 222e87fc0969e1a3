import Mathlib

/-!
# Tilings of a string by records

A cutter takes one record off the front of a string.  A string is tiled when
its records use it up exactly.  For local cutters, whose records do not depend
on what follows them, tilings compose by concatenation and are recovered from
it.
-/

namespace OpenServo.Tiling

variable {β α : Type*} {next : List β → Option (α × List β)}

/-- `l` is exactly the records `items`, one after the other. -/
inductive Tiles (next : List β → Option (α × List β)) : List β → List α → Prop where
  | nil : Tiles next [] []
  | cons {l rest : List β} {item : α} {items : List α} :
      next l = some (item, rest) → Tiles next rest items → Tiles next l (item :: items)

/-- A record is nonempty and is cut the same way whatever follows it. -/
structure Cutter (next : List β → Option (α × List β)) : Prop where
  nil : next [] = none
  shorter : ∀ {l item rest}, next l = some (item, rest) → rest.length < l.length
  append : ∀ {l item rest} (right : List β),
    next l = some (item, rest) → next (l ++ right) = some (item, rest ++ right)

/-- The records of a tiled string, `none` when a ragged tail is left. -/
def tile (next : List β → Option (α × List β)) : ℕ → List β → Option (List α)
  | 0, l => if l.isEmpty then some [] else none
  | fuel + 1, l =>
      if l.isEmpty then some []
      else
        match next l with
        | none => none
        | some (item, rest) => (tile next fuel rest).map (item :: ·)

theorem Tiles.append (hnext : Cutter next) {left right : List β} {items items' : List α}
    (hleft : Tiles next left items) (hright : Tiles next right items') :
    Tiles next (left ++ right) (items ++ items') := by
  induction hleft with
  | nil => exact hright
  | cons hcut _ ih => exact .cons (hnext.append right hcut) ih

/-- The records of a tiled front are the first records of the whole. -/
theorem Tiles.of_append (hnext : Cutter next) {left right : List β} {items all : List α}
    (hleft : Tiles next left items) (hall : Tiles next (left ++ right) all) :
    ∃ items', Tiles next right items' ∧ all = items ++ items' := by
  induction hleft generalizing all with
  | nil => exact ⟨all, hall, rfl⟩
  | @cons l rest item items hcut _ ih =>
      have hwhole := hnext.append right hcut
      generalize l ++ right = whole at hall hwhole
      cases hall with
      | nil =>
          rw [hnext.nil] at hwhole
          cases hwhole
      | cons hcut' hrest' =>
          rw [hwhole] at hcut'
          cases hcut'
          obtain ⟨items', htiles, rfl⟩ := ih hrest'
          exact ⟨items', htiles, rfl⟩

theorem tile_eq_some (hnext : Cutter next) {fuel : ℕ} {l : List β} {items : List α}
    (hfuel : l.length ≤ fuel) : tile next fuel l = some items ↔ Tiles next l items := by
  induction fuel generalizing l items with
  | zero =>
      obtain rfl : l = [] := List.eq_nil_of_length_eq_zero (by omega)
      constructor
      · intro h
        cases h
        exact .nil
      · intro h
        cases h with
        | nil => rfl
        | cons hcut _ =>
            rw [hnext.nil] at hcut
            cases hcut
  | succ fuel ih =>
      cases l with
      | nil =>
          constructor
          · intro h
            cases h
            exact .nil
          · intro h
            cases h with
            | nil => rfl
            | cons hcut _ =>
                rw [hnext.nil] at hcut
                cases hcut
      | cons b l =>
          simp only [tile, List.isEmpty_cons, Bool.false_eq_true, if_false]
          constructor
          · intro h
            split at h
            · cases h
            · rename_i item rest hcut
              have hshort := hnext.shorter hcut
              simp only [Option.map_eq_some_iff] at h
              obtain ⟨items, hrest, rfl⟩ := h
              exact .cons hcut ((ih (by omega)).mp hrest)
          · intro h
            cases h with
            | cons hcut hrest =>
                have hshort := hnext.shorter hcut
                simp only [hcut, (ih (by omega)).mpr hrest, Option.map_some]

/-- The records of `l`, none when `l` is ragged. -/
def records (next : List β → Option (α × List β)) (l : List β) : List α :=
  (tile next l.length l).getD []

theorem records_of_tiles (hnext : Cutter next) {l : List β} {items : List α}
    (h : Tiles next l items) : records next l = items := by
  rw [records, (tile_eq_some hnext le_rfl).mpr h, Option.getD_some]

theorem records_of_ragged (hnext : Cutter next) {l : List β}
    (h : ¬ ∃ items, Tiles next l items) : records next l = [] := by
  have hnone : tile next l.length l = none := by
    rw [Option.eq_none_iff_forall_ne_some]
    intro items hitems
    exact h ⟨items, (tile_eq_some hnext le_rfl).mp hitems⟩
  rw [records, hnone, Option.getD_none]

theorem tiles_of_mem_records (hnext : Cutter next) {l : List β} {item : α}
    (h : item ∈ records next l) : Tiles next l (records next l) := by
  by_cases htiles : ∃ items, Tiles next l items
  · obtain ⟨items, hitems⟩ := htiles
    rwa [records_of_tiles hnext hitems]
  · rw [records_of_ragged hnext htiles] at h
    cases h

/-- Every record takes at least one place of the string. -/
theorem Tiles.length_le (hnext : Cutter next) {l : List β} {items : List α}
    (h : Tiles next l items) : items.length ≤ l.length := by
  induction h with
  | nil => exact le_rfl
  | cons hcut _ ih =>
      have hshort := hnext.shorter hcut
      simp only [List.length_cons]
      omega

theorem records_length_le (hnext : Cutter next) (l : List β) :
    (records next l).length ≤ l.length := by
  by_cases htiles : ∃ items, Tiles next l items
  · obtain ⟨items, hitems⟩ := htiles
    rw [records_of_tiles hnext hitems]
    exact hitems.length_le hnext
  · rw [records_of_ragged hnext htiles]
    exact Nat.zero_le _

/-- Records of a fixed width `k` tile exactly the multiples of `k`. -/
theorem tiles_iff_dvd {k : ℕ} (hk : 0 < k)
    (hnext : ∀ l : List β, (next l = none ∧ l.length < k) ∨
      (k ≤ l.length ∧ ∃ item, next l = some (item, l.drop k))) (l : List β) :
    (∃ items, Tiles next l items) ↔ k ∣ l.length := by
  induction hn : l.length using Nat.strong_induction_on generalizing l with
  | _ n ih =>
      subst hn
      constructor
      · rintro ⟨items, h⟩
        cases h with
        | nil => simp
        | @cons _ rest item items hcut hrest =>
            obtain ⟨hnone, -⟩ | ⟨hle, item', hsome⟩ := hnext l
            · rw [hnone] at hcut
              cases hcut
            · rw [hsome] at hcut
              obtain ⟨-, rfl⟩ := Prod.mk.inj (Option.some.inj hcut)
              have hdvd := (ih _ (by simp; omega) (l.drop k) rfl).mp ⟨items, hrest⟩
              rw [List.length_drop] at hdvd
              have hsum := Nat.dvd_add hdvd (dvd_refl k)
              rwa [Nat.sub_add_cancel hle] at hsum
      · intro hdvd
        obtain ⟨-, hlt⟩ | ⟨hle, item, hsome⟩ := hnext l
        · obtain rfl : l = [] := List.eq_nil_of_length_eq_zero (Nat.eq_zero_of_dvd_of_lt hdvd hlt)
          exact ⟨[], .nil⟩
        · have hrest : k ∣ (l.drop k).length := by
            rw [List.length_drop]
            exact Nat.dvd_sub hdvd (dvd_refl k)
          obtain ⟨items, hitems⟩ := (ih _ (by simp; omega) (l.drop k) rfl).mpr hrest
          exact ⟨item :: items, .cons hsome hitems⟩

/-- Records of a fixed width `k`: their number is what the length says. -/
theorem Tiles.length_mul {k : ℕ}
    (hnext : ∀ l : List β, (next l = none ∧ l.length < k) ∨
      (k ≤ l.length ∧ ∃ item, next l = some (item, l.drop k)))
    {l : List β} {items : List α} (h : Tiles next l items) : k * items.length = l.length := by
  induction h with
  | nil => simp
  | @cons l rest item items hcut hrest ih =>
      obtain ⟨hnone, -⟩ | ⟨hle, item', hsome⟩ := hnext l
      · rw [hnone] at hcut
        cases hcut
      · rw [hsome] at hcut
        obtain ⟨-, rfl⟩ := Prod.mk.inj (Option.some.inj hcut)
        rw [List.length_cons, Nat.mul_succ, ih, List.length_drop, Nat.sub_add_cancel hle]

end OpenServo.Tiling
