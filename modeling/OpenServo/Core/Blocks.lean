import Mathlib

/-!
# Messages in blocks

A message is cut into whole blocks of a fixed width and a remainder that is
shorter than one.  An absorber that takes its input one element at a time and
mixes a block in as soon as it is full has, after any message, mixed exactly the
whole blocks and kept exactly the remainder.
-/

namespace OpenServo.Blocks

variable {α σ : Type*} {width : ℕ}

/-- The whole blocks at the front of a message, in order. -/
def whole (width : ℕ) (msg : List α) : List (List α) :=
  (List.range (msg.length / width)).map fun i => (msg.drop (i * width)).take width

/-- What the whole blocks leave over. -/
def rest (width : ℕ) (msg : List α) : List α := msg.drop (msg.length / width * width)

@[simp]
theorem whole_nil : whole width ([] : List α) = [] := by simp [whole]

@[simp]
theorem rest_nil : rest width ([] : List α) = [] := by simp [rest]

theorem length_rest (msg : List α) : (rest width msg).length = msg.length % width := by
  rw [rest, List.length_drop, Nat.mod_eq_sub, Nat.mul_comm]

theorem whole_of_short {msg : List α} (h : msg.length < width) : whole width msg = [] := by
  simp [whole, Nat.div_eq_of_lt h]

theorem rest_of_short {msg : List α} (h : msg.length < width) : rest width msg = msg := by
  simp [rest, Nat.div_eq_of_lt h]

theorem whole_of_full {msg : List α} (hwidth : 0 < width) (h : msg.length = width) :
    whole width msg = [msg] := by
  subst h
  simp [whole, Nat.div_self hwidth]

theorem rest_of_full {msg : List α} (hwidth : 0 < width) (h : msg.length = width) :
    rest width msg = [] := by
  simp [rest, h, Nat.div_self hwidth]

/-- A front of whole blocks is cut on its own. -/
theorem whole_append {left right : List α} (hwidth : 0 < width) (h : width ∣ left.length) :
    whole width (left ++ right) = whole width left ++ whole width right := by
  obtain ⟨n, hn⟩ := h
  have hleft : left.length / width = n := by rw [hn, Nat.mul_div_cancel_left _ hwidth]
  have hboth : (left ++ right).length / width = n + right.length / width := by
    rw [List.length_append, hn, Nat.mul_add_div hwidth]
  simp only [whole, hleft, hboth, List.range_add, List.map_append, List.map_map]
  congr 1
  · apply List.map_congr_left
    intro i hi
    have hend : (i + 1) * width ≤ n * width := Nat.mul_le_mul_right _ (List.mem_range.mp hi)
    rw [Nat.succ_mul, Nat.mul_comm n, ← hn] at hend
    rw [List.drop_append_of_le_length (by omega),
      List.take_append_of_le_length (by rw [List.length_drop]; omega)]
  · apply List.map_congr_left
    intro i _
    have hskip : (n + i) * width = left.length + i * width := by rw [hn]; ring
    rw [Function.comp_apply, hskip, List.drop_append, List.drop_of_length_le (by omega),
      List.nil_append, Nat.add_sub_cancel_left]

theorem rest_append {left right : List α} (hwidth : 0 < width) (h : width ∣ left.length) :
    rest width (left ++ right) = rest width right := by
  obtain ⟨n, hn⟩ := h
  have hskip : (left ++ right).length / width * width =
      left.length + right.length / width * width := by
    rw [List.length_append, hn, Nat.mul_add_div hwidth]
    ring
  rw [rest, hskip, List.drop_append, List.drop_of_length_le (by omega), List.nil_append,
    Nat.add_sub_cancel_left, rest]

/-- A message is a front of whole blocks and its remainder. -/
theorem exists_front (width : ℕ) (msg : List α) :
    ∃ front, front ++ rest width msg = msg ∧ width ∣ front.length := by
  refine ⟨msg.take (msg.length / width * width), List.take_append_drop _ _, ?_⟩
  rw [List.length_take, Nat.min_eq_left (Nat.div_mul_le_self _ _)]
  exact Nat.dvd_mul_left _ _

/-- What follows a message fills up its remainder first. -/
theorem whole_extend (hwidth : 0 < width) (msg more : List α) :
    whole width (msg ++ more) = whole width msg ++ whole width (rest width msg ++ more) := by
  obtain ⟨front, hfront, hdvd⟩ := exists_front width msg
  have hshort : (rest width msg).length < width := by
    rw [length_rest]
    exact Nat.mod_lt _ hwidth
  have hmsg : whole width msg = whole width front := by
    conv_lhs => rw [← hfront]
    rw [whole_append hwidth hdvd, whole_of_short hshort, List.append_nil]
  rw [hmsg, ← whole_append hwidth hdvd, ← List.append_assoc, hfront]

theorem rest_extend (hwidth : 0 < width) (msg more : List α) :
    rest width (msg ++ more) = rest width (rest width msg ++ more) := by
  obtain ⟨front, hfront, hdvd⟩ := exists_front width msg
  conv_lhs => rw [← hfront, List.append_assoc, rest_append hwidth hdvd]

/-! ## Absorbing -/

/-- A mixed state and the elements of the block in progress. -/
structure Absorber (σ α : Type*) where
  state : σ
  residue : List α

/-- Take one element; a block that it fills is mixed in. -/
def Absorber.push (mix : σ → List α → σ) (width : ℕ) (absorber : Absorber σ α) (a : α) :
    Absorber σ α :=
  let block := absorber.residue ++ [a]
  if block.length < width then { absorber with residue := block }
  else ⟨mix absorber.state block, []⟩

/-- After a message, the whole blocks are mixed in and the remainder is kept. -/
theorem Absorber.foldl_push (mix : σ → List α → σ) (hwidth : 0 < width) (state : σ)
    (msg : List α) :
    msg.foldl (Absorber.push mix width) ⟨state, []⟩ =
      ⟨(whole width msg).foldl mix state, rest width msg⟩ := by
  induction msg using List.reverseRecOn with
  | nil => simp
  | append_singleton msg a ih =>
      have hlength : (rest width msg ++ [a]).length ≤ width := by
        have hmod := Nat.mod_lt msg.length hwidth
        rw [List.length_append, length_rest, List.length_singleton]
        omega
      rw [List.foldl_append, ih, List.foldl_cons, List.foldl_nil, Absorber.push,
        whole_extend hwidth, rest_extend hwidth]
      split
      · rename_i hshort
        rw [whole_of_short hshort, rest_of_short hshort, List.append_nil]
      · rename_i hfull
        have hblock : (rest width msg ++ [a]).length = width :=
          Nat.le_antisymm hlength (Nat.le_of_not_lt hfull)
        rw [whole_of_full hwidth hblock, rest_of_full hwidth hblock, List.foldl_append]
        rfl

end OpenServo.Blocks
