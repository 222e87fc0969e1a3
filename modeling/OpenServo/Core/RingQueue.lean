import Mathlib

/-!
# Ring queues

A queue in a fixed buffer: the elements lie in a row from a read position on, around the
end of the buffer.  What is read off is what was written, in order, as long as what is
written fits; what does not fit is refused whole.
-/

namespace OpenServo

/-- A buffer of `cap` places, of which `len` from `read` on are taken. -/
structure RingQueue (β : Type*) (cap : ℕ) where
  buf : List β
  read : ℕ
  len : ℕ
  size : buf.length = cap
  read_lt : read < cap
  len_le : len ≤ cap

namespace RingQueue

variable {β : Type*} {cap : ℕ} {buf : List β} {read len pos : ℕ}

/-- Write in a row from `pos` on, around the end of the buffer. -/
def writeFrom (cap : ℕ) : List β → ℕ → List β → List β
  | buf, _, [] => buf
  | buf, pos, b :: bs => writeFrom cap (buf.set pos b) ((pos + 1) % cap) bs

theorem length_writeFrom (buf : List β) (pos : ℕ) (bs : List β) :
    (writeFrom cap buf pos bs).length = buf.length := by
  induction bs generalizing buf pos with
  | nil => rfl
  | cons b bs ih => rw [writeFrom, ih, List.length_set]

/-- Places less than a lap apart are different. -/
theorem place_ne {i j : ℕ} (hlt : i < j) (hlap : j < i + cap) : i % cap ≠ j % cap := by
  intro heq
  have hdvd := (Nat.modEq_iff_dvd' hlt.le).mp heq
  have hle := Nat.le_of_dvd (by omega) hdvd
  omega

variable [Inhabited β]

/-- Read `n` elements in a row from `read` on, and where the next one lies. -/
def readFrom (buf : List β) (cap : ℕ) : ℕ → ℕ → List β × ℕ
  | read, 0 => ([], read)
  | read, n + 1 =>
      let (rest, next) := readFrom buf cap ((read + 1) % cap) n
      (buf.getD read default :: rest, next)

/-- `len` elements in a row from `read` on. -/
def row (buf : List β) (read len cap : ℕ) : List β :=
  (List.range len).map fun k => buf.getD ((read + k) % cap) default

@[simp]
theorem length_row (buf : List β) (read len cap : ℕ) : (row buf read len cap).length = len := by
  simp [row]

theorem row_succ (buf : List β) (read len cap : ℕ) :
    row buf read (len + 1) cap =
      row buf read len cap ++ [buf.getD ((read + len) % cap) default] := by
  rw [row, List.range_succ, List.map_append]
  rfl

/-- A place behind the row is no place of the row. -/
theorem row_set (hread : len < cap) (b : β) :
    row (buf.set ((read + len) % cap) b) read len cap = row buf read len cap := by
  apply List.map_congr_left
  intro k hk
  have hlt : read + k < read + len := Nat.add_lt_add_left (List.mem_range.mp hk) _
  have hne : (read + k) % cap ≠ (read + len) % cap := place_ne hlt (by omega)
  simp [List.getD_eq_getElem?_getD, List.getElem?_set_ne hne.symm]

theorem getD_set_self (hpos : pos < buf.length) (b : β) : (buf.set pos b).getD pos default = b := by
  simp [List.getD_eq_getElem?_getD, List.getElem?_set_self hpos]

/-- What is written behind a row makes it longer. -/
theorem row_writeFrom (hsize : buf.length = cap) (bs : List β) (hfits : len + bs.length ≤ cap) :
    row (writeFrom cap buf ((read + len) % cap) bs) read (len + bs.length) cap =
      row buf read len cap ++ bs := by
  induction bs generalizing buf len with
  | nil => simp [writeFrom]
  | cons b bs ih =>
      rw [List.length_cons] at hfits
      have hplace : (read + len) % cap < cap := Nat.mod_lt _ (by omega)
      have hrest := @ih (buf.set ((read + len) % cap) b) (len + 1) (by rw [List.length_set, hsize])
        (by omega)
      rw [writeFrom, List.length_cons, Nat.mod_add_mod,
        show read + len + 1 = read + (len + 1) from rfl,
        show len + (bs.length + 1) = len + 1 + bs.length by omega, hrest, row_succ,
        row_set (by omega), getD_set_self (by omega), List.append_assoc]
      rfl

/-- A row read in two goes. -/
theorem row_add (buf : List β) (read n m cap : ℕ) :
    row buf read (n + m) cap = row buf read n cap ++ row buf ((read + n) % cap) m cap := by
  rw [row, List.range_add, List.map_append, List.map_map]
  refine congrArg (row buf read n cap ++ ·) (List.map_congr_left fun k _ => ?_)
  rw [Function.comp_apply, Nat.mod_add_mod, Nat.add_assoc]

/-- The loop reads a row. -/
theorem readFrom_eq (buf : List β) {read : ℕ} (hread : read < cap) (n : ℕ) :
    readFrom buf cap read n = (row buf read n cap, (read + n) % cap) := by
  induction n generalizing read with
  | zero => rw [readFrom, Nat.add_zero, Nat.mod_eq_of_lt hread]; rfl
  | succ n ih =>
      rw [readFrom, ih (Nat.mod_lt _ (Nat.zero_lt_of_lt hread)), Nat.add_comm n 1, row_add]
      simp [row, Nat.mod_eq_of_lt hread, Nat.add_assoc]

/-! ## The queue -/

omit [Inhabited β] in
theorem size_writeFrom (queue : RingQueue β cap) (pos : ℕ) (bs : List β) :
    (writeFrom cap queue.buf pos bs).length = cap := by
  rw [length_writeFrom, queue.size]

omit [Inhabited β] in
theorem len_sub_le (queue : RingQueue β cap) (n : ℕ) : queue.len - n ≤ cap :=
  (Nat.sub_le _ _).trans queue.len_le

theorem readFrom_lt (queue : RingQueue β cap) (n : ℕ) :
    (readFrom queue.buf cap queue.read n).2 < cap := by
  rw [readFrom_eq queue.buf queue.read_lt]
  exact Nat.mod_lt _ (Nat.zero_lt_of_lt queue.read_lt)

/-- What the queue holds, oldest first. -/
def contents (queue : RingQueue β cap) : List β := row queue.buf queue.read queue.len cap

/-- Append what fits. -/
def write (queue : RingQueue β cap) (bs : List β) (hfits : queue.len + bs.length ≤ cap) :
    RingQueue β cap where
  buf := writeFrom cap queue.buf ((queue.read + queue.len) % cap) bs
  read := queue.read
  len := queue.len + bs.length
  size := size_writeFrom queue _ bs
  read_lt := queue.read_lt
  len_le := hfits

/-- Take up to `room` elements off the front. -/
def pop (queue : RingQueue β cap) (room : ℕ) : List β × RingQueue β cap :=
  ((readFrom queue.buf cap queue.read (min room queue.len)).1,
    { buf := queue.buf
      read := (readFrom queue.buf cap queue.read (min room queue.len)).2
      len := queue.len - min room queue.len
      size := queue.size
      read_lt := queue.readFrom_lt _
      len_le := queue.len_sub_le _ })

variable (queue : RingQueue β cap)

@[simp]
theorem length_contents : queue.contents.length = queue.len := length_row _ _ _ _

theorem contents_write (bs : List β) (hfits : queue.len + bs.length ≤ cap) :
    (queue.write bs hfits).contents = queue.contents ++ bs :=
  row_writeFrom queue.size bs hfits

/-- What is popped and what is left are what was there. -/
theorem contents_pop (room : ℕ) :
    (queue.pop room).1 ++ (queue.pop room).2.contents = queue.contents := by
  have hsplit : min room queue.len + (queue.len - min room queue.len) = queue.len := by omega
  simp only [pop, contents, readFrom_eq queue.buf queue.read_lt]
  rw [← row_add, hsplit]

theorem pop_fst (room : ℕ) : (queue.pop room).1 = queue.contents.take room := by
  have hlength : (queue.pop room).1.length = min room queue.len := by
    simp only [pop, readFrom_eq queue.buf queue.read_lt, length_row]
  have hfront : (queue.pop room).1 <+: queue.contents := ⟨_, queue.contents_pop room⟩
  rw [List.prefix_iff_eq_take.mp hfront, hlength, List.take_eq_take_iff, length_contents]
  omega

theorem contents_pop_snd (room : ℕ) : (queue.pop room).2.contents = queue.contents.drop room := by
  have hsplit := queue.contents_pop room
  rw [pop_fst] at hsplit
  exact List.append_cancel_left (hsplit.trans (List.take_append_drop room queue.contents).symm)

/-! ## What a full queue refuses -/

section Fitting

variable {α : Type*} (size : α → ℕ)

/-- Those that fit, one behind the other, into `room`; what does not fit is passed over. -/
def fitting : ℕ → List α → List α
  | _, [] => []
  | room, a :: rest =>
      if size a ≤ room then a :: fitting (room - size a) rest else fitting room rest

variable {size}

theorem fitting_sublist (room : ℕ) (offered : List α) :
    (fitting size room offered).Sublist offered := by
  induction offered generalizing room with
  | nil => exact List.Sublist.refl _
  | cons a rest ih =>
      rw [fitting]
      split
      · exact (ih _).cons_cons a
      · exact (ih _).cons a

/-- All of it fits if its sizes do together. -/
theorem fitting_eq_self {room : ℕ} {offered : List α} (h : (offered.map size).sum ≤ room) :
    fitting size room offered = offered := by
  induction offered generalizing room with
  | nil => rfl
  | cons a rest ih =>
      rw [List.map_cons, List.sum_cons] at h
      rw [fitting, if_pos (by omega), ih (by omega)]

/-- A queue of `cap` places over a run.  Of what is offered at once it keeps what fits behind
what it holds then, and at the other end it is emptied. -/
inductive Passed (size : α → ℕ) (cap first : ℕ) : List α → List α → ℕ → Prop where
  | start : Passed size cap first [] [] first
  | offer {offered kept : List α} {len : ℕ} (h : Passed size cap first offered kept len)
      (more : List α) :
      Passed size cap first (offered ++ more) (kept ++ fitting size (cap - len) more)
        (len + ((fitting size (cap - len) more).map size).sum)
  | leave {offered kept : List α} {len : ℕ} (h : Passed size cap first offered kept len) (n : ℕ) :
      Passed size cap first offered kept (len - n)

theorem Passed.sublist {first len : ℕ} {offered kept : List α}
    (h : Passed size cap first offered kept len) : kept.Sublist offered := by
  induction h with
  | start => exact List.Sublist.refl _
  | offer _ more ih => exact ih.append (fitting_sublist _ more)
  | leave _ _ ih => exact ih

end Fitting

end RingQueue

end OpenServo
