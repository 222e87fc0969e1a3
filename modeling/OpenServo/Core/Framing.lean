import Mathlib

/-!
# Length-prefixed records

A record is sent as its length, on a fixed number of places, and then itself.  A
receiver that keeps what it cannot yet cut sees the same records however the stream
reaches it: whatever part of a framed list has arrived is some whole records and a
held piece of the next one.
-/

namespace OpenServo.Framing

/-- A fixed-width spelling of the lengths below a bound. -/
structure Codec (β : Type*) where
  width : ℕ
  bound : ℕ
  put : ℕ → List β
  get : List β → ℕ
  length_put : ∀ n, (put n).length = width
  get_put : ∀ {n : ℕ} (rest : List β), n < bound → get (put n ++ rest) = n

variable {β : Type*} (codec : Codec β)

def frame (record : List β) : List β := codec.put record.length ++ record

def frames (records : List (List β)) : List β := records.flatMap (frame codec)

/-- A piece of the stream of `todo` that is too short for its first record. -/
structure Held (piece : List β) (todo : List (List β)) : Prop where
  pieceOf : piece <+: frames codec todo
  short : ∀ record ∈ todo.head?, piece.length < (frame codec record).length

variable {codec} {piece more record : List β} {todo : List (List β)}

@[simp]
theorem length_frame : (frame codec record).length = codec.width + record.length := by
  rw [frame, List.length_append, codec.length_put]

@[simp]
theorem frames_nil : frames codec [] = [] := rfl

@[simp]
theorem frames_cons (record : List β) (todo : List (List β)) :
    frames codec (record :: todo) = frame codec record ++ frames codec todo := rfl

@[simp]
theorem frames_append (left right : List (List β)) :
    frames codec (left ++ right) = frames codec left ++ frames codec right := by
  simp [frames]

theorem held_nil (todo : List (List β)) (hwidth : 0 < codec.width) : Held codec [] todo where
  pieceOf := List.nil_prefix
  short := by
    intro record _
    rw [length_frame, List.length_nil]
    omega

theorem Held.eq_nil (h : Held codec piece []) : piece = [] :=
  List.prefix_nil.mp h.pieceOf

/-- A held piece is a piece of the first record's frame. -/
theorem Held.rest (h : Held codec piece (record :: todo)) :
    ∃ rest, rest ≠ [] ∧ piece ++ rest = frame codec record := by
  have hshort := h.short record rfl
  have hpiece := List.prefix_of_prefix_length_le h.pieceOf
    (show frame codec record <+: frames codec (record :: todo) from List.prefix_append _ _)
    hshort.le
  obtain ⟨rest, hrest⟩ := hpiece
  refine ⟨rest, ?_, hrest⟩
  rintro rfl
  rw [← hrest, List.append_nil] at hshort
  exact absurd hshort (lt_irrefl _)

/-- Whatever has arrived of a framed list is whole records and a held piece. -/
theorem exists_held (todo : List (List β)) {arrived : List β}
    (h : arrived <+: frames codec todo) :
    ∃ done rest held, todo = done ++ rest ∧ arrived = frames codec done ++ held ∧
      Held codec held rest := by
  induction todo generalizing arrived with
  | nil => exact ⟨[], [], arrived, rfl, rfl, h, by simp⟩
  | cons record todo ih =>
      by_cases hshort : arrived.length < (frame codec record).length
      · refine ⟨[], record :: todo, arrived, rfl, rfl, h, ?_⟩
        intro first hfirst
        cases hfirst
        exact hshort
      · have hwhole := List.prefix_of_prefix_length_le
          (show frame codec record <+: frames codec (record :: todo) from List.prefix_append _ _) h
          (Nat.le_of_not_lt hshort)
        obtain ⟨tail, rfl⟩ := hwhole
        obtain ⟨done, rest, held, rfl, rfl, hheld⟩ :=
          ih ((List.prefix_append_right_inj _).mp h)
        exact ⟨record :: done, rest, held, rfl, by simp, hheld⟩

/-! ## What the receiver reads -/

section

variable (hfits : record.length < codec.bound)
include hfits

theorem get_frame (more : List β) : codec.get (frame codec record ++ more) = record.length := by
  rw [frame, List.append_assoc]
  exact codec.get_put _ hfits

/-- A whole frame at the front: its record, and what follows it. -/
theorem cut_frame (more : List β) :
    codec.width + codec.get (frame codec record ++ more) ≤ (frame codec record ++ more).length ∧
      ((frame codec record ++ more).drop codec.width).take
        (codec.get (frame codec record ++ more)) = record ∧
      (frame codec record ++ more).drop
        (codec.width + codec.get (frame codec record ++ more)) = more := by
  rw [get_frame hfits]
  refine ⟨?_, ?_, ?_⟩
  · rw [List.length_append, length_frame]
    omega
  · rw [frame, List.append_assoc, ← codec.length_put record.length, List.drop_left,
      List.take_left]
  · have hlen : codec.width + record.length = (frame codec record).length := length_frame.symm
    rw [hlen, List.drop_left]

/-- A held piece with a whole length field names the record that is missing. -/
theorem Held.get (h : Held codec piece (record :: todo)) (hwidth : codec.width ≤ piece.length) :
    codec.get piece = record.length := by
  obtain ⟨rest, -, hrest⟩ := h.rest
  have hspelled : codec.put record.length <+: frame codec record := List.prefix_append _ _
  have hput : codec.put record.length <+: piece :=
    List.prefix_of_prefix_length_le hspelled ⟨rest, hrest⟩ (by rwa [codec.length_put])
  obtain ⟨body, rfl⟩ := hput
  exact codec.get_put body hfits

end

end OpenServo.Framing
