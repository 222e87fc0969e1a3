import OpenServo.Core.Transition

/-!
# Packets under a toggle

A sender repeats a packet under one value of a bit until it hears that the packet
was taken; a receiver takes a packet only under the value it expects.  Packets and
answers get lost.  What was taken is still a prefix of what was offered, each packet
once, and the sender's knowledge is never more than one packet behind.
-/

namespace OpenServo

/-- The two ends of a line. -/
structure ToggleLink (α : Type*) where
  /-- What the sender does not know to be taken, the packet it repeats first. -/
  waiting : List α
  sends : Bool
  expects : Bool
  taken : List α

namespace ToggleLink

variable {α : Type*} {link : ToggleLink α} {offered : List α}

def offer (link : ToggleLink α) (packet : α) : ToggleLink α :=
  { link with waiting := link.waiting ++ [packet] }

/-- The packet arrives. -/
def hear (link : ToggleLink α) : ToggleLink α :=
  match link.waiting with
  | [] => link
  | packet :: _ =>
      if link.sends = link.expects then
        { link with expects := !link.expects, taken := link.taken ++ [packet] }
      else link

/-- The answer to it arrives. -/
def acknowledge (link : ToggleLink α) : ToggleLink α :=
  { link with waiting := link.waiting.tail, sends := !link.sends }

/-- The ends are in step, or the receiver is ahead by the packet whose answer was lost. -/
def Carries (link : ToggleLink α) (offered : List α) : Prop :=
  ∃ known, known ++ link.waiting = offered ∧
    (link.sends = link.expects ∧ link.taken = known ∨
      link.sends ≠ link.expects ∧
        ∃ packet rest, link.waiting = packet :: rest ∧ link.taken = known ++ [packet])

theorem carries_start (packets : List α) (bit : Bool) :
    Carries ⟨packets, bit, bit, []⟩ packets :=
  ⟨[], rfl, Or.inl ⟨rfl, rfl⟩⟩

/-- Whatever packet arrives, it is not one the receiver still expects. -/
theorem hear_ahead (hwaiting : link.waiting ≠ []) : link.hear.sends ≠ link.hear.expects := by
  unfold hear
  split
  · rename_i hnil
    exact absurd hnil hwaiting
  · split
    · rename_i hbit
      simp [hbit]
    · rename_i hbit
      exact hbit

namespace Carries

theorem offer (h : link.Carries offered) (packet : α) :
    (link.offer packet).Carries (offered ++ [packet]) := by
  obtain ⟨known, hknown, hends⟩ := h
  refine ⟨known, by rw [ToggleLink.offer, ← hknown, List.append_assoc], ?_⟩
  obtain hstep | ⟨hbit, first, rest, hwaiting, htaken⟩ := hends
  · exact Or.inl hstep
  · refine Or.inr ⟨hbit, first, rest ++ [packet], ?_, htaken⟩
    rw [ToggleLink.offer, hwaiting, List.cons_append]

/-- A packet under the other bit is the one that was taken last. -/
theorem hear (h : link.Carries offered) : link.hear.Carries offered := by
  unfold ToggleLink.hear
  split
  · exact h
  · rename_i packet rest hwaiting
    split
    · rename_i hbit
      obtain ⟨known, hknown, ⟨-, htaken⟩ | ⟨hother, -⟩⟩ := h
      · refine ⟨known, hknown, Or.inr ⟨?_, packet, rest, hwaiting, ?_⟩⟩
        · rw [hbit]
          exact Bool.self_ne_not _
        · rw [htaken]
      · exact absurd hbit hother
    · exact h

theorem acknowledge (h : link.Carries offered) (hahead : link.sends ≠ link.expects) :
    link.acknowledge.Carries offered := by
  obtain ⟨known, hknown, ⟨hbit, -⟩ | ⟨-, packet, rest, hwaiting, htaken⟩⟩ := h
  · exact absurd hbit hahead
  · refine ⟨known ++ [packet], ?_, Or.inl ⟨?_, htaken⟩⟩
    · rw [← hknown, ToggleLink.acknowledge, hwaiting, List.append_assoc]
      rfl
    · exact (Bool.eq_not.mpr hahead.symm).symm

theorem taken_prefix (h : link.Carries offered) : link.taken <+: offered := by
  obtain ⟨known, hknown, ⟨-, htaken⟩ | ⟨-, packet, rest, hwaiting, htaken⟩⟩ := h
  · exact ⟨link.waiting, by rw [htaken, hknown]⟩
  · exact ⟨rest, by rw [htaken, ← hknown, hwaiting, List.append_assoc]; rfl⟩

/-- A sender with nothing left to send has had everything taken. -/
theorem taken_eq (h : link.Carries offered) (hwaiting : link.waiting = []) :
    link.taken = offered := by
  obtain ⟨known, hknown, ⟨-, htaken⟩ | ⟨-, packet, rest, hfirst, -⟩⟩ := h
  · rw [htaken, ← hknown, hwaiting, List.append_nil]
  · rw [hwaiting] at hfirst
    cases hfirst

/-- The sender knows of all that was taken but the last packet. -/
theorem known (h : link.Carries offered) :
    ∃ known, known ++ link.waiting = offered ∧ known <+: link.taken ∧
      link.taken.length ≤ known.length + 1 := by
  obtain ⟨known, hknown, ⟨-, htaken⟩ | ⟨-, packet, rest, hwaiting, htaken⟩⟩ := h
  · exact ⟨known, hknown, htaken ▸ List.prefix_refl _, by rw [htaken]; exact Nat.le_succ _⟩
  · refine ⟨known, hknown, htaken ▸ List.prefix_append _ _, ?_⟩
    rw [htaken, List.length_append, List.length_singleton]

end Carries

end ToggleLink

end OpenServo
