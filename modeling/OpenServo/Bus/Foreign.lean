import OpenServo.Bus.Gate
import OpenServo.Bus.Reading
import OpenServo.Bus.StepFacts
import OpenServo.Security.Counters

/-!
# Frames for other servos

The authenticity gate stands beside the CRC gate, before the address decode on
the backlog and verdict-first paths.  A frame for another servo therefore gets
a verdict here under this servo's keys; the frames whose verdict leaves no mark
are exactly the ones the gate does not look at or passes with no failure to
forgive.
-/

namespace OpenServo.Bus

open Security

namespace ServoBus

/-- The frame passes this servo's message plane without a mark. -/
def sparing (bus : ServoBus) (span : FrameSpan) : Prop :=
  oversize span.footprint = true ∨
    bus.security.Spares (bus.presented span.anchor span.footprint)

instance (bus : ServoBus) (span : FrameSpan) : Decidable (bus.sparing span) :=
  inferInstanceAs (Decidable (_ ∨ _))

theorem counters_judged_iff (bus : ServoBus) (span : FrameSpan) :
    (bus.judged span.anchor span.footprint).counters = bus.security.counters ↔
      bus.sparing span := by
  have hverify := bus.security.counters_verify_iff (bus.presented span.anchor span.footprint)
  simp only [judged, sparing]
  cases oversize span.footprint with
  | true => simp
  | false =>
      simp only [Bool.false_eq_true, if_false, false_or]
      split
      · rw [SecurityContext.counters_closeCycle, hverify]
      · rw [hverify]

/-- A frame that failed its CRC never reaches the bookkeeping. -/
theorem counters_settled_false (bus : ServoBus) (anchor footprint : ℕ) :
    (bus.settled false anchor footprint).counters = bus.security.counters := by
  simp [settled]

theorem counters_settled_iff (bus : ServoBus) (span : FrameSpan) :
    (bus.settled true span.anchor span.footprint).counters = bus.security.counters ↔
      bus.sparing span := by
  rw [← counters_judged_iff, settled, if_pos rfl]
  split
  · rfl
  · rw [SecurityContext.counters_rollbackStream]

end ServoBus

namespace World

variable {σ : Type} [ConfigStore σ] (chip : Chip) (w : World σ)

/-- An instruction frame addressed to another servo: this one skips it. -/
structure Foreign (span : FrameSpan) : Prop where
  instruction : (w.bus.ringInst span.anchor).isStatus = false
  unicast : w.bus.ring.byteAt (span.anchor + 1) ≠ Id.broadcast.byte
  other : w.bus.ring.byteAt (span.anchor + 1) ≠ w.bus.id
  skipped : decode (w.bus.ring.frameView span.anchor span.footprint) w.bus.id = .skip

instance (span : FrameSpan) : Decidable (w.Foreign span) :=
  decidable_of_iff
    ((w.bus.ringInst span.anchor).isStatus = false ∧
      w.bus.ring.byteAt (span.anchor + 1) ≠ Id.broadcast.byte ∧
      w.bus.ring.byteAt (span.anchor + 1) ≠ w.bus.id ∧
      decode (w.bus.ring.frameView span.anchor span.footprint) w.bus.id = .skip)
    ⟨fun ⟨h₁, h₂, h₃, h₄⟩ => ⟨h₁, h₂, h₃, h₄⟩,
      fun h => ⟨h.instruction, h.unicast, h.other, h.skipped⟩⟩

/-- The bookkeeping of the message plane. -/
def counters : Counters := w.bus.security.counters

/-! ## One step -/

omit [ConfigStore σ] in
/-- Folding moves the digest alone, so the gate spares the same frames. -/
theorem sparing_folded (span other : FrameSpan) :
    ((w.folded other).sparing span ↔ w.bus.sparing span) ∧
      (w.folded other).security.counters = w.bus.security.counters := by
  simp only [folded]
  split
  · obtain ⟨stream, hfold⟩ := w.bus.foldedSecurity_eq other.anchor other.footprint
    rw [hfold]
    exact ⟨Iff.rfl, rfl⟩
  · exact ⟨Iff.rfl, rfl⟩

omit [ConfigStore σ] in
theorem sparing_judgedBus (span : FrameSpan) :
    ((w.judgedBus span).sparing span ↔ w.bus.sparing span) ∧
      (w.judgedBus span).security.counters = w.counters := by
  simp only [judgedBus]
  split
  · exact ⟨Iff.rfl, rfl⟩
  · obtain ⟨hsparing, hcounters⟩ := w.entering.sparing_folded span span
    have hentering : (w.entering.bus.sparing span ↔ w.bus.sparing span) ∧
        w.entering.bus.security = w.bus.security := by
      simp only [entering]
      split <;> exact ⟨Iff.rfl, rfl⟩
    exact ⟨hsparing.trans hentering.1, hcounters.trans (congrArg _ hentering.2)⟩

/-- The end of an instruction frame leaves the bookkeeping alone exactly when
its CRC fails or the gate spares it. -/
theorem counters_onFrameEnd_iff {span : FrameSpan} (h : 2 ≤ span.footprint)
    (hinst : (w.bus.ringInst span.anchor).isStatus = false) :
    (onFrameEnd chip span w).counters = w.counters ↔
      (w.crcVerdict span = true → w.bus.sparing span) := by
  obtain ⟨hsparing, hcounters⟩ := w.sparing_judgedBus span
  rw [counters, security_onFrameEnd chip w h hinst, ← hcounters]
  cases w.crcVerdict span with
  | false => simp [ServoBus.counters_settled_false]
  | true => simp [ServoBus.counters_settled_iff, hsparing]

/-- A status frame has no verdict of its own. -/
theorem counters_onFrameEnd_status {span : FrameSpan}
    (hinst : (w.bus.ringInst span.anchor).isStatus = true) (hdue : w.dueVerdict span = none) :
    (onFrameEnd chip span w).counters = w.counters := by
  have hentering : w.entering.bus.security = w.bus.security ∧
      w.entering.bus.ringInst span.anchor = w.bus.ringInst span.anchor := by
    simp only [entering]
    split <;> exact ⟨rfl, rfl⟩
  rw [onFrameEnd_eq, hdue]
  simp only [routeFrame, hentering.2, hinst, if_true, routeStatus, counters,
    ServoBus.security_routeChain, hentering.1]

theorem counters_covered {span : FrameSpan} :
    (routeFrame chip span false w).counters = w.counters := by
  cases hinst : (w.bus.ringInst span.anchor).isStatus with
  | true => simp [routeFrame, hinst, routeStatus]
  | false =>
      rw [counters, security_routeFrame_covered chip w hinst]
      exact (w.sparing_folded span span).2

/-! ## Every step of a run -/

/-- This step handles a foreign frame: at its covered checkpoint, or at its end
with the CRC passed. -/
def HandlesForeign (act : Act) (span : FrameSpan) : Prop :=
  act.drives = true ∧ w.Foreign span ∧
    ((∃ due, w.resolved = .covered span due) ∨
      w.resolved = .frame span ∧ w.crcVerdict span = true)

/-- A foreign frame handled by this step leaves the bookkeeping alone. -/
def KeepsCounters (act : Act) : Prop :=
  ∀ span, w.HandlesForeign act span → (step chip w act).counters = w.counters

/-- A foreign frame that ends at this step is one the gate spares. -/
def SparesForeign (act : Act) : Prop :=
  act.drives = true → w.resolved.AtEnd fun span =>
    w.Foreign span → w.crcVerdict span = true → w.bus.sparing span

instance (act : Act) : Decidable (w.SparesForeign act) := inferInstanceAs (Decidable (_ → _))

/-- Nothing but frames for other servos and their replies: a frame that ends
here is foreign, or a status frame that no pending frame waits for, and no
session is installed. -/
def OthersOnly (act : Act) : Prop :=
  act.installs = false ∧ (act.drives = true → w.resolved.AtEnd fun span =>
    w.Foreign span ∨
      ((w.bus.ringInst span.anchor).isStatus = true ∧ w.dueVerdict span = none))

instance (act : Act) : Decidable (w.OthersOnly act) := inferInstanceAs (Decidable (_ ∧ _))

theorem keepsCounters_iff (act : Act) : w.KeepsCounters chip act ↔ w.SparesForeign act := by
  cases act with
  | drive late =>
      cases hout : w.resolved with
      | frame span =>
          have hspans := (w.spans_of_resolved (by rw [hout]; rfl)).footprint_bounds
          simp only [KeepsCounters, SparesForeign, step_drive, hout, FramerOut.AtEnd]
          constructor
          · intro hkeeps _ hforeign hcrc
            have hstep := hkeeps span ⟨rfl, hforeign, .inr ⟨hout, hcrc⟩⟩
            exact (counters_onFrameEnd_iff chip (w.resolving late) (by omega)
              hforeign.instruction).mp hstep hcrc
          · rintro hspares other ⟨-, hforeign, ⟨due, hcovered⟩ | ⟨hframe, hcrc⟩⟩
            · rw [hout] at hcovered
              cases hcovered
            · obtain rfl : span = other := FramerOut.frame.inj (hout.symm.trans hframe)
              exact (counters_onFrameEnd_iff chip (w.resolving late) (by omega)
                hforeign.instruction).mpr fun _ => hspares rfl hforeign hcrc
      | covered span due =>
          simp only [KeepsCounters, SparesForeign, step_drive, hout, FramerOut.AtEnd, implies_true,
            iff_true]
          intro other _
          exact counters_covered chip _
      | none | wait due =>
          simp only [KeepsCounters, SparesForeign, step_drive, hout, FramerOut.AtEnd, implies_true,
            iff_true]
          intro other _
          rfl
  | _ =>
      refine iff_of_true ?_ nofun
      intro span hhandles
      cases hhandles.1

/-- Traffic of other servos that the gate spares leaves the bookkeeping
alone. -/
theorem counters_step {act : Act} (hothers : w.OthersOnly act) (hspares : w.SparesForeign act) :
    (step chip w act).counters = w.counters := by
  cases act with
  | drive late =>
      rw [step_drive]
      cases hout : w.resolved with
      | none => rfl
      | wait due => rfl
      | covered span due => exact counters_covered chip _
      | frame span =>
          simp only [OthersOnly, SparesForeign, hout, FramerOut.AtEnd] at hothers hspares
          obtain hforeign | ⟨hstatus, hdue⟩ := hothers.2 rfl
          · have hspans := (w.spans_of_resolved (by rw [hout]; rfl)).footprint_bounds
            exact (counters_onFrameEnd_iff chip (w.resolving late) (by omega)
              hforeign.instruction).mpr (hspares rfl hforeign)
          · exact counters_onFrameEnd_status chip (w.resolving late) hstatus hdue
  | install keys => cases hothers.1
  | setPolicy policy => rfl
  | _ => exact congrArg SecurityContext.counters (security_step chip w rfl)

/-- Along every run the foreign frames leave the bookkeeping alone exactly when
the gate spares each of them, and then no run of other servos' traffic moves
it, however long. -/
theorem foreign_frames_spared_iff (acts : List Act) :
    (Transition.Meets (step chip) (KeepsCounters chip) w acts ↔
        Transition.Meets (step chip) SparesForeign w acts) ∧
      (Transition.Meets (step chip) OthersOnly w acts →
        Transition.Meets (step chip) SparesForeign w acts →
        (Transition.run (step chip) w acts).counters = w.counters) := by
  constructor
  · exact Transition.Meets.congr (step chip) (fun w act => keepsCounters_iff chip w act) w acts
  · intro hothers hspares
    refine Transition.Meets.invariant (step chip) (fun later => later.counters = w.counters) ?_ rfl
      (hothers.and (step chip) hspares)
    rintro later act hkept ⟨hothers, hspares⟩
    exact (counters_step chip later hothers hspares).trans hkept

end World

/-! ### Tagged traffic for servo 7 -/

/-- The bench servo in a session under the flight policy. -/
def securedBench : List Act := [.setPolicy .flight, .install benchKeys]

/-- `MGMT SAVE` for servo 7, tagged under a key that servo 5 does not hold. -/
def foreignSave (seq : Byte) : List Byte :=
  wireFrame ⟨7⟩ ⟨0x72⟩ [3, seq, 0xDE, 0xAD, 0xBE, 0xEF]

/-- The third such frame, on the wire and not yet looked at. -/
def foreignSaves : List Act :=
  securedBench ++ deliver (foreignSave 0) ++ deliver (foreignSave 1) ++
    (foreignSave 2).map Act.receive

/-- Three tagged frames between the host and servo 7 lock servo 5 out. -/
theorem foreign_tags_lock_out :
    let w := Transition.run (World.step benchChip) benchServo foreignSaves
    w.HandlesForeign (.drive 0) ⟨24, 12, 0⟩ ∧
      w.bus.security.state = .secured ∧
      (w.step benchChip (.drive 0)).bus.security.state = .lockedOut := by
  refine ⟨⟨rfl, by decide +kernel, .inr (by decide +kernel)⟩, by decide +kernel, by decide +kernel⟩

/-- Untagged reads of servo 7 pass the gate unseen. -/
theorem foreign_reads_leave_no_mark :
    (Transition.run (World.step benchChip)
        (Transition.run (World.step benchChip) benchServo securedBench)
        (deliver (wireFrame ⟨7⟩ ⟨0x20⟩ [0, 0, 2, 0]))).counters =
      (Transition.run (World.step benchChip) benchServo securedBench).counters :=
  (World.foreign_frames_spared_iff benchChip _ _).2 (by decide +kernel) (by decide +kernel)

end OpenServo.Bus
