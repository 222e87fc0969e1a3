import OpenServo.Core.Stretch
import OpenServo.Core.Ticks
import OpenServo.Core.Transition
import OpenServo.Host.Capture

/-!
# One timeline from two torn rings

The adapter ships wire edges as two rings of sixteen-bit ticks.  The client
merges them by alternation, falls first, and chains every tick off its
predecessor; a drain that finds nothing lifts the chain to just before its `now`.
Falls whose partner rises are still behind wait in a carry.

The wire is a strictly increasing sequence of instants `wire i`, falls at the
even places.  The schedule interleaves captures with drains, and a drain is torn:
edges may land between its snapshot of the rises, its snapshot of the falls and
its latch of `now`.
-/

namespace OpenServo.Client

open Host Transition

/-- Line level after a captured edge: `low` is a falling edge. -/
inductive Level where
  | low
  | high
  deriving DecidableEq, Repr

def Level.flip : Level → Level
  | .low => .high
  | .high => .low

structure WireEdge where
  tick : UInt32
  level : Level
  deriving DecidableEq, Repr

/-- The single unwrap chain over the merged edge stream. -/
structure EdgeAnchor where
  tick : Option UInt32
  /-- The polarity the wire produces next; low after a reset. -/
  lead : Level
  /-- Falls whose partner rises were still undrained at the batch end. -/
  carry : List UInt16
  deriving DecidableEq, Repr

def EdgeAnchor.default : EdgeAnchor := ⟨none, .low, []⟩

/-- How far behind a drain's `now` the anchor floor sits. -/
def anchorGuard : UInt32 := 4096

/-! ## The merge loop -/

/-- The loop variables: what is left of the two rings, the chain and the output. -/
structure Merge where
  falls : List UInt16
  rises : List UInt16
  lead : Level
  tick : Option UInt32
  out : List WireEdge
  deriving DecidableEq, Repr

/-- The first tick at or after the anchor that shows `t`; the first edge after a
reset seeds at or before `now`. -/
def place (now : UInt32) (anchor : Option UInt32) (t : UInt16) : UInt32 :=
  match anchor with
  | none => now - (now.toUInt16 - t).toUInt32
  | some prev => prev + (t - prev.toUInt16).toUInt32

namespace Merge

/-- Emit one edge of the given level. -/
def emit (m : Merge) (now : UInt32) (level : Level) (t : UInt16) : Merge :=
  let tick := place now m.tick t
  { m with lead := level.flip, tick := some tick, out := m.out ++ [⟨tick, level⟩] }

/-- One turn of the loop; `none` when both rings are spent or the due rise has
not been drained. -/
def step (now : UInt32) (m : Merge) : Option Merge :=
  match m.lead, m.falls, m.rises with
  | .low, t :: falls, _ => some ({ m with falls }.emit now .low t)
  | .high, _, [] => none
  -- a rise at low lead: a fall went missing
  | _, _, t :: rises => some ({ m with rises }.emit now .high t)
  | .low, [], [] => none

/-- The loop, with a bound on its turns. -/
def run (now : UInt32) : ℕ → Merge → Merge
  | 0, m => m
  | turns + 1, m =>
      match m.step now with
      | none => m
      | some m => run now turns m

end Merge

/-- Compose one drain's ticks into the timeline. -/
def unwrapDrain (anchor : EdgeAnchor) (now : UInt32) (falls rises : List UInt16) :
    List WireEdge × EdgeAnchor :=
  let falls := anchor.carry ++ falls
  let m := Merge.run now (falls.length + rises.length)
    ⟨falls, rises, anchor.lead, anchor.tick, []⟩
  let floor := now - anchorGuard
  let lifts := m.tick.all fun prev => floor - prev < 0x7FFFFFFF
  let tick := if m.out.isEmpty && m.falls.isEmpty && lifts then some floor else m.tick
  (m.out, ⟨tick, m.lead, m.falls⟩)

/-! ## The true wire -/

/-- Edges alternate, and the first is a fall. -/
def polarity (i : ℕ) : Level := if i % 2 = 0 then .low else .high

@[simp]
theorem polarity_succ (i : ℕ) : polarity (i + 1) = (polarity i).flip := by
  unfold polarity
  rcases Nat.mod_two_eq_zero_or_one i with heven | hodd
  · have hnext : (i + 1) % 2 = 1 := by omega
    simp [heven, hnext, Level.flip]
  · have hnext : (i + 1) % 2 = 0 := by omega
    simp [hodd, hnext, Level.flip]

section Wire

variable (wire : ℕ → ℤ)

/-- Edge `i` as the client should report it. -/
def trueEdge (i : ℕ) : WireEdge := ⟨.ofInt (wire i), polarity i⟩

/-- What the falls ring shows of fall `j`. -/
def fallTick (j : ℕ) : UInt16 := .ofInt (wire (2 * j))

/-- What the rises ring shows of rise `j`. -/
def riseTick (j : ℕ) : UInt16 := .ofInt (wire (2 * j + 1))

/-- How many edges can be merged of so many falls and rises. -/
def reach (falls rises : ℕ) : ℕ := min (2 * falls) (2 * rises + 1)

end Wire

/-! ## The merge follows the wire -/

/-- The instant an edge is placed from: before it and less than a wrap away. -/
def Within (now : ℤ) (anchor : Option UInt32) (edge : ℤ) : Prop :=
  match anchor with
  | none => edge ≤ now ∧ now - edge < 2 ^ 16
  | some prev => ∃ earlier, prev = .ofInt earlier ∧ earlier ≤ edge ∧ edge - earlier < 2 ^ 16

theorem place_of_within {now : ℤ} {anchor : Option UInt32} {edge : ℤ}
    (h : Within now anchor edge) : place (.ofInt now) anchor (.ofInt edge) = .ofInt edge := by
  cases anchor with
  | none => exact seed_backward h.1 h.2
  | some prev =>
      obtain ⟨earlier, rfl, horder, hshort⟩ := h
      exact chain_forward horder hshort

namespace Merge

/-- The loop stands before edge `next`, with the rings drained up to the given
falls and rises. -/
structure Along (wire : ℕ → ℤ) (falls rises next : ℕ) (m : Merge) : Prop where
  falls : m.falls = stretch (fallTick wire) ((next + 1) / 2) falls
  rises : m.rises = stretch (riseTick wire) (next / 2) rises
  lead : m.lead = polarity next

section

variable {wire : ℕ → ℤ} {falls rises next : ℕ} {m : Merge}

/-- A turn emits the next edge as long as the rings reach it. -/
theorem Along.step_of_lt (h : Along wire falls rises next m) (now : UInt32)
    (hlt : next < reach falls rises) :
    ∃ m', m.step now = some m' ∧ Along wire falls rises (next + 1) m' ∧
      m'.tick = some (place now m.tick (.ofInt (wire next))) ∧
      m'.out = m.out ++ [⟨place now m.tick (.ofInt (wire next)), polarity next⟩] := by
  rw [reach] at hlt
  rcases Nat.even_or_odd' next with ⟨j, rfl | rfl⟩
  · -- an even place: the head of the falls
    have hhead : (2 * j + 1) / 2 = j := by omega
    have hhead' : 2 * j / 2 = j := by omega
    have hfalls : m.falls = fallTick wire j :: stretch (fallTick wire) (j + 1) falls := by
      rw [h.falls, hhead, stretch.eq_cons _ (by omega)]
    have hlead : m.lead = .low := by
      rw [h.lead, polarity, if_pos (by omega)]
    refine ⟨_, by rw [step, hlead, hfalls], ⟨?_, ?_, ?_⟩, rfl, ?_⟩
    · have hnext : (2 * j + 1 + 1) / 2 = j + 1 := by omega
      rw [hnext]
      rfl
    · rw [hhead]
      exact hhead' ▸ h.rises
    · rw [polarity_succ, ← h.lead, hlead]
      rfl
    · rw [← h.lead, hlead]
      rfl
  · -- an odd place: the head of the rises
    have hhead : (2 * j + 1) / 2 = j := by omega
    have hhead' : (2 * j + 1 + 1) / 2 = j + 1 := by omega
    have hrises : m.rises = riseTick wire j :: stretch (riseTick wire) (j + 1) rises := by
      rw [h.rises, hhead, stretch.eq_cons _ (by omega)]
    have hlead : m.lead = .high := by
      rw [h.lead, polarity, if_neg (by omega)]
    refine ⟨_, by rw [step, hlead, hrises], ⟨?_, ?_, ?_⟩, rfl, ?_⟩
    · have hnext : (2 * j + 1 + 1 + 1) / 2 = j + 1 := by omega
      rw [hnext]
      exact hhead' ▸ h.falls
    · rw [hhead']
      rfl
    · rw [polarity_succ, ← h.lead, hlead]
      rfl
    · rw [← h.lead, hlead]
      rfl

/-- The loop ends where the rings no longer reach. -/
theorem Along.step_of_reach (h : Along wire falls rises (reach falls rises) m) (now : UInt32)
    (hbehind : rises ≤ falls) : m.step now = none := by
  by_cases hspent : falls ≤ rises
  · have hreach : reach falls rises = 2 * falls := by
      rw [reach]
      omega
    have hlead : m.lead = .low := by
      rw [h.lead, polarity, if_pos (by omega)]
    have hfalls : m.falls = [] := by
      rw [h.falls]
      exact stretch.eq_nil _ (by omega)
    have hrises : m.rises = [] := by
      rw [h.rises]
      exact stretch.eq_nil _ (by omega)
    rw [step, hlead, hfalls, hrises]
  · have hreach : reach falls rises = 2 * rises + 1 := by
      rw [reach]
      omega
    have hlead : m.lead = .high := by
      rw [h.lead, polarity, if_neg (by omega)]
    have hrises : m.rises = [] := by
      rw [h.rises]
      exact stretch.eq_nil _ (by omega)
    cases hfalls : m.falls <;> rw [step, hlead, hfalls, hrises]

end

/-- The whole loop: every edge the rings reach, at its true tick. -/
theorem Along.run {wire : ℕ → ℤ} {falls rises next : ℕ} {m : Merge} {now : ℤ}
    (h : Along wire falls rises next m) (hbehind : rises ≤ falls)
    (turns count : ℕ) (hcount : next + count = reach falls rises) (hturns : count ≤ turns)
    (hfirst : 0 < count → Within now m.tick (wire next))
    (hgaps : ∀ i, next ≤ i → i + 1 < reach falls rises →
      wire i ≤ wire (i + 1) ∧ wire (i + 1) - wire i < 2 ^ 16) :
    Along wire falls rises (reach falls rises) (Merge.run (.ofInt now) turns m) ∧
      (Merge.run (.ofInt now) turns m).out =
        m.out ++ stretch (trueEdge wire) next (next + count) ∧
      (Merge.run (.ofInt now) turns m).tick =
        if count = 0 then m.tick else some (.ofInt (wire (reach falls rises - 1))) := by
  induction count generalizing next m turns with
  | zero =>
      have hend : m.step (.ofInt now) = none :=
        Along.step_of_reach (by rw [← hcount]; exact h) _ hbehind
      have hrun : Merge.run (.ofInt now) turns m = m := by
        cases turns with
        | zero => rfl
        | succ turns => rw [Merge.run, hend]
      rw [hrun]
      have hnone : stretch (trueEdge wire) next (next + 0) = [] := stretch.eq_nil _ le_rfl
      exact ⟨by rw [← hcount]; exact h, by rw [hnone, List.append_nil], by simp⟩
  | succ count ih =>
      obtain ⟨turns, rfl⟩ : ∃ n, turns = n + 1 := ⟨turns - 1, by omega⟩
      obtain ⟨m', hstep, halong, htick, hout⟩ := h.step_of_lt (.ofInt now) (by omega)
      rw [place_of_within (hfirst (by omega))] at htick hout
      have hrun : Merge.run (.ofInt now) (turns + 1) m = Merge.run (.ofInt now) turns m' := by
        rw [Merge.run, hstep]
      have hnext : 0 < count → Within now m'.tick (wire (next + 1)) := by
        intro hmore
        rw [htick]
        have hgap := hgaps next le_rfl (by omega)
        exact ⟨wire next, rfl, hgap.1, hgap.2⟩
      obtain ⟨hend, houts, hticks⟩ := ih halong turns (by omega) (by omega) hnext
        fun i hi => hgaps i (by omega)
      rw [hrun]
      refine ⟨hend, ?_, ?_⟩
      · have hend' : next + 1 + count = next + (count + 1) := by omega
        rw [houts, hout, hend', stretch.eq_cons _ (show next < next + (count + 1) by omega),
          List.append_assoc]
        rfl
      · rw [hticks, htick]
        by_cases hlast : count = 0
        · have hat : reach falls rises - 1 = next := by omega
          simp [hlast, hat]
        · simp [hlast]

end Merge

/-- How far the merge has come leaves the next rise at the head of its ring, and
a fall not carried only when none is due. -/
theorem reach_half {falls rises : ℕ} (hbehind : rises ≤ falls) :
    reach falls rises / 2 = rises ∧ (reach falls rises + 1) / 2 ≤ falls := by
  rw [reach]
  omega

theorem reach_mono {falls falls' rises rises' : ℕ} (hfalls : falls ≤ falls')
    (hrises : rises ≤ rises') : reach falls rises ≤ reach falls' rises' := by
  rw [reach, reach]
  omega

/-- Where a drain with nothing to show leaves the chain. -/
def lifted (now : UInt32) : Option UInt32 → Option UInt32
  | none => some (now - anchorGuard)
  | some prev =>
      if now - anchorGuard - prev < 0x7FFFFFFF then some (now - anchorGuard) else some prev

/-- One drain of falls and rises that follow the ones merged before: the edges up
to where the rings now reach, at their true ticks. -/
theorem unwrapDrain_stretch {wire : ℕ → ℤ} {anchor : EdgeAnchor} {now : ℤ}
    {fell fell' rose rose' : ℕ} (hbehind : rose ≤ fell) (hbehind' : rose' ≤ fell')
    (hfell : fell ≤ fell') (hrose : rose ≤ rose')
    (hlead : anchor.lead = polarity (reach fell rose))
    (hcarry : anchor.carry = stretch (fallTick wire) ((reach fell rose + 1) / 2) fell)
    (hfirst : reach fell rose < reach fell' rose' →
      Within now anchor.tick (wire (reach fell rose)))
    (hgaps : ∀ i, reach fell rose ≤ i → i + 1 < reach fell' rose' →
      wire i ≤ wire (i + 1) ∧ wire (i + 1) - wire i < 2 ^ 16) :
    unwrapDrain anchor (.ofInt now) (stretch (fallTick wire) fell fell')
        (stretch (riseTick wire) rose rose') =
      (stretch (trueEdge wire) (reach fell rose) (reach fell' rose'),
        { tick :=
            if reach fell' rose' ≤ reach fell rose ∧ fell' ≤ (reach fell' rose' + 1) / 2 then
              lifted (.ofInt now) anchor.tick
            else if reach fell' rose' ≤ reach fell rose then anchor.tick
            else some (.ofInt (wire (reach fell' rose' - 1)))
          lead := polarity (reach fell' rose')
          carry := stretch (fallTick wire) ((reach fell' rose' + 1) / 2) fell' }) := by
  obtain ⟨hrises, hfalls⟩ := reach_half hbehind
  have hmono := reach_mono hfell hrose
  have hmerged : anchor.carry ++ stretch (fallTick wire) fell fell' =
      stretch (fallTick wire) ((reach fell rose + 1) / 2) fell' := by
    rw [hcarry, stretch.append _ hfalls hfell]
  have halong : Merge.Along wire fell' rose' (reach fell rose)
      ⟨anchor.carry ++ stretch (fallTick wire) fell fell', stretch (riseTick wire) rose rose',
        anchor.lead, anchor.tick, []⟩ :=
    ⟨hmerged, by rw [hrises], hlead⟩
  have hturns : reach fell' rose' - reach fell rose ≤
      (anchor.carry ++ stretch (fallTick wire) fell fell').length +
        (stretch (riseTick wire) rose rose').length := by
    rw [hmerged, stretch.length, stretch.length]
    simp only [reach] at hrises hfalls hmono ⊢
    omega
  obtain ⟨⟨hleft, _, hlead'⟩, hout, htick⟩ := halong.run hbehind' _
    (reach fell' rose' - reach fell rose) (by omega) hturns
    (fun hsome => hfirst (by omega)) hgaps
  have hend : reach fell rose + (reach fell' rose' - reach fell rose) = reach fell' rose' := by
    omega
  rw [hend, List.nil_append] at hout
  have hempty : (stretch (trueEdge wire) (reach fell rose) (reach fell' rose')).isEmpty =
      decide (reach fell' rose' ≤ reach fell rose) := by
    rw [Bool.eq_iff_iff, List.isEmpty_iff, stretch.eq_nil_iff, decide_eq_true_iff]
  have hspent : (stretch (fallTick wire) ((reach fell' rose' + 1) / 2) fell').isEmpty =
      decide (fell' ≤ (reach fell' rose' + 1) / 2) := by
    rw [Bool.eq_iff_iff, List.isEmpty_iff, stretch.eq_nil_iff, decide_eq_true_iff]
  have hcount :
      (reach fell' rose' - reach fell rose = 0) ↔ reach fell' rose' ≤ reach fell rose := by
    omega
  simp only [unwrapDrain, hleft, hlead', hout, htick, hempty, hspent, hcount]
  congr 2
  by_cases hstay : reach fell' rose' ≤ reach fell rose
  · by_cases hdry : fell' ≤ (reach fell' rose' + 1) / 2
    · cases anchor.tick <;> simp [hstay, hdry, lifted]
    · simp [hstay, hdry]
  · simp [hstay]

end OpenServo.Client
