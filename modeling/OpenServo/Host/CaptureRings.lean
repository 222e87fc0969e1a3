import OpenServo.Core.OverwrittenRing
import OpenServo.Core.Refinement
import OpenServo.Host.Capture

/-!
# The capture rings

The two rings the timer captures edges into, and the running totals the main
loop keeps of them.  The controller writes on around a ring whatever the reader
does, also while a drain copies entries out; as long as the rings are looked at
within a lap they are the two queues of the wire-edge capture.
-/

namespace OpenServo.Host

open Ledger Transition

/-- Entries of a ring. -/
def capLen : ℕ := 1024

structure Side where
  /-- Ring write position at the last accumulate. -/
  lastPos : UInt16
  /-- Entries ever written and handed out. -/
  written : UInt32
  drained : UInt32
  deriving DecidableEq, Repr

/-- One ring, what the controller has left to write of this lap, and its totals. -/
structure Channel where
  ring : List UInt16
  remaining : ℕ
  side : Side
  size : ring.length = capLen
  remaining_pos : 0 < remaining
  remaining_le : remaining ≤ capLen

namespace Side

/-- Undrained entries were written over. -/
def lapped (side : Side) : Bool := side.written - side.drained > UInt32.ofNat capLen

/-- Realign to the oldest entry still intact. -/
def realign (side : Side) : Side :=
  if side.lapped then { side with drained := side.written - UInt32.ofNat capLen } else side

/-- Fold the progress of the ring into the totals. -/
def accumulate (side : Side) (remaining : UInt16) : Side :=
  let pos := UInt16.ofNat capLen - remaining
  let delta := (pos + UInt16.ofNat capLen - side.lastPos) % UInt16.ofNat capLen
  { side with lastPos := pos, written := side.written + delta.toUInt32 }

theorem drained_accumulate (side : Side) (remaining : UInt16) :
    (side.accumulate remaining).drained = side.drained := by
  rw [accumulate]

end Side

namespace Channel

/-- Armed at bring-up. -/
def boot : Channel where
  ring := List.replicate capLen 0
  remaining := capLen
  side := ⟨0, 0, 0⟩
  size := List.length_replicate
  remaining_pos := by decide
  remaining_le := le_rfl

variable (channel : Channel)

theorem size_capture (tick : UInt16) :
    (channel.ring.set (capLen - channel.remaining) tick).length = capLen := by
  rw [List.length_set, channel.size]

theorem reload_pos : 0 < if channel.remaining = 1 then capLen else channel.remaining - 1 := by
  have hpos := channel.remaining_pos
  split
  · decide
  · omega

theorem reload_le : (if channel.remaining = 1 then capLen else channel.remaining - 1) ≤ capLen := by
  have hle := channel.remaining_le
  split <;> omega

/-- The controller lands a capture, and starts over at the end of the ring. -/
def capture (tick : UInt16) : Channel where
  ring := channel.ring.set (capLen - channel.remaining) tick
  remaining := if channel.remaining = 1 then capLen else channel.remaining - 1
  side := channel.side
  size := channel.size_capture tick
  remaining_pos := channel.reload_pos
  remaining_le := channel.reload_le

def accumulate : Channel :=
  { channel with side := channel.side.accumulate (UInt16.ofNat channel.remaining) }

theorem side_accumulate :
    channel.accumulate.side = channel.side.accumulate (UInt16.ofNat channel.remaining) := by
  rw [accumulate]

theorem ring_accumulate : channel.accumulate.ring = channel.ring := by
  rw [accumulate]

theorem remaining_accumulate : channel.accumulate.remaining = channel.remaining := by
  rw [accumulate]

/-- The copy loop of a drain, from entry `k` of the buffer on.  `pauses` are the captures
that land before each of the entries is read. -/
def copyOut : ℕ → List (List UInt16) → Channel → List UInt16 × Channel
  | _, [], channel => ([], channel)
  | k, landed :: pauses, channel =>
      let channel := landed.foldl capture channel
      let slot := channel.ring.getD
        ((channel.side.drained + UInt32.ofNat k).toNat % capLen) 0
      let (slots, channel) := copyOut (k + 1) pauses channel
      (slot :: slots, channel)

def realign : Channel := { channel with side := channel.side.realign }

def handOut (n : ℕ) : Channel :=
  { channel with side := { channel.side with drained := channel.side.drained + UInt32.ofNat n } }

/-- Hand out what fits a buffer of as many entries as there are pauses. -/
def drain (pauses : List (List UInt16)) : List UInt16 × Channel :=
  let channel := channel.realign
  let avail := channel.side.written - channel.side.drained
  let n := min pauses.length avail.toNat
  let (out, channel) := copyOut 0 (pauses.take n) channel
  (out, channel.handOut n)

/-- Forget what has not been handed out. -/
def forget : Channel :=
  { channel with side := { channel.side with drained := channel.side.written } }

end Channel

/-! ## Both rings -/

/-- The capture state of the main loop. -/
structure CaptureState where
  falls : Channel
  rises : Channel
  overflow : Bool

/-- What happens to the rings. -/
inductive CaptureAct where
  | fall (tick : UInt16)
  | rise (tick : UInt16)
  | poll
  | drainFalls (pauses : List (List UInt16))
  | drainRises (pauses : List (List UInt16))
  | reset
  deriving DecidableEq, Repr

namespace CaptureState

def boot : CaptureState := ⟨.boot, .boot, false⟩

variable (s : CaptureState)

def pollAccumulate : CaptureState where
  falls := s.falls.accumulate
  rises := s.rises.accumulate
  overflow := s.overflow || s.falls.accumulate.side.lapped || s.rises.accumulate.side.lapped

def drainFalls (pauses : List (List UInt16)) : List UInt16 × CaptureState :=
  let s := s.pollAccumulate
  let (out, falls) := s.falls.drain pauses
  (out, { s with falls })

def drainRises (pauses : List (List UInt16)) : List UInt16 × CaptureState :=
  let s := s.pollAccumulate
  let (out, rises) := s.rises.drain pauses
  (out, { s with rises })

def reset : CaptureState :=
  let s := s.pollAccumulate
  ⟨s.falls.forget, s.rises.forget, false⟩

/-- One act, and the ticks it hands out. -/
def step : CaptureAct → List UInt16 × CaptureState
  | .fall tick => ([], { s with falls := s.falls.capture tick })
  | .rise tick => ([], { s with rises := s.rises.capture tick })
  | .poll => ([], s.pollAccumulate)
  | .drainFalls pauses => s.drainFalls pauses
  | .drainRises pauses => s.drainRises pauses
  | .reset => ([], s.reset)

end CaptureState

/-! ## What they are for -/

/-- The newest entries of a queue, as many as a ring holds. -/
@[irreducible]
def lastLap (queue : List UInt16) : List UInt16 := queue.drop (queue.length - capLen)

theorem lastLap_drop (hist : List UInt16) (taken : ℕ) :
    lastLap (hist.drop taken) = hist.drop (max taken (hist.length - capLen)) := by
  have hstart : ∀ cap, taken + (hist.length - taken - cap) = max taken (hist.length - cap) := by
    omega
  unfold lastLap
  rw [List.drop_drop, List.length_drop, hstart]

namespace EdgeCapture

variable (edges : EdgeCapture)

/-- A queue longer than its ring is an overflow. -/
def polled : EdgeCapture :=
  { edges with
    overflow := edges.overflow || decide (capLen < edges.falls.length) ||
      decide (capLen < edges.rises.length) }

/-- One act on the queues.  What lands while a drain copies stays behind. -/
def serve : CaptureAct → List UInt16 × EdgeCapture
  | .fall tick => ([], edges.stampFall tick)
  | .rise tick => ([], edges.stampRise tick)
  | .poll => ([], edges.polled)
  | .drainFalls pauses =>
      let (out, edges) :=
        { edges.polled with falls := lastLap edges.falls }.drainFalls pauses.length
      (out, { edges with falls := edges.falls ++ (pauses.take out.length).flatten })
  | .drainRises pauses =>
      let (out, edges) :=
        { edges.polled with rises := lastLap edges.rises }.drainRises pauses.length
      (out, { edges with rises := edges.rises ++ (pauses.take out.length).flatten })
  | .reset => ([], empty)

end EdgeCapture

/-- The queues, and how many captures have landed on either side since the last poll. -/
structure Watched where
  edges : EdgeCapture
  falls : ℕ
  rises : ℕ
  deriving DecidableEq, Repr

namespace Watched

variable (w : Watched)

def step (act : CaptureAct) : List UInt16 × Watched :=
  let (out, edges) := w.edges.serve act
  (out, match act with
    | .fall _ => ⟨edges, w.falls + 1, w.rises⟩
    | .rise _ => ⟨edges, w.falls, w.rises + 1⟩
    | .poll | .reset => ⟨edges, 0, 0⟩
    | .drainFalls pauses => ⟨edges, (pauses.take out.length).flatten.length, 0⟩
    | .drainRises pauses => ⟨edges, 0, (pauses.take out.length).flatten.length⟩)

/-- Less than a lap has landed since the last poll, and the totals tell the undrained. -/
def Polls : Prop :=
  w.falls < capLen ∧ w.rises < capLen ∧ w.edges.falls.length < 2 ^ 32 ∧
    w.edges.rises.length < 2 ^ 32

instance : Decidable w.Polls := inferInstanceAs (Decidable (_ ∧ _))

/-- The copy loop keeps ahead of the controller, of which it has `room` entries at first. -/
def Ahead : ℕ → List (List UInt16) → Prop
  | _, [] => True
  | room, landed :: pauses => landed.length ≤ room ∧ Ahead (room - landed.length + 1) pauses

instance Ahead.decidable : ∀ (room : ℕ) (pauses : List (List UInt16)), Decidable (Ahead room pauses)
  | _, [] => .isTrue trivial
  | room, landed :: pauses =>
      haveI := Ahead.decidable (room - landed.length + 1) pauses
      inferInstanceAs (Decidable (_ ∧ _))

/-- The main loop looks at the rings within a lap of either. -/
def InTime (act : CaptureAct) : Prop :=
  match act with
  | .fall _ | .rise _ => True
  | .poll | .reset => w.Polls
  | .drainFalls pauses => w.Polls ∧ Ahead (capLen - (lastLap w.edges.falls).length)
      (pauses.take (lastLap w.edges.falls).length)
  | .drainRises pauses => w.Polls ∧ Ahead (capLen - (lastLap w.edges.rises).length)
      (pauses.take (lastLap w.edges.rises).length)

instance InTime.decidable (act : CaptureAct) : Decidable (w.InTime act) :=
  match act with
  | .fall _ | .rise _ => .isTrue trivial
  | .poll | .reset => inferInstanceAs (Decidable w.Polls)
  | .drainFalls _ | .drainRises _ => inferInstanceAs (Decidable (_ ∧ _))

end Watched

/-! ## One ring -/

/-- The ring has captured `hist`, of which the totals know `polled` entries and `taken` have
been handed out. -/
structure Tracks (channel : Channel) (hist : List UInt16) (polled taken : ℕ) : Prop where
  retains : Retains capLen channel.ring hist
  place : capLen - channel.remaining = hist.length % capLen
  lastPos : channel.side.lastPos.toNat = polled % capLen
  written : channel.side.written = UInt32.ofNat polled
  drained : channel.side.drained = UInt32.ofNat taken
  taken_le : taken ≤ polled
  polled_le : polled ≤ hist.length

namespace Tracks

variable {channel : Channel} {hist : List UInt16} {polled taken : ℕ}

theorem boot : Tracks .boot [] 0 0 :=
  ⟨.nil List.length_replicate, rfl, rfl, rfl, rfl, le_rfl, le_rfl⟩

theorem capture (h : Tracks channel hist polled taken) (tick : UInt16) :
    Tracks (channel.capture tick) (hist ++ [tick]) polled taken := by
  have hpos := channel.remaining_pos
  have hle := channel.remaining_le
  have hplace := h.place
  refine ⟨?_, ?_, h.lastPos, h.written, h.drained, h.taken_le, ?_⟩
  · show Retains capLen (channel.ring.set (capLen - channel.remaining) tick) (hist ++ [tick])
    rw [hplace]
    exact h.retains.record (by decide) tick
  · show capLen - (if channel.remaining = 1 then capLen else channel.remaining - 1) = _
    rw [List.length_append, List.length_singleton]
    simp only [capLen] at hplace hle ⊢
    split <;> omega
  · rw [List.length_append]
    exact Nat.le_add_right_of_le h.polled_le

theorem land (h : Tracks channel hist polled taken) (landed : List UInt16) :
    Tracks (landed.foldl Channel.capture channel) (hist ++ landed) polled taken := by
  induction landed generalizing channel hist with
  | nil => simpa using h
  | cons tick landed ih =>
      have hrest := ih (h.capture tick)
      rwa [List.append_assoc] at hrest

/-- Within a lap the totals find out how much was written. -/
theorem accumulate (h : Tracks channel hist polled taken) (hlap : hist.length - polled < capLen) :
    Tracks channel.accumulate hist hist.length taken := by
  have hpos := channel.remaining_pos
  have hle := channel.remaining_le
  have hplace := h.place
  have hlast := h.lastPos
  have hpolled := h.polled_le
  have hat : (UInt16.ofNat capLen - UInt16.ofNat channel.remaining).toNat =
      hist.length % capLen := by
    rw [← hplace]
    simp only [capLen] at hle ⊢
    rw [UInt16.toNat_sub_of_le]
    · simp only [UInt16.toNat_ofNat']
      omega
    · rw [UInt16.le_iff_toNat_le]
      simp only [UInt16.toNat_ofNat']
      omega
  have hdelta : ((UInt16.ofNat capLen - UInt16.ofNat channel.remaining + UInt16.ofNat capLen -
      channel.side.lastPos) % UInt16.ofNat capLen).toNat = hist.length - polled := by
    have hcap : (UInt16.ofNat capLen).toNat = 1024 := rfl
    have hsum : (UInt16.ofNat capLen - UInt16.ofNat channel.remaining + UInt16.ofNat capLen).toNat =
        hist.length % 1024 + 1024 := by
      rw [UInt16.toNat_add, hat, hcap]
      simp only [capLen]
      omega
    rw [UInt16.toNat_mod, UInt16.toNat_sub_of_le, hsum, hcap, hlast]
    · simp only [capLen] at hlap ⊢
      omega
    · rw [UInt16.le_iff_toNat_le, hsum, hlast]
      simp only [capLen]
      omega
  have hwritten : channel.side.written + ((UInt16.ofNat capLen - UInt16.ofNat channel.remaining +
      UInt16.ofNat capLen - channel.side.lastPos) % UInt16.ofNat capLen).toUInt32 =
      UInt32.ofNat hist.length := by
    refine UInt32.toNat.inj ?_
    rw [UInt32.toNat_add, UInt16.toNat_toUInt32, hdelta, h.written]
    simp only [UInt32.toNat_ofNat']
    omega
  constructor
  · rw [Channel.ring_accumulate]
    exact h.retains
  · rw [Channel.remaining_accumulate]
    exact hplace
  · rw [Channel.side_accumulate]
    exact hat
  · rw [Channel.side_accumulate]
    exact hwritten
  · rw [Channel.side_accumulate, Side.drained_accumulate, h.drained]
  · exact h.taken_le.trans hpolled
  · exact le_rfl

/-- What the totals take for undrained. -/
theorem undrained (h : Tracks channel hist polled taken) (hless : polled - taken < 2 ^ 32) :
    (channel.side.written - channel.side.drained).toNat = polled - taken := by
  have hle := h.taken_le
  rw [h.written, h.drained, UInt32.toNat_sub]
  simp only [UInt32.toNat_ofNat']
  omega

theorem lapped_iff (h : Tracks channel hist polled taken) (hless : polled - taken < 2 ^ 32) :
    channel.side.lapped = decide (capLen < polled - taken) := by
  have hcap : (UInt32.ofNat capLen).toNat = capLen := UInt32.toNat_ofNat_of_lt' (by decide)
  have hsame : UInt32.ofNat capLen < channel.side.written - channel.side.drained ↔
      capLen < polled - taken := by
    rw [UInt32.lt_iff_toNat_lt, h.undrained hless, hcap]
  simp only [Side.lapped, gt_iff_lt, hsame]

/-- Realigned, the totals start at the oldest entry that is still in the ring. -/
theorem realign (h : Tracks channel hist polled taken) (hless : polled - taken < 2 ^ 32) :
    Tracks channel.realign hist polled (max taken (polled - capLen)) := by
  have htaken := h.taken_le
  rw [Channel.realign, Side.realign, h.lapped_iff hless]
  split
  · rename_i hlapped
    simp only [decide_eq_true_eq] at hlapped
    refine ⟨h.retains, h.place, h.lastPos, h.written, ?_, by omega, h.polled_le⟩
    rw [Nat.max_eq_right (by omega)]
    refine UInt32.toNat.inj ?_
    simp only [h.written, UInt32.toNat_sub, UInt32.toNat_ofNat', capLen]
    simp only [capLen] at hlapped
    omega
  · rename_i hfits
    simp only [decide_eq_true_eq, not_lt] at hfits
    rw [Nat.max_eq_left (by omega)]
    exact ⟨h.retains, h.place, h.lastPos, h.written, h.drained, h.taken_le, h.polled_le⟩

/-- The copy loop keeps ahead of the controller: it reads what was captured, in order. -/
theorem copyOut (h : Tracks channel hist polled taken) {k room : ℕ}
    {pauses : List (List UInt16)} (hahead : Watched.Ahead room pauses)
    (hroom : hist.length + room ≤ taken + k + capLen)
    (hleft : taken + k + pauses.length ≤ polled) :
    (Channel.copyOut k pauses channel).1 = (hist.drop (taken + k)).take pauses.length ∧
      Tracks (Channel.copyOut k pauses channel).2 (hist ++ pauses.flatten) polled taken := by
  induction pauses generalizing channel hist k room with
  | nil => simpa [Channel.copyOut] using h
  | cons landed pauses ih =>
      obtain ⟨hfast, hrest⟩ := hahead
      rw [List.length_cons] at hleft
      have hpolled := h.polled_le
      have hlanded := h.land landed
      have hplace : (channel.side.drained + UInt32.ofNat k).toNat % capLen =
          (taken + k) % capLen := by
        rw [h.drained]
        simp only [UInt32.toNat_add, UInt32.toNat_ofNat', capLen]
        omega
      have hentry : (landed.foldl Channel.capture channel).ring.getD ((taken + k) % capLen) 0 =
          hist.getD (taken + k) 0 := by
        refine (hlanded.retains.entry (by rw [List.length_append]; omega)
          (by rw [List.length_append]; omega)).trans ?_
        rw [List.getD_append _ _ _ _ (by omega)]
        rfl
      obtain ⟨hslots, htracks⟩ := @ih _ _ hlanded (k + 1) (room - landed.length + 1) hrest
        (by rw [List.length_append]; omega) (by omega)
      have hside : (landed.foldl Channel.capture channel).side.drained = channel.side.drained := by
        rw [hlanded.drained, h.drained]
      constructor
      · simp only [Channel.copyOut, hside, hplace, hentry, hslots]
        rw [List.drop_append_of_le_length (by omega), List.length_cons,
          List.drop_eq_getElem_cons (show taken + k < hist.length by omega), List.take_succ_cons,
          List.take_append_of_le_length (by rw [List.length_drop]; omega),
          List.getD_eq_getElem _ _ (show taken + k < hist.length by omega)]
        rfl
      · rw [List.flatten_cons, ← List.append_assoc]
        exact htracks

theorem handOut (h : Tracks channel hist polled taken) {n : ℕ} (hn : taken + n ≤ polled) :
    Tracks (channel.handOut n) hist polled (taken + n) := by
  refine ⟨h.retains, h.place, h.lastPos, h.written, ?_, hn, h.polled_le⟩
  show channel.side.drained + UInt32.ofNat n = UInt32.ofNat (taken + n)
  rw [h.drained, UInt32.ofNat_add]

end Tracks

/-- The ring stands for a queue, of which the last `fresh` captures have not been polled. -/
def Shows (channel : Channel) (queue : List UInt16) (fresh : ℕ) : Prop :=
  ∃ hist polled taken, Tracks channel hist polled taken ∧ queue = hist.drop taken ∧
    hist.length = polled + fresh

namespace Shows

variable {channel : Channel} {queue : List UInt16} {fresh : ℕ}

theorem boot : Shows .boot [] 0 := ⟨[], 0, 0, .boot, rfl, rfl⟩

theorem capture (h : Shows channel queue fresh) (tick : UInt16) :
    Shows (channel.capture tick) (queue ++ [tick]) (fresh + 1) := by
  obtain ⟨hist, polled, taken, htracks, rfl, hfresh⟩ := h
  have hle := htracks.taken_le.trans htracks.polled_le
  refine ⟨hist ++ [tick], polled, taken, htracks.capture tick, ?_, ?_⟩
  · rw [List.drop_append_of_le_length hle]
  · rw [List.length_append, List.length_singleton, hfresh, Nat.add_assoc]

theorem accumulate (h : Shows channel queue fresh) (hlap : fresh < capLen) :
    Shows channel.accumulate queue 0 := by
  obtain ⟨hist, polled, taken, htracks, hqueue, hfresh⟩ := h
  exact ⟨hist, hist.length, taken, htracks.accumulate (by omega), hqueue, rfl⟩

theorem lapped (h : Shows channel queue 0) (hless : queue.length < 2 ^ 32) :
    channel.side.lapped = decide (capLen < queue.length) := by
  obtain ⟨hist, polled, taken, htracks, rfl, hfresh⟩ := h
  rw [List.length_drop] at hless ⊢
  rw [htracks.lapped_iff (by omega), hfresh, Nat.add_zero]

theorem forget (h : Shows channel queue 0) : Shows channel.forget [] 0 := by
  obtain ⟨hist, polled, taken, htracks, -, hfresh⟩ := h
  refine ⟨hist, polled, polled, ?_, (List.drop_eq_nil_of_le (by omega)).symm, hfresh⟩
  exact ⟨htracks.retains, htracks.place, htracks.lastPos, htracks.written, htracks.written, le_rfl,
    htracks.polled_le⟩

/-- A drain that keeps ahead of the controller hands out the oldest entries the ring still
has, and keeps what landed meanwhile. -/
theorem drain (h : Shows channel queue 0) (hless : queue.length < 2 ^ 32)
    {pauses : List (List UInt16)} (hahead : Watched.Ahead (capLen - (lastLap queue).length)
      (pauses.take (lastLap queue).length)) :
    (channel.drain pauses).1 = (lastLap queue).take pauses.length ∧
      Shows (channel.drain pauses).2 ((lastLap queue).drop pauses.length ++
          (pauses.take ((lastLap queue).take pauses.length).length).flatten)
        (pauses.take ((lastLap queue).take pauses.length).length).flatten.length := by
  obtain ⟨hist, polled, taken, htracks, rfl, hfresh⟩ := h
  rw [List.length_drop] at hless
  have htaken := htracks.taken_le
  have haligned := htracks.realign (by omega)
  have havail := haligned.undrained (by omega)
  have hnewest : lastLap (hist.drop taken) = hist.drop (max taken (polled - capLen)) := by
    rw [lastLap_drop, hfresh, Nat.add_zero]
  generalize hfrom : max taken (polled - capLen) = start at haligned havail hnewest
  have hcap : polled ≤ start + capLen := by omega
  have hlength : (lastLap (hist.drop taken)).length = polled - start := by
    rw [hnewest, List.length_drop, hfresh, Nat.add_zero]
  have hread : ((lastLap (hist.drop taken)).take pauses.length).length =
      min pauses.length (polled - start) := by
    rw [List.length_take, hlength]
  have hpauses :
      pauses.take (polled - start) = pauses.take (min pauses.length (polled - start)) := by
    rw [List.take_eq_take_iff]
    omega
  rw [hlength, hpauses] at hahead
  have htake : (pauses.take (min pauses.length (polled - start))).length =
      min pauses.length (polled - start) := by
    rw [List.length_take]
    omega
  obtain ⟨hslots, hafter⟩ := @Tracks.copyOut _ _ _ _ haligned 0 _ _ hahead (by omega) (by omega)
  have hdone := hafter.handOut (show start + min pauses.length (polled - start) ≤ polled by omega)
  have hsame : (hist.drop start).take (min pauses.length (polled - start)) =
      (hist.drop start).take pauses.length := by
    rw [List.take_eq_take_iff, List.length_drop]
    omega
  have hrest : (hist.drop start).drop pauses.length =
      (hist.drop start).drop (min pauses.length (polled - start)) := by
    obtain hle | hle := Nat.le_total pauses.length (polled - start)
    · rw [Nat.min_eq_left hle]
    · rw [Nat.min_eq_right hle, List.drop_eq_nil_of_le (by rw [List.length_drop]; omega),
        List.drop_eq_nil_of_le (by rw [List.length_drop]; omega)]
  rw [hread, hnewest, hrest]
  simp only [Channel.drain, havail]
  refine ⟨?_, _, polled, _, hdone, ?_, ?_⟩
  · rw [hslots, htake, Nat.add_zero, hsame]
  · rw [List.drop_append_of_le_length (by omega), List.drop_drop]
  · rw [List.length_append, hfresh, Nat.add_zero]

end Shows

/-! ## Every run -/

/-- The rings stand for the queues. -/
structure CaptureState.Shows (s : CaptureState) (w : Watched) : Prop where
  falls : Host.Shows s.falls w.edges.falls w.falls
  rises : Host.Shows s.rises w.edges.rises w.rises
  overflow : s.overflow = w.edges.overflow

namespace CaptureState

variable {s : CaptureState} {w : Watched}

theorem Shows.poll (h : s.Shows w) (hpolls : w.Polls) :
    s.pollAccumulate.Shows ⟨w.edges.polled, 0, 0⟩ := by
  obtain ⟨hfalls, hrises, hfallsLess, hrisesLess⟩ := hpolls
  have hfalls := h.falls.accumulate hfalls
  have hrises := h.rises.accumulate hrises
  refine ⟨hfalls, hrises, ?_⟩
  rw [pollAccumulate, hfalls.lapped hfallsLess, hrises.lapped hrisesLess, h.overflow]
  rfl

theorem Shows.step (h : s.Shows w) {act : CaptureAct} (htime : w.InTime act) :
    (s.step act).1 = (w.step act).1 ∧ (s.step act).2.Shows (w.step act).2 := by
  cases act with
  | fall tick => exact ⟨rfl, h.falls.capture tick, h.rises, h.overflow⟩
  | rise tick => exact ⟨rfl, h.falls, h.rises.capture tick, h.overflow⟩
  | poll => exact ⟨rfl, h.poll htime⟩
  | drainFalls pauses =>
      obtain ⟨hpolls, hahead⟩ := htime
      have hpolled := h.poll hpolls
      obtain ⟨hout, hfalls⟩ := hpolled.falls.drain hpolls.2.2.1 hahead
      exact ⟨hout, hfalls, hpolled.rises, hpolled.overflow⟩
  | drainRises pauses =>
      obtain ⟨hpolls, hahead⟩ := htime
      have hpolled := h.poll hpolls
      obtain ⟨hout, hrises⟩ := hpolled.rises.drain hpolls.2.2.2 hahead
      exact ⟨hout, hpolled.falls, hrises, hpolled.overflow⟩
  | reset =>
      have hpolled := h.poll htime
      exact ⟨rfl, hpolled.falls.forget, hpolled.rises.forget, rfl⟩

theorem shows_boot : boot.Shows ⟨.empty, 0, 0⟩ := ⟨.boot, .boot, rfl⟩

end CaptureState

/-- Counting the captures changes nothing of the queues. -/
theorem outputs_watched (acts : List CaptureAct) :
    outputs Watched.step ⟨.empty, 0, 0⟩ acts = outputs EdgeCapture.serve .empty acts ∧
      (final Watched.step ⟨.empty, 0, 0⟩ acts).edges = final EdgeCapture.serve .empty acts := by
  refine @outputs_refine _ _ _ _ Watched.step EdgeCapture.serve (fun _ _ => True)
    (fun w edges => w.edges = edges) ?_ ⟨.empty, 0, 0⟩ .empty rfl acts ?_
  · rintro w _ act rfl -
    exact ⟨rfl, by cases act <;> rfl⟩
  · exact Meets.of_invariant _ (fun _ => True) (fun _ _ _ => trivial) (fun _ _ _ => trivial)
      trivial acts

theorem rings_serve {acts : List CaptureAct}
    (htime : Meets (fun w act => (w.step act).2) Watched.InTime ⟨.empty, 0, 0⟩ acts) :
    outputs CaptureState.step .boot acts = outputs EdgeCapture.serve .empty acts ∧
      (final CaptureState.step .boot acts).overflow =
        (final EdgeCapture.serve .empty acts).overflow := by
  obtain ⟨hanswers, hshows⟩ := @outputs_refine _ _ _ _ CaptureState.step Watched.step
    Watched.InTime CaptureState.Shows (fun _ _ _ h htime => h.step htime) _ _
    CaptureState.shows_boot acts htime
  obtain ⟨hqueues, hedges⟩ := outputs_watched acts
  exact ⟨hanswers.trans hqueues, hshows.overflow.trans (congrArg EdgeCapture.overflow hedges)⟩

/-! ## Each edge once -/

/-- What was captured and what was handed out since the last reset. -/
structure Tally where
  fallsCaptured : List UInt16
  fallsHanded : List UInt16
  risesCaptured : List UInt16
  risesHanded : List UInt16
  deriving DecidableEq, Repr

namespace Tally

def count (t : Tally) (act : CaptureAct) (out : List UInt16) : Tally :=
  match act with
  | .fall tick => { t with fallsCaptured := t.fallsCaptured ++ [tick] }
  | .rise tick => { t with risesCaptured := t.risesCaptured ++ [tick] }
  | .poll => t
  | .drainFalls pauses =>
      { t with
        fallsCaptured := t.fallsCaptured ++ (pauses.take out.length).flatten
        fallsHanded := t.fallsHanded ++ out }
  | .drainRises pauses =>
      { t with
        risesCaptured := t.risesCaptured ++ (pauses.take out.length).flatten
        risesHanded := t.risesHanded ++ out }
  | .reset => ⟨[], [], [], []⟩

/-- Along a log of acts and their answers. -/
def along (acts : List CaptureAct) (outs : List (List UInt16)) (t : Tally) : Tally :=
  (acts.zip outs).foldl (fun t entry => t.count entry.1 entry.2) t

/-- What was handed out is what was captured, each edge once and in order, up to those that
still wait. -/
def Whole (t : Tally) : Prop :=
  t.fallsHanded <+: t.fallsCaptured ∧ t.risesHanded <+: t.risesCaptured

/-- The queues hold what has been captured and not handed out. -/
structure Keeps (t : Tally) (edges : EdgeCapture) : Prop where
  falls : t.fallsCaptured = t.fallsHanded ++ edges.falls
  rises : t.risesCaptured = t.risesHanded ++ edges.rises

theorem lastLap_of_fits {queue : List UInt16} (hfits : queue.length ≤ capLen) :
    lastLap queue = queue := by
  unfold lastLap
  rw [Nat.sub_eq_zero_of_le hfits, List.drop_zero]

variable {t : Tally} {edges : EdgeCapture}

/-- Without an overflow nothing is cut off. -/
theorem Keeps.serve (h : edges.overflow = false → t.Keeps edges) (act : CaptureAct)
    (hfits : (edges.serve act).2.overflow = false) :
    (t.count act (edges.serve act).1).Keeps (edges.serve act).2 := by
  have hpolled : edges.polled.overflow = false → t.Keeps edges ∧ lastLap edges.falls = edges.falls ∧
      lastLap edges.rises = edges.rises := by
    intro hpolled
    simp only [EdgeCapture.polled, Bool.or_eq_false_iff, decide_eq_false_iff_not, not_lt] at hpolled
    exact ⟨h hpolled.1.1, lastLap_of_fits hpolled.1.2, lastLap_of_fits hpolled.2⟩
  cases act with
  | fall tick =>
      obtain ⟨hfalls, hrises⟩ := h hfits
      exact ⟨by simp only [count, EdgeCapture.serve, EdgeCapture.stampFall, hfalls,
        List.append_assoc], hrises⟩
  | rise tick =>
      obtain ⟨hfalls, hrises⟩ := h hfits
      exact ⟨hfalls, by simp only [count, EdgeCapture.serve, EdgeCapture.stampRise, hrises,
        List.append_assoc]⟩
  | poll => exact ⟨(hpolled hfits).1.falls, (hpolled hfits).1.rises⟩
  | drainFalls pauses =>
      obtain ⟨⟨hfalls, hrises⟩, hnewest, -⟩ := hpolled hfits
      refine ⟨?_, hrises⟩
      simp only [count, EdgeCapture.serve, EdgeCapture.drainFalls, hfalls, hnewest]
      rw [List.append_assoc, List.append_assoc, ← List.append_assoc (edges.falls.take _),
        List.take_append_drop]
  | drainRises pauses =>
      obtain ⟨⟨hfalls, hrises⟩, -, hnewest⟩ := hpolled hfits
      refine ⟨hfalls, ?_⟩
      simp only [count, EdgeCapture.serve, EdgeCapture.drainRises, hrises, hnewest]
      rw [List.append_assoc, List.append_assoc, ← List.append_assoc (edges.rises.take _),
        List.take_append_drop]
  | reset => exact ⟨rfl, rfl⟩

theorem Keeps.run (h : edges.overflow = false → t.Keeps edges) (acts : List CaptureAct)
    (hfits : (final EdgeCapture.serve edges acts).overflow = false) :
    (t.along acts (outputs EdgeCapture.serve edges acts)).Keeps
      (final EdgeCapture.serve edges acts) := by
  induction acts generalizing t edges with
  | nil => exact h hfits
  | cons act acts ih => exact ih (Keeps.serve h act) hfits

end Tally

/-- Two edges, a third one while they are copied out. -/
def threeEdges : List CaptureAct := [.fall 5, .poll, .fall 7, .drainFalls [[], [9]], .reset]

end OpenServo.Host
