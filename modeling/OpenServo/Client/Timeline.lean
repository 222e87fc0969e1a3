import OpenServo.Client.Edges

/-!
# Exact placement over a whole capture

Edges are captured as they happen and drained at any pace.  Over every schedule
in which each edge follows the chain within a wrap, the client reports a prefix
of the wire, every edge at its true polarity and tick.  What the schedule has to
grant beyond that is a bound on how late a quiet drain may come: the floor
comparison sees half a wrap of the tick domain ahead, not more.
-/

namespace OpenServo.Client

open Host Transition

/-- One drain as the server performs it: the rises, then the falls, then `now`,
with the edges that land in between. -/
structure Drain where
  risesAt : ℤ
  torn : ℕ
  fallsAt : ℤ
  late : ℕ
  now : ℤ
  deriving DecidableEq, Repr

inductive WireEvent where
  | edge
  | drain (d : Drain)
  deriving DecidableEq, Repr

/-- The capture on the adapter, the chain on the client, and what has passed. -/
structure Tap where
  /-- The instant of the last event. -/
  clock : ℤ
  /-- Edges captured so far. -/
  captured : ℕ
  capture : EdgeCapture
  fallsDrained : ℕ
  risesDrained : ℕ
  anchor : EdgeAnchor
  out : List WireEdge
  /-- `now` less the guard at the last drain that left no output and no carry. -/
  floor : Option ℤ
  deriving DecidableEq, Repr

namespace Tap

/-- Before the first edge and the first drain. -/
def init (start : ℤ) : Tap := ⟨start, 0, .empty, 0, 0, .default, [], none⟩

variable (wire : ℕ → ℤ)

/-- The next edge reaches its ring. -/
def land (tap : Tap) : Tap :=
  let tick := .ofInt (wire tap.captured)
  { tap with
    captured := tap.captured + 1
    capture := match polarity tap.captured with
      | .low => tap.capture.stampFall tick
      | .high => tap.capture.stampRise tick }

def lands : ℕ → Tap → Tap
  | 0, tap => tap
  | n + 1, tap => lands n (tap.land wire)

def popRises (tap : Tap) : List UInt16 × Tap :=
  let (rises, capture) := tap.capture.drainRises drainMax
  (rises, { tap with capture, risesDrained := tap.risesDrained + rises.length })

def popFalls (tap : Tap) : List UInt16 × Tap :=
  let (falls, capture) := tap.capture.drainFalls drainMax
  (falls, { tap with capture, fallsDrained := tap.fallsDrained + falls.length })

/-- The drain record's way from the two rings to the client's output. -/
def drain (tap : Tap) (d : Drain) : Tap :=
  let (rises, tap) := tap.popRises
  let (falls, tap) := (tap.lands wire d.torn).popFalls
  let tap := tap.lands wire d.late
  let (out, anchor) := unwrapDrain tap.anchor (.ofInt d.now) falls rises
  { tap with
    clock := d.now
    anchor
    out := tap.out ++ out
    floor := if out.isEmpty && anchor.carry.isEmpty then some (d.now - 4096) else tap.floor }

def step (tap : Tap) : WireEvent → Tap
  | .edge => { tap.land wire with clock := wire tap.captured }
  | .drain d => tap.drain wire d

/-! ## What a schedule grants -/

/-- Events come in time: edges land between the drain steps they are counted at,
and a drain takes less than the guard. -/
def inOrder (tap : Tap) : WireEvent → Prop
  | .edge => tap.clock ≤ wire tap.captured
  | .drain d =>
      tap.clock ≤ d.risesAt ∧ d.risesAt ≤ d.fallsAt ∧ d.fallsAt ≤ d.now ∧
      d.now - d.risesAt < 4096 ∧
      (∀ i < d.torn, d.risesAt ≤ wire (tap.captured + i) ∧ wire (tap.captured + i) ≤ d.fallsAt) ∧
      ∀ i < d.late, d.fallsAt ≤ wire (tap.captured + d.torn + i) ∧
        wire (tap.captured + d.torn + i) ≤ d.now

/-- The instant edge `i` is measured from: the later of its predecessor edge and
the floor of the last drain that left no output and no carry. -/
def since (tap : Tap) : ℕ → Option ℤ
  | 0 => tap.floor
  | i + 1 => some (tap.floor.elim (wire i) (max (wire i)))

/-- An edge follows that instant within a wrap; the edge that seeds the chain
precedes the drain's `now` within a wrap. -/
def follows (now edge : ℤ) : Option ℤ → Prop
  | none => now - edge < 2 ^ 16
  | some base => edge - base < 2 ^ 16

/-- Every edge the drain may ship follows within a wrap. -/
def near (tap : Tap) : WireEvent → Prop
  | .edge => True
  | .drain d => ∀ i < tap.captured + d.torn, tap.out.length ≤ i →
      follows d.now (wire i) (tap.since wire i)

/-- Both rings are dry at their snapshots and no fall is carried. -/
def quietAt (tap : Tap) (d : Drain) : Prop :=
  tap.capture.rises = [] ∧ (tap.lands wire d.torn).capture.falls = [] ∧ tap.anchor.carry = []

/-- A quiet drain finds its floor behind that instant, or ahead of it by less than
half a wrap of the tick domain, whole wraps not counted. -/
def prompt (tap : Tap) : WireEvent → Prop
  | .edge => True
  | .drain d => tap.quietAt wire d → ∀ base ∈ tap.since wire tap.out.length,
      d.now - 4096 < base ∨ (d.now - 4096 - base) % 2 ^ 32 < 2 ^ 31 - 1

/-! ## The rings between two drains -/

variable {wire : ℕ → ℤ}

/-- The rings hold what was captured and not yet drained. -/
structure Queued (wire : ℕ → ℤ) (tap : Tap) : Prop where
  fallsSeen : tap.fallsDrained ≤ (tap.captured + 1) / 2
  risesSeen : tap.risesDrained ≤ tap.captured / 2
  falls : tap.capture.falls = stretch (fallTick wire) tap.fallsDrained ((tap.captured + 1) / 2)
  rises : tap.capture.rises = stretch (riseTick wire) tap.risesDrained (tap.captured / 2)

theorem land_falls (tap : Tap) {lo : ℕ} (hlo : lo ≤ (tap.captured + 1) / 2)
    (h : tap.capture.falls = stretch (fallTick wire) lo ((tap.captured + 1) / 2)) :
    (tap.land wire).capture.falls = stretch (fallTick wire) lo ((tap.captured + 1 + 1) / 2) := by
  rcases Nat.even_or_odd' tap.captured with ⟨j, hj | hj⟩
  · have hfall : polarity tap.captured = .low := if_pos (by omega)
    have hat : (tap.captured + 1) / 2 = j := by omega
    have hnext : (tap.captured + 1 + 1) / 2 = j + 1 := by omega
    rw [hat] at hlo h
    rw [land, hfall, hnext, ← stretch.snoc _ hlo]
    simp only [EdgeCapture.stampFall, h, fallTick, hj]
  · have hrise : polarity tap.captured = .high := if_neg (by omega)
    have hat : (tap.captured + 1 + 1) / 2 = (tap.captured + 1) / 2 := by omega
    rw [land, hrise, hat, ← h]
    rfl

theorem land_rises (tap : Tap) {lo : ℕ} (hlo : lo ≤ tap.captured / 2)
    (h : tap.capture.rises = stretch (riseTick wire) lo (tap.captured / 2)) :
    (tap.land wire).capture.rises = stretch (riseTick wire) lo ((tap.captured + 1) / 2) := by
  rcases Nat.even_or_odd' tap.captured with ⟨j, hj | hj⟩
  · have hfall : polarity tap.captured = .low := if_pos (by omega)
    have hat : (tap.captured + 1) / 2 = tap.captured / 2 := by omega
    rw [land, hfall, hat, ← h]
    rfl
  · have hrise : polarity tap.captured = .high := if_neg (by omega)
    have hat : tap.captured / 2 = j := by omega
    have hnext : (tap.captured + 1) / 2 = j + 1 := by omega
    rw [hat] at hlo h
    rw [land, hrise, hnext, ← stretch.snoc _ hlo]
    simp only [EdgeCapture.stampRise, h, riseTick, hj]

theorem Queued.land {tap : Tap} (h : tap.Queued wire) : (tap.land wire).Queued wire where
  fallsSeen := le_trans h.fallsSeen (Nat.div_le_div_right (Nat.le_succ _))
  risesSeen := le_trans h.risesSeen (Nat.div_le_div_right (Nat.le_succ _))
  falls := land_falls tap h.fallsSeen h.falls
  rises := land_rises tap h.risesSeen h.rises

theorem Queued.lands {tap : Tap} (h : tap.Queued wire) (n : ℕ) :
    (tap.lands wire n).Queued wire := by
  induction n generalizing tap with
  | zero => exact h
  | succ n ih => exact ih h.land

/-- Captures touch nothing but the rings. -/
theorem lands_eq (tap : Tap) (n : ℕ) :
    tap.lands wire n =
      { tap with captured := tap.captured + n, capture := (tap.lands wire n).capture } := by
  induction n generalizing tap with
  | zero => rfl
  | succ n ih =>
      rw [lands, ih (tap.land wire)]
      simp only [land, Tap.mk.injEq, true_and, and_true]
      omega

section

variable (tap : Tap) (n : ℕ)

theorem lands_captured : (tap.lands wire n).captured = tap.captured + n := by
  rw [lands_eq]

theorem lands_fallsDrained : (tap.lands wire n).fallsDrained = tap.fallsDrained := by
  rw [lands_eq]

theorem lands_risesDrained : (tap.lands wire n).risesDrained = tap.risesDrained := by
  rw [lands_eq]

theorem lands_anchor : (tap.lands wire n).anchor = tap.anchor := by
  rw [lands_eq]

theorem lands_out : (tap.lands wire n).out = tap.out := by
  rw [lands_eq]

theorem lands_floor : (tap.lands wire n).floor = tap.floor := by
  rw [lands_eq]

end

/-! ## One drain -/

/-- Falls and rises drained once this drain has popped its share. -/
def fallsAfter (tap : Tap) (d : Drain) : ℕ :=
  min ((tap.captured + d.torn + 1) / 2) (tap.fallsDrained + drainMax)

def risesAfter (tap : Tap) : ℕ := min (tap.captured / 2) (tap.risesDrained + drainMax)

/-- Edges reported once this drain has been merged. -/
def reached (tap : Tap) (d : Drain) : ℕ := reach (tap.fallsAfter d) tap.risesAfter

theorem Queued.popRises {tap : Tap} (h : tap.Queued wire) :
    tap.popRises.2.Queued wire ∧
      tap.popRises.1 = stretch (riseTick wire) tap.risesDrained tap.risesAfter ∧
      tap.popRises.2.risesDrained = tap.risesAfter := by
  have htaken : tap.popRises.1 = stretch (riseTick wire) tap.risesDrained tap.risesAfter := by
    rw [Tap.popRises, EdgeCapture.drainRises, h.rises, stretch.take _ _ h.risesSeen, risesAfter]
  have hcount : tap.popRises.2.risesDrained = tap.risesAfter := by
    change tap.risesDrained + tap.popRises.1.length = _
    have hseen := h.risesSeen
    rw [htaken, stretch.length, risesAfter]
    omega
  refine ⟨⟨h.fallsSeen, ?_, h.falls, ?_⟩, htaken, hcount⟩
  · rw [hcount]
    exact min_le_left _ _
  · rw [hcount]
    change (tap.capture.rises.drop drainMax) = _
    rw [h.rises, stretch.drop _ _ h.risesSeen]
    rfl

theorem Queued.popFalls {tap : Tap} (h : tap.Queued wire) :
    tap.popFalls.2.Queued wire ∧
      tap.popFalls.1 = stretch (fallTick wire) tap.fallsDrained
        (min ((tap.captured + 1) / 2) (tap.fallsDrained + drainMax)) ∧
      tap.popFalls.2.fallsDrained =
        min ((tap.captured + 1) / 2) (tap.fallsDrained + drainMax) := by
  have htaken : tap.popFalls.1 = stretch (fallTick wire) tap.fallsDrained
      (min ((tap.captured + 1) / 2) (tap.fallsDrained + drainMax)) := by
    rw [Tap.popFalls, EdgeCapture.drainFalls, h.falls, stretch.take _ _ h.fallsSeen]
  have hcount : tap.popFalls.2.fallsDrained =
      min ((tap.captured + 1) / 2) (tap.fallsDrained + drainMax) := by
    change tap.fallsDrained + tap.popFalls.1.length = _
    have hseen := h.fallsSeen
    rw [htaken, stretch.length]
    omega
  refine ⟨⟨?_, h.risesSeen, ?_, h.rises⟩, htaken, hcount⟩
  · rw [hcount]
    exact min_le_left _ _
  · rw [hcount]
    change (tap.capture.falls.drop drainMax) = _
    rw [h.falls, stretch.drop _ _ h.fallsSeen]
    rfl

/-- What one drain ships, and the anchor it leaves. -/
def shipped (wire : ℕ → ℤ) (tap : Tap) (d : Drain) : List WireEdge × EdgeAnchor :=
  unwrapDrain tap.anchor (.ofInt d.now)
    (stretch (fallTick wire) tap.fallsDrained (tap.fallsAfter d))
    (stretch (riseTick wire) tap.risesDrained tap.risesAfter)

/-- What a drain does to the counts, the rings and the chain. -/
theorem drain_eq {tap : Tap} (h : tap.Queued wire) (d : Drain) :
    (tap.drain wire d).Queued wire ∧
      tap.drain wire d =
        { clock := d.now
          captured := tap.captured + d.torn + d.late
          capture := (tap.drain wire d).capture
          fallsDrained := tap.fallsAfter d
          risesDrained := tap.risesAfter
          anchor := (tap.shipped wire d).2
          out := tap.out ++ (tap.shipped wire d).1
          floor := if (tap.shipped wire d).1.isEmpty && (tap.shipped wire d).2.carry.isEmpty then
              some (d.now - 4096) else tap.floor } := by
  obtain ⟨hqueued, hrises, hrose⟩ := h.popRises
  obtain ⟨hqueued', hfalls, hfell⟩ := (hqueued.lands d.torn).popFalls
  have hlate := hqueued'.lands d.late
  have hcaptured : (tap.popRises.2.lands wire d.torn).captured = tap.captured + d.torn :=
    lands_captured _ _
  have hbefore : (tap.popRises.2.lands wire d.torn).fallsDrained = tap.fallsDrained :=
    lands_fallsDrained _ _
  rw [hcaptured, hbefore] at hfalls hfell
  have hships : unwrapDrain (tap.popRises.2.lands wire d.torn).anchor (.ofInt d.now)
      (tap.popRises.2.lands wire d.torn).popFalls.1 tap.popRises.1 = tap.shipped wire d := by
    rw [hfalls, hrises, lands_anchor]
    rfl
  have hships' :
      unwrapDrain ((tap.popRises.2.lands wire d.torn).popFalls.2.lands wire d.late).anchor
      (.ofInt d.now) (tap.popRises.2.lands wire d.torn).popFalls.1 tap.popRises.1 =
        tap.shipped wire d := by
    rw [lands_anchor]
    exact hships
  refine ⟨⟨hlate.fallsSeen, hlate.risesSeen, hlate.falls, hlate.rises⟩, ?_⟩
  have hcount : ((tap.popRises.2.lands wire d.torn).popFalls.2.lands wire d.late).captured =
      tap.captured + d.torn + d.late := by
    rw [lands_captured, ← hcaptured]
    rfl
  have hfellAfter : ((tap.popRises.2.lands wire d.torn).popFalls.2.lands wire d.late).fallsDrained =
      tap.fallsAfter d := by
    rw [lands_fallsDrained, hfell]
    rfl
  have hroseAfter : ((tap.popRises.2.lands wire d.torn).popFalls.2.lands wire d.late).risesDrained =
      tap.risesAfter := by
    rw [lands_risesDrained, ← hrose]
    exact lands_risesDrained _ _
  have hout : ((tap.popRises.2.lands wire d.torn).popFalls.2.lands wire d.late).out = tap.out := by
    rw [lands_out]
    exact lands_out _ _
  have hfloor : ((tap.popRises.2.lands wire d.torn).popFalls.2.lands wire d.late).floor =
      tap.floor := by
    rw [lands_floor]
    exact lands_floor _ _
  simp only [drain, hships', hcount, hfellAfter, hroseAfter, hout, hfloor]

/-! ## The invariant -/

/-- Edges reported so far. -/
def merged (tap : Tap) : ℕ := reach tap.fallsDrained tap.risesDrained

structure Sound (wire : ℕ → ℤ) (tap : Tap) : Prop where
  queued : tap.Queued wire
  behind : tap.risesDrained ≤ tap.fallsDrained
  lead : tap.anchor.lead = polarity tap.merged
  carry : tap.anchor.carry = stretch (fallTick wire) ((tap.merged + 1) / 2) tap.fallsDrained
  out : tap.out = stretch (trueEdge wire) 0 tap.merged
  past : ∀ i < tap.captured, wire i ≤ tap.clock
  floorPast : ∀ base, tap.floor = some base → base + 4096 ≤ tap.clock
  floorBelow : ∀ base, tap.floor = some base →
    ∀ i, tap.merged ≤ i → i < tap.captured → base ≤ wire i
  anchored : tap.anchor.tick = (tap.since wire tap.merged).map UInt32.ofInt

theorem Sound.length_out {tap : Tap} (h : tap.Sound wire) : tap.out.length = tap.merged := by
  rw [h.out, stretch.length, Nat.sub_zero]

theorem Sound.init (start : ℤ) : (Tap.init start).Sound wire where
  queued := ⟨Nat.zero_le _, Nat.zero_le _, by simp [Tap.init, stretch, EdgeCapture.empty],
    by simp [Tap.init, stretch, EdgeCapture.empty]⟩
  behind := le_rfl
  lead := rfl
  carry := (stretch.eq_nil _ (Nat.zero_le _)).symm
  out := (stretch.eq_nil _ (Nat.zero_le _)).symm
  past := by
    intro i hi
    exact absurd hi (Nat.not_lt_zero i)
  floorPast := by
    intro base hbase
    cases hbase
  floorBelow := by
    intro base hbase
    cases hbase
  anchored := rfl

theorem Sound.edge {tap : Tap} (h : tap.Sound wire) (horder : tap.inOrder wire .edge) :
    (tap.step wire .edge).Sound wire where
  queued := ⟨h.queued.land.fallsSeen, h.queued.land.risesSeen, h.queued.land.falls,
    h.queued.land.rises⟩
  behind := h.behind
  lead := h.lead
  carry := h.carry
  out := h.out
  past := by
    intro i hi
    rcases Nat.lt_succ_iff_lt_or_eq.mp hi with hbefore | rfl
    · exact le_trans (h.past i hbefore) horder
    · exact le_rfl
  floorPast := by
    intro base hbase
    exact le_trans (h.floorPast base hbase) horder
  floorBelow := by
    intro base hbase i hmerged hi
    rcases Nat.lt_succ_iff_lt_or_eq.mp hi with hbefore | rfl
    · exact h.floorBelow base hbase i hmerged hbefore
    · have hpast := h.floorPast base hbase
      have hclock : tap.clock ≤ wire tap.captured := horder
      omega
  anchored := h.anchored

section

variable {tap : Tap} {d : Drain}

/-- A drain reports nothing it has not seen. -/
theorem reached_le_seen (h : tap.Queued wire) (d : Drain) :
    tap.reached d ≤ tap.captured + d.torn := by
  have hfalls := h.fallsSeen
  have hrises := h.risesSeen
  simp only [reached, reach, fallsAfter, risesAfter]
  omega

theorem after_facts (h : tap.Sound wire) (d : Drain) :
    tap.risesAfter ≤ tap.fallsAfter d ∧ tap.fallsDrained ≤ tap.fallsAfter d ∧
      tap.risesDrained ≤ tap.risesAfter := by
  have hfalls := h.queued.fallsSeen
  have hrises := h.queued.risesSeen
  have hbehind := h.behind
  simp only [fallsAfter, risesAfter]
  omega

/-- A drain with no output and no carry has seen every captured edge reported. -/
theorem captured_le_of_quiet (h : tap.Sound wire)
    (hstay : tap.reached d ≤ tap.merged)
    (hdry : tap.fallsAfter d ≤ (tap.reached d + 1) / 2) :
    tap.captured ≤ tap.merged ∧ tap.quietAt wire d := by
  have hfalls := h.queued.fallsSeen
  have hrises := h.queued.risesSeen
  have hbehind := h.behind
  have hafter := after_facts h d
  have hcap : 0 < drainMax := by decide
  have hrisesDry : tap.captured / 2 ≤ tap.risesDrained := by
    simp only [merged, reached, reach, fallsAfter, risesAfter] at hstay hdry hafter
    omega
  have hfallsDry : (tap.captured + d.torn + 1) / 2 ≤ tap.fallsDrained := by
    simp only [merged, reached, reach, fallsAfter, risesAfter] at hstay hdry hafter
    omega
  have hcarryDry : tap.fallsDrained ≤ (tap.merged + 1) / 2 := by
    simp only [merged, reached, reach, fallsAfter, risesAfter] at hstay hdry hafter ⊢
    omega
  refine ⟨?_, ?_, ?_, ?_⟩
  · simp only [merged, reach]
    omega
  · rw [h.queued.rises]
    exact stretch.eq_nil _ hrisesDry
  · have htorn := (h.queued.lands d.torn).falls
    rw [lands_captured, lands_fallsDrained] at htorn
    rw [htorn]
    exact stretch.eq_nil _ hfallsDry
  · rw [h.carry]
    exact stretch.eq_nil _ hcarryDry

/-- Edges that land while a drain is served come after its first snapshot. -/
theorem landing (horder : tap.inOrder wire (.drain d)) {i : ℕ} (hfresh : tap.captured ≤ i)
    (hi : i < tap.captured + d.torn + d.late) : d.risesAt ≤ wire i ∧ wire i ≤ d.now := by
  obtain ⟨_, hfalls, hnow, _, htorn, hlate⟩ := horder
  by_cases hbefore : i < tap.captured + d.torn
  · have hin := htorn (i - tap.captured) (by omega)
    rw [Nat.add_sub_cancel' hfresh] at hin
    omega
  · have hin := hlate (i - (tap.captured + d.torn)) (by omega)
    rw [Nat.add_sub_cancel' (by omega)] at hin
    omega

theorem le_now (h : tap.Sound wire) (horder : tap.inOrder wire (.drain d)) {i : ℕ}
    (hi : i < tap.captured + d.torn + d.late) : wire i ≤ d.now := by
  by_cases hold : i < tap.captured
  · have hpast := h.past i hold
    obtain ⟨hclock, hfalls, hnow, _⟩ := horder
    omega
  · exact (landing horder (by omega) hi).2

theorem floor_le (h : tap.Sound wire) (horder : tap.inOrder wire (.drain d)) {base : ℤ}
    (hbase : tap.floor = some base) {i : ℕ} (hmerged : tap.merged ≤ i)
    (hi : i < tap.captured + d.torn + d.late) : base ≤ wire i := by
  by_cases hold : i < tap.captured
  · exact h.floorBelow base hbase i hmerged hold
  · have hfresh := landing horder (by omega) hi
    have hpast := h.floorPast base hbase
    have hclock := horder.1
    omega

/-- The first edge of a batch is placed from where the chain stands. -/
theorem within_next (hmono : StrictMono wire) (h : tap.Sound wire)
    (horder : tap.inOrder wire (.drain d)) (hnear : tap.near wire (.drain d))
    (hseen : tap.merged < tap.captured + d.torn) :
    Within d.now tap.anchor.tick (wire tap.merged) := by
  have hclose := hnear tap.merged hseen (by rw [h.length_out])
  have hnow := le_now h horder (i := tap.merged) (by omega)
  rw [h.anchored]
  cases hsince : tap.since wire tap.merged with
  | none =>
      rw [hsince] at hclose
      exact ⟨hnow, hclose⟩
  | some base =>
      rw [hsince] at hclose
      refine ⟨base, rfl, ?_, hclose⟩
      have hfloor : ∀ floor, tap.floor = some floor → floor ≤ wire tap.merged := by
        intro floor htop
        exact floor_le h horder htop le_rfl (by omega)
      cases hm : tap.merged with
      | zero =>
          rw [hm] at hsince hfloor
          exact hfloor base hsince
      | succ j =>
          rw [hm] at hsince hfloor
          have hpred : wire j < wire (j + 1) := hmono (Nat.lt_succ_self j)
          cases htop : tap.floor with
          | none =>
              simp only [since, htop, Option.elim_none, Option.some.injEq] at hsince
              omega
          | some floor =>
              have hbelow := hfloor floor htop
              simp only [since, htop, Option.elim_some, Option.some.injEq] at hsince
              omega

/-- Within a batch every edge follows its predecessor. -/
theorem gap_in_batch (hmono : StrictMono wire) (h : tap.Sound wire)
    (horder : tap.inOrder wire (.drain d)) (hnear : tap.near wire (.drain d)) {i : ℕ}
    (hmerged : tap.merged ≤ i) (hseen : i + 1 < tap.captured + d.torn) :
    wire i ≤ wire (i + 1) ∧ wire (i + 1) - wire i < 2 ^ 16 := by
  have hclose := hnear (i + 1) hseen (by rw [h.length_out]; omega)
  have hpred : wire i < wire (i + 1) := hmono (Nat.lt_succ_self i)
  cases htop : tap.floor with
  | none =>
      simp only [since, htop, Option.elim_none, follows] at hclose
      exact ⟨hpred.le, hclose⟩
  | some floor =>
      have hbelow := floor_le h horder htop hmerged (by omega)
      simp only [since, htop, Option.elim_some, follows] at hclose
      exact ⟨hpred.le, by omega⟩

/-- What a drain of a sound tap ships. -/
theorem shipped_eq (hmono : StrictMono wire) (h : tap.Sound wire)
    (horder : tap.inOrder wire (.drain d)) (hnear : tap.near wire (.drain d)) :
    tap.shipped wire d =
      (stretch (trueEdge wire) tap.merged (tap.reached d),
        { tick :=
            if tap.reached d ≤ tap.merged ∧ tap.fallsAfter d ≤ (tap.reached d + 1) / 2 then
              lifted (.ofInt d.now) tap.anchor.tick
            else if tap.reached d ≤ tap.merged then tap.anchor.tick
            else some (.ofInt (wire (tap.reached d - 1)))
          lead := polarity (tap.reached d)
          carry := stretch (fallTick wire) ((tap.reached d + 1) / 2) (tap.fallsAfter d) }) := by
  obtain ⟨hbehind, hfalls, hrises⟩ := after_facts h d
  have hseen := reached_le_seen h.queued d
  apply unwrapDrain_stretch h.behind hbehind hfalls hrises h.lead h.carry
  · intro hlt
    have hnext : tap.merged < tap.reached d := hlt
    exact within_next hmono h horder hnear (by omega)
  · intro i hi hlt
    have hnext : i + 1 < tap.reached d := hlt
    exact gap_in_batch hmono h horder hnear hi (by omega)

theorem ofInt_sub_guard (now : ℤ) : UInt32.ofInt now - anchorGuard = UInt32.ofInt (now - 4096) :=
  ofInt32_sub now 4096

/-- A prompt quiet drain lifts the chain to its floor, unless the last edge lies
behind the floor. -/
theorem lifted_of_prompt (h : tap.Sound wire) (horder : tap.inOrder wire (.drain d))
    (hprompt : tap.prompt wire (.drain d)) (hquiet : tap.quietAt wire d)
    (hall : tap.captured ≤ tap.merged) :
    lifted (.ofInt d.now) tap.anchor.tick =
      ({ tap with floor := some (d.now - 4096) }.since wire tap.merged).map UInt32.ofInt := by
  obtain ⟨hclock, hfallsAt, hnowAt, _⟩ := horder
  have hin := hprompt hquiet
  rw [h.length_out] at hin
  have hreach : tap.merged ≤ tap.captured := by
    have hfalls := h.queued.fallsSeen
    have hrises := h.queued.risesSeen
    simp only [merged, reach]
    omega
  rw [h.anchored]
  cases hm : tap.merged with
  | zero =>
      cases htop : tap.floor with
      | none => simp [since, htop, lifted, ofInt_sub_guard]
      | some floor =>
          have hpast := h.floorPast floor htop
          have hspan := hin floor (by simp [hm, since, htop])
          have hlift : UInt32.ofInt (d.now - 4096) - UInt32.ofInt floor < 0x7FFFFFFF := by
            rw [ofInt32_sub_lt]
            change _ < (2147483647 : ℤ)
            omega
          simp only [since, htop, Option.map_some, lifted, ofInt_sub_guard, if_pos hlift]
  | succ j =>
      have hlast : wire j ≤ tap.clock := h.past j (by omega)
      have hbase : ∃ base, tap.since wire (j + 1) = some base ∧ wire j ≤ base ∧
          (base = wire j ∨ base + 4096 ≤ tap.clock) := by
        cases htop : tap.floor with
        | none => exact ⟨wire j, by simp [since, htop], le_rfl, Or.inl rfl⟩
        | some floor =>
            have hpast := h.floorPast floor htop
            refine ⟨max (wire j) floor, by simp [since, htop], le_max_left _ _, ?_⟩
            omega
      obtain ⟨base, hsince, hfrom, hto⟩ := hbase
      have hspan := hin base (by rw [hm, hsince]; rfl)
      rw [hsince]
      simp only [since, Option.map_some, Option.elim_some, lifted, ofInt_sub_guard]
      by_cases hbehind : d.now - 4096 < base
      · have hstay : ¬ UInt32.ofInt (d.now - 4096) - UInt32.ofInt base < 0x7FFFFFFF := by
          rw [ofInt32_sub_lt]
          change ¬ _ < (2147483647 : ℤ)
          omega
        have hmax : max (wire j) (d.now - 4096) = base := by
          omega
        rw [if_neg hstay, hmax]
      · have hlift : UInt32.ofInt (d.now - 4096) - UInt32.ofInt base < 0x7FFFFFFF := by
          rw [ofInt32_sub_lt]
          change _ < (2147483647 : ℤ)
          omega
        have hmax : max (wire j) (d.now - 4096) = d.now - 4096 := by
          omega
        rw [if_pos hlift, hmax]

theorem Sound.drain (hmono : StrictMono wire) (h : tap.Sound wire)
    (horder : tap.inOrder wire (.drain d)) (hnear : tap.near wire (.drain d))
    (hprompt : tap.prompt wire (.drain d)) : (tap.step wire (.drain d)).Sound wire := by
  obtain ⟨hqueued, heq⟩ := drain_eq h.queued d
  obtain ⟨hbehind, hfalls, hrises⟩ := after_facts h d
  have hships := shipped_eq hmono h horder hnear
  have hseen := reached_le_seen h.queued d
  have hgrows : tap.merged ≤ tap.reached d := reach_mono hfalls hrises
  change (tap.drain wire d).Sound wire
  have hmerged : (tap.drain wire d).merged = tap.reached d := by
    rw [heq]
    rfl
  have hcaptured : (tap.drain wire d).captured = tap.captured + d.torn + d.late := by
    rw [heq]
  have hclock : (tap.drain wire d).clock = d.now := by
    rw [heq]
  have hfloor : (tap.drain wire d).floor =
      if tap.reached d ≤ tap.merged ∧ tap.fallsAfter d ≤ (tap.reached d + 1) / 2 then
        some (d.now - 4096)
      else tap.floor := by
    rw [heq]
    simp [hships, stretch.eq_nil_iff]
  have hanchor : (tap.drain wire d).anchor = (tap.shipped wire d).2 := by
    rw [heq]
  refine ⟨hqueued, by rw [heq]; exact hbehind, ?_, ?_, ?_, ?_, ?_, ?_, ?_⟩
  · rw [hanchor, hships, hmerged]
  · rw [hanchor, hships, hmerged, heq]
  · rw [hmerged, heq, hships, h.out]
    exact stretch.append _ (Nat.zero_le _) hgrows
  · intro i hi
    rw [hcaptured] at hi
    rw [hclock]
    exact le_now h horder hi
  · intro base hbase
    rw [hfloor] at hbase
    rw [hclock]
    split at hbase
    · cases hbase
      omega
    · have hpast := h.floorPast base hbase
      obtain ⟨hstart, hfallsAt, hnowAt, _⟩ := horder
      omega
  · intro base hbase i hmerge hi
    rw [hfloor] at hbase
    rw [hmerged] at hmerge
    rw [hcaptured] at hi
    split at hbase
    · -- the floor of this drain: every edge still to come was not there at its first snapshot
      next hquiet =>
        obtain ⟨hall, _⟩ := captured_le_of_quiet h hquiet.1 hquiet.2
        have hfresh := landing horder (by omega) hi
        have hwindow := horder.2.2.2.1
        cases hbase
        omega
    · exact floor_le h horder hbase (le_trans hgrows hmerge) hi
  · rw [hanchor, hships, hmerged]
    by_cases hquiet : tap.reached d ≤ tap.merged ∧ tap.fallsAfter d ≤ (tap.reached d + 1) / 2
    · obtain ⟨hall, hdry⟩ := captured_le_of_quiet h hquiet.1 hquiet.2
      have hsame : tap.reached d = tap.merged := le_antisymm hquiet.1 hgrows
      have hlift := lifted_of_prompt h horder hprompt hdry hall
      rw [if_pos hquiet] at hfloor
      rw [if_pos hquiet, hlift, hsame]
      cases hm : tap.merged <;> simp only [since, hfloor]
    · rw [if_neg hquiet] at hfloor
      rw [if_neg hquiet]
      by_cases hstay : tap.reached d ≤ tap.merged
      · have hsame : tap.reached d = tap.merged := le_antisymm hstay hgrows
        rw [if_pos hstay, h.anchored, hsame]
        cases hm : tap.merged <;> simp only [since, hfloor]
      · -- the chain now stands at the last edge shipped
        obtain ⟨j, hj⟩ : ∃ j, tap.reached d = j + 1 := ⟨tap.reached d - 1, by omega⟩
        rw [if_neg hstay, hj, since, hfloor]
        cases htop : tap.floor with
        | none => rfl
        | some floor =>
            have hbelow := floor_le h horder htop (i := j) (by omega) (by omega)
            simp only [Nat.add_sub_cancel, Option.elim_some, max_eq_left hbelow, Option.map_some]

end

/-! ## Whole captures -/

/-- Edge `i` has been popped from its ring. -/
def drained (tap : Tap) (i : ℕ) : Prop :=
  match polarity i with
  | .low => i / 2 < tap.fallsDrained
  | .high => i / 2 < tap.risesDrained

/-- The client reports a prefix of the wire, and no drained edge is held back once
every edge before it has been drained. -/
def exact (wire : ℕ → ℤ) (tap : Tap) : Prop :=
  tap.out = (List.range tap.out.length).map (trueEdge wire) ∧
    ∀ i, (∀ j ≤ i, tap.drained j) → i < tap.out.length

theorem Sound.exact {tap : Tap} (h : tap.Sound wire) : tap.exact wire := by
  refine ⟨?_, fun i hdrained => ?_⟩
  · rw [h.length_out, h.out, stretch, List.Ico.zero_bot]
  · rw [h.length_out, merged, reach]
    have hlast := hdrained i le_rfl
    rcases Nat.even_or_odd' i with ⟨j, rfl | rfl⟩
    · have hlow : polarity (2 * j) = .low := if_pos (by omega)
      rw [drained, hlow] at hlast
      have hfall : 2 * j / 2 < tap.fallsDrained := hlast
      cases j with
      | zero => omega
      | succ k =>
          have hprev := hdrained (2 * k + 1) (by omega)
          have hhigh : polarity (2 * k + 1) = .high := if_neg (by omega)
          rw [drained, hhigh] at hprev
          have hrise : (2 * k + 1) / 2 < tap.risesDrained := hprev
          omega
    · have hhigh : polarity (2 * j + 1) = .high := if_neg (by omega)
      rw [drained, hhigh] at hlast
      have hrise : (2 * j + 1) / 2 < tap.risesDrained := hlast
      have hbehind := h.behind
      omega

/-- Over every schedule whose quiet drains are prompt, the reported timeline is the
true one. -/
theorem timeline_exact (hmono : StrictMono wire) (start : ℤ) (events : List WireEvent)
    (hmeets : Meets (step wire) (fun tap event =>
      tap.inOrder wire event ∧ tap.near wire event ∧ tap.prompt wire event)
      (Tap.init start) events) :
    (run (step wire) (Tap.init start) events).exact wire := by
  apply Sound.exact
  apply Meets.invariant (step wire) (Tap.Sound wire) _ (Sound.init start) hmeets
  intro tap event hsound hcond
  obtain ⟨horder, hnear, hprompt⟩ := hcond
  cases event with
  | edge => exact hsound.edge horder
  | drain d => exact hsound.drain hmono horder hnear hprompt

instance (tap : Tap) (event : WireEvent) : Decidable (tap.inOrder wire event) :=
  match event with
  | .edge => inferInstanceAs (Decidable (_ ≤ _))
  | .drain _ => inferInstanceAs (Decidable (_ ∧ _))

instance (now edge : ℤ) (base : Option ℤ) : Decidable (follows now edge base) :=
  match base with
  | none => inferInstanceAs (Decidable (_ < _))
  | some _ => inferInstanceAs (Decidable (_ < _))

instance (tap : Tap) (event : WireEvent) : Decidable (tap.near wire event) :=
  match event with
  | .edge => .isTrue trivial
  | .drain _ => inferInstanceAs (Decidable (∀ _, _))

instance (tap : Tap) (d : Drain) : Decidable (tap.quietAt wire d) :=
  inferInstanceAs (Decidable (_ ∧ _))

instance (tap : Tap) (event : WireEvent) : Decidable (tap.prompt wire event) :=
  match event with
  | .edge => .isTrue trivial
  | .drain d => inferInstanceAs (Decidable (tap.quietAt wire d → ∀ _ ∈ _, _))

def shortWire (i : ℕ) : ℤ := 9000 + 70 * i

/-- A rise and the next fall land between the two snapshots: the fall waits. -/
theorem timeline_exact_torn :
    (run (step shortWire) (Tap.init 0)
      [.drain ⟨0, 0, 1, 0, 2⟩, .edge, .edge, .edge, .drain ⟨9150, 2, 9290, 0, 9300⟩,
        .drain ⟨9310, 0, 9311, 0, 9312⟩]).exact shortWire := by
  apply timeline_exact
  · intro i j hij
    simp only [shortWire]
    omega
  · decide +kernel

/-- A wire whose first edge comes after two minutes of quiet. -/
def lateWire (i : ℕ) : ℤ := 2 ^ 31 + 5000 + 100 * i

/-- A quiet drain at power-up, the next one only after half a wrap of the tick
domain, then the first pair of edges. -/
def lateDrains : List WireEvent :=
  [.drain ⟨0, 0, 0, 0, 10⟩, .drain ⟨2 ^ 31 + 4000, 0, 2 ^ 31 + 4000, 0, 2 ^ 31 + 4000⟩,
    .edge, .edge,
    .drain ⟨2 ^ 31 + 5200, 0, 2 ^ 31 + 5200, 0, 2 ^ 31 + 5200⟩]

/-- Two quiet drains half a wrap apart: the second does not lift the chain, and the
edges behind it are reported half a wrap early. -/
theorem late_floor_misplaces :
    StrictMono lateWire ∧
      Meets (step lateWire) (fun tap event =>
        tap.inOrder lateWire event ∧ tap.near lateWire event) (Tap.init 0) lateDrains ∧
      (run (step lateWire) (Tap.init 0) lateDrains).out =
        [⟨5000, .low⟩, ⟨5100, .high⟩] ∧
      ¬ (run (step lateWire) (Tap.init 0) lateDrains).exact lateWire := by
  refine ⟨?_, by decide +kernel, by decide +kernel, ?_⟩
  · intro i j hij
    simp only [lateWire]
    omega
  · intro hexact
    have hout := hexact.1
    revert hout
    decide +kernel

end Tap

end OpenServo.Client
