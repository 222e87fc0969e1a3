import OpenServo.Host.Pacing

/-!
# The CAL break train

The announce of a CAL is followed by bare breaks on a grid that starts at its TX-complete
tick: each slot is armed from the previous target, never from the instant the interrupt got
in.  How many are left is an 8-bit count, so the longest train the parsers take is cut short.
-/

namespace OpenServo.Host

open Bus Ledger

/-- Slots armed and breaks sent, in turn, up to a number of breaks. -/
def gridOps (start gap : UInt32) (breaks : ℕ) : List Op :=
  (List.range breaks).flatMap fun k => [.set (start + UInt32.ofNat (k + 1) * gap), .sendBreak]

theorem gridOps_succ (start gap : UInt32) (breaks : ℕ) :
    gridOps start gap (breaks + 1) =
      gridOps start gap breaks ++
        [.set (start + UInt32.ofNat (breaks + 1) * gap), .sendBreak] := by
  simp [gridOps, List.range_succ]

/-- A claimed wire stays claimed along the grid. -/
theorem driven_gridOps {base : List Op} (h : driven base = some true) (start gap : UInt32)
    (breaks : ℕ) : driven (base ++ gridOps start gap breaks) = some true := by
  induction breaks with
  | zero =>
      rw [gridOps, List.range_zero, List.flatMap_nil, List.append_nil]
      exact h
  | succ breaks ih =>
      rw [gridOps_succ, ← List.append_assoc, driven_append, ih]
      rfl

namespace HostBus

variable {bus : HostBus} {inp : Inputs} {plan : Shape}

/-! ## The announce -/

/-- An exchange that is paced or on the wire. -/
structure Announcing (bus : HostBus) (plan : Shape) : Prop where
  state : bus.state = .pacing ∨ bus.state = .transmitting
  done : bus.pendingDone = none
  wireDone : bus.pendingWireDone = none
  plan : bus.plan = some plan

theorem announcing_submit {id : Id} {inst : Inst} {payload : List Byte}
    (hready : bus.ready = true) (hplan : Shape.derive id inst payload = .ok plan) :
    (bus.submit inp (.exchange id inst payload)).2.Announcing plan := by
  obtain ⟨-, hdone, hwire⟩ := ready_spec hready
  simp only [submit, hready, Bool.not_true, Bool.false_eq_true, if_false, hplan]
  cases bus.paceUntil with
  | none => exact ⟨.inr rfl, hdone, hwire, rfl⟩
  | some tick =>
      dsimp only
      split
      · exact ⟨.inl rfl, hdone, hwire, rfl⟩
      · exact ⟨.inr rfl, hdone, hwire, rfl⟩

/-- Until its TX completes, the exchange only waits to be started. -/
theorem Announcing.call (h : bus.Announcing plan) {call : Call} (hcall : call ≠ .txComplete) :
    (bus.call inp call).2.Announcing plan := by
  have hready : bus.ready = false := by
    rw [ready]
    obtain hstate | hstate := h.state <;> rw [hstate] <;> rfl
  cases call with
  | submit cmd => rwa [call_submit_busy hready]
  | wire op => rwa [call_wire_busy hready]
  | txComplete => exact absurd rfl hcall
  | deadline =>
      have hsame : bus.onDeadline inp = bus := by
        obtain hstate | hstate := h.state <;> rw [onDeadline, hstate]
      rwa [HostBus.call, hsame]
  | poll =>
      have hawaiting : bus.state ≠ .awaiting := by
        obtain hstate | hstate := h.state <;> rw [hstate] <;> exact State.noConfusion
      have hdue : (bus.pollDue inp).Announcing plan := by
        obtain hstate | hstate := h.state
        · simp only [pollDue, hstate]
          split
          · exact ⟨.inr rfl, h.done, h.wireDone, h.plan⟩
          · exact h
        · rwa [pollDue, hstate]
      change (polled (bus.poll inp)).2.Announcing plan
      rw [poll, if_neg (by rw [h.done]; exact Bool.false_ne_true),
        if_neg (by rw [h.wireDone]; exact Bool.false_ne_true), if_neg hawaiting,
        take_nothing hdue.done hdue.wireDone]
      exact hdue

/-! ## The grid -/

/-- Some breaks of a train are out and the next slot is armed. -/
structure OnGrid (bus : HostBus) (base : List Op) (start gap : UInt32) (breaks sent : ℕ) :
    Prop where
  left : sent < breaks
  state : bus.state = .training (UInt8.ofNat (breaks - sent)) gap
  done : bus.pendingDone = none
  wireDone : bus.pendingWireDone = none
  target : bus.deadlineAt = start + UInt32.ofNat (sent + 1) * gap
  ops : bus.ops =
    base ++ gridOps start gap sent ++ [.set (start + UInt32.ofNat (sent + 1) * gap)]

/-- The announce's TX completes: the first slot is a gap later. -/
theorem onGrid_txComplete {gapUs : ℕ} {gaps : Byte} (h : bus.Announcing plan)
    (hstate : bus.state = .transmitting) (htrain : plan.train = some (gapUs, gaps)) :
    (bus.onTxComplete inp).OnGrid bus.ops inp.now (UInt32.ofNat gapUs * inp.ticksPerUs)
      (gaps.toNat + 1) 0 := by
  have hcount : gaps + 1 = UInt8.ofNat (gaps.toNat + 1) := by
    rw [UInt8.ofNat_add, UInt8.ofNat_toNat]
    rfl
  have hone : UInt32.ofNat (0 + 1) * (UInt32.ofNat gapUs * inp.ticksPerUs) =
      UInt32.ofNat gapUs * inp.ticksPerUs := UInt32.one_mul _
  simp only [onTxComplete, hstate, h.plan, htrain]
  constructor
  case left => exact Nat.succ_pos _
  case state => rw [Nat.sub_zero, ← hcount]; rfl
  case done => exact h.done
  case wireDone => exact h.wireDone
  case target => rw [hone]; rfl
  case ops => rw [hone, gridOps, List.range_zero, List.flatMap_nil, List.append_nil]; rfl

variable {base : List Op} {start gap : UInt32} {breaks sent : ℕ}

/-- Only the compare moves the train. -/
theorem OnGrid.kept (h : bus.OnGrid base start gap breaks sent) {call : Call}
    (hcall : call ≠ .deadline) : (bus.call inp call).2 = bus := by
  have hready : bus.ready = false := by
    rw [ready, h.state]
    rfl
  cases call with
  | submit cmd => rw [call_submit_busy hready]
  | wire op => rw [call_wire_busy hready]
  | txComplete => rw [HostBus.call, onTxComplete, h.state]
  | deadline => exact absurd rfl hcall
  | poll =>
      have hdue : bus.pollDue inp = bus := by rw [pollDue, h.state]
      change (polled (bus.poll inp)).2 = bus
      rw [poll, if_neg (by rw [h.done]; exact Bool.false_ne_true),
        if_neg (by rw [h.wireDone]; exact Bool.false_ne_true),
        if_neg (by rw [h.state]; exact State.noConfusion), hdue, take_nothing h.done h.wireDone]

theorem grid_next (start gap : UInt32) (sent : ℕ) :
    start + UInt32.ofNat (sent + 1) * gap + gap = start + UInt32.ofNat (sent + 1 + 1) * gap := by
  have hone : UInt32.ofNat 1 * gap = gap := UInt32.one_mul gap
  rw [UInt32.ofNat_add (sent + 1) 1, UInt32.add_mul, hone, UInt32.add_assoc]

/-- A slot comes: its break, and the next slot one gap from the target. -/
theorem OnGrid.next (h : bus.OnGrid base start gap breaks sent) (hbreaks : breaks ≤ 255)
    (hleft : sent + 1 < breaks) : (bus.onDeadline inp).OnGrid base start gap breaks (sent + 1) := by
  have hmore : ¬ UInt8.ofNat (breaks - sent) ≤ 1 := by
    rw [UInt8.le_iff_toNat_le, UInt8.toNat_ofNat']
    show ¬ (breaks - sent) % 2 ^ 8 ≤ 1
    omega
  have hcount : UInt8.ofNat (breaks - sent) - 1 = UInt8.ofNat (breaks - (sent + 1)) := by
    have hsplit : breaks - sent = breaks - (sent + 1) + 1 := by omega
    rw [hsplit, UInt8.ofNat_add]
    exact UInt8.add_sub_cancel _ _
  simp only [onDeadline, h.state, trainBreak, if_neg hmore]
  constructor
  case left => exact hleft
  case state => rw [← hcount]; rfl
  case done => exact h.done
  case wireDone => exact h.wireDone
  case target =>
    rw [← grid_next, ← h.target]
    rfl
  case ops =>
    rw [← grid_next, ← h.target, gridOps_succ, ← h.target]
    show bus.ops ++ [.sendBreak] ++ [.set (bus.deadlineAt + gap)] = _
    rw [h.ops, ← h.target]
    simp only [List.append_assoc, List.cons_append, List.nil_append]

/-- The last slot: its break, and the wire is given up. -/
theorem OnGrid.last (h : bus.OnGrid base start gap breaks sent) (hlast : sent + 1 = breaks) :
    (bus.onDeadline inp).ops = base ++ gridOps start gap breaks ++ [.release] := by
  have hnone : UInt8.ofNat (breaks - sent) ≤ 1 := by
    have hone : breaks - sent = 1 := by omega
    rw [hone]
    decide
  simp only [onDeadline, h.state, trainBreak, if_pos hnone]
  rw [finish_ops, ← hlast, gridOps_succ]
  show bus.ops ++ [.sendBreak] ++ [.release] = _
  rw [h.ops]
  simp only [List.append_assoc, List.cons_append, List.nil_append]

/-! ## Runs -/

/-- How many compares have come. -/
def fired (calls : List (Inputs × Call)) : ℕ := calls.countP fun input => input.2 == .deadline

theorem OnGrid.run (h : bus.OnGrid base start gap breaks sent) (hbreaks : breaks ≤ 255)
    {calls : List (Inputs × Call)} (hleft : sent + fired calls < breaks) :
    (final HostBus.step bus calls).OnGrid base start gap breaks (sent + fired calls) := by
  induction calls generalizing bus sent with
  | nil => exact h
  | cons input calls ih =>
      obtain ⟨inp, call⟩ := input
      rw [final]
      by_cases hcall : call = .deadline
      · subst hcall
        have hcount : fired ((inp, .deadline) :: calls) = fired calls + 1 :=
          List.countP_cons_of_pos rfl
        rw [hcount, Nat.add_comm (fired calls), ← Nat.add_assoc] at hleft ⊢
        exact ih (h.next hbreaks (by omega)) hleft
      · have hcount : fired ((inp, call) :: calls) = fired calls :=
          List.countP_cons_of_neg (by simpa using hcall)
        have hkept : (HostBus.step bus (inp, call)).2 = bus := h.kept hcall
        rw [hcount] at hleft ⊢
        rw [hkept]
        exact ih h hleft

theorem Announcing.run (h : bus.Announcing plan) {calls : List (Inputs × Call)}
    (hcalls : ∀ input ∈ calls, input.2 ≠ .txComplete) :
    (final HostBus.step bus calls).Announcing plan := by
  induction calls generalizing bus with
  | nil => exact h
  | cons input calls ih =>
      exact ih (h.call (hcalls input (by simp))) fun later hlater => hcalls later (by simp [hlater])

theorem sound_final (h : bus.Sound) (calls : List (Inputs × Call)) :
    (final HostBus.step bus calls).Sound :=
  (follows_outputs HostBus.step Lawful HostBus.owner HostBus.Sound
    (fun _ input hsound => ⟨(moves_step hsound input).lawful, (moves_step hsound input).sound⟩)
    h calls).2

/-- What is asked of a train whose announce has just drained: while slots are left, the
breaks and slots of the grid on a claimed wire; with the last break, the one release. -/
structure RidesGrid (sending : HostBus) (tc : Inputs) (gap : UInt32) (breaks : ℕ) : Prop where
  during : ∀ calls, fired calls < breaks →
    (final HostBus.step (sending.onTxComplete tc) calls).ops =
        sending.ops ++ gridOps tc.now gap (fired calls) ++
          [.set (tc.now + UInt32.ofNat (fired calls + 1) * gap)] ∧
      driven (final HostBus.step (sending.onTxComplete tc) calls).ops = some true
  closed : ∀ calls inp, fired calls + 1 = breaks →
    ((final HostBus.step (sending.onTxComplete tc) calls).onDeadline inp).ops =
        sending.ops ++ gridOps tc.now gap breaks ++ [.release] ∧
      driven ((final HostBus.step (sending.onTxComplete tc) calls).onDeadline inp).ops = some false

theorem ridesGrid {sending : HostBus} {tc : Inputs}
    (h : (sending.onTxComplete tc).OnGrid sending.ops tc.now gap breaks 0)
    (hbreaks : breaks ≤ 255) (hdrive : driven sending.ops = some true) :
    RidesGrid sending tc gap breaks := by
  have hrun : ∀ calls, fired calls < breaks →
      (final HostBus.step (sending.onTxComplete tc) calls).OnGrid sending.ops tc.now gap breaks
        (fired calls) := fun calls hleft => by
    have hgrid := h.run hbreaks (show 0 + fired calls < breaks by rwa [Nat.zero_add])
    rwa [Nat.zero_add] at hgrid
  constructor
  case during =>
    intro calls hleft
    refine ⟨(hrun calls hleft).ops, ?_⟩
    rw [(hrun calls hleft).ops, driven_append, driven_gridOps hdrive]
    rfl
  case closed =>
    intro calls inp hlast
    have hops := @OnGrid.last _ inp _ _ _ _ _ (hrun calls (by omega)) hlast
    refine ⟨hops, ?_⟩
    rw [hops, driven_append, driven_gridOps hdrive]
    rfl

/-- The longest train: its count of 256 is 0 in 8 bits, and it ends at the first break. -/
theorem not_ridesGrid {sending : HostBus} {tc : Inputs}
    (h : (sending.onTxComplete tc).OnGrid sending.ops tc.now gap 256 0) :
    ¬ RidesGrid sending tc gap 256 := by
  intro hrides
  obtain ⟨hgrid, -⟩ := hrides.during [(tc, .deadline)] (by simp [fired])
  have hended : (final HostBus.step (sending.onTxComplete tc) [(tc, .deadline)]).ops =
      sending.ops ++ [.set (tc.now + UInt32.ofNat 1 * gap), .sendBreak, .release] := by
    have hstate : (sending.onTxComplete tc).state = .training 0 gap := h.state
    show ((sending.onTxComplete tc).onDeadline tc).ops = _
    simp only [onDeadline, hstate, trainBreak]
    rw [if_pos (by decide), finish_ops]
    show (sending.onTxComplete tc).ops ++ [.sendBreak] ++ [.release] = _
    rw [h.ops]
    simp [gridOps]
  rw [hended, List.append_assoc, List.append_cancel_left_eq] at hgrid
  simp [gridOps, fired] at hgrid

/-- The engine with a broadcast exchange accepted, after the calls that came since. -/
def announced (bus : HostBus) (inp : Inputs) (inst : Inst) (payload : List Byte)
    (waiting : List (Inputs × Call)) : HostBus :=
  final HostBus.step (bus.submit inp (.exchange .broadcast inst payload)).2 waiting

/-- Once the announce of an accepted CAL is out, its train rides the grid exactly if the
count of breaks fits 8 bits. -/
theorem cal_train_rides_the_grid {rate : BaudRate} {edges : EdgeCapture}
    {history waiting : List (Inputs × Call)} {tc : Inputs} {inst : Inst} {payload : List Byte}
    {gapUs : ℕ} {gaps : Byte} (hready : (final HostBus.step (new rate edges) history).ready = true)
    (hplan : Shape.derive .broadcast inst payload = .ok plan)
    (htrain : plan.train = some (gapUs, gaps))
    (hwaiting : ∀ input ∈ waiting, input.2 ≠ .txComplete)
    (hsending : (announced (final HostBus.step (new rate edges) history) inp inst payload
      waiting).state = .transmitting) :
    RidesGrid (announced (final HostBus.step (new rate edges) history) inp inst payload waiting) tc
      (UInt32.ofNat gapUs * tc.ticksPerUs) (gaps.toNat + 1) ↔ gaps ≠ 255 := by
  have hsound := sound_final (sound_new rate edges) history
  have hsound' : (announced (final HostBus.step (new rate edges) history) inp inst payload
      waiting).Sound := sound_final (answered_submit hsound inp _).sound waiting
  have hdrive := hsound'.drive
  rw [hsending] at hdrive
  have hannouncing := (@announcing_submit _ inp _ _ _ _ hready hplan).run hwaiting
  have hgrid := @onGrid_txComplete _ tc _ _ _ hannouncing hsending htrain
  constructor
  · rintro hrides rfl
    exact not_ridesGrid hgrid hrides
  · intro hne
    have hlt := gaps.toNat_lt
    have hshort : gaps.toNat ≠ 255 := fun h => hne (UInt8.toNat_inj.mp h)
    exact ridesGrid hgrid (by omega) hdrive

/-! ### On the bench -/

def calInst : Inst := ⟨0x70⟩

/-- A CAL of so many gaps, 400 us apart. -/
def calPayload (gaps : Byte) : List Byte := [6, 0x90, 0x01, gaps]

def benchInputs : Inputs := ⟨8, 1000, [], 0⟩

theorem short_train_rides_the_grid :
    RidesGrid (announced (new .b1000000 .empty) benchInputs calInst (calPayload 3) []) benchInputs
      3200 4 :=
  (@cal_train_rides_the_grid benchInputs ⟨.none, 0, some (400, 3), false⟩ .b1000000 .empty [] []
    benchInputs calInst (calPayload 3) 400 3 rfl (by decide +kernel) rfl (by simp) rfl).mpr
    (by decide)

/-- The longest train the parsers accept is cut to its first break. -/
theorem longest_train_is_cut :
    ¬ ∀ (rate : BaudRate) (edges : EdgeCapture) (history waiting : List (Inputs × Call))
        (inp tc : Inputs) (inst : Inst) (payload : List Byte) (plan : Shape) (gapUs : ℕ)
        (gaps : Byte), (final HostBus.step (new rate edges) history).ready = true →
      Shape.derive .broadcast inst payload = .ok plan → plan.train = some (gapUs, gaps) →
      (∀ input ∈ waiting, input.2 ≠ .txComplete) →
      (announced (final HostBus.step (new rate edges) history) inp inst payload waiting).state =
        .transmitting →
      RidesGrid (announced (final HostBus.step (new rate edges) history) inp inst payload waiting)
        tc (UInt32.ofNat gapUs * tc.ticksPerUs) (gaps.toNat + 1) := by
  intro hclaim
  have hrides := hclaim .b1000000 .empty [] [] benchInputs benchInputs calInst (calPayload 255)
    ⟨.none, 0, some (400, 255), false⟩ 400 255 rfl (by decide +kernel) rfl (by simp) rfl
  have hgrid := (hrides.during [(benchInputs, .deadline)] (by simp [fired])).1
  exact absurd hgrid (by decide +kernel)

end HostBus

end OpenServo.Host
