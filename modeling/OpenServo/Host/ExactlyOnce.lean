import OpenServo.Host.Calls

/-!
# Exactly one closing event

Every accepted operation owns the engine until its one closing event has been
polled, the wire is claimed exactly while it transmits, and it is never stuck: the
calls its phases wait for use up a rank.
-/

namespace OpenServo.Host

open Bus Ledger

namespace HostBus

variable {bus : HostBus} {inp : Inputs}

/-! ## What the small operations leave alone -/

@[simp]
theorem finish_state (outcome : Outcome) : (bus.finish inp outcome).state = .idle := rfl

@[simp]
theorem finish_pendingDone (outcome : Outcome) :
    (bus.finish inp outcome).pendingDone.isSome = true := rfl

@[simp]
theorem finish_pendingWireDone (outcome : Outcome) :
    (bus.finish inp outcome).pendingWireDone = bus.pendingWireDone := by
  simp only [finish]
  split <;> rfl

@[simp]
theorem finish_wireJob (outcome : Outcome) :
    (bus.finish inp outcome).wireJob = bus.wireJob := by
  simp only [finish]
  split <;> rfl

@[simp]
theorem finish_ops (outcome : Outcome) : (bus.finish inp outcome).ops = bus.ops := by
  simp only [finish]
  split <;> rfl

/-- Between calls: nobody works while a closing event waits, at most one waits, a
plan is at hand where one is followed, and the wire is claimed while transmitting. -/
structure Sound (bus : HostBus) : Prop where
  alone : bus.state ≠ .idle → bus.pendingDone = none ∧ bus.pendingWireDone = none
  single : bus.pendingDone.isSome = true → bus.pendingWireDone = none
  planned : bus.state = .pacing ∨ bus.state = .transmitting ∨ bus.state = .awaiting →
    bus.plan.isSome = true
  staged : bus.wireJob.train.isSome = true → bus.state = .wireTx
  drive : driven bus.ops = some bus.state.transmits

theorem sound_new (rate : BaudRate) (edges : EdgeCapture) : (new rate edges).Sound where
  alone := by simp [new]
  single := by simp [new]
  planned := by simp [new]
  staged := by simp [new, WireJob.new]
  drive := rfl

/-- In a state other than idle nothing waits, and the state says who owns. -/
theorem Sound.working (h : bus.Sound) (hstate : bus.state ≠ .idle) :
    bus.owner = bus.state.owner := by
  obtain ⟨hdone, hwire⟩ := h.alone hstate
  simp [owner, hdone, hwire]

theorem Sound.train_none (h : bus.Sound) (hstate : bus.state ≠ .wireTx) :
    bus.wireJob.train = none := by
  by_contra htrain
  exact hstate (h.staged (Option.isSome_iff_ne_none.mpr htrain))

/-- A closed command: its terminal waits, the wire is free. -/
theorem sound_finish {outcome : Outcome} (hwire : bus.pendingWireDone = none)
    (htrain : bus.wireJob.train = none) (hdrive : driven bus.ops = some false) :
    (bus.finish inp outcome).Sound ∧ (bus.finish inp outcome).owner = some .command := by
  refine ⟨⟨?_, ?_, ?_, ?_, ?_⟩, ?_⟩
  · simp
  · simpa using hwire
  · simp
  · simp [htrain]
  · rw [finish_ops]
    exact hdrive
  · simp [owner]

/-- A closed wire operation. -/
theorem sound_wireFinish (hdone : bus.pendingDone = none) (htrain : bus.wireJob.train = none)
    (hdrive : driven bus.ops = some true) :
    (bus.wireFinish inp).Sound ∧ (bus.wireFinish inp).owner = some .wire := by
  refine ⟨⟨?_, ?_, ?_, ?_, ?_⟩, ?_⟩
  · simp [wireFinish]
  · simp [wireFinish, emit, hdone]
  · simp [wireFinish]
  · simp [wireFinish, emit, htrain]
  · simp [wireFinish, emit, hdrive, State.transmits]
  · simp [wireFinish, emit, owner, hdone]

/-! ## Accepting -/

/-- A fresh engine: nothing outstanding. -/
theorem ready_iff : bus.ready = true ↔ bus.owner = none := by
  simp only [ready, owner, Bool.and_eq_true, beq_iff_eq, Option.isNone_iff_eq_none]
  constructor
  · rintro ⟨⟨hstate, hdone⟩, hwire⟩
    simp [hstate, hdone, hwire, State.owner]
  · intro hnone
    cases hdone : bus.pendingDone with
    | some done => simp [hdone] at hnone
    | none =>
        cases hwire : bus.pendingWireDone with
        | some tick => simp [hdone, hwire] at hnone
        | none =>
            simp only [hdone, hwire, Option.isSome_none, Bool.false_eq_true, if_false] at hnone
            cases hstate : bus.state <;> simp [hstate, State.owner] at hnone ⊢

/-- An answer to a call, and the engine after it. -/
structure Answered (bus : HostBus) (asked : Owner) (out : Except SubmitError Unit × HostBus) :
    Prop where
  lawful : Lawful bus.owner (.answered asked out.1) out.2.owner
  sound : out.2.Sound
  kept : bus.owner.isSome = true → out.2 = bus

theorem answered_busy {asked : Owner} (h : bus.Sound) (hready : ¬ bus.ready = true) :
    Answered bus asked (.error .busy, bus) := by
  rw [ready_iff] at hready
  obtain ⟨owner, howner⟩ := Option.ne_none_iff_exists'.mp hready
  refine ⟨?_, h, fun _ => rfl⟩
  simp only [howner]
  exact .busy asked owner

theorem ready_spec (h : bus.ready = true) :
    bus.state = .idle ∧ bus.pendingDone = none ∧ bus.pendingWireDone = none := by
  simpa [ready, and_assoc] using h

theorem answered_refused {asked : Owner} {reason : InvalidReason} {bus' : HostBus}
    (hready : bus.ready = true) (hready' : bus'.ready = true) (hsound : bus'.Sound) :
    Answered bus asked (.error (.invalid reason), bus') := by
  refine ⟨?_, hsound, by simp [ready_iff.mp hready]⟩
  rw [ready_iff.mp hready, ready_iff.mp hready']
  exact .refused asked reason

theorem answered_accepted {asked : Owner} {bus' : HostBus} (hready : bus.ready = true)
    (hsound : bus'.Sound ∧ bus'.owner = some asked) : Answered bus asked (.ok (), bus') := by
  refine ⟨?_, hsound.1, by simp [ready_iff.mp hready]⟩
  rw [ready_iff.mp hready, hsound.2]
  exact .accepted asked

/-- A ready engine that takes up a new state with nothing waiting. -/
theorem sound_begin {asked : Owner} (hdone : bus.pendingDone = none)
    (hwire : bus.pendingWireDone = none) (howner : bus.state.owner = some asked)
    (hplan : asked = .command → bus.state ≠ .rescueHold → bus.plan.isSome = true)
    (htrain : bus.wireJob.train.isSome = true → bus.state = .wireTx)
    (hdrive : driven bus.ops = some bus.state.transmits) :
    bus.Sound ∧ bus.owner = some asked := by
  have hidle : bus.state ≠ .idle := by
    intro hidle
    rw [hidle] at howner
    cases howner
  refine ⟨⟨fun _ => ⟨hdone, hwire⟩, fun _ => hwire, ?_, htrain, hdrive⟩, ?_⟩
  · intro hstate
    have hasked : asked = .command := by
      obtain hstate | hstate | hstate := hstate <;> rw [hstate] at howner <;> cases howner <;> rfl
    exact hplan hasked (by rintro hrescue; simp [hrescue] at hstate)
  · simp [owner, hdone, hwire, howner]

theorem sound_startTx (hdone : bus.pendingDone = none) (hwire : bus.pendingWireDone = none)
    (hplan : bus.plan.isSome = true) (htrain : bus.wireJob.train = none)
    (hdrive : driven bus.ops = some false) :
    bus.startTx.Sound ∧ bus.startTx.owner = some .command := by
  apply sound_begin
  · exact hdone
  · exact hwire
  · rfl
  · exact fun _ _ => hplan
  · simp [startTx, emit, htrain]
  · simp [startTx, emit, hdrive, State.transmits]

/-- What is known of a ready engine. -/
theorem Sound.of_ready (h : bus.Sound) (hready : bus.ready = true) :
    bus.pendingDone = none ∧ bus.pendingWireDone = none ∧ bus.wireJob.train = none ∧
      driven bus.ops = some false := by
  obtain ⟨hstate, hdone, hwire⟩ := ready_spec hready
  exact ⟨hdone, hwire, h.train_none (by simp [hstate]), by rw [h.drive, hstate]; rfl⟩

theorem answered_submit (h : bus.Sound) (inp : Inputs) (cmd : Command) :
    Answered bus .command (bus.submit inp cmd) := by
  by_cases hready : bus.ready = true
  · obtain ⟨hdone, hwire, htrain, hdrive⟩ := h.of_ready hready
    simp only [submit, hready, Bool.not_true, Bool.false_eq_true, if_false]
    cases cmd with
    | setResponseDeadline us => exact answered_accepted hready (sound_finish hwire htrain hdrive)
    | hostBaud rate =>
        exact answered_accepted hready
          (sound_finish hwire htrain (by simp [emit, pace, hdrive]))
    | rescue =>
        exact answered_accepted hready
          (sound_begin hdone hwire rfl (fun _ hne => absurd rfl hne) (by simp [arm, emit, htrain])
            (by simp [arm, emit, hdrive, State.transmits]))
    | exchange id inst payload =>
        cases hplan : Shape.derive id inst payload with
        | error reason =>
            simp only [hplan]
            exact answered_refused hready hready
              ⟨h.alone, h.single, h.planned, h.staged, h.drive⟩
        | ok plan =>
            simp only [hplan]
            cases hpace : bus.paceUntil with
            | none =>
                simp only
                exact answered_accepted hready (sound_startTx hdone hwire rfl htrain hdrive)
            | some tick =>
                simp only
                split
                · exact answered_accepted hready
                    (sound_begin hdone hwire rfl (fun _ _ => rfl) (by simp [arm, emit, htrain])
                      (by simp [arm, emit, hdrive, State.transmits]))
                · exact answered_accepted hready (sound_startTx hdone hwire rfl htrain hdrive)
  · rw [submit, if_pos (by simp [hready])]
    exact answered_busy h hready

theorem sound_startWire {job : WireJob} (hdone : bus.pendingDone = none)
    (hwire : bus.pendingWireDone = none) (hdrive : driven bus.ops = some false) :
    (bus.startWire job).Sound ∧ (bus.startWire job).owner = some .wire :=
  sound_begin hdone hwire rfl (fun hasked => by cases hasked) (fun _ => rfl)
    (by simp [startWire, emit, hdrive, State.transmits])

theorem answered_wireSend (h : bus.Sound) (bytes : List Byte) :
    Answered bus .wire (bus.wireSend bytes) := by
  rw [wireSend]
  by_cases hready : bus.ready = true
  · obtain ⟨hdone, hwire, -, hdrive⟩ := h.of_ready hready
    rw [if_neg (by simp [hready])]
    split
    · exact answered_refused hready hready h
    · split
      · exact answered_refused hready hready h
      · exact answered_accepted hready (sound_startWire hdone hwire hdrive)
  · rw [if_pos (by simp [hready])]
    exact answered_busy h hready

theorem answered_wireTrain (h : bus.Sound) (inp : Inputs) (announce : List Byte) (gapUs : UInt16)
    (breaks : Byte) : Answered bus .wire (bus.wireTrain inp announce gapUs breaks) := by
  rw [wireTrain]
  by_cases hready : bus.ready = true
  · obtain ⟨hdone, hwire, -, hdrive⟩ := h.of_ready hready
    rw [if_neg (by simp [hready])]
    split
    · exact answered_refused hready hready h
    · split
      · exact answered_refused hready hready h
      · exact answered_accepted hready (sound_startWire hdone hwire hdrive)
  · rw [if_pos (by simp [hready])]
    exact answered_busy h hready

theorem answered_wireBaud (h : bus.Sound) (inp : Inputs) (bps : UInt32) :
    Answered bus .wire (bus.wireBaud inp bps) := by
  rw [wireBaud]
  by_cases hready : bus.ready = true
  · obtain ⟨hstate, hdone, -⟩ := ready_spec hready
    obtain ⟨-, -, htrain, hdrive⟩ := h.of_ready hready
    rw [if_neg (by simp [hready])]
    split
    · exact answered_refused hready hready h
    · refine answered_accepted hready ⟨⟨?_, ?_, ?_, ?_, ?_⟩, ?_⟩
      · exact fun hne => absurd hstate hne
      · simp [pace, emit, hdone]
      · simp [pace, emit, hstate]
      · simp [pace, emit, htrain]
      · simp [pace, emit, hdrive, hstate, State.transmits]
      · simp [pace, emit, owner, hdone]
  · rw [if_pos (by simp [hready])]
    exact answered_busy h hready

theorem answered_wireBurst (h : bus.Sound) (stream : List Byte) :
    Answered bus .wire (bus.wireBurst stream) := by
  rw [wireBurst]
  by_cases hready : bus.ready = true
  · obtain ⟨hdone, hwire, -, hdrive⟩ := h.of_ready hready
    rw [if_neg (by simp [hready])]
    split
    · exact answered_refused hready hready h
    · split
      · exact answered_refused hready hready h
      · split
        · exact answered_refused hready hready h
        · exact answered_accepted hready
            (sound_begin hdone hwire rfl (fun hasked => by cases hasked) (fun _ => rfl)
              (by simp [wireNextFrame, emit, hdrive, State.transmits]))
  · rw [if_pos (by simp [hready])]
    exact answered_busy h hready

theorem answered_wirePulseLow (h : bus.Sound) (inp : Inputs) (us : UInt16) :
    Answered bus .wire (bus.wirePulseLow inp us) := by
  rw [wirePulseLow]
  by_cases hready : bus.ready = true
  · obtain ⟨hdone, hwire, htrain, hdrive⟩ := h.of_ready hready
    rw [if_neg (by simp [hready])]
    split
    · exact answered_refused hready hready h
    · exact answered_accepted hready
        (sound_begin hdone hwire rfl (fun hasked => by cases hasked) (by simp [arm, emit, htrain])
          (by simp [arm, emit, hdrive, State.transmits]))
  · rw [if_pos (by simp [hready])]
    exact answered_busy h hready

theorem answered_wireOp (h : bus.Sound) (inp : Inputs) (op : WireOp) :
    Answered bus .wire (bus.wireOp inp op) := by
  cases op with
  | send bytes => exact answered_wireSend h bytes
  | burst stream => exact answered_wireBurst h stream
  | pulse us => exact answered_wirePulseLow h inp us
  | train announce gapUs breaks => exact answered_wireTrain h inp announce gapUs breaks
  | baud bps => exact answered_wireBaud h inp bps

/-! ## Working -/

/-- One call against the books, the invariant and the rank. -/
structure Moves (bus : HostBus) (awaited : Bool) (out : Seen × HostBus) : Prop where
  lawful : Lawful bus.owner out.1 out.2.owner
  sound : out.2.Sound
  ranked : bus.owner.isSome = true → out.2.owner.isSome = true →
    out.2.rank + (if awaited then 1 else 0) ≤ bus.rank

theorem Answered.moves {asked : Owner} {out : Except SubmitError Unit × HostBus}
    (h : Answered bus asked out) : Moves bus false (.answered asked out.1, out.2) := by
  refine ⟨h.lawful, h.sound, fun hsome _ => ?_⟩
  simp [h.kept hsome]

/-- A call that changes nothing. -/
theorem moves_nothing (h : bus.Sound) : Moves bus false (.nothing, bus) :=
  ⟨.nothing _, h, fun _ _ => by simp⟩

/-- An operation goes on, or closes and waits to be polled. -/
theorem moves_on {asked : Owner} {awaited : Bool} {bus' : HostBus} (howner : bus.owner = some asked)
    (hsound : bus'.Sound ∧ bus'.owner = some asked)
    (hrank : bus'.rank + (if awaited then 1 else 0) ≤ bus.rank) :
    Moves bus awaited (.nothing, bus') := by
  refine ⟨?_, hsound.1, fun _ _ => hrank⟩
  simp only [howner, hsound.2]
  exact .nothing _

theorem two_le_trainRank (left : Byte) : 2 ≤ trainRank left := by
  simp only [trainRank]
  omega

theorem rank_pos (bus : HostBus) : 0 < bus.rank := by
  rw [rank]
  cases bus.state with
  | training left gap | wireTrain left gap =>
      exact Nat.lt_of_lt_of_le two_pos (two_le_trainRank left)
  | wireTx => cases bus.wireJob.train <;> simp
  | _ => simp

theorem moves_txComplete (h : bus.Sound) (inp : Inputs) :
    Moves bus (bus.awaited (inp, .txComplete)) (.nothing, bus.onTxComplete inp) := by
  rw [onTxComplete]
  cases hstate : bus.state with
  | wireTx =>
      obtain ⟨hdone, hwire⟩ := h.alone (by simp [hstate])
      have howner := h.working (by simp [hstate])
      have hdrive := h.drive
      have hawaited : bus.awaited (inp, .txComplete) = true := by simp [awaited, hstate]
      rw [hstate] at howner hdrive
      rw [hawaited, wireAdvance]
      cases htrain : bus.wireJob.train with
      | some train =>
          apply moves_on howner
          · exact sound_begin hdone hwire rfl (fun hasked => by cases hasked)
              (by simp [arm, emit]) (by simpa [arm, emit, State.transmits] using hdrive)
          · simp [rank, arm, emit, hstate, htrain, Nat.add_comm]
      | none =>
          simp only
          split
          · rename_i hmore
            apply moves_on howner
            · exact sound_begin hdone hwire (by simp [wireNextFrame, emit, hstate, State.owner])
                (fun hasked => by cases hasked) (by simp [wireNextFrame, emit, hstate])
                (by simp [wireNextFrame, emit, hstate, hdrive, State.transmits])
            · simp [rank, wireNextFrame, emit, hstate, htrain]
              omega
          · apply moves_on howner (sound_wireFinish hdone htrain hdrive)
            simp [rank, wireFinish, hstate, htrain]
  | transmitting =>
      obtain ⟨hdone, hwire⟩ := h.alone (by simp [hstate])
      have howner := h.working (by simp [hstate])
      have hdrive := h.drive
      have htrain := h.train_none (by simp [hstate])
      have hawaited : bus.awaited (inp, .txComplete) = true := by simp [awaited, hstate]
      obtain ⟨plan, hplan⟩ := Option.isSome_iff_exists.mp (h.planned (by simp [hstate]))
      rw [hstate] at howner hdrive
      rw [hawaited]
      simp only [hplan]
      cases hgaps : plan.train with
      | some train =>
          apply moves_on howner
          · exact sound_begin hdone hwire rfl (fun _ _ => by simp [arm, emit])
              (by simp [arm, emit, htrain]) (by simpa [arm, emit, State.transmits] using hdrive)
          · simp [rank, arm, emit, hstate, hplan, hgaps, Nat.add_comm]
      | none =>
          have hreleased : driven (bus.emit .release).ops = some false := by
            simp [emit, hdrive, State.transmits]
          simp only
          split
          · apply moves_on howner
              (@sound_finish (bus.emit .release) inp .sent hwire htrain hreleased)
            simp [rank, hstate, hplan, hgaps]
          · apply moves_on howner
            · exact sound_begin hdone hwire rfl (fun _ _ => by simp [arm, emit, hplan])
                (by simp [arm, emit, htrain]) (by simp [arm, emit, hdrive, State.transmits])
            · simp [rank, arm, emit, hstate, hplan, hgaps]
  | _ =>
      have hawaited : bus.awaited (inp, .txComplete) = false := by simp [awaited, hstate]
      rw [hawaited]
      exact moves_nothing h

/-- One break of a train: the next one is due, or the train closes. -/
theorem moves_trainBreak (asked : Owner) {left : Byte} {gap : UInt32}
    {next : Byte → UInt32 → State} {close : HostBus → HostBus} (h : bus.Sound)
    (hstate : bus.state = next left gap)
    (hnext : ∀ left gap, (next left gap).owner = some asked ∧
      (next left gap).transmits = true ∧ next left gap ≠ .idle ∧ next left gap ≠ .wireTx ∧
      ¬ (next left gap = .pacing ∨ next left gap = .transmitting ∨ next left gap = .awaiting))
    (hrank : ∀ (bus : HostBus) left gap, bus.state = next left gap → bus.rank = trainRank left)
    (hclose : ((close (bus.emit .sendBreak)).Sound ∧
      (close (bus.emit .sendBreak)).owner = some asked) ∧
        (close (bus.emit .sendBreak)).rank = 1) :
    Moves bus true (.nothing, bus.trainBreak left gap next close) := by
  obtain ⟨howner, htransmits, hidle, hwireTx, -⟩ := hnext left gap
  obtain ⟨hdone, hwire⟩ := h.alone (by rwa [hstate])
  have htrain := h.train_none (by rwa [hstate])
  have hbooks := h.working (by rwa [hstate])
  have hdrive := h.drive
  rw [hstate, howner] at hbooks
  rw [hstate, htransmits] at hdrive
  rw [trainBreak]
  split
  · apply moves_on hbooks hclose.1
    rw [hclose.2, hrank bus left gap hstate]
    exact two_le_trainRank left
  · rename_i hmore
    obtain ⟨howner', htransmits', hidle', -, hplan'⟩ := hnext (left - 1) gap
    apply moves_on hbooks
    · refine ⟨⟨fun _ => ⟨hdone, hwire⟩, fun _ => hwire, ?_, ?_, ?_⟩, ?_⟩
      · intro hstate'
        exact absurd hstate' hplan'
      · simp [arm, emit, htrain]
      · simp [arm, emit, hdrive, htransmits']
      · simp [owner, arm, emit, hdone, hwire, howner']
    · rw [hrank _ (left - 1) gap rfl, hrank bus left gap hstate]
      have hlt : 1 < left.toNat := by
        rw [UInt8.not_le] at hmore
        exact UInt8.lt_iff_toNat_lt.mp hmore
      have hle : 1 ≤ left := UInt8.le_iff_toNat_le.mpr hlt.le
      simp only [trainRank, if_true, UInt8.toNat_sub_of_le left 1 hle]
      have hone : (1 : UInt8).toNat = 1 := rfl
      omega

theorem moves_deadline (h : bus.Sound) (inp : Inputs) :
    Moves bus (bus.awaited (inp, .deadline)) (.nothing, bus.onDeadline inp) := by
  rw [onDeadline]
  cases hstate : bus.state with
  | training left gap =>
      obtain ⟨hdone, hwire⟩ := h.alone (by simp [hstate])
      have htrain := h.train_none (by simp [hstate])
      have hdrive := h.drive
      have hawaited : bus.awaited (inp, .deadline) = true := by simp [awaited, hstate]
      rw [hstate] at hdrive
      rw [hawaited]
      apply moves_trainBreak .command h hstate
      · intro left gap
        simp [State.owner, State.transmits]
      · intro bus left gap hstate
        simp [rank, hstate]
      · exact ⟨sound_finish hwire htrain (by simp [emit, hdrive, State.transmits]), rfl⟩
  | wireTrain left gap =>
      obtain ⟨hdone, hwire⟩ := h.alone (by simp [hstate])
      have htrain := h.train_none (by simp [hstate])
      have hdrive := h.drive
      have hawaited : bus.awaited (inp, .deadline) = true := by simp [awaited, hstate]
      rw [hstate] at hdrive
      rw [hawaited]
      apply moves_trainBreak .wire h hstate
      · intro left gap
        simp [State.owner, State.transmits]
      · intro bus left gap hstate
        simp [rank, hstate]
      · exact ⟨sound_wireFinish hdone htrain (by simp [emit, hdrive, State.transmits]), rfl⟩
  | _ =>
      have hawaited : bus.awaited (inp, .deadline) = false := by simp [awaited, hstate]
      rw [hawaited]
      exact moves_nothing h

/-! ## Awaiting replies -/

/-- A command that awaits its replies: the wire is free, nothing waits to be polled. -/
structure Awaits (bus : HostBus) : Prop where
  state : bus.state = .awaiting
  done : bus.pendingDone = none
  wire : bus.pendingWireDone = none
  plan : bus.plan.isSome = true
  train : bus.wireJob.train = none
  drive : driven bus.ops = some false

theorem Sound.awaits (h : bus.Sound) (hstate : bus.state = .awaiting) : bus.Awaits := by
  obtain ⟨hdone, hwire⟩ := h.alone (by simp [hstate])
  exact ⟨hstate, hdone, hwire, h.planned (by simp [hstate]), h.train_none (by simp [hstate]),
    by rw [h.drive, hstate]; rfl⟩

theorem Awaits.sound (h : bus.Awaits) : bus.Sound ∧ bus.owner = some .command := by
  obtain ⟨hstate, hdone, hwire, hplan, htrain, hdrive⟩ := h
  exact sound_begin hdone hwire (by rw [hstate]; rfl) (fun _ _ => hplan) (by simp [htrain])
    (by rw [hstate]; exact hdrive)

theorem Awaits.rank (h : bus.Awaits) : bus.rank = 1 := by
  simp [HostBus.rank, h.state]

theorem Awaits.addGarble (h : bus.Awaits) (bytes : ℕ) : (bus.addGarble bytes).Awaits :=
  ⟨h.state, h.done, h.wire, h.plan, h.train, h.drive⟩

theorem Awaits.rearm (h : bus.Awaits) : (bus.rearm inp).Awaits :=
  ⟨h.state, h.done, h.wire, h.plan, h.train, by simp [HostBus.rearm, arm, emit, h.drive]⟩

theorem foldUnresolved_eq : ∃ evidence, bus.foldUnresolved inp = { bus with evidence } := by
  simp only [foldUnresolved]
  split
  · exact ⟨_, rfl⟩
  · exact ⟨bus.evidence, rfl⟩

/-- A status event leaves the command open, or closes it and leaves its terminal. -/
structure Streams (out : Option Event × HostBus) : Prop where
  status : ∃ slot id inst payload, out.1 = some (.status slot id inst payload)
  sound : out.2.Sound ∧ out.2.owner = some .command
  rank : out.2.rank = 1

theorem streams_onStatus (h : bus.Awaits) (expected : Option Byte) (frame : Frame) :
    Streams (some (bus.onStatus inp expected frame).1, (bus.onStatus inp expected frame).2) := by
  refine ⟨⟨_, _, _, _, rfl⟩, ?_, ?_⟩
  · simp only [onStatus]
    split
    · -- the last owed status: the terminal waits behind this event
      obtain ⟨evidence, hfold⟩ := @foldUnresolved_eq
        { ({ bus with
          got := Security.saturatingSucc8 bus.got
          evidence.statuses := Security.saturatingSucc8 bus.evidence.statuses
          evidence.garbleAfterLastFrame := false }).emit .cancel with state := .idle } inp
      rw [hfold]
      split <;>
        exact ⟨⟨fun hne => absurd rfl hne, fun _ => h.wire, by simp, by simp [emit, h.train],
          by simp [emit, h.drive, State.transmits]⟩, by simp [owner]⟩
    · exact Awaits.sound ⟨h.state, h.done, h.wire, h.plan, h.train,
        by simp [HostBus.rearm, arm, emit, h.drive]⟩
  · simp only [onStatus]
    split
    · obtain ⟨evidence, hfold⟩ := @foldUnresolved_eq
        { ({ bus with
          got := Security.saturatingSucc8 bus.got
          evidence.statuses := Security.saturatingSucc8 bus.evidence.statuses
          evidence.garbleAfterLastFrame := false }).emit .cancel with state := .idle } inp
      rw [hfold]
      split <;> rfl
    · exact Awaits.rank ⟨h.state, h.done, h.wire, h.plan, h.train,
        by simp [HostBus.rearm, arm, emit, h.drive]⟩

/-- The walk yields a status, or leaves the command awaiting. -/
theorem awaitWalk_spec (expected : Option Byte) (fuel : ℕ) (h : bus.Awaits) :
    ((awaitWalk inp expected fuel bus).1 = none ∧ (awaitWalk inp expected fuel bus).2.Awaits) ∨
      Streams (awaitWalk inp expected fuel bus) := by
  induction fuel generalizing bus with
  | zero => exact Or.inl ⟨rfl, h⟩
  | succ fuel ih =>
      have hmoved : ∀ framer, ({ bus with framer } : HostBus).Awaits :=
        fun framer => ⟨h.state, h.done, h.wire, h.plan, h.train, h.drive⟩
      rw [awaitWalk]
      split
      · rename_i frame framer _
        split
        · exact Or.inr (streams_onStatus (hmoved framer) expected frame)
        · exact ih ((hmoved framer).addGarble _).rearm
      · exact ih ((hmoved _).addGarble _).rearm
      · exact Or.inl ⟨rfl, hmoved _⟩
      · exact Or.inl ⟨rfl, hmoved _⟩

/-- A quiet wire: the walk finds nothing, and nothing but the walker moves. -/
theorem awaitWalk_quiet {expected : Option Byte} {fuel : ℕ}
    (hquiet : (bus.framer.step inp.ring inp.cursor.toNat).1 ∈ [Step.idle, .parked]) :
    ∃ framer, awaitWalk inp expected (fuel + 1) bus = (none, { bus with framer }) := by
  rw [awaitWalk]
  split
  · rename_i hstep
    rw [hstep] at hquiet
    simp at hquiet
  · rename_i hstep
    rw [hstep] at hquiet
    simp at hquiet
  · exact ⟨_, rfl⟩
  · exact ⟨_, rfl⟩

/-! ## Polling -/

/-- A poll as the machine shows it. -/
def polled (out : Option Event × HostBus) : Seen × HostBus := (out.1.elim .nothing .event, out.2)

theorem moves_streams {out : Option Event × HostBus} (howner : bus.owner = some .command)
    (hrank : bus.rank = 1) (h : Streams out) : Moves bus false (polled out) := by
  obtain ⟨⟨slot, id, inst, payload, hstatus⟩, ⟨hsound, howner'⟩, hrank'⟩ := h
  refine ⟨?_, hsound, fun _ _ => by simp [polled, hrank, hrank']⟩
  simp only [polled, hstatus, howner, howner']
  exact .status slot id inst payload

theorem sound_takeDone (h : bus.Sound) (hdone : bus.pendingDone.isSome = true) :
    bus.takeDone.2.Sound ∧ bus.takeDone.2.owner = none ∧
      ∃ terminal, bus.takeDone.1 = some (.done terminal) := by
  have hwire := h.single hdone
  have hidle : bus.state = .idle := by
    by_contra hne
    rw [(h.alone hne).1] at hdone
    cases hdone
  obtain ⟨terminal, hterminal⟩ := Option.isSome_iff_exists.mp hdone
  refine ⟨⟨fun hne => absurd hidle hne, fun _ => hwire, ?_, h.staged, h.drive⟩, ?_, terminal, ?_⟩
  · simp [takeDone, hidle]
  · simp [takeDone, owner, hwire, hidle, State.owner]
  · simp [takeDone, hterminal]

theorem sound_takeWireDone (h : bus.Sound) (hwire : bus.pendingWireDone.isSome = true) :
    bus.takeWireDone.2.Sound ∧ bus.takeWireDone.2.owner = none ∧
      ∃ tick, bus.takeWireDone.1 = some (.wireDone tick) := by
  have hdone : bus.pendingDone = none := by
    by_contra hsome
    rw [h.single (Option.isSome_iff_ne_none.mpr hsome)] at hwire
    cases hwire
  have hidle : bus.state = .idle := by
    by_contra hne
    rw [(h.alone hne).2] at hwire
    cases hwire
  obtain ⟨tick, htick⟩ := Option.isSome_iff_exists.mp hwire
  refine ⟨⟨fun hne => absurd hidle hne, fun _ => rfl, ?_, h.staged, h.drive⟩, ?_, tick, ?_⟩
  · simp [takeWireDone, hidle]
  · simp [takeWireDone, owner, hdone, hidle, State.owner]
  · simp [takeWireDone, htick]

theorem take_none (hdone : bus.pendingDone = none) (hwire : bus.pendingWireDone = none) :
    (if bus.pendingWireDone.isSome then bus.takeWireDone else bus.takeDone) = (none, bus) := by
  rw [if_neg (by simp [hwire]), takeDone, hdone]
  cases bus
  simp_all

/-- The end of a poll: what waits is handed out, or nothing was there. -/
theorem moves_take {asked : Owner} {awaited : Bool} {bus' : HostBus}
    (howner : bus.owner = some asked) (h : bus'.Sound ∧ bus'.owner = some asked)
    (hrank : bus'.pendingDone = none → bus'.pendingWireDone = none →
      bus'.rank + (if awaited then 1 else 0) ≤ bus.rank) :
    Moves bus awaited (polled
      (if bus'.pendingWireDone.isSome then bus'.takeWireDone else bus'.takeDone)) := by
  obtain ⟨hsound, howner'⟩ := h
  split
  · rename_i hwire
    obtain ⟨hsound', hfree, tick, hevent⟩ := sound_takeWireDone hsound hwire
    have hdone : bus'.pendingDone = none := by
      by_contra hsome
      rw [hsound.single (Option.isSome_iff_ne_none.mpr hsome)] at hwire
      cases hwire
    have hasked : asked = .wire := by
      simpa [owner, hdone, hwire] using howner'.symm
    refine ⟨?_, hsound', by simp [polled, hfree]⟩
    simp only [polled, hevent, hfree, howner, hasked]
    exact .wireDone tick
  · rename_i hwire
    rw [Bool.not_eq_true, Option.isSome_eq_false_iff, Option.isNone_iff_eq_none] at hwire
    cases hdone : bus'.pendingDone with
    | some terminal =>
        obtain ⟨hsound', hfree, done, hevent⟩ := sound_takeDone hsound (by simp [hdone])
        have hasked : asked = .command := by
          simpa [owner, hdone] using howner'.symm
        refine ⟨?_, hsound', by simp [polled, hfree]⟩
        simp only [polled, hevent, hfree, howner, hasked]
        exact .done done
    | none =>
        have hsame := take_none hdone hwire
        rw [if_neg (by simp [hwire])] at hsame
        rw [hsame]
        exact moves_on howner ⟨hsound, howner'⟩ (hrank hdone hwire)

theorem awaited_awaiting (hstate : bus.state = .awaiting) (hsound : bus.Sound) :
    bus.awaited (inp, .poll) = (tickReached inp.now bus.deadlineAt &&
      (inp.cursor == bus.lastCursor &&
        decide ((bus.framer.step inp.ring inp.cursor.toNat).1 ∈ [Step.idle, .parked]))) := by
  obtain ⟨hdone, hwire⟩ := hsound.alone (by simp [hstate])
  simp [awaited, hstate, hdone, hwire]

theorem sound_expire (h : bus.Awaits) (replies : Replies) :
    (bus.expire inp replies).Sound ∧ (bus.expire inp replies).owner = some .command := by
  obtain ⟨evidence, hfold⟩ := @foldUnresolved_eq (bus.emit .cancel) inp
  simp only [expire, hfold]
  exact sound_finish h.wire h.train (by simp [emit, h.drive])

/-- What follows the walk when it found no status. -/
theorem moves_afterWalk {awaited : Bool} {before : HostBus} (howner : before.owner = some .command)
    (hrank : before.rank = 1) (h : bus.Awaits) (replies : Replies)
    (hawaited : awaited = true → inp.cursor = bus.lastCursor ∧
      tickReached inp.now bus.deadlineAt = true) :
    Moves before awaited (polled
      (if inp.cursor != bus.lastCursor then { bus with lastCursor := inp.cursor }.rearm inp
      else if tickReached inp.now bus.deadlineAt then
        { bus with lastCursor := inp.cursor }.expire inp replies
      else { bus with lastCursor := inp.cursor }).takeDone) := by
  have hmoved : ({ bus with lastCursor := inp.cursor } : HostBus).Awaits :=
    ⟨h.state, h.done, h.wire, h.plan, h.train, h.drive⟩
  have htake : ∀ bus' : HostBus, bus'.Sound ∧ bus'.owner = some .command →
      (awaited = true → bus'.pendingDone.isSome = true) →
      (bus'.pendingDone = none → bus'.rank = 1) →
      Moves before awaited (polled bus'.takeDone) := by
    intro bus' hsound hdone hrank'
    have hwire : bus'.pendingWireDone = none := by
      by_contra hsome
      cases hpending : bus'.pendingDone with
      | some terminal => exact hsome (hsound.1.single (by simp [hpending]))
      | none =>
          have hbooks := hsound.2
          simp only [owner, hpending, Option.isSome_none, Bool.false_eq_true, if_false,
            Option.isSome_iff_ne_none.mpr hsome, if_true] at hbooks
          cases hbooks
    have hkept : bus'.pendingDone = none → bus'.pendingWireDone = none →
        bus'.rank + (if awaited then 1 else 0) ≤ before.rank := by
      intro hnone _
      have hfalse : awaited = false := by
        by_contra htrue
        have hsome := hdone (by simpa using htrue)
        rw [hnone] at hsome
        cases hsome
      rw [hrank' hnone, hfalse, hrank]
      simp
    have hmoves := moves_take howner hsound hkept
    rwa [if_neg (by simp [hwire])] at hmoves
  split
  · rename_i hprogress
    apply htake _ hmoved.rearm.sound
    · intro htrue
      rw [(hawaited htrue).1] at hprogress
      simp at hprogress
    · exact fun _ => hmoved.rearm.rank
  · split
    · exact htake _ (sound_expire hmoved replies) (fun _ => rfl) (fun hnone => by cases hnone)
    · rename_i hdue
      apply htake _ hmoved.sound
      · intro htrue
        rw [(hawaited htrue).2] at hdue
        simp at hdue
      · exact fun _ => hmoved.rank

theorem moves_pollAwait (h : bus.Sound) (hstate : bus.state = .awaiting) (inp : Inputs) :
    Moves bus (bus.awaited (inp, .poll)) (polled (bus.pollAwait inp)) := by
  have hawaits := h.awaits hstate
  have howner := h.working (by simp [hstate])
  rw [hstate] at howner
  obtain ⟨plan, hplan⟩ := Option.isSome_iff_exists.mp hawaits.plan
  simp only [pollAwait, hplan]
  rw [awaited_awaiting hstate h]
  by_cases hquiet : (bus.framer.step inp.ring inp.cursor.toNat).1 ∈ [Step.idle, .parked]
  · obtain ⟨framer, hwalk⟩ := @awaitWalk_quiet bus inp (expectedReplies plan.replies)
      (unresolved bus.framer.anchor inp.cursor.toNat inp.ring.length) hquiet
    rw [hwalk]
    apply @moves_afterWalk { bus with framer } inp _ bus howner hawaits.rank
      ⟨hawaits.state, hawaits.done, hawaits.wire, hawaits.plan, hawaits.train, hawaits.drive⟩
    intro htrue
    rw [Bool.and_eq_true, Bool.and_eq_true, beq_iff_eq] at htrue
    exact ⟨htrue.2.1, htrue.1⟩
  · rw [decide_eq_false hquiet, Bool.and_false, Bool.and_false]
    have hspec := @awaitWalk_spec bus inp (expectedReplies plan.replies)
      (unresolved bus.framer.anchor inp.cursor.toNat inp.ring.length + 1) hawaits
    generalize awaitWalk inp (expectedReplies plan.replies)
      (unresolved bus.framer.anchor inp.cursor.toNat inp.ring.length + 1) bus = out at hspec ⊢
    obtain ⟨event, walked⟩ := out
    obtain ⟨hnone, hwalked⟩ | hstreams := hspec
    · obtain rfl : event = none := hnone
      exact moves_afterWalk howner hawaits.rank hwalked plan.replies (fun hfalse => by cases hfalse)
    · obtain ⟨slot, id, inst, payload, hevent⟩ := hstreams.status
      obtain rfl : event = some (.status slot id inst payload) := hevent
      exact moves_streams howner hawaits.rank hstreams

/-- The phases that only wait for the compare. -/
theorem moves_pollDue (h : bus.Sound) (hstate : bus.state ≠ .awaiting)
    (hdone : bus.pendingDone = none) (hwire : bus.pendingWireDone = none) (inp : Inputs) :
    Moves bus (bus.awaited (inp, .poll)) (polled
      (if (bus.pollDue inp).pendingWireDone.isSome then (bus.pollDue inp).takeWireDone
      else (bus.pollDue inp).takeDone)) := by
  have hstill : bus.awaited (inp, .poll) = false → bus.pollDue inp = bus →
      Moves bus (bus.awaited (inp, .poll)) (polled
        (if (bus.pollDue inp).pendingWireDone.isSome then (bus.pollDue inp).takeWireDone
        else (bus.pollDue inp).takeDone)) := by
    intro hawaited hsame
    rw [hawaited, hsame, take_none hdone hwire]
    exact moves_nothing h
  cases hphase : bus.state with
  | awaiting => exact absurd hphase hstate
  | idle | transmitting | training left gap | wireTx | wireTrain left gap =>
      exact hstill (by simp [awaited, hphase, hdone, hwire]) (by simp [pollDue, hphase])
  | pacing =>
      have howner := h.working (by simp [hphase])
      have htrain := h.train_none (by simp [hphase])
      have hdrive := h.drive
      rw [hphase] at howner hdrive
      have hawaited : bus.awaited (inp, .poll) = tickReached inp.now bus.deadlineAt := by
        simp [awaited, hphase, hdone, hwire]
      cases hdue : tickReached inp.now bus.deadlineAt with
      | false => exact hstill (by rw [hawaited, hdue]) (by simp [pollDue, hphase, hdue])
      | true =>
          rw [hawaited, hdue, show bus.pollDue inp = bus.startTx by simp [pollDue, hphase, hdue]]
          apply moves_take howner
            (sound_startTx hdone hwire (h.planned (by simp [hphase])) htrain hdrive)
          intro _ _
          simp [rank, startTx, emit, hphase, Nat.add_comm]
  | rescueHold =>
      have howner := h.working (by simp [hphase])
      have htrain := h.train_none (by simp [hphase])
      have hdrive := h.drive
      rw [hphase] at howner hdrive
      have hawaited : bus.awaited (inp, .poll) = tickReached inp.now bus.deadlineAt := by
        simp [awaited, hphase, hdone, hwire]
      cases hdue : tickReached inp.now bus.deadlineAt with
      | false => exact hstill (by rw [hawaited, hdue]) (by simp [pollDue, hphase, hdue])
      | true =>
          simp only [pollDue, hphase, hdue, if_true]
          exact moves_take howner
            (sound_finish hwire htrain (by simp [pace, emit, hdrive, State.transmits]))
            (fun hnone => by cases hnone)
  | wirePulse =>
      have howner := h.working (by simp [hphase])
      have htrain := h.train_none (by simp [hphase])
      have hdrive := h.drive
      rw [hphase] at howner hdrive
      have hawaited : bus.awaited (inp, .poll) = tickReached inp.now bus.deadlineAt := by
        simp [awaited, hphase, hdone, hwire]
      cases hdue : tickReached inp.now bus.deadlineAt with
      | false => exact hstill (by rw [hawaited, hdue]) (by simp [pollDue, hphase, hdue])
      | true =>
          have hclosed := @sound_wireFinish bus inp hdone htrain hdrive
          rw [show bus.pollDue inp = bus.wireFinish inp by simp [pollDue, hphase, hdue]]
          exact moves_take howner hclosed (fun _ hnone => by cases hnone)

theorem moves_poll (h : bus.Sound) (inp : Inputs) :
    Moves bus (bus.awaited (inp, .poll)) (polled (bus.poll inp)) := by
  rw [poll]
  split
  · rename_i hdone
    have howner : bus.owner = some .command := by simp [owner, hdone]
    obtain ⟨hsound, hfree, terminal, hevent⟩ := sound_takeDone h hdone
    refine ⟨?_, hsound, by simp [polled, hfree]⟩
    simp only [polled, hevent, hfree, howner]
    exact .done terminal
  · rename_i hdone
    split
    · rename_i hwire
      have howner : bus.owner = some .wire := by simp [owner, hdone, hwire]
      obtain ⟨hsound, hfree, tick, hevent⟩ := sound_takeWireDone h hwire
      refine ⟨?_, hsound, by simp [polled, hfree]⟩
      simp only [polled, hevent, hfree, howner]
      exact .wireDone tick
    · rename_i hwire
      split
      · rename_i hstate
        exact moves_pollAwait h hstate inp
      · rename_i hstate
        exact moves_pollDue h hstate (by simpa using hdone) (by simpa using hwire) inp

/-- Every call keeps the invariant, answers lawfully, and never raises the rank. -/
theorem moves_step (h : bus.Sound) (input : Inputs × Call) :
    Moves bus (bus.awaited input) (bus.step input) := by
  obtain ⟨inp, call⟩ := input
  cases call with
  | submit cmd => exact (answered_submit h inp cmd).moves
  | wire op => exact (answered_wireOp h inp op).moves
  | poll => exact moves_poll h inp
  | txComplete => exact moves_txComplete h inp
  | deadline => exact moves_deadline h inp

end HostBus

/-! ## Runs -/

/-- Under an owner only its closing event changes the books. -/
theorem Lawful.keeps {asked : Owner} {seen : Seen} {next : Option Owner}
    (h : Lawful (some asked) seen next) : asked.closing seen ∨ next = some asked := by
  cases h with
  | done terminal => exact Or.inl ⟨terminal, rfl⟩
  | wireDone tick => exact Or.inl ⟨tick, rfl⟩
  | _ => exact Or.inr rfl

theorem Lawful.next_of_closing {asked : Owner} {seen : Seen} {next : Option Owner}
    (h : Lawful (some asked) seen next) (hclosing : asked.closing seen) : next = none := by
  cases asked with
  | command =>
      obtain ⟨terminal, rfl⟩ := hclosing
      cases h
      rfl
  | wire =>
      obtain ⟨tick, rfl⟩ := hclosing
      cases h
      rfl

/-- What a run of the engine leaves behind. -/
structure Served (bus : HostBus) (log : List Seen) : Prop where
  /-- Every answer of the run is lawful: statuses and the closing event come only
  under their owner, a refused call brings none, and a call is busy exactly under an
  owner. -/
  lawful : Follows Lawful none log bus.owner
  /-- After an acceptance come the statuses of the command, then its one closing event. -/
  closed : ∀ before asked after, log = before ++ .answered asked (.ok ()) :: after →
    (bus.owner = some asked ∧ ∀ seen ∈ after, Lawful (some asked) seen (some asked)) ∨
      ∃ waiting closing rest, after = waiting ++ closing :: rest ∧ asked.closing closing ∧
        (∀ seen ∈ waiting, Lawful (some asked) seen (some asked)) ∧
        Follows Lawful none rest bus.owner
  /-- Claims and releases alternate, and the wire is claimed exactly while an operation
  transmits. -/
  wire : driven bus.ops = some bus.state.transmits
  /-- Whatever else happens, the awaited calls bring the closing event. -/
  progress : ∀ asked more, bus.owner = some asked →
    bus.rank ≤ awaitedCount HostBus.step HostBus.awaited bus more →
      ∃ seen ∈ outputs HostBus.step bus more, asked.closing seen

theorem closed_of_follows {log : List Seen} {last : Option Owner}
    (h : Follows Lawful none log last) (before : List Seen) (asked : Owner) (after : List Seen)
    (hlog : log = before ++ .answered asked (.ok ()) :: after) :
    (last = some asked ∧ ∀ seen ∈ after, Lawful (some asked) seen (some asked)) ∨
      ∃ waiting closing rest, after = waiting ++ closing :: rest ∧ asked.closing closing ∧
        (∀ seen ∈ waiting, Lawful (some asked) seen (some asked)) ∧
        Follows Lawful none rest last := by
  subst hlog
  obtain ⟨middle, -, hafter⟩ := h.split
  cases hafter with
  | cons haccept hrest =>
      cases haccept
      obtain ⟨hlast, hall⟩ | ⟨waiting, closing, rest, rfl, hclosing, ⟨next, hlaw, hrest'⟩, hall⟩ :=
        hrest.until_closing fun _ _ => Lawful.keeps
      · exact Or.inl ⟨hlast, hall⟩
      · obtain rfl := hlaw.next_of_closing hclosing
        exact Or.inr ⟨waiting, closing, rest, rfl, hclosing, hall, hrest'⟩

theorem progress_of_sound {bus : HostBus} (h : bus.Sound) (asked : Owner)
    (more : List (Inputs × Call)) (howner : bus.owner = some asked)
    (henough : bus.rank ≤ awaitedCount HostBus.step HostBus.awaited bus more) :
    ∃ seen ∈ outputs HostBus.step bus more, asked.closing seen := by
  apply exists_output_of_rank HostBus.step HostBus.Sound (fun bus => bus.owner = some asked)
    (fun bus _ _ => bus.rank_pos) ?_ h howner henough
  · intro bus input hsound howner
    obtain ⟨hlaw, hsound', hranked⟩ := HostBus.moves_step hsound input
    refine ⟨hsound', ?_⟩
    rw [howner] at hlaw
    obtain hclosing | hnext := hlaw.keeps
    · exact Or.inl hclosing
    · exact Or.inr ⟨hnext, hranked (by rw [howner]; rfl) (by rw [hnext]; rfl)⟩

/-- Every run of the engine, whatever is called in whatever order. -/
theorem engine_served (rate : BaudRate) (edges : EdgeCapture) (inputs : List (Inputs × Call)) :
    Served (final HostBus.step (HostBus.new rate edges) inputs)
      (outputs HostBus.step (HostBus.new rate edges) inputs) := by
  obtain ⟨hfollows, hsound⟩ := follows_outputs HostBus.step Lawful HostBus.owner HostBus.Sound
    (fun _ input hsound =>
      ⟨(HostBus.moves_step hsound input).lawful, (HostBus.moves_step hsound input).sound⟩)
    (HostBus.sound_new rate edges) inputs
  exact ⟨hfollows, closed_of_follows hfollows, hsound.drive, progress_of_sound hsound⟩

end OpenServo.Host
