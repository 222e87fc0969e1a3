import OpenServo.Bus.FrameFacts
import OpenServo.Bus.Reading

/-!
# The deadline mux

One compare serves two wrapping deadlines.  Re-arming picks the live slot with
the least time left; the compare wake drains what is due, with bytes, ticks
and the CRC engine free to move between any two reads of the clock.
-/

namespace OpenServo.Bus

/-! ## The armed compare -/

/-- The time left to a tick, zero once it is reached. -/
def remaining (now tick : UInt32) : UInt32 := if tickReached now tick then 0 else tick - now

theorem remaining_eq_zero {now tick : UInt32} : remaining now tick = 0 ↔ tickReached now tick := by
  unfold remaining
  split_ifs with hreached
  · simp [hreached]
  · simp only [hreached, Bool.false_eq_true, iff_false, sub_eq_zero]
    rintro rfl
    exact hreached (by simp [tickReached])

namespace ServoBus

/-- One of the two slots holds this tick. -/
def Live (bus : ServoBus) (tick : UInt32) : Prop :=
  bus.framerAt = some tick ∨ bus.chainAt = some tick

/-- The compare stands at the live slot with the least time left. -/
structure Armed (bus : ServoBus) : Prop where
  exactly : bus.compare.isSome ↔ ∃ tick, bus.Live tick
  live : ∀ tick, bus.compare = some tick → bus.Live tick
  soonest : ∀ tick slot, bus.compare = some tick → bus.Live slot →
    remaining bus.now tick ≤ remaining bus.now slot

theorem armed_armDeadline (bus : ServoBus) : bus.armDeadline.Armed := by
  have hlive : ∀ tick, bus.armDeadline.Live tick ↔
      bus.framerAt = some tick ∨ bus.chainAt = some tick := fun tick => Iff.rfl
  have hnow : bus.armDeadline.now = bus.now := rfl
  rcases hframer : bus.framerAt with _ | f <;> rcases hchain : bus.chainAt with _ | c
  case none.none =>
      have hcompare : bus.armDeadline.compare = none := by simp only [armDeadline, hframer, hchain]
      constructor <;> simp [hcompare, hlive, hframer, hchain]
  case none.some =>
      have hcompare : bus.armDeadline.compare = some c := by
        simp only [armDeadline, hframer, hchain]
      constructor <;> simp [hcompare, hlive, hframer, hchain]
  case some.none =>
      have hcompare : bus.armDeadline.compare = some f := by
        simp only [armDeadline, hframer, hchain]
      constructor <;> simp [hcompare, hlive, hframer, hchain]
  case some.some =>
      have hcompare : bus.armDeadline.compare =
          some (if remaining bus.now f ≤ remaining bus.now c then f else c) := by
        simp only [armDeadline, hframer, hchain]
        rfl
      constructor
      case exactly =>
          simp only [hcompare, hlive, hframer, hchain, Option.isSome_some, true_iff]
          exact ⟨f, Or.inl rfl⟩
      case live =>
          intro tick htick
          rw [hcompare] at htick
          rw [hlive, hframer, hchain]
          split_ifs at htick
          · exact Or.inl htick
          · exact Or.inr htick
      case soonest =>
          intro tick slot htick hslot
          rw [hcompare] at htick
          rw [hlive, hframer, hchain] at hslot
          rw [hnow]
          split_ifs at htick with hfirst <;> cases htick <;> rcases hslot with ⟨⟨⟩⟩ | ⟨⟨⟩⟩
          · exact UInt32.le_refl _
          · exact hfirst
          · exact (UInt32.le_total _ _).resolve_left hfirst
          · exact UInt32.le_refl _

/-- A due slot pends the compare. -/
theorem Armed.pends {bus : ServoBus} (harmed : bus.Armed) {tick : UInt32} (hlive : bus.Live tick)
    (hdue : tickReached bus.now tick) :
    ∃ soonest, bus.compare = some soonest ∧ tickReached bus.now soonest := by
  obtain ⟨soonest, hsoonest⟩ := Option.isSome_iff_exists.mp (harmed.exactly.mpr ⟨tick, hlive⟩)
  have hle := harmed.soonest soonest tick hsoonest hlive
  rw [remaining_eq_zero.mpr hdue] at hle
  exact ⟨soonest, hsoonest, remaining_eq_zero.mp (UInt32.le_zero_iff.mp hle)⟩

/-- What the service of a due chain slot leaves: the slot is taken, and nothing
waited, or the reply is triggered, or a turn of the chain is used up and the slot
holds the next tick, which is still ahead. -/
inductive ChainServed (bus bus' : ServoBus) : Prop
  | idle (hidle : bus.chain.active = false) (htaken : bus' = { bus with chainAt := none })
  | triggered (hactive : bus.chain.active = true) (hends : bus'.chain.active = false)
      (htaken : bus'.chainAt = none) (hstarts : bus.tx.staged = true → bus'.tx.streaming = true)
  | waits {next : UInt32} (hactive : bus'.chain.active = true)
      (hturn : bus'.chain.turns < bus.chain.turns) (hslot : bus'.chainAt = some next)
      (hahead : tickReached bus.now next = false) (htx : bus'.tx = bus.tx)

theorem chainServed_chainDue {bus : ServoBus} {now : UInt32} (hdue : due now bus.chainAt = true) :
    bus.ChainServed (bus.chainDue now) := by
  simp only [chainDue, hdue, if_true]
  cases hactive : bus.chain.active with
  | false =>
      rw [Chain.onDeadline_idle hactive]
      exact .idle hactive rfl
  | true =>
      obtain ⟨silent, hdeadline⟩ | ⟨chain', next, hdeadline, hactive', hfewer, -⟩ :=
        Chain.onDeadline_cases hactive now
      · rw [hdeadline]
        exact .triggered hactive rfl rfl fun hstaged =>
          TxEngine.streaming_trigger hstaged bus.crc _
      · rw [hdeadline]
        obtain ⟨hends, -⟩ := @routeChainLoop_wait { bus with chainAt := none, chain := chain' }
          (chain'.turns + 2) next hactive' (by dsimp only; omega)
        obtain ⟨next', hstill, hless, hslot, hahead, htx⟩ | ⟨hidle, hslot, hstarts, -⟩ := hends
        · exact .waits hstill (hless.trans_lt hfewer) hslot hahead htx
        · exact .triggered hactive hidle hslot hstarts

theorem chainDue_early {bus : ServoBus} {now : UInt32} (hdue : due now bus.chainAt = false) :
    bus.chainDue now = bus := by
  simp only [chainDue, hdue, Bool.false_eq_true, if_false]

theorem armed_breakTail (bus : ServoBus) (fresh : Bool) (now : UInt32) :
    (bus.breakTail fresh now).Armed :=
  armed_armDeadline _

/-- A ruler mark that asks for a deadline arms it. -/
theorem armed_onCalBreak (bus : ServoBus) (chip : Chip)
    (hmark : (bus.clock.onCalBreak bus.now bus.ring.cursor chip.ticksPerUs).1.isSome) :
    (bus.onCalBreak chip).Armed := by
  obtain ⟨due, hdue⟩ := Option.isSome_iff_exists.mp hmark
  simp only [onCalBreak, hdue]
  exact armed_armDeadline _

theorem armed_onRescueBreak (bus : ServoBus) (chip : Chip) (hquiet : bus.tx.streaming = false) :
    (bus.onRescueBreak chip).Armed := by
  simp only [onRescueBreak, hquiet]
  exact armed_armDeadline _

end ServoBus

/-! ## What the resolver leaves of the chain slot -/

namespace World

variable {σ : Type} [ConfigStore σ] (chip : Chip)

theorem chainAt_dispatchDecoded (w : World σ) (anchor footprint : ℕ) :
    (dispatchDecoded w anchor footprint).2.bus.chainAt = w.bus.chainAt := by
  unfold dispatchDecoded
  split <;> rfl

/-- A frame at its covered checkpoint only stages. -/
theorem chainAt_covered (span : FrameSpan) (w : World σ) :
    (routeFrame chip span false w).bus.chainAt = w.bus.chainAt := by
  have hspine : (routeSpine chip span false w).bus.chainAt = w.bus.chainAt := by
    have hfed : ((w.bus.crcFeed span.anchor span.footprint).securityFold span.anchor
        span.footprint).chainAt = w.bus.chainAt := by
      rw [ServoBus.securityFold_eq]
      rfl
    have hdispatched := chainAt_dispatchDecoded
      ⟨(w.bus.crcFeed span.anchor span.footprint).securityFold span.anchor span.footprint, w.disp⟩
      span.anchor span.footprint
    rw [hfed] at hdispatched
    unfold routeSpine
    rcases hdispatch : dispatchDecoded
        ⟨(w.bus.crcFeed span.anchor span.footprint).securityFold span.anchor span.footprint, w.disp⟩
        span.anchor span.footprint with ⟨_ | ⟨staged, slot, out⟩, w'⟩
    all_goals
      rw [hdispatch] at hdispatched
      simpa only [hdispatch, Bool.false_eq_true, if_false] using hdispatched
  unfold routeFrame
  split_ifs
  · rfl
  · exact hspine
  · rfl
  · exact absurd rfl ‹_›

/-- A turn that resolves no whole frame leaves the chain slot alone. -/
theorem chainAt_driveOnce {late : UInt32} {w w' : World σ}
    (hstop : driveOnce chip late w = (false, w')) : w'.bus.chainAt = w.bus.chainAt := by
  rcases hresolve : w.bus.framer.resolve w.bus.ring w.bus.now w.bus.tpb with ⟨framer, out⟩
  simp only [driveOnce, hresolve] at hstop
  cases out with
  | none =>
      rw [← (Prod.mk.inj hstop).2]
  | wait due =>
      rw [← (Prod.mk.inj hstop).2]
  | covered span endDue =>
      rw [← (Prod.mk.inj hstop).2]
      exact chainAt_covered chip _ _
  | frame span => exact absurd (Prod.mk.inj hstop).1 (by decide)

/-! ## The drain -/

/-- What the hardware does by itself. -/
inductive Act.Hardware : Act → Prop
  | receive (b : Byte) : Hardware (.receive b)
  | tick (now : UInt32) : Hardware (.tick now)
  | stall (stalled : Bool) : Hardware (.stall stalled)

/-- Bytes, ticks and the CRC engine between two reads of the clock. -/
def Elapses (w w' : World σ) : Prop :=
  ∃ acts : List Act, (∀ act ∈ acts, Act.Hardware act) ∧ Transition.run (step chip) w acts = w'

/-- The resolver loop with the turns left, and the frames it resolves. -/
inductive Driven : ℕ → World σ → List FrameSpan → World σ → Prop
  | yield (w : World σ) : Driven 0 w [] (w.onBus fun bus => { bus with framerAt := some bus.now })
  | stop {turns : ℕ} {late : UInt32} {w w' : World σ}
      (hstop : driveOnce chip late w = (false, w')) :
      Driven (turns + 1) w [] w'
  | frame {turns : ℕ} {late : UInt32} {w w₁ w₂ w' : World σ} {span : FrameSpan}
      {spans : List FrameSpan}
      (hspan : (w.bus.framer.resolve w.bus.ring w.bus.now w.bus.tpb).2 = .frame span)
      (hturn : driveOnce chip late w = (true, w₁)) (helapses : Elapses chip w₁ w₂)
      (hrest : Driven turns w₂ spans w') : Driven (turns + 1) w (span :: spans) w'

/-- One pass: the world it begins in, once the framer slot is taken, when the
chain slot is looked at and when it is over, and the frames the resolver takes. -/
structure Pass (σ : Type) where
  entry : World σ
  taken : World σ
  met : World σ
  left : World σ
  frames : List FrameSpan
  deriving DecidableEq

/-- The clock a pass judges both slots by. -/
def Pass.now (pass : Pass σ) : UInt32 := pass.entry.bus.now

/-- One pass of the drain that finds a slot due. -/
inductive Passes : World σ → Pass σ → World σ → Prop
  | framer {w w₁ w₂ w₃ : World σ} {frames : List FrameSpan} (hdue : due w.bus.now w.bus.framerAt)
      (hservice : Elapses chip (w.onBus ServoBus.framerDue) w₁)
      (hdriven : Driven chip framesPerWake w₁ frames w₂) (helapses : Elapses chip w₂ w₃) :
      Passes w
        ⟨w, w.onBus ServoBus.framerDue, w₃, w₃.onBus fun bus => bus.chainDue w.bus.now, frames⟩
        (w₃.onBus fun bus => bus.chainDue w.bus.now)
  | chain {w : World σ} (hidle : due w.bus.now w.bus.framerAt = false)
      (hdue : due w.bus.now w.bus.chainAt) :
      Passes w ⟨w, w, w, w.onBus fun bus => bus.chainDue w.bus.now, []⟩
        (w.onBus fun bus => bus.chainDue w.bus.now)

/-- The drain with the passes left, its passes, and the clock it stops at when
no slot is due. -/
inductive Drained : ℕ → World σ → List (Pass σ) → Option UInt32 → World σ → Prop
  | bound (w : World σ) : Drained 0 w [] none w
  | quiet {turns : ℕ} {w : World σ} (hframer : due w.bus.now w.bus.framerAt = false)
      (hchain : due w.bus.now w.bus.chainAt = false) :
      Drained (turns + 1) w [] (some w.bus.now) w
  | pass {turns : ℕ} {w w₁ w₂ w' : World σ} {pass : Pass σ} {passes : List (Pass σ)}
      {last : Option UInt32} (hpass : Passes chip w pass w₁) (helapses : Elapses chip w₁ w₂)
      (hrest : Drained turns w₂ passes last w') : Drained (turns + 1) w (pass :: passes) last w'

/-- A compare wake. -/
def DeadlineWake (w : World σ) (passes : List (Pass σ)) (last : Option UInt32) (w' : World σ) :
    Prop :=
  ∃ w₁ w₂, Drained chip deadlineDrainMax w passes last w₁ ∧ Elapses chip w₁ w₂ ∧
    w' = w₂.onBus ServoBus.armDeadline

variable {chip}

theorem Elapses.refl (w : World σ) : Elapses chip w w := ⟨[], by simp, rfl⟩

/-- The hardware leaves both slots alone. -/
theorem Elapses.slots {w w' : World σ} (helapses : Elapses chip w w') :
    w'.bus.framerAt = w.bus.framerAt ∧ w'.bus.chainAt = w.bus.chainAt := by
  obtain ⟨acts, hhardware, rfl⟩ := helapses
  induction acts generalizing w with
  | nil => exact ⟨rfl, rfl⟩
  | cons act acts ih =>
      obtain ⟨hact, hacts⟩ := List.forall_mem_cons.mp hhardware
      have hstep : (step chip w act).bus.framerAt = w.bus.framerAt ∧
          (step chip w act).bus.chainAt = w.bus.chainAt := by
        cases hact <;> exact ⟨rfl, rfl⟩
      have hrest := ih (w := step chip w act) hacts
      exact ⟨hrest.1.trans hstep.1, hrest.2.trans hstep.2⟩

/-- Without a resolved frame the resolver leaves the chain slot alone. -/
theorem Driven.chainAt {turns : ℕ} {w w' : World σ} (hdriven : Driven chip (turns + 1) w [] w') :
    w'.bus.chainAt = w.bus.chainAt := by
  cases hdriven with
  | stop hstop => exact chainAt_driveOnce chip hstop

/-- What the service of a due framer slot begins with: the slot is taken, and a
live CAL train dies. -/
def FramerTaken (w w' : World σ) : Prop :=
  w' = w.onBus fun bus => { bus with framerAt := none, clock := bus.clock.abandonCal }

/-- The resolver loop ran from one world to the other and took these frames. -/
def Resolves (chip : Chip) (w : World σ) (frames : List FrameSpan) (w' : World σ) : Prop :=
  ∃ w₁ w₂, Elapses chip w w₁ ∧ Driven chip framesPerWake w₁ frames w₂ ∧ Elapses chip w₂ w'

/-- A due framer slot is serviced and so is a due chain slot, and none that is not due.  The
chain slot a pass begins with is the one it judges, unless a frame the resolver took in that
pass has cancelled or moved it. -/
structure Pass.Served (pass : Pass σ) (chip : Chip) : Prop where
  framer : due pass.now pass.entry.bus.framerAt = true →
    FramerTaken pass.entry pass.taken ∧ Resolves chip pass.taken pass.frames pass.met
  framerEarly : due pass.now pass.entry.bus.framerAt = false → pass.met = pass.entry
  kept : pass.met.bus.chainAt = pass.entry.bus.chainAt ∨
    due pass.now pass.entry.bus.framerAt = true ∧ pass.frames ≠ []
  chain : due pass.now pass.met.bus.chainAt = true →
    pass.left.disp = pass.met.disp ∧ pass.met.bus.ChainServed pass.left.bus
  chainEarly : due pass.now pass.met.bus.chainAt = false → pass.left = pass.met

theorem Passes.served {w w' : World σ} {pass : Pass σ} (hpass : Passes chip w pass w') :
    pass.Served chip := by
  have hchain : ∀ {now : UInt32} {w : World σ}, due now w.bus.chainAt = true →
      (w.onBus fun bus => bus.chainDue now).disp = w.disp ∧
        w.bus.ChainServed (w.onBus fun bus => bus.chainDue now).bus :=
    fun hdue => ⟨rfl, ServoBus.chainServed_chainDue hdue⟩
  have hearly : ∀ {now : UInt32} {w : World σ}, due now w.bus.chainAt = false →
      (w.onBus fun bus => bus.chainDue now) = w := by
    intro now w hdue
    rw [onBus, ServoBus.chainDue_early hdue]
  cases hpass with
  | @framer w₁ w₂ w₃ frames hdue hservice hdriven helapses =>
      have htaken : FramerTaken w (w.onBus ServoBus.framerDue) := by
        simp only [FramerTaken, onBus, ServoBus.framerDue, hdue, if_true]
      refine ⟨fun _ => ⟨htaken, w₁, w₂, hservice, hdriven, helapses⟩, ?_, ?_, hchain, hearly⟩
      · intro hidle
        cases hdue.symm.trans hidle
      · cases frames with
        | cons span spans => exact .inr ⟨hdue, List.cons_ne_nil _ _⟩
        | nil =>
            left
            show w₃.bus.chainAt = w.bus.chainAt
            rw [helapses.slots.2, Driven.chainAt hdriven, hservice.slots.2, htaken]
            rfl
  | chain hidle hdue =>
      refine ⟨fun hframer => ?_, fun _ => rfl, .inl rfl, hchain, hearly⟩
      cases hidle.symm.trans hframer

theorem Passes.entered {w w' : World σ} {pass : Pass σ} (hpass : Passes chip w pass w') :
    pass.entry = w := by
  cases hpass <;> rfl

theorem Drained.served {turns : ℕ} {w w' : World σ} {passes : List (Pass σ)}
    {last : Option UInt32} (hdrained : Drained chip turns w passes last w') :
    passes.length ≤ turns ∧ ∀ pass ∈ passes, pass.Served chip := by
  induction hdrained with
  | bound w => exact ⟨le_rfl, by simp⟩
  | quiet hframer hchain => exact ⟨Nat.zero_le _, by simp⟩
  | pass hpass helapses hrest ih =>
      exact ⟨Nat.succ_le_succ ih.1, List.forall_mem_cons.mpr ⟨hpass.served, ih.2⟩⟩

/-- A drain that stops short of its bound stops at a reading that finds no slot
due. -/
theorem Drained.quiet_of_short {turns : ℕ} {w w' : World σ} {passes : List (Pass σ)}
    {last : Option UInt32} (hdrained : Drained chip turns w passes last w')
    (hshort : passes.length < turns) :
    ∃ now, last = some now ∧ due now w'.bus.framerAt = false ∧ due now w'.bus.chainAt = false := by
  induction hdrained with
  | bound w => exact absurd hshort (Nat.lt_irrefl 0)
  | quiet hframer hchain => exact ⟨_, rfl, hframer, hchain⟩
  | pass hpass helapses hrest ih => exact ih (Nat.lt_of_succ_lt_succ hshort)

theorem Drained.entered {turns : ℕ} {w w' : World σ} {pass : Pass σ} {passes : List (Pass σ)}
    {last : Option UInt32} (hdrained : Drained chip turns w (pass :: passes) last w') :
    pass.entry = w := by
  cases hdrained with
  | pass hpass helapses hrest => exact hpass.entered

/-- A drain that finds a slot due makes a pass. -/
theorem Drained.called {turns : ℕ} {w w' : World σ} {passes : List (Pass σ)} {last : Option UInt32}
    (hdrained : Drained chip (turns + 1) w passes last w') {tick : UInt32}
    (hlive : w.bus.Live tick) (hreached : tickReached w.bus.now tick) : passes ≠ [] := by
  cases hdrained with
  | quiet hframer hchain =>
      rcases hlive with hheld | hheld
      · rw [hheld] at hframer
        exact absurd hreached (by rw [show tickReached w.bus.now tick = false from hframer]; decide)
      · rw [hheld] at hchain
        exact absurd hreached (by rw [show tickReached w.bus.now tick = false from hchain]; decide)
  | pass hpass helapses hrest => exact List.cons_ne_nil _ _

/-! ## The run of the entry point -/

/-- The frames a resolver loop takes when the clock stands at `late`. -/
def takenFrames (chip : Chip) (late : UInt32) : ℕ → World σ → List FrameSpan
  | 0, _ => []
  | turns + 1, w =>
      match driveOnce chip late w with
      | (true, w') =>
          match (w.bus.framer.resolve w.bus.ring w.bus.now w.bus.tpb).2 with
          | .frame span => span :: takenFrames chip late turns w'
          | _ => []
      | (false, _) => []

/-- The pass that begins in this state. -/
def passOf (chip : Chip) (late : UInt32) (w : World σ) : Pass σ :=
  if due w.bus.now w.bus.framerAt then
    let taken := w.onBus ServoBus.framerDue
    let met := driveFramer chip late framesPerWake taken
    ⟨w, taken, met, met.onBus fun bus => bus.chainDue w.bus.now,
      takenFrames chip late framesPerWake taken⟩
  else ⟨w, w, w, w.onBus fun bus => bus.chainDue w.bus.now, []⟩

/-- The passes of a drain, and the clock it stops at when no slot is due. -/
def passesOf (chip : Chip) (late : UInt32) : ℕ → World σ → List (Pass σ) × Option UInt32
  | 0, _ => ([], none)
  | turns + 1, w =>
      match deadlinePass chip late w with
      | (true, w') =>
          (passOf chip late w :: (passesOf chip late turns w').1, (passesOf chip late turns w').2)
      | (false, _) => ([], some w.bus.now)

theorem driveOnce_true {late : UInt32} {w w' : World σ}
    (hturn : driveOnce chip late w = (true, w')) :
    ∃ span, (w.bus.framer.resolve w.bus.ring w.bus.now w.bus.tpb).2 = .frame span := by
  rcases hresolve : w.bus.framer.resolve w.bus.ring w.bus.now w.bus.tpb with ⟨framer, out⟩
  simp only [driveOnce, hresolve] at hturn
  cases out with
  | frame span => exact ⟨span, rfl⟩
  | none => exact absurd (Prod.mk.inj hturn).1 (by decide)
  | wait due => exact absurd (Prod.mk.inj hturn).1 (by decide)
  | covered span endDue => exact absurd (Prod.mk.inj hturn).1 (by decide)

theorem driven_driveFramer (late : UInt32) (turns : ℕ) (w : World σ) :
    Driven chip turns w (takenFrames chip late turns w) (driveFramer chip late turns w) := by
  induction turns generalizing w with
  | zero => exact .yield w
  | succ turns ih =>
      rcases hturn : driveOnce chip late w with ⟨goesOn, w'⟩
      cases goesOn with
      | false =>
          simp only [takenFrames, driveFramer, hturn]
          exact .stop hturn
      | true =>
          obtain ⟨span, hspan⟩ := driveOnce_true hturn
          simp only [takenFrames, driveFramer, hturn, hspan]
          exact .frame hspan hturn (.refl w') (ih w')

theorem passes_deadlinePass (late : UInt32) (w : World σ)
    (hprogress : (deadlinePass chip late w).1 = true) :
    Passes chip w (passOf chip late w) (deadlinePass chip late w).2 := by
  by_cases hframer : due w.bus.now w.bus.framerAt
  · simp only [passOf, deadlinePass, hframer, if_true]
    exact .framer hframer (.refl _) (driven_driveFramer late _ _) (.refl _)
  · simp only [deadlinePass, hframer, Bool.false_eq_true, if_false, Bool.false_or] at hprogress
    simp only [passOf, deadlinePass, hframer, Bool.false_eq_true, if_false]
    exact .chain (by simpa using hframer) hprogress

/-- A pass without progress changes nothing. -/
theorem deadlinePass_quiet {late : UInt32} {w : World σ}
    (hquiet : (deadlinePass chip late w).1 = false) :
    (due w.bus.now w.bus.framerAt = false ∧ due w.bus.now w.bus.chainAt = false) ∧
      (deadlinePass chip late w).2 = w := by
  by_cases hframer : due w.bus.now w.bus.framerAt
  · simp [deadlinePass, hframer] at hquiet
  · simp only [deadlinePass, hframer, Bool.false_eq_true, if_false, Bool.false_or] at hquiet ⊢
    refine ⟨⟨trivial, hquiet⟩, ?_⟩
    simp only [onBus, ServoBus.chainDue, hquiet, Bool.false_eq_true, if_false]

theorem drained_drainDeadlines (late : UInt32) (turns : ℕ) (w : World σ) :
    Drained chip turns w (passesOf chip late turns w).1 (passesOf chip late turns w).2
      (drainDeadlines chip late turns w) := by
  induction turns generalizing w with
  | zero => exact .bound w
  | succ turns ih =>
      rcases hpass : deadlinePass chip late w with ⟨progress, w'⟩
      cases progress with
      | false =>
          obtain ⟨⟨hframer, hchain⟩, hsame⟩ := deadlinePass_quiet (congrArg Prod.fst hpass)
          rw [hpass] at hsame
          simp only [passesOf, drainDeadlines, hpass]
          rw [show w' = w from hsame]
          exact .quiet hframer hchain
      | true =>
          have hpasses := passes_deadlinePass late w (congrArg Prod.fst hpass)
          rw [hpass] at hpasses
          simp only [passesOf, drainDeadlines, hpass]
          exact .pass hpasses (.refl w') (ih w')

/-- The entry point with the clock standing still is a compare wake. -/
theorem wake_onDeadline (late : UInt32) (w : World σ) :
    DeadlineWake chip w (passesOf chip late deadlineDrainMax w).1
      (passesOf chip late deadlineDrainMax w).2 (onDeadline chip late w) :=
  ⟨_, _, drained_drainDeadlines late _ w, .refl _, rfl⟩

/-! ## What a compare wake does -/

/-- Bounded passes that service what is due, an end that leaves nothing due or
pends it, and a compare at the soonest slot. -/
structure WakeServes (chip : Chip) (w : World σ) (passes : List (Pass σ)) (last : Option UInt32)
    (w' : World σ) : Prop where
  bound : passes.length ≤ deadlineDrainMax
  served : ∀ pass ∈ passes, pass.Served chip
  entered : ∀ first rest, passes = first :: rest → first.entry = w
  called : ∀ tick, w.bus.Live tick → tickReached w.bus.now tick → passes ≠ []
  drained : passes.length < deadlineDrainMax →
    ∃ now, last = some now ∧ due now w'.bus.framerAt = false ∧ due now w'.bus.chainAt = false
  pends : ∀ tick, w'.bus.Live tick → tickReached w'.bus.now tick →
    ∃ soonest, w'.bus.compare = some soonest ∧ tickReached w'.bus.now soonest
  armed : w'.bus.Armed

theorem DeadlineWake.serves {w w' : World σ} {passes : List (Pass σ)} {last : Option UInt32}
    (hwake : DeadlineWake chip w passes last w') : WakeServes chip w passes last w' := by
  obtain ⟨w₁, w₂, hdrained, helapses, rfl⟩ := hwake
  have harmed : (w₂.onBus ServoBus.armDeadline).bus.Armed := ServoBus.armed_armDeadline _
  constructor
  case bound => exact hdrained.served.1
  case served => exact hdrained.served.2
  case entered =>
      rintro first rest rfl
      exact hdrained.entered
  case called => exact fun tick hlive hreached => hdrained.called hlive hreached
  case drained =>
      intro hshort
      obtain ⟨now, hlast, hframer, hchain⟩ := hdrained.quiet_of_short hshort
      refine ⟨now, hlast, ?_, ?_⟩
      · rw [← helapses.slots.1] at hframer
        exact hframer
      · rw [← helapses.slots.2] at hchain
        exact hchain
  case pends => exact fun tick hlive hreached => harmed.pends hlive hreached
  case armed => exact harmed

end World

/-! ### A reply superseded in its own wake -/

/-- A ping of servo 5 and its break, a latched re-fire that asks for a recheck,
then a ping of servo 7 without a wake of its own. -/
def supersededReply : List Act :=
  (wireFrame ⟨5⟩ ⟨0x10⟩ []).map .receive ++
    [.breakHead, .drive 0, .drive 0, .breakTail true 0, .tick 1, .breakHead, .drive 1,
      .breakTail false 1] ++
    (wireFrame ⟨7⟩ ⟨0x10⟩ []).map .receive ++ [.tick 200]

def supersededServo : World Unit := Transition.run (World.step benchChip) benchServo supersededReply

end OpenServo.Bus
