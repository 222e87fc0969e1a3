import OpenServo.Core.Transition
import OpenServo.Host.Agreement
import OpenServo.Host.Arrival
import OpenServo.Host.Pacing

/-!
# One exchange

From the call that submits it to the terminal it ends with: the engine, the ring, the
bytes that landed since and the statuses handed out since.  Callers and the chip call in
any order; bytes land between the calls.
-/

namespace OpenServo.Host

open Bus Transition

/-! ## Plans that await a reply -/

namespace Shape

theorem train_of_gate {α : Type} {parsed : Option α} {shape : α → Except InvalidReason Shape}
    {out : Shape} (h : gate parsed shape = .ok out)
    (hshape : ∀ value, shape value = .ok out → out.train = none ∨ out.replies = .none) :
    out.train = none ∨ out.replies = .none := by
  obtain ⟨value, -, hok⟩ := gate_ok h
  exact hshape value hok

theorem train_of_ok {shape out : Shape} (h : (.ok shape : Except InvalidReason Shape) = .ok out)
    (htrain : shape.train = none) : out.train = none ∨ out.replies = .none := by
  cases h
  exact .inl htrain

theorem train_of_mgmt {pay : FrameBytes} {broadcast : Bool} {out : Shape}
    (h : mgmt pay broadcast = .ok out) : out.train = none ∨ out.replies = .none := by
  refine train_of_gate h fun m hm => ?_
  cases hop : m.op with
  | enum | assign =>
      rw [hop] at hm
      exact train_of_gate hm fun _ hok => train_of_ok hok rfl
  | cal =>
      rw [hop] at hm
      refine train_of_gate hm fun c hc => ?_
      split at hc
      · cases hc
      · cases hc
        exact .inr rfl
  | save | factory =>
      rw [hop] at hm
      dsimp only at hm
      split at hm
      · cases hm
      · exact train_of_ok hm rfl
  | reboot =>
      rw [hop] at hm
      exact train_of_ok hm rfl
  | secInit | secKey | secAttest | secRekey =>
      rw [hop] at hm
      cases hm

/-- No exchange both announces a train and awaits a reply. -/
theorem train_of_derive {id : Id} {inst : Inst} {payload : List Byte} {plan : Shape}
    (h : derive id inst payload = .ok plan) (hreplies : plan.replies ≠ .none) :
    plan.train = none := by
  obtain ⟨op, raw, -, -, -, hraw, rfl⟩ := derive_ok h
  have hsame : (suppress inst raw).train = raw.train := by
    rw [suppress]
    repeat' split
    all_goals rfl
  have hnone : raw.replies = .none → (suppress inst raw).replies = .none := fun hraw => by
    rw [suppress_replies, hraw]
    exact ite_self _
  have hcases : raw.train = none ∨ raw.replies = .none := by
    cases op with
    | ping | commit =>
        rw [deriveOp] at hraw
        split at hraw
        · cases hraw
        · exact train_of_ok hraw rfl
    | read =>
        rw [deriveOp] at hraw
        split at hraw
        · exact train_of_gate hraw fun _ hok => train_of_ok hok rfl
        · exact train_of_gate hraw fun _ hok => train_of_ok hok rfl
    | write => exact train_of_gate hraw fun _ hok => train_of_ok hok rfl
    | gread =>
        rw [deriveOp, gread] at hraw
        split at hraw
        all_goals exact train_of_gate hraw fun _ hok => train_of_ok hok rfl
    | gwrite =>
        rw [deriveOp] at hraw
        split at hraw
        all_goals exact train_of_gate hraw fun _ hok => train_of_ok hok rfl
    | mgmt => exact train_of_mgmt hraw
  rw [hsame]
  exact hcases.resolve_right fun hraw => hreplies (hnone hraw)

end Shape

/-! ## The machine -/

/-- One call, and the bytes that land before it. -/
structure Arrival where
  now : UInt32
  landed : List Byte
  call : Call

/-- A status, as it is handed out. -/
structure Told where
  slot : Byte
  id : Id
  inst : Inst
  payload : List Byte
  deriving DecidableEq, Repr

/-- The status a call hands out, if it does. -/
def Seen.told : Seen → List Told
  | .event (.status slot id inst payload) => [⟨slot, id, inst, payload.bytes⟩]
  | _ => []

structure Exchange where
  bus : HostBus
  ring : Ring
  /-- What landed since the submit. -/
  heard : List Byte
  told : List Told
  closed : Option Terminal

namespace Exchange

variable (ticksPerUs : UInt32)

def inputs (now : UInt32) (ring : Ring) : Inputs :=
  ⟨ticksPerUs, now, ring.bytes, UInt16.ofNat ring.cursor⟩

/-- The exchange is submitted. -/
def start (now : UInt32) (bus : HostBus) (ring : Ring) (id : Id) (inst : Inst)
    (payload : List Byte) : Exchange :=
  ⟨(bus.submit (inputs ticksPerUs now ring) (.exchange id inst payload)).2, ring, [], [], none⟩

def out (x : Exchange) (a : Arrival) : Seen × HostBus :=
  x.bus.call (inputs ticksPerUs a.now (x.ring.land a.landed)) a.call

/-- After its terminal the exchange is over. -/
def step (x : Exchange) (a : Arrival) : Exchange :=
  if x.closed.isSome then x
  else
    { bus := (x.out ticksPerUs a).2
      ring := x.ring.land a.landed
      heard := x.heard ++ a.landed
      told := x.told ++ (x.out ticksPerUs a).1.told
      closed := x.bus.formed (x.out ticksPerUs a) }

/-- The unconsumed bytes stay under one lap of the ring. -/
def Laps (x : Exchange) (a : Arrival) : Prop :=
  x.closed = none → (x.bus.framer.pending x.ring).length + a.landed.length < x.ring.len

instance (x : Exchange) (a : Arrival) : Decidable (x.Laps a) :=
  inferInstanceAs (Decidable (_ → _))

end Exchange

/-! ## What a call does -/

namespace HostBus

variable {bus : HostBus} {inp : Inputs} {plan : Shape}

/-- An exchange whose terminal is still to be formed. -/
structure Underway (bus : HostBus) (plan : Shape) : Prop where
  state : bus.state = .pacing ∨ bus.state = .transmitting ∨ bus.state = .awaiting
  done : bus.pendingDone = none
  wireDone : bus.pendingWireDone = none
  plan : bus.plan = some plan

/-- A call that only waits, or the walk of the ring. -/
inductive Serves (bus : HostBus) (inp : Inputs) (plan : Shape) : Call → Seen × HostBus → Prop
  | waits {call : Call} {seen : Seen} {bus' : HostBus} (told : seen.told = [])
      (formed : bus.formed (seen, bus') = none) (underway : bus'.Underway plan)
      (framer : bus'.framer = bus.framer) (evidence : bus'.evidence = bus.evidence)
      (turn : bus' = bus ∨ bus.state ≠ .awaiting ∧ (bus'.state = .awaiting → bus'.got = 0)) :
      Serves bus inp plan call (seen, bus')
  | walks (state : bus.state = .awaiting) : Serves bus inp plan .poll (polled (bus.pollAwait inp))

theorem Serves.of_refused {call : Call} {asked : Owner} (h : bus.Underway plan)
    (hcall : bus.call inp call = (.answered asked (.error .busy), bus)) :
    Serves bus inp plan call (bus.call inp call) := by
  rw [hcall]
  exact .waits rfl (formed_of_same rfl (answered_ne_done _ _)) h rfl rfl (.inl rfl)

/-- A poll before the reply is awaited. -/
theorem serves_pollDue (h : bus.Underway plan) (hstate : bus.state ≠ .awaiting) :
    Serves bus inp plan .poll (polled (if (bus.pollDue inp).pendingWireDone.isSome then
      (bus.pollDue inp).takeWireDone else (bus.pollDue inp).takeDone)) := by
  have hsame : bus.pollDue inp = bus ∨ bus.pollDue inp = bus.startTx := by
    obtain hpacing | htransmitting | hawaiting := h.state
    · simp only [pollDue, hpacing]
      split
      · exact .inr rfl
      · exact .inl rfl
    · exact .inl (by rw [pollDue, htransmitting])
    · exact absurd hawaiting hstate
  obtain hsame | hstarted := hsame
  · rw [hsame, take_nothing h.done h.wireDone]
    exact .waits rfl (formed_of_same rfl nothing_ne_done) h rfl rfl (.inl rfl)
  · rw [hstarted, take_nothing (show bus.startTx.pendingDone = none from h.done) h.wireDone]
    exact .waits rfl (formed_of_same rfl nothing_ne_done)
      ⟨.inr (.inl rfl), h.done, h.wireDone, h.plan⟩ rfl rfl
        (.inr ⟨hstate, fun hawaiting => by cases hawaiting⟩)

theorem serves_txComplete (h : bus.Underway plan) (htrain : plan.train = none)
    (hreplies : plan.replies ≠ .none) :
    Serves bus inp plan .txComplete (.nothing, bus.onTxComplete inp) := by
  have hsame : Serves bus inp plan .txComplete (.nothing, bus) :=
    .waits rfl (formed_of_same rfl nothing_ne_done) h rfl rfl (.inl rfl)
  obtain hstate | hstate | hstate := h.state
  · simp only [onTxComplete, hstate]
    exact hsame
  · simp only [onTxComplete, hstate, h.plan, htrain, if_neg hreplies]
    exact .waits rfl (formed_of_same rfl nothing_ne_done)
      ⟨.inr (.inr rfl), h.done, h.wireDone, h.plan⟩ rfl rfl
        (.inr ⟨(fun hawaiting => by rw [hstate] at hawaiting; cases hawaiting), fun _ => rfl⟩)
  · simp only [onTxComplete, hstate]
    exact hsame

/-- A call of an exchange under way waits, or walks the ring. -/
theorem serves_call (h : bus.Underway plan) (htrain : plan.train = none)
    (hreplies : plan.replies ≠ .none) (call : Call) :
    Serves bus inp plan call (bus.call inp call) := by
  have hready : bus.ready = false := by
    rw [ready]
    obtain hstate | hstate | hstate := h.state <;> rw [hstate] <;> rfl
  cases call with
  | submit cmd => exact .of_refused h (call_submit_busy hready cmd)
  | wire op => exact .of_refused h (call_wire_busy hready op)
  | txComplete => exact serves_txComplete h htrain hreplies
  | deadline =>
      have hsame : bus.onDeadline inp = bus := by
        obtain hstate | hstate | hstate := h.state <;> rw [onDeadline, hstate]
      rw [HostBus.call, hsame]
      exact .waits rfl (formed_of_same rfl nothing_ne_done) h rfl rfl (.inl rfl)
  | poll =>
      change Serves bus inp plan .poll (polled (bus.poll inp))
      rw [poll, if_neg (by rw [h.done]; exact Bool.false_ne_true),
        if_neg (by rw [h.wireDone]; exact Bool.false_ne_true)]
      split
      · rename_i hstate
        exact .walks hstate
      · rename_i hstate
        exact serves_pollDue h hstate

/-! ## The walk -/

/-- What every garble and every rogue frame preserves holds of the engine when the walk
stops, at a status or before one. -/
theorem awaitWalk_invariant (inp : Inputs) (inv : HostBus → Prop)
    (hgarble : ∀ bus n framer, inv bus →
      bus.framer.step inp.ring inp.cursor.toNat = (.garble n, framer) →
        inv (({ bus with framer }.addGarble n).rearm inp))
    (hrogue : ∀ bus frame framer, inv bus →
      bus.framer.step inp.ring inp.cursor.toNat = (.frame frame, framer) →
        inv (({ bus with framer }.addGarble (frame.payload.len + 6)).rearm inp))
    (expected : Option Byte) (fuel : ℕ) {bus : HostBus} (h : inv bus) :
    (∃ bus', inv bus' ∧ awaitWalk inp expected fuel bus = (none, bus')) ∨
      ∃ before frame framer, inv before ∧
        before.framer.step inp.ring inp.cursor.toNat = (.frame frame, framer) ∧
        awaitWalk inp expected fuel bus =
          Prod.map some id ({ before with framer }.onStatus inp expected frame) := by
  induction fuel generalizing bus with
  | zero => exact .inl ⟨bus, h, rfl⟩
  | succ fuel ih =>
      have hstays : ∀ {verdict framer}, verdict = .idle ∨ verdict = .parked →
          bus.framer.step inp.ring inp.cursor.toNat = (verdict, framer) →
            inv { bus with framer } := fun hverdict hstep => by
        rw [Framer.step_stays hverdict hstep]
        exact h
      rw [awaitWalk]
      split
      · rename_i frame framer hstep
        split
        · exact .inr ⟨bus, frame, framer, h, hstep, rfl⟩
        · exact ih (hrogue bus frame framer h hstep)
      · rename_i n framer hstep
        exact ih (hgarble bus n framer h hstep)
      · rename_i framer hstep
        exact .inl ⟨_, hstays (.inr rfl) hstep, rfl⟩
      · rename_i framer hstep
        exact .inl ⟨_, hstays (.inl rfl) hstep, rfl⟩

/-- One more status counted. -/
def counted (bus : HostBus) : HostBus :=
  { bus with
    got := Security.saturatingSucc8 bus.got
    evidence.statuses := Security.saturatingSucc8 bus.evidence.statuses
    evidence.garbleAfterLastFrame := false }

/-- The compare is taken back. -/
def halted (bus : HostBus) : HostBus := { bus.emit .cancel with state := .idle }

theorem onStatus_eq (bus : HostBus) (inp : Inputs) (expected : Option Byte) (frame : Frame) :
    bus.onStatus inp expected frame =
      let folded := bus.counted.halted.foldUnresolved inp
      let paced :=
        if 0 < folded.evidence.garble then
          { folded with
            paceUntil := some (inp.now + starveHorizonByteTimes * bus.byteTicks inp) }
        else folded
      let after :=
        if expected = some bus.counted.got then
          { paced with
            pendingDone := some ⟨.complete, inp.now, paced.evidence⟩
            evidence := .default
            plan := none }
        else bus.counted.rearm inp
      (.status (after.got - 1) frame.id frame.inst
        (payloadView inp.ring frame.payloadPos frame.payload.len),
        { after with lastCursor := inp.cursor }) := rfl

/-- A status is handed out: the last one awaited completes the exchange, any other starts the
window again. -/
inductive Delivers (bus : HostBus) (inp : Inputs) (expected : Option Byte) : HostBus → Prop
  | completes {bus' : HostBus} (last : expected = some bus.counted.got)
      (done : bus'.pendingDone =
        some ⟨.complete, inp.now, (bus.counted.halted.foldUnresolved inp).evidence⟩) :
      Delivers bus inp expected bus'
  | streams (more : expected ≠ some bus.counted.got) :
      Delivers bus inp expected { bus.counted.rearm inp with lastCursor := inp.cursor }

theorem onStatus_spec (bus : HostBus) (inp : Inputs) (expected : Option Byte) (frame : Frame) :
    (bus.onStatus inp expected frame).1 = .status (bus.counted.got - 1) frame.id frame.inst
        (payloadView inp.ring frame.payloadPos frame.payload.len) ∧
      Delivers bus inp expected (bus.onStatus inp expected frame).2 := by
  rw [onStatus_eq]
  dsimp only
  by_cases hlast : expected = some bus.counted.got
  · obtain ⟨evidence, hfold⟩ := @foldUnresolved_eq bus.counted.halted inp
    rw [if_pos hlast]
    refine ⟨?_, .completes hlast ?_⟩
    · rw [hfold]
      split <;> rfl
    · split <;> rfl
  · rw [if_neg hlast]
    exact ⟨rfl, .streams hlast⟩

/-- What a poll that finds nothing leaves alone. -/
structure Rests (bus bus' : HostBus) : Prop where
  state : bus'.state = bus.state
  done : bus'.pendingDone = bus.pendingDone
  wireDone : bus'.pendingWireDone = bus.pendingWireDone
  plan : bus'.plan = bus.plan
  framer : bus'.framer = bus.framer
  evidence : bus'.evidence = bus.evidence
  got : bus'.got = bus.got

theorem Rests.underway {bus' : HostBus} (h : Rests bus bus') (hunderway : bus.Underway plan) :
    bus'.Underway plan where
  state := by rw [h.state]; exact hunderway.state
  done := h.done.trans hunderway.done
  wireDone := h.wireDone.trans hunderway.wireDone
  plan := h.plan.trans hunderway.plan

/-- What is left over depends on the walker and the evidence alone. -/
theorem evidence_foldUnresolved {bus' : HostBus} (hframer : bus'.framer = bus.framer)
    (hevidence : bus'.evidence = bus.evidence) :
    (bus'.foldUnresolved inp).evidence = (bus.foldUnresolved inp).evidence := by
  simp only [foldUnresolved, hframer]
  split
  · simp only [addGarble, hevidence]
  · exact hevidence

theorem terminal_expire (bus : HostBus) (inp : Inputs) (replies : Replies) :
    (bus.expire inp replies).pendingDone =
      some ⟨if replies = .collect then .complete else .timeout bus.got, inp.now,
        (bus.foldUnresolved inp).evidence⟩ := by
  obtain ⟨evidence, hfold⟩ := @foldUnresolved_eq (bus.emit .cancel) inp
  have hevidence : ((bus.emit .cancel).foldUnresolved inp).evidence =
      (bus.foldUnresolved inp).evidence := evidence_foldUnresolved rfl rfl
  rw [expire, terminal_finish, hevidence, hfold]
  rfl

/-- A walk without a status: the exchange rests, unless nothing is new and its window over. -/
theorem pollAwait_walked {bus' : HostBus} (hplan : bus.plan = some plan)
    (hwalk : awaitWalk inp (expectedReplies plan.replies)
      (unresolved bus.framer.anchor inp.cursor.toNat inp.ring.length + 1) bus = (none, bus'))
    (hdone : bus'.pendingDone = none) :
    ((inp.cursor ≠ bus'.lastCursor ∨ tickReached inp.now bus'.deadlineAt = false) ∧
      ∃ last, Rests bus' last ∧ polled (bus.pollAwait inp) = (.nothing, last)) ∨
    (inp.cursor = bus'.lastCursor ∧ tickReached inp.now bus'.deadlineAt = true) ∧
      ∃ last, polled (bus.pollAwait inp) =
        (.event (.done ⟨if plan.replies = .collect then .complete else .timeout bus'.got, inp.now,
          (bus'.foldUnresolved inp).evidence⟩), last) := by
  simp only [pollAwait, hplan, hwalk]
  split
  · rename_i hprogressed
    refine .inl ⟨.inl (bne_iff_ne.mp hprogressed), _, ?_, take_silent hdone⟩
    exact ⟨rfl, rfl, rfl, rfl, rfl, rfl, rfl⟩
  · rename_i hprogressed
    split
    · rename_i hdue
      have hsame :
          (({ bus' with lastCursor := inp.cursor } : HostBus).foldUnresolved inp).evidence =
          (bus'.foldUnresolved inp).evidence := evidence_foldUnresolved rfl rfl
      have hterminal := terminal_expire { bus' with lastCursor := inp.cursor } inp plan.replies
      rw [hsame] at hterminal
      exact .inr ⟨⟨by simpa using hprogressed, hdue⟩, _, take_terminal hterminal⟩
    · rename_i hdue
      refine .inl ⟨.inr (Bool.not_eq_true _ ▸ hdue), _, ?_, take_silent hdone⟩
      exact ⟨rfl, rfl, rfl, rfl, rfl, rfl, rfl⟩

/-! ## Polls of a ring of statuses -/

section

variable {ring : Ring} {reply : Reply}

/-- A poll that finds a status landed hands it out. -/
theorem polled_landed (hring : inp.ring = ring.bytes) (hcursor : inp.cursor.toNat = ring.cursor)
    (hplan : bus.plan = some plan) (hanchor : bus.framer.anchor < ring.len) {rest : List Byte}
    (hpending : bus.framer.pending ring = reply.frame ++ rest) :
    ∃ framer bus' view, Framer.Cuts bus.framer framer ring reply.frame ∧
      view.bytes = reply.payload ∧
      Delivers { bus with framer } inp (expectedReplies plan.replies) bus' ∧
      polled (bus.pollAwait inp) =
        (.event (.status (bus.counted.got - 1) reply.id reply.inst view), bus') := by
  obtain ⟨frame, framer, hstep, hid, hinst, hpayload⟩ := reply.step_landed hanchor hpending
  obtain ⟨hcuts, -, hview⟩ := Framer.step_frame hanchor hstep
  obtain ⟨hevent, hdelivers⟩ :=
    onStatus_spec { bus with framer } inp (expectedReplies plan.replies) frame
  have hwalk : polled (bus.pollAwait inp) = polled (Prod.map some id
      ({ bus with framer }.onStatus inp (expectedReplies plan.replies) frame)) := by
    simp only [pollAwait, hplan, awaitWalk, hring, hcursor, hstep, hinst, reply.status, if_true,
      Prod.map]
    rfl
  rw [hring, hview, hid, hinst] at hevent
  rw [hid, hinst, hpayload] at hcuts
  refine ⟨framer, _, frame.payload, hcuts, hpayload, hdelivers, ?_⟩
  rw [hwalk, polled, Prod.map, hevent]
  rfl

theorem awaitWalk_nothing (hring : inp.ring = ring.bytes)
    (hcursor : inp.cursor.toNat = ring.cursor) (hpending : bus.framer.pending ring = [])
    (expected : Option Byte) (fuel : ℕ) :
    awaitWalk inp expected (fuel + 1) bus = (none, bus) := by
  rw [awaitWalk, hring, hcursor, Framer.step_idle hpending]

/-- A walk that finds nothing but the beginning of a status. -/
theorem awaitWalk_begun (hring : inp.ring = ring.bytes) (hcursor : inp.cursor.toNat = ring.cursor)
    {rest : List Byte} (hbegun : bus.framer.pending ring ++ rest = reply.frame) (hmore : rest ≠ [])
    (expected : Option Byte) (fuel : ℕ) :
    awaitWalk inp expected (fuel + 1) bus = (none, bus) := by
  by_cases hnone : bus.framer.pending ring = []
  · exact awaitWalk_nothing hring hcursor hnone expected fuel
  · rw [awaitWalk, hring, hcursor, Reply.step_begun rfl hbegun hnone hmore]

end

end HostBus

namespace Exchange

variable {ticksPerUs now : UInt32} {bus : HostBus} {ring : Ring} {id : Id} {inst : Inst}
  {payload : List Byte} {plan : Shape}

theorem toNat_cursor (ring : Ring) : (UInt16.ofNat ring.cursor).toNat = ring.cursor := by
  have hcursor := ring.cursor_lt
  have hindexed := Nat.pow_le_pow_right (show 0 < 2 by decide) ring.indexed
  rw [UInt16.toNat_ofNat', Nat.mod_eq_of_lt (by omega)]

/-- An accepted exchange starts with nothing heard and nothing counted. -/
structure Started (x : Exchange) (plan : Shape) : Prop where
  underway : x.bus.Underway plan
  sending : x.bus.state ≠ .awaiting
  inRing : x.bus.framer.anchor < x.ring.len
  pending : x.bus.framer.pending x.ring = []
  evidence : x.bus.evidence = .default

theorem ring_inputs (ring : Ring) : (inputs ticksPerUs now ring).ring = ring.bytes := rfl

theorem started_start (ticksPerUs now : UInt32) (ring : Ring) (hready : bus.ready = true)
    (hplan : Shape.derive id inst payload = .ok plan) :
    (start ticksPerUs now bus ring id inst payload).Started plan := by
  obtain ⟨hidle, hdone⟩ := HostBus.idle_of_ready hready
  have hwire : bus.pendingWireDone = none := by
    simp only [HostBus.ready, Bool.and_eq_true, Option.isNone_iff_eq_none] at hready
    exact hready.2
  have hframer : bus.framer.resync (UInt16.ofNat ring.cursor).toNat =
      bus.framer.resync ring.cursor := by rw [toNat_cursor]
  have hbegun : ∀ bus' : HostBus, bus'.state = .transmitting ∨ bus'.state = .pacing →
      bus'.pendingDone = none → bus'.pendingWireDone = none → bus'.plan = some plan →
        bus'.framer = bus.framer.resync ring.cursor → bus'.evidence = .default →
          Started ⟨bus', ring, [], [], none⟩ plan := by
    intro bus' hstate hdone hwire hplan hframer hevidence
    refine ⟨⟨?_, hdone, hwire, hplan⟩, ?_, ?_, ?_, hevidence⟩
    · obtain hstate | hstate := hstate
      · exact .inr (.inl hstate)
      · exact .inl hstate
    · obtain hstate | hstate := hstate <;> rw [hstate] <;> exact fun h => by cases h
    · rw [hframer]
      exact ring.cursor_lt_len
    · rw [hframer]
      exact Framer.pending_resync _ _
  rw [start, HostBus.submit, hready]
  simp only [Bool.not_true, Bool.false_eq_true, if_false, hplan, inputs, hframer]
  cases hquiet : bus.paceUntil with
  | none => exact hbegun _ (.inl rfl) hdone hwire rfl rfl rfl
  | some tick =>
      dsimp only
      split
      · exact hbegun _ (.inr rfl) hdone hwire rfl rfl rfl
      · exact hbegun _ (.inl rfl) hdone hwire rfl rfl rfl

end Exchange

end OpenServo.Host
