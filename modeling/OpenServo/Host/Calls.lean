import OpenServo.Core.Ledger
import OpenServo.Host.Engine

/-!
# The engine as a machine

Its inputs are the calls of its callers and of the chip, in any order; its answers
are what a caller sees.  The books say who owns the wire: nobody, the command that
was accepted, or the instrument operation that was.
-/

namespace OpenServo.Host

inductive Call where
  | submit (cmd : Command)
  | wire (op : WireOp)
  | poll
  | txComplete
  | deadline
  deriving DecidableEq, Repr

/-- What an accepted call makes the engine work on. -/
inductive Owner where
  | command
  | wire
  deriving DecidableEq, Repr

/-- What the caller sees of one call. -/
inductive Seen where
  | answered (asked : Owner) (answer : Except SubmitError Unit)
  | event (event : Event)
  | nothing

namespace HostBus

def call (bus : HostBus) (inp : Inputs) : Call → Seen × HostBus
  | .submit cmd => Prod.map (.answered .command) id (bus.submit inp cmd)
  | .wire op => Prod.map (.answered .wire) id (bus.wireOp inp op)
  | .poll => Prod.map (fun event => event.elim .nothing .event) id (bus.poll inp)
  | .txComplete => (.nothing, bus.onTxComplete inp)
  | .deadline => (.nothing, bus.onDeadline inp)

/-- One input of the machine: a call, and what the providers show during it. -/
def step (bus : HostBus) (input : Inputs × Call) : Seen × HostBus := bus.call input.1 input.2

end HostBus

/-- Who works in a state. -/
def State.owner : State → Option Owner
  | .idle => none
  | .pacing | .transmitting | .training _ _ | .rescueHold | .awaiting => some .command
  | .wireTx | .wirePulse | .wireTrain _ _ => some .wire

/-- Is an operation transmitting? -/
def State.transmits : State → Bool
  | .idle | .pacing | .awaiting => false
  | .transmitting | .training _ _ | .rescueHold | .wireTx | .wirePulse | .wireTrain _ _ => true

/-- From acceptance until the closing event has been polled. -/
def HostBus.owner (bus : HostBus) : Option Owner :=
  if bus.pendingDone.isSome then some .command
  else if bus.pendingWireDone.isSome then some .wire
  else bus.state.owner

/-- The lawful answers, and who owns the wire after each of them. -/
inductive Lawful : Option Owner → Seen → Option Owner → Prop where
  | accepted (asked : Owner) : Lawful none (.answered asked (.ok ())) (some asked)
  | refused (asked : Owner) (reason : InvalidReason) :
      Lawful none (.answered asked (.error (.invalid reason))) none
  | busy (asked owner : Owner) :
      Lawful (some owner) (.answered asked (.error .busy)) (some owner)
  | status (slot : Byte) (id : Id) (inst : Inst) (payload : FrameBytes) :
      Lawful (some .command) (.event (.status slot id inst payload)) (some .command)
  | done (terminal : Terminal) : Lawful (some .command) (.event (.done terminal)) none
  | wireDone (tick : UInt32) : Lawful (some .wire) (.event (.wireDone tick)) none
  | nothing (owner : Option Owner) : Lawful owner .nothing owner

/-- The event that gives the wire back. -/
def Owner.closing : Owner → Seen → Prop
  | .command, seen => ∃ terminal, seen = .event (.done terminal)
  | .wire, seen => ∃ tick, seen = .event (.wireDone tick)

/-! ## The wire -/

/-- Drive discipline: a claim takes a released wire, a release a claimed one, and
nothing is driven on a released wire. -/
def driveOp : Option Bool → Op → Option Bool
  | some false, .claim => some true
  | some true, .release => some false
  | some true, .sendBreak | some true, .send _ | some true, .holdLow => some true
  | driven, .set _ | driven, .cancel | driven, .apply _ | driven, .applyRaw _ => driven
  | _, _ => none

/-- Whether the wire is claimed after `ops`, if every one of them kept the discipline. -/
def driven (ops : List Op) : Option Bool := ops.foldl driveOp (some false)

@[simp]
theorem driven_append (ops more : List Op) :
    driven (ops ++ more) = more.foldl driveOp (driven ops) := by
  simp [driven]

@[simp]
theorem driveOp_claim : driveOp (some false) .claim = some true := rfl

@[simp]
theorem driveOp_release : driveOp (some true) .release = some false := rfl

@[simp]
theorem driveOp_sendBreak : driveOp (some true) .sendBreak = some true := rfl

@[simp]
theorem driveOp_send (span : List Byte) : driveOp (some true) (.send span) = some true := rfl

@[simp]
theorem driveOp_holdLow : driveOp (some true) .holdLow = some true := rfl

/-- The compare and the UART rate do not touch the wire. -/
@[simp]
theorem driveOp_other (held : Option Bool) {op : Op}
    (h : op = .cancel ∨ (∃ tick, op = .set tick) ∨ (∃ rate, op = .apply rate) ∨
      ∃ bps, op = .applyRaw bps) : driveOp held op = held := by
  obtain rfl | ⟨tick, rfl⟩ | ⟨rate, rfl⟩ | ⟨bps, rfl⟩ := h <;> rcases held with _ | _ | _ <;> rfl

/-! ## Progress -/

def trainRank (left : Byte) : ℕ := max left.toNat 1 + 1

/-- How many awaited calls the outstanding operation still takes at most. -/
def HostBus.rank (bus : HostBus) : ℕ :=
  let sending := 1 + ((bus.plan.bind Shape.train).elim 1 fun train => trainRank (train.2 + 1))
  match bus.state with
  | .idle | .rescueHold | .awaiting | .wirePulse => 1
  | .pacing => 1 + sending
  | .transmitting => sending
  | .training left _ | .wireTrain left _ => trainRank left
  | .wireTx =>
      bus.wireJob.train.elim (2 + (bus.wireJob.bytes.length - bus.wireJob.cursor))
        fun train => 1 + trainRank train.1

/-- The call the operation waits for: the callback of its phase, a poll once the
compare is due, and for a reply a poll of a wire that has shown nothing new. -/
def HostBus.awaited (bus : HostBus) (input : Inputs × Call) : Bool :=
  let due := tickReached input.1.now bus.deadlineAt
  let quiet := input.1.cursor == bus.lastCursor &&
    decide ((bus.framer.step input.1.ring input.1.cursor.toNat).1 ∈ [Step.idle, .parked])
  match input.2 with
  | .poll =>
      bus.pendingDone.isSome || bus.pendingWireDone.isSome ||
        (match bus.state with
        | .pacing | .rescueHold | .wirePulse => due
        | .awaiting => due && quiet
        | _ => false)
  | .txComplete => bus.state == .transmitting || bus.state == .wireTx
  | .deadline =>
      match bus.state with
      | .training _ _ | .wireTrain _ _ => true
      | _ => false
  | _ => false

end OpenServo.Host
