import OpenServo.Core.Ticks
import OpenServo.Core.Transition
import OpenServo.Host.ExactlyOnce

/-!
# Enforced silence

After garble evidence, a rescue or a rate change the engine keeps off the wire for one
starve horizon.  The end of that silence is stored as a tick and met by the next exchange,
however long after: no exchange starts early, but the comparison reads half of the clock's
range as the past, so past that half a pace long over is waited for again.
-/

namespace OpenServo.Host

open Transition

/-! ## What calls for silence -/

namespace HostBus

variable {bus : HostBus} {inp : Inputs}

/-- The call accepts an exchange. -/
def accepts (bus : HostBus) : Call → Bool
  | .submit (.exchange id inst payload) => bus.ready && (Shape.derive id inst payload).toBool
  | _ => false

/-- The terminal a call forms, taken by the call itself or left for a later poll. -/
def formed (bus : HostBus) (out : Seen × HostBus) : Option Terminal :=
  if bus.pendingDone.isSome then none
  else
    match out.1 with
    | .event (.done terminal) => some terminal
    | _ => out.2.pendingDone

/-- The rate changes: HOST_BAUD, a raw rate, the end of a rescue. -/
def retunes (bus : HostBus) (call : Call) (out : Seen × HostBus) : Bool :=
  match call, out.1 with
  | .submit (.hostBaud _), .answered _ (.ok ()) => true
  | .wire (.baud _), .answered _ (.ok ()) => true
  | .poll, _ => bus.state == .rescueHold && out.2.state != .rescueHold
  | _, _ => false

/-- The call calls for silence: a terminal with garble evidence, a rescue or a rate change. -/
def silences (bus : HostBus) (call : Call) (out : Seen × HostBus) : Bool :=
  (bus.formed out).any (fun terminal => 0 < terminal.evidence.garble) || bus.retunes call out

/-! ## One call -/

/-- What a call can do to the pace. -/
inductive PaceStep (bus : HostBus) (inp : Inputs) : Bool → Bool → HostBus → Prop where
  /-- Silence is called for, and the pace set at the rate in force. -/
  | paced {bus' : HostBus} (state : bus'.state = .idle)
      (pace : bus'.paceUntil =
        some (inp.now + starveHorizonByteTimes * bus'.byteTicks inp)) :
      PaceStep bus inp false true bus'
  /-- An exchange is accepted and starts, or waits for the pace. -/
  | opened {bus' : HostBus} (idle : bus.state = .idle) (rate : bus'.rate = bus.rate)
      (pace : bus'.paceUntil = none)
      (state : (bus'.state = .transmitting ∧
          ∀ tick, bus.paceUntil = some tick → tickReached inp.now tick = true) ∨
        (bus'.state = .pacing ∧ bus.paceUntil = some bus'.deadlineAt ∧
          tickReached inp.now bus'.deadlineAt = false)) :
      PaceStep bus inp true false bus'
  /-- The pace an exchange waits for is over. -/
  | started {bus' : HostBus} (pacing : bus.state = .pacing)
      (due : tickReached inp.now bus.deadlineAt = true) (state : bus'.state = .transmitting)
      (rate : bus'.rate = bus.rate) (pace : bus'.paceUntil = bus.paceUntil) :
      PaceStep bus inp false false bus'
  | kept {bus' : HostBus} (rate : bus'.rate = bus.rate) (pace : bus'.paceUntil = bus.paceUntil)
      (transmitting : bus'.state = .transmitting → bus.state = .transmitting)
      (pacing : bus'.state = .pacing ↔ bus.state = .pacing)
      (deadline : bus'.state = .pacing → bus'.deadlineAt = bus.deadlineAt) :
      PaceStep bus inp false false bus'

theorem PaceStep.refl (inp : Inputs) : PaceStep bus inp false false bus :=
  .kept rfl rfl id Iff.rfl fun _ => rfl

/-- The command is over: the engine is idle, and paced on garble evidence. -/
structure Closes (bus : HostBus) (inp : Inputs) (terminal : Terminal) (bus' : HostBus) :
    Prop where
  state : bus'.state = .idle
  rate : bus'.rate = bus.rate
  pace : bus'.paceUntil =
    if 0 < terminal.evidence.garble then
      some (inp.now + starveHorizonByteTimes * bus.byteTicks inp)
    else bus.paceUntil

theorem closes_finish (bus : HostBus) (inp : Inputs) (outcome : Outcome) :
    Closes bus inp ⟨outcome, inp.now, bus.evidence⟩ (bus.finish inp outcome) := by
  rw [finish]
  by_cases hgarble : 0 < bus.evidence.garble
  · rw [if_pos hgarble]
    exact ⟨rfl, rfl, by rw [if_pos hgarble]; rfl⟩
  · rw [if_neg hgarble]
    exact ⟨rfl, rfl, by rw [if_neg hgarble]⟩

theorem terminal_finish (bus : HostBus) (inp : Inputs) (outcome : Outcome) :
    (bus.finish inp outcome).pendingDone = some ⟨outcome, inp.now, bus.evidence⟩ := by
  rw [finish]
  split <;> rfl

theorem PaceStep.of_closes {terminal : Terminal} {bus' : HostBus}
    (h : Closes bus inp terminal bus') (hpacing : bus.state ≠ .pacing) :
    PaceStep bus inp false (decide (0 < terminal.evidence.garble)) bus' := by
  have hpace := h.pace
  by_cases hgarble : 0 < terminal.evidence.garble
  · rw [if_pos hgarble] at hpace
    rw [decide_eq_true hgarble]
    refine .paced h.state ?_
    rw [hpace, byteTicks, byteTicks, h.rate]
  · rw [if_neg hgarble] at hpace
    rw [decide_eq_false hgarble]
    refine .kept h.rate hpace (fun hstate => ?_) ?_ (fun hstate => ?_)
    · rw [h.state] at hstate
      cases hstate
    · rw [h.state]
      exact iff_of_false (fun hstate => by cases hstate) hpacing
    · rw [h.state] at hstate
      cases hstate

/-- Nothing is called for by a call that forms no terminal and leaves the rate alone. -/
theorem silences_of_quiet {call : Call} {out : Seen × HostBus} (hformed : bus.formed out = none)
    (hretunes : bus.retunes call out = false) : bus.silences call out = false := by
  rw [silences, hformed, hretunes]
  rfl

theorem silences_of_formed {call : Call} {out : Seen × HostBus} {terminal : Terminal}
    (hformed : bus.formed out = some terminal) (hretunes : bus.retunes call out = false) :
    bus.silences call out = decide (0 < terminal.evidence.garble) := by
  rw [silences, hformed, hretunes, Bool.or_false]
  rfl

/-- No event of the call is a terminal, and none waits behind it that did not before. -/
theorem formed_of_pending {seen : Seen} {bus' : HostBus} (hdone : bus.pendingDone = none)
    (hseen : ∀ terminal, seen ≠ .event (.done terminal)) :
    bus.formed (seen, bus') = bus'.pendingDone := by
  rw [formed, hdone]
  cases seen with
  | event event =>
      cases event with
      | done terminal => exact absurd rfl (hseen terminal)
      | status | wireDone => rfl
  | answered | nothing => rfl

/-- A call that leaves the pending terminal as it is and yields none forms none. -/
theorem formed_of_same {seen : Seen} {bus' : HostBus} (hsame : bus'.pendingDone = bus.pendingDone)
    (hseen : ∀ terminal, seen ≠ .event (.done terminal)) : bus.formed (seen, bus') = none := by
  cases hdone : bus.pendingDone with
  | some terminal => rw [formed, hdone]; rfl
  | none => rw [formed_of_pending hdone hseen, hsame, hdone]

/-- A poll that yields the terminal. -/
theorem formed_of_taken {terminal : Terminal} (hdone : bus.pendingDone = none) (bus' : HostBus) :
    bus.formed (.event (.done terminal), bus') = some terminal := by
  rw [formed, hdone]
  rfl

theorem status_ne_done (slot : Byte) (id : Id) (inst : Inst) (payload : FrameBytes)
    (terminal : Terminal) :
    Seen.event (.status slot id inst payload) ≠ .event (.done terminal) := fun h => by cases h

theorem answered_ne_done (asked : Owner) (answer : Except SubmitError Unit) (terminal : Terminal) :
    Seen.answered asked answer ≠ .event (.done terminal) := fun h => by cases h

/-- A call that is refused, or begins an operation that is not an exchange. -/
theorem PaceStep.of_begun {call : Call} {asked : Owner} {answer : Except SubmitError Unit}
    {bus' : HostBus} (haccepts : bus.accepts call = false)
    (hretunes : bus.retunes call (.answered asked answer, bus') = false)
    (hdone : bus'.pendingDone = bus.pendingDone) (hrate : bus'.rate = bus.rate)
    (hpace : bus'.paceUntil = bus.paceUntil)
    (hstate : bus' = bus ∨ bus.state = .idle ∧ bus'.state ≠ .transmitting ∧ bus'.state ≠ .pacing) :
    PaceStep bus inp (bus.accepts call) (bus.silences call (.answered asked answer, bus'))
      bus' := by
  rw [haccepts, silences_of_quiet (formed_of_same hdone (answered_ne_done asked answer)) hretunes]
  obtain rfl | ⟨hidle, htransmitting, hpacing⟩ := hstate
  · exact .refl inp
  · refine .kept hrate hpace (fun h => absurd h htransmitting) (iff_of_false hpacing ?_)
      fun h => absurd h hpacing
    rw [hidle]
    exact fun h => by cases h

theorem Closes.congr {before bus' : HostBus} {terminal : Terminal}
    (h : Closes before inp terminal bus') (hrate : before.rate = bus.rate)
    (hpace : before.paceUntil = bus.paceUntil) : Closes bus inp terminal bus' where
  state := h.state
  rate := h.rate.trans hrate
  pace := by rw [h.pace, hpace, byteTicks, byteTicks, hrate]

/-- A call that ends the command. -/
theorem PaceStep.of_ended {call : Call} {out : Seen × HostBus} {terminal : Terminal}
    (hcloses : Closes bus inp terminal out.2) (hpacing : bus.state ≠ .pacing)
    (hformed : bus.formed out = some terminal) (haccepts : bus.accepts call = false)
    (hretunes : bus.retunes call out = false) :
    PaceStep bus inp (bus.accepts call) (bus.silences call out) out.2 := by
  rw [haccepts, silences_of_formed hformed hretunes]
  exact .of_closes hcloses hpacing

/-- A call that changes the rate. -/
theorem PaceStep.of_retuned {call : Call} {out : Seen × HostBus} (hstate : out.2.state = .idle)
    (hpace : out.2.paceUntil =
      some (inp.now + starveHorizonByteTimes * out.2.byteTicks inp))
    (haccepts : bus.accepts call = false) (hretunes : bus.retunes call out = true) :
    PaceStep bus inp (bus.accepts call) (bus.silences call out) out.2 := by
  rw [haccepts, silences, hretunes, Bool.or_true]
  exact .paced hstate hpace

/-- An exchange is accepted. -/
theorem PaceStep.of_opened {call : Call} {asked : Owner} {answer : Except SubmitError Unit}
    {bus' : HostBus} (hidle : bus.state = .idle) (hdone : bus'.pendingDone = bus.pendingDone)
    (hrate : bus'.rate = bus.rate) (hpace : bus'.paceUntil = none)
    (hretunes : bus.retunes call (.answered asked answer, bus') = false)
    (hstate : (bus'.state = .transmitting ∧
        ∀ tick, bus.paceUntil = some tick → tickReached inp.now tick = true) ∨
      (bus'.state = .pacing ∧ bus.paceUntil = some bus'.deadlineAt ∧
        tickReached inp.now bus'.deadlineAt = false)) :
    PaceStep bus inp true (bus.silences call (.answered asked answer, bus')) bus' := by
  rw [silences_of_quiet (formed_of_same hdone (answered_ne_done _ _)) hretunes]
  exact .opened hidle hrate hpace hstate

theorem idle_of_ready (h : bus.ready = true) : bus.state = .idle ∧ bus.pendingDone = none := by
  simp only [ready, Bool.and_eq_true, beq_iff_eq, Option.isNone_iff_eq_none] at h
  exact h.1

theorem call_submit_busy (hready : bus.ready = false) (cmd : Command) :
    bus.call inp (.submit cmd) = (.answered .command (.error .busy), bus) := by
  simp only [call, submit, hready, Bool.not_false, if_true, Prod.map, id]

theorem call_wire_busy (hready : bus.ready = false) (op : WireOp) :
    bus.call inp (.wire op) = (.answered .wire (.error .busy), bus) := by
  cases op <;> simp only [call, wireOp, wireSend, wireBurst, wirePulseLow, wireTrain,
    wireBaud, hready, Bool.not_false, if_true, Prod.map, id]

theorem paceStep_submit (inp : Inputs) (cmd : Command) :
    PaceStep bus inp (bus.accepts (.submit cmd))
      (bus.silences (.submit cmd) (bus.call inp (.submit cmd)))
      (bus.call inp (.submit cmd)).2 := by
  cases hready : bus.ready with
  | false =>
      have haccepts : bus.accepts (.submit cmd) = false := by
        cases cmd <;> simp only [accepts, hready, Bool.false_and]
      rw [call_submit_busy hready]
      refine .of_begun haccepts ?_ rfl rfl rfl (.inl rfl)
      cases cmd <;> rfl
  | true =>
      obtain ⟨hidle, hdone⟩ := idle_of_ready hready
      have hpacing : bus.state ≠ .pacing := fun h => by rw [hidle] at h; cases h
      simp only [call, submit, hready, Bool.not_true, Bool.false_eq_true, if_false]
      cases cmd with
      | setResponseDeadline us =>
          have hcloses : Closes bus inp _ _ := (closes_finish { bus with
            evidence := .default, responseDeadlineUs := us } inp .complete).congr rfl rfl
          exact .of_ended hcloses hpacing
            (formed_of_pending hdone (answered_ne_done _ _)) rfl rfl
      | hostBaud rate => exact .of_retuned rfl rfl rfl rfl
      | rescue =>
          exact .of_begun rfl rfl rfl rfl rfl
            (.inr ⟨hidle, (fun h => by cases h), fun h => by cases h⟩)
      | exchange id inst payload =>
          cases hderive : Shape.derive id inst payload with
          | error reason =>
              have haccepts : bus.accepts (.submit (.exchange id inst payload)) = false := by
                rw [accepts, hderive, Except.toBool, Bool.and_false]
              simp only [hderive]
              exact .of_begun haccepts rfl rfl rfl rfl
                (.inr ⟨hidle, (fun h => by change bus.state = _ at h; rw [hidle] at h; cases h),
                  hpacing⟩)
          | ok plan =>
              have haccepts : bus.accepts (.submit (.exchange id inst payload)) = true := by
                rw [accepts, hderive, hready]
                rfl
              simp only [hderive, haccepts]
              cases hquiet : bus.paceUntil with
              | none =>
                  refine .of_opened hidle rfl rfl rfl rfl (.inl ⟨rfl, fun tick htick => ?_⟩)
                  rw [hquiet] at htick
                  cases htick
              | some tick =>
                  dsimp only
                  cases hreached : tickReached inp.now tick with
                  | true =>
                      refine .of_opened hidle rfl rfl rfl rfl (.inl ⟨rfl, fun tick' htick => ?_⟩)
                      rw [hquiet] at htick
                      obtain rfl := Option.some.inj htick
                      exact hreached
                  | false =>
                      exact .of_opened hidle rfl rfl rfl rfl (.inr ⟨rfl, hquiet, hreached⟩)

theorem paceStep_wire (inp : Inputs) (op : WireOp) :
    PaceStep bus inp (bus.accepts (.wire op)) (bus.silences (.wire op) (bus.call inp (.wire op)))
      (bus.call inp (.wire op)).2 := by
  cases hready : bus.ready with
  | false =>
      rw [call_wire_busy hready]
      refine .of_begun rfl ?_ rfl rfl rfl (.inl rfl)
      cases op <;> rfl
  | true =>
      obtain ⟨hidle, hdone⟩ := idle_of_ready hready
      simp only [call, wireOp]
      cases op with
      | send bytes =>
          simp only [wireSend, hready, Bool.not_true, Bool.false_eq_true, if_false]
          split
          · exact .of_begun rfl rfl rfl rfl rfl (.inl rfl)
          · split
            · exact .of_begun rfl rfl rfl rfl rfl (.inl rfl)
            · exact .of_begun rfl rfl rfl rfl rfl
                (.inr ⟨hidle, (fun h => by cases h), fun h => by cases h⟩)
      | burst stream =>
          simp only [wireBurst, hready, Bool.not_true, Bool.false_eq_true, if_false]
          split
          · exact .of_begun rfl rfl rfl rfl rfl (.inl rfl)
          · split
            · exact .of_begun rfl rfl rfl rfl rfl (.inl rfl)
            · split
              · exact .of_begun rfl rfl rfl rfl rfl (.inl rfl)
              · exact .of_begun rfl rfl rfl rfl rfl
                  (.inr ⟨hidle, (fun h => by cases h), fun h => by cases h⟩)
      | pulse us =>
          simp only [wirePulseLow, hready, Bool.not_true, Bool.false_eq_true, if_false]
          split
          · exact .of_begun rfl rfl rfl rfl rfl (.inl rfl)
          · exact .of_begun rfl rfl rfl rfl rfl
              (.inr ⟨hidle, (fun h => by cases h), fun h => by cases h⟩)
      | train announce gapUs breaks =>
          simp only [wireTrain, hready, Bool.not_true, Bool.false_eq_true, if_false]
          split
          · exact .of_begun rfl rfl rfl rfl rfl (.inl rfl)
          · split
            · exact .of_begun rfl rfl rfl rfl rfl (.inl rfl)
            · exact .of_begun rfl rfl rfl rfl rfl
                (.inr ⟨hidle, (fun h => by cases h), fun h => by cases h⟩)
      | baud bps =>
          simp only [wireBaud, hready, Bool.not_true, Bool.false_eq_true, if_false]
          split
          · exact .of_begun rfl rfl rfl rfl rfl (.inl rfl)
          · exact .of_retuned hidle rfl rfl rfl

theorem nothing_ne_done (terminal : Terminal) : Seen.nothing ≠ .event (.done terminal) :=
  fun h => by cases h

/-- A callback that ends the command. -/
theorem PaceStep.of_finished {call : Call} {before : HostBus} (outcome : Outcome)
    (hdone : bus.pendingDone = none) (hpacing : bus.state ≠ .pacing)
    (hrate : before.rate = bus.rate) (hpace : before.paceUntil = bus.paceUntil)
    (haccepts : bus.accepts call = false)
    (hretunes : bus.retunes call (.nothing, before.finish inp outcome) = false) :
    PaceStep bus inp (bus.accepts call)
      (bus.silences call (.nothing, before.finish inp outcome)) (before.finish inp outcome) :=
  @PaceStep.of_ended bus inp call (.nothing, before.finish inp outcome) _
    ((closes_finish before inp outcome).congr hrate hpace) hpacing
    ((formed_of_pending hdone nothing_ne_done).trans (terminal_finish before inp outcome)) haccepts
    hretunes

/-- A callback that ends nothing. -/
theorem PaceStep.of_nothing {call : Call} {bus' : HostBus} (haccepts : bus.accepts call = false)
    (hretunes : bus.retunes call (.nothing, bus') = false)
    (hdone : bus'.pendingDone = bus.pendingDone) (hrate : bus'.rate = bus.rate)
    (hpace : bus'.paceUntil = bus.paceUntil) (hpacing : bus.state ≠ .pacing)
    (hstate : bus'.state ≠ .transmitting ∧ bus'.state ≠ .pacing) :
    PaceStep bus inp (bus.accepts call) (bus.silences call (.nothing, bus')) bus' := by
  rw [haccepts, silences_of_quiet (formed_of_same hdone nothing_ne_done) hretunes]
  exact .kept hrate hpace (fun h => absurd h hstate.1) (iff_of_false hstate.2 hpacing)
    fun h => absurd h hstate.2

theorem PaceStep.of_nothing_moved {call : Call} (haccepts : bus.accepts call = false)
    (hretunes : bus.retunes call (.nothing, bus) = false) :
    PaceStep bus inp (bus.accepts call) (bus.silences call (.nothing, bus)) bus := by
  rw [haccepts, silences_of_quiet (formed_of_same rfl nothing_ne_done) hretunes]
  exact .refl inp

theorem paceStep_txComplete (h : bus.Sound) (inp : Inputs) :
    PaceStep bus inp (bus.accepts .txComplete)
      (bus.silences .txComplete (bus.call inp .txComplete)) (bus.call inp .txComplete).2 := by
  simp only [call, onTxComplete]
  split
  · rename_i hstate
    have hpacing : bus.state ≠ .pacing := fun h => by rw [hstate] at h; cases h
    simp only [wireAdvance]
    split
    · exact .of_nothing rfl rfl rfl rfl rfl hpacing ⟨(fun h => by cases h), fun h => by cases h⟩
    · split
      · refine .of_nothing rfl rfl rfl rfl rfl hpacing ⟨fun h => ?_, fun h => ?_⟩
        all_goals
          change bus.state = _ at h
          rw [hstate] at h
          cases h
      · exact .of_nothing rfl rfl rfl rfl rfl hpacing ⟨(fun h => by cases h), fun h => by cases h⟩
  · rename_i hstate
    have hpacing : bus.state ≠ .pacing := fun h => by rw [hstate] at h; cases h
    have hdone := (h.alone fun h => by rw [hstate] at h; cases h).1
    split
    · exact .of_finished .sent hdone hpacing rfl rfl rfl rfl
    · split
      · exact .of_nothing rfl rfl rfl rfl rfl hpacing ⟨(fun h => by cases h), fun h => by cases h⟩
      · split
        · exact .of_finished .sent hdone hpacing rfl rfl rfl rfl
        · exact .of_nothing rfl rfl rfl rfl rfl hpacing ⟨(fun h => by cases h), fun h => by cases h⟩
  · exact .of_nothing_moved rfl rfl

theorem paceStep_deadline (h : bus.Sound) (inp : Inputs) :
    PaceStep bus inp (bus.accepts .deadline)
      (bus.silences .deadline (bus.call inp .deadline)) (bus.call inp .deadline).2 := by
  simp only [call, onDeadline]
  split
  · rename_i hstate
    have hpacing : bus.state ≠ .pacing := fun h => by rw [hstate] at h; cases h
    have hdone := (h.alone fun h => by rw [hstate] at h; cases h).1
    simp only [trainBreak]
    split
    · exact .of_finished .sent hdone hpacing rfl rfl rfl rfl
    · exact .of_nothing rfl rfl rfl rfl rfl hpacing ⟨(fun h => by cases h), fun h => by cases h⟩
  · rename_i hstate
    have hpacing : bus.state ≠ .pacing := fun h => by rw [hstate] at h; cases h
    simp only [trainBreak]
    split
    · exact .of_nothing rfl rfl rfl rfl rfl hpacing ⟨(fun h => by cases h), fun h => by cases h⟩
    · exact .of_nothing rfl rfl rfl rfl rfl hpacing ⟨(fun h => by cases h), fun h => by cases h⟩
  · exact .of_nothing_moved rfl rfl

/-! ## Polling -/

/-- What the walk of an awaiting engine leaves alone. -/
structure Walks (bus bus' : HostBus) : Prop where
  state : bus'.state = bus.state
  rate : bus'.rate = bus.rate
  pace : bus'.paceUntil = bus.paceUntil
  done : bus'.pendingDone = bus.pendingDone
  plan : bus'.plan = bus.plan

theorem Walks.refl (bus : HostBus) : Walks bus bus := ⟨rfl, rfl, rfl, rfl, rfl⟩

theorem Walks.trans {bus' last : HostBus} (hfirst : Walks bus bus') (hnext : Walks bus' last) :
    Walks bus last where
  state := hnext.state.trans hfirst.state
  rate := hnext.rate.trans hfirst.rate
  pace := hnext.pace.trans hfirst.pace
  done := hnext.done.trans hfirst.done
  plan := hnext.plan.trans hfirst.plan

/-- A status event leaves the command open, or closes it. -/
inductive StatusStep (bus : HostBus) (inp : Inputs) : HostBus → Prop where
  | streams {bus' : HostBus} (walks : Walks bus bus') : StatusStep bus inp bus'
  | closed {terminal : Terminal} {bus' : HostBus} (closes : Closes bus inp terminal bus')
      (done : bus'.pendingDone = some terminal) : StatusStep bus inp bus'

theorem statusStep_onStatus (expected : Option Byte) (frame : Frame) :
    StatusStep bus inp (bus.onStatus inp expected frame).2 := by
  simp only [onStatus]
  split
  · obtain ⟨evidence, hfold⟩ := @foldUnresolved_eq
      { ({ bus with
        got := Security.saturatingSucc8 bus.got
        evidence.statuses := Security.saturatingSucc8 bus.evidence.statuses
        evidence.garbleAfterLastFrame := false }).emit .cancel with state := .idle } inp
    rw [hfold]
    by_cases hgarble : 0 < evidence.garble
    · rw [if_pos hgarble]
      exact @StatusStep.closed _ _ ⟨.complete, inp.now, evidence⟩ _
        ⟨rfl, rfl, (if_pos hgarble).symm⟩ rfl
    · rw [if_neg hgarble]
      exact @StatusStep.closed _ _ ⟨.complete, inp.now, evidence⟩ _
        ⟨rfl, rfl, (if_neg hgarble).symm⟩ rfl
  · exact .streams ⟨rfl, rfl, rfl, rfl, rfl⟩

/-- The walk of an awaiting engine stops at a status, or finds none. -/
structure Walked (bus : HostBus) (inp : Inputs) (out : Option Event × HostBus) : Prop where
  cases : (out.1 = none ∧ Walks bus out.2) ∨
    ((∃ slot id inst payload, out.1 = some (.status slot id inst payload)) ∧
      ∃ before, Walks bus before ∧ StatusStep before inp out.2)

theorem Walked.after {before : HostBus} {out : Option Event × HostBus} (hwalks : Walks bus before)
    (h : Walked before inp out) : Walked bus inp out := by
  obtain ⟨⟨hnone, hrest⟩ | ⟨hstatus, last, hrest, hstep⟩⟩ := h
  · exact ⟨.inl ⟨hnone, hwalks.trans hrest⟩⟩
  · exact ⟨.inr ⟨hstatus, last, hwalks.trans hrest, hstep⟩⟩

theorem walked_awaitWalk (expected : Option Byte) (fuel : ℕ) (bus : HostBus) :
    Walked bus inp (awaitWalk inp expected fuel bus) := by
  induction fuel generalizing bus with
  | zero => exact ⟨.inl ⟨rfl, .refl bus⟩⟩
  | succ fuel ih =>
      have hmoved : ∀ framer, Walks bus { bus with framer } :=
        fun framer => ⟨rfl, rfl, rfl, rfl, rfl⟩
      have hcounted : ∀ (before : HostBus) (bytes : ℕ),
          Walks before ((before.addGarble bytes).rearm inp) :=
        fun before bytes => ⟨rfl, rfl, rfl, rfl, rfl⟩
      rw [awaitWalk]
      split
      · rename_i frame framer _
        split
        · exact ⟨.inr ⟨⟨_, _, _, _, rfl⟩, _, hmoved framer, statusStep_onStatus expected frame⟩⟩
        · exact (ih _).after ((hmoved framer).trans (hcounted _ _))
      · exact (ih _).after ((hmoved _).trans (hcounted _ _))
      · exact ⟨.inl ⟨rfl, hmoved _⟩⟩
      · exact ⟨.inl ⟨rfl, hmoved _⟩⟩

/-- A poll in a state that is not a rescue changes no rate. -/
theorem retunes_poll {out : Seen × HostBus}
    (h : bus.state ≠ .rescueHold ∨ out.2.state = bus.state) :
    bus.retunes .poll out = false := by
  rw [retunes]
  obtain hstate | hsame := h
  · rw [beq_eq_false_iff_ne.mpr hstate, Bool.false_and]
  · rw [hsame]
    cases bus.state <;> rfl

/-- A poll that moves nothing but what it yields. -/
theorem PaceStep.of_yielded {seen : Seen} {bus' : HostBus}
    (hformed : bus.formed (seen, bus') = none)
    (hrate : bus'.rate = bus.rate) (hpace : bus'.paceUntil = bus.paceUntil)
    (hstate : bus'.state = bus.state)
    (hdeadline : bus'.state = .pacing → bus'.deadlineAt = bus.deadlineAt) :
    PaceStep bus inp (bus.accepts .poll) (bus.silences .poll (seen, bus')) bus' := by
  rw [silences_of_quiet hformed (retunes_poll (.inr hstate))]
  exact .kept hrate hpace (fun h => hstate.symm.trans h) (by rw [hstate]) hdeadline

/-- The events of a walk are statuses. -/
theorem polled_ne_done {out : Option Event × HostBus}
    (h : out.1 = none ∨ ∃ slot id inst payload, out.1 = some (.status slot id inst payload))
    (terminal : Terminal) : (polled out).1 ≠ .event (.done terminal) := by
  rw [polled]
  obtain hnone | ⟨slot, id, inst, payload, hstatus⟩ := h
  · rw [hnone]
    exact fun h => by cases h
  · rw [hstatus]
    exact fun h => by cases h

theorem closes_expire (bus : HostBus) (inp : Inputs) (replies : Replies) :
    Closes bus inp ⟨if replies = .collect then .complete else .timeout
        ((bus.emit .cancel).foldUnresolved inp).got, inp.now,
        ((bus.emit .cancel).foldUnresolved inp).evidence⟩ (bus.expire inp replies) := by
  obtain ⟨evidence, hfold⟩ := @foldUnresolved_eq (bus.emit .cancel) inp
  rw [expire, hfold]
  exact (closes_finish _ inp _).congr rfl rfl

theorem take_silent (hdone : bus.pendingDone = none) : polled bus.takeDone = (.nothing, bus) := by
  have hsame : ({ bus with pendingDone := none } : HostBus) = bus := by rw [← hdone]
  rw [polled, takeDone, hdone, hsame]
  rfl

theorem take_terminal {terminal : Terminal} (hdone : bus.pendingDone = some terminal) :
    polled bus.takeDone = (.event (.done terminal), { bus with pendingDone := none }) := by
  rw [polled, takeDone, hdone]
  rfl

/-- A poll that ends the command and yields its terminal. -/
theorem PaceStep.of_taken {before : HostBus} {terminal : Terminal} (hdone : bus.pendingDone = none)
    (hcloses : Closes bus inp terminal before) (hterminal : before.pendingDone = some terminal)
    (hpacing : bus.state ≠ .pacing)
    (hretunes : bus.retunes .poll (polled before.takeDone) = false) :
    PaceStep bus inp (bus.accepts .poll) (bus.silences .poll (polled before.takeDone))
      before.takeDone.2 := by
  have htaken := take_terminal hterminal
  have hformed : bus.formed (polled before.takeDone) = some terminal := by
    rw [htaken]
    exact formed_of_taken hdone _
  exact @PaceStep.of_ended bus inp .poll (polled before.takeDone) _
    ⟨hcloses.state, hcloses.rate, hcloses.pace⟩ hpacing hformed rfl hretunes

theorem paceStep_pollAwait (hstate : bus.state = .awaiting) (hdone : bus.pendingDone = none)
    (inp : Inputs) :
    PaceStep bus inp (bus.accepts .poll) (bus.silences .poll (polled (bus.pollAwait inp)))
      (bus.pollAwait inp).2 := by
  have hpacing : bus.state ≠ .pacing := fun h => by rw [hstate] at h; cases h
  have hrescue : bus.state ≠ .rescueHold := fun h => by rw [hstate] at h; cases h
  rw [pollAwait]
  split
  · exact .of_yielded (formed_of_same rfl nothing_ne_done) rfl rfl rfl fun _ => rfl
  · rename_i plan hplan
    dsimp only
    generalize unresolved bus.framer.anchor inp.cursor.toNat inp.ring.length + 1 = fuel
    have hwalk : Walked bus inp (awaitWalk inp (expectedReplies plan.replies) fuel bus) :=
      walked_awaitWalk _ fuel bus
    generalize awaitWalk inp (expectedReplies plan.replies) fuel bus = out at hwalk
    obtain ⟨event, walked⟩ := out
    obtain ⟨rfl, hwalks⟩ | ⟨⟨slot, id, inst, payload, rfl⟩, before, hwalks, hstep⟩ := hwalk.cases
    · have hquiet : ∀ last : HostBus, last.pendingDone = bus.pendingDone → last.rate = bus.rate →
          last.paceUntil = bus.paceUntil → last.state = bus.state →
            PaceStep bus inp (bus.accepts .poll) (bus.silences .poll (polled last.takeDone))
              last.takeDone.2 := by
        intro last hlast hrate hpace hsame
        have htaken := take_silent (hlast.trans hdone)
        rw [htaken, show last.takeDone.2 = last from congrArg Prod.snd htaken]
        exact .of_yielded (formed_of_same hlast nothing_ne_done) hrate hpace hsame fun h =>
          absurd (hsame.symm.trans h) hpacing
      dsimp only
      split
      · exact hquiet _ hwalks.done hwalks.rate hwalks.pace hwalks.state
      · split
        · exact .of_taken hdone ((closes_expire _ inp plan.replies).congr hwalks.rate hwalks.pace)
            (terminal_finish _ inp _) hpacing (retunes_poll (.inl hrescue))
        · exact hquiet _ hwalks.done hwalks.rate hwalks.pace hwalks.state
    · have hyields : ∀ terminal, (polled (some (Event.status slot id inst payload), walked)).1 ≠
          .event (.done terminal) := polled_ne_done (.inr ⟨_, _, _, _, rfl⟩)
      cases hstep with
      | streams hstreams =>
          have hall := hwalks.trans hstreams
          exact .of_yielded (formed_of_same hall.done hyields) hall.rate hall.pace hall.state
            fun h => absurd (hall.state.symm.trans h) hpacing
      | closed hcloses hterminal =>
          exact .of_ended (hcloses.congr hwalks.rate hwalks.pace) hpacing
            ((formed_of_pending hdone hyields).trans hterminal) rfl (retunes_poll (.inl hrescue))

/-- A poll with nothing to yield. -/
theorem take_nothing (hdone : bus.pendingDone = none) (hwire : bus.pendingWireDone = none) :
    polled (if bus.pendingWireDone.isSome then bus.takeWireDone else bus.takeDone) =
      (.nothing, bus) := by
  rw [if_neg (by rw [hwire]; exact Bool.false_ne_true), take_silent hdone]

theorem PaceStep.of_waiting {bus' : HostBus} (hdone : bus.pendingDone = none)
    (hdone' : bus'.pendingDone = none) (hwire : bus'.pendingWireDone = none)
    (hstep : PaceStep bus inp false false bus')
    (hretunes : bus.retunes .poll (.nothing, bus') = false) :
    PaceStep bus inp (bus.accepts .poll)
      (bus.silences .poll
        (polled (if bus'.pendingWireDone.isSome then bus'.takeWireDone else bus'.takeDone)))
      (polled (if bus'.pendingWireDone.isSome then bus'.takeWireDone else bus'.takeDone)).2 := by
  rw [take_nothing hdone' hwire,
    silences_of_quiet (formed_of_same (hdone'.trans hdone.symm) nothing_ne_done) hretunes]
  exact hstep

/-- A poll of a state that only waits for its compare. -/
theorem paceStep_pollDue (hdone : bus.pendingDone = none) (hwire : bus.pendingWireDone = none)
    (inp : Inputs) :
    PaceStep bus inp (bus.accepts .poll)
      (bus.silences .poll (polled (if (bus.pollDue inp).pendingWireDone.isSome then
        (bus.pollDue inp).takeWireDone else (bus.pollDue inp).takeDone)))
      (polled (if (bus.pollDue inp).pendingWireDone.isSome then
        (bus.pollDue inp).takeWireDone else (bus.pollDue inp).takeDone)).2 := by
  have hsame := PaceStep.of_waiting hdone hdone hwire (.refl inp) (retunes_poll (.inr rfl))
  cases hstate : bus.state with
  | pacing =>
      simp only [pollDue, hstate]
      split
      · rename_i hdue
        refine .of_waiting hdone hdone hwire (.started hstate hdue rfl rfl rfl)
          (retunes_poll (.inl ?_))
        exact fun h => by rw [hstate] at h; cases h
      · exact hsame
  | rescueHold =>
      simp only [pollDue, hstate]
      split
      · rw [if_neg (by rw [finish_pendingWireDone]; simp [HostBus.pace, emit, hwire])]
        refine .of_retuned rfl ?_ rfl (by rw [retunes, hstate]; rfl)
        simp only [polled, takeDone, finish]
        split <;> rfl
      · exact hsame
  | wirePulse =>
      simp only [pollDue, hstate]
      split
      · have hformed : bus.formed (.event (.wireDone inp.now),
            (bus.wireFinish inp).takeWireDone.2) = none :=
          formed_of_same rfl fun terminal h => by cases h
        have hrescue : bus.state ≠ .rescueHold := fun h => by rw [hstate] at h; cases h
        have hquiet : bus.silences .poll (polled (bus.wireFinish inp).takeWireDone) = false :=
          silences_of_quiet hformed (retunes_poll (.inl hrescue))
        rw [if_pos (show (bus.wireFinish inp).pendingWireDone.isSome = true from rfl), hquiet]
        exact .kept rfl rfl (fun h => by cases h)
          (iff_of_false (fun h => by cases h) fun h => by rw [hstate] at h; cases h)
          fun h => by cases h
      · exact hsame
  | idle | transmitting | training | awaiting | wireTx | wireTrain =>
      simp only [pollDue, hstate]
      exact hsame

theorem paceStep_poll (inp : Inputs) :
    PaceStep bus inp (bus.accepts .poll) (bus.silences .poll (polled (bus.poll inp)))
      (bus.poll inp).2 := by
  rw [poll]
  split
  · rename_i hdone
    have hformed : bus.formed (polled bus.takeDone) = none := if_pos hdone
    exact @PaceStep.of_yielded bus inp _ bus.takeDone.2 hformed rfl rfl rfl fun _ => rfl
  · rename_i hdone
    rw [Bool.not_eq_true, Option.isSome_eq_false_iff, Option.isNone_iff_eq_none] at hdone
    split
    · rename_i hwire
      obtain ⟨tick, htick⟩ := Option.isSome_iff_exists.mp hwire
      have htaken : polled bus.takeWireDone =
          (.event (.wireDone tick), { bus with pendingWireDone := none }) := by
        rw [polled, takeWireDone, htick]
        rfl
      have hformed : bus.formed (polled bus.takeWireDone) = none := by
        rw [htaken]
        exact formed_of_same rfl fun terminal h => by cases h
      exact @PaceStep.of_yielded bus inp _ bus.takeWireDone.2 hformed rfl rfl rfl fun _ => rfl
    · rename_i hwire
      rw [Bool.not_eq_true, Option.isSome_eq_false_iff, Option.isNone_iff_eq_none] at hwire
      split
      · rename_i hstate
        exact paceStep_pollAwait hstate hdone inp
      · exact paceStep_pollDue hdone hwire inp

/-- Every call moves the pace in one of four ways. -/
theorem paceStep_call (h : bus.Sound) (inp : Inputs) (call : Call) :
    PaceStep bus inp (bus.accepts call) (bus.silences call (bus.call inp call))
      (bus.call inp call).2 := by
  cases call with
  | submit cmd => exact paceStep_submit inp cmd
  | wire op => exact paceStep_wire inp op
  | poll => exact paceStep_poll inp
  | txComplete => exact paceStep_txComplete h inp
  | deadline => exact paceStep_deadline h inp

end HostBus

/-! ## The true clock -/

/-- One call, `elapsed` ticks after the call before it. -/
structure TimedCall where
  elapsed : ℕ
  ring : List Byte
  cursor : UInt16
  call : Call

/-- What last called for silence: since when, and for how long. -/
structure Silence where
  since : ℕ
  horizon : ℕ
  deriving DecidableEq, Repr

/-- One starve horizon, 64 byte times at the rate. -/
def horizon (ticksPerUs : UInt32) (rate : BaudRate) : ℕ :=
  64 * (ticksPerUs.toNat * 10000000 / rate.asHz)

/-- The engine, the ticks that have truly gone by, and what last called for silence. -/
structure Timed where
  bus : HostBus
  clock : ℕ
  last : Option Silence

namespace Timed

variable {ticksPerUs : UInt32}

def start (rate : BaudRate) (edges : EdgeCapture) : Timed := ⟨.new rate edges, 0, none⟩

def now (s : Timed) (c : TimedCall) : ℕ := s.clock + c.elapsed

/-- The engine reads the low 32 bits of the clock. -/
def inputs (ticksPerUs : UInt32) (s : Timed) (c : TimedCall) : Inputs :=
  ⟨ticksPerUs, UInt32.ofNat (s.now c), c.ring, c.cursor⟩

def out (ticksPerUs : UInt32) (s : Timed) (c : TimedCall) : Seen × HostBus :=
  s.bus.call (s.inputs ticksPerUs c) c.call

def step (ticksPerUs : UInt32) (s : Timed) (c : TimedCall) : Timed where
  bus := (s.out ticksPerUs c).2
  clock := s.now c
  last :=
    if s.bus.silences c.call (s.out ticksPerUs c) then
      some ⟨s.now c, horizon ticksPerUs (s.out ticksPerUs c).2.rate⟩
    else s.last

/-! ## The pace and the clock -/

theorem toNat_sub_ofNat (a b : ℕ) :
    ((UInt32.ofNat a - UInt32.ofNat b).toNat : ℤ) = ((a : ℤ) - b) % 4294967296 := by
  rw [UInt32.toNat_sub, UInt32.toNat_ofNat', UInt32.toNat_ofNat']
  omega

/-- The half of the clock's range behind a tick reads as at or after it. -/
theorem tickReached_ofNat (a b : ℕ) :
    tickReached (UInt32.ofNat a) (UInt32.ofNat b) = true ↔
      ((a : ℤ) - b) % 4294967296 < 2147483647 := by
  have hsub := toNat_sub_ofNat a b
  have hhalf : (0x7FFFFFFF : UInt32).toNat = 2147483647 := rfl
  rw [tickReached, decide_eq_true_eq, UInt32.lt_iff_toNat_lt, hhalf]
  omega

theorem horizon_lt (hticks : ticksPerUs.toNat ≤ 420) (rate : BaudRate) :
    horizon ticksPerUs rate ≤ 537600 := by
  rw [horizon]
  cases rate <;> simp only [BaudRate.asHz] <;> omega

/-- The pace is computed without overflow. -/
theorem ofNat_horizon (hticks : ticksPerUs.toNat ≤ 420) (bus : HostBus) (inp : Inputs)
    (hinp : inp.ticksPerUs = ticksPerUs) (t : ℕ) :
    UInt32.ofNat t + starveHorizonByteTimes * bus.byteTicks inp =
      UInt32.ofNat (t + horizon ticksPerUs bus.rate) := by
  have hbyte : (bus.byteTicks inp).toNat = ticksPerUs.toNat * 10000000 / bus.rate.asHz := by
    have hrate : (UInt32.ofNat bus.rate.asHz).toNat = bus.rate.asHz := by
      cases bus.rate <;> rfl
    have hscaled : (ticksPerUs * 10000000).toNat = ticksPerUs.toNat * 10000000 := by
      have hscale : (10000000 : UInt32).toNat = 10000000 := rfl
      rw [UInt32.toNat_mul, hscale]
      omega
    rw [HostBus.byteTicks, hinp, UInt32.toNat_div, hrate, hscaled]
  have hsmall := horizon_lt hticks bus.rate
  have hstarve : starveHorizonByteTimes.toNat = 64 := rfl
  apply UInt32.toNat_inj.mp
  rw [UInt32.toNat_add, UInt32.toNat_mul, hbyte, hstarve, UInt32.toNat_ofNat', UInt32.toNat_ofNat']
  rw [horizon] at hsmall ⊢
  omega

/-- What the pace and the state say of what last called for silence. -/
structure Kept (ticksPerUs : UInt32) (s : Timed) : Prop where
  sound : s.bus.Sound
  set : ∀ tick, s.bus.paceUntil = some tick → ∃ quiet, s.last = some quiet ∧
    tick = UInt32.ofNat (quiet.since + quiet.horizon) ∧ quiet.since ≤ s.clock ∧
      quiet.horizon = horizon ticksPerUs s.bus.rate
  waits : s.bus.state = .pacing → s.bus.paceUntil = none ∧ ∃ quiet, s.last = some quiet ∧
    s.bus.deadlineAt = UInt32.ofNat (quiet.since + quiet.horizon) ∧ quiet.since ≤ s.clock ∧
      quiet.horizon = horizon ticksPerUs s.bus.rate
  past : s.bus.paceUntil = none → s.bus.state ≠ .pacing → ∀ quiet, s.last = some quiet →
    quiet.since + quiet.horizon ≤ s.clock

theorem kept_start (rate : BaudRate) (edges : EdgeCapture) :
    Kept ticksPerUs (start rate edges) where
  sound := HostBus.sound_new rate edges
  set := fun tick h => by cases h
  waits := fun h => by cases h
  past := fun _ _ quiet h => by cases h

/-- A pace that reads as reached is over. -/
theorem past_of_reached {now since span : ℕ} (hspan : span ≤ 537600) (hsince : since ≤ now)
    (h : tickReached (UInt32.ofNat now) (UInt32.ofNat (since + span)) = true) :
    since + span ≤ now := by
  rw [tickReached_ofNat] at h
  push_cast at h
  omega

/-- What is claimed of one call: a transmission starts one horizon after the last thing that
called for silence, and an exchange that waits does so for one horizon at most. -/
structure Silent (ticksPerUs : UInt32) (s : Timed) (c : TimedCall) : Prop where
  starts : (s.step ticksPerUs c).bus.state = .transmitting → s.bus.state ≠ .transmitting →
    ∀ quiet ∈ s.last, quiet.since + quiet.horizon ≤ s.now c
  waits : (s.step ticksPerUs c).bus.state = .pacing → s.bus.state ≠ .pacing →
    ((s.step ticksPerUs c).bus.deadlineAt - UInt32.ofNat (s.now c)).toNat ≤
      horizon ticksPerUs (s.step ticksPerUs c).bus.rate

/-- An exchange that meets a pace comes before the comparison takes its end for the future
again. -/
def Timely (s : Timed) (c : TimedCall) : Prop :=
  s.bus.accepts c.call = true → s.bus.paceUntil.isSome = true →
    ∀ quiet ∈ s.last, (s.now c - quiet.since) % 4294967296 < quiet.horizon + 2147483647

instance (s : Timed) (c : TimedCall) : Decidable (Timely s c) :=
  inferInstanceAs (Decidable (_ → _ → _))

/-- The wait for a pace is at most its horizon, unless the clock is half a range past it. -/
theorem wait_le_iff {now since span : ℕ} (hspan : span ≤ 537600) (hsince : since ≤ now)
    (h : tickReached (UInt32.ofNat now) (UInt32.ofNat (since + span)) = false) :
    (UInt32.ofNat (since + span) - UInt32.ofNat now).toNat ≤ span ↔
      (now - since) % 4294967296 < span + 2147483647 := by
  have hsub := toNat_sub_ofNat (since + span) now
  have hreached := tickReached_ofNat now (since + span)
  rw [h] at hreached
  push_cast at hsub hreached
  simp only [false_iff, not_lt] at hreached
  omega

variable {s : Timed} {c : TimedCall}

/-- One call, in the terms of the engine. -/
theorem paceStep (hkept : Kept ticksPerUs s) (c : TimedCall) :
    HostBus.PaceStep s.bus (s.inputs ticksPerUs c) (s.bus.accepts c.call)
      (s.bus.silences c.call (s.out ticksPerUs c)) (s.step ticksPerUs c).bus :=
  HostBus.paceStep_call hkept.sound _ _

theorem kept_step (hticks : ticksPerUs.toNat ≤ 420) (hkept : Kept ticksPerUs s) (c : TimedCall) :
    Kept ticksPerUs (s.step ticksPerUs c) := by
  have hsound : (s.step ticksPerUs c).bus.Sound :=
    (HostBus.moves_step hkept.sound (s.inputs ticksPerUs c, c.call)).sound
  have hlater : s.clock ≤ (s.step ticksPerUs c).clock := Nat.le_add_right _ _
  have hlast : (s.step ticksPerUs c).last = if s.bus.silences c.call (s.out ticksPerUs c) then
      some ⟨s.now c, horizon ticksPerUs (s.step ticksPerUs c).bus.rate⟩ else s.last := rfl
  have hpaceAt :=
    ofNat_horizon hticks (s.step ticksPerUs c).bus (s.inputs ticksPerUs c) rfl (s.now c)
  have hstep := paceStep hkept c
  generalize hclock : (s.step ticksPerUs c).clock = clock at hlater
  have hnow : clock = s.now c := hclock.symm
  generalize s.bus.silences c.call (s.out ticksPerUs c) = loud at hstep hlast
  generalize s.bus.accepts c.call = accepted at hstep
  cases hstep with
  | paced hstate hpace =>
      rw [if_pos rfl] at hlast
      refine ⟨hsound, fun tick htick => ?_, fun hpacing => ?_, fun hnone => ?_⟩
      · refine ⟨_, hlast, ?_, by rw [hclock, hnow], rfl⟩
        obtain rfl := Option.some.inj (hpace.symm.trans htick)
        exact hpaceAt
      · rw [hstate] at hpacing
        cases hpacing
      · rw [hpace] at hnone
        cases hnone
  | opened hidle hrate hpace hstate =>
      rw [if_neg Bool.false_ne_true] at hlast
      have hidle' : s.bus.state ≠ .pacing := fun h => by rw [hidle] at h; cases h
      refine ⟨hsound, fun tick htick => ?_, fun hpacing => ?_, fun _ hpacing quiet hquiet => ?_⟩
      · rw [hpace] at htick
        cases htick
      · obtain ⟨htransmitting, -⟩ | ⟨-, hset, -⟩ := hstate
        · rw [htransmitting] at hpacing
          cases hpacing
        · obtain ⟨quiet, hquiet, htick, hsince, hspan⟩ := hkept.set _ hset
          exact ⟨hpace, quiet, hlast.trans hquiet, htick, by omega, by rw [hspan, hrate]⟩
      · rw [hlast] at hquiet
        obtain ⟨-, hreached⟩ | ⟨hwaits, -⟩ := hstate
        · cases hset : s.bus.paceUntil with
          | none =>
              have hpast := hkept.past hset hidle' quiet hquiet
              omega
          | some tick =>
              obtain ⟨quiet', hquiet', htick, hsince, hspan⟩ := hkept.set _ hset
              obtain rfl := Option.some.inj (hquiet'.symm.trans hquiet)
              have hdue := hreached tick hset
              rw [htick] at hdue
              have hsmall : quiet'.horizon ≤ 537600 := hspan ▸ horizon_lt hticks _
              rw [hclock, hnow]
              exact past_of_reached hsmall (by omega) hdue
        · exact absurd hwaits hpacing
  | started hpacing hdue hstate hrate hpace =>
      rw [if_neg Bool.false_ne_true] at hlast
      obtain ⟨hnone, quiet, hquiet, htick, hsince, hspan⟩ := hkept.waits hpacing
      refine ⟨hsound, fun tick htick' => ?_, fun hpacing' => ?_, fun _ _ quiet' hquiet' => ?_⟩
      · rw [hpace, hnone] at htick'
        cases htick'
      · rw [hstate] at hpacing'
        cases hpacing'
      · obtain rfl := Option.some.inj (hquiet.symm.trans (hlast.symm.trans hquiet'))
        rw [htick] at hdue
        have hsmall : quiet.horizon ≤ 537600 := hspan ▸ horizon_lt hticks _
        rw [hclock, hnow]
        exact past_of_reached hsmall (by omega) hdue
  | kept hrate hpace htransmitting hpacing hdeadline =>
      rw [if_neg Bool.false_ne_true] at hlast
      refine ⟨hsound, fun tick htick => ?_, fun hwaits => ?_, fun hnone hidle quiet hquiet => ?_⟩
      · obtain ⟨quiet, hquiet, htick', hsince, hspan⟩ := hkept.set tick (hpace.symm.trans htick)
        exact ⟨quiet, hlast.trans hquiet, htick', by omega, by rw [hspan, hrate]⟩
      · obtain ⟨hnone, quiet, hquiet, htick, hsince, hspan⟩ := hkept.waits (hpacing.mp hwaits)
        exact ⟨hpace.trans hnone, quiet, hlast.trans hquiet, (hdeadline hwaits).trans htick,
          by omega, by rw [hspan, hrate]⟩
      · have hpast := hkept.past (hpace.symm.trans hnone) (fun h => hidle (hpacing.mpr h)) quiet
          (hlast.symm.trans hquiet)
        omega

/-- One call keeps silence exactly if it is timely. -/
theorem silent_iff (hticks : ticksPerUs.toNat ≤ 420) (hkept : Kept ticksPerUs s) (c : TimedCall) :
    Silent ticksPerUs s c ↔ Timely s c := by
  have hstep := paceStep hkept c
  have hlater : s.clock ≤ s.now c := Nat.le_add_right _ _
  generalize s.bus.silences c.call (s.out ticksPerUs c) = loud at hstep
  generalize haccepted : s.bus.accepts c.call = accepted at hstep
  cases hstep with
  | paced hstate hpace =>
      refine iff_of_true ⟨fun h => ?_, fun h => ?_⟩ fun h => ?_
      · rw [hstate] at h
        cases h
      · rw [hstate] at h
        cases h
      · rw [haccepted] at h
        cases h
  | started hpacing hdue hstate hrate hpace =>
      obtain ⟨-, quiet, hquiet, htick, hsince, hspan⟩ := hkept.waits hpacing
      refine iff_of_true ⟨fun _ _ quiet' hquiet' => ?_, fun h => ?_⟩ fun h => ?_
      · obtain rfl := Option.some.inj (hquiet.symm.trans hquiet')
        rw [htick] at hdue
        exact past_of_reached (hspan ▸ horizon_lt hticks _) (by omega) hdue
      · rw [hstate] at h
        cases h
      · rw [haccepted] at h
        cases h
  | kept hrate hpace htransmitting hpacing hdeadline =>
      refine iff_of_true ⟨fun h hnot => absurd (htransmitting h) hnot,
        fun h hnot => absurd (hpacing.mp h) hnot⟩ fun h => ?_
      rw [haccepted] at h
      cases h
  | opened hidle hrate hpace hstate =>
      have hidle' : s.bus.state ≠ .pacing := fun h => by rw [hidle] at h; cases h
      obtain ⟨htransmitting, hreached⟩ | ⟨hwaits, hset, hreached⟩ := hstate
      · refine iff_of_true ⟨fun _ _ quiet hquiet => ?_, fun h => ?_⟩ fun _ hsome quiet hquiet => ?_
        · cases hset : s.bus.paceUntil with
          | none =>
              have hpast := hkept.past hset hidle' quiet hquiet
              omega
          | some tick =>
              obtain ⟨quiet', hquiet', htick, hsince, hspan⟩ := hkept.set _ hset
              obtain rfl := Option.some.inj (hquiet'.symm.trans hquiet)
              have hdue := hreached tick hset
              rw [htick] at hdue
              exact past_of_reached (hspan ▸ horizon_lt hticks _) (by omega) hdue
        · rw [htransmitting] at h
          cases h
        · obtain ⟨tick, hset⟩ := Option.isSome_iff_exists.mp hsome
          obtain ⟨quiet', hquiet', htick, hsince, hspan⟩ := hkept.set _ hset
          obtain rfl := Option.some.inj (hquiet'.symm.trans hquiet)
          have hdue := hreached tick hset
          rw [htick] at hdue
          have hsmall : quiet'.horizon ≤ 537600 := hspan ▸ horizon_lt hticks _
          have hpast := past_of_reached hsmall (by omega) hdue
          have hread := (tickReached_ofNat (s.now c) _).mp hdue
          push_cast at hread
          omega
      · obtain ⟨quiet, hquiet, htick, hsince, hspan⟩ := hkept.set _ hset
        have hsmall : quiet.horizon ≤ 537600 := hspan ▸ horizon_lt hticks _
        have hwait := wait_le_iff hsmall (hsince.trans hlater) (htick ▸ hreached)
        rw [← htick, hspan, ← hrate] at hwait
        constructor
        · intro hsilent _ _ quiet' hquiet'
          obtain rfl := Option.some.inj (hquiet.symm.trans hquiet')
          rw [hspan, ← hrate]
          exact hwait.mp (hsilent.waits hwaits hidle')
        · intro htimely
          refine ⟨fun h => ?_, fun _ _ => hwait.mpr ?_⟩
          · rw [hwaits] at h
            cases h
          · have htime := htimely haccepted (by rw [hset]; rfl) quiet hquiet
            rw [hspan, ← hrate] at htime
            exact htime

/-- In every run of the engine over its wrapping clock, transmissions keep the silence called
for and waits are one horizon at most, exactly if no exchange meets a pace half a clock range
after its end. -/
theorem silence_is_kept (hticks : ticksPerUs.toNat ≤ 420) (rate : BaudRate) (edges : EdgeCapture)
    (calls : List TimedCall) :
    Meets (step ticksPerUs) (Silent ticksPerUs) (start rate edges) calls ↔
      Meets (step ticksPerUs) Timely (start rate edges) calls :=
  ⟨Meets.forward _ (Kept ticksPerUs) (fun _ c hkept _ => kept_step hticks hkept c)
      (fun _ c hkept => (silent_iff hticks hkept c).mp) (kept_start rate edges),
    Meets.forward _ (Kept ticksPerUs) (fun _ c hkept _ => kept_step hticks hkept c)
      (fun _ c hkept => (silent_iff hticks hkept c).mpr) (kept_start rate edges)⟩

/-! ### On the bench -/

section Bench

/-- A rate change, its terminal, and a PING after some time. -/
def benchCalls (elapsed : ℕ) : List TimedCall :=
  [⟨0, [], 0, .submit (.hostBaud .b2000000)⟩, ⟨0, [], 0, .poll⟩,
    ⟨elapsed, [], 0, .submit (.exchange ⟨1⟩ ⟨0x10⟩ [])⟩]

/-- At 18 ticks a microsecond and 2 Mbaud the horizon is 5760 ticks: a PING after 1000. -/
theorem silence_is_kept_on_the_bench :
    Meets (step 18) (Silent 18) (start .b1000000 .empty) (benchCalls 1000) :=
  (silence_is_kept (by decide) .b1000000 .empty _).mpr (by decide +kernel)

/-- Two minutes later the pace, long over, reads as ahead: the PING waits for another two
minutes. -/
theorem pace_is_waited_for_again :
    ¬ ∀ (rate : BaudRate) (edges : EdgeCapture) (calls : List TimedCall),
      Meets (step 18) (Silent 18) (start rate edges) calls := by
  intro hclaim
  obtain ⟨-, -, hping, -⟩ := hclaim .b1000000 .empty (benchCalls 2147489407)
  have hwait := hping.waits (by decide +kernel) (by decide +kernel)
  revert hwait
  decide +kernel

end Bench

end Timed

end OpenServo.Host
