import OpenServo.Usb.Wire

/-!
# The bulk pair

Whatever is lost on the wire, whatever runs on the control pipe meanwhile and
however often the main loop polls: each direction is a line under a toggle, and
carries its packets in order and once.
-/

namespace OpenServo.Usb

open Transition

/-! ## What the device knows -/

/-- All that belongs to the bulk pair. -/
structure BulkPair where
  ep1 : Ep1Regs
  rxLen : ℕ
  txBusy : Bool
  txTog : Bool
  rxTog : Bool
  rxPending : Option ℕ

def Peripheral.pair (u : Peripheral) : BulkPair :=
  ⟨u.regs.ep1, u.regs.rxLen, u.dev.txBusy, u.dev.txTog, u.dev.rxTog, u.dev.rxPending⟩

/-- The host's ends of the bulk pair. -/
def Host.bulk (host : Host) :
    List (List Byte) × Bool × List (List Byte) × Bool × List (List Byte) :=
  (host.outQueue, host.outTog, host.offered, host.inTog, host.got)

namespace BulkPair

variable (p : BulkPair)

/-- The OUT packet the main loop has not taken yet. -/
def parked : Option (List Byte) := p.rxPending.map fun n => p.ep1.rxBuf.take n

/-- The IN packet the host has not answered yet, as far as the controller knows. -/
def inFlight (sent : Bool) : List (List Byte) :=
  if p.ep1.txRes = .ack ∧ sent = false then [p.ep1.txBuf.take p.ep1.tLen] else []

/-- The registers say of both endpoints what the device believes of them; `heard` is a packet
taken and `sent` an answer received since it last looked. -/
structure Armed (heard : Option (List Byte)) (sent : Bool) : Prop where
  enabled : p.ep1.enabled = true
  rxTog : p.ep1.rxTog = p.rxTog
  rxRes : p.ep1.rxRes = if p.rxPending.isSome then .nak else .ack
  txRes : p.ep1.txRes = if p.txBusy then .ack else .nak
  txTog : p.txBusy = true → p.ep1.txTog = p.txTog
  heard : heard ≠ none → p.rxPending = none
  sent : sent = true → p.txBusy = true

def outLink (heard : Option (List Byte)) (host : Host) (consumed : List (List Byte)) :
    ToggleLink (List Byte) :=
  ⟨host.outQueue, host.outTog, p.ep1.rxTog ^^ heard.isSome,
    consumed ++ (p.parked.toList ++ heard.toList)⟩

def inLink (sent : Bool) (host : Host) : ToggleLink (List Byte) :=
  ⟨p.inFlight sent, p.txTog ^^ sent, host.inTog, host.got⟩

/-- Both directions since the pair was configured. -/
structure Session (heard : Option (List Byte)) (sent : Bool) (host : Host)
    (consumed shipped : List (List Byte)) : Prop where
  armed : p.Armed heard sent
  out : (p.outLink heard host consumed).Carries host.offered
  back : (p.inLink sent host).Carries shipped

end BulkPair

/-! ## Both directions, step by step -/

namespace BulkPair

variable {p : BulkPair} {heard : Option (List Byte)} {sent : Bool} {host : Host}
  {consumed shipped : List (List Byte)}

def takeOut (p : BulkPair) (packet : List Byte) : BulkPair :=
  { p with
    ep1 := { p.ep1 with rxBuf := overlay p.ep1.rxBuf packet }
    rxLen := packet.length }

def pollOut (p : BulkPair) : BulkPair :=
  { p with
    rxTog := !p.rxTog
    rxPending := some p.rxLen
    ep1 := { p.ep1 with rxTog := !p.rxTog, rxRes := .nak } }

def consume (p : BulkPair) : BulkPair :=
  { p with rxPending := none, ep1 := { p.ep1 with rxRes := .ack } }

def tx (p : BulkPair) (bytes : List Byte) : BulkPair :=
  { p with
    txBusy := true
    ep1 := { p.ep1 with
      txBuf := overlay p.ep1.txBuf bytes, tLen := bytes.length, txTog := p.txTog,
      txRes := .ack } }

def pollIn (p : BulkPair) : BulkPair :=
  { p with txTog := !p.txTog, txBusy := false, ep1 := { p.ep1 with txRes := .nak } }

/-- An endpoint that takes packets has none parked. -/
theorem Armed.idle (h : p.Armed heard sent) (hres : p.ep1.rxRes = .ack) : p.rxPending = none := by
  have hboth := h.rxRes.symm.trans hres
  cases hpending : p.rxPending with
  | none => rfl
  | some n => simp [hpending] at hboth

theorem Armed.busy (h : p.Armed heard sent) (hres : p.ep1.txRes = .ack) : p.txBusy = true := by
  have hboth := h.txRes.symm.trans hres
  cases hbusy : p.txBusy with
  | true => rfl
  | false => simp [hbusy] at hboth

theorem outLink_takeOut {packet : List Byte} {rest : List (List Byte)}
    (hpending : p.rxPending = none) (hqueue : host.outQueue = packet :: rest) :
    (p.takeOut packet).outLink (if host.outTog = p.ep1.rxTog then some packet else none) host
      consumed = (p.outLink none host consumed).hear := by
  simp only [ToggleLink.hear, outLink, hqueue, takeOut, parked, hpending]
  split
  · rename_i htog
    simp [htog]
  · rename_i htog
    simp [htog]

namespace Session

theorem submit (h : p.Session heard sent host consumed shipped) (packet : List Byte) :
    p.Session heard sent
      { host with outQueue := host.outQueue ++ [packet], offered := host.offered ++ [packet] }
      consumed shipped :=
  ⟨h.armed, h.out.offer packet, h.back⟩

/-- The controller takes a packet; it counts if its toggle is the expected one. -/
theorem takeOut {packet : List Byte} {rest : List (List Byte)}
    (h : p.Session none sent host consumed shipped) (hres : p.ep1.rxRes = .ack)
    (hqueue : host.outQueue = packet :: rest) :
    (p.takeOut packet).Session (if host.outTog = p.ep1.rxTog then some packet else none) sent
      host consumed shipped := by
  have hpending := h.armed.idle hres
  refine ⟨⟨h.armed.enabled, h.armed.rxTog, h.armed.rxRes, h.armed.txRes, h.armed.txTog,
    fun _ => hpending, h.armed.sent⟩, ?_, h.back⟩
  rw [outLink_takeOut hpending hqueue]
  exact h.out.hear

theorem takeOut_answered {packet : List Byte} {rest : List (List Byte)}
    (h : p.Session none sent host consumed shipped) (hres : p.ep1.rxRes = .ack)
    (hqueue : host.outQueue = packet :: rest) :
    (p.takeOut packet).Session (if host.outTog = p.ep1.rxTog then some packet else none) sent
      host.advance consumed shipped := by
  obtain ⟨harmed, hout, hback⟩ := h.takeOut hres hqueue
  refine ⟨harmed, ?_, hback⟩
  refine hout.acknowledge ?_
  rw [outLink_takeOut (h.armed.idle hres) hqueue]
  refine ToggleLink.hear_ahead ?_
  rw [outLink, hqueue]
  exact List.cons_ne_nil _ _

/-- The device polls a packet it had not heard before. -/
theorem pollOut {packet : List Byte} (h : p.Session (some packet) sent host consumed shipped)
    (hpacket : packet = p.ep1.rxBuf.take p.rxLen) :
    p.pollOut.Session none sent host consumed shipped := by
  have hpending := h.armed.heard (Option.some_ne_none _)
  refine ⟨⟨h.armed.enabled, rfl, rfl, h.armed.txRes, h.armed.txTog, fun hnone => absurd rfl hnone,
    h.armed.sent⟩, ?_, h.back⟩
  have hlink : p.pollOut.outLink none host consumed = p.outLink (some packet) host consumed := by
    simp [outLink, parked, BulkPair.pollOut, hpending, hpacket, h.armed.rxTog]
  rw [hlink]
  exact h.out

theorem consume {packet : List Byte} (h : p.Session heard sent host consumed shipped)
    (hparked : p.parked = some packet) :
    p.consume.Session heard sent host (consumed ++ [packet]) shipped := by
  refine ⟨⟨h.armed.enabled, h.armed.rxTog, rfl, h.armed.txRes, h.armed.txTog, fun _ => rfl,
    h.armed.sent⟩, ?_, h.back⟩
  have hlink : p.consume.outLink heard host (consumed ++ [packet]) =
      p.outLink heard host consumed := by
    have hnone : p.consume.parked = none := rfl
    have htog : p.consume.ep1.rxTog = p.ep1.rxTog := rfl
    simp [outLink, hparked, hnone, htog]
  rw [hlink]
  exact h.out

theorem tx (h : p.Session heard sent host consumed shipped) (hidle : p.txBusy = false)
    (bytes : List Byte) : (p.tx bytes).Session heard sent host consumed (shipped ++ [bytes]) := by
  have hsent : sent = false := by
    refine Bool.eq_false_iff.mpr fun hcase => ?_
    rw [h.armed.sent hcase] at hidle
    cases hidle
  subst hsent
  refine ⟨⟨h.armed.enabled, h.armed.rxTog, h.armed.rxRes, rfl, fun _ => rfl, h.armed.heard,
    fun hcase => (by cases hcase)⟩, h.out, ?_⟩
  have hnak : p.ep1.txRes = .nak := by simp [h.armed.txRes, hidle]
  have hlink : (p.tx bytes).inLink false host = (p.inLink false host).offer bytes := by
    simp [inLink, inFlight, ToggleLink.offer, BulkPair.tx, hnak, take_overlay]
  rw [hlink]
  exact h.back.offer bytes

theorem inLink_hearIn (h : p.Session heard false host consumed shipped)
    (hres : p.ep1.txRes = .ack) :
    p.inLink false (host.hearIn p.ep1.txTog (p.ep1.txBuf.take p.ep1.tLen)) =
      (p.inLink false host).hear := by
  have htog := h.armed.txTog (h.armed.busy hres)
  simp only [ToggleLink.hear, inLink, inFlight, hres, Host.hearIn, htog, and_self, if_true,
    Bool.xor_false]
  split <;> rfl

/-- The host gets the packet, if it had not got it before. -/
theorem hearIn (h : p.Session heard false host consumed shipped) (hres : p.ep1.txRes = .ack) :
    p.Session heard false (host.hearIn p.ep1.txTog (p.ep1.txBuf.take p.ep1.tLen)) consumed
      shipped := by
  refine ⟨h.armed, ?_, ?_⟩
  · rw [Host.hearIn]
    split <;> exact h.out
  · rw [h.inLink_hearIn hres]
    exact h.back.hear

theorem hearIn_answered (h : p.Session heard false host consumed shipped)
    (hres : p.ep1.txRes = .ack) :
    p.Session heard true (host.hearIn p.ep1.txTog (p.ep1.txBuf.take p.ep1.tLen)) consumed
      shipped := by
  obtain ⟨harmed, hout, hback⟩ := h.hearIn hres
  refine ⟨{ harmed with sent := fun _ => h.armed.busy hres }, hout, ?_⟩
  have hwaiting : (p.inLink false host).waiting ≠ [] := by simp [inLink, inFlight, hres]
  have hahead := ToggleLink.hear_ahead hwaiting
  rw [← h.inLink_hearIn hres] at hahead
  have hlink := hback.acknowledge hahead
  simpa [ToggleLink.acknowledge, inLink, inFlight, hres] using hlink

theorem pollIn (h : p.Session heard true host consumed shipped) :
    p.pollIn.Session heard false host consumed shipped := by
  refine ⟨⟨h.armed.enabled, h.armed.rxTog, h.armed.rxRes, rfl, fun hcase => (by cases hcase),
    h.armed.heard, fun hcase => (by cases hcase)⟩, h.out, ?_⟩
  have hlink : p.pollIn.inLink false host = p.inLink true host := by
    simp [inLink, inFlight, BulkPair.pollIn]
  rw [hlink]
  exact h.back

/-- The pair as it is configured, and a host that has just opened its pipes. -/
theorem start {u : Peripheral} (hout : host.outTog = false) (hin : host.inTog = false)
    (hgot : host.got = []) (hqueue : host.outQueue = host.offered) :
    u.configureEp1.pair.Session none false host [] [] := by
  refine ⟨⟨rfl, rfl, rfl, rfl, fun hcase => (by cases hcase), fun _ => rfl,
    fun hcase => (by cases hcase)⟩, ?_, ?_⟩
  · rw [outLink, hout, hqueue]
    exact ToggleLink.carries_start _ _
  · rw [inLink, hin, hgot]
    exact ToggleLink.carries_start _ _

theorem congr {host' : Host} (h : p.Session heard sent host consumed shipped)
    (hhost : host'.bulk = host.bulk) : p.Session heard sent host' consumed shipped := by
  simp only [Host.bulk, Prod.mk.injEq] at hhost
  obtain ⟨hqueue, htog, hoffered, hin, hgot⟩ := hhost
  refine ⟨h.armed, ?_, ?_⟩
  · rw [outLink, hqueue, htog, hoffered]
    exact h.out
  · rw [inLink, hin, hgot]
    exact h.back

end Session

end BulkPair

namespace Peripheral

variable {u u' : Peripheral}

/-- A packet the controller took and the device has not polled yet. -/
def heardOut (u : Peripheral) : Option (List Byte) :=
  if u.regs.intFg.transfer && u.regs.intSt.endp == 1 && u.regs.intSt.token == .out &&
      u.regs.intSt.togOk then
    some (u.regs.ep1.rxBuf.take u.regs.rxLen)
  else none

/-- The host's answer to the IN packet is in, and the device has not polled it yet. -/
def sentIn (u : Peripheral) : Bool :=
  u.regs.intFg.transfer && u.regs.intSt.endp == 1 && u.regs.intSt.token == .in

/-- What a request may do to the bulk pair between two configurations: nothing, as long as a
halt is cleared only where the toggle is DATA0 already. -/
def Spares (u : Peripheral) (request : Request) : Prop :=
  request ≠ .setConfiguration 1 ∧ (request = .clearHalt 0x01 → u.dev.rxTog = false) ∧
    (request = .clearHalt 0x81 → u.dev.txTog = false)

theorem pair_ep0SendChunk : u.ep0SendChunk.pair = u.pair ∧
    u.ep0SendChunk.regs.intFg = u.regs.intFg ∧ u.ep0SendChunk.regs.intSt = u.regs.intSt := by
  unfold ep0SendChunk
  split <;> exact ⟨rfl, rfl, rfl⟩

theorem pair_ep0Reply (reply : Option ℕ) (length : ℕ) :
    (u.ep0Reply reply length).pair = u.pair ∧
      (u.ep0Reply reply length).regs.intFg = u.regs.intFg ∧
      (u.ep0Reply reply length).regs.intSt = u.regs.intSt := by
  unfold ep0Reply
  split
  · exact ⟨rfl, rfl, rfl⟩
  · split
    · exact ⟨rfl, rfl, rfl⟩
    · exact pair_ep0SendChunk

theorem pair_loadDescriptor (kind idx : Byte) :
    (u.loadDescriptor kind idx).2.pair = u.pair ∧
      (u.loadDescriptor kind idx).2.regs.intFg = u.regs.intFg ∧
      (u.loadDescriptor kind idx).2.regs.intSt = u.regs.intSt := by
  unfold loadDescriptor
  repeat' split
  all_goals exact ⟨rfl, rfl, rfl⟩

theorem pair_clearHalt {endpoint : Byte} (hout : endpoint = 0x01 → u.dev.rxTog = false)
    (hin : endpoint = 0x81 → u.dev.txTog = false) : (u.clearHalt endpoint).pair = u.pair := by
  unfold clearHalt
  split
  · rename_i hendpoint
    simp [pair, hout hendpoint]
  · split
    · rename_i hendpoint
      simp [pair, hin hendpoint]
    · rfl

theorem flags_serve (request : Request) : (u.serve request).2.regs.intFg = u.regs.intFg ∧
    (u.serve request).2.regs.intSt = u.regs.intSt := by
  unfold serve
  split
  · exact pair_loadDescriptor _ _ |>.2
  all_goals try exact ⟨rfl, rfl⟩
  · repeat' split
    all_goals exact ⟨rfl, rfl⟩
  · unfold clearHalt
    repeat' split
    all_goals exact ⟨rfl, rfl⟩

theorem pair_serve {request : Request} (h : u.Spares request) :
    (u.serve request).2.pair = u.pair := by
  obtain ⟨hconfigure, hout, hin⟩ := h
  cases request with
  | getDescriptor kind idx => exact (pair_loadDescriptor kind idx).1
  | clearHalt endpoint =>
      refine pair_clearHalt ?_ ?_
      · rintro rfl
        exact hout rfl
      · rintro rfl
        exact hin rfl
  | setConfiguration value =>
      have hvalue : value ≠ 1 := by
        rintro rfl
        exact hconfigure rfl
      simp only [serve, if_neg hvalue]
      split <;> rfl
  | getStatus | setAddress | getConfiguration | getInterface | setInterface | msOsDescriptor
  | unknown => rfl

theorem flags_onSetup :
    u.onSetup.regs.intFg = u.regs.intFg ∧ u.onSetup.regs.intSt = u.regs.intSt := by
  obtain ⟨-, hfg, hst⟩ := @pair_ep0Reply (u.ep0Abort.serve u.setup.kind).2
    (u.ep0Abort.serve u.setup.kind).1 u.setup.length.toNat
  obtain ⟨hfg', hst'⟩ := @flags_serve u.ep0Abort u.setup.kind
  exact ⟨hfg.trans hfg', hst.trans hst'⟩

theorem pair_onSetup (h : u.Spares u.setup.kind) : u.onSetup.pair = u.pair := by
  obtain ⟨hpair, -⟩ := @pair_ep0Reply (u.ep0Abort.serve u.setup.kind).2
    (u.ep0Abort.serve u.setup.kind).1 u.setup.length.toNat
  exact hpair.trans (@pair_serve u.ep0Abort _ h)

theorem pair_onSetup_configures (h : u.setup.kind = .setConfiguration 1) :
    u.onSetup.pair = u.configureEp1.pair := by
  obtain ⟨hpair, -⟩ := @pair_ep0Reply (u.ep0Abort.serve u.setup.kind).2
    (u.ep0Abort.serve u.setup.kind).1 u.setup.length.toNat
  refine hpair.trans ?_
  rw [h]
  rfl

theorem pair_onEp0Transfer (token : UsbToken) : (u.onEp0Transfer token).pair = u.pair := by
  unfold onEp0Transfer
  split
  · split
    · exact pair_ep0SendChunk.1
    · rfl
  all_goals rfl

/-! ## Polling -/

theorem calm (h : u.regs.intFg.transfer = false) : u.heardOut = none ∧ u.sentIn = false := by
  simp [heardOut, sentIn, h]

theorem flags_onEp0Transfer (token : UsbToken) :
    (u.onEp0Transfer token).regs.intFg = u.regs.intFg := by
  unfold onEp0Transfer
  split
  · split
    · exact pair_ep0SendChunk.2.1
    · rfl
  all_goals rfl

theorem flags_onTransfer : u.onTransfer.regs.intFg = u.regs.intFg := by
  unfold onTransfer
  split
  · exact flags_onEp0Transfer _
  · unfold onEp1Transfer
    split
    · split <;> rfl
    · rfl
  · rfl

/-- Without a reset in between, a poll leaves nothing waiting. -/
theorem waiting_poll (hreset : u.regs.intFg.busRst = false) : u.poll.regs.waiting = false := by
  unfold poll
  rw [hreset]
  split
  · rename_i hcase
    cases hcase
  · split
    · simp [Regs.waiting, flags_onSetup.1, hreset]
    · rename_i hsetup
      split
      · simp [Regs.waiting, flags_onTransfer, hreset, hsetup]
      · rename_i htransfer
        simp [Regs.waiting, hreset, hsetup, htransfer]

theorem pair_poll (hreset : u.regs.intFg.busRst = false) :
    u.poll.pair = if u.regs.intFg.setupAct then u.onSetup.pair
      else if u.regs.intFg.transfer then u.onTransfer.pair else u.pair := by
  unfold poll
  rw [hreset]
  split
  · rename_i hcase
    cases hcase
  · split
    · rfl
    · split <;> rfl

theorem heardOut_takeOut (tog : Bool) (packet : List Byte) :
    ({ u with regs := u.regs.takeOut tog packet } : Peripheral).heardOut =
      (if tog = u.regs.ep1.rxTog then some packet else none) := by
  by_cases htog : tog = u.regs.ep1.rxTog
  · simp [heardOut, Regs.takeOut, Regs.latch, htog, take_overlay]
  · simp [heardOut, Regs.takeOut, Regs.latch, htog]

/-- A transfer the device polls takes each direction one step on. -/
theorem session_onTransfer {host : Host} {consumed shipped : List (List Byte)}
    (htransfer : u.regs.intFg.transfer = true)
    (h : u.pair.Session u.heardOut u.sentIn host consumed shipped) :
    u.onTransfer.pair.Session none false host consumed shipped := by
  unfold onTransfer
  split
  · rename_i hendp
    have hheard : u.heardOut = none := by simp [heardOut, hendp]
    have hsent : u.sentIn = false := by simp [sentIn, hendp]
    rw [pair_onEp0Transfer]
    rwa [hheard, hsent] at h
  · rename_i hendp
    unfold onEp1Transfer
    split
    · rename_i htoken
      have hsent : u.sentIn = false := by simp [sentIn, htoken]
      split
      · rename_i htog
        have hheard : u.heardOut = some (u.regs.ep1.rxBuf.take u.regs.rxLen) := by
          simp [heardOut, htransfer, hendp, htoken, htog]
        rw [hheard, hsent] at h
        exact h.pollOut rfl
      · rename_i htog
        have hheard : u.heardOut = none := by simp [heardOut, htog]
        rwa [hheard, hsent] at h
    · rename_i htoken
      have hsent : u.sentIn = true := by simp [sentIn, htransfer, hendp, htoken]
      have hheard : u.heardOut = none := by simp [heardOut, htoken]
      rw [hheard, hsent] at h
      exact h.pollIn
  · rename_i hother
    have hendp : (u.regs.intSt.endp == 1) = false := by simpa using hother
    have hheard : u.heardOut = none := by simp [heardOut, hendp]
    have hsent : u.sentIn = false := by simp [sentIn, hendp]
    rwa [hheard, hsent] at h

end Peripheral

/-! ## Every step -/

namespace Wire

variable {w : Wire}

/-- Both directions carry what they were given since the pair was configured. -/
def Carries (w : Wire) : Prop :=
  w.usb.pair.Session w.usb.heardOut w.usb.sentIn w.host w.consumed w.shipped

/-- What every step keeps.  Between the request and the poll that configures the pair, the
host's ends are new and the device's are not. -/
structure Inv (w : Wire) : Prop where
  oneFlag : w.usb.regs.intFg.setupAct = true → w.usb.regs.intFg.transfer = false
  calm : w.host.opened = true → w.usb.regs.intFg.busRst = false
  fresh : w.host.opened = true → w.usb.configures = true →
    w.host.outTog = false ∧ w.host.inTog = false ∧ w.host.got = [] ∧
      w.host.outQueue = w.host.offered
  spares : w.host.opened = true → w.usb.configures = false →
    w.usb.regs.intFg.setupAct = true → w.usb.Spares w.usb.setup.kind
  carries : w.host.opened = true → w.usb.configures = false → w.Carries

/-- The request finds the endpoint at rest if it clears a halt: both ends are at DATA0. -/
def ClearsAtRest (w : Wire) : Act → Prop
  | .setup packet =>
      ((Setup.parse packet.toList).kind = .clearHalt 0x01 →
          w.host.outTog = false ∧ w.usb.dev.rxTog = false) ∧
        ((Setup.parse packet.toList).kind = .clearHalt 0x81 →
          w.host.inTog = false ∧ w.usb.dev.txTog = false)
  | _ => True

theorem inv_reset (h : w.Inv) (highSpeed : Bool) : (w.step (.reset highSpeed)).Inv where
  oneFlag := h.oneFlag
  calm := fun hopened => by cases hopened
  fresh := fun hopened => by cases hopened
  spares := fun hopened => by cases hopened
  carries := fun hopened => by cases hopened

theorem oneFlag_poll {u : Peripheral}
    (h : u.regs.intFg.setupAct = true → u.regs.intFg.transfer = false) :
    u.poll.regs.intFg.setupAct = true → u.poll.regs.intFg.transfer = false := by
  cases hreset : u.regs.intFg.busRst with
  | true =>
      simp only [Peripheral.poll, hreset, if_true]
      exact h
  | false =>
      intro hsetup
      have hwaiting := Peripheral.waiting_poll hreset
      simp [Regs.waiting, hsetup] at hwaiting

theorem carries_polled (h : w.Inv) (hopened : w.host.opened = true) : w.polled.Carries := by
  have hreset := h.calm hopened
  have hwaiting := Peripheral.waiting_poll hreset
  simp only [Regs.waiting, Bool.or_eq_false_iff] at hwaiting
  obtain ⟨hheard, hsent⟩ := Peripheral.calm hwaiting.2
  unfold polled
  split
  · rename_i hconfigures
    obtain ⟨hout, hin, hgot, hqueue⟩ := h.fresh hopened hconfigures
    have hsetup : w.usb.regs.intFg.setupAct = true ∧
        w.usb.setup.kind = .setConfiguration 1 := by
      simpa [Peripheral.configures, hreset] using hconfigures
    simp only [Carries, hheard, hsent, Peripheral.pair_poll hreset, hsetup.1, if_true,
      Peripheral.pair_onSetup_configures hsetup.2]
    exact .start hout hin hgot hqueue
  · rename_i hconfigures
    rw [Bool.not_eq_true] at hconfigures
    have hcarries := h.carries hopened hconfigures
    simp only [Carries, hheard, hsent, Peripheral.pair_poll hreset]
    split
    · rename_i hsetup
      obtain ⟨hheard', hsent'⟩ := Peripheral.calm (h.oneFlag hsetup)
      rw [Peripheral.pair_onSetup (h.spares hopened hconfigures hsetup)]
      rwa [Carries, hheard', hsent'] at hcarries
    · split
      · rename_i htransfer
        exact Peripheral.session_onTransfer htransfer hcarries
      · rename_i htransfer
        obtain ⟨hheard', hsent'⟩ := Peripheral.calm (Bool.not_eq_true _ ▸ htransfer)
        rwa [Carries, hheard', hsent'] at hcarries

theorem host_polled (w : Wire) : w.polled.host = w.host := by
  unfold polled
  split <;> rfl

theorem usb_polled (w : Wire) : w.polled.usb = w.usb.poll := by
  unfold polled
  split <;> rfl

theorem inv_polled (h : w.Inv) : w.polled.Inv := by
  have hhost := w.host_polled
  have husb := w.usb_polled
  have hquiet : w.host.opened = true → w.usb.poll.regs.waiting = false := fun hopened =>
    Peripheral.waiting_poll (h.calm hopened)
  refine ⟨?_, ?_, ?_, ?_, ?_⟩
  · rw [husb]
    exact oneFlag_poll h.oneFlag
  · rw [husb, hhost]
    intro hopened
    have hwaiting := hquiet hopened
    simp only [Regs.waiting, Bool.or_eq_false_iff] at hwaiting
    exact hwaiting.1.1
  · rw [husb, hhost]
    intro hopened hconfigures
    have hwaiting := hquiet hopened
    simp only [Regs.waiting, Bool.or_eq_false_iff] at hwaiting
    simp [Peripheral.configures, hwaiting.1.2] at hconfigures
  · rw [husb, hhost]
    intro hopened _ hsetup
    have hwaiting := hquiet hopened
    simp [Regs.waiting, hsetup] at hwaiting
  · rw [hhost]
    intro hopened _
    exact carries_polled h hopened

/-- A step while nothing waits, after which still no request does. -/
theorem inv_quiet {w' : Wire} (h : w.Inv) (hwaiting : w.usb.regs.waiting = false)
    (hreset : w'.usb.regs.intFg.busRst = w.usb.regs.intFg.busRst)
    (hsetup : w'.usb.regs.intFg.setupAct = w.usb.regs.intFg.setupAct)
    (hopened : w'.host.opened = w.host.opened)
    (hcarries : w.host.opened = true → w.Carries → w'.Carries) : w'.Inv := by
  simp only [Regs.waiting, Bool.or_eq_false_iff] at hwaiting
  rw [hwaiting.1.2] at hsetup
  refine ⟨?_, ?_, ?_, ?_, ?_⟩
  · simp [hsetup]
  · rw [hopened, hreset]
    exact h.calm
  · simp [Peripheral.configures, hsetup]
  · simp [hsetup]
  · intro hopened' _
    rw [hopened] at hopened'
    exact hcarries hopened' (h.carries hopened' (by simp [Peripheral.configures, hwaiting.1.2]))

theorem parse_overlay (buf : List Byte) (packet : Vector Byte 8) :
    Setup.parse (overlay buf packet.toList) = Setup.parse packet.toList := by
  have hbyte : ∀ i < 8, (overlay buf packet.toList).getD i 0 = packet.toList.getD i 0 := by
    intro i hi
    exact List.getD_append _ _ _ _ (by rw [packet.length_toList]; exact hi)
  simp only [Setup.parse, hbyte 0 (by decide), hbyte 1 (by decide), hbyte 2 (by decide),
    hbyte 3 (by decide), hbyte 4 (by decide), hbyte 5 (by decide), hbyte 6 (by decide),
    hbyte 7 (by decide)]

/-- A request leaves the host's ends of an open pair alone, but for the one that opens it. -/
theorem bulk_setup {host : Host} {request : Request} (hopened : (host.setup request).opened = true)
    (hopen : request ≠ .setConfiguration 1) (hout : request = .clearHalt 0x01 → host.outTog = false)
    (hin : request = .clearHalt 0x81 → host.inTog = false) :
    host.opened = true ∧ (host.setup request).bulk = host.bulk := by
  cases request with
  | setConfiguration value =>
      have hvalue : value ≠ 1 := by
        rintro rfl
        exact hopen rfl
      simp only [Host.setup, if_neg hvalue] at hopened ⊢
      split
      · rename_i hzero
        simp [hzero] at hopened
      · rename_i hzero
        simp only [if_neg hzero] at hopened
        exact ⟨hopened, rfl⟩
  | clearHalt endpoint =>
      refine ⟨hopened, ?_⟩
      simp only [Host.setup, Host.bulk, Prod.mk.injEq, true_and, and_true]
      refine ⟨?_, ?_⟩
      · by_cases hcase : endpoint = 0x01
        · simp [hout (by rw [hcase])]
        · simp [hcase]
      · by_cases hcase : endpoint = 0x81
        · simp [hin (by rw [hcase])]
        · simp [hcase]
  | getDescriptor | getStatus | setAddress | getConfiguration | getInterface | setInterface
  | msOsDescriptor | unknown => exact ⟨hopened, rfl⟩

theorem inv_setup (h : w.Inv) (packet : Vector Byte 8) (hrest : w.ClearsAtRest (.setup packet)) :
    (w.step (.setup packet)).Inv := by
  simp only [step]
  split
  · exact h
  · rename_i hwaiting
    simp only [Regs.waiting, Bool.not_eq_true, Bool.or_eq_false_iff] at hwaiting
    obtain ⟨⟨hreset, hsetup⟩, htransfer⟩ := hwaiting
    have hbefore : w.usb.configures = false := by simp [Peripheral.configures, hsetup]
    have hkind : ({ w.usb with regs := w.usb.regs.takeSetup packet } : Peripheral).setup =
        Setup.parse packet.toList := parse_overlay _ packet
    have hafter : ({ w.usb with regs := w.usb.regs.takeSetup packet } : Peripheral).configures =
        ((Setup.parse packet.toList).kind == .setConfiguration 1) := by
      rw [Peripheral.configures, hkind]
      simp [Regs.takeSetup, hreset]
    refine ⟨fun _ => htransfer, fun _ => hreset, ?_, ?_, ?_⟩
    · intro _ hconfigures
      rw [hafter, beq_iff_eq] at hconfigures
      simp only [hconfigures]
      exact ⟨rfl, rfl, rfl, rfl⟩
    · intro _ hconfigures _
      rw [hafter, beq_eq_false_iff_ne] at hconfigures
      rw [hkind]
      exact ⟨hconfigures, fun hcase => (hrest.1 hcase).2, fun hcase => (hrest.2 hcase).2⟩
    · intro hopened hconfigures
      rw [hafter, beq_eq_false_iff_ne] at hconfigures
      obtain ⟨hopened', hbulk⟩ := bulk_setup hopened hconfigures (fun hcase => (hrest.1 hcase).1)
        (fun hcase => (hrest.2 hcase).1)
      exact (h.carries hopened' hbefore).congr hbulk

theorem inv_submit (h : w.Inv) (packet : List Byte) : (w.step (.submit packet)).Inv := by
  simp only [step]
  split
  · refine ⟨h.oneFlag, h.calm, fun hopened hconfigures => ?_, h.spares,
      fun hopened hconfigures => (h.carries hopened hconfigures).submit packet⟩
    obtain ⟨hout, hin, hgot, hqueue⟩ := h.fresh hopened hconfigures
    exact ⟨hout, hin, hgot, congrArg (· ++ [packet]) hqueue⟩
  · exact h

theorem carries_takeOut {tog : Bool} {packet : List Byte} {host : Host}
    (h : (w.usb.pair.takeOut packet).Session
      (if tog = w.usb.pair.ep1.rxTog then some packet else none) false host w.consumed w.shipped) :
    Carries { w with
      usb := { w.usb with regs := w.usb.regs.takeOut tog packet }
      host := host } := by
  rw [Carries, Peripheral.heardOut_takeOut]
  exact h

theorem inv_bulkOut (h : w.Inv) (fate : Fate) : (w.step (.bulkOut fate)).Inv := by
  simp only [step]
  split
  · exact h
  · rename_i packet rest hqueue
    split
    · rename_i htakes
      simp only [Regs.takesOut, Bool.and_eq_true, beq_iff_eq, Bool.not_eq_true'] at htakes
      obtain ⟨-, ⟨⟨-, hwaiting⟩, hres⟩, -⟩ := htakes
      have hflags := hwaiting
      simp only [Regs.waiting, Bool.or_eq_false_iff] at hflags
      obtain ⟨hheard, hsent⟩ := Peripheral.calm hflags.2
      cases fate with
      | lost => exact h
      | unanswered =>
          refine inv_quiet h hwaiting rfl rfl rfl fun _ hcarries => ?_
          rw [Carries, hheard, hsent] at hcarries
          exact carries_takeOut (hcarries.takeOut hres hqueue)
      | answered =>
          refine inv_quiet h hwaiting rfl rfl rfl fun _ hcarries => ?_
          rw [Carries, hheard, hsent] at hcarries
          exact carries_takeOut (hcarries.takeOut_answered hres hqueue)
    · exact h

theorem inv_bulkIn (h : w.Inv) (fate : Fate) : (w.step (.bulkIn fate)).Inv := by
  simp only [step]
  split
  · rename_i hsends
    simp only [Regs.sendsIn, Bool.and_eq_true, beq_iff_eq, Bool.not_eq_true'] at hsends
    obtain ⟨-, ⟨-, hwaiting⟩, hres⟩ := hsends
    have hflags := hwaiting
    simp only [Regs.waiting, Bool.or_eq_false_iff] at hflags
    obtain ⟨hheard, hsent⟩ := Peripheral.calm hflags.2
    have hopened : (w.host.hearIn w.usb.regs.ep1.txTog w.usb.regs.inPacket).opened =
        w.host.opened := by
      unfold Host.hearIn
      split <;> rfl
    cases fate with
    | lost => exact h
    | unanswered =>
        refine inv_quiet h hwaiting rfl rfl hopened fun _ hcarries => ?_
        rw [Carries, hheard, hsent] at hcarries
        have hnext := hcarries.hearIn hres
        rw [← hheard, ← hsent] at hnext
        exact hnext
    | answered =>
        refine inv_quiet h hwaiting rfl rfl hopened fun _ hcarries => ?_
        rw [Carries, hheard, hsent] at hcarries
        exact hcarries.hearIn_answered hres
  · exact h

theorem bulk_hearCtl (host : Host) (tog : Bool) (packet : List Byte) :
    (host.hearCtl tog packet).opened = host.opened ∧
      (host.hearCtl tog packet).bulk = host.bulk := by
  unfold Host.hearCtl
  split <;> exact ⟨rfl, rfl⟩

/-- A transaction of the control endpoint is none of the bulk pair's. -/
theorem carries_latch (hcalm : w.usb.regs.intFg.transfer = false) (token : UsbToken) {host : Host}
    (hbulk : host.bulk = w.host.bulk) (h : w.Carries) :
    Carries { w with
      usb := { w.usb with regs := w.usb.regs.latch 0 token true }
      host := host } := by
  obtain ⟨hheard, hsent⟩ := Peripheral.calm hcalm
  rw [Carries, hheard, hsent] at h
  exact h.congr hbulk

theorem inv_ep0In (h : w.Inv) (fate : Fate) : (w.step (.ep0In fate)).Inv := by
  simp only [step]
  split
  · rename_i hsends
    simp only [Regs.ep0SendsIn, Bool.and_eq_true, Bool.not_eq_true'] at hsends
    have hflags := hsends.1
    simp only [Regs.waiting, Bool.or_eq_false_iff] at hflags
    obtain ⟨hopened, hbulk⟩ :=
      bulk_hearCtl w.host w.usb.regs.ep0.txTog w.usb.regs.ep0Packet
    cases fate with
    | lost => exact h
    | unanswered =>
        exact inv_quiet h hsends.1 rfl rfl hopened fun _ hcarries => hcarries.congr hbulk
    | answered =>
        exact inv_quiet h hsends.1 rfl rfl hopened fun _ hcarries =>
          carries_latch hflags.2 .in hbulk hcarries
  · exact h

theorem inv_ep0Out (h : w.Inv) : (w.step .ep0Out).Inv := by
  simp only [step]
  split
  · rename_i htakes
    simp only [Regs.ep0TakesOut, Bool.and_eq_true, Bool.not_eq_true'] at htakes
    have hflags := htakes.1
    simp only [Regs.waiting, Bool.or_eq_false_iff] at hflags
    exact inv_quiet h htakes.1 rfl rfl rfl fun _ hcarries =>
      carries_latch hflags.2 .out rfl hcarries
  · exact h

theorem inv_consume (h : w.Inv) : (w.step .consume).Inv := by
  simp only [step]
  split
  · exact h
  · rename_i packet hrx
    have hparked : w.usb.pair.parked = some packet := hrx
    have hsome : w.usb.dev.rxPending.isSome = true := by
      cases hpending : w.usb.dev.rxPending with
      | none => simp [Peripheral.rx, hpending] at hrx
      | some n => rfl
    have husb : w.usb.rxConsume = { dev := { w.usb.dev with rxPending := none }
                                    regs := { w.usb.regs with
                                      ep1 := { w.usb.regs.ep1 with rxRes := .ack } } } := by
      rw [Peripheral.rxConsume, if_pos hsome]
    rw [husb]
    exact ⟨h.oneFlag, h.calm, h.fresh, h.spares, fun hopened hconfigures =>
      (h.carries hopened hconfigures).consume hparked⟩

theorem inv_tx (h : w.Inv) (bytes : List Byte) : (w.step (.tx bytes)).Inv := by
  simp only [step]
  split
  · rename_i hready
    simp only [Peripheral.txReady, Bool.and_eq_true, Bool.not_eq_true'] at hready
    exact ⟨h.oneFlag, h.calm, h.fresh, h.spares, fun hopened hconfigures =>
      (h.carries hopened hconfigures).tx hready.1.2 bytes⟩
  · exact h

/-- Every step keeps the invariant, halts being cleared at rest. -/
theorem inv_step (h : w.Inv) {act : Act} (hrest : w.ClearsAtRest act) : (w.step act).Inv := by
  cases act with
  | reset highSpeed => exact inv_reset h highSpeed
  | suspend => exact ⟨h.oneFlag, h.calm, h.fresh, h.spares, h.carries⟩
  | setup packet => exact inv_setup h packet hrest
  | ep0In fate => exact inv_ep0In h fate
  | ep0Out => exact inv_ep0Out h
  | submit packet => exact inv_submit h packet
  | bulkOut fate => exact inv_bulkOut h fate
  | bulkIn fate => exact inv_bulkIn h fate
  | poll => exact inv_polled h
  | consume => exact inv_consume h
  | tx bytes => exact inv_tx h bytes

/-! ## Every run -/

instance (act : Act) : Decidable (w.ClearsAtRest act) := by
  cases act <;> unfold ClearsAtRest <;> infer_instance

/-- The pipes are open, and the pair is configured. -/
def Connected (w : Wire) : Prop := w.host.opened = true ∧ w.usb.configures = false

/-- The OUT packets the device has and the main loop has not taken, one at most. -/
def parked (w : Wire) : List (List Byte) := w.usb.pair.parked.toList ++ w.usb.heardOut.toList

/-- Each direction since the pair was configured: what one end has is the head of what the
other end gave, each packet once, and neither end is more than a packet behind. -/
structure Delivers (w : Wire) : Prop where
  taken : w.consumed ++ w.parked <+: w.host.offered
  told : ∃ told, told ++ w.host.outQueue = w.host.offered ∧ told <+: w.consumed ++ w.parked ∧
    (w.consumed ++ w.parked).length ≤ told.length + 1
  oneParked : w.parked.length ≤ 1
  got : w.host.got <+: w.shipped
  inFlight : w.shipped.length ≤ w.host.got.length + 1

theorem Carries.delivers (h : w.Carries) : w.Delivers := by
  refine ⟨h.out.taken_prefix, h.out.known, ?_, h.back.taken_prefix, ?_⟩
  · rw [parked, List.length_append]
    cases hheard : w.usb.heardOut with
    | none =>
        cases w.usb.pair.parked with
        | none => exact Nat.zero_le 1
        | some packet => exact Nat.le_refl 1
    | some packet =>
        have hpending := h.armed.heard (by simp [hheard])
        simp [BulkPair.parked, hpending]
  · obtain ⟨known, hknown, hprefix, -⟩ := h.back.known
    have hflight : (w.usb.pair.inLink w.usb.sentIn w.host).waiting.length ≤ 1 := by
      simp only [BulkPair.inLink, BulkPair.inFlight]
      split <;> simp
    have hlength := congrArg List.length hknown
    have hgot := hprefix.length_le
    rw [List.length_append] at hlength
    simp only [BulkPair.inLink] at hgot hflight hlength
    omega

theorem inv_boot (uid : Vector UInt32 3) : (boot uid).Inv where
  oneFlag := fun hsetup => by cases hsetup
  calm := fun hopened => by cases hopened
  fresh := fun hopened => by cases hopened
  spares := fun hopened => by cases hopened
  carries := fun hopened => by cases hopened

theorem inv_run {acts : List Act} (h : w.Inv) (hrest : Meets step ClearsAtRest w acts) :
    (run step w acts).Inv :=
  Meets.invariant step Inv (fun _ _ hinv hcond => inv_step hinv hcond) h hrest

/-- Over every run from boot, whatever the wire loses: while the pipes are open, the main loop
has taken a prefix of what the host gave, in order and each packet once, and the host a prefix
of what the main loop gave. -/
theorem bulk_delivers (uid : Vector UInt32 3) {acts : List Act}
    (hrest : Meets step ClearsAtRest (boot uid) acts)
    (hconnected : (run step (boot uid) acts).Connected) : (run step (boot uid) acts).Delivers :=
  ((inv_run (inv_boot uid) hrest).carries hconnected.1 hconnected.2).delivers

instance : Decidable w.Connected := inferInstanceAs (Decidable (_ ∧ _))

/-- Two packets each way, the first answer of both first ones lost. -/
def lossyActs : List Act :=
  [.reset true, .poll, .setup #v[0x00, 9, 1, 0, 0, 0, 0, 0], .poll, .ep0In .answered, .poll,
    .submit [1, 2, 3], .bulkOut .unanswered, .poll, .consume, .bulkOut .answered, .poll,
    .tx [7], .bulkIn .unanswered, .bulkIn .answered, .poll, .submit [4], .bulkOut .answered,
    .poll, .consume, .tx [8, 9], .bulkIn .answered, .poll]

theorem lossy_wire_delivers :
    Wire.Delivers (run step (boot #v[1, 2, 3]) lossyActs) :=
  bulk_delivers #v[1, 2, 3] (by decide +kernel) (by decide +kernel)

example : (run step (boot #v[1, 2, 3]) lossyActs).consumed = [[1, 2, 3], [4]] ∧
    (run step (boot #v[1, 2, 3]) lossyActs).host.got = [[7], [8, 9]] := by decide +kernel

/-! ## A round nothing is lost in -/

theorem maxLen_onTransfer (u : Peripheral) :
    u.onTransfer.pair.ep1.maxLen = u.pair.ep1.maxLen := by
  unfold Peripheral.onTransfer
  split
  · rw [Peripheral.pair_onEp0Transfer]
  · unfold Peripheral.onEp1Transfer
    split
    · split <;> rfl
    · rfl
  · rfl

/-- Only a configuration changes how long a packet may be. -/
theorem maxLen_poll (h : w.Inv) (hconnected : w.Connected) :
    w.usb.poll.pair.ep1.maxLen = w.usb.pair.ep1.maxLen := by
  rw [Peripheral.pair_poll (h.calm hconnected.1)]
  split
  · rename_i hsetup
    rw [Peripheral.pair_onSetup (h.spares hconnected.1 hconnected.2 hsetup)]
  · split
    · exact maxLen_onTransfer w.usb
    · rfl

theorem step_consume (w : Wire) :
    (w.step .consume).usb.dev.rxPending = none ∧ (w.step .consume).host = w.host ∧
      (w.step .consume).usb.regs.intFg = w.usb.regs.intFg ∧
      (w.step .consume).usb.regs.ep1.maxLen = w.usb.regs.ep1.maxLen := by
  simp only [step]
  split
  · rename_i hrx
    exact ⟨by simpa [Peripheral.rx] using hrx, rfl, rfl, rfl⟩
  · rename_i packet hrx
    have hsome : w.usb.dev.rxPending.isSome = true := by
      cases hpending : w.usb.dev.rxPending with
      | none => simp [Peripheral.rx, hpending] at hrx
      | some n => rfl
    rw [Peripheral.rxConsume, if_pos hsome]
    exact ⟨rfl, rfl, rfl, rfl⟩

/-- Nothing waits for the device or for the main loop. -/
structure Settled (w : Wire) : Prop where
  inv : w.Inv
  opened : w.host.opened = true
  waiting : w.usb.regs.waiting = false
  parked : w.usb.dev.rxPending = none

theorem Settled.connected (h : w.Settled) : w.Connected := by
  have hwaiting := h.waiting
  simp only [Regs.waiting, Bool.or_eq_false_iff] at hwaiting
  exact ⟨h.opened, by simp [Peripheral.configures, hwaiting.1.2]⟩

theorem Settled.parked_nil (h : w.Settled) : w.parked = [] := by
  have hwaiting := h.waiting
  simp only [Regs.waiting, Bool.or_eq_false_iff] at hwaiting
  rw [Wire.parked, (Peripheral.calm hwaiting.2).1, BulkPair.parked]
  have hpending : w.usb.pair.rxPending = none := h.parked
  rw [hpending]
  rfl

/-- A poll and a take settle the wire. -/
theorem settles (h : w.Inv) (hopened : w.host.opened = true) :
    (run step w [.poll, .consume]).Settled ∧ (run step w [.poll, .consume]).host = w.host := by
  obtain ⟨hparked, hhost, hflags, -⟩ := step_consume w.polled
  rw [host_polled] at hhost
  have hwaiting : w.polled.usb.regs.waiting = false := by
    rw [usb_polled]
    exact Peripheral.waiting_poll (h.calm hopened)
  refine ⟨⟨inv_consume (inv_polled h), ?_, ?_, hparked⟩, hhost⟩
  · exact (congrArg Host.opened hhost).trans hopened
  · exact (congrArg (fun fg : IntFg => fg.busRst || fg.setupAct || fg.transfer) hflags).trans
      hwaiting

theorem Settled.takesOut (h : w.Settled) {packet : List Byte}
    (hfits : packet.length ≤ w.usb.regs.ep1.maxLen) : w.usb.regs.takesOut packet = true := by
  have harmed := (h.inv.carries h.connected.1 h.connected.2).armed
  have henabled : w.usb.regs.ep1.enabled = true := harmed.enabled
  have hres : w.usb.regs.ep1.rxRes = .ack := by
    have hanswer := harmed.rxRes
    have hpending : w.usb.pair.rxPending = none := h.parked
    rw [hpending] at hanswer
    exact hanswer
  simp [Regs.takesOut, henabled, h.waiting, hres, hfits]

def outRound : List Act := [.poll, .consume, .bulkOut .answered, .poll, .consume]

def inRound : List Act := [.poll, .bulkIn .answered, .poll]

theorem out_round (h : w.Inv) (hconnected : w.Connected) {packet : List Byte}
    {rest : List (List Byte)} (hqueue : w.host.outQueue = packet :: rest)
    (hfits : packet.length ≤ w.usb.regs.ep1.maxLen) :
    (run step w outRound).host.outQueue = rest ∧
      ∃ told, told ++ rest = w.host.offered ∧ told <+: (run step w outRound).consumed := by
  obtain ⟨hsettled, hhost⟩ := settles h hconnected.1
  obtain ⟨-, -, -, hlen⟩ := step_consume w.polled
  generalize hw : run step w [.poll, .consume] = ready at hsettled hhost
  have hready : ready.usb.regs.ep1.maxLen = w.usb.regs.ep1.maxLen := by
    rw [← hw]
    refine hlen.trans ?_
    rw [usb_polled]
    exact maxLen_poll h hconnected
  have hstep : ready.step (.bulkOut .answered) = ready.bulkOut packet .answered := by
    have hfirst : ready.host.outQueue = packet :: rest := by rw [hhost, hqueue]
    have htakes := hsettled.takesOut (hfits.trans_eq hready.symm)
    simp only [step, hfirst, hsettled.opened, htakes, Bool.and_self, if_true]
  have hinv := inv_bulkOut hsettled.inv .answered
  have hrun :
      run step w outRound = run step (ready.bulkOut packet .answered) [.poll, .consume] := by
    rw [← hstep, ← hw]
    rfl
  rw [hstep] at hinv
  obtain ⟨hend, hhost'⟩ := settles hinv (w := ready.bulkOut packet .answered) hsettled.opened
  rw [hrun]
  have hqueue' : (run step (ready.bulkOut packet .answered) [.poll, .consume]).host.outQueue =
      rest := by
    rw [hhost']
    show ready.host.outQueue.tail = rest
    rw [hhost, hqueue]
    rfl
  have hdelivers := (hend.inv.carries hend.connected.1 hend.connected.2).delivers
  obtain ⟨told, htold, hprefix, -⟩ := hdelivers.told
  rw [hend.parked_nil, List.append_nil] at hprefix
  refine ⟨hqueue', told, ?_, hprefix⟩
  rw [hqueue', hhost'] at htold
  rw [htold]
  show ready.host.offered = w.host.offered
  rw [hhost]

/-- After an IN transaction nothing is lost in, the device has its buffer back. -/
theorem idle_after_in (h : w.Inv) (hopened : w.host.opened = true)
    (hwaiting : w.usb.regs.waiting = false) :
    (w.step (.bulkIn .answered)).polled.usb.pair.txBusy = false := by
  have hflags := hwaiting
  simp only [Regs.waiting, Bool.or_eq_false_iff] at hflags
  have hconfigures : w.usb.configures = false := by simp [Peripheral.configures, hflags.1.2]
  have harmed := (h.carries hopened hconfigures).armed
  have henabled : w.usb.regs.ep1.enabled = true := harmed.enabled
  rw [usb_polled]
  cases hbusy : w.usb.dev.txBusy with
  | true =>
      have hres : w.usb.regs.ep1.txRes = .ack := by
        have hanswer := harmed.txRes
        have hpair : w.usb.pair.txBusy = true := hbusy
        rw [hpair] at hanswer
        exact hanswer
      have hsends : w.usb.regs.sendsIn = true := by simp [Regs.sendsIn, henabled, hwaiting, hres]
      have hstep : w.step (.bulkIn .answered) = w.bulkIn .answered := by
        simp only [step, hopened, hsends, Bool.and_self, if_true]
      rw [hstep, Peripheral.pair_poll (u := (w.bulkIn .answered).usb) hflags.1.1]
      have hsetup : (w.bulkIn .answered).usb.regs.intFg.setupAct = false := hflags.1.2
      have htransfer : (w.bulkIn .answered).usb.regs.intFg.transfer = true := rfl
      rw [if_neg (by simp [hsetup]), if_pos htransfer]
      rfl
  | false =>
      have hres : w.usb.regs.ep1.txRes = .nak := by
        have hanswer := harmed.txRes
        have hpair : w.usb.pair.txBusy = false := hbusy
        rw [hpair] at hanswer
        exact hanswer
      have hstep : w.step (.bulkIn .answered) = w := by simp [step, Regs.sendsIn, hres]
      rw [hstep, Peripheral.pair_poll hflags.1.1, if_neg (by simp [hflags.1.2]),
        if_neg (by simp [hflags.2])]
      exact hbusy

theorem step_bulkIn (w : Wire) (fate : Fate) :
    (w.step (.bulkIn fate)).host.opened = w.host.opened ∧
      (w.step (.bulkIn fate)).shipped = w.shipped ∧
      (w.step (.bulkIn fate)).usb.regs.intFg.setupAct = w.usb.regs.intFg.setupAct := by
  have hhost : (w.host.hearIn w.usb.regs.ep1.txTog w.usb.regs.inPacket).opened =
      w.host.opened := by
    unfold Host.hearIn
    split <;> rfl
  simp only [step]
  split
  · cases fate with
    | lost => exact ⟨rfl, rfl, rfl⟩
    | unanswered | answered => exact ⟨hhost, rfl, rfl⟩
  · exact ⟨rfl, rfl, rfl⟩

theorem shipped_polled (h : w.usb.configures = false) : w.polled.shipped = w.shipped := by
  rw [polled, h]
  rfl

theorem in_round (h : w.Inv) (hconnected : w.Connected) :
    (run step w inRound).host.got = w.shipped ∧
      (run step w inRound).usb.dev.txBusy = false := by
  have hwaiting : w.polled.usb.regs.waiting = false := by
    rw [usb_polled]
    exact Peripheral.waiting_poll (h.calm hconnected.1)
  have hopened : w.polled.host.opened = true := by
    rw [host_polled]
    exact hconnected.1
  obtain ⟨hopened', hshipped, hsetup⟩ := w.polled.step_bulkIn .answered
  have hmiddle := inv_bulkIn (inv_polled h) .answered
  have hend := inv_polled hmiddle
  have hbusy := idle_after_in (inv_polled h) hopened hwaiting
  generalize hlast : (w.polled.step (.bulkIn .answered)).polled = last at hend hbusy
  have hrun : run step w inRound = last := hlast
  have hlastOpened : last.host.opened = true := by
    rw [← hlast, host_polled, hopened', hopened]
  have hquiet : last.usb.regs.waiting = false := by
    rw [← hlast, usb_polled]
    exact Peripheral.waiting_poll (hmiddle.calm (hopened'.trans hopened))
  have hflags := hquiet
  simp only [Regs.waiting, Bool.or_eq_false_iff] at hflags
  have hconfigures : last.usb.configures = false := by simp [Peripheral.configures, hflags.1.2]
  have hcarries := hend.carries hlastOpened hconfigures
  have hflight : (last.usb.pair.inLink last.usb.sentIn last.host).waiting = [] := by
    have hres := hcarries.armed.txRes
    rw [hbusy] at hres
    simp [BulkPair.inLink, BulkPair.inFlight, hres]
  have hgot : last.host.got = last.shipped := hcarries.back.taken_eq hflight
  rw [hrun]
  refine ⟨hgot.trans ?_, hbusy⟩
  have hnone : (w.polled.step (.bulkIn .answered)).usb.configures = false := by
    have hcalm := hwaiting
    simp only [Regs.waiting, Bool.or_eq_false_iff] at hcalm
    simp [Peripheral.configures, hsetup, hcalm.1.2]
  rw [← hlast, shipped_polled hnone, hshipped, shipped_polled hconnected.2]

/-- Wherever a run stands while the pipes are open, a round nothing is lost in brings the main
loop the packet the host is at and all before it, and the host all the main loop gave; the
next packet can go. -/
theorem bulk_round (uid : Vector UInt32 3) {acts : List Act}
    (hrest : Meets step ClearsAtRest (boot uid) acts)
    (hconnected : (run step (boot uid) acts).Connected) :
    (∀ packet rest, (run step (boot uid) acts).host.outQueue = packet :: rest →
        packet.length ≤ (run step (boot uid) acts).usb.regs.ep1.maxLen →
        (run step (boot uid) (acts ++ outRound)).host.outQueue = rest ∧
          ∃ told, told ++ rest = (run step (boot uid) acts).host.offered ∧
            told <+: (run step (boot uid) (acts ++ outRound)).consumed) ∧
      (run step (boot uid) (acts ++ inRound)).host.got = (run step (boot uid) acts).shipped ∧
      (run step (boot uid) (acts ++ inRound)).usb.dev.txBusy = false := by
  have hinv := inv_run (inv_boot uid) hrest
  rw [run_append, run_append]
  exact ⟨fun packet rest hqueue hfits => out_round hinv hconnected hqueue hfits,
    in_round hinv hconnected⟩

/-- A packet each way on the line, the main loop not back yet. -/
def halfwayActs : List Act := lossyActs.take 8 ++ [.tx [7]]

theorem halfway_wire_recovers :
    (∀ packet rest, (run step (boot #v[1, 2, 3]) halfwayActs).host.outQueue = packet :: rest →
        packet.length ≤ (run step (boot #v[1, 2, 3]) halfwayActs).usb.regs.ep1.maxLen →
        (run step (boot #v[1, 2, 3]) (halfwayActs ++ outRound)).host.outQueue = rest ∧
          ∃ told, told ++ rest = (run step (boot #v[1, 2, 3]) halfwayActs).host.offered ∧
            told <+: (run step (boot #v[1, 2, 3]) (halfwayActs ++ outRound)).consumed) ∧
      (run step (boot #v[1, 2, 3]) (halfwayActs ++ inRound)).host.got =
        (run step (boot #v[1, 2, 3]) halfwayActs).shipped ∧
      (run step (boot #v[1, 2, 3]) (halfwayActs ++ inRound)).usb.dev.txBusy = false :=
  bulk_round #v[1, 2, 3] (by decide +kernel) (by decide +kernel)

end Wire

end OpenServo.Usb
