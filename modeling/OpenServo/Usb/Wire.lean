import OpenServo.Core.DataToggle
import OpenServo.Usb.Device

/-!
# The USB wire

The host, the controller and the device between them.  The host repeats a packet
until it is answered; the controller holds the host off while a flag waits for
service; packets and answers get lost.  The transactions are those addressed to
the device.
-/

namespace OpenServo.Usb

/-- What becomes of a transaction: the packet is lost, or only its answer, or neither. -/
inductive Fate where
  | lost
  | unanswered
  | answered
  deriving DecidableEq, Repr

/-! ## The controller -/

namespace Regs

variable (regs : Regs)

/-- A flag waits for service, and the host is held off. -/
def waiting : Bool := regs.intFg.busRst || regs.intFg.setupAct || regs.intFg.transfer

/-- Leaves a completed transaction to the device. -/
def latch (endp : ℕ) (token : UsbToken) (togOk : Bool) : Regs :=
  { regs with intFg := { regs.intFg with transfer := true }, intSt := ⟨endp, token, togOk⟩ }

/-- A SETUP packet is taken whatever the control endpoint answers otherwise. -/
def takeSetup (packet : Vector Byte 8) : Regs :=
  { regs with
    ep0 := { regs.ep0 with buf := overlay regs.ep0.buf packet.toList }
    intFg := { regs.intFg with setupAct := true } }

def takesOut (packet : List Byte) : Bool :=
  regs.ep1.enabled && !regs.waiting && regs.ep1.rxRes == .ack &&
    decide (packet.length ≤ regs.ep1.maxLen)

/-- A packet under the wrong toggle is taken all the same, and marked. -/
def takeOut (tog : Bool) (packet : List Byte) : Regs :=
  { regs with
    ep1 := { regs.ep1 with rxBuf := overlay regs.ep1.rxBuf packet }
    rxLen := packet.length }.latch 1 .out (tog == regs.ep1.rxTog)

def sendsIn : Bool := regs.ep1.enabled && !regs.waiting && regs.ep1.txRes == .ack

def inPacket : List Byte := regs.ep1.txBuf.take regs.ep1.tLen

def ep0SendsIn : Bool := !regs.waiting && regs.ep0.txRes == .ack

def ep0Packet : List Byte := regs.ep0.buf.take regs.ep0.tLen

def ep0TakesOut : Bool := !regs.waiting && regs.ep0.rxRes == .ack

end Regs

/-! ## The host -/

/-- The host's ends of the three pipes. -/
structure Host where
  /-- The bulk pipes are open. -/
  opened : Bool
  /-- Packets not answered yet, the one it repeats first. -/
  outQueue : List (List Byte)
  outTog : Bool
  /-- All packets given to the OUT pipe since it was opened. -/
  offered : List (List Byte)
  inTog : Bool
  got : List (List Byte)
  ctlTog : Bool
  /-- What the running control transfer has brought. -/
  ctlGot : List (List Byte)

namespace Host

variable (host : Host)

def idle : Host := ⟨false, [], false, [], false, [], true, []⟩

/-- A control transfer starts; the requests about the bulk endpoints reset its own ends. -/
def setup (request : Request) : Host :=
  match request with
  | .setConfiguration value =>
      if value = 0 then { host with opened := false, ctlTog := true, ctlGot := [] }
      else if value = 1 then { idle with opened := true }
      else { host with ctlTog := true, ctlGot := [] }
  | .clearHalt endpoint =>
      { host with
        outTog := host.outTog && endpoint != 0x01
        inTog := host.inTog && endpoint != 0x81
        ctlTog := true, ctlGot := [] }
  | _ => { host with ctlTog := true, ctlGot := [] }

def hearIn (tog : Bool) (packet : List Byte) : Host :=
  if tog = host.inTog then { host with inTog := !host.inTog, got := host.got ++ [packet] }
  else host

def hearCtl (tog : Bool) (packet : List Byte) : Host :=
  if tog = host.ctlTog then { host with ctlTog := !host.ctlTog, ctlGot := host.ctlGot ++ [packet] }
  else host

/-- The packet at the head of the queue was answered. -/
def advance : Host := { host with outQueue := host.outQueue.tail, outTog := !host.outTog }

end Host

/-! ## The whole -/

structure Wire where
  usb : Peripheral
  host : Host
  /-- The packets the main loop took since the bulk pair was configured. -/
  consumed : List (List Byte)
  /-- The packets it gave to the IN endpoint since then. -/
  shipped : List (List Byte)

inductive Act where
  /-- The host resets the bus and negotiates a speed. -/
  | reset (highSpeed : Bool)
  | suspend
  | setup (packet : Vector Byte 8)
  | ep0In (fate : Fate)
  | ep0Out
  /-- The host's client writes a packet. -/
  | submit (packet : List Byte)
  | bulkOut (fate : Fate)
  | bulkIn (fate : Fate)
  | poll
  /-- The main loop takes the packet and re-arms the endpoint. -/
  | consume
  | tx (bytes : List Byte)
  deriving DecidableEq, Repr

/-- The next poll configures the bulk pair. -/
def Peripheral.configures (u : Peripheral) : Bool :=
  !u.regs.intFg.busRst && u.regs.intFg.setupAct && u.setup.kind == .setConfiguration 1

namespace Wire

variable (w : Wire)

def boot (uid : Vector UInt32 3) : Wire := ⟨⟨.new uid, .init⟩, .idle, [], []⟩

/-- One transaction of the OUT pipe. -/
def bulkOut (packet : List Byte) : Fate → Wire
  | .lost => w
  | .unanswered => { w with usb.regs := w.usb.regs.takeOut w.host.outTog packet }
  | .answered =>
      { w with
        usb := { w.usb with regs := w.usb.regs.takeOut w.host.outTog packet }
        host := w.host.advance }

/-- One transaction of the IN pipe. -/
def bulkIn : Fate → Wire
  | .lost => w
  | .unanswered =>
      { w with host := w.host.hearIn w.usb.regs.ep1.txTog w.usb.regs.inPacket }
  | .answered =>
      { w with
        usb := { w.usb with regs := w.usb.regs.latch 1 .in true }
        host := w.host.hearIn w.usb.regs.ep1.txTog w.usb.regs.inPacket }

/-- One transaction of the control pipe to the host. -/
def ep0In : Fate → Wire
  | .lost => w
  | .unanswered =>
      { w with host := w.host.hearCtl w.usb.regs.ep0.txTog w.usb.regs.ep0Packet }
  | .answered =>
      { w with
        usb := { w.usb with regs := w.usb.regs.latch 0 .in true }
        host := w.host.hearCtl w.usb.regs.ep0.txTog w.usb.regs.ep0Packet }

def polled : Wire :=
  if w.usb.configures then { w with usb := w.usb.poll, consumed := [], shipped := [] }
  else { w with usb := w.usb.poll }

def step : Act → Wire
  | .reset highSpeed =>
      { w with
        host := { w.host with opened := false }
        usb := { w.usb with
          regs := { w.usb.regs with
            highSpeed := highSpeed
            intFg := { w.usb.regs.intFg with busRst := true } } } }
  | .suspend =>
      { w with
        usb := { w.usb with
          regs := { w.usb.regs with intFg := { w.usb.regs.intFg with suspend := true } } } }
  | .setup packet =>
      if w.usb.regs.waiting then w
      else
        { w with
          usb := { w.usb with regs := w.usb.regs.takeSetup packet }
          host := w.host.setup (Setup.parse packet.toList).kind }
  | .ep0In fate => if w.usb.regs.ep0SendsIn then w.ep0In fate else w
  | .ep0Out =>
      if w.usb.regs.ep0TakesOut then
        { w with usb := { w.usb with regs := w.usb.regs.latch 0 .out true } }
      else w
  | .submit packet =>
      if w.host.opened then
        { w with
          host := { w.host with
            outQueue := w.host.outQueue ++ [packet], offered := w.host.offered ++ [packet] } }
      else w
  | .bulkOut fate =>
      match w.host.outQueue with
      | [] => w
      | packet :: _ =>
          if w.host.opened && w.usb.regs.takesOut packet then w.bulkOut packet fate else w
  | .bulkIn fate => if w.host.opened && w.usb.regs.sendsIn then w.bulkIn fate else w
  | .poll => w.polled
  | .consume =>
      match w.usb.rx with
      | none => w
      | some packet => { w with usb := w.usb.rxConsume, consumed := w.consumed ++ [packet] }
  | .tx bytes =>
      if w.usb.txReady && decide (bytes.length ≤ w.usb.mps) then
        { w with usb := w.usb.tx bytes, shipped := w.shipped ++ [bytes] }
      else w

end Wire

end OpenServo.Usb
