import OpenServo.Host.Calls
import OpenServo.Host.Record

/-!
# The link server

Pipe bytes in, engine calls down, engine events up, records out.  The seq of the
outstanding command and of the outstanding wire operation live here, whether one is
outstanding is the engine's to say.
-/

namespace OpenServo.Host

open Ledger

/-- Accumulation bound, past the largest legal record. -/
def rxCap : ℕ := 512

/-- An adapter-level action a record requested. -/
inductive AdapterRequest where
  | enterBootloader
  | setRails (v3v3 v5 : Bool)
  deriving DecidableEq, Repr

structure LinkServer where
  rx : List Byte
  /-- The seq owning the engine's outstanding command. -/
  active : Option UInt16
  /-- The seq owning the outstanding wire operation. -/
  wireActive : Option UInt16
  /-- The queued request to the chip. -/
  req : Option AdapterRequest
  /-- The rails mirror. -/
  rails : Byte
  deriving DecidableEq, Repr

def LinkServer.new : LinkServer := ⟨[], none, none, none, railsBootState⟩

/-- What the pipe saw: a record and what was sent while it was handled, a record for
an engine event, or the answer to a framing breach. -/
inductive Heard where
  | record (record : List Byte) (answers : List Sent)
  | event (sent : Sent)
  | breach
  deriving DecidableEq, Repr

/-- The records the sink got. -/
def Heard.sent : Heard → List Sent
  | .record _ answers => answers
  | .event sent => [sent]
  | .breach => [.unknown 0xFF]

/-- The server, the engine it drives, and the log of the pipe. -/
structure Link where
  server : LinkServer
  bus : HostBus
  log : List Heard

namespace Link

def new (bus : HostBus) : Link := ⟨.new, bus, []⟩

def hear (link : Link) (heard : Heard) : Link := { link with log := link.log ++ [heard] }

/-- Drain the pending adapter-level request. -/
def takeAdapterRequest (link : Link) : Option AdapterRequest × Link :=
  (link.server.req, { link with server.req := none })

/-! ## Records in -/

/-- The records an answer of the engine to a command or wire operation becomes. -/
def refusal (seq : UInt16) (code : InvalidReason → Byte) : SubmitError → Sent
  | .busy => .rejected seq reasonBusy
  | .invalid reason => .rejected seq (code reason)

/-- The engine works for `owner` on `seq` from here on. -/
def owned (link : Link) (seq : UInt16) (bus : HostBus) : Owner → Link
  | .command => { link with bus, server.active := some seq }
  | .wire => { link with bus, server.wireActive := some seq }

/-- What the server makes of the engine's answer to a call on `seq`. -/
def answerCall (link : Link) (owner : Owner) (seq : UInt16) (code : InvalidReason → Byte)
    (result : Except SubmitError Unit × HostBus) : List Sent × Link :=
  match result with
  | (.ok (), bus) => ([], link.owned seq bus owner)
  | (.error err, bus) => ([refusal seq code err], { link with bus })

def wireOp (link : Link) (inp : Inputs) (seq : UInt16) (op : WireOp) : List Sent × Link :=
  link.answerCall .wire seq (fun _ => reasonMalformed) (link.bus.wireOp inp op)

def submit (link : Link) (inp : Inputs) (seq : UInt16) (cmd : Command) : List Sent × Link :=
  link.answerCall .command seq reasonCode (link.bus.submit inp cmd)

def setRails (link : Link) (state mask : Byte) : List Sent × Link :=
  let rails := (link.server.rails &&& ~~~mask) ||| (state &&& mask)
  let link := { link with server.rails := rails }
  let link :=
    if mask != 0 then
      { link with server.req := some (.setRails (rails &&& 1 != 0) (rails &&& 2 != 0)) }
    else link
  ([.railsAck rails], link)

/-- Rises are drained first, so that a torn pair reads fall first. -/
def edgeDrain (link : Link) (inp : Inputs) (max : Byte) : List Sent × Link :=
  let bound := min max.toNat drainMax
  let (rises, edges) := link.bus.edges.drainRises bound
  let (falls, edges) := edges.drainFalls bound
  ([.edges edges.overflow inp.now falls rises], { link with bus.edges := edges })

/-- What one complete record makes the server do, and what it answers at once. -/
def serve (link : Link) (inp : Inputs) : Asked → List Sent × Link
  | .hello => ([.info inp.ticksPerUs], link)
  | .enterBootloader => ([.bootloaderAck], { link with server.req := some .enterBootloader })
  | .setRails state mask => link.setRails state mask
  | .wire seq (some op) => link.wireOp inp seq op
  | .wire seq none | .submit seq none => ([.rejected seq reasonMalformed], link)
  | .edgeDrain max => link.edgeDrain inp max
  | .captureReset => ([.captureAck], { link with bus.edges := .empty })
  | .submit seq (some cmd) => link.submit inp seq cmd
  | .unknown rtype => ([.unknown rtype], link)

/-- One complete record. -/
def handle (link : Link) (inp : Inputs) (record : List Byte) : Link :=
  let (answers, link) := link.serve inp (readRecord record)
  link.hear (.record record answers)

/-- Handle the complete records at the front of the buffer. -/
def extract (inp : Inputs) : ℕ → Link → Link
  | 0, link => link
  | fuel + 1, link =>
      let rx := link.server.rx
      if rx.length < 2 then link
      else
        let len := u16FromLe (rx.getD 0 0) (rx.getD 1 0)
        if len == 0 || len > rxCap - 2 then
          -- there is no resync point in a length-prefixed stream
          { link with server.rx := [] }.hear .breach
        else if rx.length < 2 + len then link
        else
          let link := link.handle inp ((rx.drop 2).take len)
          extract inp fuel { link with server.rx := rx.drop (2 + len) }

/-- The delivery loop: as much as there is room for, then whatever is complete. -/
def feed (inp : Inputs) : ℕ → List Byte → Link → Link
  | 0, _, link => link
  | fuel + 1, bytes, link =>
      if bytes.isEmpty then link
      else
        let take := min (rxCap - link.server.rx.length) bytes.length
        let link := { link with server.rx := link.server.rx ++ bytes.take take }
        let link := link.extract inp link.server.rx.length
        let link :=
          if take == 0 then { link with server.rx := [] }.hear .breach else link
        feed inp fuel (bytes.drop take) link

/-- Bytes as the pipe delivered them.  A turn of the loop that takes nothing empties
the buffer, so every second turn takes a byte at least. -/
def onPipe (link : Link) (inp : Inputs) (bytes : List Byte) : Link :=
  feed inp (2 * bytes.length) bytes link

/-! ## Events out -/

/-- The record an engine event becomes. -/
def onEvent (link : Link) : Event → Link
  | .status slot id inst payload =>
      link.hear (.event (.status (link.server.active.getD seqNone) slot id.byte inst.byte payload))
  | .done terminal =>
      let seq := link.server.active.getD seqNone
      { link with server.active := none }.hear (.event (.terminal seq terminal))
  | .wireDone tick =>
      let seq := link.server.wireActive.getD seqNone
      { link with server.wireActive := none }.hear (.event (.wireDone seq tick))

/-- Drain engine events into records: a poll for each of `reads`, up to the first that
yields nothing. -/
def pump (link : Link) : List Inputs → Link
  | [] => link
  | inp :: reads =>
      match link.bus.poll inp with
      | (none, bus) => { link with bus }
      | (some event, bus) => pump ({ link with bus }.onEvent event) reads

end Link

/-! ## The link as a machine -/

/-- What happens to a link: the pipe delivers, the main loop pumps, the chip calls back,
and the edge capture moves on. -/
inductive LinkAct where
  | pipe (inp : Inputs) (bytes : List Byte)
  | pump (reads : List Inputs)
  | txComplete (inp : Inputs)
  | deadline (inp : Inputs)
  | takeAdapterRequest
  | capture (edges : EdgeCapture)

/-- The bytes an act delivers. -/
def LinkAct.delivered : LinkAct → List Byte
  | .pipe _ bytes => bytes
  | _ => []

namespace Link

def act (link : Link) : LinkAct → Link
  | .pipe inp bytes => link.onPipe inp bytes
  | .pump reads => link.pump reads
  | .txComplete inp => { link with bus := link.bus.onTxComplete inp }
  | .deadline inp => { link with bus := link.bus.onDeadline inp }
  | .takeAdapterRequest => link.takeAdapterRequest.2
  | .capture edges => { link with bus.edges := edges }

/-- One input of the machine: an act, and what the pipe saw of it. -/
def step (link : Link) (act : LinkAct) : List Heard × Link :=
  ((link.act act).log.drop link.log.length, link.act act)

end Link

end OpenServo.Host
