import OpenServo.Protocol.Wire

/-!
# The USB device

The polled vendor-class device of the adapter: the control endpoint with its
descriptors, and one bulk pair.  The controller's registers belong to the state;
what the controller does to them on its own stands with the wire.
-/

namespace OpenServo.Usb

/-! ## Descriptors -/

def vid : UInt16 := 0x1209
def pid : UInt16 := 0x0001

def ep0Mps : ℕ := 64
def bulkMpsHs : ℕ := 512
def bulkMpsFs : ℕ := 64

/-- MS OS 2.0 vendor code, echoed from the BOS platform blob. -/
def msVendorCode : Byte := 0x20

def descDevice : Byte := 1
def descConfig : Byte := 2
def descString : Byte := 3
def descQualifier : Byte := 6
def descOtherSpeed : Byte := 7
def descBos : Byte := 0x0F

def ascii (text : String) : List Byte := text.toList.map fun c => UInt8.ofNat c.toNat

/-- ASCII as UTF-16LE. -/
def wide (text : List Byte) : List Byte := text.flatMap fun c => [c, 0]

def deviceDesc : List Byte :=
  [18, descDevice, 0x10, 0x02, 0x00, 0x00, 0x00, UInt8.ofNat ep0Mps] ++ u16ToLe vid.toNat ++
    u16ToLe pid.toNat ++ [0x00, 0x01, 1, 2, 3, 1]

def qualifierDesc : List Byte :=
  [10, descQualifier, 0x00, 0x02, 0x00, 0x00, 0x00, UInt8.ofNat ep0Mps, 1, 0]

/-- Configuration, interface and two bulk endpoints; `mps` depends on the speed. -/
def configDesc (mps : ℕ) : List Byte :=
  [9, descConfig, 32, 0, 1, 1, 0, 0x80, 250, 9, 4, 0, 0, 2, 0xFF, 0x00, 0x00, 4] ++
    [7, 5, 0x01, 0x02] ++ u16ToLe mps ++ [0] ++ [7, 5, 0x81, 0x02] ++ u16ToLe mps ++ [0]

def msOsDescLen : ℕ := 10 + 20 + 132

/-- BOS with the MS OS 2.0 platform capability. -/
def bosDesc : List Byte :=
  [5, descBos, 33, 0, 1, 28, 0x10, 0x05, 0x00, 0xDF, 0x60, 0xDD, 0xD8, 0x89, 0x45, 0xC7, 0x4C,
    0x9C, 0xD2, 0x65, 0x9D, 0x9E, 0x64, 0x8A, 0x9F, 0x00, 0x00, 0x03, 0x06] ++
    u16ToLe msOsDescLen ++ [msVendorCode, 0]

/-- MS OS 2.0 descriptor set: header, compatible ID, and the interface GUID property. -/
def msOsDesc : List Byte :=
  [10, 0, 0x00, 0x00, 0x00, 0x00, 0x03, 0x06] ++ u16ToLe msOsDescLen ++ [20, 0, 0x03, 0x00] ++
    ascii "WINUSB" ++ [0, 0] ++ List.replicate 8 0 ++ u16ToLe 132 ++
    [0x04, 0x00, 0x07, 0x00, 42, 0] ++ wide (ascii "DeviceInterfaceGUIDs" ++ [0]) ++
    u16ToLe 80 ++ wide (ascii "\x7b9db9fbf2-52f6-4e87-9d3d-6e8e29ef6b5e\x7d" ++ [0, 0])

def strManufacturer : List Byte := ascii "OpenServoCore"
def strProduct : List Byte := ascii "osc-adapter-wchlinke"
def strInterface : List Byte := ascii "osc-host"

/-- A string descriptor around its body. -/
def stringDesc (body : List Byte) : List Byte :=
  [UInt8.ofNat (2 + body.length), descString] ++ body

def hexDigit (nibble : UInt32) : Byte :=
  (ascii "0123456789abcdef").getD nibble.toNat 0

/-- The serial string: the 96-bit factory UID in hex. -/
def serialOf (uid : Vector UInt32 3) : List Byte :=
  uid.toList.flatMap fun word =>
    (List.range 8).map fun i => hexDigit ((word >>> (28 - 4 * UInt32.ofNat i)) &&& 0xF)

example : serialOf #v[0x0123ABCD, 0, 0xFFFFFFFF] = ascii "0123abcd00000000ffffffff" := by
  decide +kernel

/-! ## State -/

/-- Where the control endpoint is in a transfer. -/
inductive Ep0 where
  | idle
  /-- Streaming `stage[pos..len]` to the host, 64 bytes per IN. -/
  | dataIn (pos len : ℕ)
  /-- A zero-length OUT closes an IN data phase. -/
  | statusOut
  /-- A zero-length IN closes a no-data request. -/
  | statusIn
  deriving DecidableEq, Repr

structure UsbDevice where
  ep0 : Ep0
  ep0Tog : Bool
  addressPending : Option Byte
  configured : Bool
  txBusy : Bool
  txTog : Bool
  rxTog : Bool
  rxPending : Option ℕ
  stage : List Byte
  serial : List Byte

inductive EpRxResponse where
  | ack | nak | stall
  deriving DecidableEq, Repr

inductive EpTxResponse where
  | ack | nak | stall
  deriving DecidableEq, Repr

/-- The token of the transaction a transfer flag is about. -/
inductive UsbToken where
  | out
  | «in»
  deriving DecidableEq, Repr

/-- The registers and the buffer of the control endpoint; a toggle is true for DATA1. -/
structure Ep0Regs where
  rxTog : Bool
  rxRes : EpRxResponse
  txTog : Bool
  txRes : EpTxResponse
  tLen : ℕ
  buf : List Byte

/-- The registers and the buffers of the bulk pair. -/
structure Ep1Regs where
  enabled : Bool
  maxLen : ℕ
  rxTog : Bool
  rxRes : EpRxResponse
  txTog : Bool
  txRes : EpTxResponse
  tLen : ℕ
  rxBuf : List Byte
  txBuf : List Byte

structure IntFg where
  busRst : Bool
  setupAct : Bool
  transfer : Bool
  suspend : Bool
  deriving DecidableEq, Repr

structure IntSt where
  endp : ℕ
  token : UsbToken
  togOk : Bool
  deriving DecidableEq, Repr

structure Regs where
  highSpeed : Bool
  devAd : Byte
  ep0 : Ep0Regs
  ep1 : Ep1Regs
  rxLen : ℕ
  intFg : IntFg
  intSt : IntSt

/-- The device and its controller. -/
structure Peripheral where
  dev : UsbDevice
  regs : Regs

/-- Writes over the head of a buffer. -/
def overlay (buf src : List Byte) : List Byte := src ++ buf.drop src.length

theorem take_overlay (buf src : List Byte) : (overlay buf src).take src.length = src :=
  List.take_left

def UsbDevice.new (uid : Vector UInt32 3) : UsbDevice where
  ep0 := .idle
  ep0Tog := true
  addressPending := none
  configured := false
  txBusy := false
  txTog := false
  rxTog := false
  rxPending := none
  stage := List.replicate 256 0
  serial := serialOf uid

/-- The registers after `init_device`, before the host has reset the bus. -/
def Regs.init : Regs where
  highSpeed := false
  devAd := 0
  ep0 := ⟨false, .nak, false, .nak, 0, List.replicate ep0Mps 0⟩
  ep1 := ⟨false, 0, false, .nak, false, .nak, 0, List.replicate bulkMpsHs 0,
    List.replicate bulkMpsHs 0⟩
  rxLen := 0
  intFg := ⟨false, false, false, false⟩
  intSt := ⟨0, .out, false⟩

/-! ## Requests -/

/-- The requests the device tells apart; the others are stalled. -/
inductive Request where
  | getDescriptor (kind idx : Byte)
  | getStatus
  | setAddress (addr : Byte)
  | setConfiguration (value : UInt16)
  | getConfiguration
  | getInterface
  | setInterface
  | clearHalt (endpoint : Byte)
  | msOsDescriptor
  | unknown
  deriving DecidableEq, Repr

/-- The eight bytes of a SETUP packet. -/
structure Setup where
  reqType : Byte
  request : Byte
  value : UInt16
  index : UInt16
  length : UInt16
  deriving DecidableEq, Repr

namespace Setup

def parse (buf : List Byte) : Setup where
  reqType := buf.getD 0 0
  request := buf.getD 1 0
  value := fromLeBytes16 (buf.getD 2 0) (buf.getD 3 0)
  index := fromLeBytes16 (buf.getD 4 0) (buf.getD 5 0)
  length := fromLeBytes16 (buf.getD 6 0) (buf.getD 7 0)

/-- The match of `on_setup` on request type and request, in its order. -/
def kind (setup : Setup) : Request :=
  if setup.reqType = 0x80 ∧ setup.request = 6 then
    .getDescriptor (setup.value >>> 8).toUInt8 (setup.value &&& 0xFF).toUInt8
  else if (0x80 ≤ setup.reqType ∧ setup.reqType ≤ 0x82) ∧ setup.request = 0 then .getStatus
  else if setup.reqType = 0x00 ∧ setup.request = 5 then .setAddress (setup.value &&& 0x7F).toUInt8
  else if setup.reqType = 0x00 ∧ setup.request = 9 then .setConfiguration setup.value
  else if setup.reqType = 0x80 ∧ setup.request = 8 then .getConfiguration
  else if setup.reqType = 0x81 ∧ setup.request = 10 then .getInterface
  else if setup.reqType = 0x01 ∧ setup.request = 11 ∧ setup.value = 0 then .setInterface
  else if setup.reqType = 0x02 ∧ setup.request = 1 ∧ setup.value = 0 then
    .clearHalt setup.index.toUInt8
  else if setup.reqType = 0xC0 ∧ setup.request = msVendorCode ∧ setup.index = 7 then
    .msOsDescriptor
  else .unknown

end Setup

namespace Peripheral

variable (u : Peripheral)

/-- Current bulk packet ceiling, per negotiated speed. -/
def mps : ℕ := if u.regs.highSpeed then bulkMpsHs else bulkMpsFs

/-- Puts a reply on the stage. -/
def load (bytes : List Byte) : Option ℕ × Peripheral :=
  (some bytes.length, { u with dev.stage := overlay u.dev.stage bytes })

def loadDescriptor (kind idx : Byte) : Option ℕ × Peripheral :=
  if kind = descDevice then u.load deviceDesc
  else if kind = descConfig then u.load (configDesc u.mps)
  else if kind = descQualifier then u.load qualifierDesc
  else if kind = descOtherSpeed then (none, u)
  else if kind = descBos then u.load bosDesc
  else if kind = descString then
    if idx = 0 then u.load (stringDesc [0x09, 0x04])
    else if idx = 1 then u.load (stringDesc (wide strManufacturer))
    else if idx = 2 then u.load (stringDesc (wide strProduct))
    else if idx = 3 then u.load (stringDesc (wide u.dev.serial))
    else if idx = 4 then u.load (stringDesc (wide strInterface))
    else (none, u)
  else (none, u)

def configureEp1 : Peripheral where
  dev := { u.dev with
    rxTog := false, txTog := false, txBusy := false, rxPending := none, configured := true }
  regs := { u.regs with
    ep1 := { u.regs.ep1 with
      enabled := true, maxLen := u.mps, rxTog := false, rxRes := .ack, txTog := false,
      txRes := .nak } }

/-- CLEAR_FEATURE(ENDPOINT_HALT): resets the named toggle of the device, and no register. -/
def clearHalt (endpoint : Byte) : Peripheral :=
  if endpoint = 0x01 then { u with dev.rxTog := false }
  else if endpoint = 0x81 then { u with dev.txTog := false }
  else u

/-- What a request does at once, and how many bytes it staged for the host. -/
def serve : Request → Option ℕ × Peripheral
  | .getDescriptor kind idx => u.loadDescriptor kind idx
  | .getStatus => u.load [0, 0]
  | .setAddress addr => (some 0, { u with dev.addressPending := some addr })
  | .setConfiguration value =>
      if value = 0 then (some 0, { u with dev.configured := false })
      else if value = 1 then (some 0, u.configureEp1)
      else (none, u)
  | .getConfiguration => u.load [if u.dev.configured then 1 else 0]
  | .getInterface => u.load [0]
  | .setInterface => (some 0, u)
  | .clearHalt endpoint => (some 0, u.clearHalt endpoint)
  | .msOsDescriptor => u.load msOsDesc
  | .unknown => (none, u)

/-! ## The control endpoint -/

/-- Arms the next chunk of the data phase. -/
def ep0SendChunk : Peripheral :=
  match u.dev.ep0 with
  | .dataIn pos len =>
      let n := min (len - pos) ep0Mps
      { dev := { u.dev with ep0 := .dataIn (pos + n) len, ep0Tog := !u.dev.ep0Tog }
        regs := { u.regs with
          ep0 := { u.regs.ep0 with
            buf := overlay u.regs.ep0.buf ((u.dev.stage.drop pos).take n)
            tLen := n, txTog := u.dev.ep0Tog, txRes := .ack } } }
  | _ => u

def ep0Stall : Peripheral where
  dev := { u.dev with ep0 := .idle }
  regs := { u.regs with
    ep0 := { u.regs.ep0 with
      txTog := false, txRes := .stall, rxTog := false, rxRes := .stall } }

/-- Both directions of the control endpoint NAK. -/
def ep0Nak : Peripheral :=
  { u with
    regs.ep0 := { u.regs.ep0 with txTog := false, txRes := .nak, rxTog := false, rxRes := .nak } }

/-- A zero-length status IN, DATA1. -/
def ep0StatusIn : Peripheral where
  dev := { u.dev with ep0 := .statusIn }
  regs := { u.regs with ep0 := { u.regs.ep0 with tLen := 0, txTog := true, txRes := .ack } }

/-- Starts the data phase of a reply of which the host wants no more than `len` bytes. -/
def ep0DataIn (len : ℕ) : Peripheral :=
  ep0SendChunk { u with dev := { u.dev with ep0 := .dataIn 0 len, ep0Tog := true } }

/-- How a request is answered. -/
def ep0Reply (reply : Option ℕ) (length : ℕ) : Peripheral :=
  match reply with
  | none => u.ep0Stall
  | some n => if n = 0 ∧ length = 0 then u.ep0StatusIn else u.ep0DataIn (min n length)

/-- The SETUP packet in the buffer. -/
def setup : Setup := .parse u.regs.ep0.buf

/-- A SETUP in the middle of a transfer aborts it. -/
def ep0Abort : Peripheral := { u.ep0Nak with dev.ep0 := .idle }

def onSetup : Peripheral :=
  let (reply, served) := u.ep0Abort.serve u.setup.kind
  served.ep0Reply reply u.setup.length.toNat

def onEp0Transfer (token : UsbToken) : Peripheral :=
  match token, u.dev.ep0 with
  | .«in», .dataIn pos len =>
      if pos < len then u.ep0SendChunk
      else
        -- the data phase is done: the zero-length status OUT is armed
        { dev := { u.dev with ep0 := .statusOut }
          regs := { u.regs with
            ep0 := { u.regs.ep0 with
              txTog := false, txRes := .nak, rxTog := true, rxRes := .ack } } }
  | .«in», .statusIn =>
      { dev := { u.dev with ep0 := .idle, addressPending := none }
        regs := { u.regs with
          ep0 := { u.regs.ep0 with txTog := false, txRes := .nak }
          devAd := u.dev.addressPending.getD u.regs.devAd } }
  | .out, .statusOut =>
      { dev := { u.dev with ep0 := .idle }
        regs := { u.regs with ep0 := { u.regs.ep0 with rxTog := false, rxRes := .nak } } }
  | _, _ => u

/-! ## The bulk pair -/

def onEp1Transfer (token : UsbToken) (togOk : Bool) : Peripheral :=
  match token with
  | .out =>
      -- a duplicate, its answer lost: the endpoint stays armed for the retry's successor
      if togOk then
        { dev := { u.dev with rxTog := !u.dev.rxTog, rxPending := some u.regs.rxLen }
          regs := { u.regs with
            ep1 := { u.regs.ep1 with rxTog := !u.dev.rxTog, rxRes := .nak } } }
      else u
  | .«in» =>
      { dev := { u.dev with txTog := !u.dev.txTog, txBusy := false }
        regs := { u.regs with ep1 := { u.regs.ep1 with txRes := .nak } } }

/-- Bytes of the last completed OUT, until `rxConsume`. -/
def rx : Option (List Byte) := u.dev.rxPending.map fun n => u.regs.ep1.rxBuf.take n

def rxConsume : Peripheral :=
  if u.dev.rxPending.isSome then
    { dev := { u.dev with rxPending := none }
      regs := { u.regs with ep1 := { u.regs.ep1 with rxRes := .ack } } }
  else u

def txReady : Bool := u.dev.configured && !u.dev.txBusy

/-- Queues one IN packet; the caller asks `txReady` first. -/
def tx (bytes : List Byte) : Peripheral where
  dev := { u.dev with txBusy := true }
  regs := { u.regs with
    ep1 := { u.regs.ep1 with
      txBuf := overlay u.regs.ep1.txBuf bytes, tLen := bytes.length, txTog := u.dev.txTog,
      txRes := .ack } }

/-! ## Polling -/

def onBusReset : Peripheral where
  dev := { u.dev with
    ep0 := .idle, addressPending := none, configured := false, txBusy := false,
    rxPending := none }
  regs := { u.regs with
    devAd := 0
    ep0 := { u.regs.ep0 with txTog := false, txRes := .nak, rxTog := false, rxRes := .nak }
    ep1 := { u.regs.ep1 with
      enabled := false, txTog := false, txRes := .nak, rxTog := false, rxRes := .nak } }

def onTransfer : Peripheral :=
  match u.regs.intSt.endp with
  | 0 => u.onEp0Transfer u.regs.intSt.token
  | 1 => u.onEp1Transfer u.regs.intSt.token u.regs.intSt.togOk
  | _ => u

/-- Services one pending flag at most. -/
def poll : Peripheral :=
  if u.regs.intFg.busRst then { u.onBusReset with regs.intFg.busRst := false }
  else if u.regs.intFg.setupAct then
    { u.onSetup with regs.intFg.setupAct := false, regs.intFg.transfer := false }
  else if u.regs.intFg.transfer then { u.onTransfer with regs.intFg.transfer := false }
  else { u with regs.intFg.suspend := false }

end Peripheral

end OpenServo.Usb
