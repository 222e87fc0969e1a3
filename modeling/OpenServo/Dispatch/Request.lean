import OpenServo.Protocol.FrameBytes

/-!
# The dispatch contract

What crosses the line between the bus and the core: decoded requests with
their reply context, status replies, and the two ports the core drives, the
reply surface and the persistence store.  `Request` is generic in how it
carries payload bytes: the bus hands out ring views, and the same type over
plain byte strings says what a request means.
-/

namespace OpenServo

inductive BootMode where
  | app
  | bootloader
  deriving DecidableEq, Repr

/-- A decoded instruction addressed to this servo. -/
inductive Request (δ : Type) where
  | ping
  | read (addr count : ℕ)
  | readProfile (slot : Byte)
  | write (addr : ℕ) (data : δ) (hold : Bool)
  | commit
  | enumerate (prefixLen : Byte) (pre : List Byte)
  | assign (uid : List Byte) (newId : Byte)
  | calibrate (gapUs : ℕ) (gaps : Byte)
  | mgmt (op : MgmtOp) (args : δ)
  | unsupported
  deriving DecidableEq, Repr

def Request.map {δ ε : Type} (f : δ → ε) : Request δ → Request ε
  | ping => ping
  | read addr count => read addr count
  | readProfile slot => readProfile slot
  | write addr data hold => write addr (f data) hold
  | commit => commit
  | enumerate prefixLen pre => enumerate prefixLen pre
  | assign uid newId => assign uid newId
  | calibrate gapUs gaps => calibrate gapUs gaps
  | mgmt op args => mgmt op (f args)
  | unsupported => unsupported

/-- Bus-derived context: may a status be sent for this request? -/
structure RequestCtx where
  mayReply : Bool
  deriving DecidableEq, Repr

structure Status where
  result : ResultCode
  alert : Bool
  data : List Byte
  deriving DecidableEq, Repr

/-- Max spans per gathered status. -/
def gatherMax : ℕ := 8

/-- The dispatcher-facing reply surface.  The dispatcher ignores the outcome
of a send, so only the surface's state after it is kept. -/
class Reply (ρ : Type) where
  sendStatus : ρ → Status → ρ
  sendStatusGather : ρ → ResultCode → Bool → List (List Byte) → ρ
  stageId : ρ → Byte → ρ
  setId : ρ → Byte → ρ
  stageBaud : ρ → BaudRate → ρ
  setResponseDeadline : ρ → ℕ → ρ
  stageReboot : ρ → BootMode → ρ
  beginClockCal : ρ → ℕ → Byte → ρ

/-- The persistence port: each call reports success and the store after it. -/
class ConfigStore (σ : Type) where
  save : σ → List Byte → List Byte → Bool × σ
  wipe : σ → Bool × σ

/-- Outcome of a dispatch: is a table effect staged? -/
inductive Dispatched where
  | done
  | pending
  deriving DecidableEq, Repr

end OpenServo
