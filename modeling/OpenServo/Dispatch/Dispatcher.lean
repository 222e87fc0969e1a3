import OpenServo.Dispatch.Request
import OpenServo.Protocol.Parse
import OpenServo.Table.Regions

/-!
# The dispatcher

Dispatch runs ahead of the frame's verdict and stages its effects: the reply
through the reply surface, a write above a watermark of the staging buffer.
`commit` and `revert` carry the verdict to the staged write; a write whose
frame died without one is dropped by the next dispatch.
-/

namespace OpenServo

open Table

/-- A write staged before its verdict. -/
structure PendingWrite where
  /-- Staging watermark before this write. -/
  snap : Snapshot
  hold : Bool
  addr : ℕ
  len : ℕ
  deriving DecidableEq, Repr

/-- Shared state, the staging buffer and the pending-write slot. -/
structure Dispatcher (σ : Type) where
  table : ControlTable
  uid : List Byte
  store : Option σ
  staged : StagedWrites
  pending : Option PendingWrite
  deriving DecidableEq

def statusFlagConfigDirty : Byte := 1

/-- Map a control-table failure onto a result code. -/
def errorToResult : Error → ResultCode
  | .accessError => .access
  | .validationError _ => .validation
  | _ => .range

namespace Dispatcher

variable {σ ρ : Type} [ConfigStore σ] [Reply ρ]

/-- Discard a pending write left dangling by a frame that died. -/
def revertDangling (d : Dispatcher σ) : Dispatcher σ :=
  match d.pending with
  | some pending => { d with staged := d.staged.revertTo pending.snap, pending := none }
  | none => d

/-- Device-level alert: set while the alarm register is nonzero. -/
def alert (d : Dispatcher σ) : Bool := d.table.get Addr.faultFlags != 0

/-! ## Replies -/

/-- Empty-payload status gated on the reply contract. -/
def ackCode (alert : Bool) (ctx : RequestCtx) (code : ResultCode) (reply : ρ) : ρ :=
  if !ctx.mayReply then reply else Reply.sendStatus reply ⟨code, alert, []⟩

def ack (alert : Bool) (ctx : RequestCtx) (result : Except Error Unit) (reply : ρ) : ρ :=
  let code := match result with
    | .ok () => .ok
    | .error e => errorToResult e
  ackCode alert ctx code reply

def instructionError (alert : Bool) (ctx : RequestCtx) (reply : ρ) : ρ :=
  if !ctx.mayReply then reply else Reply.sendStatus reply ⟨.instruction, alert, []⟩

def ping (d : Dispatcher σ) (alert : Bool) (ctx : RequestCtx) (reply : ρ) : ρ :=
  if !ctx.mayReply then reply
  else
    let data := match d.table.read Addr.modelNumber 3 with
      | .ok data => data
      | .error _ => []
    Reply.sendStatus reply ⟨.ok, alert, data⟩

def read (d : Dispatcher σ) (alert : Bool) (ctx : RequestCtx) (addr count : ℕ) (reply : ρ) : ρ :=
  if !ctx.mayReply then reply
  else if count == 0 then Reply.sendStatus reply ⟨.range, alert, []⟩
  else if count > maxPayload then Reply.sendStatus reply ⟨.limit, alert, []⟩
  else
    match d.table.read addr count with
    | .ok data => Reply.sendStatus reply ⟨.ok, alert, data⟩
    | .error _ => Reply.sendStatus reply ⟨.range, alert, []⟩

/-- Resolve span words against the live table: the spans and their total, or
`none` at the first span that leaves the map.  Disabled words are skipped. -/
def gatherSpans (t : ControlTable) : List ℕ → Option (List (List Byte) × ℕ)
  | [] => some ([], 0)
  | w :: words =>
      match spanOf w with
      | none => gatherSpans t words
      | some (addr, count) =>
          match t.read addr count with
          | .error _ => none
          | .ok data =>
              (gatherSpans t words).map fun (spans, total) => (data :: spans, count + total)

def readProfile (d : Dispatcher σ) (alert : Bool) (ctx : RequestCtx) (slot : Byte)
    (reply : ρ) : ρ :=
  let nack (result : ResultCode) := Reply.sendStatus reply ⟨result, alert, []⟩
  if !ctx.mayReply then reply
  else
    match slotWords d.table slot with
    | none => nack .range
    | some words =>
        match gatherSpans d.table words with
        | none => nack .range
        | some (spans, total) =>
            if spans.isEmpty then nack .range
            else if total > maxPayload then nack .limit
            else Reply.sendStatusGather reply .ok alert spans

/-! ## Writes -/

/-- A committed span in CONFIG or PROFILE sets the modified-since-save bit. -/
def hitsPersistent (addr len : ℕ) : Bool :=
  let configEnd := configBaseAddr + configRegionSize
  let profileEnd := profileBaseAddr + profileRegionSize
  let stop := min (addr + len) 65535
  addr < configEnd || (addr < profileEnd && stop > profileBaseAddr)

def setDirty (t : ControlTable) : ControlTable :=
  t.set Addr.statusFlags (t.get Addr.statusFlags ||| statusFlagConfigDirty)

def markDirtyIfPersistent (t : ControlTable) (addr len : ℕ) : ControlTable :=
  if hitsPersistent addr len then setDirty t else t

/-- Does the written span touch the field? -/
def touches (addr len fieldAddr fieldLen : ℕ) : Bool :=
  addr < fieldAddr + fieldLen && fieldAddr < addr + len

/-- Field-write hooks of a committed span, on the applied values. -/
def dispatchEvents (t : ControlTable) (addr len : ℕ) (reply : ρ) : ρ :=
  let reply :=
    if touches addr len Addr.id 1 then Reply.stageId reply (t.get Addr.id) else reply
  let reply :=
    if touches addr len Addr.baudRateIdx 1 then
      match BaudRate.fromIdx (t.get Addr.baudRateIdx) with
      | some baud => Reply.stageBaud reply baud
      | none => reply
    else reply
  if touches addr len Addr.responseDeadlineUs 2 then
    Reply.setResponseDeadline reply t.responseDeadlineUs
  else reply

/-- Validate and stage above a watermark; the table waits for the verdict. -/
def write (d : Dispatcher σ) (alert : Bool) (ctx : RequestCtx) (addr : ℕ) (data : FrameBytes)
    (hold : Bool) (reply : ρ) : Dispatched × Dispatcher σ × ρ :=
  let (head, tail) := data.segments
  let snap := d.staged.snapshot
  match stageSplit d.table addr head tail d.staged with
  | .ok staged =>
      (.pending, { d with staged, pending := some ⟨snap, hold, addr, data.len⟩ },
        ack alert ctx (.ok ()) reply)
  | .error .stagingFull =>
      (.done, d, if ctx.mayReply then Reply.sendStatus reply ⟨.busy, alert, []⟩ else reply)
  | .error e => (.done, d, ack alert ctx (.error e) reply)

/-- The hooks of an applied entry list, span by span. -/
def applyEvents (t : ControlTable) (spans : List (ℕ × ℕ)) (reply : ρ) : ControlTable × ρ :=
  spans.foldl (fun (t, reply) (addr, len) =>
    let t := markDirtyIfPersistent t addr len
    (t, dispatchEvents t addr len reply)) (t, reply)

/-- COMMIT: apply the whole staging buffer, then fire its hooks. -/
def applyCommit (d : Dispatcher σ) (alert : Bool) (ctx : RequestCtx) (reply : ρ) :
    Dispatcher σ × ρ :=
  let spans := d.staged.iterAll.map fun (addr, data) => (addr, data.length)
  let (table, staged) := commitStaged d.table d.staged
  let reply := ack alert ctx (.ok ()) reply
  let (table, reply) := applyEvents table spans reply
  ({ d with table, staged }, reply)

/-! ## Management -/

def enumerate (d : Dispatcher σ) (alert : Bool) (ctx : RequestCtx) (prefixLen : Byte)
    (pre : List Byte) (reply : ρ) : ρ :=
  if !ctx.mayReply then reply
  else if !uidPrefixMatches d.uid prefixLen pre then reply
  else Reply.sendStatus reply ⟨.ok, alert, d.uid⟩

/-- The servo whose UID matches takes the id at once; the rest stay silent. -/
def assign (d : Dispatcher σ) (alert : Bool) (ctx : RequestCtx) (uid : List Byte) (newId : Byte)
    (reply : ρ) : Dispatcher σ × ρ :=
  if uid ≠ d.uid then (d, reply)
  else if (Id.tryUnicast newId).isNone then
    (d, ack alert ctx (.error (.validationError .compare)) reply)
  else
    let table := setDirty (d.table.set Addr.id newId)
    let reply := Reply.setId reply newId
    ({ d with table }, ack alert ctx (.ok ()) reply)

def bootMode (t : ControlTable) : BootMode :=
  if t.get Addr.bootMode == 1 then .bootloader else .app

/-- SAVE: torque gates it, and the ack leaves after the store returns. -/
def save (d : Dispatcher σ) (alert : Bool) (ctx : RequestCtx) (reply : ρ) : Dispatcher σ × ρ :=
  if d.table.torqueEnable then (d, ack alert ctx (.error .accessError) reply)
  else
    match d.store with
    | none => (d, ackCode alert ctx .hardware reply)
    | some store =>
        let config := (d.table.bytes.drop configBaseAddr).take configRegionSize
        let profile := (d.table.bytes.drop profileBaseAddr).take profileRegionSize
        match ConfigStore.save store config profile with
        | (true, store) =>
            let flags := d.table.get Addr.statusFlags &&& ~~~statusFlagConfigDirty
            let table := d.table.set Addr.statusFlags flags
            ({ d with table, store := some store }, ackCode alert ctx .ok reply)
        | (false, store) => ({ d with store := some store }, ackCode alert ctx .hardware reply)

/-- FACTORY: wipe the saved slots, ack, then stage the reboot. -/
def factory (d : Dispatcher σ) (alert : Bool) (ctx : RequestCtx) (reply : ρ) :
    Dispatcher σ × ρ :=
  if d.table.torqueEnable then (d, ack alert ctx (.error .accessError) reply)
  else
    match d.store with
    | none => (d, ackCode alert ctx .hardware reply)
    | some store =>
        match ConfigStore.wipe store with
        | (true, store) =>
            ({ d with store := some store },
              Reply.stageReboot (ack alert ctx (.ok ()) reply) (bootMode d.table))
        | (false, store) => ({ d with store := some store }, ackCode alert ctx .hardware reply)

/-- The session-establishment operations have no arm in the dispatcher; they
are answered like every other operation it does not handle. -/
def mgmt (d : Dispatcher σ) (alert : Bool) (ctx : RequestCtx) (op : MgmtOp) (reply : ρ) :
    Dispatcher σ × ρ :=
  match op with
  | .save => d.save alert ctx reply
  | .factory => d.factory alert ctx reply
  | .reboot => (d, Reply.stageReboot (ack alert ctx (.ok ()) reply) (bootMode d.table))
  | .enum | .assign | .cal | .secInit | .secKey | .secAttest | .secRekey =>
      (d, instructionError alert ctx reply)

/-! ## The three entry points -/

def dispatch (d : Dispatcher σ) (req : Request FrameBytes) (ctx : RequestCtx) (reply : ρ) :
    Dispatched × Dispatcher σ × ρ :=
  let d := d.revertDangling
  let alert := d.alert
  match req with
  | .ping => (.done, d, d.ping alert ctx reply)
  | .read addr count => (.done, d, d.read alert ctx addr count reply)
  | .readProfile slot => (.done, d, d.readProfile alert ctx slot reply)
  | .write addr data hold => d.write alert ctx addr data hold reply
  | .commit => (.done, d.applyCommit alert ctx reply)
  | .enumerate prefixLen pre => (.done, d, d.enumerate alert ctx prefixLen pre reply)
  | .assign uid newId => (.done, d.assign alert ctx uid newId reply)
  | .calibrate gapUs gaps => (.done, d, Reply.beginClockCal reply gapUs gaps)
  | .mgmt op _ => (.done, d.mgmt alert ctx op reply)
  | .unsupported => (.done, d, instructionError alert ctx reply)

/-- Verdict pass: a plain write applies and fires its hooks, a held one keeps
its entries for a later COMMIT. -/
def commit (d : Dispatcher σ) (reply : ρ) : Dispatcher σ × ρ :=
  match d.pending with
  | none => (d, reply)
  | some pending =>
      let d := { d with pending := none }
      if pending.hold then (d, reply)
      else
        let (table, staged) := commitFrom d.table d.staged pending.snap
        let table := markDirtyIfPersistent table pending.addr pending.len
        ({ d with table, staged }, dispatchEvents table pending.addr pending.len reply)

/-- Verdict fail: discard the staged write. -/
def revert (d : Dispatcher σ) : Dispatcher σ := d.revertDangling

/-! ## Reverting touches the staging buffer alone -/

omit [ConfigStore σ] in
theorem revertDangling_table (d : Dispatcher σ) : d.revertDangling.table = d.table := by
  simp only [revertDangling]
  split <;> rfl

omit [ConfigStore σ] in
theorem revertDangling_store (d : Dispatcher σ) : d.revertDangling.store = d.store := by
  simp only [revertDangling]
  split <;> rfl

omit [ConfigStore σ] in
theorem revertDangling_pending (d : Dispatcher σ) : d.revertDangling.pending = none := by
  simp only [revertDangling]
  split
  · rfl
  · assumption

end Dispatcher

end OpenServo
