import OpenServo.Bus.ServoBus
import OpenServo.Dispatch.Dispatcher

/-!
# The dispatch spine

Resolver to frame routing to CRC verdict to reply sequencing, over the bus and
the dispatcher it drives.  A stageable frame is dispatched ahead of its verdict
from an idle reply pipeline; COMMIT, MGMT and every frame that overlaps a live
reply check the CRC first.
-/

namespace OpenServo.Bus

open Security

/-- The transport and the dispatcher behind it. -/
structure World (σ : Type) where
  bus : ServoBus
  disp : Dispatcher σ
  deriving DecidableEq

namespace World

variable {σ : Type} [ConfigStore σ] (chip : Chip)

/-- Only an ENUM reply may collide. -/
def tolerates (req : Request FrameBytes) : Bool :=
  match req with
  | .enumerate _ _ => true
  | _ => false

/-- Decode the frame and dispatch it: whether a reply is staged, its slot and
the outcome, or `none` for a frame that is not ours. -/
def dispatchDecoded (w : World σ) (anchor footprint : ℕ) :
    Option (Bool × ℕ × Dispatched) × World σ :=
  match decode (w.bus.ring.frameView anchor footprint) w.bus.id with
  | .own req ctx slot =>
      let (out, disp, h) := w.disp.dispatch req ctx (w.bus.replyHandle (tolerates req))
      (some (h.staged, slot, out), ⟨w.bus.withHandle h, disp⟩)
  | _ => (none, w)

/-- Verdict pass for a staged write. -/
def commit (w : World σ) : World σ :=
  let (disp, h) := w.disp.commit (w.bus.replyHandle false)
  ⟨w.bus.withHandle h, disp⟩

/-- The verdict of a dispatched frame: CRC first, then authenticity. -/
def verify (p : Pending) (w : World σ) : World σ :=
  if !w.bus.crcVerify p.anchor p.footprint then
    ⟨w.bus.dropStaged.rejectFrame p.anchor, if p.table then w.disp.revert else w.disp⟩
  else
    let (authentic, bus) := w.bus.authVerify p.anchor p.footprint
    if !authentic then
      ⟨{ bus.dropStaged with
          security := bus.security.rollbackStream
          framer := bus.framer.onFrameVerified },
        if p.table then w.disp.revert else w.disp⟩
    else
      let bus := { bus with framer := bus.framer.onFrameVerified }
      let w : World σ := ⟨bus.driftNoteVerified p.anchor p.footprint, w.disp⟩
      let w := if p.table then w.commit else w
      if p.staged && w.bus.tx.staged then
        { w with bus := w.bus.sequenceReply chip p.slot p.packetEnd }
      else w

/-- Status frames only advance the snoop chain, at their end. -/
def routeStatus (span : FrameSpan) (complete : Bool) (w : World σ) : World σ :=
  if complete then
    let (chain, out) := w.bus.chain.onStatusEnd span.packetEnd
    { w with bus := ({ w.bus with chain } : ServoBus).routeChain out }
  else w

/-- The speculative path: feed the CRC, fold, dispatch, then the verdict now or
at the frame end. -/
def routeSpine (span : FrameSpan) (complete : Bool) (w : World σ) : World σ :=
  let bus := (w.bus.crcFeed span.anchor span.footprint).securityFold span.anchor span.footprint
  match dispatchDecoded ⟨bus, w.disp⟩ span.anchor span.footprint with
  | (some (staged, slot, out), w) =>
      let p : Pending :=
        ⟨span.anchor, span.footprint, span.packetEnd, slot, staged, out == .pending⟩
      if complete then verify chip p w else { w with bus := { w.bus with pending := some p } }
  | (none, w) =>
      if complete then
        verify chip ⟨span.anchor, span.footprint, span.packetEnd, 0, false, false⟩ w
      else w

/-- The verdict-first path, for complete frames. -/
def routeVerdictFirst (span : FrameSpan) (w : World σ) : World σ :=
  let (crcPasses, bus) := w.bus.crcOk span.anchor span.footprint
  if !crcPasses then { w with bus := bus.rejectFrame span.anchor }
  else
    let (authentic, bus) := bus.authVerify span.anchor span.footprint
    if !authentic then
      { w with
        bus := { bus with
          framer := bus.framer.onFrameVerified
          security := bus.security.rollbackStream } }
    else
      let bus := { bus with framer := bus.framer.onFrameVerified }
      let bus := bus.driftNoteVerified span.anchor span.footprint
      -- a fresh instruction supersedes any stale, not yet streaming reply
      match dispatchDecoded ⟨bus.dropStaged, w.disp⟩ span.anchor span.footprint with
      | (none, w) => w
      | (some (staged, slot, out), w) =>
          let w := if out == .pending then w.commit else w
          if staged && w.bus.tx.staged then
            { w with bus := w.bus.sequenceReply chip slot span.packetEnd }
          else w

/-- Does the frame take the speculative path? -/
def speculates (w : World σ) (anchor : ℕ) : Bool :=
  !w.bus.chain.active && !w.bus.tx.busy && !w.bus.verdictFirst anchor

/-- The spine; `complete` tells a whole frame from one at its covered
checkpoint. -/
def routeFrame (span : FrameSpan) (complete : Bool) (w : World σ) : World σ :=
  if (w.bus.ringInst span.anchor).isStatus then w.routeStatus span complete
  else if w.speculates span.anchor then routeSpine chip span complete w
  else if !complete then w
  else routeVerdictFirst chip span w

/-- Frame end: a pending frame gets its verdict, anything else enters the
spine. -/
def onFrameEnd (span : FrameSpan) (w : World σ) : World σ :=
  let taken : World σ := { w with bus := { w.bus with pending := none } }
  match w.bus.pending with
  | some p =>
      if p.isAt span then verify chip p taken
      else routeFrame chip span true { taken with bus := taken.bus.dropStaged }
  | none => routeFrame chip span true taken

/-! ## The resolver loop -/

/-- One turn of the resolver loop, and whether the loop goes on.  The resolver
reads the clock before the frame is processed, `late` is what it reads after. -/
def driveOnce (late : UInt32) (w : World σ) : Bool × World σ :=
  let (framer, out) := w.bus.framer.resolve w.bus.ring w.bus.now w.bus.tpb
  let bus := { w.bus with framer, now := late }
  match out with
  | .none => (false, { w with bus := { bus with framerAt := none } })
  | .wait due => (false, { w with bus := { bus with framerAt := some due } })
  | .covered span endDue =>
      (false, routeFrame chip span false { w with bus := { bus with framerAt := some endDue } })
  | .frame span => (true, onFrameEnd chip span { w with bus })

end World

end OpenServo.Bus
