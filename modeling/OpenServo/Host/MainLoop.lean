import OpenServo.Client.Reading
import OpenServo.Core.RingQueue
import OpenServo.Host.AdapterActions

/-!
# The adapter's main loop

USB packets into the link server, engine events out as records, records out as USB
packets.  The transport interrupts run underneath.  The queue between the server and the
IN endpoint drops a record that does not fit, and only a whole one, so the client never
loses the framing.
-/

namespace OpenServo.Host

open Ledger Transition Client

/-! ## The record queue -/

def txqCap : ℕ := 4096

/-- Free space required before the server may produce more records. -/
def pumpHeadroom : ℕ := 2048

/-- Outbound record staging between the server and the IN packets. -/
abbrev TxQueue := RingQueue Byte txqCap

def Sent.size (sent : Sent) : ℕ := sent.bytes.length

namespace TxQueue

theorem size_new : (List.replicate txqCap (0 : Byte)).length = txqCap := List.length_replicate

theorem read_new : 0 < txqCap := by decide

def new : TxQueue := ⟨List.replicate txqCap 0, 0, 0, size_new, read_new, Nat.zero_le _⟩

def free (queue : TxQueue) : ℕ := txqCap - queue.len

def isEmpty (queue : TxQueue) : Bool := queue.len == 0

theorem fits_of_free {queue : TxQueue} {record : List Byte} (h : record.length ≤ queue.free) :
    queue.len + record.length ≤ txqCap := by
  have hlen := queue.len_le
  simp only [free] at h
  omega

/-- A record that does not fit is dropped whole. -/
def record (queue : TxQueue) (record : List Byte) : TxQueue :=
  if h : record.length ≤ queue.free then queue.write record (fits_of_free h) else queue

/-- Dequeue up to `room` bytes; packet boundaries carry no meaning. -/
def popInto (queue : TxQueue) (room : ℕ) : List Byte × TxQueue := queue.pop room

/-- The records of one call of the server. -/
def records (queue : TxQueue) (sents : List Sent) : TxQueue :=
  sents.foldl (fun queue sent => queue.record sent.bytes) queue

variable {queue : TxQueue}

theorem contents_record_of_le {record : List Byte} (h : record.length ≤ queue.free) :
    (queue.record record).contents = queue.contents ++ record := by
  rw [TxQueue.record, dif_pos h]
  exact queue.contents_write record (fits_of_free h)

theorem record_of_gt {record : List Byte} (h : ¬ record.length ≤ queue.free) :
    queue.record record = queue := by
  rw [TxQueue.record, dif_neg h]

theorem free_record_of_le {record : List Byte} (h : record.length ≤ queue.free) :
    (queue.record record).free = queue.free - record.length := by
  have hlen := congrArg List.length (contents_record_of_le h)
  rw [List.length_append, RingQueue.length_contents, RingQueue.length_contents] at hlen
  simp only [free] at h ⊢
  omega

/-- The records that fit one behind the other are queued, and the others dropped whole. -/
theorem contents_records (queue : TxQueue) (sents : List Sent) :
    (queue.records sents).contents =
      queue.contents ++ (RingQueue.fitting Sent.size queue.free sents).flatMap Sent.bytes := by
  induction sents generalizing queue with
  | nil => exact (List.append_nil _).symm
  | cons sent sents ih =>
      have hrest := ih (queue.record sent.bytes)
      rw [TxQueue.records, List.foldl_cons, RingQueue.fitting]
      split
      · rename_i hfits
        rw [contents_record_of_le hfits, free_record_of_le hfits, List.append_assoc] at hrest
        exact hrest
      · rename_i hfits
        rw [record_of_gt hfits] at hrest ⊢
        exact hrest

theorem sum_size (sents : List Sent) :
    (sents.map Sent.size).sum = (sents.flatMap Sent.bytes).length := List.length_flatMap.symm

theorem len_records (queue : TxQueue) (sents : List Sent) :
    (queue.records sents).len =
      queue.len + ((RingQueue.fitting Sent.size queue.free sents).map Sent.size).sum := by
  rw [← RingQueue.length_contents, contents_records, List.length_append, sum_size,
    RingQueue.length_contents]

end TxQueue

/-! ## The loop -/

/-- A transport interrupt. -/
inductive Isr where
  | txComplete (inp : Inputs)
  | deadline (inp : Inputs)

def Isr.act : Isr → LinkAct
  | .txComplete inp => .txComplete inp
  | .deadline inp => .deadline inp

/-- The state of the adapter, and what has gone through the two endpoints. -/
structure Adapter where
  link : Link
  txq : TxQueue
  /-- The OUT packet that is not consumed; the endpoint is parked while there is one. -/
  rxPending : Option (List Byte)
  rail3v3 : Bool
  rail5v : Bool
  /-- Handed over to the bootloader. -/
  gone : Bool
  /-- The bytes the OUT endpoint took. -/
  arrived : List Byte
  /-- The bytes the IN endpoint was given. -/
  shipped : List Byte

/-- What one turn of the loop meets: the packet that came in, the interrupts before and after
the server was fed, the capture rings, what the engine reads, and whether the IN endpoint is
ready for a packet of `mps` bytes. -/
structure LoopTurn where
  packet : Option (List Byte)
  early : List Isr
  edges : EdgeCapture
  inp : Inputs
  late : List Isr
  reads : List Inputs
  ready : Bool
  mps : ℕ
  /-- Whether the IN endpoint is ready, poll by poll, while the pipe is flushed. -/
  flush : List Bool

/-- IN packets are built in a buffer of this size. -/
def packetCap : ℕ := 512

/-- The bytes the ready polls of a flush have room for. -/
def flushRoom (mps : ℕ) (polls : List Bool) : ℕ := polls.count true * min mps packetCap

namespace Adapter

/-- Out of bringup: both rails on. -/
def boot (rate : BaudRate) : Adapter where
  link := .new (.new rate .empty)
  txq := .new
  rxPending := none
  rail3v3 := true
  rail5v := true
  gone := false
  arrived := []
  shipped := []

/-- One call of the server or the engine; the records it makes are queued. -/
def act (adapter : Adapter) (act : LinkAct) : Adapter :=
  { adapter with
    link := adapter.link.act act
    txq := adapter.txq.records ((adapter.link.step act).1.flatMap Heard.sent) }

/-- The records of one call. -/
def output (adapter : Adapter) (act : LinkAct) : List Sent :=
  (adapter.link.step act).1.flatMap Heard.sent

/-- The endpoint takes a packet unless the last one is still there. -/
def usbPoll (adapter : Adapter) (packet : Option (List Byte)) : Adapter :=
  match adapter.rxPending, packet with
  | none, some bytes =>
      { adapter with rxPending := some bytes, arrived := adapter.arrived ++ bytes }
  | _, _ => adapter

def interrupts (adapter : Adapter) (isrs : List Isr) : Adapter :=
  isrs.foldl (fun adapter isr => adapter.act isr.act) adapter

/-- Inbound pipe bytes, once the queue can take the reply burst. -/
def inbound (adapter : Adapter) (inp : Inputs) : Adapter :=
  if pumpHeadroom ≤ adapter.txq.free then
    match adapter.rxPending with
    | some bytes => { adapter.act (.pipe inp bytes) with rxPending := none }
    | none => adapter
  else adapter

/-- Engine events to records, under the same gate. -/
def outbound (adapter : Adapter) (reads : List Inputs) : Adapter :=
  if pumpHeadroom ≤ adapter.txq.free then adapter.act (.pump reads) else adapter

/-- One IN packet. -/
def ship (adapter : Adapter) (ready : Bool) (mps : ℕ) : Adapter :=
  if ready && !adapter.txq.isEmpty then
    let (packet, txq) := adapter.txq.popInto (min mps packetCap)
    { adapter with txq, shipped := adapter.shipped ++ packet }
  else adapter

/-- Drain the queue out the IN endpoint, bounded by the polls there is time for. -/
def flushPipe (adapter : Adapter) (mps : ℕ) : List Bool → Adapter
  | [] => adapter
  | ready :: polls =>
      if ready && adapter.txq.isEmpty then adapter
      else flushPipe (adapter.ship ready mps) mps polls

/-- Act on the request the server queued. -/
def serveRequest (adapter : Adapter) (mps : ℕ) (flush : List Bool) : Adapter :=
  match adapter.link.takeAdapterRequest.1 with
  | some .enterBootloader =>
      { (adapter.act .takeAdapterRequest).flushPipe mps flush with gone := true }
  | some (.setRails v3v3 v5) =>
      { adapter.act .takeAdapterRequest with rail3v3 := v3v3, rail5v := v5 }
  | none => adapter.act .takeAdapterRequest

/-- The first half of a turn: the server is fed, and its request served. -/
def fed (adapter : Adapter) (turn : LoopTurn) : Adapter :=
  ((((adapter.usbPoll turn.packet).interrupts turn.early).act (.capture turn.edges)).inbound
    turn.inp).serveRequest turn.mps turn.flush

/-- One turn of the loop; there is none in the bootloader. -/
def turn (adapter : Adapter) (turn : LoopTurn) : Adapter :=
  if adapter.gone then adapter
  else
    let adapter := adapter.fed turn
    if adapter.gone then adapter
    else ((adapter.interrupts turn.late).outbound turn.reads).ship turn.ready turn.mps

/-! ## One call -/

variable {adapter : Adapter} {rate : BaudRate}

/-- An act adds what the pipe saw of it to the log. -/
theorem log_act (link : Link) (act : LinkAct) :
    (link.act act).log = link.log ++ (link.step act).1 := by
  by_cases hact : act = .takeAdapterRequest
  · subst hact
    rw [Link.step, Link.act, Link.takeAdapterRequest, List.drop_length, List.append_nil]
  · obtain ⟨heard, hposts⟩ := @Link.posts_act link act hact
    rw [Link.step, hposts.log, List.drop_left]

theorem sent_act (link : Link) (act : LinkAct) :
    (link.act act).sent = link.sent ++ (link.step act).1.flatMap Heard.sent := by
  rw [Link.sent, log_act, List.flatMap_append]
  rfl

theorem final_concat (link : Link) (acts : List LinkAct) (act : LinkAct) :
    final Link.step link (acts ++ [act]) = (final Link.step link acts).act act := by
  induction acts generalizing link with
  | nil => rfl
  | cons first acts ih => exact ih (link.act first)

/-! ## One turn -/

/-- What a turn is made of keeps `inv`. -/
structure Kept (inv : Adapter → Prop) : Prop where
  poll : ∀ adapter packet, inv adapter → inv (adapter.usbPoll packet)
  act : ∀ adapter act, act.delivered = [] → inv adapter → inv (adapter.act act)
  pipe : ∀ adapter inp bytes, adapter.rxPending = some bytes → inv adapter →
    inv { adapter.act (.pipe inp bytes) with rxPending := none }
  ship : ∀ adapter ready mps, inv adapter → inv (adapter.ship ready mps)
  rails : ∀ adapter v3v3 v5, inv adapter → inv { adapter with rail3v3 := v3v3, rail5v := v5 }
  leave : ∀ adapter, inv adapter → inv { adapter with gone := true }

section Turns

variable {inv : Adapter → Prop}

theorem interrupts_keeps (hkept : Kept inv) (h : inv adapter) (isrs : List Isr) :
    inv (adapter.interrupts isrs) := by
  induction isrs generalizing adapter with
  | nil => exact h
  | cons isr isrs ih =>
      have hsilent : isr.act.delivered = [] := by cases isr <;> rfl
      exact ih (hkept.act _ _ hsilent h)

theorem inbound_keeps (hkept : Kept inv) (h : inv adapter) (inp : Inputs) :
    inv (adapter.inbound inp) := by
  rw [inbound]
  split
  · split
    · rename_i bytes hpending
      exact hkept.pipe _ inp bytes hpending h
    · exact h
  · exact h

theorem outbound_keeps (hkept : Kept inv) (h : inv adapter) (reads : List Inputs) :
    inv (adapter.outbound reads) := by
  rw [outbound]
  split
  · exact hkept.act _ _ rfl h
  · exact h

theorem flushPipe_keeps (hkept : Kept inv) (h : inv adapter) (mps : ℕ) (polls : List Bool) :
    inv (adapter.flushPipe mps polls) := by
  induction polls generalizing adapter with
  | nil => exact h
  | cons ready polls ih =>
      rw [flushPipe]
      split
      · exact h
      · exact ih (hkept.ship _ ready mps h)

theorem serveRequest_keeps (hkept : Kept inv) (h : inv adapter) (mps : ℕ) (flush : List Bool) :
    inv (adapter.serveRequest mps flush) := by
  have htaken : inv (adapter.act .takeAdapterRequest) := hkept.act _ _ rfl h
  rw [serveRequest]
  split
  · exact hkept.leave _ (flushPipe_keeps hkept htaken mps flush)
  · exact hkept.rails _ _ _ htaken
  · exact htaken

theorem turn_keeps (hkept : Kept inv) (h : inv adapter) (turn : LoopTurn) :
    inv (adapter.turn turn) := by
  have hpolled := hkept.act _ (.capture turn.edges) rfl
    (interrupts_keeps hkept (hkept.poll _ turn.packet h) turn.early)
  have hfed : inv (adapter.fed turn) :=
    serveRequest_keeps hkept (inbound_keeps hkept hpolled turn.inp) turn.mps turn.flush
  rw [Adapter.turn]
  split
  · exact h
  · simp only
    split
    · exact hfed
    · exact hkept.ship _ _ _
        (outbound_keeps hkept (interrupts_keeps hkept hfed turn.late) turn.reads)

theorem run_keeps (hkept : Kept inv) (h : inv adapter) (turns : List LoopTurn) :
    inv (run turn adapter turns) :=
  run_invariant turn inv (fun _ action hinv => turn_keeps hkept hinv action) h turns

end Turns

/-! ## Before the server is fed -/

/-- A call without records leaves the queue alone. -/
theorem txq_act {act : LinkAct} (hquiet : adapter.output act = []) :
    (adapter.act act).txq = adapter.txq := by
  show adapter.txq.records (adapter.output act) = adapter.txq
  rw [hquiet]
  rfl

theorem output_isr (adapter : Adapter) (isr : Isr) : adapter.output isr.act = [] := by
  cases isr <;> simp [output, Isr.act, Link.step, Link.act]

/-- The interrupts leave the pipe alone. -/
theorem interrupts_same (adapter : Adapter) (isrs : List Isr) :
    (adapter.interrupts isrs).link.server = adapter.link.server ∧
      (adapter.interrupts isrs).link.log = adapter.link.log ∧
      (adapter.interrupts isrs).txq = adapter.txq ∧
      (adapter.interrupts isrs).rxPending = adapter.rxPending ∧
      (adapter.interrupts isrs).shipped = adapter.shipped := by
  induction isrs generalizing adapter with
  | nil => exact ⟨rfl, rfl, rfl, rfl, rfl⟩
  | cons isr isrs ih =>
      obtain ⟨hserver, hlog, htxq, hpending, hshipped⟩ := ih (adapter.act isr.act)
      have hquiet := txq_act (output_isr adapter isr)
      refine ⟨hserver.trans ?_, hlog.trans ?_, htxq.trans hquiet, hpending, hshipped⟩
      · cases isr <;> rfl
      · cases isr <;> rfl

theorem output_capture (adapter : Adapter) (edges : EdgeCapture) :
    adapter.output (.capture edges) = [] := by
  simp [output, Link.step, Link.act]

theorem output_take (adapter : Adapter) : adapter.output .takeAdapterRequest = [] := by
  simp [output, Link.step, Link.act, Link.takeAdapterRequest]

/-- The adapter of a turn when the server is fed with the packet. -/
def polled (adapter : Adapter) (turn : LoopTurn) : Adapter :=
  ((adapter.usbPoll turn.packet).interrupts turn.early).act (.capture turn.edges)

theorem usbPoll_same (adapter : Adapter) (packet : Option (List Byte)) :
    (adapter.usbPoll packet).link = adapter.link ∧ (adapter.usbPoll packet).txq = adapter.txq ∧
      (adapter.usbPoll packet).shipped = adapter.shipped := by
  cases hpending : adapter.rxPending <;> cases packet <;> simp [usbPoll, hpending]

theorem gone_interrupts (adapter : Adapter) (isrs : List Isr) :
    (adapter.interrupts isrs).gone = adapter.gone := by
  induction isrs generalizing adapter with
  | nil => rfl
  | cons isr isrs ih => exact ih (adapter.act isr.act)

theorem gone_usbPoll (adapter : Adapter) (packet : Option (List Byte)) :
    (adapter.usbPoll packet).gone = adapter.gone := by
  cases hpending : adapter.rxPending <;> cases packet <;> simp [usbPoll, hpending]

/-- The pipe and the pins are as they were when the server is fed. -/
theorem polled_same (adapter : Adapter) (turn : LoopTurn) :
    (adapter.polled turn).link.sent = adapter.link.sent ∧
      (adapter.polled turn).txq = adapter.txq ∧
      (adapter.polled turn).shipped = adapter.shipped ∧
      (adapter.polled turn).gone = adapter.gone := by
  obtain ⟨hlink, htxq, hshipped⟩ := usbPoll_same adapter turn.packet
  obtain ⟨-, hlog, htxq', -, hshipped'⟩ :=
    interrupts_same (adapter.usbPoll turn.packet) turn.early
  have hcapture := txq_act
    (output_capture ((adapter.usbPoll turn.packet).interrupts turn.early) turn.edges)
  have hsent : (adapter.polled turn).link.log = adapter.link.log :=
    hlog.trans (congrArg Link.log hlink)
  exact ⟨congrArg (List.flatMap Heard.sent) hsent, hcapture.trans (htxq'.trans htxq),
    hshipped'.trans hshipped,
    (gone_interrupts _ turn.early).trans (gone_usbPoll adapter turn.packet)⟩

/-! ## What goes through -/

/-- What came in went to the server of a link, in order and once, except for the packet that
is still pending. -/
def Served (rate : BaudRate) (adapter : Adapter) : Prop :=
  ∃ acts, adapter.link = final Link.step (.new (.new rate .empty)) acts ∧
    adapter.arrived = acts.flatMap LinkAct.delivered ++ adapter.rxPending.getD []

theorem served_act (h : adapter.Served rate) {act : LinkAct} (hact : act.delivered = []) :
    (adapter.act act).Served rate := by
  obtain ⟨acts, hlink, harrived⟩ := h
  refine ⟨acts ++ [act], ?_, ?_⟩
  · rw [final_concat, ← hlink]
    rfl
  · rw [List.flatMap_append, List.flatMap_singleton, hact, List.append_nil]
    exact harrived

theorem served_pipe (h : adapter.Served rate) (inp : Inputs) {bytes : List Byte}
    (hpending : adapter.rxPending = some bytes) :
    ({ adapter.act (.pipe inp bytes) with rxPending := none } : Adapter).Served rate := by
  obtain ⟨acts, hlink, harrived⟩ := h
  refine ⟨acts ++ [.pipe inp bytes], ?_, ?_⟩
  · rw [final_concat, ← hlink]
    rfl
  · rw [List.flatMap_append, List.flatMap_singleton, Option.getD_none, List.append_nil]
    rw [hpending] at harrived
    exact harrived

theorem served_usbPoll (h : adapter.Served rate) (packet : Option (List Byte)) :
    (adapter.usbPoll packet).Served rate := by
  cases hpending : adapter.rxPending with
  | some bytes => simpa only [usbPoll, hpending] using h
  | none =>
      cases packet with
      | none => simpa only [usbPoll, hpending] using h
      | some bytes =>
          obtain ⟨acts, hlink, harrived⟩ := h
          rw [hpending, Option.getD_none, List.append_nil] at harrived
          simp only [usbPoll, hpending]
          exact ⟨acts, hlink, congrArg (· ++ bytes) harrived⟩

/-- The queue, the IN endpoint and the pins are nothing to the server. -/
theorem served_ship (h : adapter.Served rate) (ready : Bool) (mps : ℕ) :
    (adapter.ship ready mps).Served rate := by
  rw [ship]
  split
  · exact h
  · exact h

theorem kept_served (rate : BaudRate) : Kept (Served rate) where
  poll _ packet h := served_usbPoll h packet
  act _ _ hact h := served_act h hact
  pipe _ inp _ hpending h := served_pipe h inp hpending
  ship _ ready mps h := served_ship h ready mps
  rails _ _ _ h := h
  leave _ h := h

/-- What became of the records sent since `here`: those that fit the queue when they were sent
went out or are queued, in their order and each whole, and the others were dropped. -/
def Admits (here adapter : Adapter) : Prop :=
  ∃ offered kept, adapter.link.sent = here.link.sent ++ offered ∧
    adapter.shipped ++ adapter.txq.contents =
      here.shipped ++ here.txq.contents ++ kept.flatMap Sent.bytes ∧
    RingQueue.Passed Sent.size txqCap here.txq.len offered kept adapter.txq.len

theorem admits_refl (here : Adapter) : here.Admits here :=
  ⟨[], [], (List.append_nil _).symm, (List.append_nil _).symm, .start⟩

theorem admits_act {here : Adapter} (h : here.Admits adapter) (act : LinkAct) :
    here.Admits (adapter.act act) := by
  obtain ⟨offered, kept, hsent, hbytes, hpassed⟩ := h
  have hcontents : (adapter.act act).txq.contents = _ :=
    adapter.txq.contents_records (adapter.output act)
  have hlen : (adapter.act act).txq.len = _ := adapter.txq.len_records (adapter.output act)
  refine ⟨_, _, ?_, ?_, hlen ▸ hpassed.offer (adapter.output act)⟩
  · rw [← List.append_assoc, ← hsent]
    exact sent_act adapter.link act
  · rw [hcontents, List.flatMap_append, ← List.append_assoc, ← List.append_assoc, ← hbytes]
    rfl

/-- Shipping a packet moves bytes from the queue to the endpoint. -/
theorem shipped_ship (adapter : Adapter) (ready : Bool) (mps : ℕ) :
    (adapter.ship ready mps).shipped ++ (adapter.ship ready mps).txq.contents =
      adapter.shipped ++ adapter.txq.contents := by
  rw [ship]
  split
  · have hpop := adapter.txq.contents_pop (min mps packetCap)
    simp only [TxQueue.popInto, List.append_assoc, hpop]
  · rfl

theorem link_ship (adapter : Adapter) (ready : Bool) (mps : ℕ) :
    (adapter.ship ready mps).link = adapter.link := by
  rw [ship]
  split <;> rfl

theorem admits_ship {here : Adapter} (h : here.Admits adapter) (ready : Bool) (mps : ℕ) :
    here.Admits (adapter.ship ready mps) := by
  obtain ⟨offered, kept, hsent, hbytes, hpassed⟩ := h
  refine ⟨offered, kept, (congrArg Link.sent (link_ship adapter ready mps)).trans hsent,
    (shipped_ship adapter ready mps).trans hbytes, ?_⟩
  rw [ship]
  split
  · exact hpassed.leave _
  · exact hpassed

theorem kept_admits (here : Adapter) : Kept here.Admits where
  poll adapter packet h := by
    obtain ⟨hlink, htxq, hshipped⟩ := usbPoll_same adapter packet
    rw [Admits, hlink, htxq, hshipped]
    exact h
  act _ act _ h := admits_act h act
  pipe _ inp bytes _ h := admits_act h (.pipe inp bytes)
  ship _ ready mps h := admits_ship h ready mps
  rails _ _ _ h := h
  leave _ h := h

end Adapter

end OpenServo.Host
