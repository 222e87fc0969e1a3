import OpenServo.Host.MainLoop

/-!
# What the adapter relays

A run of the main loop hands what USB delivers to the link server, and what the server sends
back to USB, as far as the queue has room.  The power pins follow the server's mirror of the
rails, and the bootloader is entered behind the flushed acknowledgement.
-/

namespace OpenServo.Host

open Ledger Transition Client

namespace Adapter

variable {adapter : Adapter} {rate : BaudRate}

/-! ## The pins -/

/-- Acts that neither deliver nor take leave the request and the rails mirror alone. -/
theorem server_pump (link : Link) (reads : List Inputs) :
    (link.pump reads).server.req = link.server.req ∧
      (link.pump reads).server.rails = link.server.rails := by
  induction reads generalizing link with
  | nil => exact ⟨rfl, rfl⟩
  | cons inp reads ih =>
      simp only [Link.pump]
      split
      · exact ⟨rfl, rfl⟩
      · rename_i event bus _
        obtain ⟨hreq, hrails⟩ := ih (({ link with bus } : Link).onEvent event)
        have hevent : (({ link with bus } : Link).onEvent event).server.req = link.server.req ∧
            (({ link with bus } : Link).onEvent event).server.rails = link.server.rails := by
          cases event <;> exact ⟨rfl, rfl⟩
        exact ⟨hreq.trans hevent.1, hrails.trans hevent.2⟩

/-- An action is acknowledged by what is sent. -/
theorem bootloaderAck_mem {heard : List Heard}
    (h : .enterBootloader ∈ heard.flatMap Heard.actions) :
    .bootloaderAck ∈ heard.flatMap Heard.sent := by
  obtain ⟨entry, hentry, haction⟩ := List.mem_flatMap.mp h
  refine List.mem_flatMap.mpr ⟨entry, hentry, ?_⟩
  cases entry with
  | event sent => cases haction
  | breach => cases haction
  | record taken answers =>
      obtain ⟨answer, hanswer, hack⟩ := List.mem_flatMap.mp haction
      cases answer with
      | bootloaderAck => exact hanswer
      | railsAck rails =>
          simp only [acknowledged] at hack
          split at hack
          · split at hack
            · cases List.mem_singleton.mp hack
            · cases hack
          · cases hack
      | _ => cases hack

/-- The pins show the mirror, no request is waiting, and the bootloader is entered only
after it was acknowledged. -/
structure Settled (adapter : Adapter) : Prop where
  req : adapter.gone = false → adapter.link.server.req = none
  pins : adapter.gone = false →
    railsRequest adapter.link.server.rails = .setRails adapter.rail3v3 adapter.rail5v
  asked : adapter.gone = true → .bootloaderAck ∈ adapter.link.sent

/-- While a request waits: the mirror shows the request if it is one for the rails, and the
pins if there is none. -/
structure Waiting (adapter : Adapter) : Prop where
  idle : adapter.link.server.req = none →
    railsRequest adapter.link.server.rails = .setRails adapter.rail3v3 adapter.rail5v
  rails : ∀ action, adapter.link.server.req = some action → action.kind = .rails →
    railsRequest adapter.link.server.rails = action
  asked : adapter.link.server.req = some .enterBootloader → .bootloaderAck ∈ adapter.link.sent

/-- The last action posted is in the slot, and in the mirror if it is one for the rails. -/
theorem slot_of_actions (start : AdapterRequest) (actions : List AdapterRequest) :
    (run Mailbox.step none (actions.map .post) = none → run mirrored start actions = start) ∧
      ∀ action, run Mailbox.step none (actions.map .post) = some action →
        action ∈ actions ∧ (action.kind = .rails → run mirrored start actions = action) := by
  rw [Mailbox.run_posts, Option.or_none]
  obtain rfl | ⟨earlier, last, rfl⟩ := List.eq_nil_or_concat actions
  · exact ⟨fun _ => rfl, fun _ hslot => by cases hslot⟩
  · rw [List.concat_eq_append, List.getLast?_concat]
    refine ⟨fun hslot => (by cases hslot), fun action hslot => ?_⟩
    cases hslot
    refine ⟨List.mem_append_right _ List.mem_cons_self, fun hkind => ?_⟩
    rw [run_append]
    exact if_pos hkind

/-- Nothing but a delivery posts a request. -/
theorem Settled.act (h : adapter.Settled) {act : LinkAct} (htake : act ≠ .takeAdapterRequest)
    (hpipe : ∀ inp bytes, act ≠ .pipe inp bytes) : (adapter.act act).Settled := by
  have hserver : (adapter.link.act act).server.req = adapter.link.server.req ∧
      (adapter.link.act act).server.rails = adapter.link.server.rails := by
    cases act with
    | pipe inp bytes => exact absurd rfl (hpipe inp bytes)
    | takeAdapterRequest => exact absurd rfl htake
    | pump reads => exact server_pump adapter.link reads
    | txComplete | deadline | capture => exact ⟨rfl, rfl⟩
  refine ⟨fun hgone => hserver.1.trans (h.req hgone), fun hgone => ?_, fun hgone => ?_⟩
  · exact (congrArg railsRequest hserver.2).trans (h.pins hgone)
  · have hsent : (adapter.act act).link.sent = _ := sent_act adapter.link act
    rw [hsent]
    exact List.mem_append_left _ (h.asked hgone)

theorem Settled.waiting (h : adapter.Settled) (hgone : adapter.gone = false) :
    adapter.Waiting := by
  have hreq := h.req hgone
  refine ⟨fun _ => h.pins hgone, fun action haction => ?_, fun hboot => ?_⟩
  · rw [hreq] at haction
    cases haction
  · rw [hreq] at hboot
    cases hboot

/-- A delivery that leaves the bootloader's request in the slot acknowledged it. -/
theorem Settled.ack_of_pipe (h : adapter.Settled) (hgone : adapter.gone = false) {inp : Inputs}
    {bytes : List Byte}
    (hboot : (adapter.act (.pipe inp bytes)).link.server.req = some .enterBootloader) :
    .bootloaderAck ∈ adapter.output (.pipe inp bytes) := by
  obtain ⟨heard, hlog, hreq, -⟩ := @Link.posts_act adapter.link (.pipe inp bytes) (by simp)
  rw [h.req hgone] at hreq
  have hposted := (slot_of_actions (.setRails adapter.rail3v3 adapter.rail5v)
    (heard.flatMap Heard.actions)).2 _ (hreq.symm.trans hboot)
  have hstep : (adapter.link.step (.pipe inp bytes)).1 = heard := by
    rw [Link.step, hlog, List.drop_left]
  rw [output, hstep]
  exact bootloaderAck_mem hposted.1

/-- A delivery leaves its last action in the slot. -/
theorem Settled.pipe (h : adapter.Settled) (hgone : adapter.gone = false) (inp : Inputs)
    (bytes : List Byte) : (adapter.act (.pipe inp bytes)).Waiting := by
  obtain ⟨heard, hlog, hreq, hrails⟩ :=
    @Link.posts_act adapter.link (.pipe inp bytes) (by simp)
  rw [h.req hgone] at hreq
  rw [h.pins hgone] at hrails
  obtain ⟨hidle, hposted⟩ := slot_of_actions (.setRails adapter.rail3v3 adapter.rail5v)
    (heard.flatMap Heard.actions)
  refine ⟨fun hnone => ?_, fun action haction hkind => ?_, fun hboot => ?_⟩
  · exact hrails.trans (hidle (hreq.symm.trans hnone))
  · exact hrails.trans ((hposted action (hreq.symm.trans haction)).2 hkind)
  · have hsent : (adapter.act (.pipe inp bytes)).link.sent = _ :=
      sent_act adapter.link (.pipe inp bytes)
    rw [hsent]
    exact List.mem_append_right _ (h.ack_of_pipe hgone hboot)

theorem ship_same (adapter : Adapter) (ready : Bool) (mps : ℕ) :
    (adapter.ship ready mps).gone = adapter.gone ∧
      (adapter.ship ready mps).rail3v3 = adapter.rail3v3 ∧
      (adapter.ship ready mps).rail5v = adapter.rail5v := by
  rw [ship]
  split <;> exact ⟨rfl, rfl, rfl⟩

theorem Settled.ship (h : adapter.Settled) (ready : Bool) (mps : ℕ) :
    (adapter.ship ready mps).Settled := by
  obtain ⟨hgone, hv3v3, hv5⟩ := ship_same adapter ready mps
  refine ⟨fun hnot => ?_, fun hnot => ?_, fun hleft => ?_⟩
  · rw [link_ship]
    exact h.req (hgone.symm.trans hnot)
  · rw [link_ship, hv3v3, hv5]
    exact h.pins (hgone.symm.trans hnot)
  · rw [link_ship]
    exact h.asked (hgone.symm.trans hleft)

theorem link_flushPipe (adapter : Adapter) (mps : ℕ) (polls : List Bool) :
    (adapter.flushPipe mps polls).link = adapter.link := by
  induction polls generalizing adapter with
  | nil => rfl
  | cons ready polls ih =>
      rw [flushPipe]
      split
      · rfl
      · rw [ih, link_ship]

/-- Serving the request brings the pins to the mirror, or leaves for the bootloader. -/
theorem Waiting.serveRequest (h : adapter.Waiting) (hgone : adapter.gone = false) (mps : ℕ)
    (flush : List Bool) : (adapter.serveRequest mps flush).Settled := by
  have hsent : (adapter.act .takeAdapterRequest).link.sent = adapter.link.sent := rfl
  have htaken : adapter.link.takeAdapterRequest.1 = adapter.link.server.req := rfl
  have hstay : ¬ adapter.gone = true := by simp [hgone]
  rw [Adapter.serveRequest, htaken]
  cases hreq : adapter.link.server.req with
  | none =>
      exact ⟨fun _ => rfl, fun _ => h.idle hreq, fun hleft => (hstay hleft).elim⟩
  | some action =>
      cases action with
      | enterBootloader =>
          refine ⟨fun hnot => (by cases hnot), fun hnot => (by cases hnot), fun _ => ?_⟩
          simp only [link_flushPipe, hsent]
          exact h.asked hreq
      | setRails v3v3 v5 =>
          exact ⟨fun _ => rfl, fun _ => h.rails _ hreq rfl, fun hleft => (hstay hleft).elim⟩

theorem Settled.interrupts (h : adapter.Settled) (isrs : List Isr) :
    (adapter.interrupts isrs).Settled := by
  induction isrs generalizing adapter with
  | nil => exact h
  | cons isr isrs ih =>
      refine ih (h.act ?_ ?_)
      · cases isr <;> simp [Isr.act]
      · cases isr <;> simp [Isr.act]

theorem Settled.usbPoll (h : adapter.Settled) (packet : Option (List Byte)) :
    (adapter.usbPoll packet).Settled := by
  have hsame : (adapter.usbPoll packet).link = adapter.link ∧
      (adapter.usbPoll packet).rail3v3 = adapter.rail3v3 ∧
      (adapter.usbPoll packet).rail5v = adapter.rail5v := by
    cases hpending : adapter.rxPending <;> cases packet <;> simp [Adapter.usbPoll, hpending]
  obtain ⟨hlink, hv3v3, hv5⟩ := hsame
  have hgone := gone_usbPoll adapter packet
  refine ⟨fun hnot => ?_, fun hnot => ?_, fun hleft => ?_⟩
  · rw [hlink]
    exact h.req (hgone.symm.trans hnot)
  · rw [hlink, hv3v3, hv5]
    exact h.pins (hgone.symm.trans hnot)
  · rw [hlink]
    exact h.asked (hgone.symm.trans hleft)

theorem Settled.inbound (h : adapter.Settled) (hgone : adapter.gone = false) (inp : Inputs) :
    (adapter.inbound inp).Waiting ∧ (adapter.inbound inp).gone = false := by
  rw [Adapter.inbound]
  split
  · split
    · rename_i bytes _
      obtain ⟨hidle, hrails, hasked⟩ := h.pipe hgone inp bytes
      exact ⟨⟨hidle, hrails, hasked⟩, hgone⟩
    · exact ⟨h.waiting hgone, hgone⟩
  · exact ⟨h.waiting hgone, hgone⟩

theorem Settled.outbound (h : adapter.Settled) (reads : List Inputs) :
    (adapter.outbound reads).Settled := by
  rw [Adapter.outbound]
  split
  · exact h.act (by simp) (by simp)
  · exact h

theorem gone_outbound (adapter : Adapter) (reads : List Inputs) :
    (adapter.outbound reads).gone = adapter.gone := by
  rw [outbound]
  split <;> rfl

theorem Settled.polled (h : adapter.Settled) (turn : LoopTurn) : (adapter.polled turn).Settled :=
  ((h.usbPoll turn.packet).interrupts turn.early).act (by simp) (by simp)

theorem Settled.turn (h : adapter.Settled) (turn : LoopTurn) : (adapter.turn turn).Settled := by
  rw [Adapter.turn]
  split
  · exact h
  · rename_i hstay
    have hgone : (adapter.polled turn).gone = false :=
      (gone_interrupts _ turn.early).trans <|
        (gone_usbPoll adapter turn.packet).trans (Bool.eq_false_iff.mpr hstay)
    obtain ⟨hwaiting, hnot⟩ := (h.polled turn).inbound hgone turn.inp
    have hfed : (adapter.fed turn).Settled := hwaiting.serveRequest hnot turn.mps turn.flush
    simp only
    split
    · exact hfed
    · exact ((hfed.interrupts turn.late).outbound turn.reads).ship turn.ready turn.mps

theorem railsRequest_boot : railsRequest railsBootState = .setRails true true := by decide

theorem settled_boot (rate : BaudRate) : (boot rate).Settled :=
  ⟨fun _ => rfl, fun _ => railsRequest_boot, fun hleft => (by cases hleft)⟩

/-! ## Leaving for the bootloader -/

/-- The bytes of a queue behind which records were queued. -/
def behind (adapter : Adapter) (offered : List Sent) : List Byte :=
  adapter.txq.contents ++
    (RingQueue.fitting Sent.size adapter.txq.free offered).flatMap Sent.bytes

/-- The turn goes to the bootloader: with the queue half free, the acknowledgement was queued,
if it fit, among the records of one delivery, and then every poll that found the endpoint ready
took a packet, until the queue was empty. -/
def Leaves (here : Adapter) (turn : LoopTurn) : Prop :=
  pumpHeadroom ≤ here.txq.free ∧ ∃ offered : List Sent, .bootloaderAck ∈ offered ∧
    (here.turn turn).link.sent = here.link.sent ++ offered ∧
    (here.turn turn).shipped =
      here.shipped ++ (here.behind offered).take (flushRoom turn.mps turn.flush) ∧
    (here.turn turn).txq.contents = (here.behind offered).drop (flushRoom turn.mps turn.flush)

theorem flushPipe_drains (adapter : Adapter) (mps : ℕ) (polls : List Bool) :
    (adapter.flushPipe mps polls).shipped =
        adapter.shipped ++ adapter.txq.contents.take (flushRoom mps polls) ∧
      (adapter.flushPipe mps polls).txq.contents =
        adapter.txq.contents.drop (flushRoom mps polls) := by
  induction polls generalizing adapter with
  | nil => simp [flushPipe, flushRoom]
  | cons ready polls ih =>
      obtain ⟨hshipped, hcontents⟩ := ih (adapter.ship ready mps)
      cases ready with
      | false => exact ⟨hshipped, hcontents⟩
      | true =>
          have hroom : flushRoom mps (true :: polls) =
              min mps packetCap + flushRoom mps polls := by
            rw [flushRoom, List.count_cons_self, Nat.succ_mul, Nat.add_comm]
            rfl
          rw [flushPipe, hroom, List.take_add, ← List.drop_drop]
          split
          · rename_i hempty
            have hnone : adapter.txq.contents = [] := by
              simpa [TxQueue.isEmpty, ← RingQueue.length_contents] using hempty
            simp [hnone]
          · rename_i hsome
            have hship : adapter.ship true mps =
                { adapter with
                  txq := (adapter.txq.pop (min mps packetCap)).2
                  shipped := adapter.shipped ++ (adapter.txq.pop (min mps packetCap)).1 } := by
              rw [ship, if_pos (by simpa using hsome)]
              rfl
            rw [hshipped, hcontents, hship, RingQueue.pop_fst, RingQueue.contents_pop_snd,
              List.append_assoc]
            exact ⟨rfl, rfl⟩

/-- A request that leaves for the bootloader came in the delivery of the turn. -/
theorem Settled.inbound_boots (h : adapter.Settled) (hgone : adapter.gone = false) {inp : Inputs}
    (hboot : (adapter.inbound inp).link.server.req = some .enterBootloader) :
    pumpHeadroom ≤ adapter.txq.free ∧ ∃ bytes, .bootloaderAck ∈ adapter.output (.pipe inp bytes) ∧
      adapter.inbound inp = { adapter.act (.pipe inp bytes) with rxPending := none } := by
  have hidle : adapter.link.server.req ≠ some .enterBootloader := by
    rw [h.req hgone]
    simp
  rw [Adapter.inbound] at hboot ⊢
  split at hboot
  · rename_i hgate
    rw [if_pos hgate]
    split at hboot
    · rename_i bytes _
      exact ⟨hgate, bytes, h.ack_of_pipe hgone hboot, by simp only⟩
    · exact absurd hboot hidle
  · exact absurd hboot hidle

theorem fed_of_gone (hstay : adapter.gone = false) {turn : LoopTurn}
    (hleft : (adapter.turn turn).gone = true) :
    (adapter.fed turn).gone = true ∧ adapter.turn turn = adapter.fed turn := by
  rw [Adapter.turn, if_neg (by simp [hstay])] at hleft ⊢
  simp only at hleft ⊢
  split at hleft
  · rename_i hgone
    exact ⟨hgone, if_pos hgone⟩
  · rename_i hgone
    rw [(ship_same _ _ _).1, gone_outbound, gone_interrupts] at hleft
    exact absurd hleft hgone

theorem serveRequest_of_gone (hstay : adapter.gone = false) {mps : ℕ} {flush : List Bool}
    (hleft : (adapter.serveRequest mps flush).gone = true) :
    adapter.link.server.req = some .enterBootloader ∧ adapter.serveRequest mps flush =
      { (adapter.act .takeAdapterRequest).flushPipe mps flush with gone := true } := by
  have htaken : adapter.link.takeAdapterRequest.1 = adapter.link.server.req := rfl
  have hnot : ¬ adapter.gone = true := by simp [hstay]
  rw [Adapter.serveRequest, htaken] at hleft ⊢
  cases hreq : adapter.link.server.req with
  | none => exact absurd (by rw [hreq] at hleft; exact hleft) hnot
  | some action =>
      cases action with
      | enterBootloader => exact ⟨rfl, rfl⟩
      | setRails v3v3 v5 => exact absurd (by rw [hreq] at hleft; exact hleft) hnot

theorem Settled.leaves (h : adapter.Settled) (hstay : adapter.gone = false) {turn : LoopTurn}
    (hleft : (adapter.turn turn).gone = true) : adapter.Leaves turn := by
  obtain ⟨hfed, hturn⟩ := fed_of_gone hstay hleft
  obtain ⟨hsent, htxq, hshipped, hgone⟩ := polled_same adapter turn
  have hpolled := h.polled turn
  have hnot := hgone.trans hstay
  obtain ⟨hboot, hserved⟩ := serveRequest_of_gone (hpolled.inbound hnot turn.inp).2 hfed
  obtain ⟨hgate, bytes, hack, hinbound⟩ := hpolled.inbound_boots hnot hboot
  have hqueued : ((adapter.polled turn).inbound turn.inp).txq.contents =
      adapter.behind ((adapter.polled turn).output (.pipe turn.inp bytes)) := by
    rw [hinbound, behind, ← htxq]
    exact (adapter.polled turn).txq.contents_records _
  have hlast : ((adapter.polled turn).inbound turn.inp).shipped = adapter.shipped := by
    rw [hinbound]
    exact hshipped
  obtain ⟨hout, hleft⟩ := flushPipe_drains
    (((adapter.polled turn).inbound turn.inp).act .takeAdapterRequest) turn.mps turn.flush
  rw [txq_act (output_take _), hqueued] at hout hleft
  rw [Leaves, hturn, show adapter.fed turn = _ from hserved]
  refine ⟨htxq ▸ hgate, (adapter.polled turn).output (.pipe turn.inp bytes), hack, ?_, ?_, hleft⟩
  · simp only [link_flushPipe, hinbound]
    rw [← hsent]
    exact sent_act (adapter.polled turn).link (.pipe turn.inp bytes)
  · exact hout.trans (congrArg (· ++ _) hlast)

/-! ## Every run -/

theorem served_boot (rate : BaudRate) : (boot rate).Served rate := ⟨[], rfl, rfl⟩

/-- What the client sees of an adapter: the bytes that came in were delivered to the server of
a link, in order and once; the bytes that went out and those queued are the records the server
sent, whole and in order, less those the queue had no room for; whatever is read of the bytes
that went out is those records, without an error; and the rails are those of the last reply. -/
structure Relays (rate : BaudRate) (adapter : Adapter) : Prop where
  served : adapter.Served rate
  settled : adapter.Settled
  told : ∃ kept : List Sent, kept.Sublist adapter.link.sent ∧
    RingQueue.Passed Sent.size txqCap 0 adapter.link.sent kept adapter.txq.len ∧
    adapter.shipped ++ adapter.txq.contents = kept.flatMap Sent.bytes ∧
    ∀ reader : List SessionAct, reader.flatMap SessionAct.delivered <+: adapter.shipped →
      ∃ done todo, Client.Session.Caught (final Client.Session.step .new reader) kept
        (reader.flatMap SessionAct.delivered) (outputs Client.Session.step .new reader) done todo

theorem Admits.told (h : (boot rate).Admits adapter) (hemit : adapter.link.Emits) :
    ∃ kept : List Sent, kept.Sublist adapter.link.sent ∧
      RingQueue.Passed Sent.size txqCap 0 adapter.link.sent kept adapter.txq.len ∧
      adapter.shipped ++ adapter.txq.contents = kept.flatMap Sent.bytes ∧
      ∀ reader : List SessionAct, reader.flatMap SessionAct.delivered <+: adapter.shipped →
        ∃ done todo, Client.Session.Caught (final Client.Session.step .new reader) kept
          (reader.flatMap SessionAct.delivered) (outputs Client.Session.step .new reader)
          done todo := by
  obtain ⟨offered, kept, hsent, hbytes, hpassed⟩ := h
  have hall : adapter.link.sent = offered := hsent
  have hbytes : adapter.shipped ++ adapter.txq.contents = kept.flatMap Sent.bytes := hbytes
  rw [hall]
  refine ⟨kept, hpassed.sublist, hpassed, hbytes, fun reader hread => ?_⟩
  have hpipe : reader.flatMap SessionAct.delivered <+: kept.flatMap Sent.bytes := by
    rw [← hbytes]
    exact hread.trans (List.prefix_append _ _)
  have hemitted : ∀ sent ∈ kept, sent.Emittable := fun sent hsent =>
    hemit.sent sent (hall ▸ hpassed.sublist.subset hsent)
  exact Client.Session.Caught.run hemitted
    (⟨rfl, rfl, by simp, rfl⟩ : Client.Session.Caught .new kept [] [] [] kept) reader hpipe

/-- What a turn does with the records: each one the server sends in it is queued exactly if it
fits, and before the bootloader the acknowledgement is, and the queue is flushed. -/
structure Turned (here : Adapter) (turn : LoopTurn) : Prop where
  admits : here.Admits (here.turn turn)
  leaves : here.gone = false → (here.turn turn).gone = true → here.Leaves turn

end Adapter

end OpenServo.Host
