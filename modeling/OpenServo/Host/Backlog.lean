import OpenServo.Host.MainLoop

/-!
# What the main loop drops

The loop lets the server go ahead while half the queue is free.  A call drops a record
exactly if its records do not fit together, and sixteen drains of full capture rings in
one packet do not.
-/

namespace OpenServo.Host

open Framing Ledger Transition

namespace Adapter

variable {adapter : Adapter} {rate : BaudRate}

/-! ## One call -/

/-- Nothing the server has sent is missing. -/
def Lossless (adapter : Adapter) : Prop :=
  adapter.shipped ++ adapter.txq.contents = adapter.link.sent.flatMap Sent.bytes

/-- Something the server has sent is missing. -/
def Lost (adapter : Adapter) : Prop :=
  (adapter.shipped ++ adapter.txq.contents).length <
    (adapter.link.sent.flatMap Sent.bytes).length

/-- The records of one call fit the queue together. -/
def Fits (adapter : Adapter) (act : LinkAct) : Prop :=
  ((adapter.output act).flatMap Sent.bytes).length ≤ adapter.txq.free

theorem sublist_or_shorter {kept sents : List Sent} (h : kept.Sublist sents) :
    kept = sents ∨ (kept.flatMap Sent.bytes).length < (sents.flatMap Sent.bytes).length := by
  induction h with
  | slnil => exact Or.inl rfl
  | cons sent hkept ih =>
      refine Or.inr ?_
      have hpos : 0 < sent.bytes.length := Nat.succ_pos _
      rw [List.flatMap_cons, List.length_append]
      obtain rfl | hshorter := ih <;> omega
  | cons_cons sent hkept ih =>
      rw [List.flatMap_cons, List.flatMap_cons, List.length_append, List.length_append]
      obtain rfl | hshorter := ih
      · exact Or.inl rfl
      · exact Or.inr (by omega)

/-- What is sent later is all there, or something of it is missing. -/
theorem Lossless.later {here : Adapter} (h : here.Lossless) (hadmits : here.Admits adapter) :
    adapter.Lossless ∨ adapter.Lost := by
  obtain ⟨offered, kept, hsent, hbytes, hpassed⟩ := hadmits
  rw [Lossless, Lost, hsent, hbytes, h, List.flatMap_append]
  obtain rfl | hshorter := sublist_or_shorter hpassed.sublist
  · exact Or.inl rfl
  · refine Or.inr ?_
    rw [List.length_append, List.length_append]
    omega

theorem Lost.not_lossless (h : adapter.Lost) : ¬ adapter.Lossless := fun hall =>
  absurd (congrArg List.length hall) (Nat.ne_of_lt h)

theorem length_sent_act (adapter : Adapter) (act : LinkAct) :
    ((adapter.act act).link.sent.flatMap Sent.bytes).length =
      (adapter.link.sent.flatMap Sent.bytes).length +
        ((adapter.output act).flatMap Sent.bytes).length := by
  have hsent : (adapter.act act).link.sent = adapter.link.sent ++ adapter.output act :=
    sent_act adapter.link act
  rw [hsent, List.flatMap_append, List.length_append]

/-- What is lost stays lost. -/
theorem lost_act (h : adapter.Lost) (act : LinkAct) : (adapter.act act).Lost := by
  have hsent := length_sent_act adapter act
  have hless : ((RingQueue.fitting Sent.size adapter.txq.free (adapter.output act)).flatMap
      Sent.bytes).length ≤ ((adapter.output act).flatMap Sent.bytes).length := by
    obtain hall | hshorter := sublist_or_shorter
      (RingQueue.fitting_sublist adapter.txq.free (adapter.output act))
    · rw [hall]
    · exact hshorter.le
  have hqueue : (adapter.act act).txq.contents = _ :=
    adapter.txq.contents_records (adapter.output act)
  have hshipped : (adapter.act act).shipped = adapter.shipped := rfl
  simp only [Lost, List.length_append] at h
  rw [Lost, hsent, hqueue, hshipped]
  simp only [List.length_append]
  omega

theorem kept_lost : Kept Lost where
  poll adapter packet h := by
    obtain ⟨hlink, htxq, hshipped⟩ := usbPoll_same adapter packet
    rw [Lost, hlink, htxq, hshipped]
    exact h
  act _ act _ h := lost_act h act
  pipe _ inp bytes _ h := lost_act h (.pipe inp bytes)
  ship adapter ready mps h := by
    rw [Lost, shipped_ship, link_ship]
    exact h
  rails _ _ _ h := h
  leave _ h := h

/-- A call loses nothing exactly if its records fit together. -/
theorem Lossless.act_iff (h : adapter.Lossless) (act : LinkAct) :
    (adapter.act act).Lossless ↔ adapter.Fits act := by
  have hsent : (adapter.act act).link.sent = adapter.link.sent ++ adapter.output act :=
    sent_act adapter.link act
  constructor
  · intro hall
    have hlength := congrArg List.length hall
    have hbefore := congrArg List.length h
    rw [length_sent_act] at hlength
    have hshipped : (adapter.act act).shipped = adapter.shipped := rfl
    have hcap := (adapter.act act).txq.len_le
    rw [hshipped] at hlength
    simp only [List.length_append, RingQueue.length_contents] at hlength hbefore
    rw [Fits, TxQueue.free]
    omega
  · intro hfits
    have hqueue : (adapter.act act).txq.contents = _ :=
      adapter.txq.contents_records (adapter.output act)
    rw [RingQueue.fitting_eq_self (by rw [TxQueue.sum_size]; exact hfits)] at hqueue
    rw [Lossless, hsent, hqueue, List.flatMap_append, ← h, List.append_assoc]
    rfl

/-! ## One turn -/

/-- The delivery of a turn, if the gate lets it through, fits the queue. -/
def InboundFits (adapter : Adapter) (inp : Inputs) : Prop :=
  pumpHeadroom ≤ adapter.txq.free → ∀ bytes ∈ adapter.rxPending, adapter.Fits (.pipe inp bytes)

/-- The events of a turn, if the gate lets them through, fit the queue. -/
def OutboundFits (adapter : Adapter) (reads : List Inputs) : Prop :=
  pumpHeadroom ≤ adapter.txq.free → adapter.Fits (.pump reads)

/-- Both calls of a turn fit. -/
def TurnFits (adapter : Adapter) (turn : LoopTurn) : Prop :=
  adapter.gone = false → (adapter.polled turn).InboundFits turn.inp ∧
    ((adapter.fed turn).gone = false →
      ((adapter.fed turn).interrupts turn.late).OutboundFits turn.reads)

theorem Lossless.quiet (h : adapter.Lossless) {act : LinkAct} (hquiet : adapter.output act = []) :
    (adapter.act act).Lossless := by
  refine (h.act_iff act).mpr ?_
  rw [Fits, hquiet]
  exact Nat.zero_le _

theorem Lossless.interrupts (h : adapter.Lossless) (isrs : List Isr) :
    (adapter.interrupts isrs).Lossless := by
  induction isrs generalizing adapter with
  | nil => exact h
  | cons isr isrs ih => exact ih (h.quiet (output_isr adapter isr))

theorem Lossless.polled (h : adapter.Lossless) (turn : LoopTurn) :
    (adapter.polled turn).Lossless := by
  have husb : (adapter.usbPoll turn.packet).Lossless := by
    obtain ⟨hlink, htxq, hshipped⟩ := usbPoll_same adapter turn.packet
    rw [Lossless, hlink, htxq, hshipped]
    exact h
  exact (husb.interrupts turn.early).quiet (output_capture _ turn.edges)

theorem lossless_ship (ready : Bool) (mps : ℕ) :
    (adapter.ship ready mps).Lossless ↔ adapter.Lossless := by
  rw [Lossless, shipped_ship, link_ship]
  rfl

theorem Lossless.flushPipe (h : adapter.Lossless) (mps : ℕ) (polls : List Bool) :
    (adapter.flushPipe mps polls).Lossless := by
  induction polls generalizing adapter with
  | nil => exact h
  | cons ready polls ih =>
      rw [Adapter.flushPipe]
      split
      · exact h
      · exact ih ((lossless_ship ready mps).mpr h)

theorem Lossless.serveRequest (h : adapter.Lossless) (mps : ℕ) (flush : List Bool) :
    (adapter.serveRequest mps flush).Lossless := by
  have htaken : (adapter.act .takeAdapterRequest).Lossless := h.quiet (output_take adapter)
  rw [Adapter.serveRequest]
  split
  · exact htaken.flushPipe mps flush
  · exact htaken
  · exact htaken

theorem Lossless.inbound_iff (h : adapter.Lossless) (inp : Inputs) :
    (adapter.inbound inp).Lossless ↔ adapter.InboundFits inp := by
  rw [Adapter.inbound, InboundFits]
  split
  · rename_i hgate
    cases hpending : adapter.rxPending with
    | none => exact ⟨fun _ _ _ hbytes => (by cases hbytes), fun _ => h⟩
    | some bytes =>
        refine (h.act_iff (.pipe inp bytes)).trans ⟨fun hfits _ other hother => ?_, fun hfits => ?_⟩
        · cases hother
          exact hfits
        · exact hfits hgate bytes rfl
  · rename_i hgate
    exact ⟨fun _ hopen => absurd hopen hgate, fun _ => h⟩

theorem Lossless.outbound_iff (h : adapter.Lossless) (reads : List Inputs) :
    (adapter.outbound reads).Lossless ↔ adapter.OutboundFits reads := by
  rw [Adapter.outbound, OutboundFits]
  split
  · rename_i hgate
    exact (h.act_iff (.pump reads)).trans ⟨fun hfits _ => hfits, fun hfits => hfits hgate⟩
  · rename_i hgate
    exact ⟨fun _ hopen => absurd hopen hgate, fun _ => h⟩

/-- The second half of a turn. -/
def tail (adapter : Adapter) (turn : LoopTurn) : Adapter :=
  if adapter.gone then adapter
  else ((adapter.interrupts turn.late).outbound turn.reads).ship turn.ready turn.mps

theorem turn_eq (hgone : adapter.gone = false) (turn : LoopTurn) :
    adapter.turn turn = (adapter.fed turn).tail turn := by
  rw [Adapter.turn, hgone]
  rfl

theorem tail_keeps {inv : Adapter → Prop} (hkept : Kept inv) (h : inv adapter) (turn : LoopTurn) :
    inv (adapter.tail turn) := by
  rw [tail]
  split
  · exact h
  · exact hkept.ship _ _ _ (outbound_keeps hkept (interrupts_keeps hkept h turn.late) turn.reads)

theorem Lossless.tail_iff (h : adapter.Lossless) (turn : LoopTurn) :
    (adapter.tail turn).Lossless ↔
      (adapter.gone = false → (adapter.interrupts turn.late).OutboundFits turn.reads) := by
  rw [tail]
  cases hgone : adapter.gone with
  | true => exact ⟨fun _ hnot => (by cases hnot), fun _ => h⟩
  | false =>
      rw [if_neg (by simp), lossless_ship, (h.interrupts turn.late).outbound_iff]
      exact ⟨fun hfits _ => hfits, fun hfits => hfits rfl⟩

/-- A turn loses nothing exactly if both of its calls fit. -/
theorem Lossless.turn_iff (h : adapter.Lossless) (turn : LoopTurn) :
    (adapter.turn turn).Lossless ↔ adapter.TurnFits turn := by
  cases hgone : adapter.gone with
  | true =>
      rw [Adapter.turn, hgone, TurnFits, hgone]
      exact ⟨fun _ hnot => (by cases hnot), fun _ => h⟩
  | false =>
      have hinbound := (h.polled turn).inbound_iff turn.inp
      have hfed : adapter.fed turn =
          ((adapter.polled turn).inbound turn.inp).serveRequest turn.mps turn.flush := rfl
      rw [turn_eq hgone, TurnFits, hgone]
      by_cases hfits : (adapter.polled turn).InboundFits turn.inp
      · have hserved : (adapter.fed turn).Lossless :=
          (hinbound.mpr hfits).serveRequest turn.mps turn.flush
        rw [hserved.tail_iff turn]
        exact ⟨fun htail _ => ⟨hfits, htail⟩, fun hboth => (hboth rfl).2⟩
      · -- what the delivery lost, the rest of the turn does not bring back
        have hadmits := inbound_keeps (kept_admits (adapter.polled turn)) (admits_refl _) turn.inp
        have hlost := ((h.polled turn).later hadmits).resolve_left fun hall =>
          hfits (hinbound.mp hall)
        have hlast : ((adapter.fed turn).tail turn).Lost :=
          tail_keeps kept_lost (serveRequest_keeps kept_lost hlost turn.mps turn.flush) turn
        exact ⟨fun hall => absurd hall hlast.not_lossless, fun hboth => absurd (hboth rfl).1 hfits⟩

/-! ## Every run -/

theorem lossless_boot (rate : BaudRate) : (boot rate).Lossless := rfl

/-- No record is ever dropped exactly if the records of every call fit the queue. -/
theorem nothing_is_dropped_iff (rate : BaudRate) (turns : List LoopTurn) :
    (∀ done, done <+: turns → (run turn (boot rate) done).Lossless) ↔
      Meets turn TurnFits (boot rate) turns :=
  Meets.iff_always turn (fun _ => True) Lossless (fun _ _ _ => trivial)
    (fun _ action _ h => h.turn_iff action) trivial (lossless_boot rate)

/-! ## Draining full rings -/

/-- An EDGE_DRAIN for as many edges as a record takes. -/
def drain : List Byte := [recEdgeDrain, 64]

theorem fits_drain : Link.RecordFits drain := by decide

/-- A full drain: 64 edges of either kind leave, in a record of 266 bytes. -/
theorem handle_drain {link : Link} (inp : Inputs) (hfalls : 64 ≤ link.bus.edges.falls.length)
    (hrises : 64 ≤ link.bus.edges.rises.length) :
    ∃ answer : Sent, answer.bytes.length = 266 ∧
      (link.handle inp drain).sent = link.sent ++ [answer] ∧
      (link.handle inp drain).bus.edges.falls = link.bus.edges.falls.drop 64 ∧
      (link.handle inp drain).bus.edges.rises = link.bus.edges.rises.drop 64 := by
  refine ⟨.edges link.bus.edges.overflow inp.now (link.bus.edges.falls.take 64)
    (link.bus.edges.rises.take 64), ?_, ?_, rfl, rfl⟩
  · rw [Sent.bytes, sealed, length_frame, Sent.body]
    simp only [List.length_cons, List.length_append, u32ToLe, length_u16ToLe, length_ticks,
      List.length_take, List.length_nil, Nat.min_eq_left hfalls, Nat.min_eq_left hrises]
    rfl
  · exact List.flatMap_append

/-- As many drains as the rings can fill. -/
theorem sent_drains {link : Link} (inp : Inputs) {n : ℕ}
    (hfalls : 64 * n ≤ link.bus.edges.falls.length)
    (hrises : 64 * n ≤ link.bus.edges.rises.length) :
    ∃ answers, (answers.flatMap Sent.bytes).length = 266 * n ∧
      (link.handleAll inp (List.replicate n drain)).sent = link.sent ++ answers := by
  induction n generalizing link with
  | zero => exact ⟨[], rfl, (List.append_nil _).symm⟩
  | succ n ih =>
      obtain ⟨answer, hlength, hsent, hfalls', hrises'⟩ :=
        @handle_drain link inp (by omega) (by omega)
      obtain ⟨answers, hmore, hrest⟩ := @ih (link.handle inp drain)
        (by rw [hfalls', List.length_drop]; omega) (by rw [hrises', List.length_drop]; omega)
      refine ⟨answer :: answers, ?_, ?_⟩
      · rw [List.flatMap_cons, List.length_append, hlength, hmore]
        omega
      · rw [hsent, List.append_assoc] at hrest
        exact hrest

/-- A delivery of whole records to a server between two records handles them all. -/
theorem sent_onPipe {link : Link} (hrx : link.server.rx = []) (inp : Inputs)
    {records : List (List Byte)} (hfits : ∀ record ∈ records, Link.RecordFits record) :
    (link.onPipe inp (frames lenCodec records)).sent = (link.handleAll inp records).sent := by
  obtain ⟨done, rest, held, rfl, hheld, hbytes, hfeed⟩ := @Link.feed_spec link inp
    (2 * (frames lenCodec records).length) records (frames lenCodec records)
    ⟨by rw [hrx]; exact held_nil records (by decide), hfits⟩
    (by rw [hrx, List.nil_append]) (by omega)
  rw [hrx, List.nil_append, frames_append] at hbytes
  have hrest : frames lenCodec rest = held := List.append_cancel_left hbytes
  have hnone : rest = [] := by
    cases rest with
    | nil => rfl
    | cons record rest =>
        have hshort := hheld.short record rfl
        rw [← hrest, frames_cons, List.length_append] at hshort
        omega
  subst hnone
  rw [List.append_nil] at hfeed ⊢
  rw [Link.onPipe, hfeed]
  rfl

/-- The first packet after boot waits for the server, and nothing else does. -/
theorem polled_boot (rate : BaudRate) {turn : LoopTurn} {bytes : List Byte}
    (hpacket : turn.packet = some bytes) :
    ((boot rate).polled turn).link.server = .new ∧ ((boot rate).polled turn).link.sent = [] ∧
      ((boot rate).polled turn).link.bus.edges = turn.edges ∧
      ((boot rate).polled turn).txq = .new ∧
      ((boot rate).polled turn).rxPending = some bytes := by
  obtain ⟨hserver, -, -, hpending, -⟩ :=
    interrupts_same ((boot rate).usbPoll turn.packet) turn.early
  obtain ⟨hsent, htxq, -, -⟩ := polled_same (boot rate) turn
  have hnew : ((boot rate).usbPoll turn.packet).rxPending = some bytes := by
    rw [hpacket]
    rfl
  obtain ⟨hlink, -⟩ := usbPoll_same (boot rate) turn.packet
  exact ⟨hserver.trans (congrArg Link.server hlink), hsent, rfl, htxq, hpending.trans hnew⟩

/-- Sixteen drains in one packet, of rings that hold their 1024 edges, answer more than the
whole queue takes: a record is dropped although the gate was open. -/
theorem full_drains_are_dropped (rate : BaudRate) {turn : LoopTurn}
    (hpacket : turn.packet = some (frames lenCodec (List.replicate 16 drain)))
    (hfalls : 1024 ≤ turn.edges.falls.length) (hrises : 1024 ≤ turn.edges.rises.length) :
    ¬ ((boot rate).turn turn).Lossless := by
  rw [(lossless_boot rate).turn_iff]
  intro hturn
  obtain ⟨hserver, hsent, hedges, htxq, hpending⟩ := polled_boot rate hpacket
  have hinbound := (hturn rfl).1
  generalize (boot rate).polled turn = adapter at hinbound hserver hsent hedges htxq hpending
  have hfree : adapter.txq.free = txqCap := by
    rw [htxq]
    rfl
  have hfits := hinbound (by rw [hfree]; decide) _ hpending
  obtain ⟨answers, hlength, hdrains⟩ := @sent_drains adapter.link turn.inp 16
    (by rw [hedges]; omega) (by rw [hedges]; omega)
  have houtput : adapter.output (.pipe turn.inp (frames lenCodec (List.replicate 16 drain))) =
      answers := by
    have hact := sent_act adapter.link (.pipe turn.inp (frames lenCodec (List.replicate 16 drain)))
    have hpipe := @sent_onPipe adapter.link (by rw [hserver]; rfl) turn.inp
      (List.replicate 16 drain)
      fun record hrecord => (List.eq_of_mem_replicate hrecord) ▸ fits_drain
    rw [hsent, List.nil_append] at hact hdrains
    exact hact.symm.trans (hpipe.trans hdrains)
  rw [Fits, houtput, hlength, hfree] at hfits
  exact absurd hfits (by decide)

end Adapter

end OpenServo.Host
