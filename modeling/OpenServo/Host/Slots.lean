import OpenServo.Host.Exchange
import OpenServo.Security.Lockout

/-!
# The slots of a chain

The servos of a GREAD answer in list order, a live one as soon as those before it have or
have been given up.  The engine numbers the statuses as they arrive: its slots are list
positions as long as no silent servo is listed before a live one.
-/

namespace OpenServo.Host

open Bus Transition

/-! ## What arrives -/

/-- The frames of the servos that answer, back to back. -/
def stream (replies : List Reply) : List Byte := replies.flatMap Reply.frame

/-- The statuses as the engine numbers them. -/
def numbered (replies : List Reply) : List Told :=
  replies.mapIdx fun i reply => ⟨UInt8.ofNat i, reply.id, reply.inst, reply.payload⟩

theorem stream_append (left right : List Reply) :
    stream (left ++ right) = stream left ++ stream right := List.flatMap_append

@[simp]
theorem length_numbered (replies : List Reply) : (numbered replies).length = replies.length :=
  List.length_mapIdx

theorem numbered_concat (replies : List Reply) (last : Reply) :
    numbered (replies ++ [last]) = numbered replies ++
      [⟨UInt8.ofNat replies.length, last.id, last.inst, last.payload⟩] :=
  List.mapIdx_concat

/-- An accepted GREAD awaits as many statuses as it lists ids. -/
theorem Shape.derive_gread {id : Id} {inst : Inst} {payload : List Byte} {plan : Shape}
    (hop : inst.opcode = some .gread) (h : derive id inst payload = .ok plan) :
    plan.replies = .chain (UInt8.ofNat (chainIds inst payload).length) ∧
      chainIds inst payload ≠ [] ∧ (chainIds inst payload).length ≤ maxPayload := by
  obtain ⟨op, raw, hop', -, hlen, hraw, rfl⟩ := derive_ok h
  obtain rfl := Option.some.inj (hop.symm.trans hop')
  obtain ⟨hreplies, hsome⟩ := gread_ok hraw
  rw [FrameBytes.bytes_ofList] at hreplies hsome
  refine ⟨?_, hsome, (chainIds_length_le inst payload).trans hlen⟩
  rw [suppress_replies, hreplies]

namespace Exchange

/-- What lands next is what the servos send, under a lap of the ring, and as long as the next
status is not whole a poll sees new bytes or comes before the window is over. -/
structure Arrives (replies : List Reply) (x : Exchange) (a : Arrival) : Prop where
  laps : (x.bus.framer.pending x.ring).length + a.landed.length < x.ring.len
  lists : x.heard ++ a.landed <+: stream replies
  timely : a.call = .poll → x.bus.state = .awaiting →
    (x.heard ++ a.landed).length < (stream (replies.take (x.told.length + 1))).length →
      UInt16.ofNat (x.ring.land a.landed).cursor ≠ x.bus.lastCursor ∨
        tickReached a.now x.bus.deadlineAt = false

instance (replies : List Reply) (x : Exchange) (a : Arrival) : Decidable (x.Arrives replies a) :=
  decidable_of_iff (_ ∧ _ ∧ _)
    ⟨fun ⟨laps, lists, timely⟩ => ⟨laps, lists, timely⟩, fun h => ⟨h.laps, h.lists, h.timely⟩⟩

/-- The statuses of the live servos arrive in list order, each within its window. -/
def Orderly (replies : List Reply) (x : Exchange) (a : Arrival) : Prop :=
  x.closed = none → x.Arrives replies a

instance (replies : List Reply) (x : Exchange) (a : Arrival) : Decidable (x.Orderly replies a) :=
  inferInstanceAs (Decidable (_ → _))

/-! ## One call -/

variable {ticksPerUs now : UInt32} {bus : HostBus} {ring : Ring} {id : Id} {inst : Inst}
  {payload : List Byte} {plan : Shape} {x : Exchange} {a : Arrival} {n : ℕ}
  {done todo replies : List Reply}

/-- The statuses of `done` have been handed out, those of `todo` have not. -/
structure InOrder (plan : Shape) (n : ℕ) (done todo : List Reply) (x : Exchange) : Prop where
  underway : x.bus.Underway plan
  inRing : x.bus.framer.anchor < x.ring.len
  told : x.told = numbered done
  room : done.length < n
  heard : x.heard = stream done ++ x.bus.framer.pending x.ring
  got : x.bus.state = .awaiting → x.bus.got = UInt8.ofNat done.length
  early : x.bus.state ≠ .awaiting → done = []

/-- All statuses have been handed out: the chain is complete, or the next slot timed out. -/
structure Ended (n : ℕ) (replies : List Reply) (x : Exchange) (outcome : Outcome) : Prop where
  told : x.told = numbered replies
  outcome : outcome = .complete ∨
    outcome = .timeout (UInt8.ofNat replies.length) ∧ replies.length < n

/-- Where a call leaves an exchange. -/
inductive Follows (plan : Shape) (n : ℕ) (replies : List Reply) (x : Exchange) : Prop
  | going (done todo : List Reply) (split : replies = done ++ todo) (closed : x.closed = none)
      (inOrder : x.InOrder plan n done todo) : Follows plan n replies x
  | ended {terminal : Terminal} (closed : x.closed = some terminal)
      (ended : x.Ended n replies terminal.outcome) : Follows plan n replies x

/-- The ring after the arrival, in the terms of what was sent. -/
structure Landed (done todo : List Reply) (x : Exchange) (a : Arrival) : Prop where
  inRing : x.bus.framer.anchor < (x.ring.land a.landed).len
  heard : x.heard ++ a.landed = stream done ++ x.bus.framer.pending (x.ring.land a.landed)
  next : x.bus.framer.pending (x.ring.land a.landed) <+: stream todo

theorem InOrder.land (h : x.InOrder plan n done todo) (ha : x.Arrives (done ++ todo) a) :
    Landed done todo x a := by
  have hpending := Framer.pending_land h.inRing ha.laps
  have hheard : x.heard ++ a.landed =
      stream done ++ x.bus.framer.pending (x.ring.land a.landed) := by
    rw [hpending, h.heard, List.append_assoc]
  refine ⟨by rw [Ring.len_land]; exact h.inRing, hheard, ?_⟩
  have hlists := ha.lists
  rwa [hheard, stream_append, List.prefix_append_right_inj] at hlists

/-- A call that hands out nothing. -/
theorem InOrder.rests (h : x.InOrder plan n done todo) (ha : Landed done todo x a) {bus' : HostBus}
    (hunderway : bus'.Underway plan) (hframer : bus'.framer = x.bus.framer)
    (hgot : bus'.state = .awaiting → bus'.got = UInt8.ofNat done.length)
    (hearly : bus'.state ≠ .awaiting → done = []) {closed : Option Terminal} :
    InOrder plan n done todo ⟨bus', x.ring.land a.landed, x.heard ++ a.landed, x.told, closed⟩ where
  underway := hunderway
  inRing := by rw [hframer]; exact ha.inRing
  told := h.told
  room := h.room
  heard := by rw [hframer]; exact ha.heard
  got := hgot
  early := hearly

/-- The bytes at hand are a whole status, or the beginning of one. -/
theorem front_of_starts {front : List Byte} {reply : Reply} {more : List Reply}
    (h : front <+: stream (reply :: more)) :
    (∃ rest, front = reply.frame ++ rest) ∨ ∃ rest, front ++ rest = reply.frame ∧ rest ≠ [] := by
  have hframe : reply.frame <+: stream (reply :: more) := List.prefix_append _ _
  by_cases hwhole : reply.frame.length ≤ front.length
  · obtain ⟨rest, hrest⟩ := List.prefix_of_prefix_length_le hframe h hwhole
    exact .inl ⟨rest, hrest.symm⟩
  · obtain ⟨rest, hrest⟩ := List.prefix_of_prefix_length_le h hframe (by omega)
    refine .inr ⟨rest, hrest, fun hnone => hwhole ?_⟩
    rw [← hrest, hnone, List.append_nil]

theorem counted_got (hgot : bus.got = UInt8.ofNat done.length) (hsmall : done.length < 252) :
    bus.counted.got = UInt8.ofNat (done.length + 1) := by
  have hvalue : bus.counted.got.toNat = done.length + 1 := by
    rw [HostBus.counted, Security.SecurityContext.toNat_saturatingSucc8, hgot, UInt8.toNat_ofNat']
    omega
  rw [← UInt8.ofNat_toNat (x := bus.counted.got), hvalue]

section Poll

/-- The exchange a call leaves behind. -/
def after (x : Exchange) (a : Arrival) (out : Seen × HostBus) : Exchange :=
  ⟨out.2, x.ring.land a.landed, x.heard ++ a.landed, x.told ++ out.1.told, x.bus.formed out⟩

/-- A poll that finds no status: only after the last one may the window be over. -/
theorem follows_quiet (h : x.InOrder plan n done todo) (ha : Landed done todo x a)
    (hstate : x.bus.state = .awaiting) (hchain : plan.replies = .chain (UInt8.ofNat n))
    (hwalk : ∀ fuel, HostBus.awaitWalk (inputs ticksPerUs a.now (x.ring.land a.landed))
      (HostBus.expectedReplies plan.replies) (fuel + 1) x.bus = (none, x.bus))
    (htimely : todo = [] ∨ UInt16.ofNat (x.ring.land a.landed).cursor ≠ x.bus.lastCursor ∨
      tickReached a.now x.bus.deadlineAt = false) :
    Follows plan n (done ++ todo) (x.after a (HostBus.polled
      (x.bus.pollAwait (inputs ticksPerUs a.now (x.ring.land a.landed))))) := by
  have hdone := h.underway.done
  obtain ⟨-, last, hrests, hpolled⟩ | ⟨⟨hcursor, hdue⟩, last, hpolled⟩ :=
    HostBus.pollAwait_walked h.underway.plan (hwalk _) hdone
  · rw [hpolled]
    refine .going done todo rfl
      (HostBus.formed_of_same hrests.done HostBus.nothing_ne_done) ?_
    rw [after, show (Seen.nothing).told = [] from rfl, List.append_nil]
    refine h.rests ha (hrests.underway h.underway) hrests.framer (fun _ => ?_) fun hearly => ?_
    · rw [hrests.got]
      exact h.got hstate
    · exact absurd (hrests.state.trans hstate) hearly
  · rw [hpolled, hchain, if_neg (by simp)]
    have hnone : todo = [] := htimely.resolve_right (by
      rintro (hnew | hearly)
      · exact hnew hcursor
      · rw [show tickReached a.now x.bus.deadlineAt = true from hdue] at hearly
        cases hearly)
    refine .ended (HostBus.formed_of_taken hdone last) ?_
    rw [hnone, List.append_nil]
    refine ⟨?_, .inr ⟨?_, h.room⟩⟩
    · exact (List.append_nil _).trans h.told
    · rw [h.got hstate]

/-- A poll that finds the next status. -/
theorem follows_status (h : x.InOrder plan n done todo) (ha : Landed done todo x a)
    (hstate : x.bus.state = .awaiting) (hchain : plan.replies = .chain (UInt8.ofNat n))
    (hn : n ≤ 252) (hcount : (done ++ todo).length ≤ n) {reply : Reply} {more : List Reply}
    (htodo : todo = reply :: more) {rest : List Byte}
    (hwhole : x.bus.framer.pending (x.ring.land a.landed) = reply.frame ++ rest) :
    Follows plan n (done ++ todo) (x.after a (HostBus.polled
      (x.bus.pollAwait (inputs ticksPerUs a.now (x.ring.land a.landed))))) := by
  have hroom := h.room
  obtain ⟨framer, bus', view, hcuts, hview, hdelivers, hpolled⟩ :=
    HostBus.polled_landed (@ring_inputs ticksPerUs a.now (x.ring.land a.landed))
      (toNat_cursor _) h.underway.plan ha.inRing hwhole
  have hgot := counted_got (h.got hstate) (by omega)
  have hslot : x.bus.counted.got - 1 = UInt8.ofNat done.length := by
    rw [hgot, UInt8.ofNat_add]
    exact UInt8.add_sub_cancel _ _
  have htold : x.told ++ (Seen.event (.status (x.bus.counted.got - 1) reply.id reply.inst
      view)).told = numbered (done ++ [reply]) := by
    rw [numbered_concat, h.told, hslot, Seen.told, hview]
  have hformed : x.bus.formed (_, bus') = bus'.pendingDone :=
    HostBus.formed_of_pending h.underway.done
      (HostBus.status_ne_done (x.bus.counted.got - 1) reply.id reply.inst view)
  rw [htodo] at hcount ⊢
  rw [List.length_append, List.length_cons] at hcount
  rw [hpolled]
  cases hdelivers with
  | completes hlast hterminal =>
      have hfull : n = done.length + 1 := by
        have hlast : some (UInt8.ofNat n) = some (UInt8.ofNat (done.length + 1)) := by
          rw [← hgot]
          exact (congrArg HostBus.expectedReplies hchain).symm.trans hlast
        have hvalue := congrArg UInt8.toNat (Option.some.inj hlast)
        rw [UInt8.toNat_ofNat', UInt8.toNat_ofNat'] at hvalue
        omega
      have hnone : more = [] := List.eq_nil_of_length_eq_zero (by omega)
      refine .ended (hformed.trans hterminal) ⟨?_, .inl rfl⟩
      rw [hnone]
      exact htold
  | streams hmore =>
      have hopen : n ≠ done.length + 1 := fun hfull => hmore (by
        rw [hchain, hfull]
        exact congrArg some hgot.symm)
      have hnone : x.bus.pendingDone = none := h.underway.done
      refine .going (done ++ [reply]) more (by simp) (hformed.trans hnone) ?_
      refine ⟨⟨.inr (.inr hstate), hnone, h.underway.wireDone, h.underway.plan⟩, hcuts.inRing,
        htold, ?_, ?_, fun _ => ?_, fun hearly => absurd hstate hearly⟩
      · rw [List.length_append, List.length_singleton]
        omega
      · change x.heard ++ a.landed = _ ++ framer.pending (x.ring.land a.landed)
        rw [ha.heard, hcuts.cut, stream_append, List.append_assoc]
        congr 2
        exact (List.append_nil _).symm
      · rw [List.length_append, List.length_singleton]
        exact hgot

theorem follows_poll (h : x.InOrder plan n done todo) (ha : x.Arrives (done ++ todo) a)
    (hcall : a.call = .poll) (hstate : x.bus.state = .awaiting)
    (hchain : plan.replies = .chain (UInt8.ofNat n)) (hn : n ≤ 252)
    (hcount : (done ++ todo).length ≤ n) :
    Follows plan n (done ++ todo) (x.after a (HostBus.polled
      (x.bus.pollAwait (inputs ticksPerUs a.now (x.ring.land a.landed))))) := by
  have hlanded := h.land ha
  cases htodo : todo with
  | nil =>
      have hnone : x.bus.framer.pending (x.ring.land a.landed) = [] := by
        have hnext := hlanded.next
        rw [htodo] at hnext
        exact List.prefix_nil.mp hnext
      rw [← htodo]
      refine follows_quiet h hlanded hstate hchain (fun fuel => ?_) (.inl htodo)
      exact HostBus.awaitWalk_nothing rfl (toNat_cursor _) hnone _ fuel
  | cons reply more =>
      have hnext := hlanded.next
      rw [htodo] at hnext
      rw [← htodo]
      obtain ⟨rest, hwhole⟩ | ⟨rest, hbegun, hmore⟩ := front_of_starts hnext
      · exact follows_status h hlanded hstate hchain hn hcount htodo hwhole
      · refine follows_quiet h hlanded hstate hchain (fun fuel => ?_)
          (.inr (ha.timely hcall hstate ?_))
        · exact HostBus.awaitWalk_begun rfl (toNat_cursor _) hbegun hmore _ fuel
        · have htold : x.told.length = done.length := by rw [h.told, length_numbered]
          have htake : (done ++ todo).take (x.told.length + 1) = done ++ [reply] := by
            rw [htold, htodo, List.take_append]
            simp
          have hlength := congrArg List.length hbegun
          have hrest := List.length_pos_iff.mpr hmore
          rw [htake, stream_append, hlanded.heard, List.length_append, List.length_append]
          rw [List.length_append] at hlength
          simp only [stream, List.flatMap_cons, List.flatMap_nil, List.append_nil]
          omega

end Poll

/-- One call of an orderly run. -/
theorem follows_step (htrain : plan.train = none)
    (hchain : plan.replies = .chain (UInt8.ofNat n)) (hn : n ≤ 252) (hcount : replies.length ≤ n)
    (h : Follows plan n replies x) (ha : x.Orderly replies a) :
    Follows plan n replies (x.step ticksPerUs a) := by
  cases h with
  | ended hclosed hended =>
      have hover : x.closed.isSome = true := by rw [hclosed]; rfl
      rw [step, if_pos hover]
      exact .ended hclosed hended
  | going done todo hsplit hclosed hinOrder =>
      subst hsplit
      have harrives := ha hclosed
      have hgoing : x.closed.isSome ≠ true := by rw [hclosed]; exact Bool.false_ne_true
      rw [step, if_neg hgoing]
      change Follows plan n _ (x.after a (x.out ticksPerUs a))
      have hreplies : plan.replies ≠ .none := by rw [hchain]; exact fun h => by cases h
      have hserves : HostBus.Serves x.bus (inputs ticksPerUs a.now (x.ring.land a.landed)) plan
        a.call (x.out ticksPerUs a) :=
          HostBus.serves_call hinOrder.underway htrain hreplies a.call
      generalize x.out ticksPerUs a = out at hserves
      generalize hcall : a.call = call at hserves
      cases hserves with
      | walks hstate => exact follows_poll hinOrder harrives hcall hstate hchain hn hcount
      | waits htold hformed hunderway hframer hevidence hturn =>
          refine .going done todo rfl hformed ?_
          rw [after, htold, List.append_nil]
          refine hinOrder.rests (hinOrder.land harrives) hunderway hframer (fun hstate => ?_)
            fun hearly => ?_
          · obtain rfl | ⟨hbefore, hgot⟩ := hturn
            · exact hinOrder.got hstate
            · rw [hgot hstate, hinOrder.early hbefore]
              rfl
          · obtain rfl | ⟨hbefore, -⟩ := hturn
            · exact hinOrder.early hearly
            · exact hinOrder.early hbefore

theorem follows_start (hready : bus.ready = true)
    (hplan : Shape.derive id inst payload = .ok plan) (hn : 0 < n) (replies : List Reply) :
    Follows plan n replies (start ticksPerUs now bus ring id inst payload) := by
  have hstarted := started_start ticksPerUs now ring hready hplan
  refine .going [] replies rfl rfl ⟨hstarted.underway, hstarted.inRing, rfl, hn, ?_, ?_, ?_⟩
  · rw [hstarted.pending]
    rfl
  · exact fun hstate => absurd hstate hstarted.sending
  · exact fun _ => rfl

/-! ## Slots and list positions -/

/-- Every status is in the slot its sender is listed in, and a slot that times out is that of
a listed servo that sent none. -/
structure Placed (ids : List Byte) (x : Exchange) : Prop where
  status : ∀ told ∈ x.told, ids[told.slot.toNat]? = some told.id.byte
  timeout : ∀ terminal slot, x.closed = some terminal → terminal.outcome = .timeout slot →
    ∃ silent, ids[slot.toNat]? = some silent ∧ ∀ told ∈ x.told, told.id.byte ≠ silent

/-- The ids of the servos that answer. -/
def live (replies : List Reply) : List Byte := replies.map fun reply => reply.id.byte

variable {ids : List Byte}

/-- Statuses numbered as they arrive are in the slots of a list that starts with the senders. -/
theorem slots_iff_starts (hids : ids.length ≤ 252) (hcount : done.length ≤ ids.length) :
    (∀ told ∈ numbered done, ids[told.slot.toNat]? = some told.id.byte) ↔ live done <+: ids := by
  have hslot : ∀ i < done.length, (UInt8.ofNat i).toNat = i := fun i hi => by
    rw [UInt8.toNat_ofNat', Nat.mod_eq_of_lt (by omega)]
  rw [List.prefix_iff_getElem?]
  constructor
  · intro hplaced i hi
    rw [live, List.length_map] at hi
    have htold := hplaced _ (List.mem_mapIdx.mpr ⟨i, hi, rfl⟩)
    rw [hslot i hi] at htold
    rw [htold]
    simp [live]
  · intro hstarts told htold
    obtain ⟨i, hi, rfl⟩ := List.mem_mapIdx.mp htold
    have hlisted := hstarts i (by rwa [live, List.length_map])
    rw [hslot i hi, hlisted]
    simp [live]

/-- The slot behind the last sender is that of a servo that sent nothing. -/
theorem exists_silent (hids : ids.length ≤ 252) (hdistinct : ids.Nodup)
    (hstarts : live replies <+: ids) (hmore : replies.length < ids.length) :
    ∃ silent, ids[(UInt8.ofNat replies.length).toNat]? = some silent ∧
      ∀ told ∈ numbered replies, told.id.byte ≠ silent := by
  obtain ⟨rest, rfl⟩ := hstarts
  have hlength : (live replies).length = replies.length := List.length_map _
  rw [UInt8.toNat_ofNat', Nat.mod_eq_of_lt (by omega)]
  cases rest with
  | nil =>
      rw [List.append_nil, hlength] at hmore
      exact absurd hmore (lt_irrefl _)
  | cons silent rest =>
      refine ⟨silent, ?_, fun told htold hsame => ?_⟩
      · rw [List.getElem?_append_right (by omega), hlength, Nat.sub_self]
        rfl
      · obtain ⟨i, hi, rfl⟩ := List.mem_mapIdx.mp htold
        have hsent : replies[i].id.byte ∈ live replies :=
          List.mem_map.mpr ⟨_, List.getElem_mem hi, rfl⟩
        exact (List.nodup_append.mp hdistinct).2.2 _ hsent _ List.mem_cons_self hsame

theorem placed_of_starts (hids : ids.length ≤ 252) (hdistinct : ids.Nodup)
    (h : Follows plan ids.length replies x) (hstarts : live replies <+: ids) : Placed ids x := by
  have hcount : replies.length ≤ ids.length := by
    have hle := hstarts.length_le
    rwa [live, List.length_map] at hle
  cases h with
  | going done todo hsplit hclosed hinOrder =>
      refine ⟨fun told htold => ?_, fun terminal slot hended => ?_⟩
      · rw [hinOrder.told] at htold
        refine (slots_iff_starts hids hinOrder.room.le).mpr (List.IsPrefix.trans ?_ hstarts) _ htold
        rw [hsplit, live, live, List.map_append]
        exact List.prefix_append _ _
      · rw [hclosed] at hended
        cases hended
  | ended hclosed hended =>
      refine ⟨fun told htold => ?_, fun terminal slot hclosed' hslot => ?_⟩
      · rw [hended.told] at htold
        exact (slots_iff_starts hids hcount).mpr hstarts _ htold
      · obtain rfl := Option.some.inj (hclosed.symm.trans hclosed')
        obtain hcomplete | ⟨htimeout, hmore⟩ := hended.outcome
        · rw [hcomplete] at hslot
          cases hslot
        · obtain rfl := Outcome.timeout.inj (htimeout.symm.trans hslot)
          rw [hended.told]
          exact exists_silent hids hdistinct hstarts hmore

/-- In every run of an accepted GREAD whose statuses arrive in list order and in time, slots
are list positions if no silent servo is listed before a live one, and in one that has its
terminal only then. -/
theorem slots_are_list_positions (hready : bus.ready = true) (hop : inst.opcode = some .gread)
    (hplan : Shape.derive id inst payload = .ok plan)
    (hdistinct : (chainIds inst payload).Nodup)
    (hlive : (live replies).Sublist (chainIds inst payload)) {arrivals : List Arrival}
    (horderly : Meets (step ticksPerUs) (Orderly replies)
      (start ticksPerUs now bus ring id inst payload) arrivals)
    (hrun : run (step ticksPerUs) (start ticksPerUs now bus ring id inst payload) arrivals = x) :
    (live replies <+: chainIds inst payload → Placed (chainIds inst payload) x) ∧
      (x.closed.isSome = true →
        (Placed (chainIds inst payload) x ↔ live replies <+: chainIds inst payload)) := by
  obtain ⟨hchain, hsome, hids⟩ := Shape.derive_gread hop hplan
  have hreplies : plan.replies ≠ .none := by rw [hchain]; exact fun h => by cases h
  have hcount : replies.length ≤ (chainIds inst payload).length := by
    have hle := hlive.length_le
    rwa [live, List.length_map] at hle
  have hfollows : Follows plan (chainIds inst payload).length replies x := by
    rw [← hrun]
    exact Meets.invariant _ (Follows plan (chainIds inst payload).length replies)
      (fun _ _ => follows_step (Shape.train_of_derive hplan hreplies) hchain hids hcount)
      (follows_start hready hplan (List.length_pos_iff.mpr hsome) replies) horderly
  refine ⟨placed_of_starts hids hdistinct hfollows, fun hclosed =>
    ⟨fun hplaced => ?_, placed_of_starts hids hdistinct hfollows⟩⟩
  cases hfollows with
  | going done todo hsplit hopen hinOrder =>
      rw [hopen] at hclosed
      cases hclosed
  | ended hclosed' hended =>
      refine (slots_iff_starts hids hcount).mp fun told htold => hplaced.status told ?_
      rwa [hended.told]

/-! ### On the bench -/

section Bench

/-- The servo with the id answers with four bytes. -/
def benchReply (id : Byte) (hunicast : (Id.mk id).isUnicast = true) : Reply :=
  ⟨⟨id⟩, ⟨0x80⟩, [0, 0, 0, 0], hunicast, Reply.status_ok, by decide⟩

/-- A GREAD of four bytes at 0x84 from the servos 1, 2 and 3. -/
def benchGread : List Byte := [0x84, 0, 4, 0, 1, 2, 3]

/-- Servo 1 answers, the others stay silent. -/
theorem slots_of_a_silent_tail :
    Placed [1, 2, 3] (run (step 18) (start 18 0 (.new .b1000000 .empty) .bench ⟨0xFE⟩ ⟨0x50⟩
      benchGread) [⟨0, [], .txComplete⟩, ⟨0, (benchReply 1 (by decide)).frame, .poll⟩,
        ⟨100000, [], .poll⟩]) :=
  (slots_are_list_positions (by decide) (by decide)
    (show Shape.derive ⟨0xFE⟩ ⟨0x50⟩ benchGread = .ok ⟨.chain 3, 10, none, false⟩ by decide)
    (by decide)
    (show (live [benchReply 1 (by decide)]).Sublist (chainIds ⟨0x50⟩ benchGread) by decide)
    (by decide +kernel) rfl).1 (by decide)

/-- Servo 1 stays silent, and the status of servo 2 is handed out in its slot. -/
theorem silent_head_shifts_slots :
    ¬ ∀ (ticksPerUs now : UInt32) (bus : HostBus) (ring : Ring) (id : Id) (inst : Inst)
      (payload : List Byte) (plan : Shape) (replies : List Reply) (arrivals : List Arrival),
      bus.ready = true → inst.opcode = some .gread → Shape.derive id inst payload = .ok plan →
      (chainIds inst payload).Nodup → (live replies).Sublist (chainIds inst payload) →
      Meets (step ticksPerUs) (Orderly replies)
        (start ticksPerUs now bus ring id inst payload) arrivals →
      Placed (chainIds inst payload)
        (run (step ticksPerUs) (start ticksPerUs now bus ring id inst payload) arrivals) := by
  intro hclaim
  have hplaced := hclaim 18 0 (.new .b1000000 .empty) .bench ⟨0xFE⟩ ⟨0x50⟩ benchGread
    ⟨.chain 3, 10, none, false⟩ [benchReply 2 (by decide), benchReply 3 (by decide)]
    [⟨0, [], .txComplete⟩, ⟨0, (benchReply 2 (by decide)).frame, .poll⟩] (by decide) (by decide)
    (by decide) (by decide) (by decide) (by decide +kernel)
  have hslot := hplaced.status ⟨0, ⟨2⟩, ⟨0x80⟩, [0, 0, 0, 0]⟩ (by decide +kernel)
  revert hslot
  decide

end Bench

end Exchange

end OpenServo.Host
