import OpenServo.Host.Exchange
import OpenServo.Security.Lockout

/-!
# Every byte is accounted for

Of what lands between a submit and its terminal every byte is either in a status that was
handed out or counted as garble: skipped by the hunt, in a rogue frame, or left over when
the exchange completes or times out.  The counts saturate, garble at sixteen bits and the
statuses at eight.
-/

namespace OpenServo.Host

open Bus Transition

/-! ## Cutting what landed at the statuses -/

def Told.frame (told : Told) : List Byte := wireFrame told.id told.inst told.payload

/-- Statuses, each behind what landed since the one before. -/
def woven (parts : List (List Byte × Told)) : List Byte :=
  parts.flatMap fun part => part.1 ++ part.2.frame

/-- The ring bytes of the statuses. -/
def footprints (told : List Told) : ℕ := (told.map fun told => told.frame.length).sum

/-- What landed, the statuses handed out and the evidence agree: `tail` is what landed after
the last status, everything if there is none. -/
structure Accounts (heard : List Byte) (told : List Told) (evidence : WireEvidence)
    (parts : List (List Byte × Told)) (tail : List Byte) : Prop where
  handed : parts.map Prod.snd = told
  landed : heard = woven parts ++ tail
  statuses : evidence.statuses.toNat = min 255 told.length
  garble : evidence.garble.toNat = min 65535 (heard.length - footprints told)
  trailing : evidence.garbleAfterLastFrame = true ↔ tail ≠ []

theorem toNat_saturatingAdd16 (a b : UInt16) :
    (saturatingAdd16 a b).toNat = min 65535 (a.toNat + b.toNat) := by
  have ha := a.toNat_lt
  have hb := b.toNat_lt
  rw [saturatingAdd16]
  split
  · rw [UInt16.toNat_add]
    omega
  · change 65535 = _
    omega

theorem footprints_concat (told : List Told) (last : Told) :
    footprints (told ++ [last]) = footprints told + last.frame.length := by
  simp [footprints]

theorem woven_concat (parts : List (List Byte × Told)) (last : List Byte × Told) :
    woven (parts ++ [last]) = woven parts ++ (last.1 ++ last.2.frame) := by
  simp [woven]

theorem footprints_le_length_woven (parts : List (List Byte × Told)) :
    footprints (parts.map Prod.snd) ≤ (woven parts).length := by
  induction parts with
  | nil => exact le_rfl
  | cons part parts ih =>
      simp only [footprints, woven, List.map_cons, List.sum_cons, List.flatMap_cons,
        List.length_append] at ih ⊢
      omega

namespace Accounts

variable {heard : List Byte} {told : List Told} {evidence : WireEvidence}
  {parts : List (List Byte × Told)} {tail : List Byte}

theorem nil : Accounts [] [] .default [] [] where
  handed := rfl
  landed := rfl
  statuses := rfl
  garble := rfl
  trailing := by simp [WireEvidence.default]

theorem footprints_le (h : Accounts heard told evidence parts tail) :
    footprints told ≤ heard.length := by
  rw [← h.handed, h.landed, List.length_append]
  exact (footprints_le_length_woven parts).trans (Nat.le_add_right _ _)

/-- Bytes that anchor no status. -/
theorem junk (h : Accounts heard told evidence parts tail) {bytes : List Byte}
    (hsome : bytes ≠ []) (hshort : bytes.length < 65536) :
    Accounts (heard ++ bytes) told
      { evidence with
        garble := saturatingAdd16 evidence.garble (UInt16.ofNat bytes.length)
        garbleAfterLastFrame := true } parts (tail ++ bytes) where
  handed := h.handed
  landed := by rw [h.landed, List.append_assoc]
  statuses := h.statuses
  garble := by
    have hle := h.footprints_le
    rw [toNat_saturatingAdd16, h.garble, UInt16.toNat_ofNat', List.length_append]
    omega
  trailing := by simp [hsome]

/-- A status is handed out. -/
theorem status (h : Accounts heard told evidence parts tail) (last : Told) :
    Accounts (heard ++ last.frame) (told ++ [last])
      { evidence with
        statuses := Security.saturatingSucc8 evidence.statuses
        garbleAfterLastFrame := false } (parts ++ [(tail, last)]) [] where
  handed := by rw [List.map_append, h.handed]; rfl
  landed := by rw [woven_concat, h.landed, List.append_nil, List.append_assoc]
  statuses := by
    rw [Security.SecurityContext.toNat_saturatingSucc8, h.statuses, List.length_append,
      List.length_singleton]
    omega
  garble := by
    rw [h.garble, footprints_concat, List.length_append]
    congr 1
    omega
  trailing := by simp

/-- Below saturation the garble and the statuses add up to what landed. -/
theorem bytes (h : Accounts heard told evidence parts tail)
    (hbelow : evidence.garble.toNat < 65535) :
    evidence.garble.toNat + footprints told = heard.length := by
  have hle := h.footprints_le
  have hgarble := h.garble
  omega

/-- Zero counts are silence. -/
theorem silence (h : Accounts heard told evidence parts tail) (hstatuses : evidence.statuses = 0)
    (hgarble : evidence.garble = 0) : heard = [] := by
  have hcount := h.statuses
  have hbytes := h.bytes (by rw [hgarble]; decide)
  rw [hstatuses] at hcount
  rw [hgarble] at hbytes
  have hnone : told = [] := List.eq_nil_of_length_eq_zero (by
    change 0 = _ at hcount
    omega)
  rw [hnone] at hbytes
  exact List.eq_nil_of_length_eq_zero hbytes.symm

end Accounts

/-! ## The engine's books -/

/-- What landed is what the walker has consumed, accounted for, and what it has not. -/
structure Counts (bus : HostBus) (ring : Ring) (heard : List Byte) (told : List Told) : Prop where
  inRing : bus.framer.anchor < ring.len
  counted : ∃ front parts tail, heard = front ++ bus.framer.pending ring ∧
    Accounts front told bus.evidence parts tail

namespace Counts

variable {bus : HostBus} {ring : Ring} {heard : List Byte} {told : List Told}
  {framer : Framer} {inp : Inputs}

theorem congr {bus' : HostBus} (h : Counts bus ring heard told) (hframer : bus'.framer = bus.framer)
    (hevidence : bus'.evidence = bus.evidence) : Counts bus' ring heard told where
  inRing := by rw [hframer]; exact h.inRing
  counted := by rw [hframer, hevidence]; exact h.counted

theorem land (h : Counts bus ring heard told) {bytes : List Byte}
    (hlap : (bus.framer.pending ring).length + bytes.length < ring.len) :
    Counts bus (ring.land bytes) (heard ++ bytes) told where
  inRing := by rw [Ring.len_land]; exact h.inRing
  counted := by
    obtain ⟨front, parts, tail, hheard, haccounts⟩ := h.counted
    refine ⟨front, parts, tail, ?_, haccounts⟩
    rw [Framer.pending_land h.inRing hlap, hheard, List.append_assoc]

/-- The unconsumed bytes count in sixteen bits. -/
theorem length_pending_lt (framer : Framer) (ring : Ring) :
    (framer.pending ring).length < 65536 := by
  have hlap : unresolved framer.anchor ring.cursor ring.len < ring.len := unresolved_lt ring.len_pos
  have hindexed := Nat.pow_le_pow_right (show 0 < 2 by decide) ring.indexed
  rw [Framer.length_pending]
  exact hlap.trans_le hindexed

/-- A verdict that anchors no status takes bytes that count as garble. -/
theorem junk (h : Counts bus ring heard told) {bytes : List Byte} {n : ℕ}
    (hcuts : Framer.Cuts bus.framer framer ring bytes) (hn : bytes.length = n) :
    Counts (({ bus with framer }.addGarble n).rearm inp) ring heard told where
  inRing := hcuts.inRing
  counted := by
    obtain ⟨front, parts, tail, hheard, haccounts⟩ := h.counted
    have hshort := length_pending_lt bus.framer ring
    rw [hcuts.cut, List.length_append] at hshort
    refine ⟨front ++ bytes, parts, tail ++ bytes, ?_, ?_⟩
    · rw [hheard, hcuts.cut, List.append_assoc]
      rfl
    · rw [← hn]
      exact haccounts.junk hcuts.some (by omega)

/-- A status takes its frame. -/
theorem status (h : Counts bus ring heard told) {last : Told}
    (hcuts : Framer.Cuts bus.framer framer ring last.frame) {bus' : HostBus}
    (hframer : bus'.framer = framer)
    (hevidence : bus'.evidence = { bus.evidence with
      statuses := Security.saturatingSucc8 bus.evidence.statuses
      garbleAfterLastFrame := false }) : Counts bus' ring heard (told ++ [last]) where
  inRing := by rw [hframer]; exact hcuts.inRing
  counted := by
    obtain ⟨front, parts, tail, hheard, haccounts⟩ := h.counted
    refine ⟨front ++ last.frame, parts ++ [(tail, last)], [], ?_, ?_⟩
    · rw [hheard, hcuts.cut, List.append_assoc, hframer]
    · rw [hevidence]
      exact haccounts.status last

/-- What is left over at the end is garble. -/
theorem fold (h : Counts bus ring heard told) (hring : inp.ring = ring.bytes)
    (hcursor : inp.cursor.toNat = ring.cursor) :
    ∃ parts tail, Accounts heard told (bus.foldUnresolved inp).evidence parts tail := by
  obtain ⟨front, parts, tail, hheard, haccounts⟩ := h.counted
  simp only [HostBus.foldUnresolved, hring, hcursor, ring.length_bytes, ← Framer.length_pending]
  split
  · rename_i hleft
    rw [hheard]
    exact ⟨parts, tail ++ bus.framer.pending ring,
      haccounts.junk (List.ne_nil_of_length_pos hleft) (length_pending_lt _ _)⟩
  · rename_i hnone
    rw [hheard, List.length_eq_zero_iff.mp (Nat.eq_zero_of_not_pos hnone), List.append_nil]
    exact ⟨parts, tail, haccounts⟩

end Counts

/-! ## One poll -/

/-- The exchange stays under way with its books in order, or its terminal is formed and
accounts for all that landed. -/
inductive Balances (bus : HostBus) (plan : Shape) (ring : Ring) (heard : List Byte)
    (told : List Told) (out : Seen × HostBus) : Prop
  | remains (formed : bus.formed out = none) (underway : out.2.Underway plan)
      (counts : Counts out.2 ring heard (told ++ out.1.told)) :
      Balances bus plan ring heard told out
  | ends {terminal : Terminal} (formed : bus.formed out = some terminal)
      (accounts : ∃ parts tail,
        Accounts heard (told ++ out.1.told) terminal.evidence parts tail) :
      Balances bus plan ring heard told out

namespace HostBus

variable {bus : HostBus} {plan : Shape} {ring : Ring} {heard : List Byte} {told : List Told}
  {inp : Inputs}

/-- What the walk preserves. -/
structure Walking (bus : HostBus) (plan : Shape) (ring : Ring) (heard : List Byte)
    (told : List Told) : Prop where
  state : bus.state = .awaiting
  underway : bus.Underway plan
  counts : Counts bus ring heard told

theorem Walking.junk (h : Walking bus plan ring heard told) {framer : Framer} {bytes : List Byte}
    {n : ℕ} (hcuts : Framer.Cuts bus.framer framer ring bytes) (hn : bytes.length = n) :
    Walking (({ bus with framer }.addGarble n).rearm inp) plan ring heard told where
  state := h.state
  underway := ⟨.inr (.inr h.state), h.underway.done, h.underway.wireDone, h.underway.plan⟩
  counts := h.counts.junk hcuts hn

theorem walking_awaitWalk (hring : inp.ring = ring.bytes) (hcursor : inp.cursor.toNat = ring.cursor)
    (expected : Option Byte) (fuel : ℕ) (h : Walking bus plan ring heard told) :
    (∃ bus', Walking bus' plan ring heard told ∧
      awaitWalk inp expected fuel bus = (none, bus')) ∨
      ∃ before frame framer, Walking before plan ring heard told ∧
        before.framer.step ring.bytes ring.cursor = (.frame frame, framer) ∧
        awaitWalk inp expected fuel bus =
          Prod.map some id ({ before with framer }.onStatus inp expected frame) := by
  have hwalk := awaitWalk_invariant inp
    (fun bus => Walking bus plan ring heard told)
    (fun bus n framer hbus hstep => by
      rw [hring, hcursor] at hstep
      obtain ⟨bytes, hn, hcuts⟩ := Framer.step_garble hbus.counts.inRing hstep
      exact hbus.junk hcuts hn)
    (fun bus frame framer hbus hstep => by
      rw [hring, hcursor] at hstep
      obtain ⟨hcuts, -, -⟩ := Framer.step_frame hbus.counts.inRing hstep
      refine hbus.junk hcuts ?_
      rw [length_wireFrame, FrameBytes.length_bytes])
    expected fuel h
  rwa [hring, hcursor] at hwalk

/-- A status is handed out, the last one awaited with the terminal behind it. -/
theorem balances_onStatus (hring : inp.ring = ring.bytes)
    (hcursor : inp.cursor.toNat = ring.cursor) (hdone : bus.pendingDone = none)
    {before : HostBus} {frame : Frame} {framer : Framer} (expected : Option Byte)
    (h : Walking before plan ring heard told)
    (hstep : before.framer.step ring.bytes ring.cursor = (.frame frame, framer)) :
    Balances bus plan ring heard told
      (polled (Prod.map some id ({ before with framer }.onStatus inp expected frame))) := by
  obtain ⟨hcuts, -, hview⟩ := Framer.step_frame h.counts.inRing hstep
  obtain ⟨hevent, hdelivers⟩ := onStatus_spec { before with framer } inp expected frame
  have hcounts : ∀ slot bus', bus'.framer = framer →
      bus'.evidence = { before.evidence with
        statuses := Security.saturatingSucc8 before.evidence.statuses
        garbleAfterLastFrame := false } →
      Counts bus' ring heard (told ++ [⟨slot, frame.id, frame.inst, frame.payload.bytes⟩]) :=
    fun slot bus' hframer hevidence => h.counts.status hcuts hframer hevidence
  generalize ({ before with framer } : HostBus).onStatus inp expected frame = out
    at hevent hdelivers
  obtain ⟨event, bus'⟩ := out
  obtain rfl : event = _ := hevent
  rw [hring, hview]
  have hformed : bus.formed (_, bus') = bus'.pendingDone := formed_of_pending hdone
    (status_ne_done (({ before with framer } : HostBus).counted.got - 1) frame.id frame.inst
      frame.payload)
  cases hdelivers with
  | completes hlast hterminal =>
      exact .ends (hformed.trans hterminal) ((hcounts _ _ rfl rfl).fold hring hcursor)
  | streams hmore =>
      refine .remains (hformed.trans h.underway.done) ?_ (hcounts _ _ rfl rfl)
      exact ⟨.inr (.inr h.state), h.underway.done, h.underway.wireDone, h.underway.plan⟩

theorem balances_pollAwait (hring : inp.ring = ring.bytes)
    (hcursor : inp.cursor.toNat = ring.cursor) (h : Walking bus plan ring heard told) :
    Balances bus plan ring heard told (polled (bus.pollAwait inp)) := by
  have hdone := h.underway.done
  have hnothing : ∀ last, ((Seen.nothing, last) : Seen × HostBus).1.told = [] := fun _ => rfl
  obtain ⟨bus', hwalk, hout⟩ | ⟨before, frame, framer, hwalk, hstep, hout⟩ :=
    walking_awaitWalk hring hcursor (expectedReplies plan.replies)
      (unresolved bus.framer.anchor inp.cursor.toNat inp.ring.length + 1) h
  · obtain ⟨-, last, hrests, hpolled⟩ | ⟨-, last, hpolled⟩ :=
      pollAwait_walked h.underway.plan hout hwalk.underway.done
    · rw [hpolled]
      have hlast := hrests.underway hwalk.underway
      refine .remains (formed_of_same (hlast.done.trans hdone.symm) nothing_ne_done) hlast ?_
      rw [hnothing, List.append_nil]
      exact hwalk.counts.congr hrests.framer hrests.evidence
    · rw [hpolled]
      refine .ends (formed_of_taken hdone last) ?_
      rw [show (Seen.event (.done _)).told = [] from rfl, List.append_nil]
      exact hwalk.counts.fold hring hcursor
  · have hpolled : polled (bus.pollAwait inp) =
        polled (Prod.map some id ({ before with framer }.onStatus inp
          (expectedReplies plan.replies) frame)) := by
      simp only [pollAwait, h.underway.plan, hout, Prod.map]
    rw [hpolled]
    exact balances_onStatus hring hcursor hdone _ hwalk hstep

end HostBus

/-! ## Every run -/

namespace Exchange

variable {ticksPerUs now : UInt32} {bus : HostBus} {ring : Ring} {id : Id} {inst : Inst}
  {payload : List Byte} {plan : Shape} {x : Exchange} {a : Arrival}

/-- The books of an exchange, and what they say when it is over. -/
structure Booked (x : Exchange) (plan : Shape) : Prop where
  going : x.closed = none → x.bus.Underway plan ∧ Counts x.bus x.ring x.heard x.told
  ended : ∀ terminal, x.closed = some terminal →
    ∃ parts tail, Accounts x.heard x.told terminal.evidence parts tail

theorem booked_start (hready : bus.ready = true)
    (hplan : Shape.derive id inst payload = .ok plan) :
    (start ticksPerUs now bus ring id inst payload).Booked plan where
  going := by
    intro _
    have hstarted := started_start ticksPerUs now ring hready hplan
    refine ⟨hstarted.underway, hstarted.inRing, [], [], [], ?_, ?_⟩
    · rw [hstarted.pending]
      rfl
    · rw [hstarted.evidence]
      exact .nil
  ended := fun terminal h => by cases h

theorem booked_of_balances {out : Seen × HostBus} {heard : List Byte} {told : List Told}
    (h : Balances bus plan ring heard told out) :
    Booked ⟨out.2, ring, heard, told ++ out.1.told, bus.formed out⟩ plan := by
  cases h with
  | remains hformed hunderway hcounts =>
      exact ⟨fun _ => ⟨hunderway, hcounts⟩, fun terminal hended => by
        rw [hformed] at hended
        cases hended⟩
  | ends hformed haccounts =>
      refine ⟨fun hgoing => ?_, fun terminal hended => ?_⟩
      · rw [hformed] at hgoing
        cases hgoing
      · obtain rfl := Option.some.inj (hformed.symm.trans hended)
        exact haccounts

theorem booked_step (htrain : plan.train = none) (hreplies : plan.replies ≠ .none)
    (h : x.Booked plan) (hlaps : x.Laps a) : (x.step ticksPerUs a).Booked plan := by
  rw [step]
  split
  · exact h
  · rename_i hclosed
    rw [Bool.not_eq_true, Option.isSome_eq_false_iff, Option.isNone_iff_eq_none] at hclosed
    obtain ⟨hunderway, hcounts⟩ := h.going hclosed
    have hlanded := hcounts.land (hlaps hclosed)
    apply booked_of_balances
    have hserves : HostBus.Serves x.bus (inputs ticksPerUs a.now (x.ring.land a.landed)) plan
      a.call (x.out ticksPerUs a) := HostBus.serves_call hunderway htrain hreplies a.call
    generalize x.out ticksPerUs a = out at hserves
    generalize a.call = call at hserves
    cases hserves with
    | waits htold hformed hunderway' hframer hevidence hturn =>
        refine .remains hformed hunderway' ?_
        rw [htold, List.append_nil]
        exact hlanded.congr hframer hevidence
    | walks hstate =>
        exact HostBus.balances_pollAwait rfl (toNat_cursor _) ⟨hstate, hunderway, hlanded⟩

theorem booked_run (hready : bus.ready = true)
    (hplan : Shape.derive id inst payload = .ok plan) (hreplies : plan.replies ≠ .none)
    {arrivals : List Arrival}
    (hlaps :
      Meets (step ticksPerUs) Laps (start ticksPerUs now bus ring id inst payload) arrivals) :
    (run (step ticksPerUs) (start ticksPerUs now bus ring id inst payload) arrivals).Booked plan :=
  Meets.invariant _ (fun x => x.Booked plan)
    (fun _ _ => booked_step (Shape.train_of_derive hplan hreplies) hreplies)
    (booked_start hready hplan) hlaps

/-- What a terminal says of its exchange. -/
structure Tallies (x : Exchange) (evidence : WireEvidence) : Prop where
  accounts : ∃ parts tail, Accounts x.heard x.told evidence parts tail
  bytes : evidence.garble.toNat < 65535 →
    evidence.garble.toNat + footprints x.told = x.heard.length
  silence : evidence.statuses = 0 → evidence.garble = 0 → x.heard = []

/-- The terminal of an exchange that awaits replies accounts for every byte that landed. -/
theorem garble_accounts_for_every_byte (hready : bus.ready = true)
    (hplan : Shape.derive id inst payload = .ok plan) (hreplies : plan.replies ≠ .none)
    {arrivals : List Arrival} {terminal : Terminal}
    (hlaps : Meets (step ticksPerUs) Laps (start ticksPerUs now bus ring id inst payload) arrivals)
    (hclosed : (run (step ticksPerUs) (start ticksPerUs now bus ring id inst payload)
      arrivals).closed = some terminal) :
    Tallies (run (step ticksPerUs) (start ticksPerUs now bus ring id inst payload) arrivals)
      terminal.evidence := by
  obtain ⟨parts, tail, haccounts⟩ :=
    (booked_run hready hplan hreplies hlaps).ended terminal hclosed
  exact ⟨⟨parts, tail, haccounts⟩, haccounts.bytes, haccounts.silence⟩

/-! ### A ping behind noise -/

section Bench

def benchStatus : Reply := ⟨⟨1⟩, ⟨0x80⟩, [], by decide, Reply.status_ok, by decide⟩

/-- A byte of noise, the status, and a byte behind it. -/
def benchPing : List Arrival :=
  [⟨0, [], .txComplete⟩, ⟨5, 0x55 :: benchStatus.frame ++ [0xAA], .poll⟩]

theorem garble_around_a_ping :
    Tallies (run (step 18) (start 18 0 (.new .b1000000 .empty) .bench ⟨1⟩ ⟨0x10⟩ []) benchPing)
      (Terminal.mk .complete 5 ⟨1, 2, true⟩).evidence :=
  garble_accounts_for_every_byte (by decide)
    (show Shape.derive ⟨1⟩ ⟨0x10⟩ [] = .ok ⟨.single, 9, none, false⟩ by decide) (by decide)
    (by decide +kernel) (by decide +kernel)

end Bench

/-! ### More statuses than the count can say -/

section Collect

/-- A collecting exchange that has handed out all that landed. -/
structure Collecting (x : Exchange) : Prop where
  closed : x.closed = none
  state : x.bus.state = .awaiting
  underway : ∃ plan, x.bus.Underway plan ∧ plan.replies = .collect
  inRing : x.bus.framer.anchor < x.ring.len
  pending : x.bus.framer.pending x.ring = []
  seen : x.bus.lastCursor = UInt16.ofNat x.ring.cursor

theorem laps_of_collecting (h : x.Collecting) (ha : a.landed.length < 512) : x.Laps a := by
  intro _
  have hring := x.ring.len_ge
  rw [h.pending, List.length_nil]
  omega

/-- An awaiting exchange walks the ring at a poll. -/
theorem out_poll (hgoing : x.bus.Underway plan) (hstate : x.bus.state = .awaiting) (now : UInt32)
    (landed : List Byte) :
    x.out ticksPerUs ⟨now, landed, .poll⟩ =
      HostBus.polled (x.bus.pollAwait (inputs ticksPerUs now (x.ring.land landed))) := by
  change HostBus.polled (x.bus.poll _) = _
  rw [HostBus.poll, hgoing.done, hgoing.wireDone, hstate]
  rfl

/-- One more status is collected. -/
theorem collecting_step (ticksPerUs : UInt32) (h : x.Collecting) (reply : Reply) (now : UInt32) :
    (x.step ticksPerUs ⟨now, reply.frame, .poll⟩).Collecting ∧
      (x.step ticksPerUs ⟨now, reply.frame, .poll⟩).told.length = x.told.length + 1 := by
  obtain ⟨plan, hunderway, hcollect⟩ := h.underway
  have hfits : reply.payload.length ≤ 252 := reply.fits
  have hshort : reply.frame.length < 512 := by
    rw [reply.length_frame]
    omega
  have hlaps := laps_of_collecting (a := ⟨now, reply.frame, .poll⟩) h hshort h.closed
  have hlanded : x.bus.framer.pending (x.ring.land reply.frame) = reply.frame ++ [] := by
    rw [Framer.pending_land h.inRing hlaps, h.pending, List.append_nil, List.nil_append]
  have hinRing : x.bus.framer.anchor < (x.ring.land reply.frame).len := by
    rw [Ring.len_land]
    exact h.inRing
  obtain ⟨framer, bus', view, hcuts, -, hdelivers, hpolled⟩ :=
    HostBus.polled_landed (@ring_inputs ticksPerUs now (x.ring.land reply.frame))
      (toNat_cursor _) hunderway.plan hinRing hlanded
  have hleft : framer.pending (x.ring.land reply.frame) = [] := by
    have hcut := hcuts.cut
    rw [hlanded] at hcut
    exact (List.append_cancel_left hcut).symm
  have hgoing : x.closed.isSome ≠ true := by rw [h.closed]; exact Bool.false_ne_true
  rw [step, if_neg hgoing, out_poll hunderway h.state, hpolled]
  rw [hcollect] at hdelivers
  cases hdelivers with
  | completes hlast => cases hlast
  | streams =>
      have hnone : x.bus.pendingDone = none := hunderway.done
      refine ⟨⟨?_, h.state, ⟨plan, ⟨?_, hnone, hunderway.wireDone, hunderway.plan⟩, hcollect⟩,
        hcuts.inRing, hleft, rfl⟩, ?_⟩
      · exact HostBus.formed_of_same rfl
          (HostBus.status_ne_done (x.bus.counted.got - 1) reply.id reply.inst view)
      · exact .inr (.inr h.state)
      · rw [List.length_append]
        rfl

theorem collecting_run (ticksPerUs : UInt32) (h : x.Collecting) (reply : Reply)
    (now : UInt32) (n : ℕ) :
    Meets (step ticksPerUs) Laps x (List.replicate n ⟨now, reply.frame, .poll⟩) ∧
      (run (step ticksPerUs) x (List.replicate n ⟨now, reply.frame, .poll⟩)).Collecting ∧
      (run (step ticksPerUs) x (List.replicate n ⟨now, reply.frame, .poll⟩)).told.length =
        x.told.length + n := by
  induction n generalizing x with
  | zero => exact ⟨trivial, h, rfl⟩
  | succ n ih =>
      have hfits : reply.payload.length ≤ 252 := reply.fits
      obtain ⟨hnext, hcount⟩ := collecting_step ticksPerUs h reply now
      obtain ⟨hlaps, hlast, htotal⟩ := ih hnext
      refine ⟨⟨laps_of_collecting h ?_, hlaps⟩, hlast, ?_⟩
      · dsimp only
        rw [reply.length_frame]
        omega
      · simp only [List.replicate_succ, run_cons]
        rw [htotal, hcount]
        omega

/-- A collecting exchange that hears nothing more is over when its window is. -/
theorem collecting_ends (ticksPerUs : UInt32) (h : x.Collecting) :
    ∃ quiet terminal, x.Laps quiet ∧ (x.step ticksPerUs quiet).closed = some terminal ∧
      (x.step ticksPerUs quiet).told = x.told := by
  refine ⟨⟨x.bus.deadlineAt, [], .poll⟩, ?_⟩
  obtain ⟨plan, hunderway, -⟩ := h.underway
  have hgoing : x.closed.isSome ≠ true := by rw [h.closed]; exact Bool.false_ne_true
  have hwalk := HostBus.awaitWalk_nothing (@ring_inputs ticksPerUs x.bus.deadlineAt x.ring)
    (toNat_cursor _) h.pending (HostBus.expectedReplies plan.replies)
  have hdue : tickReached x.bus.deadlineAt x.bus.deadlineAt = true := by
    rw [tickReached, sub_self]
    rfl
  rw [step, if_neg hgoing, out_poll hunderway h.state, Ring.land_nil]
  obtain ⟨hearly | hearly, -⟩ | ⟨-, last, hpolled⟩ :=
    HostBus.pollAwait_walked hunderway.plan (hwalk _) hunderway.done
  · exact absurd h.seen.symm hearly
  · exact absurd hdue (hearly.symm ▸ Bool.false_ne_true)
  · rw [hpolled]
    exact ⟨_, laps_of_collecting h (Nat.zero_lt_succ _),
      HostBus.formed_of_taken hunderway.done last, List.append_nil _⟩

/-- Any number of statuses can be collected. -/
theorem exists_collected (ticksPerUs : UInt32) (h : x.Collecting) (reply : Reply) (n : ℕ) :
    ∃ arrivals terminal, Meets (step ticksPerUs) Laps x arrivals ∧
      (run (step ticksPerUs) x arrivals).closed = some terminal ∧
      (run (step ticksPerUs) x arrivals).told.length = x.told.length + n := by
  obtain ⟨hlaps, hlast, hcount⟩ := collecting_run ticksPerUs h reply 0 n
  obtain ⟨quiet, terminal, hquiet, hclosed, htold⟩ :=
    collecting_ends ticksPerUs hlast
  refine ⟨_ ++ [quiet], terminal, (Meets.append _).mpr ⟨hlaps, hquiet, trivial⟩, ?_, ?_⟩
  · rw [run_append]
    exact hclosed
  · rw [run_append, ← hcount]
    exact congrArg List.length htold

/-- An ENUM, its transmission over. -/
def benchEnum : Exchange :=
  (start 18 0 (.new .b1000000 .empty) .bench ⟨0xFE⟩ ⟨0x70⟩ [1, 0]).step 18 ⟨0, [], .txComplete⟩

theorem collecting_benchEnum : benchEnum.Collecting where
  closed := by decide +kernel
  state := by decide +kernel
  underway := ⟨⟨.collect, 22, none, false⟩, ⟨by decide +kernel, by decide +kernel,
    by decide +kernel, by decide +kernel⟩, rfl⟩
  inRing := by decide +kernel
  pending := by decide +kernel
  seen := by decide +kernel

/-- With 256 statuses handed out the terminal says 255. -/
theorem statuses_saturate :
    ¬ ∀ (ticksPerUs now : UInt32) (bus : HostBus) (ring : Ring) (id : Id) (inst : Inst)
      (payload : List Byte) (plan : Shape) (arrivals : List Arrival) (terminal : Terminal),
      bus.ready = true → Shape.derive id inst payload = .ok plan → plan.replies ≠ .none →
      Meets (step ticksPerUs) Laps (start ticksPerUs now bus ring id inst payload) arrivals →
      (run (step ticksPerUs) (start ticksPerUs now bus ring id inst payload) arrivals).closed =
        some terminal →
      terminal.evidence.statuses.toNat =
        (run (step ticksPerUs) (start ticksPerUs now bus ring id inst payload)
          arrivals).told.length := by
  intro hclaim
  obtain ⟨arrivals, terminal, hlaps, hclosed, hcount⟩ :=
    exists_collected 18 collecting_benchEnum benchStatus 256
  have hcap := terminal.evidence.statuses.toNat_lt
  have hsaid := hclaim 18 0 (.new .b1000000 .empty) .bench ⟨0xFE⟩ ⟨0x70⟩ [1, 0]
    ⟨.collect, 22, none, false⟩ (⟨0, [], .txComplete⟩ :: arrivals) terminal
    (by decide) (by decide) (by decide) ⟨by decide +kernel, hlaps⟩ hclosed
  have hnone : benchEnum.told.length = 0 := by decide +kernel
  have htotal : terminal.evidence.statuses.toNat = benchEnum.told.length + 256 :=
    hsaid.trans hcount
  omega

end Collect

end Exchange

end OpenServo.Host
