import OpenServo.Host.Exchange
import OpenServo.Host.Recovery

/-!
# A reply behind junk

When the wire falls silent the ring may hold junk with a whole status behind it.  A false
header in the junk that promises more bytes than there are parks the walker, and the
expiring window closes the exchange over the parked bytes and all that is behind them.  The
status is handed out exactly when the walk comes to stand at its first byte.
-/

namespace OpenServo.Host

open Hunt

/-! ## Polls of a silent wire -/

/-- What each poll of a run yields, with the engine after it. -/
def polls : HostBus → List Inputs → List (Seen × HostBus)
  | _, [] => []
  | bus, inp :: run =>
      HostBus.polled (bus.poll inp) :: polls (HostBus.polled (bus.poll inp)).2 run

/-- A poll hands out the status at `pos`: its fields are told, and the walker is behind it. -/
structure HandsOut (ring : List Byte) (pos size : ℕ) (out : Seen × HostBus) : Prop where
  told : ∃ slot, out.1.told = [⟨slot, ⟨Framer.byteAt ring (pos + 1)⟩,
    ⟨Framer.byteAt ring (pos + 3)⟩, reading ring (pos + 4) (size - 6)⟩]
  behind : out.2.framer.anchor = (pos + size) % ring.length

/-- However the silent wire is polled from this moment on, the terminal never comes before
the status at `pos`. -/
def InTime (bus : HostBus) (inp : Inputs) (pos size : ℕ) : Prop :=
  ∀ run : List Inputs, (∀ later ∈ run, later.ring = inp.ring ∧ later.cursor = inp.cursor) →
    ∀ before out after terminal, polls bus (inp :: run) = before ++ out :: after →
      out.1 = .event (.done terminal) → ∃ earlier ∈ before, HandsOut inp.ring pos size earlier

/-- A reply is awaited, and `junk` unconsumed bytes with no status among them have a whole
clean status behind them. -/
structure Owed (bus : HostBus) (inp : Inputs) (plan : Shape) (junk size : ℕ) : Prop where
  awaiting : bus.state = .awaiting
  underway : bus.Underway plan
  anchor : bus.framer.anchor < inp.ring.length
  cursor : inp.cursor.toNat < inp.ring.length
  ringed : junk + size ≤ unresolved bus.framer.anchor inp.cursor.toNat inp.ring.length
  clean : CleanAt inp.ring (bus.framer.anchor + junk) size
  status : (Inst.mk (Framer.byteAt inp.ring (bus.framer.anchor + junk + 3))).isStatus = true
  clear : ∀ pos n, pos + n ≤ junk → CleanAt inp.ring (bus.framer.anchor + pos) n →
    (Inst.mk (Framer.byteAt inp.ring (bus.framer.anchor + pos + 3))).isStatus = false

/-! ## One poll -/

section

variable {bus : HostBus} {inp : Inputs} {plan : Shape} {ring : List Byte} {cursor base o : ℕ}
  {stream : List Byte}

/-- The walk stands `o` bytes into the stream, and a reply is awaited. -/
structure Stands (bus : HostBus) (plan : Shape) (ring : List Byte) (cursor base : ℕ)
    (stream : List Byte) (o : ℕ) : Prop where
  awaiting : bus.state = .awaiting
  underway : bus.Underway plan
  anchor : bus.framer.anchor = (base + o) % ring.length
  left : unread bus.framer ring cursor = stream.drop o
  reached : Reaches (frameJudge ring.length) o stream

namespace Stands

theorem start (hawaiting : bus.state = .awaiting) (hunderway : bus.Underway plan)
    (hanchor : bus.framer.anchor < ring.length) :
    Stands bus plan ring cursor bus.framer.anchor (unread bus.framer ring cursor) 0 where
  awaiting := hawaiting
  underway := hunderway
  anchor := by rw [Nat.add_zero, Nat.mod_eq_of_lt hanchor]
  left := rfl
  reached := .here _

theorem inRing (h : Stands bus plan ring cursor base stream o) (hring : 0 < ring.length) :
    bus.framer.anchor < ring.length := by
  rw [h.anchor]
  exact Nat.mod_lt _ hring

/-- The walk goes on by one token. -/
theorem advance {bus' : HostBus} {token : Token} (h : Stands bus plan ring cursor base stream o)
    (hcursor : cursor < ring.length)
    (hnext : next (frameJudge ring.length) (unread bus.framer ring cursor) = some token)
    (hframer : bus'.framer = ⟨(bus.framer.anchor + token.size) % ring.length⟩)
    (hawaiting : bus'.state = .awaiting) (hunderway : bus'.Underway plan) :
    Stands bus' plan ring cursor base stream (o + token.size) := by
  have hsize := (next_size hnext).2
  constructor
  case awaiting => exact hawaiting
  case underway => exact hunderway
  case anchor => rw [hframer, h.anchor, Nat.mod_add_mod, Nat.add_assoc]
  case left =>
    rw [hframer, unread_advance (h.inRing (Nat.zero_lt_of_lt hcursor)) hcursor hsize, h.left,
      List.drop_drop]
  case reached =>
    rw [h.left] at hnext
    exact h.reached.snoc hnext

/-- Where the walk stands says what the walker answers. -/
theorem answers (h : Stands bus plan ring cursor base stream o) (hring : 0 < ring.length) :
    Answers bus.framer ring (next (frameJudge ring.length) (unread bus.framer ring cursor))
      (bus.framer.step ring cursor) :=
  step_answers (h.inRing hring)

theorem garble {framer : Framer} {n : ℕ} (h : Stands bus plan ring cursor base stream o)
    (hcursor : cursor < ring.length)
    (hstep : bus.framer.step ring cursor = (.garble n, framer)) :
    0 < n ∧ Stands (({ bus with framer }.addGarble n).rearm inp) plan ring cursor base stream
      (o + n) := by
  have hanswers := h.answers (Nat.zero_lt_of_lt hcursor)
  rw [hstep] at hanswers
  generalize hnext : next (frameJudge ring.length) (unread bus.framer ring cursor) = found
    at hanswers
  cases hanswers with
  | stops hverdict => obtain hverdict | hverdict := hverdict <;> cases hverdict
  | skips =>
      exact ⟨(next_size hnext).1, h.advance hcursor hnext rfl h.awaiting
        ⟨.inr (.inr h.awaiting), h.underway.done, h.underway.wireDone, h.underway.plan⟩⟩

/-- A frame the walker takes was read where the walk stands. -/
theorem takes {frame : Frame} {framer : Framer} (h : Stands bus plan ring cursor base stream o)
    (hcursor : cursor < ring.length)
    (hstep : bus.framer.step ring cursor = (.frame frame, framer)) :
    ReadAt ring (base + o) frame ∧ framer.anchor = (base + (o + frame.size)) % ring.length ∧
      ∀ bus' : HostBus, bus'.framer = framer → bus'.state = .awaiting → bus'.Underway plan →
        Stands bus' plan ring cursor base stream (o + frame.size) := by
  have hanswers := h.answers (Nat.zero_lt_of_lt hcursor)
  rw [hstep] at hanswers
  generalize hnext : next (frameJudge ring.length) (unread bus.framer ring cursor) = found
    at hanswers
  cases hanswers with
  | stops hverdict => obtain hverdict | hverdict := hverdict <;> cases hverdict
  | takes hclean hid hinst hpayload =>
      obtain ⟨rfl, hread⟩ := readAt_of_takes hclean hid hinst hpayload
      rw [h.anchor] at hread
      refine ⟨hread.of_mod, ?_, fun bus' hframer hawaiting hunderway =>
        h.advance hcursor hnext hframer hawaiting hunderway⟩
      rw [h.anchor, Nat.mod_add_mod, Nat.add_assoc]

end Stands

theorem payloadPos_of_step {framer framer' : Framer} {frame : Frame}
    (hstep : framer.step ring cursor = (.frame frame, framer')) :
    frame.payloadPos = (framer.anchor + 4) % ring.length := by
  simp only [Framer.step, Framer.hunt] at hstep
  split_ifs at hstep <;> cases hstep
  rfl

/-- The view a status is handed out with shows what the walker read. -/
theorem bytes_view {framer framer' : Framer} {frame : Frame} {pos : ℕ}
    (hstep : framer.step ring cursor = (.frame frame, framer'))
    (hanchor : framer.anchor = pos % ring.length) (hread : ReadAt ring pos frame) :
    (payloadView ring frame.payloadPos frame.payload.len).bytes =
      reading ring (pos + 4) (frame.size - 6) := by
  have hfits := hread.clean.fits
  rw [Frame.size] at hfits
  have hpos : frame.payloadPos < ring.length := by
    rw [payloadPos_of_step hstep]
    exact Nat.mod_lt _ (by omega)
  rw [bytes_payloadView_reading hpos (by omega), payloadPos_of_step hstep, hanchor, Nat.mod_add_mod,
    reading_mod]
  rfl

theorem framer_onStatus (bus : HostBus) (inp : Inputs) (expected : Option Byte) (frame : Frame) :
    (bus.onStatus inp expected frame).2.framer = bus.framer := by
  obtain ⟨evidence, hfold⟩ := @HostBus.foldUnresolved_eq bus.counted.halted inp
  rw [HostBus.onStatus_eq]
  dsimp only
  rw [hfold]
  split
  · split <;> rfl
  · rfl

theorem lastCursor_expire (bus : HostBus) (inp : Inputs) (replies : Replies) :
    (bus.expire inp replies).lastCursor = bus.lastCursor := by
  obtain ⟨evidence, hfold⟩ := @HostBus.foldUnresolved_eq (bus.emit .cancel) inp
  simp only [HostBus.expire, hfold, HostBus.finish]
  split <;> rfl

theorem lastCursor_pollAwait {bus' : HostBus} (hplan : bus.plan = some plan)
    (hwalk : HostBus.awaitWalk inp (HostBus.expectedReplies plan.replies)
      (unresolved bus.framer.anchor inp.cursor.toNat inp.ring.length + 1) bus = (none, bus')) :
    (bus.pollAwait inp).2.lastCursor = inp.cursor := by
  simp only [HostBus.pollAwait, hplan, hwalk]
  split
  · rfl
  · split
    · exact lastCursor_expire _ inp plan.replies
    · rfl

/-- What a poll of a silent wire comes to, the walk standing `o` bytes in. -/
inductive Turn (bus : HostBus) (inp : Inputs) (plan : Shape) (base : ℕ) (stream : List Byte)
    (o : ℕ) : Seen × HostBus → Prop
  | closes {out : Seen × HostBus} {terminal : Terminal} (done : out.1 = .event (.done terminal)) :
      Turn bus inp plan base stream o out
  | rests {bus' : HostBus} {q : ℕ} (le : o ≤ q)
      (stands : Stands bus' plan inp.ring inp.cursor.toNat base stream q)
      (cursor : bus'.lastCursor = inp.cursor)
      (waits : q = o → inp.cursor = bus.lastCursor → tickReached inp.now bus.deadlineAt = false) :
      Turn bus inp plan base stream o (.nothing, bus')
  | tells {bus' : HostBus} {q : ℕ} {frame : Frame} {slot : Byte} {view : FrameBytes}
      (le : o ≤ q) (reached : Reaches (frameJudge inp.ring.length) q stream)
      (read : ReadAt inp.ring (base + q) frame)
      (shown : view.bytes = reading inp.ring (base + q + 4) (frame.size - 6))
      (behind : bus'.framer.anchor = (base + (q + frame.size)) % inp.ring.length)
      (within : q + frame.size ≤ stream.length)
      (after : bus'.pendingDone.isSome = true ∨
        Stands bus' plan inp.ring inp.cursor.toNat base stream (q + frame.size) ∧
          bus'.lastCursor = inp.cursor) :
      Turn bus inp plan base stream o (.event (.status slot frame.id frame.inst view), bus')

theorem poll_awaiting (h : bus.Underway plan) (hawaiting : bus.state = .awaiting) :
    bus.poll inp = bus.pollAwait inp := by
  rw [HostBus.poll, if_neg (by rw [h.done]; exact Bool.false_ne_true),
    if_neg (by rw [h.wireDone]; exact Bool.false_ne_true), if_pos hawaiting]

theorem turn_poll (hcursor : inp.cursor.toNat < inp.ring.length)
    (h : Stands bus plan inp.ring inp.cursor.toNat base stream o) :
    Turn bus inp plan base stream o (HostBus.polled (bus.poll inp)) := by
  rw [poll_awaiting h.underway h.awaiting]
  obtain ⟨bus', ⟨q, hle, hstands, hsame⟩, hwalk⟩ | ⟨before, frame, framer, ⟨q, hle, hstands, -⟩,
      hstep, hwalk⟩ :=
    HostBus.awaitWalk_invariant inp
      (fun b => ∃ q, o ≤ q ∧ Stands b plan inp.ring inp.cursor.toNat base stream q ∧
        (q = o → b = bus))
      (fun b n framer hb hstep => by
        obtain ⟨q, hle, hstands, -⟩ := hb
        obtain ⟨hpos, hnow⟩ := hstands.garble hcursor hstep
        exact ⟨q + n, by omega, hnow, fun heq => by omega⟩)
      (fun b frame framer hb hstep => by
        obtain ⟨q, hle, hstands, -⟩ := hb
        obtain ⟨-, -, hnow⟩ := hstands.takes hcursor hstep
        refine ⟨q + frame.size, by omega, hnow _ rfl hstands.awaiting ?_, fun heq => ?_⟩
        · exact ⟨.inr (.inr hstands.awaiting), hstands.underway.done, hstands.underway.wireDone,
            hstands.underway.plan⟩
        · rw [Frame.size] at heq
          omega)
      (HostBus.expectedReplies plan.replies)
      (unresolved bus.framer.anchor inp.cursor.toNat inp.ring.length + 1)
      ⟨o, le_rfl, h, fun _ => rfl⟩
  · obtain ⟨hwaits, last, hrests, hpolled⟩ | ⟨-, last, hpolled⟩ :=
      HostBus.pollAwait_walked h.underway.plan hwalk hstands.underway.done
    · have hlast := congrArg (fun out => out.2.lastCursor) hpolled
      have hcut : last.lastCursor = inp.cursor :=
        hlast.symm.trans (lastCursor_pollAwait h.underway.plan hwalk)
      rw [hpolled]
      refine .rests hle ?_ hcut fun hto hcur => ?_
      · exact ⟨hrests.state.trans hstands.awaiting, hrests.underway hstands.underway,
          by rw [hrests.framer]; exact hstands.anchor, by rw [hrests.framer]; exact hstands.left,
          hstands.reached⟩
      · rw [hsame hto] at hwaits
        exact hwaits.resolve_left (not_not.mpr hcur)
    · rw [hpolled]
      exact .closes rfl
  · obtain ⟨hread, hbehind, hnow⟩ := hstands.takes hcursor hstep
    have hview := bytes_view hstep hstands.anchor hread
    have hframer := framer_onStatus { before with framer } inp
      (HostBus.expectedReplies plan.replies) frame
    obtain ⟨hevent, hdelivers⟩ := HostBus.onStatus_spec { before with framer } inp
      (HostBus.expectedReplies plan.replies) frame
    have hpolled : HostBus.polled (bus.pollAwait inp) =
        HostBus.polled (Prod.map some id ({ before with framer }.onStatus inp
          (HostBus.expectedReplies plan.replies) frame)) := by
      simp only [HostBus.pollAwait, h.underway.plan, hwalk, Prod.map]
    rw [hpolled]
    generalize ({ before with framer } : HostBus).onStatus inp
      (HostBus.expectedReplies plan.replies) frame = out at hevent hdelivers hframer
    obtain ⟨event, bus'⟩ := out
    obtain rfl : event = _ := hevent
    have hsame : bus'.framer = framer := hframer
    have hunderway : ({ before with framer } : HostBus).Underway plan :=
      ⟨.inr (.inr hstands.awaiting), hstands.underway.done, hstands.underway.wireDone,
        hstands.underway.plan⟩
    have hwithin := (hnow { before with framer } rfl hstands.awaiting hunderway).reached.le
    refine .tells hle hstands.reached hread hview (hsame ▸ hbehind) hwithin ?_
    cases hdelivers with
    | completes hlast hterminal => exact .inl (congrArg Option.isSome hterminal)
    | streams hmore =>
        refine .inr ⟨hnow _ rfl hstands.awaiting ?_, rfl⟩
        exact ⟨.inr (.inr hstands.awaiting), hstands.underway.done, hstands.underway.wireDone,
          hstands.underway.plan⟩

/-! ## A run that ends -/

theorem CleanAt.size_le {pos size : ℕ} (h : CleanAt ring pos size) : 6 ≤ size := by
  have hlow := UInt8.le_iff_toNat_le.mp h.len
  have hsized := h.sized
  rw [footprint] at hsized
  simp only [UInt8.reduceToNat] at hlow
  omega

/-- Two places of one lap are the same place of the ring only if they are the same. -/
theorem eq_of_add_mod {len m n : ℕ} (hsame : (base + m) % len = (base + n) % len) (hm : m < len)
    (hn : n < len) : m = n := by
  have hcongr : base + m ≡ base + n [MOD len] := hsame
  have hback := Nat.ModEq.add_left_cancel' base hcongr
  rwa [Nat.ModEq, Nat.mod_eq_of_lt hm, Nat.mod_eq_of_lt hn] at hback

/-- Nothing but a status of the walk hands one out: the walk stood at its first byte. -/
theorem Turn.reaches_of_handsOut {out : Seen × HostBus} {junk size : ℕ}
    (hturn : Turn bus inp plan base stream o out) (hlap : stream.length < inp.ring.length)
    (hclean : CleanAt inp.ring (base + junk) size) (hringed : junk + size ≤ stream.length)
    (hout : HandsOut inp.ring (base + junk) size out) :
    Reaches (frameJudge inp.ring.length) junk stream := by
  obtain ⟨⟨slot, htold⟩, hbehind⟩ := hout
  cases hturn with
  | closes hdone =>
      rw [hdone] at htold
      cases htold
  | rests => cases htold
  | @tells bus' q frame slot' view hle hreached hread hshown hanchor hwithin hafter =>
      have htold := (List.cons.inj htold).1
      have hlen := congrArg (fun told => told.payload.length) htold
      dsimp only at hlen hbehind
      rw [hshown, length_reading, length_reading] at hlen
      have hsize : frame.size = size := by
        have hlow := hclean.size_le
        rw [Frame.size] at hlen ⊢
        omega
      rw [hsize] at hwithin hanchor
      rw [hanchor, Nat.add_assoc base junk] at hbehind
      have hplace := eq_of_add_mod hbehind (by omega) (by omega)
      rwa [← Nat.add_right_cancel hplace]

/-- A poll of a run from here on, whatever its moment. -/
def Turned (inp : Inputs) (plan : Shape) (base : ℕ) (stream : List Byte) (out : Seen × HostBus) :
    Prop :=
  ∃ bus later o, later.ring = inp.ring ∧ later.cursor = inp.cursor ∧
    Turn bus later plan base stream o out

/-- Polls that end with the terminal. -/
def Ends (inp : Inputs) (plan : Shape) (base : ℕ) (stream : List Byte)
    (outs : List (Seen × HostBus)) : Prop :=
  ∃ before out terminal, outs = before ++ [out] ∧ out.1 = .event (.done terminal) ∧
    ∀ earlier ∈ before, Turned inp plan base stream earlier

theorem Ends.cons {out : Seen × HostBus} {outs : List (Seen × HostBus)}
    (hends : Ends inp plan base stream outs) (hout : Turned inp plan base stream out) :
    Ends inp plan base stream (out :: outs) := by
  obtain ⟨before, last, terminal, rfl, hdone, hbefore⟩ := hends
  exact ⟨out :: before, last, terminal, rfl, hdone, List.forall_mem_cons.mpr ⟨hout, hbefore⟩⟩

theorem ends_of_pending (hpending : bus.pendingDone.isSome = true) (later : Inputs) :
    Ends inp plan base stream (polls bus [later]) := by
  obtain ⟨terminal, hterminal⟩ := Option.isSome_iff_exists.mp hpending
  refine ⟨[], _, terminal, rfl, ?_, List.forall_mem_nil _⟩
  rw [HostBus.poll, if_pos hpending, HostBus.take_terminal hterminal]

/-- Behind a turn a run ends if every way on does. -/
theorem Turn.ends_after {later : Inputs} {out : Seen × HostBus}
    (hturn : Turn bus later plan base stream o out) (hring : later.ring = inp.ring)
    (hcur : later.cursor = inp.cursor)
    (hon : ∀ bus' q, o ≤ q →
      (q = o → inp.cursor = bus.lastCursor → tickReached later.now bus.deadlineAt = false) →
      Stands bus' plan inp.ring inp.cursor.toNat base stream q → bus'.lastCursor = inp.cursor →
        ∃ run : List Inputs, (∀ later ∈ run, later.ring = inp.ring ∧ later.cursor = inp.cursor) ∧
          Ends inp plan base stream (polls bus' run)) :
    ∃ run : List Inputs, (∀ later ∈ run, later.ring = inp.ring ∧ later.cursor = inp.cursor) ∧
      Ends inp plan base stream (out :: polls out.2 run) := by
  have hturned : Turned inp plan base stream out := ⟨bus, later, o, hring, hcur, hturn⟩
  cases hturn with
  | closes hdone => exact ⟨[], List.forall_mem_nil _, [], _, _, rfl, hdone, List.forall_mem_nil _⟩
  | @rests bus' q hle hstands hcut hwaits =>
      rw [hring, hcur] at hstands
      rw [hcur] at hcut hwaits
      obtain ⟨run, hrun, hends⟩ := hon bus' q hle hwaits hstands hcut
      exact ⟨run, hrun, hends.cons hturned⟩
  | @tells bus' q frame slot view hle hreached hread hshown hanchor hwithin hafter =>
      obtain hpending | ⟨hstands, hcut⟩ := hafter
      · exact ⟨[inp], List.forall_mem_singleton.mpr ⟨rfl, rfl⟩,
          (ends_of_pending hpending inp).cons hturned⟩
      · rw [hring, hcur] at hstands
        rw [hcur] at hcut
        have hpos : 0 < frame.size := Nat.succ_pos _
        obtain ⟨run, hrun, hends⟩ := hon bus' (q + frame.size) (by omega)
          (fun hsame => by omega) hstands hcut
        exact ⟨run, hrun, hends.cons hturned⟩

/-- Polled at its deadlines, a silent wire brings the terminal. -/
theorem exists_ends (hcursor : inp.cursor.toNat < inp.ring.length)
    (h : Stands bus plan inp.ring inp.cursor.toNat base stream o)
    (hlast : bus.lastCursor = inp.cursor) :
    ∃ run : List Inputs, (∀ later ∈ run, later.ring = inp.ring ∧ later.cursor = inp.cursor) ∧
      Ends inp plan base stream (polls bus run) := by
  induction hn : stream.length - o using Nat.strong_induction_on generalizing bus o with
  | _ n ih =>
      have hturn := @turn_poll bus { inp with now := bus.deadlineAt } plan base o stream hcursor h
      obtain ⟨run, hrun, hends⟩ := hturn.ends_after rfl rfl fun bus' q hle hwaits hstands hcut => by
        have hmoved : q ≠ o := fun hq => by
          have hlate := hwaits hq hlast.symm
          simp [tickReached] at hlate
        have hbound := hstands.reached.le
        exact ih _ (by omega) hstands hcut rfl
      exact ⟨{ inp with now := bus.deadlineAt } :: run,
        List.forall_mem_cons.mpr ⟨⟨rfl, rfl⟩, hrun⟩, hends⟩

/-! ## A walk that gets there -/

/-- The walk stands at a whole clean frame: the walker takes it. -/
theorem Stands.step_clean {junk size : ℕ} (h : Stands bus plan ring cursor base stream junk)
    (hring : 0 < ring.length) (hclean : CleanAt ring (base + junk) size)
    (hringed : junk + size ≤ stream.length) :
    ∃ frame framer, bus.framer.step ring cursor = (.frame frame, framer) := by
  have hanswers := h.answers hring
  have hlen := congrArg List.length h.left
  rw [unread, length_reading, List.length_drop] at hlen
  have hitem : next (frameJudge ring.length) (unread bus.framer ring cursor) =
      some (.item size) := by
    rw [unread, h.anchor, reading_mod]
    exact (item_iff_cleanAt (by rw [← h.anchor]; omega)).mpr hclean
  rw [hitem] at hanswers
  generalize bus.framer.step ring cursor = answer at hanswers
  cases hanswers with
  | takes => exact ⟨_, _, rfl⟩

theorem awaitWalk_reaches {junk size fuel : ℕ} (expected : Option Byte)
    (hcursor : inp.cursor.toNat < inp.ring.length)
    (h : Stands bus plan inp.ring inp.cursor.toNat base stream o) (hle : o ≤ junk)
    (hreaches : Reaches (frameJudge inp.ring.length) (junk - o) (stream.drop o))
    (hclean : CleanAt inp.ring (base + junk) size) (hringed : junk + size ≤ stream.length)
    (hstatus : (Inst.mk (Framer.byteAt inp.ring (base + junk + 3))).isStatus = true)
    (hclear : ∀ pos n, pos + n ≤ junk → CleanAt inp.ring (base + pos) n →
      (Inst.mk (Framer.byteAt inp.ring (base + pos + 3))).isStatus = false)
    (hfuel : junk - o < fuel) :
    ∃ before frame framer, Stands before plan inp.ring inp.cursor.toNat base stream junk ∧
      before.framer.step inp.ring inp.cursor.toNat = (.frame frame, framer) ∧
      HostBus.awaitWalk inp expected fuel bus =
        Prod.map some id ({ before with framer }.onStatus inp expected frame) := by
  have hring := Nat.zero_lt_of_lt hcursor
  induction fuel generalizing bus o with
  | zero => exact absurd hfuel (Nat.not_lt_zero _)
  | succ fuel ih =>
      rw [HostBus.awaitWalk]
      by_cases hthere : o = junk
      · subst hthere
        obtain ⟨frame, framer, hstep⟩ := h.step_clean hring hclean hringed
        refine ⟨bus, frame, framer, h, hstep, ?_⟩
        have hinst := (h.takes hcursor hstep).1.inst
        rw [hstep]
        dsimp only
        rw [hinst, hstatus, if_pos rfl]
        rfl
      · obtain ⟨token, hnext, hsize, hrest⟩ := hreaches.token_of_pos (by omega)
        have hanswers := h.answers hring
        have hfewer := (next_size hnext).1
        rw [h.left, hnext] at hanswers
        have hgo : Reaches (frameJudge inp.ring.length) (junk - (o + token.size))
            (stream.drop (o + token.size)) := by
          rwa [List.drop_drop, Nat.sub_sub] at hrest
        rcases hstep : bus.framer.step inp.ring inp.cursor.toNat with ⟨verdict, framer⟩
        rw [hstep] at hanswers
        cases hanswers with
        | skips n =>
            exact ih (h.garble hcursor hstep).2 (by dsimp only [Token.size] at hsize; omega) hgo
              (by dsimp only [Token.size] at *; omega)
        | @takes n frame hitem hid hinst hpayload =>
            -- a frame inside the junk is a rogue talker's
            obtain ⟨hread, -, hnow⟩ := h.takes hcursor hstep
            obtain ⟨rfl, -⟩ := readAt_of_takes hitem hid hinst hpayload
            dsimp only [Token.size] at hsize hfewer hgo
            have hrogue := hclear o frame.size (by omega) hread.clean
            rw [← hread.inst] at hrogue
            dsimp only
            rw [hrogue, if_neg Bool.false_ne_true]
            exact ih (hnow _ rfl h.awaiting ⟨.inr (.inr h.awaiting), h.underway.done,
              h.underway.wireDone, h.underway.plan⟩) (by omega) hgo (by omega)

/-- A walk that gets to the status hands it out. -/
theorem handsOut_of_reaches {junk size : ℕ} (h : Owed bus inp plan junk size)
    (hreaches : Reaches (frameJudge inp.ring.length) junk
      (unread bus.framer inp.ring inp.cursor.toNat)) :
    HandsOut inp.ring (bus.framer.anchor + junk) size (HostBus.polled (bus.poll inp)) := by
  have hlen : (unread bus.framer inp.ring inp.cursor.toNat).length =
      unresolved bus.framer.anchor inp.cursor.toNat inp.ring.length := length_reading _ _ _
  have hringed := h.ringed
  have hstart : Stands bus plan inp.ring inp.cursor.toNat bus.framer.anchor
      (unread bus.framer inp.ring inp.cursor.toNat) 0 := .start h.awaiting h.underway h.anchor
  obtain ⟨before, frame, framer, hstands, hstep, hwalk⟩ := awaitWalk_reaches
    (HostBus.expectedReplies plan.replies) h.cursor hstart (Nat.zero_le junk) hreaches h.clean
    (by omega) h.status h.clear
    (show junk - 0 < unresolved bus.framer.anchor inp.cursor.toNat inp.ring.length + 1 by omega)
  obtain ⟨hread, hbehind, -⟩ := hstands.takes h.cursor hstep
  have hview := bytes_view hstep hstands.anchor hread
  have hframer := framer_onStatus { before with framer } inp
    (HostBus.expectedReplies plan.replies) frame
  obtain ⟨hevent, -⟩ := HostBus.onStatus_spec { before with framer } inp
    (HostBus.expectedReplies plan.replies) frame
  have hsize : frame.size = size := hread.clean.sized.trans h.clean.sized.symm
  have hpolled : HostBus.polled (bus.poll inp) =
      HostBus.polled (Prod.map some id ({ before with framer }.onStatus inp
        (HostBus.expectedReplies plan.replies) frame)) := by
    rw [poll_awaiting h.underway h.awaiting]
    simp only [HostBus.pollAwait, h.underway.plan, hwalk, Prod.map]
  rw [hsize] at hview hbehind
  rw [hpolled]
  constructor
  case told =>
    refine ⟨({ before with framer } : HostBus).counted.got - 1, ?_⟩
    rw [HostBus.polled, Prod.map, hevent, ← hread.id, ← hread.inst, ← hview]
    rfl
  case behind =>
    rw [HostBus.polled, Prod.map]
    dsimp only [id]
    rw [hframer, hbehind, Nat.add_assoc]

end

/-! ## Junk that parks the walker -/

section

variable {bus : HostBus} {inp : Inputs} {plan : Shape} {junk size : ℕ}

theorem inTime_of_reaches (h : Owed bus inp plan junk size)
    (hreaches : Reaches (frameJudge inp.ring.length) junk
      (unread bus.framer inp.ring inp.cursor.toNat)) :
    InTime bus inp (bus.framer.anchor + junk) size := by
  intro run hsilent before out after terminal hpolls hdone
  have hfirst := handsOut_of_reaches h hreaches
  cases before with
  | nil =>
      obtain ⟨rfl, -⟩ := List.cons.inj hpolls
      obtain ⟨⟨slot, htold⟩, -⟩ := hfirst
      rw [hdone] at htold
      cases htold
  | cons earlier before =>
      obtain ⟨rfl, -⟩ := List.cons.inj hpolls
      exact ⟨_, List.mem_cons_self, hfirst⟩

theorem reaches_of_inTime (h : Owed bus inp plan junk size)
    (hintime : InTime bus inp (bus.framer.anchor + junk) size) :
    Reaches (frameJudge inp.ring.length) junk
      (unread bus.framer inp.ring inp.cursor.toNat) := by
  have hlen : (unread bus.framer inp.ring inp.cursor.toNat).length =
      unresolved bus.framer.anchor inp.cursor.toNat inp.ring.length := length_reading _ _ _
  have hlap : unresolved bus.framer.anchor inp.cursor.toNat inp.ring.length < inp.ring.length :=
    Nat.mod_lt _ (Nat.zero_lt_of_lt h.cursor)
  have hringed := h.ringed
  have hturn := turn_poll h.cursor (.start h.awaiting h.underway h.anchor)
  obtain ⟨run, hrun, before, out, terminal, hpolls, hdone, hbefore⟩ :=
    hturn.ends_after rfl rfl fun bus' q _ _ hstands hcut => exists_ends h.cursor hstands hcut
  obtain ⟨earlier, hmem, hout⟩ := hintime run hrun before out [] terminal hpolls hdone
  obtain ⟨bus', later, o, hring, hcur, hearlier⟩ := hbefore earlier hmem
  have hreaches := hearlier.reaches_of_handsOut (by rw [hring]; omega)
    (by rw [hring]; exact h.clean) (by omega) (by rw [hring]; exact hout)
  rwa [hring] at hreaches

/-- Junk whose every zero heads a dead candidate costs its own bytes and nothing else. -/
theorem inTime_of_dead_junk (h : Owed bus inp plan junk size)
    (hdead : ∀ k < junk, Framer.byteAt inp.ring (bus.framer.anchor + k) = 0 →
      headerVerdict inp.ring.length
        ((unread bus.framer inp.ring inp.cursor.toNat).drop k) = .dead) :
    InTime bus inp (bus.framer.anchor + junk) size := by
  have hringed := h.ringed
  have hsize := h.clean.size_le
  have hat : ∀ k, k < junk + size → (unread bus.framer inp.ring inp.cursor.toNat)[k]? =
      some (Framer.byteAt inp.ring (bus.framer.anchor + k)) := fun k hk => by
    rw [List.getElem?_eq_getElem (by rw [unread, length_reading]; omega)]
    exact congrArg some (getElem_reading _)
  refine inTime_of_reaches h (.of_dead (hat junk (by omega)) (beq_iff_eq.mpr h.clean.headed) ?_)
  intro k hk b hb hstarts
  rw [hat k (by omega)] at hb
  rw [← Option.some.inj hb] at hstarts
  exact hdead k hk (beq_iff_eq.mp hstarts)

end

/-- The status behind the junk is handed out before the terminal exactly when the walk comes
to stand at its first byte: no false header of the junk waits for more bytes than there are,
and no clean frame that begins in the junk runs into the status. -/
theorem owed_status_in_time_iff {bus : HostBus} {inp : Inputs} {plan : Shape} {junk size : ℕ}
    (h : Owed bus inp plan junk size) :
    InTime bus inp (bus.framer.anchor + junk) size ↔
      Reaches (frameJudge inp.ring.length) junk
        (unread bus.framer inp.ring inp.cursor.toNat) :=
  ⟨reaches_of_inTime h, inTime_of_reaches h⟩

/-! ### On the bench -/

instance (ring : List Byte) (pos size : ℕ) : Decidable (CleanAt ring pos size) :=
  decidable_of_iff (Framer.byteAt ring pos = 0 ∧ 3 ≤ Framer.byteAt ring (pos + 2) ∧
    (Id.mk (Framer.byteAt ring (pos + 1))).isValid = true ∧
    ((Inst.mk (Framer.byteAt ring (pos + 3))).isStatus = true ∨
      (Inst.mk (Framer.byteAt ring (pos + 3))).opcode.isSome = true) ∧ size ≤ ring.length ∧
    size = footprint (Framer.byteAt ring (pos + 2)) ∧ Crc.checks (reading ring pos size) = true)
    ⟨fun ⟨headed, len, id, inst, fits, sized, crc⟩ => ⟨headed, len, id, inst, fits, sized, crc⟩,
      fun h => ⟨h.headed, h.len, h.id, h.inst, h.fits, h.sized, h.crc⟩⟩

/-- A ring of 64 bytes with some bytes landed in front. -/
def landedRing (bytes : List Byte) : List Byte := bytes ++ List.replicate (64 - bytes.length) 0

/-- The reply of servo 5 to a ping, as it rings. -/
def ringedReply : List Byte := Bus.wireFrame ⟨5⟩ ⟨0x80⟩ [1, 2, 3]

/-- A ping is sent, its reply awaited. -/
def pingAwaited : HostBus :=
  let quiet : Inputs := ⟨18, 0, landedRing [], 0⟩
  ((HostBus.new .b1000000 .empty).submit quiet (.exchange ⟨5⟩ ⟨0x10⟩ [])).2.onTxComplete quiet

def pingPlan : Shape := ⟨.single, 9, none, false⟩

def strayInputs : Inputs := ⟨18, 100, landedRing (0x55 :: ringedReply), 10⟩

/-- A stray byte in front of the reply. -/
theorem reply_behind_a_stray_byte_in_time :
    InTime pingAwaited strayInputs (pingAwaited.framer.anchor + 1) 9 := by
  have howed : Owed pingAwaited strayInputs pingPlan 1 9 := by
    constructor
    case awaiting => decide +kernel
    case underway =>
      exact ⟨.inr (.inr (by decide +kernel)), by decide +kernel, by decide +kernel,
        by decide +kernel⟩
    case anchor => decide +kernel
    case cursor => decide +kernel
    case ringed => decide +kernel
    case clean => decide +kernel
    case status => decide +kernel
    case clear =>
      intro pos n hin hclean
      have hlow := hclean.size_le
      omega
  have hnext : next (frameJudge strayInputs.ring.length)
      (unread pingAwaited.framer strayInputs.ring strayInputs.cursor.toNat) = some (.skip 1) := by
    decide +kernel
  exact (owed_status_in_time_iff howed).mpr (.more hnext le_rfl (.here _))

/-- The false header of a frame of 43 bytes in front of the reply. -/
def headedInputs (now : UInt32) : Inputs :=
  ⟨18, now, landedRing ([0x00, 0x05, 0x28, 0x80] ++ ringedReply), 13⟩

/-- The engine has looked at all that landed, and stands parked at the false header. -/
def pingParked : HostBus := (pingAwaited.poll (headedInputs 100)).2

/-- The window of a ping expires over a parked false header, and the reply behind it is
never handed out. -/
theorem parked_header_hides_the_reply :
    ¬ ∀ (bus : HostBus) (inp : Inputs) (plan : Shape) (junk size : ℕ),
      Owed bus inp plan junk size → inp.cursor = bus.lastCursor →
        tickReached inp.now bus.deadlineAt = true →
          InTime bus inp (bus.framer.anchor + junk) size := by
  intro hclaim
  have howed : Owed pingParked (headedInputs pingParked.deadlineAt) pingPlan 4 9 := by
    constructor
    case awaiting => decide +kernel
    case underway =>
      exact ⟨.inr (.inr (by decide +kernel)), by decide +kernel, by decide +kernel,
        by decide +kernel⟩
    case anchor => decide +kernel
    case cursor => decide +kernel
    case ringed => decide +kernel
    case clean => decide +kernel
    case status => decide +kernel
    case clear =>
      intro pos n hin hclean
      have hlow := hclean.size_le
      omega
  have hintime := hclaim _ _ _ _ _ howed (by decide +kernel) (by decide +kernel)
  have hpoll : (pingParked.poll (headedInputs pingParked.deadlineAt)).1 =
      some (.done ⟨.timeout 0, pingParked.deadlineAt, ⟨0, 13, true⟩⟩) := by decide +kernel
  have hdone : (HostBus.polled (pingParked.poll (headedInputs pingParked.deadlineAt))).1 =
      .event (.done ⟨.timeout 0, pingParked.deadlineAt, ⟨0, 13, true⟩⟩) := by
    rw [HostBus.polled, hpoll]
    rfl
  obtain ⟨earlier, hmem, -⟩ := hintime [] (List.forall_mem_nil _) [] _ [] _ rfl hdone
  cases hmem

end OpenServo.Host
