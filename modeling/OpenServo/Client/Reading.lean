import OpenServo.Client.Session
import OpenServo.Host.Outbound

/-!
# What the client reads

The client cuts the pipe's byte stream back into records.  Whatever the server of any
run has sent comes out again record by record, however the stream is cut up and however
often the client asks in between.
-/

namespace OpenServo.Client

open Host Ledger Framing

/-! ## One record -/

/-- What a record of the server says. -/
def Record.ofSent : Sent → Record
  | .info ticksPerUs => .info linkVersion ticksPerUs
  | .status seq slot id inst payload => .status seq slot id ⟨inst⟩ payload.bytes
  | .terminal seq t =>
      .terminal seq t.outcome t.tick t.evidence.statuses t.evidence.garble
        t.evidence.garbleAfterLastFrame
  | .rejected seq reason => .rejected seq reason
  | .unknown rtype => .unknown rtype
  | .bootloaderAck => .bootloaderAck
  | .railsAck state => .railsAck state
  | .wireDone seq tick => .wireDone seq tick
  | .edges overflow now falls rises => .edges overflow now falls rises
  | .captureAck => .captureAck

@[simp]
theorem seqFromLe_toLe (seq : UInt16) :
    seqFromLe seq.toUInt8 (UInt8.ofNat (seq.toNat / 256)) = seq :=
  ofNat_u16FromLe seq

@[simp]
theorem u32FromLe_toLe (v : UInt32) :
    u32FromLe v.toUInt8 (UInt8.ofNat (v.toNat / 256)) (UInt8.ofNat (v.toNat / 65536))
      (UInt8.ofNat (v.toNat / 65536 / 256)) = v :=
  u32FromLe_ofNat v

theorem readTicks_ticks (ticks : List UInt16) :
    readTicks (ticks.flatMap fun tick => u16ToLe tick.toNat) = ticks := by
  induction ticks with
  | nil => rfl
  | cons tick ticks ih =>
      simp only [List.flatMap_cons, u16ToLe, List.cons_append, List.nil_append, readTicks] at ih ⊢
      rw [ih]
      exact congrArg (· :: ticks) (seqFromLe_toLe tick)

theorem decode_edges (overflow : Bool) (now : UInt32) {falls rises : List UInt16}
    (hfalls : falls.length ≤ drainMax) (hrises : rises.length ≤ drainMax) :
    decode (Sent.edges overflow now falls rises).body =
      .ok (.edges overflow now falls rises) := by
  have hcount : ∀ {ticks : List UInt16}, ticks.length ≤ drainMax →
      (UInt8.ofNat ticks.length).toNat = ticks.length := by
    intro ticks hticks
    simp only [drainMax] at hticks
    rw [UInt8.toNat_ofNat', Nat.mod_eq_of_lt (by omega)]
  have hflag : (overflow.toUInt8 &&& 1 != 0) = overflow := by cases overflow <;> rfl
  have hlength : ((falls ++ rises).flatMap fun tick => u16ToLe tick.toNat).length =
      2 * (falls.length + rises.length) := by
    rw [length_ticks, List.length_append]
  have htake : readTicks (((falls ++ rises).flatMap fun tick => u16ToLe tick.toNat).take
      (2 * falls.length)) = falls := by
    rw [List.flatMap_append, ← length_ticks falls, List.take_left, readTicks_ticks]
  have hdrop : readTicks ((((falls ++ rises).flatMap fun tick => u16ToLe tick.toNat).drop
      (2 * falls.length)).take (2 * rises.length)) = rises := by
    rw [List.flatMap_append, ← length_ticks falls, List.drop_left, ← length_ticks rises,
      List.take_length, readTicks_ticks]
  rw [Sent.body]
  generalize ((falls ++ rises).flatMap fun tick => u16ToLe tick.toNat) = ticks
    at hlength htake hdrop
  simp [decode, recInfo, recStatus, recTerminal, recRejected, recBootloaderAck, recRailsAck,
    recWireDone, recEdges, u32ToLe, u16ToLe, hcount hfalls, hcount hrises, hlength, htake, hdrop,
    hflag]

/-- Every encoder of the server is undone by the client's decoder. -/
theorem decode_body {sent : Sent} (h : sent.Emittable) :
    decode sent.body = .ok (Record.ofSent sent) := by
  cases sent with
  | info ticksPerUs =>
      simp [decode, Sent.body, recInfo, u32ToLe, u16ToLe, Record.ofSent]
  | status seq slot id inst payload =>
      simp [decode, Sent.body, Sent.seqToLe, recInfo, recStatus, u16ToLe, Record.ofSent,
        FrameBytes.segments, FrameBytes.bytes]
  | terminal seq t =>
      obtain ⟨outcome, tick, statuses, garble, trailing⟩ := t
      cases outcome <;> cases trailing <;>
      simp [decode, Sent.body, Sent.seqToLe, Sent.outcomeBytes, recInfo, recStatus, recTerminal,
        outcomeSent, outcomeComplete, outcomeTimeout, flagGarbleAfterLastFrame, u16ToLe, u32ToLe,
        Record.ofSent]
  | rejected seq reason =>
      simp [decode, Sent.body, Sent.seqToLe, recInfo, recStatus, recTerminal, recRejected, u16ToLe,
        Record.ofSent]
  | unknown rtype => rfl
  | bootloaderAck => rfl
  | railsAck state => rfl
  | wireDone seq tick =>
      simp [decode, Sent.body, Sent.seqToLe, recInfo, recStatus, recTerminal, recRejected,
        recBootloaderAck, recRailsAck, recWireDone, u16ToLe, u32ToLe, Record.ofSent]
  | edges overflow now falls rises => exact decode_edges overflow now h.1 h.2
  | captureAck => rfl

/-! ## The stream -/

/-- What happens to a session: the pipe delivers a chunk, or the client asks for the next
record. -/
inductive SessionAct where
  | chunk (bytes : List Byte)
  | next

/-- The bytes an act delivers. -/
def SessionAct.delivered : SessionAct → List Byte
  | .chunk bytes => bytes
  | .next => []

namespace Session

/-- One input of the machine, and the answer when the client asked. -/
def step (session : Session) :
    SessionAct → Option (Except LinkError (Option Record)) × Session
  | .chunk bytes => (none, session.onBytes bytes)
  | .next => Prod.map some id session.nextRecord

/-- The records among the answers. -/
def told (answers : List (Option (Except LinkError (Option Record)))) : List Record :=
  answers.filterMap fun
    | some (.ok (some record)) => some record
    | _ => none

variable {session : Session} {sents done todo : List Sent} {delivered : List Byte}
  {answers : List (Option (Except LinkError (Option Record)))}

/-- What the client has been told of the records of a stream: the first of them, each once
and in their order, and never an error. -/
structure Caught (session : Session) (sents : List Sent) (delivered : List Byte)
    (answers : List (Option (Except LinkError (Option Record)))) (done todo : List Sent) :
    Prop where
  split : sents = done ++ todo
  told : told answers = done.map Record.ofSent
  sound : ∀ answer ∈ answers, ∀ err, answer ≠ some (.error err)
  bytes : delivered = done.flatMap Sent.bytes ++ session.rx

theorem nextRecord_whole {sent : Sent} (hemit : sent.Emittable) {more : List Byte}
    (hrx : session.rx = sent.bytes ++ more) :
    session.nextRecord = (.ok (some (.ofSent sent)), { session with rx := more }) := by
  obtain ⟨hpos, hmax⟩ := hemit.length_body
  simp only [outCap] at hmax
  have hlen : u16FromLe (UInt8.ofNat sent.body.length) (UInt8.ofNat (sent.body.length / 256)) =
      sent.body.length := u16FromLe_ofNat (by omega)
  have hbytes : session.rx = UInt8.ofNat sent.body.length ::
      UInt8.ofNat (sent.body.length / 256) :: (sent.body ++ more) := hrx
  rw [nextRecord, hbytes]
  simp only [hlen, List.take_left, List.drop_left, decode_body hemit]
  rw [if_neg (by omega), if_neg (by rw [List.length_append]; omega)]

theorem bytes_flatMap (sents : List Sent) :
    sents.flatMap Sent.bytes = frames lenCodec (sents.map Sent.body) := by
  simp only [frames, List.flatMap_map]
  rfl

/-- A piece of the next record is kept, and the client told so. -/
theorem nextRecord_held (hemit : ∀ sent ∈ todo, sent.Emittable)
    (hheld : Held lenCodec session.rx (todo.map Sent.body)) :
    session.nextRecord = (.ok none, session) := by
  rw [nextRecord]
  split
  case h_1 lo hi rest hrx =>
      cases todo with
      | nil =>
          rw [hheld.eq_nil] at hrx
          cases hrx
      | cons sent todo =>
          obtain ⟨hpos, hmax⟩ := (hemit sent List.mem_cons_self).length_body
          simp only [outCap] at hmax
          have hbound : sent.body.length < lenCodec.bound :=
            show sent.body.length < 65536 by omega
          have hget : lenCodec.get session.rx = sent.body.length :=
            hheld.get hbound (by rw [hrx]; exact Nat.le_add_left 2 rest.length)
          have hlen : u16FromLe lo hi = sent.body.length := by
            rw [← hget, hrx]
            rfl
          have hshort : session.rx.length < 2 + sent.body.length := by
            have := hheld.short sent.body rfl
            rwa [length_frame] at this
          rw [hrx] at hshort
          simp only [List.length_cons] at hshort
          simp only [hlen]
          rw [if_neg (by omega), if_pos (by omega)]
  case h_2 => rfl

/-- What the client is told when it asks. -/
theorem Caught.prompt (h : Caught session sents delivered answers done todo)
    (hemit : ∀ sent ∈ sents, sent.Emittable) (hpipe : delivered <+: sents.flatMap Sent.bytes) :
    (∃ sent rest more, todo = sent :: rest ∧ session.rx = sent.bytes ++ more ∧
      session.nextRecord = (.ok (some (.ofSent sent)), { session with rx := more })) ∨
    (∀ sent ∈ todo.head?, session.rx.length < sent.bytes.length) ∧
      session.nextRecord = (.ok none, session) := by
  obtain ⟨rfl, -, -, rfl⟩ := h
  rw [List.flatMap_append] at hpipe
  have hrx := (List.prefix_append_right_inj _).mp hpipe
  have htodo : ∀ sent ∈ todo, sent.Emittable :=
    fun sent hsent => hemit sent (List.mem_append_right _ hsent)
  by_cases hshort : ∀ sent ∈ todo.head?, session.rx.length < sent.bytes.length
  · refine Or.inr ⟨hshort, nextRecord_held htodo ⟨?_, ?_⟩⟩
    · rw [← bytes_flatMap]
      exact hrx
    · intro record hrecord
      cases todo with
      | nil => cases hrecord
      | cons sent rest =>
          cases hrecord
          exact hshort sent rfl
  · cases todo with
    | nil => exact absurd (fun sent hsent => by cases hsent) hshort
    | cons sent rest =>
        have hwhole : sent.bytes.length ≤ session.rx.length := by
          by_contra hless
          exact hshort fun other hother => by
            cases hother
            omega
        obtain ⟨more, hmore⟩ := List.prefix_of_prefix_length_le
          (show sent.bytes <+: (sent :: rest).flatMap Sent.bytes from List.prefix_append _ _)
          hrx hwhole
        exact Or.inl ⟨sent, rest, more, rfl, hmore.symm,
          nextRecord_whole (htodo sent List.mem_cons_self) hmore.symm⟩

/-- A chunk is told nothing of. -/
theorem Caught.chunk (h : Caught session sents delivered answers done todo) (bytes : List Byte) :
    Caught (session.onBytes bytes) sents (delivered ++ bytes) (answers ++ [none]) done todo := by
  obtain ⟨hsplit, htold, hsound, hbytes⟩ := h
  refine ⟨hsplit, ?_, ?_, ?_⟩
  · rw [Session.told, List.filterMap_append, ← htold]
    exact List.append_nil _
  · intro answer hanswer
    obtain hanswer | hanswer := List.mem_append.mp hanswer
    · exact hsound answer hanswer
    · rw [List.mem_singleton.mp hanswer]
      simp
  · rw [hbytes, onBytes, List.append_assoc]

theorem Caught.next (h : Caught session sents delivered answers done todo)
    (hemit : ∀ sent ∈ sents, sent.Emittable) (hpipe : delivered <+: sents.flatMap Sent.bytes) :
    ∃ done todo, Caught session.nextRecord.2 sents delivered
      (answers ++ [some session.nextRecord.1]) done todo := by
  have hprompt := h.prompt hemit hpipe
  obtain ⟨hsplit, htold, hsound, hbytes⟩ := h
  have hsound' : ∀ {answer : Option Record}, session.nextRecord.1 = .ok answer →
      ∀ answer ∈ answers ++ [some session.nextRecord.1], ∀ err, answer ≠ some (.error err) := by
    intro record hrecord answer hanswer err
    obtain hanswer | hanswer := List.mem_append.mp hanswer
    · exact hsound answer hanswer err
    · rw [List.mem_singleton.mp hanswer, hrecord]
      simp
  obtain ⟨sent, rest, more, rfl, hrx, hnext⟩ | ⟨-, hnext⟩ := hprompt
  · refine ⟨done ++ [sent], rest, by rw [hsplit, List.append_assoc]; rfl, ?_,
      hsound' (congrArg Prod.fst hnext), ?_⟩
    · rw [hnext, Session.told, List.filterMap_append, List.map_append, ← htold]
      rfl
    · rw [hnext, hbytes, hrx, List.flatMap_append, List.append_assoc, List.flatMap_singleton]
  · refine ⟨done, todo, hsplit, ?_, hsound' (congrArg Prod.fst hnext), ?_⟩
    · rw [hnext, Session.told, List.filterMap_append, ← htold]
      exact List.append_nil _
    · rw [hnext]
      exact hbytes

/-- Every run of a session over a stream of emittable records. -/
theorem Caught.run (hemit : ∀ sent ∈ sents, sent.Emittable)
    (h : Caught session sents delivered answers done todo) (reader : List SessionAct)
    (hpipe : delivered ++ reader.flatMap SessionAct.delivered <+: sents.flatMap Sent.bytes) :
    ∃ done todo, Caught (final step session reader) sents
      (delivered ++ reader.flatMap SessionAct.delivered)
      (answers ++ outputs step session reader) done todo := by
  induction reader generalizing session delivered answers done todo with
  | nil =>
      refine ⟨done, todo, ?_⟩
      rw [List.flatMap_nil, List.append_nil, outputs, List.append_nil]
      exact h
  | cons act reader ih =>
      rw [List.flatMap_cons, ← List.append_assoc] at hpipe ⊢
      have hbefore := (List.prefix_append (delivered ++ act.delivered)
        (reader.flatMap SessionAct.delivered)).trans hpipe
      have hstep : ∃ done todo, Caught (session.step act).2 sents (delivered ++ act.delivered)
          (answers ++ [(session.step act).1]) done todo := by
        cases act with
        | chunk bytes => exact ⟨done, todo, h.chunk bytes⟩
        | next =>
            rw [SessionAct.delivered, List.append_nil] at hbefore ⊢
            exact h.next hemit hbefore
      obtain ⟨done, todo, hcaught⟩ := hstep
      obtain ⟨done, todo, hrest⟩ := ih hcaught hpipe
      rw [List.append_assoc answers] at hrest
      exact ⟨done, todo, hrest⟩

end Session

/-- The client of a link is told the records the server has sent, each once and in their
order, never an error, and the next one as soon as it has wholly arrived. -/
def ReadsBack (link : Link) (reader : List SessionAct) : Prop :=
  ∃ done todo, Session.Caught (final Session.step .new reader) link.sent
      (reader.flatMap SessionAct.delivered) (outputs Session.step .new reader) done todo ∧
    ((∃ sent rest, todo = sent :: rest ∧
        (final Session.step .new reader).nextRecord.1 = .ok (some (.ofSent sent))) ∨
      (∀ sent ∈ todo.head?, (final Session.step .new reader).rx.length < sent.bytes.length) ∧
        (final Session.step .new reader).nextRecord.1 = .ok none)

/-- Whatever the link does, however its bytes are cut into chunks and however often the
client asks in between. -/
theorem client_reads_what_was_sent (rate : BaudRate) (edges : EdgeCapture)
    {acts : List LinkAct} {reader : List SessionAct}
    (hpipe : reader.flatMap SessionAct.delivered <+:
      (final Link.step (.new (.new rate edges)) acts).sent.flatMap Sent.bytes) :
    ReadsBack (final Link.step (.new (.new rate edges)) acts) reader := by
  have hemit := (Link.Emits.final (Link.emits_new (.new rate edges)) acts).sent
  obtain ⟨done, todo, hcaught⟩ := Session.Caught.run hemit
    (⟨rfl, rfl, by simp, rfl⟩ : Session.Caught .new _ [] [] [] _) reader hpipe
  refine ⟨done, todo, hcaught, ?_⟩
  obtain ⟨sent, rest, more, htodo, -, hnext⟩ | ⟨hshort, hnext⟩ := hcaught.prompt hemit hpipe
  · exact Or.inl ⟨sent, rest, htodo, congrArg Prod.fst hnext⟩
  · exact Or.inr ⟨hshort, congrArg Prod.fst hnext⟩

/-- The answer to a HELLO, in two chunks. -/
theorem client_reads_the_info :
    ReadsBack (final Link.step (.new (.new .b1000000 .empty)) [.pipe ⟨18, 0, [], 0⟩ [1, 0, 0]])
      [.chunk [6, 0, 0x80], .next, .chunk [1, 18, 0, 0, 0], .next] :=
  client_reads_what_was_sent .b1000000 .empty (by decide)

end OpenServo.Client
