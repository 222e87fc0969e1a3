import OpenServo.Client.Reading

/-!
# What the server reads

The encoders of the session against the server that takes their records apart.  Whatever
the client orders, in whatever pieces it arrives, the server is asked for exactly that,
on the seq the client allocated.
-/

namespace OpenServo.Client

open Host Ledger Framing

/-! ## The encoders -/

namespace Session

def encodeHello : List Byte := sealed [recHello]

def encodeEnterBootloader : List Byte := sealed [recEnterBootloader]

/-- `mask` selects which rails the state byte applies to. -/
def encodeSetRails (state mask : Byte) : List Byte := sealed [recSetRails, state, mask]

def encodeEdgeDrain (max : Byte) : List Byte := sealed [recEdgeDrain, max]

def encodeCaptureReset : List Byte := sealed [recCaptureReset]

def encodeWireOp (session : Session) (rtype : Byte) (body : List Byte) :
    UInt16 × List Byte × Session :=
  let (seq, session) := session.allocSeq
  (seq, sealed (rtype :: u16ToLe seq.toNat ++ body), session)

/-- A raw wire send; the engine's validation is bypassed. -/
def encodeWireSend (session : Session) (bytes : List Byte) : UInt16 × List Byte × Session :=
  session.encodeWireOp recWireSend bytes

/-- `stream` is the `[len(1) bytes]+` frame train. -/
def encodeWireBurst (session : Session) (stream : List Byte) : UInt16 × List Byte × Session :=
  session.encodeWireOp recWireBurst stream

def encodeWirePulse (session : Session) (us : UInt16) : UInt16 × List Byte × Session :=
  session.encodeWireOp recWirePulse (u16ToLe us.toNat)

/-- An announce frame and `breaks` bare breaks. -/
def encodeWireTrain (session : Session) (announce : List Byte) (gapUs : UInt16) (breaks : Byte) :
    UInt16 × List Byte × Session :=
  session.encodeWireOp recWireTrain (u16ToLe gapUs.toNat ++ [breaks] ++ announce)

def encodeWireBaud (session : Session) (bps : UInt32) : UInt16 × List Byte × Session :=
  session.encodeWireOp recWireBaud (u32ToLe bps)

end Session

/-! ## Orders -/

/-- Everything the client can encode for the adapter. -/
inductive Order where
  | hello
  | enterBootloader
  | setRails (state mask : Byte)
  | submit (cmd : Command)
  | wire (op : WireOp)
  | edgeDrain (max : Byte)
  | captureReset
  deriving DecidableEq, Repr

/-- The bytes of an order, and the session after it. -/
def Session.encode (session : Session) : Order → List Byte × Session
  | .hello => (encodeHello, session)
  | .enterBootloader => (encodeEnterBootloader, session)
  | .setRails state mask => (encodeSetRails state mask, session)
  | .submit cmd => (session.encodeSubmit cmd).2
  | .wire (.send bytes) => (session.encodeWireSend bytes).2
  | .wire (.burst stream) => (session.encodeWireBurst stream).2
  | .wire (.pulse us) => (session.encodeWirePulse us).2
  | .wire (.train announce gapUs breaks) => (session.encodeWireTrain announce gapUs breaks).2
  | .wire (.baud bps) => (session.encodeWireBaud bps).2
  | .edgeDrain max => (encodeEdgeDrain max, session)
  | .captureReset => (encodeCaptureReset, session)

namespace Order

/-- What the server is asked for.  A train with nothing to announce never reaches the
engine. -/
def asked (seq : UInt16) : Order → Asked
  | hello => .hello
  | enterBootloader => .enterBootloader
  | setRails state mask => .setRails state (mask &&& 0b11)
  | submit cmd => .submit seq (some cmd)
  | wire (.train [] _ _) => .wire seq none
  | wire op => .wire seq (some op)
  | edgeDrain max => .edgeDrain max
  | captureReset => .captureReset

/-- The record of an order, type and body. -/
def body (seq : UInt16) : Order → List Byte
  | hello => [recHello]
  | enterBootloader => [recEnterBootloader]
  | setRails state mask => [recSetRails, state, mask]
  | submit cmd => recSubmit :: u16ToLe seq.toNat ++ Session.commandBytes cmd
  | wire (.send bytes) => recWireSend :: u16ToLe seq.toNat ++ bytes
  | wire (.burst stream) => recWireBurst :: u16ToLe seq.toNat ++ stream
  | wire (.pulse us) => recWirePulse :: u16ToLe seq.toNat ++ u16ToLe us.toNat
  | wire (.train announce gapUs breaks) =>
      recWireTrain :: u16ToLe seq.toNat ++ (u16ToLe gapUs.toNat ++ [breaks] ++ announce)
  | wire (.baud bps) => recWireBaud :: u16ToLe seq.toNat ++ u32ToLe bps
  | edgeDrain max => [recEdgeDrain, max]
  | captureReset => [recCaptureReset]

/-- Does the order carry a seq? -/
def tagged : Order → Bool
  | submit _ | wire _ => true
  | _ => false

/-- How long a record is; only what the caller passes makes it long. -/
def size : Order → ℕ
  | hello | enterBootloader | captureReset => 1
  | edgeDrain _ => 2
  | setRails _ _ => 3
  | submit (.exchange _ _ payload) => 6 + payload.length
  | submit .rescue => 4
  | submit (.hostBaud _) => 5
  | submit (.setResponseDeadline _) => 6
  | wire (.send bytes) => 3 + bytes.length
  | wire (.burst stream) => 3 + stream.length
  | wire (.pulse _) => 5
  | wire (.train announce _ _) => 6 + announce.length
  | wire (.baud _) => 7

variable {order : Order} {seq : UInt16}

@[simp]
theorem length_body (order : Order) (seq : UInt16) : (order.body seq).length = order.size := by
  cases order with
  | submit cmd =>
      cases cmd <;>
        simp only [body, size, Session.commandBytes, List.cons_append, List.length_cons,
          List.length_append, length_u16ToLe, List.length_nil]
      all_goals omega
  | wire op =>
      cases op <;>
        simp only [body, size, u32ToLe, List.cons_append, List.length_cons, List.length_append,
          length_u16ToLe, List.length_nil]
      all_goals omega
  | _ => rfl

theorem size_pos (order : Order) : 1 ≤ order.size := by
  rw [← length_body order 0]
  cases order with
  | wire op => cases op <;> exact Nat.le_add_left 1 _
  | _ => exact Nat.le_add_left 1 _

/-- The encoder writes the record, and takes a seq if the record carries one. -/
theorem encode_eq (session : Session) (order : Order) :
    session.encode order = (sealed (order.body session.nextSeq),
      if order.tagged then session.allocSeq.2 else session) := by
  cases order with
  | wire op => cases op <;> rfl
  | _ => rfl

theorem fromIdx_asIdx (rate : BaudRate) : BaudRate.fromIdx rate.asIdx = some rate := by
  cases rate <;> rfl

/-- Taken apart by the server, the record asks for the order. -/
theorem readRecord_body (order : Order) (seq : UInt16) :
    readRecord (order.body seq) = order.asked seq := by
  cases order with
  | submit cmd =>
      cases cmd <;>
        simp [body, asked, readRecord, readCommand, Session.commandBytes, u16ToLe, isWireRecord,
          recHello, recEnterBootloader, recWireSend, recWireBurst, recWirePulse, recWireTrain,
          recWireBaud, recCaptureReset, recSubmit, verbExchange, verbRescue, verbHostBaud,
          verbSetResponseDeadline, fromIdx_asIdx]
  | wire op =>
      cases op with
      | train announce gapUs breaks =>
          cases announce <;>
            simp [body, asked, readRecord, readWireOp, u16ToLe, isWireRecord, recHello,
              recEnterBootloader, recWireSend, recWireBurst, recWirePulse, recWireTrain]
      | _ =>
          simp [body, asked, readRecord, readWireOp, u16ToLe, u32ToLe, isWireRecord, recHello,
            recEnterBootloader, recWireSend, recWireBurst, recWirePulse, recWireTrain,
            recWireBaud]
  | _ => rfl

end Order

/-! ## A list of orders -/

namespace Session

/-- The bytes of a list of orders, and every order with the seq it found. -/
def stream : Session → List Order → List Byte
  | _, [] => []
  | session, order :: orders =>
      (session.encode order).1 ++ (session.encode order).2.stream orders

def spoken : Session → List Order → List (Order × UInt16)
  | _, [] => []
  | session, order :: orders =>
      (order, session.nextSeq) :: (session.encode order).2.spoken orders

/-- The record an order was encoded as. -/
def recordOf (said : Order × UInt16) : List Byte := said.1.body said.2

theorem stream_eq (session : Session) (orders : List Order) :
    session.stream orders = frames lenCodec ((session.spoken orders).map recordOf) := by
  induction orders generalizing session with
  | nil => rfl
  | cons order orders ih =>
      simp only [stream, spoken, List.map_cons, frames_cons]
      rw [ih, Order.encode_eq]
      rfl

theorem order_of_spoken {session : Session} {orders : List Order} {said : Order × UInt16}
    (h : said ∈ session.spoken orders) : said.1 ∈ orders := by
  induction orders generalizing session with
  | nil => cases h
  | cons order orders ih =>
      obtain rfl | hrest := List.mem_cons.mp h
      · exact List.mem_cons_self
      · exact List.mem_cons_of_mem _ (ih hrest)

/-- The seqs that were allocated, in order. -/
def seqs (said : List (Order × UInt16)) : List UInt16 :=
  (said.filter fun s => s.1.tagged).map Prod.snd

theorem nextSeq_allocSeq {session : Session} (n : ℕ)
    (hseq : session.nextSeq = UInt16.ofNat (n % 65535)) :
    session.allocSeq.2.nextSeq = UInt16.ofNat ((n + 1) % 65535) := by
  have hnext : session.nextSeq + 1 = UInt16.ofNat (n % 65535 + 1) := by
    rw [hseq, UInt16.ofNat_add]
    rfl
  have hnone : session.nextSeq + 1 = seqNone ↔ n % 65535 + 1 = 65535 := by
    rw [hnext, ← UInt16.toNat_inj, UInt16.toNat_ofNat', Nat.mod_eq_of_lt (by omega)]
    rfl
  simp only [allocSeq]
  split
  · rename_i hlast
    have hzero : (n + 1) % 65535 = 0 := by
      have := hnone.mp hlast
      omega
    rw [hzero]
    rfl
  · rename_i hmore
    have hstep : (n + 1) % 65535 = n % 65535 + 1 := by
      have := hnone.not.mp hmore
      omega
    rw [hnext, hstep]

/-- The seqs count up and start over before the one that nobody owns. -/
theorem seqs_spoken (session : Session) (n : ℕ)
    (hseq : session.nextSeq = UInt16.ofNat (n % 65535)) (orders : List Order) :
    seqs (session.spoken orders) =
      (List.range (seqs (session.spoken orders)).length).map
        fun k => UInt16.ofNat ((n + k) % 65535) := by
  induction orders generalizing session n with
  | nil => rfl
  | cons order orders ih =>
      cases htagged : order.tagged with
      | false =>
          have hsame : seqs (session.spoken (order :: orders)) = seqs (session.spoken orders) := by
            simp [seqs, spoken, htagged, Order.encode_eq]
          rw [hsame]
          exact ih session n hseq
      | true =>
          have hnext := nextSeq_allocSeq n hseq
          have hcons : seqs (session.spoken (order :: orders)) =
              session.nextSeq :: seqs (session.allocSeq.2.spoken orders) := by
            simp [seqs, spoken, htagged, Order.encode_eq]
          rw [hcons, List.length_cons, List.range_succ_eq_map, List.map_cons, List.map_map]
          refine congrArg₂ List.cons hseq ((ih _ (n + 1) hnext).trans ?_)
          exact List.map_congr_left fun k _ => congrArg (fun m => UInt16.ofNat (m % 65535))
            (by rw [Nat.succ_eq_add_one, Nat.add_assoc, Nat.add_comm 1 k])

end Session

/-- What the server of a link has made of a client's orders. -/
structure Obeyed (link : Link) (orders : List Order) (delivered : List Byte)
    (done todo : List (Order × UInt16)) : Prop where
  split : Session.new.spoken orders = done ++ todo
  /-- Asked for each order once, in turn, on its seq, and for nothing else. -/
  asked : link.readings.map (Option.map readRecord) =
    done.map fun said => some (said.1.asked said.2)
  bytes : delivered = frames lenCodec (done.map Session.recordOf) ++ link.server.rx
  prompt : ∀ said ∈ todo.head?, link.server.rx.length < 2 + said.1.size
  seqs : Session.seqs (Session.new.spoken orders) =
    (List.range (Session.seqs (Session.new.spoken orders)).length).map
      fun k => UInt16.ofNat (k % 65535)

/-- Whatever the client orders, in whatever pieces its bytes are delivered and whatever else
happens to the link. -/
theorem orders_reach_the_server (rate : BaudRate) (edges : EdgeCapture) {orders : List Order}
    {acts : List LinkAct} (hfits : ∀ order ∈ orders, order.size ≤ 510)
    (hpipe : acts.flatMap LinkAct.delivered <+: Session.new.stream orders) :
    ∃ done todo, Obeyed (final Link.step (.new (.new rate edges)) acts) orders
      (acts.flatMap LinkAct.delivered) done todo := by
  have hrecords : ∀ record ∈ (Session.new.spoken orders).map Session.recordOf,
      Link.RecordFits record := by
    intro record hrecord
    obtain ⟨said, hsaid, rfl⟩ := List.mem_map.mp hrecord
    rw [Link.RecordFits, Session.recordOf, Order.length_body]
    exact ⟨said.1.size_pos, hfits _ (Session.order_of_spoken hsaid)⟩
  rw [Session.stream_eq] at hpipe
  obtain ⟨done, todo, hsplit, hhandled, ⟨hheld, -⟩, hbytes⟩ :=
    (@Link.reads_start (.new (.new rate edges)) _ rfl hrecords).final acts hpipe
  obtain ⟨said, rest, hspoken, rfl, rfl⟩ := List.map_eq_append_iff.mp hsplit
  refine ⟨said, rest, hspoken, ?_, hbytes, ?_, Session.seqs_spoken .new 0 rfl orders |>.trans ?_⟩
  · rw [hhandled]
    simp [Session.recordOf, Order.readRecord_body, Link.readings, Link.new]
  · intro next hnext
    have hshort := hheld.short (Session.recordOf next) (by rw [List.head?_map, hnext]; rfl)
    rwa [length_frame, Session.recordOf, Order.length_body] at hshort
  · simp

/-- A ping and a wire send in three pieces, with a pump in between. -/
theorem ping_reaches_the_server : ∃ done todo,
    Obeyed (final Link.step (.new (.new .b1000000 .empty))
      [.pipe ⟨18, 0, [], 0⟩ [6, 0, 1], .pipe ⟨18, 90, [], 0⟩ [0, 0, 0, 1, 0x10, 6, 0],
        .pump [⟨18, 120, [], 0⟩], .pipe ⟨18, 150, [], 0⟩ [0x61, 1, 0, 1, 2, 3]])
      [.submit (.exchange ⟨1⟩ ⟨0x10⟩ []), .wire (.send [1, 2, 3])]
      [6, 0, 1, 0, 0, 0, 1, 0x10, 6, 0, 0x61, 1, 0, 1, 2, 3] done todo :=
  orders_reach_the_server .b1000000 .empty (by decide) (by decide)

/-- At any boundary, an order is read as the one record it was encoded as, and nothing of it as
another, exactly when it has at most 510 bytes. -/
theorem order_is_taken_whole_iff {link : Link} (hboundary : link.server.rx = [])
    (session : Session) (order : Order) {acts : List LinkAct}
    (hpipe : acts.flatMap LinkAct.delivered = (session.encode order).1) :
    TakenWhole link (final Link.step link acts) (order.body session.nextSeq) ↔
      order.size ≤ 510 := by
  rw [Order.encode_eq] at hpipe
  rw [taken_whole_iff hboundary hpipe, Link.RecordFits, Order.length_body]
  exact and_iff_right order.size_pos

/-- A wire send of three bytes. -/
theorem short_send_is_taken_whole :
    TakenWhole (.new (.new .b1000000 .empty)) (final Link.step (.new (.new .b1000000 .empty))
      [.pipe ⟨18, 0, [], 0⟩ [6, 0, 0x61, 0, 0, 1, 2, 3]]) [0x61, 0, 0, 1, 2, 3] ↔ 6 ≤ 510 :=
  order_is_taken_whole_iff rfl .new (.wire (.send [1, 2, 3])) (by decide)

end OpenServo.Client
