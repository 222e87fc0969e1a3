import OpenServo.Client.Commands
import OpenServo.Client.Orders

/-!
# A command from end to end

A client submits a command to a link that owes nobody anything.  Whatever the engine and
the carrier do, it gets the engine's own statuses and terminal, the server's refusal, or an
error of its pipe, and never a record it cannot place.
-/

namespace OpenServo.Client

open Host Ledger Framing

/-! ## What is sent back -/

/-- The answer to a command the engine works on. -/
inductive Streams (seq : UInt16) : List Sent → Prop where
  | nil : Streams seq []
  | terminal (t : Terminal) : Streams seq [.terminal seq t]
  | status (slot id inst : Byte) (payload : FrameBytes) {rest : List Sent} :
      Streams seq rest → Streams seq (.status seq slot id inst payload :: rest)

/-- What has been sent back of the answer to a command. -/
def AnswersTo (seq : UInt16) (sents : List Sent) : Prop :=
  Streams seq sents ∨ ∃ reason, sents = [.rejected seq reason]

/-- What the client makes of an answer; nothing while it is open. -/
def digest (statuses : List Status) : List Sent → Option (Except ClientError SubmitReply)
  | .status _ slot id inst payload :: rest =>
      digest (statuses ++ [⟨slot, id, Inst.result ⟨inst⟩, Inst.alert ⟨inst⟩, payload.bytes⟩]) rest
  | .terminal _ t :: _ =>
      some (.ok ⟨⟨statuses, t.evidence.garble, t.evidence.garbleAfterLastFrame⟩, t.outcome, t.tick⟩)
  | .rejected _ reason :: _ => some (.error (.link (.rejected (.fromByte reason))))
  | _ => none

/-- An answer never says that the pipe failed. -/
theorem digest_ne_pipe {seq : UInt16} {sents : List Sent} (h : Streams seq sents)
    (statuses : List Status) (err : PipeError) :
    digest statuses sents ≠ some (.error (.pipe err)) := by
  induction h generalizing statuses with
  | nil => simp [digest]
  | terminal t => simp [digest]
  | status slot id inst payload hrest ih => exact ih _

section Law

variable {entries : List Heard} {last : Option (Owner × UInt16)} {seq : UInt16}

/-- A link that owes nobody sends nothing unasked. -/
theorem nothing_unasked (h : Follows LinkLaw none entries last)
    (hread : entries.filterMap Heard.reading = []) : entries = [] ∧ last = none := by
  cases h with
  | nil => exact ⟨rfl, rfl⟩
  | cons hlaw _ => cases hlaw <;> simp [Heard.reading] at hread

/-- A link that works on a command answers it, and then owes nobody. -/
theorem streams_of_follows (h : Follows LinkLaw (some (.command, seq)) entries last)
    (hread : entries.filterMap Heard.reading = []) (statuses : List Status) :
    Streams seq (entries.flatMap Heard.sent) ∧
      (last = none ↔ digest statuses (entries.flatMap Heard.sent) ≠ none) := by
  induction entries generalizing statuses with
  | nil =>
      cases h
      exact ⟨.nil, by simp [digest]⟩
  | cons entry entries ih =>
      cases h with
      | cons hlaw hrest =>
          cases hlaw with
          | rejected reason books hasks => simp [Heard.reading] at hread
          | other books hasks hseq => simp [Heard.reading] at hread
          | breach books => simp [Heard.reading] at hread
          | status seq slot id inst payload =>
              obtain ⟨hstreams, hlast⟩ := ih hrest (by simpa [Heard.reading] using hread)
                (statuses ++ [⟨slot, id, Inst.result ⟨inst⟩, Inst.alert ⟨inst⟩, payload.bytes⟩])
              exact ⟨.status slot id inst payload hstreams, hlast⟩
          | terminal seq t =>
              obtain ⟨rfl, rfl⟩ := nothing_unasked hrest (by simpa [Heard.reading] using hread)
              exact ⟨.terminal t, by simp [digest, Heard.sent]⟩

/-- A link that owed nobody when it was handed a command. -/
theorem answersTo_of_follows {record : List Byte} (h : Follows LinkLaw none entries last)
    (hread : entries.filterMap Heard.reading = [some record])
    (hasks : asks record = some (.command, seq)) :
    AnswersTo seq (entries.flatMap Heard.sent) ∧
      (last = none ↔ digest [] (entries.flatMap Heard.sent) ≠ none) := by
  cases h with
  | nil => cases hread
  | cons hlaw hrest =>
      cases hlaw with
      | accepted hasked =>
          obtain ⟨hrecord, hmore⟩ := List.cons.inj hread
          cases hrecord
          rw [hasks] at hasked
          cases hasked
          obtain ⟨hstreams, hlast⟩ := streams_of_follows hrest hmore []
          exact ⟨Or.inl hstreams, hlast⟩
      | rejected reason books hasked =>
          obtain ⟨hrecord, hmore⟩ := List.cons.inj hread
          cases hrecord
          rw [hasks] at hasked
          cases hasked
          obtain ⟨rfl, rfl⟩ := nothing_unasked hrest hmore
          exact ⟨Or.inr ⟨reason, rfl⟩, by simp [digest, Heard.sent]⟩
      | other books hasked hseq =>
          obtain ⟨hrecord, -⟩ := List.cons.inj hread
          cases hrecord
          rw [hasks] at hasked
          cases hasked
      | breach => cases hread

end Law

/-! ## What the client collects -/

/-- The bytes a pipe delivers. -/
def streamed (delivers : List (Except PipeError (List Byte))) : List Byte :=
  delivers.flatMap fun
    | .ok chunk => chunk
    | .error _ => []

/-- The next record of a stream, or the pipe's error; without one the pipe stalls in a piece
of the record. -/
theorem receive_spec {sents : List Sent} (hemit : ∀ sent ∈ sents, sent.Emittable)
    {session : Session} {delivers : List (Except PipeError (List Byte))}
    (hpipe : session.rx ++ streamed delivers <+: sents.flatMap Sent.bytes) :
    (∃ err session' delivers',
      receive session delivers = (.error (.pipe err), session', delivers') ∧
      ((∀ delivery ∈ delivers, ∃ chunk, delivery = .ok chunk) → ∀ sent ∈ sents.head?,
        (session.rx ++ streamed delivers).length < sent.bytes.length)) ∨
    ∃ sent rest session' delivers', sents = sent :: rest ∧
      receive session delivers = (.ok (.ofSent sent), session', delivers') ∧
      session.rx ++ streamed delivers = sent.bytes ++ (session'.rx ++ streamed delivers') ∧
      delivers' <:+ delivers := by
  induction delivers generalizing session with
  | nil =>
      rw [show streamed [] = [] from rfl, List.append_nil] at hpipe ⊢
      have hcaught : Session.Caught session sents session.rx [] [] sents :=
        ⟨rfl, rfl, by simp, rfl⟩
      obtain ⟨sent, rest, more, rfl, hrx, hcut⟩ | ⟨hshort, hcut⟩ := hcaught.prompt hemit hpipe
      · exact Or.inr ⟨sent, rest, { session with rx := more }, [], rfl, receive_cut hcut,
          by rw [hrx, show streamed [] = [] from rfl, List.append_nil], List.suffix_rfl⟩
      · refine Or.inl ⟨.stalled, session, [], ?_, fun _ => hshort⟩
        rw [receive, hcut]
  | cons delivery delivers ih =>
      have hcaught : Session.Caught session sents session.rx [] [] sents :=
        ⟨rfl, rfl, by simp, rfl⟩
      obtain ⟨sent, rest, more, rfl, hrx, hcut⟩ | ⟨hshort, hcut⟩ :=
        hcaught.prompt hemit ((List.prefix_append _ _).trans hpipe)
      · exact Or.inr ⟨sent, rest, { session with rx := more }, delivery :: delivers, rfl,
          receive_cut hcut, by rw [hrx, List.append_assoc], List.suffix_rfl⟩
      · cases delivery with
        | error err =>
            refine Or.inl ⟨err, session, delivers, ?_, fun hall => ?_⟩
            · rw [receive, hcut]
            · obtain ⟨chunk, hchunk⟩ := hall _ List.mem_cons_self
              cases hchunk
        | ok chunk =>
            have hstream : session.rx ++ streamed (.ok chunk :: delivers) =
                (session.onBytes chunk).rx ++ streamed delivers := by
              rw [Session.onBytes, List.append_assoc]
              rfl
            rw [hstream] at hpipe ⊢
            rw [receive_chunk hcut]
            obtain ⟨err, session', delivers', herr, hstall⟩ |
              ⟨sent, rest, session', delivers', hsents, hgot, hsplit, hsuffix⟩ := ih hpipe
            · exact Or.inl ⟨err, session', delivers', herr, fun hall =>
                hstall fun delivery hmem => hall delivery (List.mem_cons_of_mem _ hmem)⟩
            · exact Or.inr ⟨sent, rest, session', delivers', hsents, hgot, hsplit,
                hsuffix.trans (List.suffix_cons _ _)⟩

/-- What a call of the client comes to: what the answer says, with nothing of it left over,
or the pipe's error, and that only while the answer is open or some of it is missing. -/
structure Collected (sents : List Sent) (expected : Option (Except ClientError SubmitReply))
    (arrived : List Byte) (intact : Prop) (out : Except ClientError SubmitReply × Client) :
    Prop where
  answered : expected = some out.1 ∧ out.2.session.rx ++ streamed out.2.pipe.delivers = [] ∨
    ∃ err, out.1 = .error (.pipe err)
  complete : intact → arrived = sents.flatMap Sent.bytes → expected ≠ none → expected = some out.1

/-- Every delivery of the pipe succeeds. -/
def Intact (delivers : List (Except PipeError (List Byte))) : Prop :=
  ∀ delivery ∈ delivers, ∃ chunk, delivery = .ok chunk

theorem Intact.suffix {delivers delivers' : List (Except PipeError (List Byte))}
    (h : Intact delivers) (hsuffix : delivers' <:+ delivers) : Intact delivers' :=
  fun delivery hmem => h delivery (hsuffix.subset hmem)

/-- The client stops at the pipe's error. -/
theorem collect_stops {client : Client} {seq : UInt16} {statuses : List Status} {err : PipeError}
    {session' : Session} {delivers' : List (Except PipeError (List Byte))}
    (hgot : receive client.session client.pipe.delivers =
      (.error (.pipe err), session', delivers')) :
    (collect seq statuses client).1 = .error (.pipe err) := by
  rw [collect_error (by rw [nextRecord, hgot])]

/-- A pipe that delivered the whole of a stream does not stall in its first record. -/
theorem head_of_stalled {sents : List Sent} {arrived : List Byte}
    (harrived : arrived = sents.flatMap Sent.bytes)
    (hstall : ∀ sent ∈ sents.head?, arrived.length < sent.bytes.length) : sents = [] := by
  cases sents with
  | nil => rfl
  | cons sent sents =>
      have hshort := hstall sent rfl
      rw [harrived, List.flatMap_cons, List.length_append] at hshort
      omega

/-- The client after a record was received. -/
def received (client : Client) (session : Session)
    (delivers : List (Except PipeError (List Byte))) : Client :=
  { client with session, pipe := { client.pipe with delivers } }

/-- A record that closes the answer. -/
theorem collect_closing {client : Client} {seq : UInt16} {statuses : List Status} {sent : Sent}
    {out : Except ClientError SubmitReply} (hemit : sent.Emittable)
    (hdone : onRecord seq statuses (.ofSent sent) = .inl out)
    (hpipe : client.session.rx ++ streamed client.pipe.delivers <+: [sent].flatMap Sent.bytes) :
    Collected [sent] (some out) (client.session.rx ++ streamed client.pipe.delivers)
      (Intact client.pipe.delivers) (collect seq statuses client) := by
  obtain ⟨err, session', delivers', hgot, hstall⟩ |
    ⟨first, rest, session', delivers', hsents, hgot, hsplit, -⟩ :=
    receive_spec (fun other hother => List.mem_singleton.mp hother ▸ hemit) hpipe
  · refine ⟨Or.inr ⟨err, collect_stops hgot⟩, fun hintact harrived _ => ?_⟩
    cases head_of_stalled harrived (hstall hintact)
  · cases hsents
    have hnext : client.nextRecord = (.ok (.ofSent sent), client.received session' delivers') := by
      rw [nextRecord, hgot]
      rfl
    rw [hsplit, List.flatMap_singleton] at hpipe
    have hleft : session'.rx ++ streamed delivers' = [] := by
      have hlength := hpipe.length_le
      rw [List.length_append] at hlength
      exact List.eq_nil_of_length_eq_zero (by omega)
    rw [collect_done hnext hdone]
    exact ⟨Or.inl ⟨rfl, hleft⟩, fun _ _ _ => rfl⟩

theorem collect_streams {seq : UInt16} {sents : List Sent} (h : Streams seq sents)
    (hemit : ∀ sent ∈ sents, sent.Emittable) (statuses : List Status) {client : Client}
    (hpipe : client.session.rx ++ streamed client.pipe.delivers <+: sents.flatMap Sent.bytes) :
    Collected sents (digest statuses sents)
      (client.session.rx ++ streamed client.pipe.delivers) (Intact client.pipe.delivers)
      (collect seq statuses client) := by
  induction h generalizing statuses client with
  | nil =>
      obtain ⟨err, session', delivers', hgot, -⟩ | ⟨sent, rest, session', delivers', hsents, -⟩ :=
        receive_spec hemit hpipe
      · exact ⟨Or.inr ⟨err, collect_stops hgot⟩, fun _ _ hclosed => absurd rfl hclosed⟩
      · cases hsents
  | terminal t => exact collect_closing (hemit _ List.mem_cons_self) (if_pos rfl) hpipe
  | @status slot id inst payload rest hrest ih =>
      obtain ⟨err, session', delivers', hgot, hstall⟩ |
        ⟨sent, more, session', delivers', hsents, hgot, hsplit, hsuffix⟩ :=
        receive_spec hemit hpipe
      · refine ⟨Or.inr ⟨err, collect_stops hgot⟩, fun hintact harrived _ => ?_⟩
        cases head_of_stalled harrived (hstall hintact)
      · cases hsents
        have hnext : client.nextRecord = (.ok (.ofSent (.status seq slot id inst payload)),
            client.received session' delivers') := by
          rw [nextRecord, hgot]
          rfl
        have hmore : onRecord seq statuses (.ofSent (.status seq slot id inst payload)) =
            .inr (statuses ++ [⟨slot, id, Inst.result ⟨inst⟩, Inst.alert ⟨inst⟩, payload.bytes⟩]) :=
          if_pos rfl
        have hout := collect_more hnext hmore
        rw [hsplit, List.flatMap_cons] at hpipe
        obtain ⟨hanswered, hcomplete⟩ := @ih
          (fun sent hsent => hemit sent (List.mem_cons_of_mem _ hsent))
          (statuses ++ [⟨slot, id, Inst.result ⟨inst⟩, Inst.alert ⟨inst⟩, payload.bytes⟩])
          (client.received session' delivers')
          ((List.prefix_append_right_inj _).mp hpipe)
        rw [hout, hsplit]
        refine ⟨hanswered, fun hintact harrived hclosed => ?_⟩
        rw [List.flatMap_cons] at harrived
        exact hcomplete (hintact.suffix hsuffix) (List.append_cancel_left harrived) hclosed

theorem collect_answer {seq : UInt16} {sents : List Sent} (h : AnswersTo seq sents)
    (hemit : ∀ sent ∈ sents, sent.Emittable) {client : Client}
    (hpipe : client.session.rx ++ streamed client.pipe.delivers <+: sents.flatMap Sent.bytes) :
    Collected sents (digest [] sents)
      (client.session.rx ++ streamed client.pipe.delivers) (Intact client.pipe.delivers)
      (collect seq [] client) := by
  obtain hstreams | ⟨reason, rfl⟩ := h
  · exact collect_streams hstreams hemit [] hpipe
  · exact collect_closing (hemit _ List.mem_cons_self) (if_pos rfl) hpipe

/-! ## One command -/

/-- A link that owes nobody, between two records. -/
structure AtRest (link : Link) : Prop where
  lockstep : link.Lockstep
  books : link.books = none
  rx : link.server.rx = []
  emits : link.Emits

/-- The records a link sends in the course of some acts. -/
def answer (link : Link) (acts : List LinkAct) : List Sent :=
  ((final Link.step link acts).log.drop link.log.length).flatMap Heard.sent

theorem asks_submit (seq : UInt16) (cmd : Command) :
    asks ((Order.submit cmd).body seq) = some (.command, seq) := by
  cases cmd <;>
    simp [Order.body, Session.commandBytes, u16ToLe, asks, isWireRecord, recSubmit, recWireSend,
      recWireBurst, recWirePulse, recWireTrain, recWireBaud, seqFromLe_toLe]

variable {link : Link} {client : Client} {cmd : Command} {acts : List LinkAct}

theorem AtRest.of_final (rate : BaudRate) (edges : EdgeCapture)
    (hbooks : (final Link.step (.new (.new rate edges)) acts).books = none)
    (hrx : (final Link.step (.new (.new rate edges)) acts).server.rx = []) :
    AtRest (final Link.step (.new (.new rate edges)) acts) where
  lockstep := (Link.follows_final (Link.lockstep_new rate edges) acts).1
  books := hbooks
  rx := hrx
  emits := Link.Emits.final (Link.emits_new (.new rate edges)) acts

/-- A command that is handed over in pieces is answered once it is whole, and only then. -/
theorem AtRest.answers (h : AtRest link) (seq : UInt16)
    (hfits : (Order.submit cmd).size ≤ 510)
    (hdelivered : acts.flatMap LinkAct.delivered <+: sealed ((Order.submit cmd).body seq)) :
    (answer link acts = [] ∧ acts.flatMap LinkAct.delivered ≠
        sealed ((Order.submit cmd).body seq)) ∨
      AnswersTo seq (answer link acts) ∧
        ((final Link.step link acts).books = none ↔ digest [] (answer link acts) ≠ none) ∧
        (final Link.step link acts).server.rx = [] := by
  have hrecord : Link.RecordFits ((Order.submit cmd).body seq) := by
    rw [Link.RecordFits, Order.length_body]
    exact ⟨Order.size_pos _, hfits⟩
  have hframe : frames lenCodec [(Order.submit cmd).body seq] =
      sealed ((Order.submit cmd).body seq) := List.append_nil _
  obtain ⟨done, todo, hdone⟩ := (Link.reads_start h.rx fun record hmem =>
    List.mem_singleton.mp hmem ▸ hrecord).final acts
      (by rw [List.nil_append, hframe]; exact hdelivered)
  obtain ⟨-, entries, hlog, hfollows⟩ := Link.follows_final h.lockstep acts
  have hanswer : answer link acts = entries.flatMap Heard.sent := by
    rw [answer, hlog, List.drop_left]
  have hread : entries.filterMap Heard.reading = done.map some := by
    have hhandled := hdone.handled
    rw [Link.readings, hlog, List.filterMap_append] at hhandled
    exact List.append_cancel_left hhandled
  rw [h.books] at hfollows
  rw [hanswer]
  obtain ⟨rfl, rfl⟩ | ⟨rfl, rfl⟩ := List.singleton_eq_append_iff.mp hdone.split
  · obtain ⟨rfl, -⟩ := nothing_unasked hfollows hread
    refine Or.inl ⟨rfl, fun hwhole => ?_⟩
    have hbytes := hdone.bytes
    have hshort := hdone.holds.1.short _ rfl
    rw [List.nil_append, hwhole] at hbytes
    rw [frames_nil, List.nil_append] at hbytes
    rw [← hbytes] at hshort
    exact absurd hshort (lt_irrefl _)
  · obtain ⟨hanswers, hclosed⟩ := answersTo_of_follows hfollows hread (asks_submit seq cmd)
    exact Or.inr ⟨hanswers, hclosed, hdone.holds.1.eq_nil⟩

/-- What a call of the client comes to on a link that was at rest. -/
structure Exchanged (link : Link) (acts : List LinkAct) (client : Client) (cmd : Command) :
    Prop where
  /-- Nothing, or statuses up to a terminal, or a refusal, all on the command's seq. -/
  sents : answer link acts = [] ∨ AnswersTo client.session.nextSeq (answer link acts)
  /-- The client returns just what was sent back, or its pipe's error. -/
  out : digest [] (answer link acts) = some (client.submit cmd).1 ∧
      (client.submit cmd).2.session.rx = [] ∧ AtRest (final Link.step link acts) ∨
    ∃ err, (client.submit cmd).1 = .error (.pipe err)
  /-- It does return it once the link owes nobody again and the pipe has delivered everything. -/
  complete : acts.flatMap LinkAct.delivered = (client.session.encodeSubmit cmd).2.1 →
    (final Link.step link acts).books = none →
    client.pipe.accepts client.pipe.sent.length = .ok () → Intact client.pipe.delivers →
    streamed client.pipe.delivers = (answer link acts).flatMap Sent.bytes →
    digest [] (answer link acts) = some (client.submit cmd).1

theorem emits_answer (h : AtRest link) : ∀ sent ∈ answer link acts, sent.Emittable := by
  intro sent hsent
  obtain ⟨heard, hheard, hmem⟩ := List.mem_flatMap.mp hsent
  exact (h.emits.final acts) heard (List.mem_of_mem_drop hheard) sent hmem

theorem submit_refused (cmd : Command) {err : PipeError}
    (hsend : client.pipe.accepts client.pipe.sent.length = .error err) :
    (client.submit cmd).1 = .error (.pipe err) := by
  simp only [submit, Pipe.send, hsend]

/-- The client once its command is on its way. -/
def submitted (client : Client) (cmd : Command) : Client where
  pipe := { client.pipe with
    sent := client.pipe.sent ++ [(client.session.encodeSubmit cmd).2.1] }
  session := (client.session.encodeSubmit cmd).2.2

theorem submit_accepted (cmd : Command)
    (hsend : client.pipe.accepts client.pipe.sent.length = .ok ()) :
    client.submit cmd = collect client.session.nextSeq [] (client.submitted cmd) := by
  simp only [submit, Pipe.send, hsend]
  rfl

theorem AtRest.exchanged (h : AtRest link) (hrx : client.session.rx = [])
    (hfits : (Order.submit cmd).size ≤ 510)
    (hdelivered : acts.flatMap LinkAct.delivered <+: (client.session.encodeSubmit cmd).2.1)
    (hpipe : streamed client.pipe.delivers <+: (answer link acts).flatMap Sent.bytes) :
    Exchanged link acts client cmd := by
  have hanswers := h.answers client.session.nextSeq hfits hdelivered
  have hsents : answer link acts = [] ∨ AnswersTo client.session.nextSeq (answer link acts) := by
    obtain ⟨hnone, -⟩ | ⟨hsome, -⟩ := hanswers
    · exact Or.inl hnone
    · exact Or.inr hsome
  have hall : AnswersTo client.session.nextSeq (answer link acts) := by
    obtain hnone | hsome := hsents
    · rw [hnone]
      exact Or.inl .nil
    · exact hsome
  cases hsend : client.pipe.accepts client.pipe.sent.length with
  | error err =>
      refine ⟨hsents, Or.inr ⟨err, submit_refused cmd hsend⟩, fun _ _ haccepts => ?_⟩
      rw [hsend] at haccepts
      cases haccepts
  | ok _ =>
      have hstart : (client.submitted cmd).session.rx ++
          streamed (client.submitted cmd).pipe.delivers = streamed client.pipe.delivers := by
        rw [show (client.submitted cmd).session.rx = client.session.rx from rfl, hrx]
        rfl
      have hcollected := @collect_answer _ _ hall (emits_answer h) (client.submitted cmd)
        (by rw [hstart]; exact hpipe)
      rw [hstart, ← submit_accepted cmd hsend] at hcollected
      obtain ⟨hanswered, hcomplete⟩ := hcollected
      refine ⟨hsents, ?_, fun hwhole hbooks _ hintact hbytes => ?_⟩
      · obtain ⟨hout, hleft⟩ | herr := hanswered
        · obtain ⟨hnone, -⟩ | ⟨-, hclosed, hempty⟩ := hanswers
          · rw [hnone] at hout
            cases hout
          · have hdigest : digest [] (answer link acts) ≠ none := by
              rw [hout]
              exact Option.some_ne_none _
            refine Or.inl ⟨hout, (List.append_eq_nil_iff.mp hleft).1, ?_⟩
            exact ⟨(Link.follows_final h.lockstep acts).1, hclosed.mpr hdigest, hempty,
              h.emits.final acts⟩
        · exact Or.inr herr
      · obtain ⟨-, hpart⟩ | ⟨-, hclosed, -⟩ := hanswers
        · exact absurd hwhole hpart
        · exact hcomplete hintact hbytes (hclosed.mp hbooks)

/-- One command after the other: what happens to the link in the meantime, and what the pipe
delivers in return. -/
structure Round where
  cmd : Command
  acts : List LinkAct
  delivers : List (Except PipeError (List Byte))

def refill (client : Client) (delivers : List (Except PipeError (List Byte))) : Client :=
  { client with pipe := { client.pipe with delivers } }

def converse (state : Link × Client) (round : Round) : Link × Client :=
  (final Link.step state.1 round.acts, ((state.2.refill round.delivers).submit round.cmd).2)

/-- The carrier brings the command to the link and the answer back, in whatever pieces, and
the engine gets done. -/
structure Carried (state : Link × Client) (round : Round) : Prop where
  fits : (Order.submit round.cmd).size ≤ 510
  accepts : state.2.pipe.accepts state.2.pipe.sent.length = .ok ()
  asked : round.acts.flatMap LinkAct.delivered = (state.2.session.encodeSubmit round.cmd).2.1
  closed : (final Link.step state.1 round.acts).books = none
  intact : Intact round.delivers
  answered : streamed round.delivers = (answer state.1 round.acts).flatMap Sent.bytes

/-- The call returns the answer to its own command. -/
structure Paired (state : Link × Client) (round : Round) : Prop where
  answers : AnswersTo state.2.session.nextSeq (answer state.1 round.acts)
  out : digest [] (answer state.1 round.acts) =
    some ((state.2.refill round.delivers).submit round.cmd).1

def Ready (state : Link × Client) : Prop := AtRest state.1 ∧ state.2.session.rx = []

/-- One round: the call is paired, and the next one may begin. -/
theorem Ready.round {state : Link × Client} (h : Ready state) {round : Round}
    (hcarried : Carried state round) : Paired state round ∧ Ready (converse state round) := by
  obtain ⟨hrest, hrx⟩ := h
  obtain ⟨hfits, haccepts, hasked, hclosed, hintact, hanswered⟩ := hcarried
  have hexchanged : Exchanged state.1 round.acts (state.2.refill round.delivers) round.cmd :=
    hrest.exchanged hrx hfits (hasked ▸ List.prefix_rfl) (hanswered ▸ List.prefix_rfl)
  have hout := hexchanged.complete hasked hclosed haccepts hintact hanswered
  refine ⟨⟨?_, hout⟩, ?_⟩
  · obtain hnone | hanswers := hexchanged.sents
    · rw [hnone] at hout
      cases hout
    · exact hanswers
  · obtain ⟨-, hempty, hlast⟩ | ⟨err, herr⟩ := hexchanged.out
    · exact ⟨hlast, hempty⟩
    · -- a pipe's error is no digest
      rw [herr] at hout
      obtain hnone | hstreams | ⟨reason, hrejected⟩ := hexchanged.sents
      · rw [hnone] at hout
        cases hout
      · exact absurd hout (digest_ne_pipe hstreams [] err)
      · rw [hrejected] at hout
        cases hout

/-- Every call of a dialogue of any length returns the answer to its own command, and after it
both ends are at rest: the link owes nobody and neither buffer holds anything. -/
theorem dialogue_is_paired (rate : BaudRate) (edges : EdgeCapture)
    (accepts : ℕ → Except PipeError Unit) {rounds : List Round}
    (hcarried : Transition.Meets converse Carried
      (.new (.new rate edges), ⟨⟨accepts, [], []⟩, .new⟩) rounds) :
    Transition.Meets converse (fun state round => Paired state round ∧ Ready (converse state round))
      (.new (.new rate edges), ⟨⟨accepts, [], []⟩, .new⟩) rounds := by
  refine Transition.Meets.forward converse Ready (fun _ _ hready h => (hready.round h).2)
    (fun _ _ hready h => hready.round h) ⟨⟨?_, rfl, rfl, ?_⟩, rfl⟩ hcarried
  · exact Link.lockstep_new rate edges
  · exact Link.emits_new (.new rate edges)

/-- A response deadline for the engine, closed by the next pump. -/
def deadlineRound : Round where
  cmd := .setResponseDeadline 500
  acts := [.pipe ⟨18, 0, [], 0⟩ [6, 0, 1], .pipe ⟨18, 0, [], 0⟩ [0, 0, 3, 244, 1],
    .pump [⟨18, 90, [], 0⟩, ⟨18, 90, [], 0⟩]]
  delivers := [.ok [13, 0, 0x82, 0], .ok [0, 1, 0, 0, 0, 0, 0, 0, 0, 0, 0]]

/-- And a shorter one after it, on the next seq. -/
def shorterRound : Round where
  cmd := .setResponseDeadline 250
  acts := [.pipe ⟨18, 120, [], 0⟩ [6, 0, 1, 1, 0], .pump [⟨18, 130, [], 0⟩],
    .pipe ⟨18, 140, [], 0⟩ [3, 250, 0], .pump [⟨18, 150, [], 0⟩, ⟨18, 150, [], 0⟩]]
  delivers := [.ok [13, 0, 0x82, 1, 0, 1, 0, 140, 0], .ok [0, 0, 0, 0, 0, 0]]

theorem deadline_is_paired : Transition.Meets converse
    (fun state round => Paired state round ∧ Ready (converse state round))
    (.new (.new .b1000000 .empty), ⟨⟨fun _ => .ok (), [], []⟩, .new⟩)
    [deadlineRound, shorterRound] :=
  dialogue_is_paired .b1000000 .empty (fun _ => .ok ())
    ⟨⟨by decide, rfl, by decide, by decide, by simp [Intact, deadlineRound], by decide⟩,
      ⟨by decide, by decide +kernel, by decide +kernel, by decide, by simp [Intact, shorterRound],
        by decide⟩, trivial⟩

end OpenServo.Client
