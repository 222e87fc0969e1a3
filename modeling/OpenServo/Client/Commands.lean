import OpenServo.Client.Session
import OpenServo.Client.Walk
import OpenServo.Core.Attempt
import OpenServo.Protocol.Build

/-!
# Commands over the pipe

One adapter and one command in flight: a command is submitted, and what the
adapter answers on its seq is collected up to the terminal.
-/

namespace OpenServo

structure Client where
  pipe : Client.Pipe
  session : Client.Session

namespace Client

open Host

/-- The next record, with what is left to deliver. -/
def receive (session : Session) (delivers : List (Except PipeError (List Byte))) :
    Except ClientError Record × Session × List (Except PipeError (List Byte)) :=
  match session.nextRecord with
  | (.ok (some record), session) => (.ok record, session, delivers)
  | (.error err, session) => (.error (.link err), session, delivers)
  | (.ok none, session) =>
      match delivers with
      | [] => (.error (.pipe .stalled), session, [])
      | .error err :: rest => (.error (.pipe err), session, rest)
      | .ok chunk :: rest => receive (session.onBytes chunk) rest
  termination_by structural delivers

def nextRecord : Attempt Client ClientError Record := fun client =>
  let (out, session, delivers) := receive client.session client.pipe.delivers
  (out, { client with session, pipe := { client.pipe with delivers } })

/-- Bytes received and not cut, or still to be delivered. -/
def held (client : Client) : ℕ :=
  client.session.rx.length + Pipe.inFlight client.pipe.delivers

variable {session session' : Session} {delivers delivers' : List (Except PipeError (List Byte))}
  {record : Record}

theorem receive_cut (hcut : session.nextRecord = (.ok (some record), session')) :
    receive session delivers = (.ok record, session', delivers) := by
  cases delivers <;> rw [receive, hcut]

theorem receive_chunk {chunk : List Byte} (hcut : session.nextRecord = (.ok none, session')) :
    receive session (.ok chunk :: delivers) = receive (session'.onBytes chunk) delivers := by
  rw [receive, hcut]

theorem receive_ok (hgot : receive session delivers = (.ok record, session', delivers')) :
    session'.rx.length + Pipe.inFlight delivers' <
      session.rx.length + Pipe.inFlight delivers := by
  induction delivers generalizing session with
  | nil =>
      rcases hcut : session.nextRecord with ⟨err | none | record', session''⟩
      · rw [receive, hcut] at hgot
        cases hgot
      · rw [receive, hcut] at hgot
        cases hgot
      · rw [receive_cut hcut] at hgot
        cases hgot
        exact Nat.add_lt_add_right (Session.nextRecord_some hcut) _
  | cons delivery delivers ih =>
      rcases hcut : session.nextRecord with ⟨err | none | record', session''⟩
      · rw [receive, hcut] at hgot
        cases hgot
      · obtain rfl := Session.nextRecord_none hcut
        cases delivery with
        | error err =>
            rw [receive, hcut] at hgot
            cases hgot
        | ok chunk =>
            rw [receive_chunk hcut] at hgot
            have hrest := ih hgot
            simp only [Session.onBytes, List.length_append] at hrest
            simp only [Pipe.inFlight, List.map_cons, List.sum_cons] at hrest ⊢
            omega
      · rw [receive_cut hcut] at hgot
        cases hgot
        exact Nat.add_lt_add_right (Session.nextRecord_some hcut) _

theorem nextRecord_ok {client client' : Client}
    (hgot : client.nextRecord = (.ok record, client')) : client'.held < client.held := by
  rcases hout : receive client.session client.pipe.delivers with ⟨out, session, delivers⟩
  simp only [nextRecord, hout] at hgot
  cases hgot
  exact receive_ok hout

/-! ## One command -/

/-- The raw digest of one command: streamed statuses and its terminal. -/
structure SubmitReply extends Reply where
  outcome : Outcome
  tick : UInt32
  deriving DecidableEq

/-- One record of the answer ends it, or adds to its statuses. -/
def onRecord (seq : UInt16) (statuses : List Status) (record : Record) :
    Except ClientError SubmitReply ⊕ List Status :=
  let desync := .inl (.error (.link (.desync "a record on the active seq" record)))
  match record with
  | .status s slot id inst payload =>
      if s = seq then .inr (statuses ++ [⟨slot, id, inst.result, inst.alert, payload⟩])
      else desync
  | .terminal s outcome tick _ garble trailing =>
      if s = seq then .inl (.ok ⟨⟨statuses, garble, trailing⟩, outcome, tick⟩) else desync
  | .rejected s reason =>
      if s = seq then .inl (.error (.link (.rejected (.fromByte reason)))) else desync
  | _ => desync

/-- The statuses on the active seq, up to its terminal. -/
def collect (seq : UInt16) (statuses : List Status) (client : Client) :
    Except ClientError SubmitReply × Client :=
  match _hgot : client.nextRecord with
  | (.error err, client) => (.error err, client)
  | (.ok record, client) =>
      match onRecord seq statuses record with
      | .inl out => (out, client)
      | .inr statuses => collect seq statuses client
  termination_by client.held
  decreasing_by exact nextRecord_ok _hgot

section

variable {client client' : Client} {seq : UInt16} {statuses statuses' : List Status}
  {record : Record}

theorem collect_error {err : ClientError} (hgot : client.nextRecord = (.error err, client')) :
    collect seq statuses client = (.error err, client') := by
  unfold collect
  split <;> simp_all

theorem collect_done {out : Except ClientError SubmitReply}
    (hgot : client.nextRecord = (.ok record, client'))
    (hdone : onRecord seq statuses record = .inl out) :
    collect seq statuses client = (out, client') := by
  unfold collect
  split <;> simp_all

theorem collect_more (hgot : client.nextRecord = (.ok record, client'))
    (hmore : onRecord seq statuses record = .inr statuses') :
    collect seq statuses client = collect seq statuses' client' := by
  rw [collect]
  split <;> simp_all

end

/-- Submit one engine command and collect its full answer. -/
def submit (cmd : Command) : Attempt Client ClientError SubmitReply := fun client =>
  let (seq, out, session) := client.session.encodeSubmit cmd
  match client.pipe.send out with
  | (.error err, pipe) => (.error (.pipe err), { pipe, session })
  | (.ok _, pipe) => collect seq [] { pipe, session }

def exchange (id : Id) (inst : Inst) (payload : List Byte) :
    Attempt Client ClientError SubmitReply :=
  submit (.exchange id inst payload)

/-! ## Group commands -/

/-- A silent slot truncates the statuses and names itself. -/
structure Chain where
  statuses : List Status
  timeoutSlot : Option Byte
  deriving DecidableEq

def chainDigest (reply : SubmitReply) : Chain where
  statuses := reply.statuses
  timeoutSlot :=
    match reply.outcome with
    | .timeout slot => some slot
    | _ => none

def gread (ids : List Id) (addr count : UInt16) : Attempt Client ClientError Chain :=
  match Build.greadUniform (List.replicate (ids.length + 8) 0) addr.toNat count.toNat ids with
  | none => .fail (.servo .limit)
  | some (n, p) => do
      let reply ← exchange .broadcast (.instruction .gread 0) (p.take n)
      return chainDigest reply

/-- Each target streams the span list it configured for the slot. -/
def greadProfile (ids : List Id) (slot : Byte) : Attempt Client ClientError Chain :=
  match Build.greadProfileUniform (List.replicate (ids.length + 4) 0) slot ids with
  | none => .fail (.servo .limit)
  | some (n, p) => do
      let reply ← exchange .broadcast (.instruction .gread Inst.flagProfile) (p.take n)
      return chainDigest reply

/-- The payload of a uniform GWRITE, if its builder takes every pair. -/
def gwritePayload (addr : UInt16) (count : Byte) (pairs : List (Id × List Byte)) :
    Option (List Byte) :=
  (Build.gwriteUniform (List.replicate (4 + pairs.length * (1 + count.toNat)) 0) addr.toNat count
    pairs).map fun built => built.2.take built.1

def gwriteFlags (addr : UInt16) (count : Byte) (pairs : List (Id × List Byte)) (flags : Byte) :
    Attempt Client ClientError Unit :=
  match gwritePayload addr count pairs with
  | none => .fail (.servo .limit)
  | some payload => do
      let _ ← exchange .broadcast (.instruction .gwrite flags) payload
      return ()

/-- The fleet applies on the next COMMIT. -/
def gwriteHold (addr : UInt16) (count : Byte) (pairs : List (Id × List Byte)) :
    Attempt Client ClientError Unit :=
  gwriteFlags addr count pairs Inst.flagHold

/-- Applies every held write in the same instant. -/
def commit : Attempt Client ClientError Unit := do
  let _ ← exchange .broadcast (.instruction .commit 0) []
  return ()

/-! ## What a command puts on the pipe -/

theorem nextRecord_sent {client client' : Client} {out : Except ClientError Record}
    (hgot : client.nextRecord = (out, client')) : client'.pipe.sent = client.pipe.sent := by
  rw [← (Prod.mk.inj hgot).2]

theorem collect_sent (seq : UInt16) (statuses : List Status) (client : Client) :
    (collect seq statuses client).2.pipe.sent = client.pipe.sent := by
  induction statuses, client using collect.induct seq with
  | case1 statuses client err client' hgot =>
      rw [collect_error hgot]
      exact nextRecord_sent hgot
  | case2 statuses client record client' hgot out hdone =>
      rw [collect_done hgot hdone]
      exact nextRecord_sent hgot
  | case3 statuses client record client' hgot statuses' hmore ih =>
      rw [collect_more hgot hmore, ih]
      exact nextRecord_sent hgot

/-- One command is one transfer, whatever the answer. -/
theorem submit_sent (cmd : Command) (client : Client) :
    (submit cmd client).2.pipe.sent =
      client.pipe.sent ++ [(client.session.encodeSubmit cmd).2.1] := by
  unfold submit
  dsimp only [Pipe.send]
  cases client.pipe.accepts client.pipe.sent.length with
  | error err => rfl
  | ok _ => exact collect_sent ..

/-! ## What a command never answers -/

/-- The link and the pipe fail in their own words, never in a servo's. -/
theorem receive_avoids (code : ResultCode) (session : Session)
    (delivers : List (Except PipeError (List Byte))) :
    (receive session delivers).1 ≠ .error (.servo code) := by
  induction delivers generalizing session with
  | nil =>
      unfold receive
      split <;> simp
  | cons delivery delivers ih =>
      rcases hcut : session.nextRecord with ⟨err | none | record', session'⟩
      · simp [receive, hcut]
      · cases delivery with
        | error err => simp [receive, hcut]
        | ok chunk =>
            rw [receive_chunk hcut]
            exact ih _
      · simp [receive_cut hcut]

theorem nextRecord_avoids (code : ResultCode) : nextRecord.Avoids (.servo code) :=
  fun client => receive_avoids code client.session client.pipe.delivers

theorem onRecord_avoids (code : ResultCode) {seq : UInt16} {statuses : List Status}
    {record : Record} {out : Except ClientError SubmitReply}
    (hdone : onRecord seq statuses record = .inl out) : out ≠ .error (.servo code) := by
  rintro rfl
  unfold onRecord at hdone
  split at hdone <;> (try split at hdone) <;> simp at hdone

theorem collect_avoids (code : ResultCode) (seq : UInt16) (statuses : List Status)
    (client : Client) : (collect seq statuses client).1 ≠ .error (.servo code) := by
  induction statuses, client using collect.induct seq with
  | case1 statuses client err client' hgot =>
      rw [collect_error hgot]
      have havoids := nextRecord_avoids code client
      rw [hgot] at havoids
      exact fun herr => havoids (congrArg Except.error (Except.error.inj herr))
  | case2 statuses client record client' hgot out hdone =>
      rw [collect_done hgot hdone]
      exact onRecord_avoids code hdone
  | case3 statuses client record client' hgot statuses' hmore ih =>
      rw [collect_more hgot hmore]
      exact ih

theorem submit_avoids (code : ResultCode) (cmd : Command) :
    (submit cmd).Avoids (.servo code) := by
  intro client
  unfold submit
  dsimp only [Pipe.send]
  cases client.pipe.accepts client.pipe.sent.length with
  | error err => simp
  | ok _ => exact collect_avoids code _ [] _

theorem exchange_avoids (code : ResultCode) (id : Id) (inst : Inst) (payload : List Byte) :
    (exchange id inst payload).Avoids (.servo code) :=
  submit_avoids code _

/-- A group command answers in a servo's words only when its builder refuses. -/
theorem gread_avoids (ids : List Id) (addr count : UInt16) :
    (gread ids addr count).Avoids (.servo .range) := by
  unfold gread
  split
  · exact .fail (by simp)
  · exact .bind (exchange_avoids .range _ _ _) fun reply => .pure _ (chainDigest reply)

theorem greadProfile_avoids (ids : List Id) (slot : Byte) :
    (greadProfile ids slot).Avoids (.servo .range) := by
  unfold greadProfile
  split
  · exact .fail (by simp)
  · exact .bind (exchange_avoids .range _ _ _) fun reply => .pure _ (chainDigest reply)

theorem gwriteHold_avoids (addr : UInt16) (count : Byte) (pairs : List (Id × List Byte)) :
    (gwriteHold addr count pairs).Avoids (.servo .range) := by
  unfold gwriteHold gwriteFlags
  split
  · exact .fail (by simp)
  · exact .bind (exchange_avoids .range _ _ _) fun _ => .pure _ ()

theorem commit_avoids : commit.Avoids (.servo .range) :=
  .bind (exchange_avoids .range _ _ _) fun _ => .pure _ ()

/-- A group write that succeeds is one transfer, of a payload its builder took. -/
theorem gwriteHold_ok {addr : UInt16} {count : Byte} {pairs : List (Id × List Byte)}
    {client client' : Client} (hok : gwriteHold addr count pairs client = (.ok (), client')) :
    (gwritePayload addr count pairs).isSome ∧
      ∃ bytes, client'.pipe.sent = client.pipe.sent ++ [bytes] := by
  unfold gwriteHold gwriteFlags at hok
  cases hpayload : gwritePayload addr count pairs with
  | none =>
      rw [hpayload] at hok
      cases hok
  | some payload =>
      rw [hpayload] at hok
      have hsent := submit_sent (.exchange .broadcast (.instruction .gwrite Inst.flagHold) payload)
        client
      rcases hreply : exchange .broadcast (.instruction .gwrite Inst.flagHold) payload client with
        ⟨answer | reply, after⟩
      · dsimp only at hok
        rw [Attempt.bind_error hreply] at hok
        cases hok
      · dsimp only at hok
        rw [Attempt.bind_ok hreply] at hok
        cases hok
        rw [show submit _ client = _ from hreply] at hsent
        exact ⟨rfl, _, hsent⟩

/-! ## A prompt adapter -/

theorem Session.nextRecord_sealed {session : Session} {body more : List Byte} {record : Record}
    (hpos : 0 < body.length) (hbound : body.length < 65536) (hdecode : decode body = .ok record)
    (hrx : session.rx = sealed body ++ more) :
    session.nextRecord = (.ok (some record), { session with rx := more }) := by
  have hsealed : session.rx =
      UInt8.ofNat body.length :: UInt8.ofNat (body.length / 256) :: (body ++ more) := hrx
  have hlen := u16FromLe_ofNat hbound
  have htake : (body ++ more).take body.length = body := List.take_left ..
  have hdrop : (body ++ more).drop body.length = more := List.drop_left ..
  unfold Session.nextRecord
  rw [hsealed]
  dsimp only
  rw [hlen, if_neg (by omega), if_neg (by simp), htake, hdecode, hdrop]

/-- The record that closes a command nobody answered on the wire. -/
def closing (seq : UInt16) : Sent := .terminal seq ⟨.sent, 0, .default⟩

theorem decode_closing (seq : UInt16) :
    decode (closing seq).body = .ok (.terminal seq .sent 0 0 0 false) := by
  have hbody : (closing seq).body = recTerminal :: UInt8.ofNat seq.toNat ::
      UInt8.ofNat (seq.toNat / 256) :: [0, 0, 0, 0, 0, 0, 0, 0, 0, 0] := rfl
  have hseq : seqFromLe (UInt8.ofNat seq.toNat) (UInt8.ofNat (seq.toNat / 256)) = seq :=
    ofNat_u16FromLe seq
  rw [hbody, decode, if_neg (by decide), if_neg (by decide), if_pos rfl]
  dsimp only
  rw [hseq]
  rfl

/-- The next commands, each closed at once. -/
def closings : ℕ → Session → List (Except PipeError (List Byte))
  | 0, _ => []
  | n + 1, session => .ok (closing session.nextSeq).bytes :: closings n session.allocSeq.2

/-- The adapter takes every transfer and closes each of the next commands at once. -/
structure Prompt (n : ℕ) (client : Client) : Prop where
  empty : client.session.rx = []
  accepts : client.pipe.accepts = fun _ => .ok ()
  answers : client.pipe.delivers = closings n client.session

theorem length_closing (seq : UInt16) : (closing seq).body.length = 13 := rfl

theorem Prompt.submit {n : ℕ} {client : Client} (hprompt : Prompt (n + 1) client) (cmd : Command) :
    ∃ reply client', client.submit cmd = (.ok reply, client') ∧ Prompt n client' := by
  obtain ⟨⟨accepts, delivers, sent⟩, ⟨rx, seq⟩⟩ := client
  obtain ⟨hempty, haccepts, hanswers⟩ := hprompt
  dsimp only at hempty haccepts hanswers
  subst hempty haccepts
  let session : Session := (⟨[], seq⟩ : Session).allocSeq.2
  let bytes := ((⟨[], seq⟩ : Session).encodeSubmit cmd).2.1
  let pipe : Pipe := ⟨fun _ => .ok (), closings n session, sent ++ [bytes]⟩
  have hcut : (session.onBytes (closing seq).bytes).nextRecord =
      (.ok (some (.terminal seq .sent 0 0 0 false)), session) :=
    @Session.nextRecord_sealed _ _ [] _ (by rw [length_closing]; omega)
      (by rw [length_closing]; omega) (decode_closing seq) (by rw [List.append_nil]; rfl)
  have hgot : Client.nextRecord ⟨{ pipe with delivers }, session⟩ =
      (.ok (.terminal seq .sent 0 0 0 false), ⟨pipe, session⟩) := by
    have hreceive : receive session delivers =
        (.ok (.terminal seq .sent 0 0 0 false), session, closings n session) := by
      rw [hanswers, closings, receive_chunk rfl, receive_cut hcut]
    rw [Client.nextRecord, hreceive]
  refine ⟨⟨⟨[], 0, false⟩, .sent, 0⟩, ⟨pipe, session⟩, ?_, ⟨rfl, rfl, rfl⟩⟩
  change collect seq [] _ = _
  exact collect_done hgot (by simp [onRecord])

theorem Prompt.gwriteHold {n : ℕ} {client : Client} (hprompt : Prompt (n + 1) client)
    {addr : UInt16} {count : Byte} {pairs : List (Id × List Byte)}
    (hbuilt : (gwritePayload addr count pairs).isSome) :
    ∃ client', client.gwriteHold addr count pairs = (.ok (), client') ∧ Prompt n client' := by
  obtain ⟨payload, hpayload⟩ := Option.isSome_iff_exists.mp hbuilt
  obtain ⟨reply, client', hreply, hrest⟩ :=
    hprompt.submit (.exchange .broadcast (.instruction .gwrite Inst.flagHold) payload)
  refine ⟨client', ?_, hrest⟩
  unfold Client.gwriteHold gwriteFlags
  rw [hpayload]
  exact Attempt.bind_ok hreply

/-- A fresh client of an adapter that closes the next commands at once. -/
def fleet (n : ℕ) : Client := ⟨⟨fun _ => .ok (), closings n .new, []⟩, .new⟩

theorem fleet_prompt (n : ℕ) : Prompt n (fleet n) := ⟨rfl, rfl, rfl⟩

end Client

end OpenServo
