import OpenServo.Core.Mailbox
import OpenServo.Host.Server

/-!
# Actions the adapter acknowledged

ENTER_BOOTLOADER and SET_RAILS are acknowledged while their record is handled and wait in
one slot for the chip to take them.  An action is lost exactly if one of the other kind is
acknowledged right behind it, and with a SET_RAILS the rails mirror is lost too.
-/

namespace OpenServo.Host

open Transition Mailbox

/-! ## What was acknowledged -/

inductive ActionKind where
  | bootloader
  | rails
  deriving DecidableEq, Repr

def AdapterRequest.kind : AdapterRequest → ActionKind
  | .enterBootloader => .bootloader
  | .setRails _ _ => .rails

/-- The request that brings the rails to a mirror. -/
def railsRequest (rails : Byte) : AdapterRequest :=
  .setRails (rails &&& 1 != 0) (rails &&& 2 != 0)

/-- The action an answer acknowledges: the bootloader, or the rails where the mask is not
zero. -/
def acknowledged (asked : Asked) : Sent → List AdapterRequest
  | .bootloaderAck => [.enterBootloader]
  | .railsAck rails =>
      match asked with
      | .setRails _ mask => if mask != 0 then [railsRequest rails] else []
      | _ => []
  | _ => []

/-- The actions acknowledged in an entry of the pipe's log. -/
def Heard.actions : Heard → List AdapterRequest
  | .record bytes answers => answers.flatMap (acknowledged (readRecord bytes))
  | .event _ | .breach => []

/-- The mirror after an action. -/
def mirrored (mirror action : AdapterRequest) : AdapterRequest :=
  if action.kind = .rails then action else mirror

namespace Link

/-- What an act posts to the slot, or takes from it. -/
def events (link : Link) : LinkAct → List (Mailbox.Event AdapterRequest)
  | .takeAdapterRequest => [.take]
  | act => ((link.step act).1.flatMap Heard.actions).map .post

/-- What was acknowledged and what a take returned, in order. -/
def seen (link : Link) : LinkAct → List (Mark AdapterRequest)
  | .takeAdapterRequest => [.took link.takeAdapterRequest.1]
  | act => ((link.step act).1.flatMap Heard.actions).map .posted

def history : Link → List LinkAct → List (Mark AdapterRequest)
  | _, [] => []
  | link, act :: acts => link.seen act ++ history (link.act act) acts

/-! ## The slot -/

/-- `link'` is `link` with more heard on the pipe: the slot holds the last action among it,
and the mirror has followed the rails. -/
structure Posts (link link' : Link) (heard : List Heard) : Prop where
  log : link'.log = link.log ++ heard
  req : link'.server.req =
    run Mailbox.step link.server.req ((heard.flatMap Heard.actions).map .post)
  rails : railsRequest link'.server.rails =
    run mirrored (railsRequest link.server.rails) (heard.flatMap Heard.actions)

variable {link link' : Link}

theorem Posts.trans {last : Link} {heard more : List Heard} (hfirst : Posts link link' heard)
    (hnext : Posts link' last more) : Posts link last (heard ++ more) where
  log := by rw [hnext.log, hfirst.log, List.append_assoc]
  req := by rw [hnext.req, hfirst.req, List.flatMap_append, List.map_append, run_append]
  rails := by rw [hnext.rails, hfirst.rails, List.flatMap_append, run_append]

/-- Nothing is heard, and the slot and the mirror are left alone. -/
theorem Posts.silent (hlog : link'.log = link.log) (hreq : link'.server.req = link.server.req)
    (hrails : link'.server.rails = link.server.rails) : Posts link link' [] where
  log := by rw [hlog, List.append_nil]
  req := hreq
  rails := congrArg railsRequest hrails

/-- Something is heard that acknowledges no action. -/
theorem Posts.unacknowledged {heard : Heard} (hactions : heard.actions = [])
    (hlog : link'.log = link.log ++ [heard]) (hreq : link'.server.req = link.server.req)
    (hrails : link'.server.rails = link.server.rails) : Posts link link' [heard] := by
  have hnone : [heard].flatMap Heard.actions = [] := by
    rw [List.flatMap_singleton, hactions]
  refine ⟨hlog, ?_, ?_⟩
  · rw [hnone]
    exact hreq
  · rw [hnone]
    exact congrArg railsRequest hrails

/-- What the server keeps of the slot and the mirror when it serves a record. -/
structure Keeps (link : Link) (asked : Asked) (out : List Sent × Link) : Prop where
  log : out.2.log = link.log
  req : out.2.server.req =
    run Mailbox.step link.server.req ((out.1.flatMap (acknowledged asked)).map .post)
  rails : railsRequest out.2.server.rails =
    run mirrored (railsRequest link.server.rails) (out.1.flatMap (acknowledged asked))

theorem keeps_answerCall {asked : Asked} (owner : Owner) (seq : UInt16)
    (code : InvalidReason → Byte) (result : Except SubmitError Unit × HostBus) :
    Keeps link asked (link.answerCall owner seq code result) := by
  obtain ⟨verdict, bus⟩ := result
  cases verdict with
  | ok u => cases owner <;> exact ⟨rfl, rfl, rfl⟩
  | error err => cases err <;> exact ⟨rfl, rfl, rfl⟩

theorem keeps_setRails (state mask : Byte) :
    Keeps link (.setRails state mask) (link.setRails state mask) := by
  rw [Link.setRails]
  by_cases hmask : mask = 0
  · subst hmask
    have hsame : link.server.rails &&& ~~~(0 : Byte) ||| state &&& 0 = link.server.rails := by
      rw [UInt8.and_zero, UInt8.or_zero]
      exact UInt8.and_neg_one
    refine ⟨rfl, rfl, ?_⟩
    exact congrArg railsRequest hsame
  · have hmask' : (mask != 0) = true := by simpa using hmask
    refine ⟨?_, ?_, ?_⟩
    · simp only [hmask', if_true]
    · simp only [hmask', if_true, acknowledged, List.flatMap_singleton]
      rfl
    · simp only [hmask', if_true, acknowledged, List.flatMap_singleton]
      rfl

theorem keeps_serve (inp : Inputs) (asked : Asked) : Keeps link asked (link.serve inp asked) := by
  cases asked with
  | setRails state mask => exact keeps_setRails state mask
  | wire seq op =>
      cases op with
      | none => exact ⟨rfl, rfl, rfl⟩
      | some op => exact keeps_answerCall .wire seq _ _
  | submit seq cmd =>
      cases cmd with
      | none => exact ⟨rfl, rfl, rfl⟩
      | some cmd => exact keeps_answerCall .command seq _ _
  | edgeDrain max => exact ⟨rfl, rfl, rfl⟩
  | hello | enterBootloader | captureReset | unknown => exact ⟨rfl, rfl, rfl⟩

theorem posts_handle (inp : Inputs) (record : List Byte) :
    ∃ heard, Posts link (link.handle inp record) heard := by
  have hkeeps := @keeps_serve link inp (readRecord record)
  generalize hserve : link.serve inp (readRecord record) = out at hkeeps
  obtain ⟨answers, next⟩ := out
  have hactions : [Heard.record record answers].flatMap Heard.actions =
      answers.flatMap (acknowledged (readRecord record)) := List.flatMap_singleton _ _
  refine ⟨[.record record answers], ?_⟩
  rw [handle, hserve]
  refine ⟨congrArg (· ++ _) hkeeps.log, ?_, ?_⟩
  · rw [hactions]
    exact hkeeps.req
  · rw [hactions]
    exact hkeeps.rails

theorem posts_breach (rx : List Byte) :
    Posts link ({ link with server.rx := rx }.hear .breach) [.breach] :=
  .unacknowledged rfl rfl rfl rfl

theorem posts_extract (inp : Inputs) (fuel : ℕ) :
    ∃ heard, Posts link (link.extract inp fuel) heard := by
  induction fuel generalizing link with
  | zero => exact ⟨[], .silent rfl rfl rfl⟩
  | succ fuel ih =>
      simp only [extract]
      generalize u16FromLe (link.server.rx.getD 0 0) (link.server.rx.getD 1 0) = len
      split
      · exact ⟨[], .silent rfl rfl rfl⟩
      · split
        · exact ⟨_, posts_breach []⟩
        · split
          · exact ⟨[], .silent rfl rfl rfl⟩
          · obtain ⟨heard, hfirst⟩ :=
              @posts_handle link inp ((link.server.rx.drop 2).take len)
            obtain ⟨more, hrest⟩ :=
              @ih { link.handle inp ((link.server.rx.drop 2).take len) with
                server.rx := link.server.rx.drop (2 + len) }
            have hdropped : Posts (link.handle inp ((link.server.rx.drop 2).take len))
                { link.handle inp ((link.server.rx.drop 2).take len) with
                  server.rx := link.server.rx.drop (2 + len) } [] := .silent rfl rfl rfl
            exact ⟨_, hfirst.trans (hdropped.trans hrest)⟩

theorem posts_feed (inp : Inputs) (fuel : ℕ) (bytes : List Byte) :
    ∃ heard, Posts link (feed inp fuel bytes link) heard := by
  induction fuel generalizing link bytes with
  | zero => exact ⟨[], .silent rfl rfl rfl⟩
  | succ fuel ih =>
      simp only [feed]
      split
      · exact ⟨[], .silent rfl rfl rfl⟩
      · generalize min (rxCap - link.server.rx.length) bytes.length = take
        have hfilled : Posts link { link with server.rx := link.server.rx ++ bytes.take take } [] :=
          .silent rfl rfl rfl
        obtain ⟨heard, hextract⟩ :=
          @posts_extract { link with server.rx := link.server.rx ++ bytes.take take } inp
            (link.server.rx ++ bytes.take take).length
        have hfirst := hfilled.trans hextract
        split
        · have hemptied := hfirst.trans (posts_breach [])
          obtain ⟨more, hrest⟩ := ih (bytes.drop take)
          exact ⟨_, hemptied.trans hrest⟩
        · obtain ⟨more, hrest⟩ := ih (bytes.drop take)
          exact ⟨_, hfirst.trans hrest⟩

theorem posts_onEvent (event : Event) : ∃ heard, Posts link (link.onEvent event) heard := by
  cases event <;> exact ⟨_, .unacknowledged rfl rfl rfl rfl⟩

theorem posts_pump (reads : List Inputs) : ∃ heard, Posts link (link.pump reads) heard := by
  induction reads generalizing link with
  | nil => exact ⟨[], .silent rfl rfl rfl⟩
  | cons inp reads ih =>
      simp only [pump]
      generalize link.bus.poll inp = out
      obtain ⟨event, bus⟩ := out
      cases event with
      | none => exact ⟨[], .silent rfl rfl rfl⟩
      | some event =>
          obtain ⟨heard, hfirst⟩ := @posts_onEvent { link with bus } event
          obtain ⟨more, hrest⟩ := @ih (({ link with bus } : Link).onEvent event)
          have hpolled : Posts link { link with bus } [] := .silent rfl rfl rfl
          exact ⟨_, hpolled.trans (hfirst.trans hrest)⟩

/-- Every act but a take posts what it acknowledges. -/
theorem posts_act (act : LinkAct) (hact : act ≠ .takeAdapterRequest) :
    ∃ heard, Posts link (link.act act) heard := by
  cases act with
  | pipe inp bytes => exact posts_feed inp (2 * bytes.length) bytes
  | pump reads => exact posts_pump reads
  | takeAdapterRequest => exact absurd rfl hact
  | txComplete | deadline | capture => exact ⟨[], .silent rfl rfl rfl⟩

/-! ## The server and its mailbox -/

def posted? : Mailbox.Event AdapterRequest → Option AdapterRequest
  | .post action => some action
  | .take => none

/-- Every act but a take posts a list of actions. -/
theorem events_eq_posts (act : LinkAct) (hact : act ≠ .takeAdapterRequest) :
    link.events act = ((link.step act).1.flatMap Heard.actions).map .post := by
  cases act with
  | takeAdapterRequest => exact absurd rfl hact
  | pipe | pump | txComplete | deadline | capture => rfl

/-- One act is to the slot what its events are to the mailbox. -/
theorem seen_eq (act : LinkAct) :
    link.seen act = marks link.server.req (link.events act) ∧
      (link.act act).server.req = run Mailbox.step link.server.req (link.events act) ∧
      railsRequest (link.act act).server.rails =
        run mirrored (railsRequest link.server.rails) ((link.events act).filterMap posted?) := by
  by_cases hact : act = .takeAdapterRequest
  · subst hact
    exact ⟨rfl, rfl, rfl⟩
  · obtain ⟨heard, hposts⟩ := @posts_act link act hact
    have hstep : (link.step act).1 = heard := by
      rw [step, hposts.log, List.drop_left]
    have hseen : link.seen act = ((link.step act).1.flatMap Heard.actions).map .posted := by
      cases act with
      | takeAdapterRequest => exact absurd rfl hact
      | pipe | pump | txComplete | deadline | capture => rfl
    rw [hseen, events_eq_posts act hact, hstep, marks_posts]
    refine ⟨rfl, hposts.req, ?_⟩
    rw [hposts.rails, List.filterMap_map]
    congr 1
    exact List.filterMap_some.symm

/-- The events of a run. -/
def posted : Link → List LinkAct → List (Mailbox.Event AdapterRequest)
  | _, [] => []
  | link, act :: acts => link.events act ++ posted (link.act act) acts

theorem posted_append (left right : List LinkAct) :
    link.posted (left ++ right) = link.posted left ++ (run act link left).posted right := by
  induction left generalizing link with
  | nil => rfl
  | cons a left ih =>
      rw [List.cons_append, posted, posted, ih, List.append_assoc]
      rfl

theorem posted_initial {done acts : List LinkAct} (h : done <+: acts) :
    link.posted done <+: link.posted acts := by
  obtain ⟨rest, rfl⟩ := h
  rw [posted_append]
  exact List.prefix_append _ _

/-- The link is its mailbox over every run. -/
theorem history_eq (acts : List LinkAct) :
    link.history acts = marks link.server.req (link.posted acts) ∧
      (run act link acts).server.req = run Mailbox.step link.server.req (link.posted acts) ∧
      railsRequest (run act link acts).server.rails =
        run mirrored (railsRequest link.server.rails) ((link.posted acts).filterMap posted?) := by
  induction acts generalizing link with
  | nil => exact ⟨rfl, rfl, rfl⟩
  | cons a acts ih =>
      obtain ⟨hseen, hreq, hrails⟩ := @seen_eq link a
      obtain ⟨hseen', hreq', hrails'⟩ := @ih (link.act a)
      rw [history, posted, run_cons, marks_append, List.filterMap_append, run_append, run_append,
        ← hreq, ← hrails]
      exact ⟨congrArg₂ (· ++ ·) hseen hseen', hreq', hrails'⟩

/-- The mirror is the newest rails action acknowledged. -/
theorem mirrored_eq (start : AdapterRequest) (slot : Option AdapterRequest)
    (events : List (Mailbox.Event AdapterRequest)) :
    run mirrored start (events.filterMap posted?) =
      (newest AdapterRequest.kind Mark.posted? .rails (marks slot events)).getD start := by
  induction events using List.reverseRecOn with
  | nil => rfl
  | append_singleton events event ih =>
      have hmarks : marks slot (events ++ [event]) =
          marks slot events ++ [mark (run Mailbox.step slot events) event] := marks_append _ _ _
      rw [List.filterMap_append, run_append, ih, hmarks, newest_concat]
      cases event with
      | take => rfl
      | post action =>
          show mirrored _ action = _
          cases action <;> rfl

/-! ## Every run -/

/-- What the chip is owed once it has drained the link: every action acknowledged was
returned or superseded by a later one of its kind, and the rails last returned are those of
the mirror, or the rails of boot if none were. -/
structure Delivered (link : Link) (acts : List LinkAct) : Prop where
  drained : (run act link (acts ++ [.takeAdapterRequest])).server.req = none
  served : Mailbox.Served AdapterRequest.kind (link.history (acts ++ [.takeAdapterRequest]))
  rails : (newest AdapterRequest.kind Mark.taken? .rails
      (link.history (acts ++ [.takeAdapterRequest]))).getD (railsRequest railsBootState) =
    railsRequest (run act link (acts ++ [.takeAdapterRequest])).server.rails

theorem delivered_of_spaced (bus : HostBus) {acts : List LinkAct}
    (h : Spaced AdapterRequest.kind ((Link.new bus).posted acts)) :
    Delivered (.new bus) acts := by
  obtain ⟨hseen, hreq, hrails⟩ := @history_eq (.new bus) (acts ++ [.takeAdapterRequest])
  have hposted : (Link.new bus).posted (acts ++ [.takeAdapterRequest]) =
      (Link.new bus).posted acts ++ [.take] := posted_append _ _
  rw [hposted] at hseen hreq hrails
  refine ⟨?_, ?_, ?_⟩
  · rw [hreq, run_append]
    rfl
  · rw [hseen]
    exact served_of_spaced h _
  · rw [hseen, hrails, mirrored_eq _ (Link.new bus).server.req]
    exact congrArg (Option.getD · _) (newest_taken h .rails)

theorem spaced_of_delivered (bus : HostBus) {acts : List LinkAct}
    (h : ∀ done, done <+: acts → Delivered (.new bus) done) :
    Spaced AdapterRequest.kind ((Link.new bus).posted acts) := by
  induction acts using List.reverseRecOn with
  | nil => exact List.isChain_nil
  | append_singleton acts a ih =>
      have hbefore := ih fun done hdone => h done (hdone.trans (List.prefix_append _ _))
      have hposted : (Link.new bus).posted (acts ++ [a]) =
          (Link.new bus).posted acts ++ (run act (Link.new bus) acts).events a := by
        rw [posted_append, posted, posted, List.append_nil]
      by_cases ha : a = .takeAdapterRequest
      · subst ha
        rw [hposted]
        refine List.IsChain.append hbefore (List.isChain_singleton _) fun x _ y hy => ?_
        obtain rfl := Option.some.inj hy
        cases x <;> trivial
      · have hserved := (h _ (List.prefix_refl _)).served
        rw [(history_eq _).1, posted_append, hposted, events_eq_posts a ha] at hserved
        rw [hposted, events_eq_posts a ha]
        exact spaced_append_posts hbefore hserved

/-- Every acknowledged action reaches the chip, and the rails end as the mirror has them, at
every point of a run exactly if no action is acknowledged right behind one of the other
kind, with no take between them. -/
theorem acknowledged_actions_reach_the_chip (bus : HostBus) (acts : List LinkAct) :
    (∀ done, done <+: acts → Delivered (.new bus) done) ↔
      Spaced AdapterRequest.kind ((Link.new bus).posted acts) :=
  ⟨spaced_of_delivered bus, fun h _ hdone =>
    delivered_of_spaced bus <| List.IsChain.prefix h (posted_initial hdone)⟩

/-! ### On the bench -/

section Bench

def quiet : Inputs := ⟨48, 0, [], 0⟩

/-- ENTER_BOOTLOADER, then SET_RAILS with the 5 V rail off, as the pipe carries them. -/
def bootloaderRecord : List Byte := [1, 0, recEnterBootloader]

def railsRecord : List Byte := [3, 0, recSetRails, 0b01, 0b11]

def benchBus : HostBus := .new .b1000000 .empty

theorem acknowledged_actions_reach_the_bench :
    ∀ done, done <+: [.pipe quiet bootloaderRecord, .takeAdapterRequest, .pipe quiet railsRecord] →
      Delivered (.new benchBus) done :=
  (acknowledged_actions_reach_the_chip benchBus _).mpr (by decide +kernel)

/-- Both records in one delivery: both are acknowledged, the bootloader is never entered. -/
theorem bootloader_request_is_lost :
    (Link.new benchBus).history
        [.pipe quiet (bootloaderRecord ++ railsRecord), .takeAdapterRequest] =
      [.posted .enterBootloader, .posted (.setRails true false),
        .took (some (.setRails true false))] ∧
    ¬ Delivered (.new benchBus) [.pipe quiet (bootloaderRecord ++ railsRecord)] := by
  have hseen : (Link.new benchBus).history
        [.pipe quiet (bootloaderRecord ++ railsRecord), .takeAdapterRequest] =
      [.posted .enterBootloader, .posted (.setRails true false),
        .took (some (.setRails true false))] := by
    decide +kernel
  refine ⟨hseen, fun hdelivered => ?_⟩
  obtain htaken | ⟨b, hposted, hkind⟩ := hdelivered.served [] .enterBootloader _ hseen
  · revert htaken
    decide
  · simp only [List.mem_cons, Mark.posted.injEq, reduceCtorEq, List.not_mem_nil, or_false]
      at hposted
    subst hposted
    cases hkind

end Bench

end Link

end OpenServo.Host
