import OpenServo.Host.Delivery
import OpenServo.Host.Exchange

/-!
# Records out

What a server puts on the pipe is bounded by what the engine and the capture can hand
it: a status carries the payload of one frame, a drain at most the cap of either ring.
Every record of every run fits the outbound scratch.
-/

namespace OpenServo.Host

open Ledger

/-- Outbound scratch of the server. -/
def outCap : ℕ := 300

/-- The records that the engine and the capture give rise to. -/
def Sent.Emittable : Sent → Prop
  | .status _ _ _ _ payload => payload.len ≤ maxPayload
  | .edges _ _ falls rises => falls.length ≤ drainMax ∧ rises.length ≤ drainMax
  | _ => True

theorem length_ticks (ticks : List UInt16) :
    (ticks.flatMap fun tick => u16ToLe tick.toNat).length = 2 * ticks.length := by
  induction ticks with
  | nil => rfl
  | cons tick ticks ih =>
      rw [List.flatMap_cons, List.length_append, ih, length_u16ToLe, List.length_cons]
      omega

/-- An emittable record and its length field fit the scratch. -/
theorem Sent.Emittable.length_body {sent : Sent} (h : sent.Emittable) :
    1 ≤ sent.body.length ∧ sent.body.length + 2 ≤ outCap := by
  cases sent with
  | status seq slot id inst payload =>
      have hlen : payload.head.length + payload.tail.length ≤ 252 := h
      simp only [body, seqToLe, FrameBytes.segments, List.length_cons, List.length_append,
        length_u16ToLe, List.length_nil, outCap]
      omega
  | edges overflow now falls rises =>
      obtain ⟨hfalls, hrises⟩ := h
      simp only [drainMax] at hfalls hrises
      simp only [body, u32ToLe, List.length_cons, List.length_append, length_u16ToLe,
        length_ticks, List.length_nil, outCap]
      omega
  | terminal seq terminal =>
      have houtcome : (outcomeBytes terminal.outcome).length = 2 := by
        cases terminal.outcome <;> rfl
      simp only [body, seqToLe, u32ToLe, List.length_cons, List.length_append, length_u16ToLe,
        houtcome, List.length_nil, outCap]
      omega
  | _ =>
      simp only [body, seqToLe, u32ToLe, List.length_cons, List.length_append, length_u16ToLe,
        List.length_nil, outCap]
      omega

/-! ## The payload of a status -/

theorem len_payloadView_le (ring : List Byte) (start n : ℕ) :
    (payloadView ring start n).len ≤ n := by
  simp only [payloadView, FrameBytes.len, List.length_take]
  omega

theorem Framer.payload_of_step {framer framer' : Framer} {ring : List Byte} {cursor : ℕ}
    {frame : Frame} (h : framer.step ring cursor = (.frame frame, framer')) :
    frame.payload.len ≤ maxPayload := by
  simp only [Framer.step, Framer.hunt] at h
  split_ifs at h with hempty hbreak hshort hshape hpart hcrc
  case neg =>
      obtain rfl := Step.frame.inj (congrArg Prod.fst h)
      simp only [Bool.not_eq_eq_eq_not, Bool.not_true, Bool.not_eq_false, Bool.and_eq_true,
        decide_eq_true_eq] at hshape
      obtain ⟨⟨⟨hlow, -⟩, -⟩, -⟩ := hshape
      refine (len_payloadView_le ring _ _).trans ?_
      have hlen := (Framer.byteAt ring (framer.anchor + 2)).toNat_lt
      have hthree : (3 : Byte).toNat = 3 := rfl
      rw [payloadLen, UInt8.toNat_sub_of_le _ _ hlow, hthree, maxPayload]
      omega
  all_goals cases congrArg Prod.fst h

theorem HostBus.payload_of_poll {bus : HostBus} {inp : Inputs} {slot : Byte} {id : Id}
    {inst : Inst} {payload : FrameBytes}
    (h : (bus.poll inp).1 = some (.status slot id inst payload)) : payload.len ≤ maxPayload := by
  have hdone : ∀ bus : HostBus, bus.takeDone.1 ≠ some (.status slot id inst payload) := by
    intro bus
    simp [takeDone]
  have hwire : ∀ bus : HostBus, bus.takeWireDone.1 ≠ some (.status slot id inst payload) := by
    intro bus
    simp [takeWireDone]
  simp only [poll] at h
  split_ifs at h
  · exact absurd h (hdone _)
  · exact absurd h (hwire _)
  · simp only [pollAwait] at h
    split at h
    · cases h
    · rename_i plan _
      obtain ⟨_, -, hwalk⟩ | ⟨before, frame, framer, -, hstep, hwalk⟩ :=
        awaitWalk_invariant inp (fun _ => True) (fun _ _ _ _ _ => trivial)
          (fun _ _ _ _ _ => trivial) (expectedReplies plan.replies)
          (unresolved bus.framer.anchor inp.cursor.toNat inp.ring.length + 1)
          (trivial : (fun _ => True) bus)
      · rw [hwalk] at h
        exact absurd h (hdone _)
      · rw [hwalk, onStatus_eq] at h
        obtain ⟨-, -, -, rfl⟩ := Event.status.inj (Option.some_inj.mp h)
        exact (len_payloadView_le _ _ _).trans (Framer.payload_of_step hstep)
  · exact absurd h (hwire _)
  · exact absurd h (hdone _)

/-! ## Every run -/

namespace Link

variable {link : Link}

/-- Everything the pipe saw of the link is emittable. -/
def Emits (link : Link) : Prop := ∀ heard ∈ link.log, ∀ sent ∈ heard.sent, sent.Emittable

theorem Emits.hear (h : link.Emits) {heard : Heard} (hsent : ∀ sent ∈ heard.sent, sent.Emittable) :
    (link.hear heard).Emits := by
  intro entry hentry
  obtain hentry | hentry := List.mem_append.mp hentry
  · exact h entry hentry
  · rw [List.mem_singleton.mp hentry]
    exact hsent

/-- What the server answers at once. -/
theorem emittable_serve (inp : Inputs) (asked : Asked) :
    ∀ sent ∈ (link.serve inp asked).1, sent.Emittable := by
  have hcall : ∀ owner seq code result,
      ∀ sent ∈ (link.answerCall owner seq code result).1, sent.Emittable := by
    intro owner seq code result sent hsent
    obtain ⟨answer, bus⟩ := result
    cases answer with
    | ok _ => cases hsent
    | error err =>
        obtain rfl := List.mem_singleton.mp hsent
        cases err <;> trivial
  cases asked with
  | wire seq op =>
      cases op with
      | none => simp [serve, Sent.Emittable]
      | some op => exact hcall _ _ _ _
  | submit seq cmd =>
      cases cmd with
      | none => simp [serve, Sent.Emittable]
      | some cmd => exact hcall _ _ _ _
  | edgeDrain max =>
      intro sent hsent
      obtain rfl := List.mem_singleton.mp hsent
      exact ⟨(List.length_take_le _ _).trans (Nat.min_le_right _ _),
        (List.length_take_le _ _).trans (Nat.min_le_right _ _)⟩
  | _ => simp [serve, setRails, Sent.Emittable]

/-- A breach is answered with an UNKNOWN, whatever the buffer held. -/
theorem Emits.breach (h : link.Emits) (rx : List Byte) :
    (({ link with server.rx := rx } : Link).hear .breach).Emits :=
  @Emits.hear { link with server.rx := rx } h _ (by simp [Heard.sent, Sent.Emittable])

theorem Emits.handle (h : link.Emits) (inp : Inputs) (record : List Byte) :
    (link.handle inp record).Emits := by
  have hlog := @log_serve link inp (readRecord record)
  refine @Emits.hear (link.serve inp (readRecord record)).2 ?_ _
    (emittable_serve inp (readRecord record))
  intro heard hheard
  rw [hlog] at hheard
  exact h heard hheard

theorem Emits.extract (h : link.Emits) (inp : Inputs) (fuel : ℕ) :
    (link.extract inp fuel).Emits := by
  induction fuel generalizing link with
  | zero => exact h
  | succ fuel ih =>
      simp only [Link.extract]
      split
      · exact h
      · split
        · exact h.breach []
        · split
          · exact h
          · exact ih (h.handle inp _)

theorem Emits.feed (h : link.Emits) (inp : Inputs) (fuel : ℕ) (bytes : List Byte) :
    (Link.feed inp fuel bytes link).Emits := by
  induction fuel generalizing link bytes with
  | zero => exact h
  | succ fuel ih =>
      simp only [Link.feed]
      split
      · exact h
      · generalize min (rxCap - link.server.rx.length) bytes.length = take
        have hextract := @Emits.extract
          { link with server.rx := link.server.rx ++ bytes.take take } h inp
          (link.server.rx ++ bytes.take take).length
        split
        · exact ih (hextract.breach []) _
        · exact ih hextract _

theorem Emits.onEvent (h : link.Emits) {event : Event}
    (hpayload : ∀ slot id inst payload, event = .status slot id inst payload →
      payload.len ≤ maxPayload) : (link.onEvent event).Emits := by
  cases event with
  | status slot id inst payload =>
      refine h.hear ?_
      simpa [Heard.sent, Sent.Emittable] using hpayload slot id inst payload rfl
  | done terminal =>
      exact @Emits.hear { link with server.active := none } h _
        (by simp [Heard.sent, Sent.Emittable])
  | wireDone tick =>
      exact @Emits.hear { link with server.wireActive := none } h _
        (by simp [Heard.sent, Sent.Emittable])

theorem Emits.pump (h : link.Emits) (reads : List Inputs) : (link.pump reads).Emits := by
  induction reads generalizing link with
  | nil => exact h
  | cons inp reads ih =>
      simp only [Link.pump]
      split
      · exact h
      · rename_i event bus hpoll
        refine ih (@Emits.onEvent { link with bus } h _ ?_)
        rintro slot id inst payload rfl
        exact HostBus.payload_of_poll (congrArg Prod.fst hpoll)

theorem Emits.act (h : link.Emits) (act : LinkAct) : (link.act act).Emits := by
  cases act with
  | pipe inp bytes => exact h.feed inp _ bytes
  | pump reads => exact h.pump reads
  | _ => exact h

theorem Emits.final (h : link.Emits) (acts : List LinkAct) :
    (Ledger.final step link acts).Emits := by
  induction acts generalizing link with
  | nil => exact h
  | cons act acts ih => exact ih (h.act act)

/-- The records a link has put on the pipe. -/
def sent (link : Link) : List Sent := link.log.flatMap Heard.sent

theorem Emits.sent (h : link.Emits) : ∀ sent ∈ link.sent, sent.Emittable := by
  intro sent hsent
  obtain ⟨heard, hheard, hsent⟩ := List.mem_flatMap.mp hsent
  exact h heard hheard sent hsent

theorem emits_new (bus : HostBus) : (new bus).Emits := by simp [Emits, new]

end Link

end OpenServo.Host
