import OpenServo.Host.ExactlyOnce
import OpenServo.Host.Server

/-!
# Every record is answered

The seqs of the server and the owner of the engine move together, so every SUBMIT and
every wire operation is answered once on its own seq: at once with a REJECTED, or
later with the record of its closing event.
-/

namespace OpenServo.Host

open Ledger

/-- What a record asks for, when it is long enough to carry a seq. -/
def asks : List Byte → Option (Owner × UInt16)
  | rtype :: s0 :: s1 :: rest =>
      if isWireRecord rtype then some (.wire, seqFromLe s0 s1)
      else if rtype = recSubmit ∧ rest ≠ [] then some (.command, seqFromLe s0 s1)
      else none
  | _ => none

/-- The record that closes what was asked. -/
def closes : Owner × UInt16 → Heard → Prop
  | (.command, seq), heard => ∃ terminal, heard = .event (.terminal seq terminal)
  | (.wire, seq), heard => ∃ tick, heard = .event (.wireDone seq tick)

/-- The lawful entries of the pipe's log, and who owns the engine, on which seq, after
each of them. -/
inductive LinkLaw : Option (Owner × UInt16) → Heard → Option (Owner × UInt16) → Prop where
  | accepted {record : List Byte} {asked : Owner × UInt16} :
      asks record = some asked → LinkLaw none (.record record []) (some asked)
  | rejected {record : List Byte} {asked : Owner × UInt16} (reason : Byte)
      (books : Option (Owner × UInt16)) : asks record = some asked →
      LinkLaw books (.record record [.rejected asked.2 reason]) books
  | other {record : List Byte} {sent : Sent} (books : Option (Owner × UInt16)) :
      asks record = none → sent.seq? = none → LinkLaw books (.record record [sent]) books
  | status (seq : UInt16) (slot id inst : Byte) (payload : FrameBytes) :
      LinkLaw (some (.command, seq)) (.event (.status seq slot id inst payload))
        (some (.command, seq))
  | terminal (seq : UInt16) (terminal : Terminal) :
      LinkLaw (some (.command, seq)) (.event (.terminal seq terminal)) none
  | wireDone (seq : UInt16) (tick : UInt32) :
      LinkLaw (some (.wire, seq)) (.event (.wireDone seq tick)) none
  | breach (books : Option (Owner × UInt16)) : LinkLaw books .breach books

namespace Link

variable {link link' : Link}

/-- Who owns the engine, and on which seq. -/
def books (link : Link) : Option (Owner × UInt16) :=
  match link.bus.owner with
  | none => none
  | some .command => link.server.active.map fun seq => (.command, seq)
  | some .wire => link.server.wireActive.map fun seq => (.wire, seq)

/-- The seqs are kept exactly while the engine works for them. -/
structure Lockstep (link : Link) : Prop where
  bus : link.bus.Sound
  active : link.server.active.isSome = true ↔ link.bus.owner = some .command
  wire : link.server.wireActive.isSome = true ↔ link.bus.owner = some .wire

theorem lockstep_new (rate : BaudRate) (edges : EdgeCapture) :
    (new (HostBus.new rate edges)).Lockstep where
  bus := HostBus.sound_new rate edges
  active := by simp [new, LinkServer.new, HostBus.new, HostBus.owner, State.owner]
  wire := by simp [new, LinkServer.new, HostBus.new, HostBus.owner, State.owner]

theorem Lockstep.books_none (h : link.Lockstep) : link.books = none ↔ link.bus.owner = none := by
  rw [books]
  cases howner : link.bus.owner with
  | none => simp
  | some owner =>
      cases owner with
      | command =>
          obtain ⟨seq, hseq⟩ := Option.isSome_iff_exists.mp (h.active.mpr howner)
          simp [hseq]
      | wire =>
          obtain ⟨seq, hseq⟩ := Option.isSome_iff_exists.mp (h.wire.mpr howner)
          simp [hseq]

/-- Some of what the link does, at the cost of so much of the engine's rank. -/
structure Steps (link link' : Link) (cost : ℕ) : Prop where
  lockstep : link'.Lockstep
  log : ∃ entries, link'.log = link.log ++ entries ∧
    Follows LinkLaw link.books entries link'.books ∧
    ∀ asked, link.books = some asked → (∃ heard ∈ entries, closes asked heard) ∨
      link'.books = some asked ∧ link'.bus.rank + cost ≤ link.bus.rank

theorem Steps.refl (h : link.Lockstep) : Steps link link 0 :=
  ⟨h, [], by simp, .nil _, fun _ hasked => Or.inr ⟨hasked, le_rfl⟩⟩

theorem Steps.trans {last : Link} {cost cost' : ℕ} (hfirst : Steps link link' cost)
    (hnext : Steps link' last cost') : Steps link last (cost + cost') := by
  obtain ⟨-, entries, hlog, hfollows, hrank⟩ := hfirst
  obtain ⟨hlock, entries', hlog', hfollows', hrank'⟩ := hnext
  refine ⟨hlock, entries ++ entries', by rw [hlog', hlog, List.append_assoc],
    hfollows.append hfollows', fun asked hasked => ?_⟩
  obtain ⟨heard, hmem, hcloses⟩ | ⟨hkept, hle⟩ := hrank asked hasked
  · exact Or.inl ⟨heard, List.mem_append_left _ hmem, hcloses⟩
  · obtain ⟨heard, hmem, hcloses⟩ | ⟨hkept', hle'⟩ := hrank' asked hkept
    · exact Or.inl ⟨heard, List.mem_append_right _ hmem, hcloses⟩
    · exact Or.inr ⟨hkept', by omega⟩

theorem Steps.mono {cost cost' : ℕ} (h : Steps link link' cost) (hle : cost' ≤ cost) :
    Steps link link' cost' := by
  obtain ⟨hlock, entries, hlog, hfollows, hrank⟩ := h
  refine ⟨hlock, entries, hlog, hfollows, fun asked hasked => ?_⟩
  obtain hcloses | ⟨hkept, hle'⟩ := hrank asked hasked
  · exact Or.inl hcloses
  · exact Or.inr ⟨hkept, by omega⟩

/-! ## In step with the engine -/

theorem Lockstep.of_same_owner {bus : HostBus} (h : link.Lockstep) (hsound : bus.Sound)
    (howner : bus.owner = link.bus.owner) :
    ({ link with bus } : Link).Lockstep ∧ ({ link with bus } : Link).books = link.books :=
  ⟨⟨hsound, by rw [h.active, howner], by rw [h.wire, howner]⟩, by simp only [books, howner]⟩

theorem Lockstep.owned {owner : Owner} {seq : UInt16} {bus : HostBus} (h : link.Lockstep)
    (hfree : link.bus.owner = none) (hsound : bus.Sound) (howner : bus.owner = some owner) :
    (link.owned seq bus owner).Lockstep ∧
      (link.owned seq bus owner).books = some (owner, seq) := by
  have hactive : link.server.active = none := by
    by_contra hsome
    rw [h.active.mp (Option.isSome_iff_ne_none.mpr hsome)] at hfree
    cases hfree
  have hwire : link.server.wireActive = none := by
    by_contra hsome
    rw [h.wire.mp (Option.isSome_iff_ne_none.mpr hsome)] at hfree
    cases hfree
  cases owner with
  | command =>
      exact ⟨⟨hsound, by simp [Link.owned, howner], by simp [Link.owned, howner, hwire]⟩,
        by simp [Link.owned, books, howner]⟩
  | wire =>
      exact ⟨⟨hsound, by simp [Link.owned, howner, hactive], by simp [Link.owned, howner]⟩,
        by simp [Link.owned, books, howner]⟩

/-! ## Records in -/

/-- Who a record asks the engine to work for, and on which seq. -/
def asksFor : Asked → Option (Owner × UInt16)
  | .submit seq _ => some (.command, seq)
  | .wire seq _ => some (.wire, seq)
  | _ => none

theorem asks_eq (record : List Byte) : asks record = asksFor (readRecord record) := by
  cases record with
  | nil => rfl
  | cons rtype body =>
      by_cases hhello : rtype = recHello
      · subst hhello
        rcases body with _ | ⟨s0, _ | ⟨s1, rest⟩⟩ <;> rfl
      · by_cases hboot : rtype = recEnterBootloader
        · subst hboot
          rcases body with _ | ⟨s0, _ | ⟨s1, rest⟩⟩ <;> rfl
        · simp only [readRecord, if_neg hhello, if_neg hboot]
          by_cases hwire : isWireRecord rtype = true
          · rcases body with _ | ⟨s0, _ | ⟨s1, rest⟩⟩ <;> simp [asks, hwire, asksFor]
          · by_cases hreset : rtype = recCaptureReset
            · subst hreset
              rcases body with _ | ⟨s0, _ | ⟨s1, rest⟩⟩ <;> rfl
            · by_cases hsubmit : rtype = recSubmit
              · subst hsubmit
                rcases body with _ | ⟨s0, _ | ⟨s1, _ | ⟨verb, args⟩⟩⟩ <;> rfl
              · rcases body with _ | ⟨s0, _ | ⟨s1, rest⟩⟩ <;>
                  simp only [asks, hwire, hreset, hsubmit, if_false, false_and] <;>
                  split_ifs <;> rfl

/-- What handling a record may do: answer it at once and leave the books alone, or
take it up in silence. -/
structure Serves (link : Link) (asked : Asked) (out : List Sent × Link) : Prop where
  lockstep : out.2.Lockstep
  log : out.2.log = link.log
  answer : (asksFor asked = none ∧ (∃ sent : Sent, out.1 = [sent] ∧ sent.seq? = none) ∧
      out.2.books = link.books) ∨
    ∃ who, asksFor asked = some who ∧
      ((∃ reason, out.1 = [.rejected who.2 reason]) ∧ out.2.books = link.books ∨
        out.1 = [] ∧ link.books = none ∧ out.2.books = some who)
  rank : link.books.isSome = true → out.2.bus.rank = link.bus.rank

/-- An answer that leaves owner and seqs as they are. -/
theorem served_at_once {asked : Asked} {sent : Sent} {link' : Link} (h : link.Lockstep)
    (hsound : link'.bus.Sound) (howner : link'.bus.owner = link.bus.owner)
    (hrank : link'.bus.rank = link.bus.rank) (hactive : link'.server.active = link.server.active)
    (hwire : link'.server.wireActive = link.server.wireActive) (hlog : link'.log = link.log)
    (hanswer : (asksFor asked = none ∧ sent.seq? = none) ∨
      ∃ who reason, asksFor asked = some who ∧ sent = .rejected who.2 reason) :
    Serves link asked ([sent], link') := by
  have hbooks : link'.books = link.books := by simp only [books, howner, hactive, hwire]
  refine ⟨⟨hsound, by rw [hactive, howner]; exact h.active, by rw [hwire, howner]; exact h.wire⟩,
    hlog, ?_, fun _ => hrank⟩
  obtain ⟨hnone, hseq⟩ | ⟨who, reason, hwho, rfl⟩ := hanswer
  · exact Or.inl ⟨hnone, ⟨sent, rfl, hseq⟩, hbooks⟩
  · exact Or.inr ⟨who, hwho, Or.inl ⟨⟨reason, rfl⟩, hbooks⟩⟩

/-- A call to the engine on a seq: taken up, or rejected on that seq. -/
theorem served_call {asked : Asked} {owner : Owner} {seq : UInt16} {code : InvalidReason → Byte}
    {result : Except SubmitError Unit × HostBus} (h : link.Lockstep)
    (hasked : asksFor asked = some (owner, seq))
    (hresult : HostBus.Answered link.bus owner result) :
    Serves link asked (link.answerCall owner seq code result) := by
  obtain ⟨answer, bus⟩ := result
  obtain ⟨hlaw, hsound, hkept⟩ := hresult
  have hfree := h.books_none
  cases answer with
  | ok _ =>
      generalize hbefore : link.bus.owner = before at hlaw
      generalize hafter : bus.owner = after at hlaw
      cases hlaw
      obtain ⟨hlock, hbooks⟩ := h.owned hbefore hsound hafter
      refine ⟨hlock, by cases owner <;> rfl, Or.inr ⟨_, hasked, Or.inr ⟨rfl, ?_, hbooks⟩⟩, ?_⟩
      · exact hfree.mpr hbefore
      · intro hsome
        rw [hfree.mpr hbefore] at hsome
        cases hsome
  | error err =>
      have howner : bus.owner = link.bus.owner := by
        simp only at hlaw
        generalize hbefore : link.bus.owner = before at hlaw ⊢
        generalize hafter : bus.owner = after at hlaw ⊢
        cases hlaw <;> rfl
      obtain ⟨hlock, hbooks⟩ := h.of_same_owner hsound howner
      have hrefusal : ∃ reason, refusal seq code err = .rejected seq reason := by
        cases err <;> exact ⟨_, rfl⟩
      obtain ⟨reason, hreason⟩ := hrefusal
      refine ⟨hlock, rfl, Or.inr ⟨_, hasked, Or.inl ⟨⟨reason, congrArg ([·]) hreason⟩, hbooks⟩⟩, ?_⟩
      intro hsome
      have hbus : bus = link.bus := by
        apply hkept
        rw [Option.isSome_iff_ne_none] at hsome ⊢
        exact fun hnone => hsome (hfree.mpr hnone)
      exact congrArg HostBus.rank hbus

theorem served_serve (h : link.Lockstep) (inp : Inputs) (asked : Asked) :
    Serves link asked (link.serve inp asked) := by
  cases asked with
  | hello | enterBootloader | unknown rtype =>
      exact served_at_once h h.bus rfl rfl rfl rfl rfl (Or.inl ⟨rfl, rfl⟩)
  | setRails state mask =>
      simp only [serve, setRails]
      split <;> exact served_at_once h h.bus rfl rfl rfl rfl rfl (Or.inl ⟨rfl, rfl⟩)
  | wire seq op =>
      cases op with
      | none => exact served_at_once h h.bus rfl rfl rfl rfl rfl (Or.inr ⟨_, _, rfl, rfl⟩)
      | some op => exact served_call h rfl (HostBus.answered_wireOp h.bus inp op)
  | submit seq cmd =>
      cases cmd with
      | none => exact served_at_once h h.bus rfl rfl rfl rfl rfl (Or.inr ⟨_, _, rfl, rfl⟩)
      | some cmd => exact served_call h rfl (HostBus.answered_submit h.bus inp cmd)
  | edgeDrain max | captureReset =>
      have hbus := h.bus
      exact served_at_once h ⟨hbus.alone, hbus.single, hbus.planned, hbus.staged, hbus.drive⟩
        rfl rfl rfl rfl rfl (Or.inl ⟨rfl, rfl⟩)

theorem steps_handle (h : link.Lockstep) (inp : Inputs) (record : List Byte) :
    Steps link (link.handle inp record) 0 := by
  have hserves := served_serve h inp (readRecord record)
  simp only [handle]
  generalize link.serve inp (readRecord record) = out at hserves
  obtain ⟨answers, link'⟩ := out
  obtain ⟨hlock, hlog, hanswer, hrank⟩ := hserves
  rw [← asks_eq] at hanswer
  have hbooks : (link'.hear (.record record answers)).books = link'.books := rfl
  refine ⟨⟨hlock.bus, hlock.active, hlock.wire⟩, [.record record answers], ?_, ?_, ?_⟩
  · rw [hear, hlog]
  · refine .cons ?_ (.nil _)
    rw [hbooks]
    obtain ⟨hnone, ⟨sent, rfl, hseq⟩, hkept⟩ | ⟨who, hwho, hcase⟩ := hanswer
    · rw [hkept]
      exact .other _ hnone hseq
    · obtain ⟨⟨reason, rfl⟩, hkept⟩ | ⟨rfl, hfree, htaken⟩ := hcase
      · rw [hkept]
        exact .rejected reason _ hwho
      · rw [hfree, htaken]
        exact .accepted hwho
  · intro asked hasked
    refine Or.inr ⟨?_, le_of_eq (hrank (by rw [hasked]; rfl))⟩
    rw [hbooks]
    obtain ⟨-, -, hkept⟩ | ⟨who, -, ⟨-, hkept⟩ | ⟨-, hfree, -⟩⟩ := hanswer
    · rw [hkept, hasked]
    · rw [hkept, hasked]
    · rw [hfree] at hasked
      cases hasked

/-- What is in the buffer concerns neither the books nor the rank. -/
theorem Steps.withRx {cost : ℕ} (h : Steps link link' cost) (rx : List Byte) :
    Steps link { link' with server.rx := rx } cost :=
  ⟨⟨h.lockstep.bus, h.lockstep.active, h.lockstep.wire⟩, h.log⟩

theorem steps_breach (h : link.Lockstep) (rx : List Byte) :
    Steps link (({ link with server.rx := rx } : Link).hear .breach) 0 :=
  ⟨⟨h.bus, h.active, h.wire⟩, [.breach], rfl, .cons (.breach _) (.nil _),
    fun _ hasked => Or.inr ⟨hasked, le_rfl⟩⟩

theorem steps_extract (h : link.Lockstep) (inp : Inputs) (fuel : ℕ) :
    Steps link (link.extract inp fuel) 0 := by
  induction fuel generalizing link with
  | zero => exact .refl h
  | succ fuel ih =>
      simp only [extract]
      generalize u16FromLe (link.server.rx.getD 0 0) (link.server.rx.getD 1 0) = len
      split
      · exact .refl h
      · split
        · exact steps_breach h []
        · split
          · exact .refl h
          · have hfirst := (steps_handle h inp ((link.server.rx.drop 2).take len)).withRx
              (link.server.rx.drop (2 + len))
            exact hfirst.trans (ih hfirst.lockstep)

/-- Whatever bytes the pipe delivers, well formed or not. -/
theorem steps_feed (h : link.Lockstep) (inp : Inputs) (fuel : ℕ) (bytes : List Byte) :
    Steps link (feed inp fuel bytes link) 0 := by
  induction fuel generalizing link bytes with
  | zero => exact .refl h
  | succ fuel ih =>
      simp only [feed]
      split
      · exact .refl h
      · generalize min (rxCap - link.server.rx.length) bytes.length = take
        have hfilled := (Steps.refl h).withRx (link.server.rx ++ bytes.take take)
        have hfirst := hfilled.trans (steps_extract hfilled.lockstep inp
          (link.server.rx ++ bytes.take take).length)
        split
        · have hemptied := hfirst.trans (steps_breach hfirst.lockstep [])
          exact hemptied.trans (ih hemptied.lockstep _)
        · exact hfirst.trans (ih hfirst.lockstep _)

/-- The records the log shows to have been handled. -/
def received (link : Link) : List (List Byte) :=
  link.log.filterMap fun heard =>
    match heard with
    | .record record _ => some record
    | _ => none

/-! ## Events out -/

/-- A call that is no event changes neither the seqs nor what they stand for. -/
theorem steps_silent {bus : HostBus} {awaited : Bool} (h : link.Lockstep)
    (hmoves : HostBus.Moves link.bus awaited (.nothing, bus)) :
    Steps link { link with bus } (if awaited then 1 else 0) := by
  obtain ⟨hlaw, hsound, hranked⟩ := hmoves
  have howner : bus.owner = link.bus.owner := by
    simp only at hlaw
    generalize link.bus.owner = before at hlaw
    generalize bus.owner = after at hlaw
    cases hlaw
    rfl
  obtain ⟨hlock, hbooks⟩ := h.of_same_owner hsound howner
  refine ⟨hlock, [], by simp, ?_, fun asked hasked => ?_⟩
  · rw [hbooks]
    exact .nil _
  · have hsome : link.bus.owner.isSome = true := by
      rw [Option.isSome_iff_ne_none]
      intro hnone
      rw [h.books_none.mpr hnone] at hasked
      cases hasked
    exact Or.inr ⟨hbooks.trans hasked, hranked hsome (by rw [howner]; exact hsome)⟩

/-- Every event of the engine is put on the pipe on the seq that owns the engine. -/
theorem steps_onEvent {event : Event} {bus : HostBus} {awaited : Bool} (h : link.Lockstep)
    (hmoves : HostBus.Moves link.bus awaited (.event event, bus)) :
    Steps link (({ link with bus } : Link).onEvent event) (if awaited then 1 else 0) := by
  obtain ⟨hlaw, hsound, hranked⟩ := hmoves
  simp only at hlaw hsound hranked
  generalize hbefore : link.bus.owner = before at hlaw hranked
  generalize hafter : bus.owner = after at hlaw hranked
  cases hlaw with
  | status slot id inst payload =>
      obtain ⟨hlock, hsame⟩ := h.of_same_owner hsound (hafter.trans hbefore.symm)
      obtain ⟨seq, hseq⟩ := Option.isSome_iff_exists.mp (h.active.mpr hbefore)
      have hbooks : link.books = some (.command, seq) := by simp [books, hbefore, hseq]
      have hbooks' : (({ link with bus } : Link).onEvent (.status slot id inst payload)).books =
          some (.command, seq) := hsame.trans hbooks
      refine ⟨⟨hlock.bus, hlock.active, hlock.wire⟩, [_], rfl, ?_, fun asked hasked => ?_⟩
      · rw [hbooks, hbooks', hseq]
        exact .cons (.status seq slot id.byte inst.byte payload) (.nil _)
      · exact Or.inr ⟨hbooks'.trans (hbooks.symm.trans hasked), hranked rfl rfl⟩
  | done terminal =>
      obtain ⟨seq, hseq⟩ := Option.isSome_iff_exists.mp (h.active.mpr hbefore)
      have hbooks : link.books = some (.command, seq) := by simp [books, hbefore, hseq]
      have hbooks' : (({ link with bus } : Link).onEvent (.done terminal)).books = none := by
        simp [onEvent, hear, books, hafter]
      have hwire : ¬ link.server.wireActive.isSome = true := by simp [h.wire, hbefore]
      refine ⟨⟨hsound, ?_, ?_⟩, [_], rfl, ?_, fun asked hasked => ?_⟩
      · simp [onEvent, hear, hafter]
      · simpa [onEvent, hear, hafter] using hwire
      · rw [hbooks, hbooks', hseq]
        exact .cons (.terminal seq terminal) (.nil _)
      · obtain rfl : (Owner.command, seq) = asked := Option.some_inj.mp (hbooks.symm.trans hasked)
        exact Or.inl ⟨_, List.mem_singleton_self _, terminal, by rw [hseq]; rfl⟩
  | wireDone tick =>
      obtain ⟨seq, hseq⟩ := Option.isSome_iff_exists.mp (h.wire.mpr hbefore)
      have hbooks : link.books = some (.wire, seq) := by simp [books, hbefore, hseq]
      have hbooks' : (({ link with bus } : Link).onEvent (.wireDone tick)).books = none := by
        simp [onEvent, hear, books, hafter]
      have hactive : ¬ link.server.active.isSome = true := by simp [h.active, hbefore]
      refine ⟨⟨hsound, ?_, ?_⟩, [_], rfl, ?_, fun asked hasked => ?_⟩
      · simpa [onEvent, hear, hafter] using hactive
      · simp [onEvent, hear, hafter]
      · rw [hbooks, hbooks', hseq]
        exact .cons (.wireDone seq tick) (.nil _)
      · obtain rfl : (Owner.wire, seq) = asked := Option.some_inj.mp (hbooks.symm.trans hasked)
        exact Or.inl ⟨_, List.mem_singleton_self _, tick, by rw [hseq]; rfl⟩

/-- The cost of a pump is that of its first poll. -/
theorem steps_pump (h : link.Lockstep) (reads : List Inputs) :
    Steps link (link.pump reads) (match reads with
      | [] => 0
      | inp :: _ => if link.bus.awaited (inp, .poll) then 1 else 0) := by
  induction reads generalizing link with
  | nil => exact .refl h
  | cons inp reads ih =>
      have hmoves := HostBus.moves_poll h.bus inp
      simp only [pump]
      generalize link.bus.poll inp = out at hmoves
      obtain ⟨event, bus⟩ := out
      cases event with
      | none => exact steps_silent h hmoves
      | some event =>
          have hfirst := steps_onEvent h hmoves
          exact (hfirst.trans (ih hfirst.lockstep)).mono (Nat.le_add_right _ _)

/-! ## Any order of calls -/

/-- Is it the call the outstanding operation waits for? -/
def awaited (link : Link) : LinkAct → Bool
  | .pump (inp :: _) => link.bus.awaited (inp, .poll)
  | .txComplete inp => link.bus.awaited (inp, .txComplete)
  | .deadline inp => link.bus.awaited (inp, .deadline)
  | _ => false

/-- Every act keeps the seqs and the owner together and the log lawful. -/
theorem steps_act (h : link.Lockstep) (act : LinkAct) :
    Steps link (link.act act) (if link.awaited act then 1 else 0) := by
  cases act with
  | pipe inp bytes => exact steps_feed h inp (2 * bytes.length) bytes
  | pump reads =>
      cases reads with
      | nil => exact .refl h
      | cons inp reads => exact steps_pump h (inp :: reads)
  | txComplete inp => exact steps_silent h (HostBus.moves_txComplete h.bus inp)
  | deadline inp => exact steps_silent h (HostBus.moves_deadline h.bus inp)
  | takeAdapterRequest =>
      exact ⟨⟨h.bus, h.active, h.wire⟩, [], by simp [act, takeAdapterRequest], .nil _,
        fun _ hasked => Or.inr ⟨hasked, le_rfl⟩⟩
  | capture edges =>
      have hbus := h.bus
      exact ⟨⟨⟨hbus.alone, hbus.single, hbus.planned, hbus.staged, hbus.drive⟩, h.active, h.wire⟩,
        [], by simp [act], .nil _, fun _ hasked => Or.inr ⟨hasked, le_rfl⟩⟩

/-! ## Every run -/

theorem follows_final (h : link.Lockstep) (acts : List LinkAct) :
    (final step link acts).Lockstep ∧ ∃ entries, (final step link acts).log = link.log ++ entries ∧
      Follows LinkLaw link.books entries (final step link acts).books := by
  induction acts generalizing link with
  | nil => exact ⟨h, [], by simp [final], .nil _⟩
  | cons act acts ih =>
      have hstep := steps_act h act
      obtain ⟨entries, hlog, hfollows, -⟩ := hstep.log
      obtain ⟨hlock, entries', hlog', hfollows'⟩ := ih hstep.lockstep
      refine ⟨hlock, entries ++ entries', ?_, hfollows.append hfollows'⟩
      change (final step (link.act act) acts).log = _
      rw [hlog', hlog, List.append_assoc]

/-- The awaited acts bring the closing record. -/
theorem progress_of_lockstep (h : link.Lockstep) {asked : Owner × UInt16} {more : List LinkAct}
    (howned : link.books = some asked)
    (henough : link.bus.rank ≤ awaitedCount step awaited link more) :
    ∃ entries ∈ outputs step link more, ∃ heard ∈ entries, closes asked heard := by
  refine exists_output_of_rank step Lockstep (fun link => link.books = some asked)
    (fun link _ _ => link.bus.rank_pos) ?_ h howned henough
  intro link act hlock howned
  have hstep := steps_act hlock act
  obtain ⟨entries, hlog, -, hrank⟩ := hstep.log
  refine ⟨hstep.lockstep, ?_⟩
  have hentries : (link.step act).1 = entries := by rw [step, hlog, List.drop_left]
  rw [hentries]
  exact hrank asked howned

end Link

/-! ## The law, read off a log -/

/-- Under an owner only its closing record changes the books. -/
theorem LinkLaw.keeps {asked : Owner × UInt16} {heard : Heard} {next : Option (Owner × UInt16)}
    (h : LinkLaw (some asked) heard next) : closes asked heard ∨ next = some asked := by
  cases h with
  | terminal seq terminal => exact Or.inl ⟨terminal, rfl⟩
  | wireDone seq tick => exact Or.inl ⟨tick, rfl⟩
  | _ => exact Or.inr rfl

theorem LinkLaw.next_of_closing {asked : Owner × UInt16} {heard : Heard}
    {next : Option (Owner × UInt16)} (h : LinkLaw (some asked) heard next)
    (hclosing : closes asked heard) : next = none := by
  obtain ⟨owner, seq⟩ := asked
  cases owner with
  | command =>
      obtain ⟨terminal, rfl⟩ := hclosing
      cases h
      rfl
  | wire =>
      obtain ⟨tick, rfl⟩ := hclosing
      cases h
      rfl

/-- Nobody comes to own the engine but by a record that asked for it. -/
theorem LinkLaw.opens {asked : Owner × UInt16} {heard : Heard} {before : Option (Owner × UInt16)}
    (h : LinkLaw before heard (some asked)) :
    (∃ record, heard = .record record [] ∧ asks record = some asked) ∨ before = some asked := by
  cases h with
  | accepted hasks => exact Or.inl ⟨_, rfl, hasks⟩
  | _ => exact Or.inr rfl

/-- A record the engine sends goes to whoever owns it. -/
theorem LinkLaw.event_owned {sent : Sent} {before next : Option (Owner × UInt16)}
    (h : LinkLaw before (.event sent) next) :
    ∃ asked, before = some asked ∧ sent.seq? = some asked.2 := by
  cases h <;> exact ⟨_, rfl, rfl⟩

/-- What any run of a link leaves behind. -/
structure LinkServed (link : Link) : Prop where
  lawful : Follows LinkLaw none link.log link.books
  /-- A record that asks for the engine is rejected at once on its own seq, or taken up in
  silence; then come the statuses on its seq, and one closing record on it. -/
  answered : ∀ before record answers after asked,
    link.log = before ++ .record record answers :: after → asks record = some asked →
      (∃ reason, answers = [.rejected asked.2 reason]) ∨
        answers = [] ∧
          ((link.books = some asked ∧ ∀ heard ∈ after, LinkLaw (some asked) heard (some asked)) ∨
            ∃ waiting closing rest, after = waiting ++ closing :: rest ∧ closes asked closing ∧
              (∀ heard ∈ waiting, LinkLaw (some asked) heard (some asked)) ∧
              Follows LinkLaw none rest link.books)
  /-- A record for an engine event goes to the one record that was taken up and not closed
  since, on the seq that one carried. -/
  owed : ∀ before sent after, link.log = before ++ .event sent :: after →
    ∃ asked early record waiting, sent.seq? = some asked.2 ∧
      before = early ++ .record record [] :: waiting ∧ asks record = some asked ∧
      ∀ heard ∈ waiting, LinkLaw (some asked) heard (some asked)
  /-- No record carries a seq that the client did not use. -/
  used : ∀ heard ∈ link.log, ∀ sent ∈ heard.sent, ∀ seq, sent.seq? = some seq →
    ∃ record ∈ link.received, ∃ owner, asks record = some (owner, seq)
  /-- Whatever else happens, the awaited acts bring the closing record. -/
  progress : ∀ asked more, link.books = some asked →
    link.bus.rank ≤ awaitedCount Link.step Link.awaited link more →
      ∃ entries ∈ outputs Link.step link more, ∃ heard ∈ entries, closes asked heard

theorem answered_of_follows {log : List Heard} {last : Option (Owner × UInt16)}
    (h : Follows LinkLaw none log last) (before : List Heard) (record : List Byte)
    (answers : List Sent) (after : List Heard) (asked : Owner × UInt16)
    (hlog : log = before ++ .record record answers :: after) (hasks : asks record = some asked) :
    (∃ reason, answers = [.rejected asked.2 reason]) ∨
      answers = [] ∧
        ((last = some asked ∧ ∀ heard ∈ after, LinkLaw (some asked) heard (some asked)) ∨
          ∃ waiting closing rest, after = waiting ++ closing :: rest ∧ closes asked closing ∧
            (∀ heard ∈ waiting, LinkLaw (some asked) heard (some asked)) ∧
            Follows LinkLaw none rest last) := by
  subst hlog
  obtain ⟨middle, -, hafter⟩ := h.split
  cases hafter with
  | cons hlaw hrest =>
      cases hlaw with
      | accepted hasks' =>
          obtain rfl := Option.some_inj.mp (hasks.symm.trans hasks')
          refine Or.inr ⟨rfl, ?_⟩
          obtain ⟨hlast, hall⟩ |
              ⟨waiting, closing, rest, rfl, hclosing, ⟨next, hlaw, hrest'⟩, hall⟩ :=
            hrest.until_closing fun _ _ => LinkLaw.keeps
          · exact Or.inl ⟨hlast, hall⟩
          · obtain rfl := hlaw.next_of_closing hclosing
            exact Or.inr ⟨waiting, closing, rest, rfl, hclosing, hall, hrest'⟩
      | rejected reason books hasks' =>
          obtain rfl := Option.some_inj.mp (hasks.symm.trans hasks')
          exact Or.inl ⟨reason, rfl⟩
      | other books hnone => cases hasks.symm.trans hnone

theorem owed_of_follows {log : List Heard} {last : Option (Owner × UInt16)}
    (h : Follows LinkLaw none log last) (before : List Heard) (sent : Sent) (after : List Heard)
    (hlog : log = before ++ .event sent :: after) :
    ∃ asked early record waiting, sent.seq? = some asked.2 ∧
      before = early ++ .record record [] :: waiting ∧ asks record = some asked ∧
      ∀ heard ∈ waiting, LinkLaw (some asked) heard (some asked) := by
  subst hlog
  obtain ⟨middle, hbefore, hafter⟩ := h.split
  cases hafter with
  | cons hlaw _ =>
      obtain ⟨asked, rfl, hseq⟩ := hlaw.event_owned
      have hopens : ∀ earlier heard, LinkLaw earlier heard (some asked) →
          (∃ record, heard = .record record [] ∧ asks record = some asked) ∨
            earlier = some asked := fun _ _ => LinkLaw.opens
      obtain ⟨early, opener, waiting, rfl, ⟨record, rfl, hasks⟩, hall⟩ :=
        hbefore.since_opening hopens (Option.some_ne_none asked).symm
      exact ⟨asked, early, record, waiting, hseq, rfl, hasks, hall⟩

theorem mem_received {link : Link} {record : List Byte} :
    record ∈ link.received ↔ ∃ answers, .record record answers ∈ link.log := by
  simp only [Link.received, List.mem_filterMap]
  constructor
  · rintro ⟨heard, hmem, hrecord⟩
    cases heard with
    | record other answers =>
        cases hrecord
        exact ⟨answers, hmem⟩
    | _ => cases hrecord
  · rintro ⟨answers, hmem⟩
    exact ⟨_, hmem, rfl⟩

theorem used_of_follows {link : Link} {last : Option (Owner × UInt16)}
    (h : Follows LinkLaw none link.log last) {heard : Heard} (hheard : heard ∈ link.log)
    {sent : Sent} (hsent : sent ∈ heard.sent) {seq : UInt16} (hseq : sent.seq? = some seq) :
    ∃ record ∈ link.received, ∃ owner, asks record = some (owner, seq) := by
  obtain ⟨before, after, hlog⟩ := List.append_of_mem hheard
  cases heard with
  | record record answers =>
      refine ⟨record, mem_received.mpr ⟨answers, hheard⟩, ?_⟩
      rw [hlog] at h
      obtain ⟨middle, -, hafter⟩ := h.split
      cases hafter with
      | cons hlaw _ =>
          cases hlaw with
          | accepted => cases hsent
          | @rejected _ asked reason books hasks =>
              obtain rfl := List.mem_singleton.mp hsent
              obtain rfl := Option.some_inj.mp hseq
              exact ⟨asked.1, hasks⟩
          | other books hnone hfree =>
              obtain rfl := List.mem_singleton.mp hsent
              rw [hfree] at hseq
              cases hseq
  | event event =>
      obtain rfl := List.mem_singleton.mp hsent
      obtain ⟨asked, early, record, waiting, howed, rfl, hasks, -⟩ :=
        owed_of_follows h before _ after hlog
      obtain rfl := Option.some_inj.mp (hseq.symm.trans howed)
      refine ⟨record, mem_received.mpr ⟨[], ?_⟩, asked.1, hasks⟩
      rw [hlog]
      simp
  | breach =>
      obtain rfl := List.mem_singleton.mp hsent
      cases hseq

end OpenServo.Host
