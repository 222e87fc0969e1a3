import OpenServo.Host.Answered

/-!
# Deliveries

The records of a client reach the server in whatever pieces the carrier makes of them.
The server handles the whole ones in order and holds a piece of the next one.
-/

namespace OpenServo.Host

open Framing Ledger

/-- What an entry of the log shows of the reading of the pipe. -/
def Heard.reading : Heard → Option (Option (List Byte))
  | .record taken _ => some (some taken)
  | .breach => some none
  | .event _ => none

namespace Link

variable {link : Link}

/-! ## The pipe -/

/-- The records taken from the pipe, and the framing breaches among them. -/
def readings (link : Link) : List (Option (List Byte)) := link.log.filterMap Heard.reading

/-- A record the server accepts the length of. -/
def RecordFits (record : List Byte) : Prop := 1 ≤ record.length ∧ record.length ≤ 510

instance : DecidablePred RecordFits :=
  fun record => inferInstanceAs (Decidable (1 ≤ record.length ∧ record.length ≤ 510))

/-- The buffer holds a piece of what is still to come. -/
def Holds (link : Link) (todo : List (List Byte)) : Prop :=
  Held lenCodec link.server.rx todo ∧ ∀ record ∈ todo, RecordFits record

/-- Handling a record neither reads nor writes the buffer. -/
theorem serve_withRx (inp : Inputs) (asked : Asked) (rx : List Byte) :
    ({ link with server.rx := rx } : Link).serve inp asked =
      ((link.serve inp asked).1, { (link.serve inp asked).2 with server.rx := rx }) := by
  have hcall : ∀ owner seq code result,
      ({ link with server.rx := rx } : Link).answerCall owner seq code result =
        ((link.answerCall owner seq code result).1,
          { (link.answerCall owner seq code result).2 with server.rx := rx }) := by
    intro owner seq code result
    obtain ⟨answer, bus⟩ := result
    cases answer with
    | ok _ => cases owner <;> rfl
    | error err => rfl
  cases asked with
  | setRails state mask =>
      simp only [serve, setRails]
      split <;> rfl
  | wire seq op =>
      cases op with
      | none => rfl
      | some op => exact hcall _ _ _ _
  | submit seq cmd =>
      cases cmd with
      | none => rfl
      | some cmd => exact hcall _ _ _ _
  | _ => rfl

theorem handle_withRx (inp : Inputs) (record rx : List Byte) :
    ({ link with server.rx := rx } : Link).handle inp record =
      { link.handle inp record with server.rx := rx } := by
  simp only [handle, serve_withRx]
  rfl

/-- The records of `done`, handled one after the other. -/
def handleAll (link : Link) (inp : Inputs) (done : List (List Byte)) : Link :=
  done.foldl (fun link record => link.handle inp record) link

theorem handleAll_withRx (inp : Inputs) (done : List (List Byte)) (rx : List Byte) :
    ({ link with server.rx := rx } : Link).handleAll inp done =
      { link.handleAll inp done with server.rx := rx } := by
  induction done generalizing link with
  | nil => rfl
  | cons record done ih =>
      simp only [handleAll, List.foldl_cons, handle_withRx] at ih ⊢
      exact ih

/-- A held piece stays in the buffer. -/
theorem extract_held (inp : Inputs) (fuel : ℕ) {todo : List (List Byte)} (h : link.Holds todo) :
    link.extract inp fuel = link := by
  obtain ⟨hheld, hfits⟩ := h
  cases fuel with
  | zero => rfl
  | succ fuel =>
      simp only [extract]
      split
      · rfl
      · rename_i hheader
        cases todo with
        | nil =>
            rw [hheld.eq_nil] at hheader
            exact absurd (show ([] : List Byte).length < 2 by decide) hheader
        | cons record todo =>
            obtain ⟨hpos, hmax⟩ := hfits record List.mem_cons_self
            have hshort := hheld.short record rfl
            have hget : u16FromLe (link.server.rx.getD 0 0) (link.server.rx.getD 1 0) =
                record.length :=
              hheld.get
                (show record.length < lenCodec.bound from Nat.lt_of_le_of_lt hmax (by decide))
                (Nat.le_of_not_lt hheader)
            have hwidth : (frame lenCodec record).length = 2 + record.length := length_frame
            rw [hget, if_neg, if_pos (by omega)]
            have hlimit : ¬ record.length > rxCap - 2 := by
              simp only [rxCap]
              omega
            simp only [Bool.or_eq_true, beq_iff_eq, decide_eq_true_eq, hlimit, or_false]
            omega

/-- What is complete is handled in order, what is not is kept. -/
theorem extract_spec (inp : Inputs) {fuel : ℕ} {done todo : List (List Byte)} {held : List Byte}
    (hrx : link.server.rx = frames lenCodec done ++ held) (hheld : Held lenCodec held todo)
    (hfits : ∀ record ∈ done ++ todo, RecordFits record) (hfuel : done.length ≤ fuel) :
    link.extract inp fuel = { link.handleAll inp done with server.rx := held } := by
  induction done generalizing link fuel with
  | nil =>
      have hsame : link.server.rx = held := hrx
      rw [extract_held inp fuel ⟨by rw [hsame]; exact hheld, hfits⟩]
      subst hsame
      rfl
  | cons record done ih =>
      obtain ⟨hpos, hmax⟩ := hfits record List.mem_cons_self
      obtain ⟨fuel, rfl⟩ : ∃ n, fuel = n + 1 := ⟨fuel - 1, by simp at hfuel; omega⟩
      rw [frames_cons, List.append_assoc] at hrx
      have hsmall : record.length < lenCodec.bound := show record.length < 65536 by omega
      obtain ⟨hwhole, hrecord, hrest⟩ := cut_frame hsmall (frames lenCodec done ++ held)
      have hget := get_frame hsmall (frames lenCodec done ++ held)
      rw [← hrx] at hwhole hrecord hrest hget
      have hlen : u16FromLe (link.server.rx.getD 0 0) (link.server.rx.getD 1 0) =
          record.length := hget
      rw [hget] at hwhole hrecord hrest
      have hwidth : lenCodec.width = 2 := rfl
      rw [hwidth] at hwhole hrecord hrest
      simp only [extract, hlen, hrecord, hrest]
      rw [if_neg (by omega), if_neg, if_neg (by omega)]
      · rw [ih rfl (fun record hmem => hfits record (List.mem_cons_of_mem _ hmem))
          (by simpa using hfuel), handleAll_withRx]
        rfl
      · have hlimit : ¬ record.length > rxCap - 2 := by
          simp only [rxCap]
          omega
        simp only [Bool.or_eq_true, beq_iff_eq, decide_eq_true_eq, hlimit, or_false]
        omega

theorem handleAll_append (inp : Inputs) (left right : List (List Byte)) :
    link.handleAll inp (left ++ right) = (link.handleAll inp left).handleAll inp right :=
  List.foldl_append

theorem length_frames_ge (done : List (List Byte)) :
    2 * done.length ≤ (frames lenCodec done).length := by
  induction done with
  | nil => simp
  | cons record done ih =>
      have hwidth : (frame lenCodec record).length = 2 + record.length := length_frame
      simp only [frames_cons, List.length_append, List.length_cons, hwidth]
      omega

/-- One delivery: the records it completes are handled in order, the rest is held. -/
theorem feed_spec (inp : Inputs) {fuel : ℕ} {todo : List (List Byte)} {bytes : List Byte}
    (h : link.Holds todo) (harrived : link.server.rx ++ bytes <+: frames lenCodec todo)
    (hfuel : bytes.length ≤ fuel) :
    ∃ done rest held, todo = done ++ rest ∧ Held lenCodec held rest ∧
      link.server.rx ++ bytes = frames lenCodec done ++ held ∧
      feed inp fuel bytes link = { link.handleAll inp done with server.rx := held } := by
  induction fuel generalizing link todo bytes with
  | zero =>
      obtain rfl : bytes = [] := List.eq_nil_of_length_eq_zero (by omega)
      exact ⟨[], todo, link.server.rx, rfl, h.1, by simp, rfl⟩
  | succ fuel ih =>
      cases hbytes : bytes with
      | nil => exact ⟨[], todo, link.server.rx, rfl, h.1, by simp, rfl⟩
      | cons first more =>
          subst hbytes
          -- a held piece is shorter than its record's frame, so there is room
          have hroom : link.server.rx.length < rxCap := by
            cases todo with
            | nil => simp [h.1.eq_nil, rxCap]
            | cons record todo =>
                obtain ⟨-, hmax⟩ := h.2 record List.mem_cons_self
                have hshort := h.1.short record rfl
                have hwidth : (frame lenCodec record).length = 2 + record.length := length_frame
                simp only [rxCap]
                omega
          have htake : 0 < min (rxCap - link.server.rx.length) (first :: more).length := by
            simp only [List.length_cons]
            omega
          simp only [feed, List.isEmpty_cons, Bool.false_eq_true, if_false]
          generalize first :: more = bytes at harrived hfuel htake
          generalize min (rxCap - link.server.rx.length) bytes.length = take at htake ⊢
          have htaken : link.server.rx ++ bytes.take take <+: frames lenCodec todo := by
            refine List.IsPrefix.trans ?_ harrived
            exact (List.prefix_append_right_inj _).mpr (List.take_prefix _ _)
          obtain ⟨done, rest, held, rfl, hsplit, hheld⟩ := exists_held todo htaken
          have hlong := length_frames_ge done
          have hextract : ({ link with server.rx := link.server.rx ++ bytes.take take } :
              Link).extract inp (link.server.rx ++ bytes.take take).length =
                { ({ link with server.rx := link.server.rx ++ bytes.take take } :
                    Link).handleAll inp done with server.rx := held } := by
            apply extract_spec inp hsplit hheld h.2
            rw [hsplit, List.length_append]
            omega
          rw [hextract, if_neg (by simp; omega), handleAll_withRx]
          -- the rest of the delivery meets the held piece
          have hrest : frames lenCodec done ++ (held ++ bytes.drop take) <+:
              frames lenCodec done ++ frames lenCodec rest := by
            rw [← frames_append, ← List.append_assoc, ← hsplit, List.append_assoc,
              List.take_append_drop]
            exact harrived
          have hholds : ({ link.handleAll inp done with server.rx := held } : Link).Holds rest :=
            ⟨hheld, fun record hmem => h.2 record (List.mem_append_right _ hmem)⟩
          obtain ⟨done', rest', held', rfl, hheld', hsplit', hfeed⟩ := ih hholds
            ((List.prefix_append_right_inj _).mp hrest) (by
              rw [List.length_drop]
              omega)
          refine ⟨done ++ done', rest', held', by rw [List.append_assoc], hheld', ?_, ?_⟩
          · rw [frames_append, List.append_assoc, ← hsplit', ← List.append_assoc, ← hsplit,
              List.append_assoc, List.take_append_drop]
          · rw [hfeed, handleAll_withRx, handleAll_append]

theorem log_serve (inp : Inputs) (asked : Asked) : (link.serve inp asked).2.log = link.log := by
  have hcall : ∀ owner seq code result,
      (link.answerCall owner seq code result).2.log = link.log := by
    intro owner seq code result
    obtain ⟨answer, bus⟩ := result
    cases answer with
    | ok _ => cases owner <;> rfl
    | error err => rfl
  cases asked with
  | setRails state mask =>
      simp only [serve, setRails]
      split <;> rfl
  | wire seq op =>
      cases op with
      | none => rfl
      | some op => exact hcall _ _ _ _
  | submit seq cmd =>
      cases cmd with
      | none => rfl
      | some cmd => exact hcall _ _ _ _
  | _ => rfl

theorem readings_handle (inp : Inputs) (record : List Byte) :
    (link.handle inp record).readings = link.readings ++ [some record] := by
  simp only [readings, handle, hear, log_serve, List.filterMap_append]
  rfl

theorem readings_handleAll (inp : Inputs) (done : List (List Byte)) :
    (link.handleAll inp done).readings = link.readings ++ done.map some := by
  induction done generalizing link with
  | nil => simp [handleAll]
  | cons record done ih =>
      have hrest := @ih (link.handle inp record)
      rw [readings_handle, List.append_assoc] at hrest
      exact hrest

end Link

/-! ## The records of the client -/

/-- What the server has made of the bytes delivered from the records of a client: the first
of them handled, each once and in order, and a piece of the next one held.  `before` is what
had been read when the first of the records began. -/
structure Arrived (link : Link) (before : List (Option (List Byte)))
    (records : List (List Byte)) (delivered : List Byte) (done todo : List (List Byte)) :
    Prop where
  split : records = done ++ todo
  handled : link.readings = before ++ done.map some
  holds : link.Holds todo
  bytes : delivered = frames lenCodec done ++ link.server.rx

namespace Link

variable {link link' : Link} {before : List (Option (List Byte))} {records : List (List Byte)}
  {delivered : List Byte}

def Reads (link : Link) (before : List (Option (List Byte))) (records : List (List Byte))
    (delivered : List Byte) : Prop :=
  ∃ done todo, Arrived link before records delivered done todo

/-- A server between two records. -/
theorem reads_start (hrx : link.server.rx = []) (hfits : ∀ record ∈ records, RecordFits record) :
    link.Reads link.readings records [] := by
  refine ⟨[], records, rfl, (List.append_nil _).symm, ⟨?_, hfits⟩, ?_⟩
  · rw [hrx]
    exact held_nil records (by decide)
  · rw [hrx]
    rfl

/-- Nothing but a delivery concerns the pipe's bytes. -/
theorem Reads.of_same (h : link.Reads before records delivered)
    (hrx : link'.server.rx = link.server.rx) (hreadings : link'.readings = link.readings) :
    link'.Reads before records delivered := by
  obtain ⟨done, todo, hsplit, hhandled, ⟨hheld, hfits⟩, hbytes⟩ := h
  refine ⟨done, todo, hsplit, hreadings.trans hhandled, ⟨?_, hfits⟩, ?_⟩
  · rw [hrx]
    exact hheld
  · rw [hrx, hbytes]

theorem readings_onEvent (link : Link) (event : Event) :
    (link.onEvent event).readings = link.readings := by
  cases event <;> simp [onEvent, hear, readings, Heard.reading]

theorem rx_onEvent (link : Link) (event : Event) :
    (link.onEvent event).server.rx = link.server.rx := by
  cases event <;> rfl

/-- A pump neither reads from the pipe nor touches the buffer. -/
theorem pump_same (link : Link) (reads : List Inputs) :
    (link.pump reads).server.rx = link.server.rx ∧ (link.pump reads).readings = link.readings := by
  induction reads generalizing link with
  | nil => exact ⟨rfl, rfl⟩
  | cons inp reads ih =>
      simp only [Link.pump]
      split
      · exact ⟨rfl, rfl⟩
      · rename_i event bus _
        obtain ⟨hrx, hreadings⟩ := ih (({ link with bus } : Link).onEvent event)
        exact ⟨hrx.trans (rx_onEvent _ event), hreadings.trans (readings_onEvent _ event)⟩

/-- An act that delivers nothing leaves what has been read, and what is held, as it is. -/
theorem act_same (link : Link) (act : LinkAct) : (∃ inp bytes, act = .pipe inp bytes) ∨
    act.delivered = [] ∧ (link.act act).server.rx = link.server.rx ∧
      (link.act act).readings = link.readings := by
  cases act with
  | pipe inp bytes => exact Or.inl ⟨inp, bytes, rfl⟩
  | pump reads => exact Or.inr ⟨rfl, pump_same link reads⟩
  | _ => exact Or.inr ⟨rfl, rfl, rfl⟩

theorem Reads.feed (h : link.Reads before records delivered) (inp : Inputs) {fuel : ℕ}
    {bytes : List Byte} (hpipe : delivered ++ bytes <+: frames lenCodec records)
    (hfuel : bytes.length ≤ fuel) :
    (Link.feed inp fuel bytes link).Reads before records (delivered ++ bytes) := by
  obtain ⟨front, todo, rfl, hhandled, hholds, rfl⟩ := h
  rw [frames_append, List.append_assoc] at hpipe
  have harrived := (List.prefix_append_right_inj _).mp hpipe
  obtain ⟨done, rest, held, rfl, hheld, hsplit, hfeed⟩ :=
    feed_spec inp hholds harrived hfuel
  rw [hfeed]
  refine ⟨front ++ done, rest, by rw [List.append_assoc], ?_, ⟨hheld, ?_⟩, ?_⟩
  · rw [List.map_append, ← List.append_assoc, ← hhandled]
    exact readings_handleAll inp done
  · exact fun record hmem => hholds.2 record (List.mem_append_right _ hmem)
  · rw [List.append_assoc, hsplit, frames_append, List.append_assoc]

theorem Reads.act (h : link.Reads before records delivered) (act : LinkAct)
    (hpipe : delivered ++ act.delivered <+: frames lenCodec records) :
    (link.act act).Reads before records (delivered ++ act.delivered) := by
  obtain ⟨inp, bytes, rfl⟩ | ⟨hnothing, hrx, hreadings⟩ := act_same link act
  · exact h.feed inp hpipe (show bytes.length ≤ 2 * bytes.length by omega)
  · rw [hnothing, List.append_nil]
    exact h.of_same hrx hreadings

theorem Reads.final (h : link.Reads before records delivered) (acts : List LinkAct)
    (hpipe : delivered ++ acts.flatMap LinkAct.delivered <+: frames lenCodec records) :
    (Ledger.final step link acts).Reads before records
      (delivered ++ acts.flatMap LinkAct.delivered) := by
  induction acts generalizing link delivered with
  | nil =>
      rw [List.flatMap_nil, List.append_nil]
      exact h
  | cons act acts ih =>
      rw [List.flatMap_cons, ← List.append_assoc] at hpipe ⊢
      exact ih (h.act act ((List.prefix_append _ _).trans hpipe)) hpipe

/-- Nothing whole is ever held back. -/
theorem todo_of_complete {done todo : List (List Byte)}
    (h : Arrived link before records (frames lenCodec records) done todo) : todo = [] := by
  obtain ⟨rfl, -, ⟨hheld, -⟩, hbytes⟩ := h
  cases todo with
  | nil => rfl
  | cons record todo =>
      rw [frames_append] at hbytes
      have hrest := List.append_cancel_left hbytes
      have hshort := hheld.short record rfl
      rw [← hrest, frames_cons, List.length_append] at hshort
      omega

/-- Everything delivered, everything handled. -/
theorem Reads.complete (h : link.Reads before records (frames lenCodec records)) :
    link.readings = before ++ records.map some ∧ link.server.rx = [] := by
  obtain ⟨done, todo, hdelivered⟩ := h
  obtain rfl := todo_of_complete hdelivered
  obtain ⟨hsplit, hhandled, ⟨hheld, -⟩, -⟩ := hdelivered
  rw [List.append_nil] at hsplit
  rw [hsplit]
  exact ⟨hhandled, hheld.eq_nil⟩

end Link

/-! ## Delivered and answered -/

/-- Every run of a link, whatever bytes the pipe delivers in whatever order; and if they are
records of a client in whatever pieces, the whole ones are the records of the log. -/
theorem link_served (rate : BaudRate) (edges : EdgeCapture) (acts : List LinkAct) :
    LinkServed (final Link.step (.new (.new rate edges)) acts) ∧
      ∀ records : List (List Byte), (∀ record ∈ records, Link.RecordFits record) →
        acts.flatMap LinkAct.delivered <+: frames lenCodec records →
          ∃ done todo, Arrived (final Link.step (.new (.new rate edges)) acts) [] records
            (acts.flatMap LinkAct.delivered) done todo := by
  obtain ⟨hlock, entries, hlog, hfollows⟩ :=
    Link.follows_final (Link.lockstep_new rate edges) acts
  obtain rfl : (final Link.step (.new (.new rate edges)) acts).log = entries := hlog
  constructor
  · exact ⟨hfollows, answered_of_follows hfollows, owed_of_follows hfollows,
      fun _ hheard _ hsent _ => used_of_follows hfollows hheard hsent,
      fun _ _ => Link.progress_of_lockstep hlock⟩
  · intro records hfits hpipe
    exact (@Link.reads_start (.new (.new rate edges)) records rfl hfits).final acts hpipe

/-- A ping of servo 1 and a wire send in three pieces, with a pump in between. -/
theorem two_records_are_heard :
    let acts : List LinkAct :=
      [.pipe ⟨18, 0, [], 0⟩ [6, 0, 1, 0, 0], .pipe ⟨18, 90, [], 0⟩ [0, 1, 0x10, 6, 0],
        .pump [⟨18, 120, [], 0⟩], .pipe ⟨18, 150, [], 0⟩ [0x61, 1, 0, 1, 2, 3]]
    ∃ done todo, Arrived (final Link.step (.new (.new .b1000000 .empty)) acts) []
      [[1, 0, 0, 0, 1, 0x10], [0x61, 1, 0, 1, 2, 3]] (acts.flatMap LinkAct.delivered) done todo :=
  (link_served .b1000000 .empty _).2 _ (by decide) (by decide)

/-! ## The bound of a record -/

namespace Link

variable {link : Link}

/-- The length a buffer announces. -/
def announced (rx : List Byte) : ℕ := u16FromLe (rx.getD 0 0) (rx.getD 1 0)

/-- Nothing can be cut off the buffer yet, and nothing is wrong with it. -/
def Quiet (rx : List Byte) : Prop :=
  rx.length < 2 ∨ 1 ≤ announced rx ∧ announced rx ≤ 510 ∧ rx.length < 2 + announced rx

/-- What is read off a buffer that is not quiet. -/
def firstReading (rx : List Byte) : Option (List Byte) :=
  if announced rx = 0 ∨ 510 < announced rx then none
  else some ((rx.drop 2).take (announced rx))

/-- One turn of the loop, by the announced length. -/
theorem extract_succ (link : Link) (inp : Inputs) (fuel : ℕ) :
    link.extract inp (fuel + 1) =
      if link.server.rx.length < 2 then link
      else if announced link.server.rx = 0 ∨ 510 < announced link.server.rx then
        ({ link with server.rx := [] } : Link).hear .breach
      else if link.server.rx.length < 2 + announced link.server.rx then link
      else
        ({ link.handle inp ((link.server.rx.drop 2).take (announced link.server.rx)) with
          server.rx := link.server.rx.drop (2 + announced link.server.rx) } : Link).extract
            inp fuel := by
  have hbreach : (announced link.server.rx == 0 ||
      decide (announced link.server.rx > rxCap - 2)) = true ↔
        announced link.server.rx = 0 ∨ 510 < announced link.server.rx := by
    simp [rxCap]
  rw [← if_congr hbreach rfl rfl]
  rfl

theorem extract_breach (inp : Inputs) {rx : List Byte} (hheader : 2 ≤ rx.length)
    (hbad : announced rx = 0 ∨ 510 < announced rx) :
    ({ link with server.rx := rx } : Link).extract inp rx.length =
      ({ link with server.rx := [] } : Link).hear .breach := by
  obtain ⟨fuel, hfuel⟩ : ∃ n, rx.length = n + 1 := ⟨rx.length - 1, by omega⟩
  rw [hfuel, extract_succ]
  change (if rx.length < 2 then _ else if announced rx = 0 ∨ 510 < announced rx then _ else _) = _
  rw [if_neg (by omega), if_pos hbad]

theorem extract_quiet (inp : Inputs) (fuel : ℕ) (h : Quiet link.server.rx) :
    link.extract inp fuel = link := by
  cases fuel with
  | zero => rfl
  | succ fuel =>
      rw [extract_succ]
      obtain hshort | ⟨hlow, hhigh, hpart⟩ := h
      · rw [if_pos hshort]
      · rw [if_neg (by omega : ¬ (announced link.server.rx = 0 ∨ 510 < announced link.server.rx)),
          if_pos hpart, ite_self]

theorem readings_hear (heard : Heard) :
    (link.hear heard).readings = link.readings ++ heard.reading.toList := by
  simp only [readings, hear, List.filterMap_append]
  cases heard <;> rfl

/-- Reading on never takes back what was read. -/
theorem readings_extract (inp : Inputs) (fuel : ℕ) :
    link.readings <+: (link.extract inp fuel).readings := by
  induction fuel generalizing link with
  | zero => exact List.prefix_rfl
  | succ fuel ih =>
      rw [extract_succ]
      split
      · exact List.prefix_rfl
      · split
        · rw [readings_hear]
          exact List.prefix_append _ _
        · split
          · exact List.prefix_rfl
          · have hrest := @ih { link.handle inp ((link.server.rx.drop 2).take
                (announced link.server.rx)) with
              server.rx := link.server.rx.drop (2 + announced link.server.rx) }
            exact List.IsPrefix.trans ⟨_, (readings_handle inp _).symm⟩ hrest

theorem readings_feed (inp : Inputs) (fuel : ℕ) (bytes : List Byte) :
    link.readings <+: (feed inp fuel bytes link).readings := by
  induction fuel generalizing link bytes with
  | zero => exact List.prefix_rfl
  | succ fuel ih =>
      simp only [feed]
      split
      · exact List.prefix_rfl
      · generalize min (rxCap - link.server.rx.length) bytes.length = take
        have hextract := @readings_extract
          { link with server.rx := link.server.rx ++ bytes.take take } inp
          (link.server.rx ++ bytes.take take).length
        split
        · refine hextract.trans (List.IsPrefix.trans ?_ (ih _))
          rw [readings_hear]
          exact List.prefix_append _ _
        · exact hextract.trans (ih _)

/-- A buffer that is not quiet is read at once. -/
theorem extract_first (inp : Inputs) (fuel : ℕ) (h : ¬ Quiet link.server.rx) :
    link.readings ++ [firstReading link.server.rx] <+:
      (link.extract inp (fuel + 1)).readings := by
  simp only [Quiet, not_or, not_and] at h
  obtain ⟨hheader, hwhole⟩ := h
  rw [extract_succ, if_neg hheader, firstReading]
  by_cases hbreach : announced link.server.rx = 0 ∨ 510 < announced link.server.rx
  · rw [if_pos hbreach, if_pos hbreach, readings_hear]
    exact List.prefix_rfl
  · have hpart : ¬ link.server.rx.length < 2 + announced link.server.rx :=
      hwhole (by omega) (by omega)
    rw [if_neg hbreach, if_neg hbreach, if_neg hpart, ← @readings_handle link inp]
    exact @readings_extract { link.handle inp ((link.server.rx.drop 2).take
        (announced link.server.rx)) with
      server.rx := link.server.rx.drop (2 + announced link.server.rx) } inp fuel

/-- The first thing read of a stream that starts at a boundary, or that it is still quiet. -/
def Begins (link : Link) (before : List (Option (List Byte))) (delivered : List Byte) : Prop :=
  (link.readings = before ∧ link.server.rx = delivered ∧ Quiet delivered) ∨
    ∃ seen, seen <+: delivered ∧ ¬ Quiet seen ∧ before ++ [firstReading seen] <+: link.readings

theorem length_of_quiet {rx : List Byte} (h : Quiet rx) : rx.length < rxCap := by
  simp only [rxCap]
  obtain hshort | ⟨-, hhigh, hpart⟩ := h
  · omega
  · omega

/-- One turn of the delivery loop, while there is room. -/
theorem feed_succ (inp : Inputs) (fuel : ℕ) {bytes : List Byte} {take : ℕ}
    (hroom : link.server.rx.length < rxCap) (hsome : bytes ≠ [])
    (htake : min (rxCap - link.server.rx.length) bytes.length = take) :
    feed inp (fuel + 1) bytes link = feed inp fuel (bytes.drop take)
      (({ link with server.rx := link.server.rx ++ bytes.take take } : Link).extract inp
        (link.server.rx ++ bytes.take take).length) := by
  have hlength : 0 < bytes.length := List.length_pos_iff.mpr hsome
  simp only [feed, htake]
  rw [if_neg (by simpa using hsome), if_neg (by simp; omega)]

theorem begins_feed (inp : Inputs) {fuel : ℕ} {bytes : List Byte}
    (hquiet : Quiet link.server.rx) (hfuel : bytes.length ≤ fuel) :
    Begins (feed inp fuel bytes link) link.readings (link.server.rx ++ bytes) := by
  induction fuel generalizing link bytes with
  | zero =>
      obtain rfl : bytes = [] := List.eq_nil_of_length_eq_zero (by omega)
      rw [List.append_nil]
      exact Or.inl ⟨rfl, rfl, hquiet⟩
  | succ fuel ih =>
      by_cases hsome : bytes = []
      · subst hsome
        rw [List.append_nil]
        exact Or.inl ⟨rfl, rfl, hquiet⟩
      · have hroom := length_of_quiet hquiet
        have hlength : 0 < bytes.length := List.length_pos_iff.mpr hsome
        obtain ⟨take, htake⟩ : ∃ n, min (rxCap - link.server.rx.length) bytes.length = n :=
          ⟨_, rfl⟩
        rw [feed_succ inp fuel hroom hsome htake]
        by_cases hstill : Quiet (link.server.rx ++ bytes.take take)
        · rw [@extract_quiet { link with
            server.rx := link.server.rx ++ bytes.take take } inp _ hstill]
          have hrest := @ih { link with server.rx := link.server.rx ++ bytes.take take }
            (bytes.drop take) hstill (by rw [List.length_drop]; omega)
          rw [List.append_assoc, List.take_append_drop] at hrest
          exact hrest
        · obtain ⟨more, hmore⟩ : ∃ n, (link.server.rx ++ bytes.take take).length = n + 1 := by
            rw [List.length_append, List.length_take]
            exact ⟨link.server.rx.length + take - 1, by omega⟩
          rw [hmore]
          refine Or.inr ⟨link.server.rx ++ bytes.take take, ?_, hstill, ?_⟩
          · exact (List.prefix_append_right_inj _).mpr (List.take_prefix _ _)
          · exact (@extract_first { link with
              server.rx := link.server.rx ++ bytes.take take } inp more hstill).trans
              (readings_feed inp fuel _)

theorem Begins.act {before : List (Option (List Byte))} {delivered : List Byte}
    (h : link.Begins before delivered) (act : LinkAct) :
    (link.act act).Begins before (delivered ++ act.delivered) := by
  have hgrows : link.readings <+: (link.act act).readings := by
    obtain ⟨inp, bytes, rfl⟩ | ⟨-, -, hsame⟩ := act_same link act
    · exact readings_feed inp _ bytes
    · rw [hsame]
  obtain ⟨hreadings, hrx, hquiet⟩ | ⟨seen, hseen, hloud, hfirst⟩ := h
  · obtain ⟨inp, bytes, rfl⟩ | ⟨hnothing, hsame, hkept⟩ := act_same link act
    · rw [← hreadings, ← hrx]
      rw [← hrx] at hquiet
      exact begins_feed inp hquiet (show bytes.length ≤ 2 * bytes.length by omega)
    · rw [hnothing, List.append_nil]
      exact Or.inl ⟨hkept.trans hreadings, hsame.trans hrx, hquiet⟩
  · exact Or.inr ⟨seen, hseen.trans (List.prefix_append _ _), hloud, hfirst.trans hgrows⟩

theorem Begins.final {before : List (Option (List Byte))} {delivered : List Byte}
    (h : link.Begins before delivered) (acts : List LinkAct) :
    (Ledger.final step link acts).Begins before
      (delivered ++ acts.flatMap LinkAct.delivered) := by
  induction acts generalizing link delivered with
  | nil =>
      rw [List.flatMap_nil, List.append_nil]
      exact h
  | cons act acts ih =>
      rw [List.flatMap_cons, ← List.append_assoc]
      exact ih (h.act act)

end Link

/-- The record was read as one record and nothing else, and the server is between records. -/
structure TakenWhole (link link' : Link) (record : List Byte) : Prop where
  read : link'.readings = link.readings ++ [some record]
  boundary : link'.server.rx = []

theorem announced_of_prefix {record seen : List Byte} (h : seen <+: sealed record)
    (hheader : 2 ≤ seen.length) : Link.announced seen = record.length % 65536 := by
  obtain ⟨more, hmore⟩ := h
  have hsealed : sealed record = UInt8.ofNat record.length ::
      UInt8.ofNat (record.length / 256) :: record := rfl
  obtain ⟨lo, hi, rest, rfl⟩ : ∃ lo hi rest, seen = lo :: hi :: rest := by
    rcases seen with _ | ⟨lo, _ | ⟨hi, rest⟩⟩
    · exact absurd hheader (by decide)
    · exact absurd hheader (by simp)
    · exact ⟨lo, hi, rest, rfl⟩
  rw [hsealed] at hmore
  simp only [List.cons_append, List.cons.injEq] at hmore
  obtain ⟨rfl, rfl, -⟩ := hmore
  simp only [Link.announced, List.getD_cons_zero, List.getD_cons_succ, u16FromLe,
    UInt8.toNat_ofNat']
  omega

/-- A record that does not fit is not the first thing read of its own frame. -/
theorem firstReading_ne {record seen : List Byte} (hlong : ¬ Link.RecordFits record)
    (h : seen <+: sealed record) (hloud : ¬ Link.Quiet seen) :
    Link.firstReading seen ≠ some record := by
  simp only [Link.Quiet, not_or, not_and] at hloud
  have hlen := announced_of_prefix h (by omega)
  rw [Link.firstReading]
  split
  · exact Option.some_ne_none record |>.symm
  · intro hsame
    have hrecord := congrArg List.length (Option.some_inj.mp hsame)
    rw [List.length_take, List.length_drop] at hrecord
    simp only [Link.RecordFits] at hlong
    omega

/-- From any boundary, however its bytes are cut up and whatever happens in between, a record
is read as that record and nothing else exactly when it has 1 to 510 bytes.  No other record
is read as itself: what is read of a longer one is a breach, or a piece of the caller's
data. -/
theorem taken_whole_iff {link : Link} (hboundary : link.server.rx = []) {record : List Byte}
    {acts : List LinkAct} (hpipe : acts.flatMap LinkAct.delivered = sealed record) :
    TakenWhole link (final Link.step link acts) record ↔ Link.RecordFits record := by
  have hframes : frames lenCodec [record] = sealed record := List.append_nil _
  constructor
  · intro ⟨hread, hdone⟩
    by_contra hlong
    have hbegins : link.Begins link.readings [] := Or.inl ⟨rfl, hboundary, Or.inl (by decide)⟩
    have hfinal := hbegins.final acts
    rw [List.nil_append, hpipe] at hfinal
    obtain ⟨-, hrx, -⟩ | ⟨seen, hseen, hloud, hfirst⟩ := hfinal
    · rw [hdone] at hrx
      cases hrx
    · rw [hread] at hfirst
      have hsame := (List.prefix_append_right_inj _).mp hfirst
      have hrecord := List.IsPrefix.eq_of_length hsame rfl
      exact firstReading_ne hlong hseen hloud (List.singleton_inj.mp hrecord)
  · intro hfits
    have hreads := (@Link.reads_start _ [record] hboundary
      (by simpa using hfits)).final acts (by rw [List.nil_append, hpipe, hframes])
    rw [List.nil_append, hpipe, ← hframes] at hreads
    obtain ⟨hread, hdone⟩ := hreads.complete
    exact ⟨hread, hdone⟩

/-- Of an overlong record that comes in one piece, the first 512 bytes are dropped and the rest
of the caller's data is read for what it says. -/
theorem overlong_tail_is_obeyed {link : Link} (hboundary : link.server.rx = [])
    {record : List Byte} (hlong : 510 < record.length)
    (hlength : record.length % 65536 = 0 ∨ 510 < record.length % 65536)
    {records : List (List Byte)} (hfits : ∀ record ∈ records, Link.RecordFits record)
    (htail : (sealed record).drop rxCap = frames lenCodec records) (inp : Inputs) :
    (link.onPipe inp (sealed record)).readings =
        link.readings ++ none :: records.map some ∧
      (link.onPipe inp (sealed record)).server.rx = [] := by
  have hsealed : (sealed record).length = 2 + record.length := length_frame
  have hfirst : ((sealed record).take rxCap).length = rxCap := by
    rw [List.length_take, hsealed, rxCap]
    omega
  have hbad := announced_of_prefix (List.take_prefix rxCap (sealed record))
    (by rw [hfirst, rxCap]; omega)
  rw [← hbad] at hlength
  have hturn : ({ link with server.rx := (sealed record).take rxCap } : Link).extract inp
      ((sealed record).take rxCap).length =
        ({ link with server.rx := [] } : Link).hear .breach :=
    Link.extract_breach inp (by rw [hfirst, rxCap]; omega) hlength
  -- the first turn fills the buffer, and the breach empties it
  obtain ⟨fuel, hfuel⟩ : ∃ n, 2 * (sealed record).length = n + 1 :=
    ⟨2 * record.length + 3, by omega⟩
  have hfeed : link.onPipe inp (sealed record) =
      Link.feed inp fuel (frames lenCodec records)
        (({ link with server.rx := [] } : Link).hear .breach) := by
    have hsome : sealed record ≠ [] := by
      rw [← List.length_pos_iff]
      omega
    have hwidth : min (rxCap - link.server.rx.length) (sealed record).length = rxCap := by
      rw [hboundary, hsealed, List.length_nil, rxCap]
      omega
    rw [Link.onPipe, hfuel, Link.feed_succ inp fuel (by rw [hboundary]; decide) hsome hwidth,
      hboundary, List.nil_append, hturn, htail]
  have hlong' : (frames lenCodec records).length ≤ fuel := by
    rw [← htail, List.length_drop]
    omega
  have hreads := (@Link.reads_start (({ link with server.rx := [] } : Link).hear .breach) _
    rfl hfits).feed inp (by rw [List.nil_append]) hlong'
  rw [List.nil_append, Link.readings_hear] at hreads
  obtain ⟨hread, hdone⟩ := hreads.complete
  rw [hfeed]
  refine ⟨hread.trans ?_, hdone⟩
  simp [Link.readings, Heard.reading]

/-- A raw send of 510 bytes, the last three of them an ENTER_BOOTLOADER. -/
def longSend : List Byte :=
  recWireSend :: 0 :: 0 :: (List.replicate 507 0 ++ sealed [recEnterBootloader])

theorem length_longSend : longSend.length = 513 := by
  simp only [longSend, List.length_cons, List.length_append, List.length_replicate]
  rfl

theorem drop_longSend : (sealed longSend).drop rxCap = frames lenCodec [[recEnterBootloader]] := by
  refine @List.drop_left' _
    (u16ToLe longSend.length ++ recWireSend :: 0 :: 0 :: List.replicate 507 0) _ _ ?_
  simp only [List.length_append, List.length_cons, List.length_replicate, length_u16ToLe, rxCap]

theorem long_send_enters_the_bootloader :
    ((Link.new (.new .b1000000 .empty)).onPipe ⟨18, 0, [], 0⟩ (sealed longSend)).readings =
        (Link.new (.new .b1000000 .empty)).readings ++ none :: [[recEnterBootloader]].map some ∧
      ((Link.new (.new .b1000000 .empty)).onPipe ⟨18, 0, [], 0⟩ (sealed longSend)).server.rx =
        [] :=
  overlong_tail_is_obeyed rfl (by rw [length_longSend]; decide)
    (by rw [length_longSend]; decide) (by decide) drop_longSend ⟨18, 0, [], 0⟩

/-! ## Every run -/

end OpenServo.Host
