import OpenServo.Bus.Tx
import OpenServo.Dispatch.Dispatcher

/-!
# Profile reads

A slot of the PROFILE region names up to eight spans.  A profile read answers with
their live bytes back to back, and otherwise with the reason it cannot: `range`
before `limit`.  The loop that gathers the spans has room for every one of them, and
the transmitter refuses no gather it is handed on account of its length.
-/

namespace OpenServo

open Table Bus

/-! ## What a slot asks for -/

/-- The enabled spans of a slot, in word order; an invalid slot has none. -/
def profileSpans (t : ControlTable) (slot : Byte) : List (ℕ × ℕ) :=
  ((slotWords t slot).getD []).filterMap spanOf

/-- The live bytes of a span. -/
def liveBytes (t : ControlTable) (span : ℕ × ℕ) : List Byte :=
  (List.range' span.1 span.2).map t.get

def InTable (span : ℕ × ℕ) : Prop := span.1 + span.2 ≤ tableSize

instance (span : ℕ × ℕ) : Decidable (InTable span) := inferInstanceAs (Decidable (_ ≤ _))

/-- The length of the whole answer. -/
def spanTotal (spans : List (ℕ × ℕ)) : ℕ := (spans.map Prod.snd).sum

/-- What a profile read must answer. -/
def profileAnswer (t : ControlTable) (slot : Byte) : Except ResultCode (List (List Byte)) :=
  let spans := profileSpans t slot
  if slot.toNat < 4 ∧ spans ≠ [] ∧ ∀ span ∈ spans, InTable span then
    if spanTotal spans ≤ 252 then .ok (spans.map (liveBytes t)) else .error .limit
  else .error .range

/-! ## The gather loop -/

/-- The gather array filled so far, and the running total. -/
structure Gather where
  spans : BoundedVec (List Byte) gatherMax
  total : UInt16

/-- Why the loop stops: a span leaves the map, or the loop runs out of room. -/
inductive GatherStop where
  | range
  | overflow
  deriving DecidableEq, Repr

namespace Gather

def new : Gather := ⟨.empty, 0⟩

/-- One span word.  `spans[n] = data` needs a free place, `total += count` a sum
below `2^16`. -/
def word (t : ControlTable) (g : Gather) (w : ℕ) : Except GatherStop Gather :=
  match spanOf w with
  | none => .ok g
  | some (addr, count) =>
      match t.read addr count with
      | .error _ => .error .range
      | .ok data =>
          match g.spans.push data with
          | none => .error .overflow
          | some spans =>
              if g.total.toNat + count < 2 ^ 16 then
                .ok ⟨spans, g.total + UInt16.ofNat count⟩
              else .error .overflow

end Gather

namespace Dispatcher

variable {σ ρ : Type} [Reply ρ]

/-- The profile read over its bounded loop; `none` if the loop runs out of room. -/
def readProfileBounded (d : Dispatcher σ) (alert : Bool) (ctx : RequestCtx) (slot : Byte)
    (reply : ρ) : Option ρ :=
  let nack (result : ResultCode) := Reply.sendStatus reply ⟨result, alert, []⟩
  if !ctx.mayReply then some reply
  else
    match slotWords d.table slot with
    | none => some (nack .range)
    | some words =>
        match words.foldlM (Gather.word d.table) .new with
        | .error .range => some (nack .range)
        | .error .overflow => none
        | .ok g =>
            if g.spans.val.isEmpty then some (nack .range)
            else if g.total > UInt16.ofNat maxPayload then some (nack .limit)
            else some (Reply.sendStatusGather reply .ok alert g.spans.val)

end Dispatcher

/-! ## One span -/

theorem count_lt_of_spanOf {w addr count : ℕ} (h : spanOf w = some (addr, count)) : count < 64 := by
  simp only [spanOf] at h
  split at h
  · cases h
  · cases h
    exact Nat.mod_lt _ (by decide)

theorem length_liveBytes (t : ControlTable) (span : ℕ × ℕ) :
    (liveBytes t span).length = span.2 := by
  simp [liveBytes]

theorem read_inTable {t : ControlTable} {addr count : ℕ} (h : InTable (addr, count)) :
    t.read addr count = .ok (liveBytes t (addr, count)) := by
  have hsize : t.bytes.length = tableSize := t.length_eq
  have hfits : addr + count ≤ tableSize := h
  have hinside : ¬ addr + count > controlMap.size := Nat.not_lt.mpr hfits
  rw [Storage.read, if_neg hinside]
  congr 1
  apply List.ext_getElem
  · rw [List.length_take, List.length_drop, length_liveBytes]
    omega
  · intro i hleft hright
    rw [length_liveBytes] at hright
    have hi : addr + i < t.bytes.length := by
      rw [hsize]
      dsimp only at hright
      omega
    simp only [liveBytes, List.getElem_take, List.getElem_drop, List.getElem_map,
      List.getElem_range', one_mul, Storage.get, List.getD_eq_getElem _ _ hi]

theorem read_not_inTable {t : ControlTable} {addr count : ℕ} (h : ¬ InTable (addr, count)) :
    t.read addr count = .error .outOfRange :=
  if_pos (Nat.lt_of_not_le h)

/-! ## The whole loop -/

theorem gatherSpans_inTable {t : ControlTable} {words : List ℕ}
    (h : ∀ span ∈ words.filterMap spanOf, InTable span) :
    Dispatcher.gatherSpans t words =
      some ((words.filterMap spanOf).map (liveBytes t), spanTotal (words.filterMap spanOf)) := by
  induction words with
  | nil => rfl
  | cons w words ih =>
      rw [Dispatcher.gatherSpans]
      cases hspan : spanOf w with
      | none =>
          rw [List.filterMap_cons_none hspan] at h ⊢
          exact ih h
      | some span =>
          rw [List.filterMap_cons_some hspan] at h ⊢
          obtain ⟨hspan, htail⟩ := List.forall_mem_cons.mp h
          simp only [read_inTable hspan, ih htail]
          rfl

theorem gatherSpans_not_inTable {t : ControlTable} {words : List ℕ}
    (h : ¬ ∀ span ∈ words.filterMap spanOf, InTable span) :
    Dispatcher.gatherSpans t words = none := by
  induction words with
  | nil => exact absurd (by simp) h
  | cons w words ih =>
      rw [Dispatcher.gatherSpans]
      cases hspan : spanOf w with
      | none =>
          rw [List.filterMap_cons_none hspan] at h
          exact ih h
      | some span =>
          rw [List.filterMap_cons_some hspan, List.forall_mem_cons, not_and_or] at h
          by_cases hin : InTable span
          · have htail := h.resolve_left (not_not_intro hin)
            simp only [read_inTable hin, ih htail]
            rfl
          · simp only [read_not_inTable hin]

namespace Gather

/-- Room for `n` more words: a place in the array and a full count each. -/
def Room (g : Gather) (n : ℕ) : Prop :=
  g.spans.val.length + n ≤ gatherMax ∧ g.total.toNat + 63 * n < 2 ^ 16

/-- `g'` is `g` with these spans behind its own. -/
structure Extends (t : ControlTable) (g : Gather) (spans : List (ℕ × ℕ)) (g' : Gather) : Prop where
  spans_eq : g'.spans.val = g.spans.val ++ spans.map (liveBytes t)
  total_eq : g'.total.toNat = g.total.toNat + spanTotal spans

/-- With room for it, a span inside the table is added. -/
theorem word_inTable {t : ControlTable} {g : Gather} {w n : ℕ} {span : ℕ × ℕ}
    (hroom : g.Room (n + 1)) (hspan : spanOf w = some span) (hin : InTable span) :
    ∃ g', word t g w = .ok g' ∧ g.Extends t [span] g' ∧ g'.Room n := by
  obtain ⟨addr, count⟩ := span
  obtain ⟨hplace, hsum⟩ := hroom
  have hcount := count_lt_of_spanOf hspan
  have hfits : (g.spans.val ++ [liveBytes t (addr, count)]).length ≤ gatherMax := by
    rw [List.length_append, List.length_singleton]
    omega
  have hpush : g.spans.push (liveBytes t (addr, count)) = some ⟨_, hfits⟩ :=
    BoundedVec.push_eq_some.mpr rfl
  have htotal : (g.total + UInt16.ofNat count).toNat = g.total.toNat + count := by
    rw [UInt16.toNat_add, UInt16.toNat_ofNat']
    omega
  refine ⟨⟨⟨_, hfits⟩, g.total + UInt16.ofNat count⟩, ?_, ⟨rfl, ?_⟩, ?_, ?_⟩
  · simp only [word, hspan, read_inTable hin, hpush]
    rw [if_pos (by omega)]
  · simpa [spanTotal] using htotal
  · dsimp only
    rw [List.length_append, List.length_singleton]
    omega
  · dsimp only
    omega

theorem foldlM_inTable {t : ControlTable} {g : Gather} {words : List ℕ}
    (hroom : g.Room words.length) (h : ∀ span ∈ words.filterMap spanOf, InTable span) :
    ∃ g', words.foldlM (word t) g = .ok g' ∧ g.Extends t (words.filterMap spanOf) g' := by
  induction words generalizing g with
  | nil => exact ⟨g, rfl, by simp, by simp [spanTotal]⟩
  | cons w words ih =>
      cases hspan : spanOf w with
      | none =>
          rw [List.filterMap_cons_none hspan] at h ⊢
          have hskip : word t g w = .ok g := by simp only [word, hspan]
          obtain ⟨hplace, hsum⟩ := hroom
          rw [List.length_cons] at hplace hsum
          rw [List.foldlM_cons, hskip]
          exact ih ⟨by omega, by omega⟩ h
      | some span =>
          rw [List.filterMap_cons_some hspan] at h ⊢
          obtain ⟨hin, htail⟩ := List.forall_mem_cons.mp h
          obtain ⟨g₁, hword, hone, hroom₁⟩ := word_inTable (t := t) hroom hspan hin
          obtain ⟨g', hrest, hmore⟩ := ih hroom₁ htail
          refine ⟨g', ?_, ?_, ?_⟩
          · rw [List.foldlM_cons, hword]
            exact hrest
          · rw [hmore.spans_eq, hone.spans_eq]
            simp
          · rw [hmore.total_eq, hone.total_eq]
            simp [spanTotal, Nat.add_assoc]

theorem foldlM_not_inTable {t : ControlTable} {g : Gather} {words : List ℕ}
    (hroom : g.Room words.length) (h : ¬ ∀ span ∈ words.filterMap spanOf, InTable span) :
    words.foldlM (word t) g = .error .range := by
  induction words generalizing g with
  | nil => exact absurd (by simp) h
  | cons w words ih =>
      cases hspan : spanOf w with
      | none =>
          rw [List.filterMap_cons_none hspan] at h
          have hskip : word t g w = .ok g := by simp only [word, hspan]
          obtain ⟨hplace, hsum⟩ := hroom
          rw [List.length_cons] at hplace hsum
          rw [List.foldlM_cons, hskip]
          exact ih ⟨by omega, by omega⟩ h
      | some span =>
          rw [List.filterMap_cons_some hspan, List.forall_mem_cons, not_and_or] at h
          by_cases hin : InTable span
          · obtain ⟨g₁, hword, -, hroom₁⟩ := word_inTable (t := t) hroom hspan hin
            rw [List.foldlM_cons, hword]
            exact ih hroom₁ (h.resolve_left (not_not_intro hin))
          · have hstop : word t g w = .error .range := by
              simp only [word, hspan, read_not_inTable hin]
            rw [List.foldlM_cons, hstop]
            rfl

end Gather

/-! ## The answer -/

theorem length_slotWords {t : ControlTable} {slot : Byte} {words : List ℕ}
    (h : slotWords t slot = some words) : words.length = gatherMax := by
  simp only [slotWords] at h
  split at h
  · cases h
  · cases h
    rw [List.length_map, List.length_range]
    rfl

theorem slotWords_eq_none {t : ControlTable} {slot : Byte} :
    slotWords t slot = none ↔ ¬ slot.toNat < 4 := by
  have hslots : slot ≥ profileSlots ↔ 4 ≤ slot.toNat := UInt8.le_iff_toNat_le
  rw [slotWords, not_lt, ← hslots]
  split <;> simp_all

theorem length_flatten_liveBytes (t : ControlTable) (spans : List (ℕ × ℕ)) :
    (spans.map (liveBytes t)).flatten.length = spanTotal spans := by
  rw [List.length_flatten, List.map_map, spanTotal]
  congr 1
  exact List.map_congr_left fun span _ => length_liveBytes t span

/-- Send an answer: the gathered spans, or the bare reason. -/
def sendAnswer {ρ : Type} [Reply ρ] (alert : Bool) (answer : Except ResultCode (List (List Byte)))
    (reply : ρ) : ρ :=
  match answer with
  | .ok spans => Reply.sendStatusGather reply .ok alert spans
  | .error code => Reply.sendStatus reply ⟨code, alert, []⟩

theorem profileAnswer_of_words {t : ControlTable} {slot : Byte} {words : List ℕ}
    (h : slotWords t slot = some words) :
    profileAnswer t slot =
      if words.filterMap spanOf ≠ [] ∧ ∀ span ∈ words.filterMap spanOf, InTable span then
        if spanTotal (words.filterMap spanOf) ≤ 252 then
          .ok ((words.filterMap spanOf).map (liveBytes t))
        else .error .limit
      else .error .range := by
  have hslot : slot.toNat < 4 := by
    by_contra hbad
    rw [slotWords_eq_none.mpr hbad] at h
    cases h
  simp only [profileAnswer, profileSpans, h, Option.getD_some, hslot, true_and]

namespace Dispatcher

variable {σ ρ : Type} [Reply ρ]

theorem readProfile_eq (d : Dispatcher σ) (alert : Bool) {ctx : RequestCtx}
    (hreply : ctx.mayReply = true) (slot : Byte) (reply : ρ) :
    d.readProfile alert ctx slot reply =
      sendAnswer alert (profileAnswer d.table slot) reply := by
  simp only [readProfile, hreply, Bool.not_true, Bool.false_eq_true, if_false]
  cases hwords : slotWords d.table slot with
  | none =>
      rw [profileAnswer, if_neg fun h => slotWords_eq_none.mp hwords h.1]
      rfl
  | some words =>
      rw [profileAnswer_of_words hwords]
      by_cases hin : ∀ span ∈ words.filterMap spanOf, InTable span
      · simp only [gatherSpans_inTable hin, List.isEmpty_map, List.isEmpty_iff]
        by_cases hempty : words.filterMap spanOf = []
        · rw [if_pos hempty, if_neg fun h => h.1 hempty]
          rfl
        · have hgood : words.filterMap spanOf ≠ [] ∧
              ∀ span ∈ words.filterMap spanOf, InTable span := ⟨hempty, hin⟩
          rw [if_neg hempty, if_pos hgood]
          by_cases hshort : spanTotal (words.filterMap spanOf) ≤ 252
          · have hfits : ¬ spanTotal (words.filterMap spanOf) > maxPayload := Nat.not_lt.mpr hshort
            rw [if_neg hfits, if_pos hshort]
            rfl
          · have hlong : spanTotal (words.filterMap spanOf) > maxPayload := Nat.lt_of_not_le hshort
            rw [if_pos hlong, if_neg hshort]
            rfl
      · rw [if_neg fun h => hin h.2]
        simp only [gatherSpans_not_inTable hin]
        rfl

/-- The bounded loop never runs out of room, and answers as the unbounded one. -/
theorem readProfileBounded_eq (d : Dispatcher σ) (alert : Bool) (ctx : RequestCtx) (slot : Byte)
    (reply : ρ) :
    d.readProfileBounded alert ctx slot reply = some (d.readProfile alert ctx slot reply) := by
  simp only [readProfileBounded, readProfile]
  by_cases hsilent : (!ctx.mayReply) = true
  · rw [if_pos hsilent, if_pos hsilent]
  · rw [if_neg hsilent, if_neg hsilent]
    cases hwords : slotWords d.table slot with
    | none => rfl
    | some words =>
        have hlength := length_slotWords hwords
        have hroom : Gather.new.Room words.length := by
          rw [hlength]
          exact ⟨by decide, by decide⟩
        by_cases hin : ∀ span ∈ words.filterMap spanOf, InTable span
        · obtain ⟨g, hloop, hspans, htotal⟩ := Gather.foldlM_inTable hroom hin
          have hnew : g.spans.val = (words.filterMap spanOf).map (liveBytes d.table) := by
            rw [hspans]
            rfl
          have htotal : g.total.toNat = spanTotal (words.filterMap spanOf) := by
            rw [htotal]
            exact Nat.zero_add _
          have hlong : g.total > UInt16.ofNat maxPayload ↔
              spanTotal (words.filterMap spanOf) > maxPayload := by
            rw [gt_iff_lt, UInt16.lt_iff_toNat_lt, htotal]
            rfl
          simp only [hloop, hnew, gatherSpans_inTable hin, hlong]
          split_ifs <;> rfl
        · simp only [Gather.foldlM_not_inTable hroom hin, gatherSpans_not_inTable hin]

end Dispatcher

/-- The transmitter takes a gather within the ceiling unless it is busy. -/
theorem stageGather_within {spans : List (List Byte)} (h : spans.flatten.length ≤ 252)
    (tx : TxEngine) (crc : CrcEngine) (id : Byte) (result : ResultCode) (alert : Bool) :
    (tx.stageGather crc id result alert spans).1 = if tx.busy then .error .busy else .ok () := by
  have hfits : ¬ spans.flatten.length > maxPayload := Nat.not_lt.mpr h
  rw [TxEngine.stageGather]
  by_cases hbusy : tx.busy = true
  · rw [if_pos hbusy, if_pos hbusy]
  · rw [if_neg hbusy, if_neg hbusy, if_neg hfits]

theorem flatten_of_profileAnswer {t : ControlTable} {slot : Byte} {spans : List (List Byte)}
    (h : profileAnswer t slot = .ok spans) :
    spans = (profileSpans t slot).map (liveBytes t) ∧ spans.flatten.length ≤ 252 := by
  simp only [profileAnswer] at h
  split_ifs at h with hgood hshort
  cases h
  exact ⟨rfl, by rw [length_flatten_liveBytes]; exact hshort⟩

/-- A profile read that may answer answers exactly `profileAnswer`, its loop never
overflows, and the transmitter takes every gather it is answered with. -/
theorem profile_read_is_exact {σ ρ : Type} [Reply ρ] (d : Dispatcher σ) (alert : Bool)
    (ctx : RequestCtx) (slot : Byte) (reply : ρ) :
    d.readProfileBounded alert ctx slot reply =
        some (if ctx.mayReply then sendAnswer alert (profileAnswer d.table slot) reply
          else reply) ∧
      d.readProfile alert ctx slot reply =
        (if ctx.mayReply then sendAnswer alert (profileAnswer d.table slot) reply else reply) ∧
      ∀ spans, profileAnswer d.table slot = .ok spans →
        ∀ (tx : TxEngine) (crc : CrcEngine) (id : Byte),
          (tx.stageGather crc id .ok alert spans).1 =
            if tx.busy then .error .busy else .ok () := by
  have hread : d.readProfile alert ctx slot reply =
      (if ctx.mayReply then sendAnswer alert (profileAnswer d.table slot) reply else reply) := by
    cases hreply : ctx.mayReply with
    | false => simp [Dispatcher.readProfile, hreply]
    | true => rw [d.readProfile_eq alert hreply, if_pos rfl]
  refine ⟨?_, hread, fun spans hok tx crc id => ?_⟩
  · rw [d.readProfileBounded_eq, hread]
  · exact stageGather_within (flatten_of_profileAnswer hok).2 tx crc id .ok alert

/-- A wire that keeps the statuses it was sent. -/
local instance statusLog : Reply (List Status) where
  sendStatus sent status := sent ++ [status]
  sendStatusGather sent result alert spans := sent ++ [⟨result, alert, spans.flatten⟩]
  stageId sent _ := sent
  setId sent _ := sent
  stageBaud sent _ := sent
  setResponseDeadline sent _ := sent
  stageReboot sent _ := sent
  beginClockCal sent _ _ := sent

/-- Slot 1 holds a disabled word, three bytes at 0x00E, another disabled word and two
bytes at 0x020. -/
def profileBench : ControlTable :=
  (ControlTable.new.copy 0x290 [0x40, 0x00, 0x83, 0x03, 0x00, 0x08, 0x02, 0x08]).set 0x010 7

theorem profile_read_on_the_bench :
    ((⟨profileBench, [], none, .new, none⟩ : Dispatcher Unit).readProfile false ⟨true⟩ 1 [] =
        [(⟨.ok, false, [0, 0, 7, 0, 0]⟩ : Status)]) ∧
      (TxEngine.new.stageGather .new 5 .ok false [[0, 0, 7], [0, 0]]).1 = .ok () := by
  obtain ⟨-, hread, haccepts⟩ := profile_read_is_exact
    (⟨profileBench, [], none, .new, none⟩ : Dispatcher Unit) false ⟨true⟩ 1 ([] : List Status)
  have hanswer : profileAnswer profileBench 1 = .ok [[0, 0, 7], [0, 0]] := by decide +kernel
  rw [hanswer] at hread
  exact ⟨hread, haccepts _ hanswer .new .new 5⟩

end OpenServo
