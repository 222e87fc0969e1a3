import OpenServo.Client.Commands

/-!
# The cyclic exchange

A cycle is configured once and stepped forever: one held GWRITE for each group,
one COMMIT so that the fleet applies in the same instant, then the telemetry.  A
slice of the wrong width is found when its own group is reached, after the writes
of the groups before it are staged.
-/

namespace OpenServo.Client

/-- One uniform GWRITE: `count` bytes at `addr` for each listed target. -/
structure Group where
  addr : UInt16
  count : Byte
  ids : List Id
  deriving DecidableEq, Repr

/-- The read half of a step. -/
inductive Telemetry where
  | span (ids : List Id) (addr count : UInt16)
  | profile (ids : List Id) (slot : Byte)
  deriving DecidableEq, Repr

structure Cycle where
  groups : List Group
  telemetry : Telemetry
  deriving DecidableEq, Repr

namespace Cycle

/-- Payload slots of one step, group-major. -/
def payloadSlots (cycle : Cycle) : ℕ := (cycle.groups.map fun g => g.ids.length).sum

/-- The write half: every group checks its own slices, then sends them. -/
def writeHalf : List Group → List (List Byte) → Attempt Client ClientError Unit
  | [], _ => pure ()
  | g :: groups, next =>
      let batch := next.take g.ids.length
      if batch.any fun d => d.length != g.count.toNat then .fail (.servo .range)
      else do
        gwriteHold g.addr g.count (g.ids.zip batch)
        writeHalf groups (next.drop g.ids.length)

def readHalf : Telemetry → Attempt Client ClientError Chain
  | .span ids addr count => gread ids addr count
  | .profile ids slot => greadProfile ids slot

/-- One hot-loop exchange; `payloads` is group-major. -/
def step (cycle : Cycle) (payloads : List (List Byte)) : Attempt Client ClientError Chain :=
  if payloads.length ≠ cycle.payloadSlots then .fail (.servo .range)
  else do
    writeHalf cycle.groups payloads
    commit
    readHalf cycle.telemetry

/-! ## The slices of each group -/

/-- Every group with the slices it is fed. -/
def batches : List Group → List (List Byte) → List (Group × List (List Byte))
  | [], _ => []
  | g :: groups, next => (g, next.take g.ids.length) :: batches groups (next.drop g.ids.length)

/-- Some slice is not as wide as its group's count. -/
def Malformed (fed : Group × List (List Byte)) : Prop :=
  ∃ slice ∈ fed.2, slice.length ≠ fed.1.count.toNat

/-- The slices are as wide as they have to be, and the payload builder takes them. -/
def Sendable (fed : Group × List (List Byte)) : Prop :=
  ¬ Malformed fed ∧ (gwritePayload fed.1.addr fed.1.count (fed.1.ids.zip fed.2)).isSome

theorem malformed_iff (g : Group) (batch : List (List Byte)) :
    (batch.any fun d => d.length != g.count.toNat) = true ↔ Malformed (g, batch) := by
  simp only [Malformed, List.any_eq_true, bne_iff_ne]

/-! ## What a refused batch leaves on the pipe -/

/-- The write half is refused at the first malformed group, behind one transfer
for each group before it. -/
theorem writeHalf_range {groups : List Group} {next : List (List Byte)} {client client' : Client}
    (hrefused : writeHalf groups next client = (.error (.servo .range), client')) :
    ∃ before fed after, batches groups next = before ++ fed :: after ∧
      (∀ earlier ∈ before, Sendable earlier) ∧ Malformed fed ∧
      ∃ frames : List (List Byte), client'.pipe.sent = client.pipe.sent ++ frames ∧
        frames.length = before.length := by
  induction groups generalizing next client with
  | nil => cases hrefused
  | cons g groups ih =>
      rw [writeHalf] at hrefused
      by_cases hmalformed : Malformed (g, next.take g.ids.length)
      · rw [if_pos ((malformed_iff _ _).mpr hmalformed)] at hrefused
        cases hrefused
        exact ⟨[], _, _, rfl, by simp, hmalformed, [], by simp, rfl⟩
      · rw [if_neg (fun hany => hmalformed ((malformed_iff _ _).mp hany))] at hrefused
        obtain hwrite | ⟨_, middle, hwrite, hrest⟩ := Attempt.bind_eq_error hrefused
        · exact absurd (congrArg Prod.fst hwrite) (gwriteHold_avoids _ _ _ client)
        · obtain ⟨hbuilt, bytes, hsent⟩ := gwriteHold_ok hwrite
          obtain ⟨before, fed, after, hbatches, hbefore, hfed, frames, hframes, hlen⟩ := ih hrest
          refine ⟨(g, next.take g.ids.length) :: before, fed, after, ?_, ?_, hfed,
            bytes :: frames, ?_, ?_⟩
          · rw [batches, hbatches, List.cons_append]
          · exact List.forall_mem_cons.mpr ⟨⟨hmalformed, hbuilt⟩, hbefore⟩
          · rw [hframes, hsent, List.append_assoc, List.singleton_append]
          · rw [List.length_cons, List.length_cons, hlen]

/-- A prompt adapter lets every group before the malformed one through. -/
theorem writeHalf_reaches {groups : List Group} {next : List (List Byte)} {client : Client}
    {before after : List (Group × List (List Byte))} {fed : Group × List (List Byte)}
    (hbatches : batches groups next = before ++ fed :: after)
    (hbefore : ∀ earlier ∈ before, Sendable earlier) (hfed : Malformed fed)
    (hprompt : Prompt before.length client) :
    ∃ client', writeHalf groups next client = (.error (.servo .range), client') ∧
      client'.pipe.sent.length = client.pipe.sent.length + before.length := by
  induction before generalizing groups next client with
  | nil =>
      cases groups with
      | nil => cases hbatches
      | cons g groups =>
          obtain ⟨rfl, -⟩ := List.cons.inj hbatches
          rw [writeHalf, if_pos ((malformed_iff _ _).mpr hfed)]
          exact ⟨client, rfl, rfl⟩
  | cons earlier before ih =>
      cases groups with
      | nil => cases hbatches
      | cons g groups =>
          obtain ⟨rfl, htail⟩ := List.cons.inj hbatches
          obtain ⟨⟨hshaped, hbuilt⟩, hbefore⟩ := List.forall_mem_cons.mp hbefore
          obtain ⟨middle, hwrite, hmiddle⟩ := hprompt.gwriteHold hbuilt
          obtain ⟨client', hrest, hlen⟩ := ih htail hbefore hmiddle
          obtain ⟨-, bytes, hsent⟩ := gwriteHold_ok hwrite
          refine ⟨client', ?_, ?_⟩
          · rw [writeHalf, if_neg (fun hany => hshaped ((malformed_iff _ _).mp hany))]
            exact (Attempt.bind_ok hwrite).trans hrest
          · rw [hlen, hsent]
            simp only [List.length_append, List.length_cons, List.length_nil]
            omega

theorem readHalf_avoids (telemetry : Telemetry) : (readHalf telemetry).Avoids (.servo .range) := by
  cases telemetry with
  | span ids addr count => exact gread_avoids ids addr count
  | profile ids slot => exact greadProfile_avoids ids slot

/-- With the right slot count, only the write half answers `range`. -/
theorem step_range {cycle : Cycle} {payloads : List (List Byte)} {client client' : Client}
    (hslots : payloads.length = cycle.payloadSlots) :
    cycle.step payloads client = (.error (.servo .range), client') ↔
      writeHalf cycle.groups payloads client = (.error (.servo .range), client') := by
  rw [step, if_neg (not_not.mpr hslots)]
  constructor
  · intro hrefused
    obtain hwrite | ⟨_, middle, -, hrest⟩ := Attempt.bind_eq_error hrefused
    · exact hwrite
    · have havoids : (commit >>= fun _ => readHalf cycle.telemetry).Avoids (.servo .range) :=
        .bind commit_avoids fun _ => readHalf_avoids _
      exact absurd (congrArg Prod.fst hrest) (havoids middle)
  · exact Attempt.bind_error

/-- A batch refused with `range` is refused before anything was sent exactly when
the slot count is wrong, or every malformed group that the write half can reach
is the first one. -/
theorem range_sends_nothing_iff (cycle : Cycle) (payloads : List (List Byte)) :
    (∀ client client', cycle.step payloads client = (.error (.servo .range), client') →
        client'.pipe.sent = client.pipe.sent) ↔
      payloads.length ≠ cycle.payloadSlots ∨
        ∀ before fed after, batches cycle.groups payloads = before ++ fed :: after →
          (∀ earlier ∈ before, Sendable earlier) → Malformed fed → before = [] := by
  constructor
  · intro hnothing
    by_cases hslots : payloads.length = cycle.payloadSlots
    case neg => exact .inl hslots
    right
    intro before fed after hbatches hbefore hfed
    obtain ⟨client', hrefused, hlen⟩ :=
      writeHalf_reaches hbatches hbefore hfed (fleet_prompt before.length)
    have hsent := hnothing _ _ ((step_range hslots).mpr hrefused)
    rw [hsent] at hlen
    exact List.eq_nil_of_length_eq_zero (by omega)
  · intro hwhen client client' hrefused
    by_cases hslots : payloads.length = cycle.payloadSlots
    · obtain ⟨before, fed, after, hbatches, hbefore, hfed, frames, hframes, hlen⟩ :=
        writeHalf_range ((step_range hslots).mp hrefused)
      have hfirst :=
        (hwhen.resolve_left (not_not.mpr hslots)) before fed after hbatches hbefore hfed
      rw [hfirst, List.length_nil] at hlen
      rw [hframes, List.eq_nil_of_length_eq_zero hlen, List.append_nil]
    · rw [step, if_pos hslots] at hrefused
      cases hrefused
      rfl

def twoGroups : Cycle := ⟨[⟨0x40, 1, [⟨1⟩]⟩, ⟨0x50, 4, [⟨2⟩]⟩], .span [⟨1⟩, ⟨2⟩] 0x40 1⟩

/-- The first of two groups is fed a narrow slice: refused with nothing sent. -/
theorem narrow_slice_sends_nothing :
    (twoGroups.step [[], [0, 0, 0, 0]] (fleet 0)).2.pipe.sent = [] := by
  have hfirst : ∀ before fed after,
      batches twoGroups.groups [[], [0, 0, 0, 0]] = before ++ fed :: after →
        (∀ earlier ∈ before, Sendable earlier) → Malformed fed → before = [] := by
    intro before fed after hbatches hsendable _
    cases before with
    | nil => rfl
    | cons head before =>
        obtain rfl : (⟨0x40, 1, [⟨1⟩]⟩, [[]]) = head := (List.cons.inj hbatches).1
        exact absurd ⟨[], List.mem_singleton_self _, by decide⟩
          (hsendable _ List.mem_cons_self).1
  exact (range_sends_nothing_iff twoGroups [[], [0, 0, 0, 0]]).mpr (.inr hfirst) (fleet 0) _ rfl

/-- The first group's write is staged on its servo when the second group's slice
turns out narrow. -/
theorem second_narrow_slice_leaves_a_write_staged :
    ¬ ∀ (cycle : Cycle) (payloads : List (List Byte)) (client client' : Client),
      cycle.step payloads client = (.error (.servo .range), client') →
        client'.pipe.sent = client.pipe.sent := by
  intro hnothing
  have hbatches : batches twoGroups.groups [[7], [0, 0]] =
      [(⟨0x40, 1, [⟨1⟩]⟩, [[7]])] ++ (⟨0x50, 4, [⟨2⟩]⟩, [[0, 0]]) :: [] := rfl
  have hfirst : Sendable (⟨0x40, 1, [⟨1⟩]⟩, [[7]]) := ⟨by simp [Malformed], by decide⟩
  have hsecond : Malformed (⟨0x50, 4, [⟨2⟩]⟩, [[0, 0]]) :=
    ⟨[0, 0], List.mem_singleton_self _, by decide⟩
  obtain ⟨client', hrefused, hlen⟩ := writeHalf_reaches hbatches
    (List.forall_mem_singleton.mpr hfirst) hsecond (fleet_prompt 1)
  have hsent := hnothing twoGroups [[7], [0, 0]] _ _ ((step_range rfl).mpr hrefused)
  rw [hsent] at hlen
  exact absurd hlen (by decide)

end Cycle

end OpenServo.Client
