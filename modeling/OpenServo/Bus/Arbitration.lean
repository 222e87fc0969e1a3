import OpenServo.Bus.Chain
import OpenServo.Bus.Reading
import OpenServo.Core.Transition

/-!
# Group replies in turn

One group read, answered by every listed servo that is alive.  Each runs its
own chain and sees only status ends and its own expired windows; the network
below interleaves these freely.  No servo knows the others' state, yet the
replies come in slot order, each once, and flag a silent predecessor exactly
when there is one.
-/

namespace OpenServo.Bus

open Transition

/-- One live servo of the group: its chain, the slots whose status end it has
observed and the dead slots whose window has expired for it. -/
structure Listener where
  chain : Chain
  heard : Finset ℕ
  expired : Finset ℕ

/-- The servos of a group by slot, and the replies triggered so far with their
`predecessor_silent` flags. -/
structure Group where
  servos : ℕ → Listener
  replies : List (ℕ × Bool)

inductive GroupEvent where
  | statusEnd (slot servo : ℕ) (packetEnd : UInt32)
  | deadline (servo : ℕ) (now : UInt32)
  | reclaim (servo slot : ℕ) (now : UInt32)
  deriving DecidableEq, Repr

namespace Group

def listen (group : Group) (servo : ℕ) (listener : Listener) : Group :=
  { group with servos := Function.update group.servos servo listener }

/-- A chain deadline fires at one servo. -/
def fire (group : Group) (servo : ℕ) (now : UInt32) : Group :=
  let (chain, out) := (group.servos servo).chain.onDeadline now
  let group := group.listen servo { group.servos servo with chain }
  match out with
  | .trigger silent => { group with replies := group.replies ++ [(servo, silent)] }
  | _ => group

def step (group : Group) : GroupEvent → Group
  | .statusEnd slot servo packetEnd =>
      let listener := group.servos servo
      group.listen servo
        { listener with
          chain := (listener.chain.onStatusEnd packetEnd).1
          heard := insert slot listener.heard }
  | .deadline servo now => group.fire servo now
  | .reclaim servo slot now =>
      let listener := group.servos servo
      (group.listen servo { listener with expired := insert slot listener.expired }).fire servo now

@[simp]
theorem listen_self (group : Group) (servo : ℕ) (listener : Listener) :
    (group.listen servo listener).servos servo = listener :=
  Function.update_self _ _ _

theorem listen_other (group : Group) {servo k : ℕ} (hne : k ≠ servo) (listener : Listener) :
    (group.listen servo listener).servos k = group.servos k :=
  Function.update_of_ne hne _ _

/-- The slots that have triggered, in order. -/
def started (group : Group) : List ℕ := group.replies.map Prod.fst

end Group

section Group

variable (n : ℕ) (dead : ℕ → Bool)

/-- The interleavings in question.  A status end is observed once by each other
live servo, after its slot triggered; a pending servo's deadline may fire at any
time; a waiting servo's window expires once for each dead slot before its own. -/
def Group.Allowed (group : Group) : GroupEvent → Prop
  | .statusEnd slot servo _ =>
      servo < n ∧ dead servo = false ∧ slot ≠ servo ∧ slot ∈ group.started ∧
        slot ∉ (group.servos servo).heard
  | .deadline servo _ =>
      servo < n ∧ dead servo = false ∧ ∃ silent, (group.servos servo).chain.state = .pending silent
  | .reclaim servo slot _ =>
      servo < n ∧ dead servo = false ∧ slot < servo ∧ dead slot = true ∧
        slot ∉ (group.servos servo).expired ∧ (group.servos servo).chain.waiting = true

instance (group : Group) (event : GroupEvent) : Decidable (group.Allowed n dead event) :=
  match event with
  | .statusEnd _ _ _ => inferInstanceAs (Decidable (_ ∧ _ ∧ _ ∧ _ ∧ _))
  | .deadline _ _ => inferInstanceAs (Decidable (_ ∧ _ ∧ ∃ _silent : Bool, _))
  | .reclaim _ _ _ => inferInstanceAs (Decidable (_ ∧ _ ∧ _ ∧ _ ∧ _ ∧ _))

/-- The live and the dead slots before `slot`. -/
def liveBefore (slot : ℕ) : Finset ℕ := (Finset.range slot).filter fun j => dead j = false

def deadBefore (slot : ℕ) : Finset ℕ := (Finset.range slot).filter fun j => dead j = true

theorem card_before (slot : ℕ) :
    (liveBefore dead slot).card + (deadBefore dead slot).card = slot := by
  have hsplit := Finset.card_filter_add_card_filter_not (s := Finset.range slot)
    (fun j => dead j = false)
  simp only [Bool.not_eq_false, Finset.card_range] at hsplit
  exact hsplit

variable {dead} in
/-- A servo that has accounted for as many slots as precede it has accounted
for all of them. -/
theorem accounted {slot : ℕ} {heard expired : Finset ℕ} (hheard : heard ⊆ liveBefore dead slot)
    (hexpired : expired ⊆ deadBefore dead slot) (hcard : slot ≤ heard.card + expired.card) :
    heard = liveBefore dead slot ∧ expired = deadBefore dead slot := by
  have hsum := card_before dead slot
  have hlive := Finset.card_le_card hheard
  have hdead := Finset.card_le_card hexpired
  exact ⟨Finset.eq_of_subset_of_card_le hheard (by omega),
    Finset.eq_of_subset_of_card_le hexpired (by omega)⟩

/-- A servo at `slot` that has not triggered: what it still waits for is what
it has not accounted for, and its flag is latched by an expired window. -/
def Awaits (slot : ℕ) (listener : Listener) : Prop :=
  match listener.chain.state with
  | .idle => False
  | .pending silent =>
      listener.heard.card + listener.expired.card = slot ∧
        (silent = true ↔ listener.expired.Nonempty)
  | .waiting remaining silent =>
      0 < remaining ∧ listener.heard.card + listener.expired.card + remaining = slot ∧
        (silent = true ↔ listener.expired.Nonempty)

structure Sequenced (group : Group) : Prop where
  live : ∀ k ∈ group.started, k < n ∧ dead k = false
  once : group.started.Nodup
  heard : ∀ k < n, dead k = false → ∀ j ∈ (group.servos k).heard, j ∈ group.started
  expired : ∀ k < n, dead k = false → (group.servos k).expired ⊆ deadBefore dead k
  awaits : ∀ k < n, dead k = false → k ∉ group.started → Awaits k (group.servos k)
  idle : ∀ k ∈ group.started, (group.servos k).chain.state = .idle
  ended : ∀ k ∈ group.started, liveBefore dead k ⊆ (group.servos k).heard
  inTurn : ∀ i k silent, group.replies[i]? = some (k, silent) →
    (∀ j ∈ liveBefore dead k, j ∈ (group.replies.take i).map Prod.fst) ∧
      (silent = true ↔ (deadBefore dead k).Nonempty)

end Group

@[simp]
theorem mem_liveBefore {dead : ℕ → Bool} {slot j : ℕ} :
    j ∈ liveBefore dead slot ↔ j < slot ∧ dead j = false := by
  simp [liveBefore]

@[simp]
theorem mem_deadBefore {dead : ℕ → Bool} {slot j : ℕ} :
    j ∈ deadBefore dead slot ↔ j < slot ∧ dead j = true := by
  simp [deadBefore]

namespace Sequenced

variable {n : ℕ} {dead : ℕ → Bool} {group : Group}

/-- Whoever triggered did so after every live slot before it. -/
theorem started_before (h : Sequenced n dead group) {j k : ℕ} (hk : k ∈ group.started)
    (hj : j ∈ liveBefore dead k) : j ∈ group.started := by
  obtain ⟨⟨slot, silent⟩, hmem, rfl⟩ := List.mem_map.mp hk
  obtain ⟨i, hi⟩ := List.mem_iff_getElem?.mp hmem
  obtain ⟨⟨slot', silent'⟩, hmem', rfl⟩ := List.mem_map.mp ((h.inTurn i _ _ hi).1 j hj)
  exact List.mem_map.mpr ⟨_, List.mem_of_mem_take hmem', rfl⟩

/-- A servo that has not triggered has heard live predecessors only. -/
theorem heard_subset (h : Sequenced n dead group) {k : ℕ} (hk : k < n) (hlive : dead k = false)
    (hnot : k ∉ group.started) : (group.servos k).heard ⊆ liveBefore dead k := by
  intro j hj
  have hstarted := h.heard k hk hlive j hj
  refine mem_liveBefore.mpr ⟨?_, (h.live j hstarted).2⟩
  by_contra hge
  have hne : j ≠ k := by
    rintro rfl
    exact hnot hstarted
  exact hnot (h.started_before hstarted (mem_liveBefore.mpr ⟨by omega, hlive⟩))

/-- A servo moves to another state of the same kind: waiting for its turn, or
done with it. -/
theorem listen (h : Sequenced n dead group) {k : ℕ} {listener : Listener}
    (hheard : ∀ j ∈ listener.heard, j ∈ group.started)
    (hexpired : listener.expired ⊆ deadBefore dead k)
    (hawaits : k ∉ group.started → Awaits k listener)
    (hdone : k ∈ group.started →
      listener.chain.state = .idle ∧ liveBefore dead k ⊆ listener.heard) :
    Sequenced n dead (group.listen k listener) := by
  have hother : ∀ {i}, i ≠ k → (group.listen k listener).servos i = group.servos i :=
    fun hne => group.listen_other hne listener
  have hself := group.listen_self k listener
  refine ⟨h.live, h.once, ?_, ?_, ?_, ?_, ?_, h.inTurn⟩
  · intro i hi hlivei j hj
    by_cases hik : i = k
    · subst hik
      rw [hself] at hj
      exact hheard j hj
    · rw [hother hik] at hj
      exact h.heard i hi hlivei j hj
  · intro i hi hlivei
    by_cases hik : i = k
    · subst hik
      rwa [hself]
    · rw [hother hik]
      exact h.expired i hi hlivei
  · intro i hi hlivei hnoti
    by_cases hik : i = k
    · subst hik
      rw [hself]
      exact hawaits hnoti
    · rw [hother hik]
      exact h.awaits i hi hlivei hnoti
  · intro i hi
    by_cases hik : i = k
    · subst hik
      rw [hself]
      exact (hdone hi).1
    · rw [hother hik]
      exact h.idle i hi
  · intro i hi
    by_cases hik : i = k
    · subst hik
      rw [hself]
      exact (hdone hi).2
    · rw [hother hik]
      exact h.ended i hi

/-- A servo that has accounted for every slot before its own takes its turn. -/
theorem trigger (h : Sequenced n dead group) {k : ℕ} {listener : Listener} {silent : Bool}
    (hk : k < n) (hlive : dead k = false) (hnot : k ∉ group.started)
    (hidle : listener.chain.state = .idle) (hheard : listener.heard = liveBefore dead k)
    (hended : ∀ j ∈ listener.heard, j ∈ group.started)
    (hexpired : listener.expired = deadBefore dead k)
    (hsilent : silent = true ↔ listener.expired.Nonempty) :
    Sequenced n dead
      { group.listen k listener with replies := group.replies ++ [(k, silent)] } := by
  have hstarted : ∀ {i}, i ∈ (group.replies ++ [(k, silent)]).map Prod.fst ↔
      i ∈ group.started ∨ i = k := by
    intro i
    simp [Group.started]
  have hother : ∀ {i}, i ≠ k → (group.listen k listener).servos i = group.servos i :=
    fun hne => group.listen_other hne listener
  have hself := group.listen_self k listener
  refine ⟨?_, ?_, ?_, ?_, ?_, ?_, ?_, ?_⟩
  · intro i hi
    obtain hi | rfl := hstarted.mp hi
    · exact h.live i hi
    · exact ⟨hk, hlive⟩
  · simp only [Group.started, List.map_append, List.map_cons, List.map_nil]
    exact List.Nodup.append h.once (List.nodup_singleton k)
      (List.disjoint_singleton.mpr hnot)
  · intro i hi hlivei j hj
    refine hstarted.mpr (.inl ?_)
    by_cases hik : i = k
    · subst hik
      rw [hself] at hj
      exact hended j hj
    · rw [hother hik] at hj
      exact h.heard i hi hlivei j hj
  · intro i hi hlivei
    by_cases hik : i = k
    · subst hik
      rw [hself, hexpired]
    · rw [hother hik]
      exact h.expired i hi hlivei
  · intro i hi hlivei hnoti
    have hboth := not_or.mp (fun hor => hnoti (hstarted.mpr hor))
    rw [hother hboth.2]
    exact h.awaits i hi hlivei hboth.1
  · intro i hi
    by_cases hik : i = k
    · subst hik
      rw [hself]
      exact hidle
    · rw [hother hik]
      exact h.idle i ((hstarted.mp hi).resolve_right hik)
  · intro i hi
    by_cases hik : i = k
    · subst hik
      rw [hself, hheard]
    · rw [hother hik]
      exact h.ended i ((hstarted.mp hi).resolve_right hik)
  · intro i slot flag hi
    obtain hlt | hge := Nat.lt_or_ge i group.replies.length
    · rw [List.getElem?_append_left hlt] at hi
      rw [List.take_append_of_le_length (by omega)]
      exact h.inTurn i slot flag hi
    · rw [List.getElem?_append_right hge, List.getElem?_singleton] at hi
      split at hi
      · obtain ⟨rfl, rfl⟩ := Prod.mk.inj (Option.some.inj hi)
        have hi : i = group.replies.length := by omega
        rw [hi, List.take_left]
        refine ⟨?_, by rw [hsilent, hexpired]⟩
        intro j hj
        rw [← hheard] at hj
        exact hended j hj
      · cases hi

theorem step_statusEnd (h : Sequenced n dead group) {slot k : ℕ} {packetEnd : UInt32}
    (hallowed : group.Allowed n dead (.statusEnd slot k packetEnd)) :
    Sequenced n dead (group.step (.statusEnd slot k packetEnd)) := by
  obtain ⟨hk, hlive, hne, hslot, hnew⟩ := hallowed
  have hcard := Finset.card_insert_of_notMem hnew
  refine h.listen ?_ (h.expired k hk hlive) ?_ ?_
  · intro j hj
    obtain rfl | hj := Finset.mem_insert.mp hj
    · exact hslot
    · exact h.heard k hk hlive j hj
  · intro hstarted
    have hbelow := h.heard_subset hk hlive hstarted
    have hawaits := h.awaits k hk hlive hstarted
    cases hstate : (group.servos k).chain.state with
    | idle => simp [Awaits, hstate] at hawaits
    | pending silent =>
        -- all live predecessors are heard already
        simp only [Awaits, hstate] at hawaits
        obtain ⟨hall, -⟩ := accounted hbelow (h.expired k hk hlive) hawaits.1.ge
        refine absurd ?_ hnew
        rw [hall, mem_liveBefore]
        refine ⟨?_, (h.live slot hslot).2⟩
        by_contra hge
        exact hstarted (h.started_before hslot (mem_liveBefore.mpr ⟨by omega, hlive⟩))
    | waiting remaining silent =>
        simp only [Awaits, hstate] at hawaits
        obtain ⟨hpos, hsum, hsilent⟩ := hawaits
        by_cases hlast : remaining - 1 = 0
        · simp only [Awaits, Chain.onStatusEnd, hstate, hlast, beq_self_eq_true, if_true, hcard]
          exact ⟨by omega, hsilent⟩
        · simp only [Awaits, Chain.onStatusEnd, hstate, beq_iff_eq, hlast, if_false, hcard]
          exact ⟨by omega, by omega, hsilent⟩
  · intro hstarted
    have hidle : ((group.servos k).chain.onStatusEnd packetEnd).1 = (group.servos k).chain := by
      simp only [Chain.onStatusEnd, h.idle k hstarted]
    rw [hidle]
    exact ⟨h.idle k hstarted, (h.ended k hstarted).trans (Finset.subset_insert _ _)⟩

theorem step_deadline (h : Sequenced n dead group) {k : ℕ} {now : UInt32}
    (hallowed : group.Allowed n dead (.deadline k now)) :
    Sequenced n dead (group.step (.deadline k now)) := by
  obtain ⟨hk, hlive, silent, hstate⟩ := hallowed
  have hstarted : k ∉ group.started := by
    intro hmem
    rw [h.idle k hmem] at hstate
    cases hstate
  have hawaits := h.awaits k hk hlive hstarted
  simp only [Awaits, hstate] at hawaits
  obtain ⟨hheard, hexpired⟩ :=
    accounted (h.heard_subset hk hlive hstarted) (h.expired k hk hlive) hawaits.1.ge
  have hfire : group.step (.deadline k now) =
      { group.listen k { group.servos k with chain := (group.servos k).chain.reset } with
        replies := group.replies ++ [(k, silent)] } := by
    simp only [Group.step, Group.fire, Chain.onDeadline, hstate]
    rfl
  rw [hfire]
  exact h.trigger hk hlive hstarted rfl hheard (h.heard k hk hlive) hexpired hawaits.2

theorem step_reclaim (h : Sequenced n dead group) {k slot : ℕ} {now : UInt32}
    (hallowed : group.Allowed n dead (.reclaim k slot now)) :
    Sequenced n dead (group.step (.reclaim k slot now)) := by
  obtain ⟨hk, hlive, hslot, hdead, hnew, hwaiting⟩ := hallowed
  have hstarted : k ∉ group.started := by
    intro hmem
    simp [Chain.waiting, h.idle k hmem] at hwaiting
  have hawaits := h.awaits k hk hlive hstarted
  have hcard := Finset.card_insert_of_notMem hnew
  have hexpired : insert slot (group.servos k).expired ⊆ deadBefore dead k :=
    Finset.insert_subset (mem_deadBefore.mpr ⟨hslot, hdead⟩) (h.expired k hk hlive)
  have hlatched : (insert slot (group.servos k).expired).Nonempty := Finset.insert_nonempty _ _
  cases hstate : (group.servos k).chain.state with
  | idle => simp [Chain.waiting, hstate] at hwaiting
  | pending silent => simp [Chain.waiting, hstate] at hwaiting
  | waiting remaining silent =>
      simp only [Awaits, hstate] at hawaits
      obtain ⟨hpos, hsum, -⟩ := hawaits
      by_cases hlast : remaining - 1 = 0
      · have hfire : group.step (.reclaim k slot now) =
            { group.listen k
                { group.servos k with
                  chain := (group.servos k).chain.reset
                  expired := insert slot (group.servos k).expired } with
              replies := group.replies ++ [(k, true)] } := by
          simp only [Group.step, Group.fire, Group.listen, Function.update_self, Chain.onDeadline,
            hstate, hlast, beq_self_eq_true, if_true, Function.update_idem]
        obtain ⟨hheard, hall⟩ := accounted (h.heard_subset hk hlive hstarted) hexpired (by omega)
        rw [hfire]
        exact h.trigger hk hlive hstarted rfl hheard (h.heard k hk hlive) hall
          (by simp [hlatched])
      · have hfire : group.step (.reclaim k slot now) =
            group.listen k
              { group.servos k with
                chain := { (group.servos k).chain with state := .waiting (remaining - 1) true }
                expired := insert slot (group.servos k).expired } := by
          simp only [Group.step, Group.fire, Group.listen, Function.update_self, Chain.onDeadline,
            hstate, beq_iff_eq, hlast, if_false, Function.update_idem]
        rw [hfire]
        refine h.listen (h.heard k hk hlive) hexpired ?_ (fun hmem => absurd hmem hstarted)
        intro _
        simp only [Awaits, hcard]
        exact ⟨by omega, by omega, iff_of_true trivial hlatched⟩

theorem step (h : Sequenced n dead group) {event : GroupEvent}
    (hallowed : group.Allowed n dead event) : Sequenced n dead (group.step event) := by
  cases event with
  | statusEnd slot servo packetEnd => exact h.step_statusEnd hallowed
  | deadline servo now => exact h.step_deadline hallowed
  | reclaim servo slot now => exact h.step_reclaim hallowed

/-- While a live servo has not triggered, something can still happen. -/
theorem started_of_quiet (h : Sequenced n dead group)
    (hquiet : ∀ event, ¬ group.Allowed n dead event) {k : ℕ} (hk : k < n)
    (hlive : dead k = false) : k ∈ group.started := by
  induction k using Nat.strong_induction_on with
  | _ k ih =>
      by_contra hnot
      have hawaits := h.awaits k hk hlive hnot
      have hbelow := h.heard_subset hk hlive hnot
      cases hstate : (group.servos k).chain.state with
      | idle => simp [Awaits, hstate] at hawaits
      | pending silent => exact hquiet (.deadline k 0) ⟨hk, hlive, silent, hstate⟩
      | waiting remaining silent =>
          simp only [Awaits, hstate] at hawaits
          have hheard : liveBefore dead k ⊆ (group.servos k).heard := by
            intro j hj
            by_contra hnew
            obtain ⟨hlt, hlivej⟩ := mem_liveBefore.mp hj
            exact hquiet (.statusEnd j k 0)
              ⟨hk, hlive, by omega, ih j hlt (by omega) hlivej, hnew⟩
          have hexpired : deadBefore dead k ⊆ (group.servos k).expired := by
            intro d hd
            by_contra hnew
            obtain ⟨hlt, hdead⟩ := mem_deadBefore.mp hd
            exact hquiet (.reclaim k d 0)
              ⟨hk, hlive, hlt, hdead, hnew, by simp [Chain.waiting, hstate]⟩
          have hsum := card_before dead k
          have hcard := Finset.card_le_card hheard
          have hcard' := Finset.card_le_card hexpired
          omega

end Sequenced

/-! ## Every run ends -/

/-- The predecessors a servo has accounted for. -/
def Listener.used (listener : Listener) : ℕ := listener.heard.card + listener.expired.card

/-- The events that have happened, as far as the group remembers them. -/
def Group.weight (n : ℕ) (dead : ℕ → Bool) (group : Group) : ℕ :=
  (∑ k ∈ liveBefore dead n, (group.servos k).used) + group.replies.length

theorem Group.used_fire (group : Group) (servo : ℕ) (now : UInt32) (k : ℕ) :
    ((group.fire servo now).servos k).used = (group.servos k).used := by
  have hsame : ∀ listener : Listener, listener.used = (group.servos servo).used →
      ((group.listen servo listener).servos k).used = (group.servos k).used := by
    intro listener hused
    by_cases hk : k = servo
    · subst hk
      rw [Group.listen_self, hused]
    · rw [Group.listen_other _ hk]
  simp only [Group.fire]
  split
  · exact hsame _ rfl
  · exact hsame _ rfl

theorem Group.length_replies_fire (group : Group) (servo : ℕ) (now : UInt32) :
    group.replies.length ≤ (group.fire servo now).replies.length := by
  simp only [Group.fire]
  split
  · simp [Group.listen]
  · exact le_rfl

theorem Group.sum_used_listen {slots : Finset ℕ} {servo : ℕ} (group : Group)
    {listener : Listener} (hservo : servo ∈ slots)
    (hused : (group.servos servo).used < listener.used) :
    ∑ k ∈ slots, (group.servos k).used <
      ∑ k ∈ slots, ((group.listen servo listener).servos k).used := by
  apply Finset.sum_lt_sum
  · intro k _
    by_cases hk : k = servo
    · subst hk
      rw [Group.listen_self]
      exact hused.le
    · rw [Group.listen_other _ hk]
  · refine ⟨servo, hservo, ?_⟩
    rw [Group.listen_self]
    exact hused

theorem Group.weight_step {n : ℕ} {dead : ℕ → Bool} (group : Group) (event : GroupEvent)
    (hallowed : group.Allowed n dead event) :
    group.weight n dead < (group.step event).weight n dead := by
  cases event with
  | statusEnd slot servo packetEnd =>
      obtain ⟨hservo, hlive, -, -, hnew⟩ := hallowed
      refine Nat.add_lt_add_right
        (group.sum_used_listen (mem_liveBefore.mpr ⟨hservo, hlive⟩) ?_) _
      simp only [Listener.used, Finset.card_insert_of_notMem hnew]
      omega
  | deadline servo now =>
      obtain ⟨-, -, silent, hstate⟩ := hallowed
      have hreplies : (group.fire servo now).replies = group.replies ++ [(servo, silent)] := by
        simp only [Group.fire, Chain.onDeadline, hstate, Group.listen]
      simp only [Group.step, Group.weight, Group.used_fire, hreplies, List.length_append,
        List.length_cons, List.length_nil]
      omega
  | reclaim servo slot now =>
      obtain ⟨hservo, hlive, -, -, hnew, -⟩ := hallowed
      simp only [Group.step, Group.weight, Group.used_fire]
      refine Nat.add_lt_add_of_lt_of_le
        (group.sum_used_listen (mem_liveBefore.mpr ⟨hservo, hlive⟩) ?_)
        (Group.length_replies_fire
          (group.listen servo { group.servos servo with expired := insert slot _ }) servo now)
      simp only [Listener.used, Finset.card_insert_of_notMem hnew]
      omega

theorem Sequenced.weight_le {n : ℕ} {dead : ℕ → Bool} {group : Group}
    (h : Sequenced n dead group) : group.weight n dead ≤ n * (2 * n + 1) := by
  have hreplies : group.replies.length ≤ n := by
    have hsub : group.started.toFinset ⊆ Finset.range n := by
      intro k hk
      exact Finset.mem_range.mpr (h.live k (List.mem_toFinset.mp hk)).1
    have hcard := Finset.card_le_card hsub
    rw [List.toFinset_card_of_nodup h.once, Finset.card_range, Group.started, List.length_map]
      at hcard
    exact hcard
  have hused : ∀ k ∈ liveBefore dead n, (group.servos k).used ≤ 2 * n := by
    intro k hk
    obtain ⟨hk, hlive⟩ := mem_liveBefore.mp hk
    have hheard : (group.servos k).heard ⊆ Finset.range n := by
      intro j hj
      exact Finset.mem_range.mpr (h.live j (h.heard k hk hlive j hj)).1
    have hexpired : (group.servos k).expired ⊆ Finset.range n := by
      intro d hd
      have hlt := (mem_deadBefore.mp (h.expired k hk hlive hd)).1
      exact Finset.mem_range.mpr (by omega)
    have hcard := Finset.card_le_card hheard
    have hcard' := Finset.card_le_card hexpired
    rw [Finset.card_range] at hcard hcard'
    simp only [Listener.used]
    omega
  have hsum := Finset.sum_le_card_nsmul _ _ _ hused
  have hlive : (liveBefore dead n).card ≤ n := by
    have hcard := card_before dead n
    omega
  calc
    group.weight n dead ≤ (liveBefore dead n).card * (2 * n) + n :=
      Nat.add_le_add (by rwa [smul_eq_mul] at hsum) hreplies
    _ ≤ n * (2 * n) + n := Nat.add_le_add_right (Nat.mul_le_mul_right _ hlive) _
    _ = n * (2 * n + 1) := by ring

/-! ## The group a GREAD calls -/

/-- The ids a GREAD payload lists, in order. -/
def greadIds (inst : Inst) (pay : FrameBytes) : List Byte :=
  (readRecords inst pay.bytes).map Prod.fst

/-- The chain slot a servo decodes for itself. -/
def chainSlot (inst : Inst) (pay : FrameBytes) (own : Byte) : Option ℕ :=
  match gread inst pay ⟨own⟩ with
  | .own _ _ slot => some slot
  | _ => none

theorem length_le_of_nodup {ids : List Byte} (h : ids.Nodup) : ids.length ≤ 256 := by
  have hmap : (ids.map fun b => (⟨b.toNat, b.toNat_lt⟩ : Fin 256)).Nodup := by
    refine h.map ?_
    intro left right heq
    exact UInt8.toNat_inj.mp (Fin.mk.inj heq)
  have hcard := hmap.length_le_card
  rwa [List.length_map, Fintype.card_fin] at hcard

/-- A servo's slot is its position in the list. -/
theorem chainSlot_listed {inst : Inst} {pay : FrameBytes} {k : ℕ}
    (hids : (greadIds inst pay).Nodup) (hk : k < (greadIds inst pay).length) :
    chainSlot inst pay ((greadIds inst pay).get ⟨k, hk⟩) = some k := by
  have hlen := length_le_of_nodup hids
  generalize hown : (greadIds inst pay).get ⟨k, hk⟩ = own
  have hread := gread_eq inst pay ⟨own⟩
  have hfst := findEnum_fst (fun item : Record => item.1 == own) (readRecords inst pay.bytes)
  have hidx : (readRecords inst pay.bytes).findIdx? (fun item => item.1 == own) = some k := by
    rw [List.findIdx?_eq_some_iff_getElem]
    have hk' : k < (readRecords inst pay.bytes).length := by
      rwa [greadIds, List.length_map] at hk
    refine ⟨hk', ?_, ?_⟩
    · simp only [← hown, greadIds, List.get_eq_getElem, List.getElem_map, beq_self_eq_true]
    · intro j hj heq
      have hj' : j < (greadIds inst pay).length := by omega
      have hsame : (greadIds inst pay).get ⟨j, hj'⟩ = (greadIds inst pay).get ⟨k, hk⟩ := by
        rw [hown, ← beq_iff_eq.mp heq]
        simp only [greadIds, List.get_eq_getElem, List.getElem_map]
      have hindex := Fin.mk.inj (hids.injective_get hsame)
      omega
  rw [hidx, Option.map_some, Nat.mod_eq_of_lt (by omega)] at hfst
  obtain ⟨⟨slot, item⟩, hfind, rfl⟩ := Option.map_eq_some_iff.mp hfst
  simp only [answerRead, hfind] at hread
  cases hdec : gread inst pay ⟨own⟩ with
  | own req ctx slot' =>
      rw [hdec] at hread
      simp only [Decoded.map, Decoded.own.injEq] at hread
      simp [chainSlot, hdec, hread.2.2]
  | status =>
      rw [hdec] at hread
      cases hread
  | skip =>
      rw [hdec] at hread
      cases hread

/-- The ticks a servo stages its reply with. -/
structure ReplyTiming where
  packetEnd : UInt32
  replyGap : UInt32
  reclaim : UInt32
  allowance : UInt32
  deriving DecidableEq, Repr

/-- Every listed servo has staged its reply for the slot it decoded. -/
def Group.staged (inst : Inst) (pay : FrameBytes) (timing : ℕ → ReplyTiming) : Group where
  servos := fun k =>
    let slot := (((greadIds inst pay)[k]?).bind (chainSlot inst pay)).getD 0
    let t := timing k
    ⟨(Chain.new.onReplyStaged slot t.packetEnd t.replyGap t.reclaim t.allowance).1, ∅, ∅⟩
  replies := []

theorem sequenced_staged {inst : Inst} {pay : FrameBytes} (hids : (greadIds inst pay).Nodup)
    (dead : ℕ → Bool) (timing : ℕ → ReplyTiming) :
    Sequenced (greadIds inst pay).length dead (Group.staged inst pay timing) := by
  refine ⟨?_, List.nodup_nil, ?_, ?_, ?_, ?_, ?_, ?_⟩
  · intro k hk
    cases hk
  · intro k _ _ j hj
    exact absurd hj (Finset.notMem_empty j)
  · intro k _ _
    exact Finset.empty_subset _
  · intro k hk _ _
    have hslot : ((greadIds inst pay)[k]?).bind (chainSlot inst pay) = some k := by
      rw [List.getElem?_eq_getElem hk]
      exact chainSlot_listed hids hk
    simp only [Group.staged, Awaits, Chain.onReplyStaged, hslot, Option.getD_some]
    by_cases hzero : k = 0
    · simp [hzero]
    · simp only [beq_iff_eq, hzero, if_false]
      simp
      omega
  · intro k hk
    cases hk
  · intro k hk
    cases hk
  · intro i k silent hi
    cases hi

/-- In every interleaving of a group read: the replies come in slot order, each
live slot's after the status ends of all live slots before it and at most once;
a reply flags a silent predecessor exactly when a slot before it is dead; the
interleaving is finite, and when nothing more can happen every live slot has
replied once. -/
theorem group_replies_in_turn {inst : Inst} {pay : FrameBytes}
    (hids : (greadIds inst pay).Nodup) (dead : ℕ → Bool) (timing : ℕ → ReplyTiming)
    (events : List GroupEvent)
    (hevents : Meets Group.step (Group.Allowed (greadIds inst pay).length dead)
      (Group.staged inst pay timing) events) :
    let n := (greadIds inst pay).length
    let group := run Group.step (Group.staged inst pay timing) events
    (∀ k, group.started.count k ≤ 1) ∧
      (∀ i k silent, group.replies[i]? = some (k, silent) →
        (k < n ∧ dead k = false) ∧
          (∀ j < k, dead j = false →
            j ∈ (group.replies.take i).map Prod.fst ∧ j ∈ (group.servos k).heard) ∧
          (silent = true ↔ ∃ j < k, dead j = true)) ∧
      events.length ≤ n * (2 * n + 1) ∧
      ((∀ event, ¬ group.Allowed n dead event) →
        ∀ k < n, dead k = false → group.started.count k = 1) := by
  intro n group
  have hseq : Sequenced n dead group :=
    Meets.invariant Group.step (Sequenced n dead) (fun _ _ hinv hallowed => hinv.step hallowed)
      (sequenced_staged hids dead timing) hevents
  refine ⟨?_, ?_, ?_, ?_⟩
  · intro k
    exact List.nodup_iff_count_le_one.mp hseq.once k
  · intro i k silent hi
    have hk : k ∈ group.started := List.mem_map.mpr ⟨_, List.mem_of_getElem? hi, rfl⟩
    obtain ⟨hturn, hsilent⟩ := hseq.inTurn i k silent hi
    refine ⟨hseq.live k hk, ?_, ?_⟩
    · intro j hj hlive
      have hmem := mem_liveBefore.mpr ⟨hj, hlive⟩
      exact ⟨hturn j hmem, hseq.ended k hk hmem⟩
    · rw [hsilent]
      simp only [Finset.Nonempty, mem_deadBefore]
  · have hlength := Meets.length_le Group.step (Group.weight n dead)
      (fun group event hallowed => group.weight_step event hallowed) hevents
    have hle := hseq.weight_le
    simp only [group] at hle
    omega
  · intro hquiet k hk hlive
    exact List.count_eq_one_of_mem hseq.once (hseq.started_of_quiet hquiet hk hlive)

/-- Three servos asked for a profile, the middle one dead: the third takes its
turn at the expired window and says so. -/
theorem group_replies_past_a_dead_slot :
    let pay := FrameBytes.ofList [0, 7, 8, 9]
    let dead : ℕ → Bool := fun k => k == 1
    let timing : ℕ → ReplyTiming := fun _ => ⟨0, 12, 60, 600⟩
    let events := [GroupEvent.deadline 0 12, .statusEnd 0 2 100, .reclaim 2 1 172]
    let group := run Group.step (Group.staged ⟨0x51⟩ pay timing) events
    group.replies = [(0, false), (2, true)] ∧ group.started.count 2 ≤ 1 ∧
      ∀ j < 2, dead j = false → j ∈ (group.replies.take 1).map Prod.fst ∧
        j ∈ (group.servos 2).heard := by
  intro pay dead timing events group
  have hreplies : group.replies = [(0, false), (2, true)] := by decide +kernel
  obtain ⟨honce, hturn, -, -⟩ := @group_replies_in_turn ⟨0x51⟩ pay (by decide +kernel) dead timing
    events (by decide +kernel)
  exact ⟨hreplies, honce 2, (hturn 1 2 true (by rw [hreplies]; rfl)).2.1⟩

end OpenServo.Bus
