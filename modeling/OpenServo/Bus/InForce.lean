import OpenServo.Bus.Deferred
import OpenServo.Bus.Speculation

/-!
# The registers in force

Runs of the transport with one ghost: whether it is at the rescue rate.  When no
reply is in the transmitter, the bus id is the id register, and outside rescue
the rate is the one the rate register selects.
-/

namespace OpenServo.Bus

open Security Table Dispatcher

/-! ## Other steps -/

/-- What of the configuration the registers mirror. -/
def Config.tuning (config : Config) : Byte × Option Byte × Option BaudRate :=
  (config.id, config.pendingId, config.pendingBaud)

theorem Mirrors.of_tuning {operational : BaudRate} {t : ControlTable} {config config' : Config}
    (h : Mirrors operational t config) (hsame : config'.tuning = config.tuning) :
    Mirrors operational t config' ∧ config'.outstanding = config.outstanding := by
  simp only [Config.tuning, Prod.mk.injEq] at hsame
  obtain ⟨hid, hpendingId, hpendingBaud⟩ := hsame
  refine ⟨⟨?_, ?_⟩, ?_⟩
  · rw [hid, hpendingId]
    exact h.id
  · rw [hpendingBaud]
    exact h.rate
  · rw [Config.outstanding, hpendingId, hpendingBaud]
    rfl

theorem TxEngine.busy_of_armed (tx : TxEngine) (crc : CrcEngine)
    (h : (tx.onArmComplete crc).1 ≠ .released) : (tx.onArmComplete crc).2.1.busy = true := by
  simp only [TxEngine.onArmComplete] at h ⊢
  split at h
  · split at h
    · rename_i hmore
      rw [if_pos hmore]
      rfl
    · exact absurd rfl h
  · exact absurd rfl h

/-- A completion either goes on with the reply, or puts in force what waits. -/
theorem ServoBus.onTxComplete_cases (bus : ServoBus) (chip : Chip) :
    ((bus.tx.onArmComplete bus.crc).1 ≠ .released ∧
        (bus.onTxComplete chip).config.tuning = bus.config.tuning ∧
        (bus.onTxComplete chip).rate = bus.rate ∧ (bus.onTxComplete chip).tx.busy = true) ∨
      ((bus.tx.onArmComplete bus.crc).1 = .released ∧
        (bus.onTxComplete chip).config.tuning = (bus.pendingId.getD bus.id, none, none) ∧
        (bus.onTxComplete chip).rate = bus.pendingBaud.getD bus.rate) := by
  simp only [onTxComplete]
  split
  · rename_i harmed
    have harmed : (bus.tx.onArmComplete bus.crc).1 ≠ .released := by simpa using harmed
    exact .inl ⟨harmed, rfl, rfl, TxEngine.busy_of_armed _ _ harmed⟩
  · rename_i hreleased
    refine .inr ⟨by simpa using hreleased, ?_⟩
    cases hpendingId : bus.pendingId <;> cases hpendingBaud : bus.pendingBaud <;>
      simp [config, Config.tuning]

namespace World

variable {σ : Type} [ConfigStore σ] (chip : Chip) {w : World σ}

/-- A step that drops no reply over a waiting change. -/
def Spares (w : World σ) (act : Act) : Prop :=
  w.bus.config.outstanding = true →
    match act with
    | .breakTail _ _ => w.bus.killsReply = false
    | .rescue => w.bus.tx.streaming = true
    | _ => True

instance (act : Act) : Decidable (w.Spares act) := by
  unfold Spares
  cases act <;> infer_instance

theorem tuning_step {act : Act} (hdrives : act.drives = false) (htx : act ≠ .txComplete) :
    (w.step chip act).bus.config.tuning = w.bus.config.tuning := by
  cases hexecutes : act.executes with
  | false => rw [config_step chip w hdrives hexecutes]
  | true =>
      cases act with
      | txComplete => exact absurd rfl htx
      | takeReboot =>
          simp only [step, onBus, ServoBus.takeReboot]
          split <;> rfl
      | framerDue =>
          simp only [step, onBus, ServoBus.framerDue]
          split <;> rfl
      | calBreak =>
          simp only [step, onBus, ServoBus.onCalBreak]
          split
          · split <;> rfl
          · rfl
      | _ => cases hexecutes

theorem busy_step (hbusy : w.bus.tx.busy = true) {act : Act} (hdrives : act.drives = false)
    (htx : act ≠ .txComplete) (hspares : w.bus.config.outstanding = true) (h : w.Spares act) :
    (w.step chip act).bus.tx.busy = true := by
  have hspares := h hspares
  cases act with
  | drive late => cases hdrives
  | txComplete => exact absurd rfl htx
  | breakTail fresh now =>
      have hkills : ∀ framerAt, ({ w.bus with framerAt } : ServoBus).killsReply = false :=
        fun _ => hspares
      simp only [step, onBus, ServoBus.breakTail]
      refine ServoBus.busy_routeChain _ _ ?_
      split
      · rw [if_neg (by rw [hkills]; simp)]
        exact hbusy
      · rw [if_neg (by rw [show w.bus.killsReply = false from hspares]; simp)]
        exact hbusy
  | rescue =>
      have hstreaming : w.bus.tx.streaming = true := hspares
      simp only [step, onBus, ServoBus.onRescueBreak, hstreaming, if_true]
      exact hbusy
  | chainDue now =>
      simp only [step, onBus, ServoBus.chainDue]
      split
      · exact ServoBus.busy_routeChain _ _ hbusy
      · exact hbusy
  | takeReboot =>
      simp only [step, onBus, ServoBus.takeReboot]
      split <;> exact hbusy
  | framerDue =>
      simp only [step, onBus, ServoBus.framerDue]
      split <;> exact hbusy
  | calBreak =>
      simp only [step, onBus, ServoBus.onCalBreak]
      split
      · split <;> exact hbusy
      · exact hbusy
  | breakHead =>
      simp only [step, onBus, ServoBus.breakHead]
      split <;> exact hbusy
  | _ => exact hbusy

/-- A step outside the resolver that releases no reply. -/
theorem Tuned.elsewhere {operational : BaudRate} (h : Tuned operational w) {act : Act}
    (hdrives : act.drives = false) (htx : act ≠ .txComplete) (hspares : w.Spares act) :
    Tuned operational (w.step chip act) ∧
      (w.step chip act).bus.config.outstanding = w.bus.config.outstanding := by
  have hdisp := disp_step chip w hdrives
  obtain ⟨hmirrors, houtstanding⟩ := h.mirrors.of_tuning (tuning_step chip hdrives htx)
  refine ⟨⟨⟨?_, ?_, ?_⟩, fun hwaits => ?_⟩, houtstanding⟩
  · rw [hdisp]
    exact h.uid
  · rw [hdisp]
    exact h.vetted
  · rw [hdisp]
    exact hmirrors
  · rw [houtstanding] at hwaits
    exact busy_step chip (h.carried hwaits) hdrives htx hwaits hspares

/-- The rate the waiting change selects, once the reply has left. -/
def released (w : World σ) : Option BaudRate :=
  if (w.bus.tx.onArmComplete w.bus.crc).1 != .released then none else w.bus.pendingBaud

/-- The end of a reply: what waited is in force. -/
theorem Tuned.txComplete {operational : BaudRate} (h : Tuned operational w) :
    Tuned (w.released.getD operational) (w.step chip .txComplete) ∧
      ((w.step chip .txComplete).bus.config.outstanding = true →
        w.bus.config.outstanding = true) ∧
      (w.step chip .txComplete).bus.rate = w.released.getD w.bus.rate := by
  simp only [step, onBus, released]
  obtain ⟨harmed, htuning, hrate, hbusy⟩ | ⟨hreleased, htuning, hrate⟩ :=
    w.bus.onTxComplete_cases chip
  · obtain ⟨hmirrors, houtstanding⟩ := h.mirrors.of_tuning htuning
    rw [if_pos (by simpa using harmed)]
    refine ⟨⟨⟨h.uid, h.vetted, hmirrors⟩, fun _ => hbusy⟩, fun hwaits => ?_, hrate⟩
    rwa [houtstanding] at hwaits
  · rw [if_neg (by simp [hreleased])]
    simp only [Config.tuning, Prod.mk.injEq] at htuning
    obtain ⟨hid, hnoId, hnoBaud⟩ := htuning
    have hnever : ∀ b : Bool, (w.bus.onTxComplete chip).config.outstanding = true → b = true := by
      intro b hwaits
      rw [Config.outstanding, hnoId, hnoBaud] at hwaits
      cases hwaits
    refine ⟨⟨⟨h.uid, h.vetted, ⟨?_, ?_⟩⟩, hnever _⟩, hnever _, hrate⟩
    · rw [hnoId, hid]
      exact h.mirrors.id
    · rw [hnoBaud]
      exact h.mirrors.rate

/-! ## The rate -/

omit [ConfigStore σ] in
@[simp]
theorem rate_accepted (bus : ServoBus) (anchor footprint : ℕ) :
    (World.accepted bus anchor footprint).rate = bus.rate := by
  simp only [World.accepted]
  obtain ⟨_, h, -⟩ := ServoBus.driftNoteVerified_eq
    ({ bus with
      security := bus.judged anchor footprint
      framer := bus.framer.onFrameVerified } : ServoBus) anchor footprint
  rw [h]

omit [ConfigStore σ] in
@[simp]
theorem rate_sequenced (w : World σ) (staged : Bool) (slot : ℕ) (packetEnd : UInt32) :
    (w.sequenced chip staged slot packetEnd).bus.rate = w.bus.rate := by
  simp only [World.sequenced]
  split
  · obtain ⟨_, _, _, _, h⟩ := w.bus.sequenceReply_eq chip slot packetEnd
    rw [h]
  · rfl

omit [ConfigStore σ] in
@[simp]
theorem rate_commit (w : World σ) : w.commit.bus.rate = w.bus.rate := by
  obtain ⟨_, h, -⟩ := w.commit_eq
  rw [h]
  rfl

@[simp]
theorem rate_dispatchDecoded (w : World σ) (anchor footprint : ℕ) :
    (w.dispatchDecoded anchor footprint).2.bus.rate = w.bus.rate := by
  obtain ⟨_, h, -⟩ := w.dispatchDecoded_eq anchor footprint
  rw [h]
  rfl

omit [ConfigStore σ] in
theorem rate_verify (w : World σ) (p : Pending) : (verify chip p w).bus.rate = w.bus.rate := by
  rw [verify_eq]
  split
  · split
    · rw [rate_sequenced]
      split
      · rw [rate_commit, rate_accepted]
      · exact rate_accepted _ _ _
    · rfl
  · rfl

theorem rate_routeSpine (w : World σ) (span : FrameSpan) (complete : Bool) :
    (routeSpine chip span complete w).bus.rate = w.bus.rate := by
  have hdispatch := (w.spined span).rate_dispatchDecoded span.anchor span.footprint
  rw [routeSpine_eq]
  split
  all_goals
    rename_i hout
    rw [hout] at hdispatch
    split
    · exact (rate_verify chip _ _).trans hdispatch
    · exact hdispatch

theorem rate_routeVerdictFirst (w : World σ) {span : FrameSpan} (hspan : 2 ≤ span.footprint) :
    (routeVerdictFirst chip span w).bus.rate = w.bus.rate := by
  have hadmitted : ((w.fed span).admitted span).bus.rate = w.bus.rate := rate_accepted _ _ _
  have hdispatch := ((w.fed span).admitted span).rate_dispatchDecoded span.anchor span.footprint
  rw [routeVerdictFirst_eq chip w hspan]
  split
  · split
    · simp only [routeAccepted]
      split
      · rename_i hout
        rw [hout] at hdispatch
        exact hdispatch.trans hadmitted
      · rename_i hout
        rw [hout] at hdispatch
        rw [rate_sequenced]
        split
        · rw [rate_commit]
          exact hdispatch.trans hadmitted
        · exact hdispatch.trans hadmitted
    · rfl
  · rfl

theorem rate_routeFrame (w : World σ) {span : FrameSpan} (hspan : 2 ≤ span.footprint)
    (complete : Bool) : (routeFrame chip span complete w).bus.rate = w.bus.rate := by
  simp only [routeFrame]
  split
  · simp only [routeStatus]
    split
    · obtain ⟨_, _, _, _, h⟩ := ServoBus.routeChain_eq
        ({ w.bus with chain := (w.bus.chain.onStatusEnd span.packetEnd).1 } : ServoBus)
        (w.bus.chain.onStatusEnd span.packetEnd).2
      rw [h]
    · rfl
  · split
    · exact rate_routeSpine chip w span complete
    · split
      · rfl
      · exact rate_routeVerdictFirst chip w hspan

/-- Only a released reply and a rescue move the rate. -/
theorem rate_step (hin : w.InRing) {act : Act} (htx : act ≠ .txComplete) (hrescue : act ≠ .rescue) :
    (w.step chip act).bus.rate = w.bus.rate := by
  cases act with
  | drive late =>
      rw [step_drive]
      cases hout : w.resolved with
      | none => rfl
      | wait due => rfl
      | covered span due =>
          have hleast := (fits_of_resolved hin (by rw [hout]; rfl)).least
          exact rate_routeFrame chip _ (by omega) false
      | frame span =>
          have hleast := (fits_of_resolved hin (by rw [hout]; rfl)).least
          have hentering : (w.resolving late).entering.bus.rate = w.bus.rate := by
            simp only [entering]
            split <;> rfl
          show (onFrameEnd chip span (w.resolving late)).bus.rate = w.bus.rate
          rw [onFrameEnd_eq]
          split
          · exact rate_verify chip _ _
          · exact (rate_routeFrame chip _ (by omega) true).trans hentering
  | txComplete => exact absurd rfl htx
  | rescue => exact absurd rfl hrescue
  | breakTail fresh now =>
      simp only [step, onBus, ServoBus.breakTail]
      obtain ⟨_, _, _, _, h⟩ := ServoBus.routeChain_eq _ _
      rw [h]
      split <;> split <;> rfl
  | chainDue now =>
      simp only [step, onBus, ServoBus.chainDue]
      split
      · obtain ⟨_, _, _, _, h⟩ := ServoBus.routeChain_eq
          ({ w.bus with chainAt := none, chain := (w.bus.chain.onDeadline now).1 } : ServoBus)
          (w.bus.chain.onDeadline now).2
        rw [h]
      · rfl
  | calBreak =>
      simp only [step, onBus, ServoBus.onCalBreak]
      split
      · split <;> rfl
      · rfl
  | breakHead =>
      simp only [step, onBus, ServoBus.breakHead]
      split <;> rfl
  | framerDue =>
      simp only [step, onBus, ServoBus.framerDue]
      split <;> rfl
  | takeReboot =>
      simp only [step, onBus, ServoBus.takeReboot]
      split <;> rfl
  | _ => rfl

end World

/-! ## Runs -/

/-- The world, and whether the transport is at the rescue rate. -/
structure Mirrored (σ : Type) where
  world : World σ
  rescued : Bool
  deriving DecidableEq

namespace Mirrored

variable {σ : Type} [ConfigStore σ] (chip : Chip) (m : Mirrored σ)

/-- A rescue begins under any reply but one on the wire, and ends when a reply
releases a change of the rate. -/
def step (act : Act) : Mirrored σ where
  world := m.world.step chip act
  rescued :=
    match act with
    | .rescue => m.rescued || !m.world.bus.tx.streaming
    | .txComplete => m.rescued && m.world.released.isNone
    | _ => m.rescued

/-- What a frame applies leaves with a reply, no id is assigned over a waiting
one, and no reply is dropped over a waiting change. -/
def Heeds (act : Act) : Prop :=
  (act.drives = true → m.world.resolved.AtEnd m.world.Carries) ∧ m.world.Spares act

/-- With no reply in the transmitter, the registers are in force. -/
def InForce : Prop :=
  m.world.bus.tx.busy = false →
    m.world.bus.id = m.world.disp.table.get Addr.id ∧
      (m.rescued = false → selectedRate m.world.disp.table = some m.world.bus.rate)

instance (act : Act) : Decidable (m.Heeds act) := inferInstanceAs (Decidable (_ ∧ _))

instance : Decidable m.InForce := inferInstanceAs (Decidable (_ → _))

/-- The invariant of runs that heed the condition. -/
structure Follows (operational : BaudRate) : Prop where
  inRing : m.world.InRing
  tuned : m.world.Tuned operational
  opened : m.world.bus.pending.isSome = true → m.world.bus.config.outstanding = false
  rate : m.rescued = false → m.world.bus.rate = operational

variable {m} {operational : BaudRate}

omit [ConfigStore σ] in
theorem Follows.inForce (h : m.Follows operational) : m.InForce := by
  intro hidle
  have hnone : m.world.bus.config.outstanding = false := by
    by_contra houtstanding
    rw [h.tuned.carried (by simpa using houtstanding)] at hidle
    cases hidle
  simp only [Config.outstanding, Bool.or_eq_false_iff, Option.isSome_eq_false_iff,
    Option.isNone_iff_eq_none] at hnone
  obtain ⟨hid, hrate⟩ := h.tuned.mirrors
  rw [hnone.1] at hid
  rw [hnone.2] at hrate
  refine ⟨hid, fun hrescued => ?_⟩
  rw [h.rate hrescued]
  exact hrate

theorem Follows.drive (h : m.Follows operational) (late : UInt32)
    (hcarries : m.world.resolved.AtEnd m.world.Carries) :
    (m.step chip (.drive late)).Follows operational := by
  have hin := World.inRing_step chip h.inRing (.drive late)
  have hrate : (m.world.step chip (.drive late)).bus.rate = m.world.bus.rate :=
    World.rate_step chip h.inRing (by simp) (by simp)
  have hstep := World.step_drive chip m.world late
  suffices hsuff : (m.world.step chip (.drive late)).Tuned operational ∧
      ((m.world.step chip (.drive late)).bus.pending.isSome = true →
        (m.world.step chip (.drive late)).bus.config.outstanding = false) from
    ⟨hin, hsuff.1, hsuff.2, fun hrescued => hrate.trans (h.rate hrescued)⟩
  have hresolving : (m.world.resolving late).Tuned operational :=
    h.tuned.congr rfl rfl h.tuned.carried
  rw [hstep]
  cases hout : m.world.resolved with
  | none => exact ⟨h.tuned.congr rfl rfl h.tuned.carried, h.opened⟩
  | wait due => exact ⟨h.tuned.congr rfl rfl h.tuned.carried, h.opened⟩
  | covered span due =>
      have hfits := World.fits_of_resolved h.inRing (by rw [hout]; rfl)
      have hdue : ((m.world.resolving late).onBus fun bus =>
          { bus with framerAt := some due }).Tuned operational :=
        h.tuned.congr rfl rfl h.tuned.carried
      exact hdue.covered chip hfits h.opened
  | frame span =>
      have hfits := World.fits_of_resolved h.inRing (by rw [hout]; rfl)
      rw [hout] at hcarries
      have hcarries' : (m.world.resolving late).Carries span := by
        intro hpasses
        rw [World.passes_resolving] at hpasses
        exact hcarries hpasses
      obtain ⟨htuned, hnone⟩ := hresolving.onFrameEnd chip hfits h.opened hcarries'
      refine ⟨htuned, fun hsome => ?_⟩
      have hsome' :
          (World.onFrameEnd chip span (m.world.resolving late)).bus.pending.isSome = true :=
        hsome
      rw [hnone] at hsome'
      cases hsome'

theorem Follows.elsewhere (h : m.Follows operational) {act : Act} (hdrives : act.drives = false)
    (htx : act ≠ .txComplete) (hspares : m.world.Spares act) :
    (m.step chip act).Follows operational := by
  have hin := World.inRing_step chip h.inRing act
  obtain ⟨htuned, houtstanding⟩ := h.tuned.elsewhere chip hdrives htx hspares
  refine ⟨hin, htuned, fun hsome => ?_, fun hrescued => ?_⟩
  · have houtstanding' : (m.step chip act).world.bus.config.outstanding =
        m.world.bus.config.outstanding := houtstanding
    rw [houtstanding']
    apply h.opened
    obtain hsame | ⟨hnone, -⟩ := Traced.pending_step chip (w := m.world) hdrives
    · rw [← hsame]
      exact hsome
    · have hsome' : (m.world.step chip act).bus.pending.isSome = true := hsome
      rw [hnone] at hsome'
      cases hsome'
  · by_cases hrescue : act = .rescue
    · subst hrescue
      simp only [step, Bool.or_eq_false_iff, Bool.not_eq_false'] at hrescued
      have hkept : (m.world.step chip .rescue).bus.rate = m.world.bus.rate := by
        simp only [World.step, World.onBus, ServoBus.onRescueBreak, hrescued.2, if_true]
      exact hkept.trans (h.rate hrescued.1)
    · have hsame : m.rescued = false := by
        cases act with
        | rescue => exact absurd rfl hrescue
        | txComplete => exact absurd rfl htx
        | _ => exact hrescued
      exact (World.rate_step chip h.inRing htx hrescue).trans (h.rate hsame)

theorem Follows.txComplete (h : m.Follows operational) :
    (m.step chip .txComplete).Follows (m.world.released.getD operational) := by
  have hin := World.inRing_step chip h.inRing .txComplete
  obtain ⟨htuned, houtstanding, hrate⟩ := h.tuned.txComplete chip
  refine ⟨hin, htuned, fun hsome => ?_, fun hrescued => ?_⟩
  · by_contra hwaits
    have hbefore := houtstanding (Bool.of_not_eq_false hwaits)
    rw [h.opened] at hbefore
    · cases hbefore
    · have hpending : (m.world.step chip .txComplete).bus.pending = m.world.bus.pending ∨
          (m.world.step chip .txComplete).bus.pending = none ∧
            (m.world.step chip .txComplete).bus.Parked := Traced.pending_step chip rfl
      obtain hsame | ⟨hnone, -⟩ := hpending
      · rw [← hsame]
        exact hsome
      · have hsome' : (m.world.step chip .txComplete).bus.pending.isSome = true := hsome
        rw [hnone] at hsome'
        cases hsome'
  · refine hrate.trans ?_
    simp only [step, Bool.and_eq_false_iff, Option.isNone_eq_false_iff] at hrescued
    cases hreleased : m.world.released with
    | some rate => rfl
    | none =>
        rw [hreleased] at hrescued
        exact h.rate (hrescued.resolve_right (by simp))

theorem Follows.step (h : m.Follows operational) {act : Act} (hheeds : m.Heeds act) :
    ∃ operational', (m.step chip act).Follows operational' := by
  cases hdrives : act.drives with
  | true =>
      cases act with
      | drive late => exact ⟨operational, h.drive chip late (hheeds.1 rfl)⟩
      | _ => cases hdrives
  | false =>
      by_cases htx : act = .txComplete
      · subst htx
        exact ⟨_, h.txComplete chip⟩
      · exact ⟨operational, h.elsewhere chip hdrives htx hheeds.2⟩

/-- The servo at power-on, out of rescue. -/
def boot (ring : Ring) (now : UInt32) (id : Byte) (rate : BaudRate) (responseDeadlineUs : ℕ)
    (disp : Dispatcher σ) : Mirrored σ :=
  ⟨.boot chip ring now id rate responseDeadlineUs disp, false⟩

/-- From a table that names the id and the rate the transport starts with: along
every run in which a frame that changes them leaves a reply behind, no id is
assigned while another one waits, and no reply is dropped over a waiting change,
the registers are in force whenever no reply is in the transmitter. -/
theorem registers_stay_in_force (ring : Ring) (now : UInt32) (id : Byte) (rate : BaudRate)
    (responseDeadlineUs : ℕ) (table : ControlTable) (uid : List Byte) (store : Option σ)
    (acts : List Act) (huid : uid.length = uidLen) (hid : table.get Addr.id = id)
    (hrate : selectedRate table = some rate)
    (hheeds : Transition.Meets (step chip) Heeds
      (boot chip ring now id rate responseDeadlineUs (fresh table uid store)) acts) :
    (Transition.run (step chip)
      (boot chip ring now id rate responseDeadlineUs (fresh table uid store)) acts).InForce := by
  have hstart : (boot chip ring now id rate responseDeadlineUs (fresh table uid store)).Follows
      rate := by
    refine ⟨World.inRing_boot chip ring now id rate responseDeadlineUs _, ?_, nofun, fun _ => rfl⟩
    refine ⟨⟨?_, vetted_fresh table uid store, ⟨hid.symm, hrate⟩⟩, nofun⟩
    show uid.length ≤ maxPayload
    rw [huid]
    decide
  obtain ⟨operational, hfollows⟩ := Transition.Meets.invariant (step chip)
    (fun m => ∃ operational, m.Follows operational)
    (fun m act ⟨operational, hfollows⟩ hheeds => hfollows.step chip hheeds) ⟨rate, hstart⟩ hheeds
  exact hfollows.inForce

end Mirrored

/-! ### On the bench -/

/-- A table that names servo 5 at 1 M. -/
def tunedTable : ControlTable :=
  (ControlTable.new.set Addr.id 5).set Addr.baudRateIdx (BaudRate.asIdx .b1000000)

def tunedServo : Mirrored Unit :=
  .boot benchChip (.fresh 9 Ring.lapMargin_nine Ring.indexed_nine) 0 5 .b1000000 100
    (fresh tunedTable (List.replicate uidLen 0) (some ()))

/-- The id register becomes 7, by a write that is answered and by one that is
not. -/
def ackedIdWrite : List Byte := wireFrame ⟨5⟩ ⟨0x30⟩ [0x10, 0x00, 0x07]

def silentIdWrite : List Byte := wireFrame ⟨5⟩ ⟨0x34⟩ [0x10, 0x00, 0x07]

/-- The reply falls due, streams and leaves. -/
def drain : List Act := [.tick 5000, .chainDue 5000, .txComplete, .txComplete]

/-- With nothing to send, servo 5 has 7 in its register and still answers to 5. -/
theorem silent_write_strands_the_id :
    ¬ ∀ acts, (Transition.run (Mirrored.step benchChip) tunedServo acts).InForce := by
  intro hclaim
  have hstranded : ¬ (Transition.run (Mirrored.step benchChip) tunedServo
      (deliver silentIdWrite)).InForce := by
    decide +kernel
  exact hstranded (hclaim _)

theorem acked_write_moves_the_id :
    (Transition.run (Mirrored.step benchChip) tunedServo (deliver ackedIdWrite ++ drain)).InForce :=
  Mirrored.registers_stay_in_force benchChip _ _ _ _ _ tunedTable _ _ _ (by decide) (by decide)
    (by decide) (by decide +kernel)

end OpenServo.Bus
