import OpenServo.Bus.Route
import OpenServo.Core.Transition

/-!
# Runs of the transport

The steps an interrupt or the main loop is made of, with bytes, ticks and the
health of the CRC engine free to change between any two of them.  The entry
points of the transport are sequences of these steps, so what holds over every
run of steps holds for every wake schedule.
-/

namespace OpenServo.Bus

open Security

inductive Act where
  /-- The DMA engine lands a byte. -/
  | receive (b : Byte)
  /-- The clock reads this tick next. -/
  | tick (now : UInt32)
  /-- The CRC engine stops, or starts again, answering polls. -/
  | stall (stalled : Bool)
  /-- One turn of the resolver loop. -/
  | drive (late : UInt32)
  /-- The resolver loop reached its bound. -/
  | yield
  /-- A break while a CAL train is live. -/
  | calBreak
  /-- The freshness and drift stamp of a break. -/
  | breakHead
  /-- The end of the break service entered at `now`. -/
  | breakTail (fresh : Bool) (now : UInt32)
  | framerDue
  /-- The chain slot, judged at the tick its pass began with. -/
  | chainDue (now : UInt32)
  | arm
  | txComplete
  | rescue
  | takeReboot
  | pollTrim
  | install (keys : SessionKeys)
  | setPolicy (policy : Policy)
  deriving DecidableEq

/-- Is the slot due? -/
def due (now : UInt32) (slot : Option UInt32) : Bool :=
  match slot with
  | some tick => tickReached now tick
  | none => false

namespace ServoBus

/-- Break service up to the resolver: freshness and the drift stamp. -/
def breakHead (bus : ServoBus) : Bool × ServoBus :=
  let cursor := bus.ring.cursor
  let (fresh, framer) := bus.framer.onWireFault cursor
  let bus := { bus with framer }
  if fresh && bus.newestIsBreakByte cursor then
    (fresh, { bus with clock := bus.clock.onDriftBreak bus.now cursor bus.ring.len bus.tpb })
  else (fresh, bus)

/-- A staged reply that the host has moved past, and that no rule exempts. -/
def killsReply (bus : ServoBus) : Bool :=
  bus.tx.staged && !bus.tx.collisionTolerant && !bus.chain.waiting && bus.pending.isNone &&
    !bus.framer.caughtUp bus.ring.cursor

/-- Break service after the resolver: recheck, reply kill, reclaim. -/
def breakTail (bus : ServoBus) (fresh : Bool) (now : UInt32) : ServoBus :=
  let bus :=
    if !fresh && bus.framerAt.isNone then { bus with framerAt := some (now + bus.tpb) } else bus
  let bus :=
    if bus.killsReply then
      { bus with tx := bus.tx.abort, chain := bus.chain.reset, chainAt := none }
    else bus
  (bus.routeChain (bus.chain.onBreakObserved now)).armDeadline

/-- The framer slot fell due: a CAL train dies here. -/
def framerDue (bus : ServoBus) : ServoBus :=
  if due bus.now bus.framerAt then { bus with framerAt := none, clock := bus.clock.abandonCal }
  else bus

/-- The chain slot fell due. -/
def chainDue (bus : ServoBus) (now : UInt32) : ServoBus :=
  if due now bus.chainAt then
    let (chain, out) := bus.chain.onDeadline now
    ({ bus with chainAt := none, chain } : ServoBus).routeChain out
  else bus

end ServoBus

namespace World

variable {σ : Type} [ConfigStore σ] (chip : Chip)

def onBus (w : World σ) (f : ServoBus → ServoBus) : World σ := { w with bus := f w.bus }

def step (w : World σ) (act : Act) : World σ :=
  match act with
  | .receive b => w.onBus fun bus => { bus with ring := bus.ring.push b }
  | .tick now => w.onBus fun bus => { bus with now }
  | .stall stalled => w.onBus fun bus => { bus with crc := { bus.crc with stalled } }
  | .drive late => (driveOnce chip late w).2
  | .yield => w.onBus fun bus => { bus with framerAt := some bus.now }
  | .calBreak => w.onBus fun bus => if bus.clock.calActive then bus.onCalBreak chip else bus
  | .breakHead => w.onBus fun bus => bus.breakHead.2
  | .breakTail fresh now => w.onBus fun bus => bus.breakTail fresh now
  | .framerDue => w.onBus ServoBus.framerDue
  | .chainDue now => w.onBus fun bus => bus.chainDue now
  | .arm => w.onBus ServoBus.armDeadline
  | .txComplete => w.onBus fun bus => bus.onTxComplete chip
  | .rescue => w.onBus fun bus => bus.onRescueBreak chip
  | .takeReboot => w.onBus fun bus => bus.takeReboot.2
  | .pollTrim => w.onBus fun bus => bus.pollClockTrim.2
  | .install keys => w.onBus fun bus => { bus with security := bus.security.install keys }
  | .setPolicy policy => w.onBus fun bus => { bus with security := bus.security.setPolicy policy }

/-- The servo at power-on. -/
def boot (ring : Ring) (now : UInt32) (id : Byte) (rate : BaudRate) (responseDeadlineUs : ℕ)
    (disp : Dispatcher σ) : World σ :=
  ⟨.new chip ring now id rate responseDeadlineUs, disp⟩

/-! ## The entry points -/

/-- Drive the resolver as far as ring data allows, bounded per wake. -/
def driveFramer (late : UInt32) : ℕ → World σ → World σ
  | 0, w => w.onBus fun bus => { bus with framerAt := some bus.now }
  | turns + 1, w =>
      match driveOnce chip late w with
      | (true, w) => driveFramer late turns w
      | (false, w) => w

/-- Break wake. -/
def onBreak (late : UInt32) (w : World σ) : World σ :=
  if w.bus.clock.calActive then w.onBus fun bus => bus.onCalBreak chip
  else
    let (fresh, bus) := w.bus.breakHead
    let driven := driveFramer chip late framesPerWake { w with bus }
    driven.onBus fun bus => bus.breakTail fresh w.bus.now

/-- One pass over the due slots, and whether any was. -/
def deadlinePass (late : UInt32) (w : World σ) : Bool × World σ :=
  let now := w.bus.now
  let framer := due now w.bus.framerAt
  let w := if framer then driveFramer chip late framesPerWake (w.onBus ServoBus.framerDue) else w
  (framer || due now w.bus.chainAt, w.onBus fun bus => bus.chainDue now)

/-- The bounded drain of the due slots. -/
def drainDeadlines (late : UInt32) : ℕ → World σ → World σ
  | 0, w => w
  | turns + 1, w =>
      match deadlinePass chip late w with
      | (true, w) => drainDeadlines late turns w
      | (false, w) => w

/-- Compare wake: drain the due slots, then re-arm. -/
def onDeadline (late : UInt32) (w : World σ) : World σ :=
  (drainDeadlines chip late deadlineDrainMax w).onBus ServoBus.armDeadline

/-! ## Entry points are runs of steps -/

/-- `w'` is reached from `w` by steps of the transport itself. -/
def Reaches (w w' : World σ) : Prop := ∃ acts, Transition.run (step chip) w acts = w'

theorem Reaches.refl (w : World σ) : Reaches chip w w := ⟨[], rfl⟩

theorem Reaches.act (w : World σ) (act : Act) : Reaches chip w (step chip w act) :=
  ⟨[act], rfl⟩

variable {chip}

theorem Reaches.trans {w w' w'' : World σ} (hleft : Reaches chip w w')
    (hright : Reaches chip w' w'') : Reaches chip w w'' := by
  obtain ⟨left, rfl⟩ := hleft
  obtain ⟨right, rfl⟩ := hright
  exact ⟨left ++ right, Transition.run_append ..⟩

variable (chip)

theorem reaches_driveFramer (late : UInt32) (turns : ℕ) (w : World σ) :
    Reaches chip w (driveFramer chip late turns w) := by
  induction turns generalizing w with
  | zero => exact .act chip w .yield
  | succ turns ih =>
      have hdrive := Reaches.act chip w (.drive late)
      simp only [step] at hdrive
      simp only [driveFramer]
      split
      · rename_i w' hout
        rw [hout] at hdrive
        exact hdrive.trans (ih w')
      · rename_i w' hout
        rw [hout] at hdrive
        exact hdrive

theorem reaches_onBreak (late : UInt32) (w : World σ) : Reaches chip w (onBreak chip late w) := by
  simp only [onBreak]
  split
  · rename_i hcal
    have hmark := Reaches.act chip w .calBreak
    simp only [step, onBus, hcal, if_true] at hmark
    exact hmark
  · have hhead := Reaches.act chip w .breakHead
    have hdrive := reaches_driveFramer chip late framesPerWake (w.onBus fun bus => bus.breakHead.2)
    exact (hhead.trans hdrive).trans (.act chip _ (.breakTail w.bus.breakHead.1 w.bus.now))

theorem reaches_deadlinePass (late : UInt32) (w : World σ) :
    Reaches chip w (deadlinePass chip late w).2 := by
  have hchain : ∀ w' : World σ, Reaches chip w' (w'.onBus fun bus => bus.chainDue w.bus.now) :=
    fun w' => .act chip w' (.chainDue w.bus.now)
  simp only [deadlinePass]
  split
  · have hdue := Reaches.act chip w .framerDue
    exact (hdue.trans (reaches_driveFramer chip late framesPerWake _)).trans (hchain _)
  · exact hchain w

/-- Every entry point is a run of steps. -/
theorem reaches_onDeadline (late : UInt32) (w : World σ) :
    Reaches chip w (onDeadline chip late w) := by
  have hdrain : ∀ (turns : ℕ) (w : World σ), Reaches chip w (drainDeadlines chip late turns w) := by
    intro turns
    induction turns with
    | zero => exact fun w => .refl chip w
    | succ turns ih =>
        intro w
        have hpass := reaches_deadlinePass chip late w
        simp only [drainDeadlines]
        split
        · rename_i w' hout
          rw [hout] at hpass
          exact hpass.trans (ih w')
        · rename_i w' hout
          rw [hout] at hpass
          exact hpass
  exact (hdrain _ w).trans (.act chip _ .arm)

end World

/-! ## Bytes that land at once -/

namespace Ring

/-- Bytes that land one after another short of the seam, in one piece. -/
def land (ring : Ring) (bytes : List Byte) : Ring :=
  if h : ring.cursor + bytes.length ≤ 2 ^ ring.bits then
    { ring with
      bytes := ring.bytes.take ring.cursor ++ bytes ++ ring.bytes.drop (ring.cursor + bytes.length)
      cursor := ringWrap (ring.cursor + bytes.length) (2 ^ ring.bits)
      length_eq := by
        have hlength := ring.length_eq
        simp only [List.length_append, List.length_take, List.length_drop]
        omega
      cursor_lt := by
        rw [ringWrap_two_pow]
        exact Nat.mod_lt _ (Nat.two_pow_pos ring.bits) }
  else bytes.foldl push ring

theorem land_eq_foldl (ring : Ring) (bytes : List Byte) :
    ring.land bytes = bytes.foldl push ring := by
  induction bytes using List.reverseRecOn with
  | nil =>
      have hcursor := ring.cursor_lt
      rw [land, dif_pos (by simp; omega)]
      obtain ⟨bits, bytes, cursor, -, -, -, -⟩ := ring
      simp only [List.foldl_nil, Ring.mk.injEq, List.length_nil, Nat.add_zero, List.append_nil,
        List.take_append_drop, ringWrap_two_pow, true_and]
      exact Nat.mod_eq_of_lt hcursor
  | append_singleton bytes b ih =>
      rw [List.foldl_append, ← ih, List.foldl_cons, List.foldl_nil]
      by_cases hfits : ring.cursor + (bytes ++ [b]).length ≤ 2 ^ ring.bits
      · have hlength := ring.length_eq
        simp only [List.length_append, List.length_singleton] at hfits
        have hcursor : ringWrap (ring.cursor + bytes.length) (2 ^ ring.bits) =
            ring.cursor + bytes.length := by
          rw [ringWrap_two_pow]
          exact Nat.mod_eq_of_lt (by omega)
        have hbefore :
            (ring.bytes.take ring.cursor ++ bytes).length = ring.cursor + bytes.length := by
          simp only [List.length_append, List.length_take]
          omega
        rw [land, dif_pos (by simpa using hfits), land, dif_pos (by omega)]
        simp only [push, hcursor, Ring.mk.injEq, List.length_append, List.length_singleton,
          true_and]
        refine ⟨?_, by rw [Nat.add_assoc]⟩
        rw [List.set_append_right _ _ (by omega), hbefore, Nat.sub_self,
          List.drop_eq_getElem_cons (by omega : ring.cursor + bytes.length < ring.bytes.length),
          List.set_cons_zero]
        simp [Nat.add_assoc]
      · have hfold : ring.land (bytes ++ [b]) = (bytes ++ [b]).foldl push ring := by
          rw [land, dif_neg hfits]
        rw [hfold, List.foldl_append, ← ih]
        rfl

variable {ring : Ring} {start n : ℕ}

@[simp]
theorem land_nil (ring : Ring) : ring.land [] = ring := by
  rw [land_eq_foldl]
  rfl

@[simp]
theorem land_cons (ring : Ring) (b : Byte) (bytes : List Byte) :
    ring.land (b :: bytes) = (ring.push b).land bytes := by
  rw [land_eq_foldl, land_eq_foldl]
  rfl

@[simp]
theorem len_land (ring : Ring) (bytes : List Byte) : (ring.land bytes).len = ring.len := by
  induction bytes generalizing ring with
  | nil => rw [land_nil]
  | cons b bytes ih => rw [land_cons, ih, len_push]

theorem cursor_land (ring : Ring) (bytes : List Byte) :
    (ring.land bytes).cursor = (ring.cursor + bytes.length) % ring.len := by
  induction bytes generalizing ring with
  | nil =>
      rw [land_nil, List.length_nil, Nat.add_zero, Nat.mod_eq_of_lt ring.cursor_lt_len]
  | cons b bytes ih =>
      rw [land_cons, ih, cursor_push, len_push, Nat.mod_add_mod, List.length_cons]
      congr 1
      omega

/-- A byte lands right behind the stretch that reaches the cursor. -/
theorem window_push (hreach : (start + n) % ring.len = ring.cursor) (hlap : n < ring.len)
    (b : Byte) : (ring.push b).window start (n + 1) = ring.window start n ++ [b] := by
  have hlast : (ring.push b).window (start + n) 1 = [b] := by
    simp [window, byteAt_push, hreach]
  rw [window_add, hlast]
  congr 1
  apply List.map_congr_left
  intro i hi
  rw [List.mem_range] at hi
  rw [byteAt_push, ← hreach, if_neg (mod_ne_of_lt (by omega) (by omega))]

theorem window_land (hreach : (start + n) % ring.len = ring.cursor) (bytes : List Byte)
    (hlap : n + bytes.length ≤ ring.len) :
    (ring.land bytes).window start (n + bytes.length) = ring.window start n ++ bytes := by
  induction bytes generalizing ring n with
  | nil => simp
  | cons b bytes ih =>
      rw [List.length_cons] at hlap ⊢
      have hnext : (start + (n + 1)) % (ring.push b).len = (ring.push b).cursor := by
        rw [len_push, cursor_push, ← hreach, Nat.mod_add_mod, Nat.add_assoc]
      have hrest := ih hnext (by rw [len_push]; omega)
      rw [window_push hreach (by omega), List.append_assoc] at hrest
      rw [land_cons, show n + (bytes.length + 1) = n + 1 + bytes.length by omega, hrest]
      rfl

/-- The bytes that landed, where they landed. -/
theorem byteAt_land {bytes : List Byte} (hlap : bytes.length ≤ ring.len) {i : ℕ} {b : Byte}
    (hi : bytes[i]? = some b) : (ring.land bytes).byteAt (ring.cursor + i) = b := by
  have hreach : (ring.cursor + 0) % ring.len = ring.cursor := Nat.mod_eq_of_lt ring.cursor_lt_len
  have hlanded := window_land hreach bytes (by omega)
  rw [Nat.zero_add] at hlanded
  have hlt := (List.getElem?_eq_some_iff.mp hi).1
  have hbyte : ((ring.land bytes).window ring.cursor bytes.length)[i]? = some b := by
    rw [hlanded]
    exact hi
  rw [getElem?_window hlt] at hbyte
  exact Option.some_inj.mp hbyte

theorem land_land (ring : Ring) (bytes more : List Byte) :
    (ring.land bytes).land more = ring.land (bytes ++ more) := by
  rw [land_eq_foldl, land_eq_foldl, land_eq_foldl, List.foldl_append]

end Ring

namespace World

variable {σ : Type} [ConfigStore σ] (chip : Chip)

/-- The bytes land, nothing else happens. -/
def landed (w : World σ) (bytes : List Byte) : World σ :=
  w.onBus fun bus => { bus with ring := bus.ring.land bytes }

theorem run_receive (w : World σ) (bytes : List Byte) :
    Transition.run (step chip) w (bytes.map Act.receive) = w.landed bytes := by
  rw [landed, Transition.run, List.foldl_map]
  have hfold : ∀ w : World σ, bytes.foldl (fun w b => step chip w (.receive b)) w =
      w.onBus fun bus => { bus with ring := bytes.foldl Ring.push bus.ring } := by
    induction bytes with
    | nil => exact fun w => rfl
    | cons b bytes ih => exact fun w => ih _
  rw [hfold]
  simp only [Ring.land_eq_foldl]

end World

/-! ### A servo on the bench -/

/-- A store that accepts everything. -/
instance : ConfigStore Unit where
  save store _ _ := (true, store)
  wipe store := (true, store)

def benchChip : Chip := ⟨8, 1000⟩

/-- Servo 5 at power-on, with the smallest ring. -/
def benchServo : World Unit :=
  World.boot benchChip (.fresh 9 Ring.lapMargin_nine Ring.indexed_nine) 0 5 .b1000000 100
    ⟨.new, List.replicate uidLen 0, some (), .new, none⟩

/-- The bytes land one after another, then the resolver wakes. -/
def deliver (bytes : List Byte) : List Act := bytes.map Act.receive ++ [.drive 0]

theorem World.run_deliver {σ : Type} [ConfigStore σ] (chip : Chip) (w : World σ)
    (bytes : List Byte) :
    Transition.run (World.step chip) w (deliver bytes) =
      (w.landed bytes).step chip (.drive 0) := by
  rw [deliver, Transition.run_append, World.run_receive]
  rfl

end OpenServo.Bus
