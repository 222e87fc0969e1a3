import OpenServo.Bus.Framer

/-!
# Reply sequencing

Every reply is deadline-triggered after the frame it answers; a chain slot
additionally waits for its predecessors' status frames, each with a reclaim
window so that a silent predecessor cannot collapse the tail.
-/

namespace OpenServo.Bus

inductive ChainOut where
  | none
  | wait (due : UInt32)
  | trigger (predecessorSilent : Bool)
  deriving DecidableEq, Repr

inductive ChainState where
  | idle
  | pending (silent : Bool)
  | waiting (remaining : ℕ) (silent : Bool)
  deriving DecidableEq, Repr

structure Chain where
  state : ChainState
  replyGap : UInt32
  reclaim : UInt32
  allowance : UInt32
  deriving DecidableEq, Repr

namespace Chain

def new : Chain := ⟨.idle, 0, 0, 0⟩

def active (chain : Chain) : Bool := chain.state != .idle

def waiting (chain : Chain) : Bool :=
  match chain.state with
  | .waiting _ _ => true
  | _ => false

/-- Own reply started, or a new instruction superseded the chain. -/
def reset (chain : Chain) : Chain := { chain with state := .idle }

/-- Own reply staged for `slot` after the instruction frame ended. -/
def onReplyStaged (chain : Chain) (slot : ℕ) (packetEnd replyGap reclaim allowance : UInt32) :
    Chain × ChainOut :=
  let chain := { chain with replyGap, reclaim, allowance }
  if slot == 0 then
    ({ chain with state := .pending false }, .wait (packetEnd + replyGap))
  else
    ({ chain with state := .waiting slot false }, .wait (packetEnd + replyGap + reclaim))

/-- A break landed while we hold a staged reply: the predecessor is alive. -/
def onBreakObserved (chain : Chain) (now : UInt32) : ChainOut :=
  match chain.state with
  | .waiting _ _ => .wait (now + chain.allowance)
  | _ => .none

/-- Someone else's status frame ended. -/
def onStatusEnd (chain : Chain) (packetEnd : UInt32) : Chain × ChainOut :=
  match chain.state with
  | .waiting remaining silent =>
      let remaining := remaining - 1
      if remaining == 0 then
        ({ chain with state := .pending silent }, .wait (packetEnd + chain.replyGap))
      else
        ({ chain with state := .waiting remaining silent },
          .wait (packetEnd + chain.replyGap + chain.reclaim))
  | _ => (chain, .none)

def onDeadline (chain : Chain) (now : UInt32) : Chain × ChainOut :=
  match chain.state with
  | .pending silent => (chain.reset, .trigger silent)
  | .waiting remaining _ =>
      let remaining := remaining - 1
      if remaining == 0 then (chain.reset, .trigger true)
      else ({ chain with state := .waiting remaining true }, .wait (now + chain.reclaim))
  | .idle => (chain, .none)

/-- Deadlines an active chain can still take before it triggers. -/
def turns (chain : Chain) : ℕ :=
  match chain.state with
  | .idle => 0
  | .pending _ => 1
  | .waiting remaining _ => remaining + 1

/-- A deadline that asks to wait again has used one turn up. -/
theorem turns_onDeadline {chain chain' : Chain} {now due : UInt32}
    (h : chain.onDeadline now = (chain', .wait due)) : chain'.turns < chain.turns := by
  simp only [onDeadline] at h
  split at h
  · cases h
  · rename_i remaining silent hstate
    split at h
    · cases h
    · rename_i hne
      cases h
      simp only [beq_iff_eq] at hne
      simp only [turns, hstate]
      omega
  · cases h

/-- The times a reply was sequenced with. -/
def timing (chain : Chain) : UInt32 × UInt32 × UInt32 :=
  (chain.replyGap, chain.reclaim, chain.allowance)

/-- A deadline of an active chain triggers, or takes a turn of the chain. -/
theorem onDeadline_cases {chain : Chain} (h : chain.active = true) (now : UInt32) :
    (∃ silent, chain.onDeadline now = (chain.reset, .trigger silent)) ∨
      ∃ chain' due, chain.onDeadline now = (chain', .wait due) ∧ chain'.active = true ∧
        chain'.turns < chain.turns ∧ chain'.timing = chain.timing := by
  cases hstate : chain.state with
  | idle => simp [active, hstate] at h
  | pending silent => exact Or.inl ⟨silent, by simp only [onDeadline, hstate]⟩
  | waiting remaining silent =>
      by_cases hlast : remaining - 1 = 0
      · exact Or.inl ⟨true, by simp [onDeadline, hstate, hlast]⟩
      · have hout : chain.onDeadline now =
            ({ chain with state := .waiting (remaining - 1) true },
              .wait (now + chain.reclaim)) := by
          simp [onDeadline, hstate, hlast]
        exact Or.inr ⟨_, _, hout, rfl, turns_onDeadline hout, rfl⟩

/-- An active chain has a turn left. -/
theorem turns_pos {chain : Chain} (h : chain.active = true) : 0 < chain.turns := by
  cases hstate : chain.state with
  | idle => simp [active, hstate] at h
  | pending silent => simp [turns, hstate]
  | waiting remaining silent => simp [turns, hstate]

theorem onDeadline_idle {chain : Chain} (h : chain.active = false) (now : UInt32) :
    chain.onDeadline now = (chain, .none) := by
  have hstate : chain.state = .idle := by simpa [active] using h
  simp only [onDeadline, hstate]

end Chain

end OpenServo.Bus
