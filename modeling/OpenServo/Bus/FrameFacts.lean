import OpenServo.Bus.Run
import OpenServo.Security.Verdict

/-!
# What each part of the transport leaves alone

Frame facts of the bus functions.  The parts that only sequence replies touch
the chain, the transmitter and the CRC engine; the drift tracker touches its
own record; the hooks of the message plane touch the security context.  The
configuration a frame can change is collected in `Config`.
-/

namespace OpenServo.Bus

open Security

/-- The identity, timing and deferred requests that frames can change. -/
structure Config where
  id : Byte
  pendingId : Option Byte
  pendingBaud : Option BaudRate
  pendingReboot : Option BootMode
  pendingCal : Option (ℕ × Byte)
  responseDeadlineUs : ℕ
  deriving DecidableEq, Repr

def ReplyHandle.config (h : ReplyHandle) : Config :=
  ⟨h.id, h.pendingId, h.pendingBaud, h.pendingReboot, h.pendingCal, h.responseDeadlineUs⟩

theorem TxEngine.streaming_trigger {tx : TxEngine} (h : tx.staged = true) (crc : CrcEngine)
    (overResult : Option ResultCode) : (tx.trigger crc overResult).1.streaming = true := by
  simp [trigger, h, streaming]

theorem TxEngine.not_staged_of_streaming {tx : TxEngine} (h : tx.streaming = true) :
    tx.staged = false := by
  simp only [streaming] at h
  split at h
  · rename_i hstate
    simp only [staged, hstate]
  · cases h

namespace ServoBus

def config (bus : ServoBus) : Config :=
  ⟨bus.id, bus.pendingId, bus.pendingBaud, bus.pendingReboot, bus.clock.pendingCal,
    bus.responseDeadlineUs⟩

variable (bus : ServoBus)

@[simp]
theorem config_replyHandle (tolerant : Bool) : (bus.replyHandle tolerant).config = bus.config := rfl

@[simp]
theorem config_withHandle (h : ReplyHandle) : (bus.withHandle h).config = h.config := rfl

/-! ## Reply sequencing -/

/-- Routing the chain touches the chain, its slot, the transmitter and the CRC
engine. -/
theorem routeChainLoop_eq (fuel : ℕ) (out : ChainOut) :
    ∃ chain chainAt tx crc, routeChainLoop fuel out bus = { bus with chain, chainAt, tx, crc } := by
  induction fuel generalizing out bus with
  | zero => exact ⟨_, _, _, _, rfl⟩
  | succ fuel ih =>
      cases out with
      | none => exact ⟨_, _, _, _, rfl⟩
      | trigger predecessorSilent => exact ⟨_, _, _, _, rfl⟩
      | wait due =>
          simp only [routeChainLoop]
          split
          · exact ⟨_, _, _, _, rfl⟩
          · obtain ⟨chain, chainAt, tx, crc, h⟩ :=
              ih { bus with chain := (bus.chain.onDeadline bus.now).1 }
                (bus.chain.onDeadline bus.now).2
            exact ⟨chain, chainAt, tx, crc, h⟩

theorem routeChain_eq (out : ChainOut) :
    ∃ chain chainAt tx crc, bus.routeChain out = { bus with chain, chainAt, tx, crc } :=
  bus.routeChainLoop_eq _ out

/-- A wait of an active chain ends at a tick still ahead, with the reply as it
was, or has triggered the reply, which takes the tick waited for to be reached. -/
theorem routeChainLoop_wait {bus : ServoBus} {fuel : ℕ} {due : UInt32}
    (hactive : bus.chain.active = true) (hturns : bus.chain.turns < fuel) :
    ((∃ next, (routeChainLoop fuel (.wait due) bus).chain.active = true ∧
          (routeChainLoop fuel (.wait due) bus).chain.turns ≤ bus.chain.turns ∧
          (routeChainLoop fuel (.wait due) bus).chainAt = some next ∧
          tickReached bus.now next = false ∧ (routeChainLoop fuel (.wait due) bus).tx = bus.tx) ∨
        (routeChainLoop fuel (.wait due) bus).chain.active = false ∧
          (routeChainLoop fuel (.wait due) bus).chainAt = bus.chainAt ∧
          (bus.tx.staged = true → (routeChainLoop fuel (.wait due) bus).tx.streaming = true) ∧
          tickReached bus.now due = true) ∧
      (routeChainLoop fuel (.wait due) bus).chain.timing = bus.chain.timing := by
  induction fuel generalizing due bus with
  | zero => exact absurd hturns (Nat.not_lt_zero _)
  | succ fuel ih =>
      simp only [routeChainLoop]
      cases hreached : tickReached bus.now due with
      | false => exact ⟨.inl ⟨due, hactive, le_rfl, rfl, hreached, rfl⟩, rfl⟩
      | true =>
          simp only [Bool.not_true, Bool.false_eq_true, if_false]
          obtain ⟨silent, hdeadline⟩ | ⟨chain', due', hdeadline, hactive', hfewer, htiming⟩ :=
            Chain.onDeadline_cases hactive bus.now
          · rw [hdeadline]
            obtain ⟨left, rfl⟩ : ∃ left, fuel = left + 1 :=
              ⟨fuel - 1, by have hpos := Chain.turns_pos hactive; omega⟩
            exact ⟨.inr ⟨rfl, rfl, fun hstaged => TxEngine.streaming_trigger hstaged bus.crc _,
              trivial⟩, rfl⟩
          · rw [hdeadline]
            have hturns' : chain'.turns < fuel := by omega
            obtain ⟨hends, htiming'⟩ := @ih { bus with chain := chain' } due' hactive' hturns'
            refine ⟨?_, htiming'.trans htiming⟩
            obtain ⟨next, hstill, hless, hrest⟩ | ⟨hidle, hslot, hstarts, -⟩ := hends
            · exact .inl ⟨next, hstill, hless.trans hfewer.le, hrest⟩
            · exact .inr ⟨hidle, hslot, hstarts, trivial⟩

theorem sequenceReply_eq (chip : Chip) (slot : ℕ) (packetEnd : UInt32) :
    ∃ chain chainAt tx crc,
      bus.sequenceReply chip slot packetEnd = { bus with chain, chainAt, tx, crc } := by
  simp only [sequenceReply]
  obtain ⟨chain, chainAt, tx, crc, h⟩ := routeChain_eq _ _
  exact ⟨chain, chainAt, tx, crc, h⟩

theorem driftNoteVerified_eq (anchor footprint : ℕ) :
    ∃ clock, bus.driftNoteVerified anchor footprint = { bus with clock } ∧
      clock.pendingCal = bus.clock.pendingCal := by
  simp only [driftNoteVerified]
  split
  · exact ⟨_, rfl, rfl⟩
  · split
    · exact ⟨_, rfl, rfl⟩
    · exact ⟨_, rfl, rfl⟩

/-- The security context with the frame at `anchor` folded in. -/
def foldedSecurity (anchor footprint : ℕ) : SecurityContext :=
  bus.security.fold (bus.ringInst anchor) (coveredSegments bus.ring anchor footprint).1
    (coveredSegments bus.ring anchor footprint).2

theorem foldedSecurity_eq (anchor footprint : ℕ) :
    ∃ stream, bus.foldedSecurity anchor footprint = { bus.security with stream } :=
  bus.security.fold_frame _ _ _

/-- The fold touches the stream digest alone. -/
theorem securityFold_eq (anchor footprint : ℕ) :
    bus.securityFold anchor footprint =
      { bus with security := bus.foldedSecurity anchor footprint } := by
  have hlen : (bus.ring.len == 0) = false := beq_false_of_ne bus.ring.len_pos.ne'
  simp only [securityFold, hlen, Bool.false_eq_true, if_false, foldedSecurity]
  cases hfolds : Policy.foldsIntoStream (bus.ringInst anchor) with
  | true => rfl
  | false => simp [SecurityContext.fold, hfolds]

/-! ## Field by field -/

@[simp]
theorem security_routeChain (out : ChainOut) : (bus.routeChain out).security = bus.security := by
  obtain ⟨_, _, _, _, h⟩ := bus.routeChain_eq out
  rw [h]

@[simp]
theorem config_routeChain (out : ChainOut) : (bus.routeChain out).config = bus.config := by
  obtain ⟨_, _, _, _, h⟩ := bus.routeChain_eq out
  rw [h]
  rfl

@[simp]
theorem security_sequenceReply (chip : Chip) (slot : ℕ) (packetEnd : UInt32) :
    (bus.sequenceReply chip slot packetEnd).security = bus.security := by
  obtain ⟨_, _, _, _, h⟩ := bus.sequenceReply_eq chip slot packetEnd
  rw [h]

@[simp]
theorem config_sequenceReply (chip : Chip) (slot : ℕ) (packetEnd : UInt32) :
    (bus.sequenceReply chip slot packetEnd).config = bus.config := by
  obtain ⟨_, _, _, _, h⟩ := bus.sequenceReply_eq chip slot packetEnd
  rw [h]
  rfl

@[simp]
theorem security_driftNoteVerified (anchor footprint : ℕ) :
    (bus.driftNoteVerified anchor footprint).security = bus.security := by
  obtain ⟨_, h, -⟩ := bus.driftNoteVerified_eq anchor footprint
  rw [h]

@[simp]
theorem config_driftNoteVerified (anchor footprint : ℕ) :
    (bus.driftNoteVerified anchor footprint).config = bus.config := by
  obtain ⟨_, h, hcal⟩ := bus.driftNoteVerified_eq anchor footprint
  rw [h]
  simp only [config, hcal]

@[simp]
theorem config_dropStaged : bus.dropStaged.config = bus.config := rfl

@[simp]
theorem config_rejectFrame (anchor : ℕ) : (bus.rejectFrame anchor).config = bus.config := rfl

end ServoBus

end OpenServo.Bus
