import OpenServo.Client.Uid

/-!
# The prefix walk

Discovery searches the trie of UIDs depth first.  The bus answers an ENUM probe
of an empty subtree with silence and of a single servo with its UID; a crowded
subtree answers with garble, or with one clean frame that may name anyone below
the prefix.  A clean frame counts as a servo only once its own child elects it
again and the sibling stays silent.

The bus may answer from everything it was asked before.  The roster is right as
long as two probes in a row of crowded subtrees do not elect the same UID.
-/

namespace OpenServo.Client

structure Uid where
  bytes : List Byte
  size : bytes.length = uidLen
  deriving DecidableEq

/-- One discovered node: the UID that answered and the id it answered from. -/
structure Found where
  uid : Uid
  id : Id
  deriving DecidableEq

/-- One status of a command's reply. -/
structure Status where
  slot : Byte
  id : Byte
  result : Option ResultCode
  alert : Bool
  payload : List Byte
  deriving DecidableEq

/-- The digest of one command, as far as a probe reads it. -/
structure Reply where
  statuses : List Status
  /-- Ring bytes that anchored no clean status during the await. -/
  garble : UInt16
  /-- Garble after the last clean frame. -/
  trailing : Bool
  deriving DecidableEq

inductive Verdict where
  /-- One clean status carrying a full UID; unconfirmed until its children agree. -/
  | candidate (node : Found)
  /-- Garble, trailing energy or several statuses: descend. -/
  | collision
  /-- Quiet subtree. -/
  | empty
  deriving DecidableEq

/-- A node of the trie. -/
structure Probe where
  len : ℕ
  pre : List Byte
  deriving DecidableEq

/-- What the bus replies to a probe, given all the probes before it, newest
first. -/
abbrev Bus := List Probe → Probe → Reply

def full : ℕ := uidLen * 8
def emptyRetries : ℕ := 2
def fullDepthRetries : ℕ := 3

namespace Probe

def root : Probe := ⟨0, List.replicate uidLen 0⟩

/-- The ENUM payload on the wire. -/
def payload (p : Probe) : Option (List Byte) :=
  (Build.mgmtEnum (List.replicate (2 + uidLen) 0) (UInt8.ofNat p.len) p.pre).map fun built =>
    built.2.take built.1

def child (p : Probe) (v : Bool) : Probe := ⟨p.len + 1, withBit p.pre p.len v⟩

/-- What the walk has to send: a prefix within the UID, clear beyond its length. -/
structure Legal (p : Probe) : Prop where
  bounded : p.len ≤ full
  size : p.pre.length = uidLen
  clear : ∀ k, p.len ≤ k → k < full → bit p.pre k = false

end Probe

/-! ## Probing -/

/-- What one reply to a probe says of its subtree. -/
def Reply.verdict (reply : Reply) (p : Probe) : Verdict :=
  let clean := reply.garble == 0 && !reply.trailing
  match reply.statuses, clean with
  | [], true => .empty
  | [s], true =>
      if h : s.result = some .ok ∧ s.payload.length = uidLen then
        -- a reply off the probe's own prefix is superposition garbage
        if matchesPrefix s.payload p.pre p.len then .candidate ⟨⟨s.payload, h.2⟩, ⟨s.id⟩⟩
        else .collision
      else .collision
  | _, _ => .collision

section

variable (bus : Bus)

def probe (p : Probe) (log : List Probe) : Verdict × List Probe :=
  ((bus log p).verdict p, p :: log)

/-- Probe again for as long as the subtree stays quiet. -/
def settled (p : Probe) : ℕ → Verdict × List Probe → Verdict × List Probe
  | retries + 1, (.empty, log) => settled p retries (probe bus p log)
  | _, answer => answer

def probeSettled (p : Probe) (log : List Probe) : Verdict × List Probe :=
  settled bus p emptyRetries (probe bus p log)

/-! ## The walk -/

structure Walk where
  stack : List Probe
  found : List Found
  log : List Probe
  deriving DecidableEq

def Walk.descend (w : Walk) (p : Probe) : Walk :=
  { w with stack := p.child true :: p.child false :: w.stack }

/-- A collision at full depth is garble luck: retry before giving the leaf up. -/
def retryLeaf (p : Probe) : ℕ → Walk → Walk
  | 0, w => w
  | retries + 1, w =>
      match probe bus p w.log with
      | (.candidate node, log) => { w with found := w.found ++ [node], log }
      | (_, log) => retryLeaf p retries { w with log }

/-- One turn of the loop, for the node just popped. -/
def visit (w : Walk) (p : Probe) : Walk :=
  let (verdict, log) := probeSettled bus p w.log
  let w := { w with log }
  match verdict with
  | .empty => w
  | .candidate node =>
      if p.len = full then { w with found := w.found ++ [node] }
      else
        let b := bit node.uid.bytes p.len
        let (own, log) := probeSettled bus (p.child b) w.log
        let (sib, log) := probeSettled bus (p.child !b) log
        let w := { w with log }
        match own, sib with
        | .candidate again, .empty =>
            if again.uid = node.uid then { w with found := w.found ++ [again] } else w.descend p
        | _, _ => w.descend p
  | .collision =>
      if p.len = full then retryLeaf bus p fullDepthRetries w else w.descend p

/-- The loop, with a bound on its turns; `none` when the bound is reached. -/
def Walk.run : ℕ → Walk → Option Walk
  | 0, w => if w.stack.isEmpty then some w else none
  | turns + 1, w =>
      match w.stack with
      | [] => some w
      | p :: stack => Walk.run turns (visit bus { w with stack } p)

/-- The roster sorted by UID, and every probe sent for it. -/
def walk (turns : ℕ) (log : List Probe) : Option (List Found × List Probe) :=
  (Walk.run bus turns ⟨[.root], [], log⟩).map fun w =>
    (w.found.mergeSort fun a b => decide (a.uid.bytes ≤ b.uid.bytes), w.log)

/-- Repeat the walk until two in a row agree, or the last one is reached. -/
def discoverFrom (turns : ℕ) : ℕ → List Found × List Probe → Option (List Found × List Probe)
  | 0, last => some last
  | walks + 1, last =>
      match walk bus turns last.2 with
      | none => none
      | some next => if next.1 = last.1 then some next else discoverFrom turns walks next

def walksCap : ℕ := 5

def discover (turns : ℕ) (log : List Probe) : Option (List Found × List Probe) :=
  (walk bus turns log).bind (discoverFrom bus turns (walksCap - 1))

end

/-! ## The servos below a probe -/

/-- Does the servo take the probe's payload for its own? -/
def Found.answers (servo : Found) (p : Probe) : Bool :=
  match p.payload.bind fun bytes => MgmtReq.parseOp .enum EnumReq.parse (.ofList bytes) with
  | some e => uidPrefixMatches servo.uid.bytes e.prefixLen e.pre
  | none => false

def matchers (servos : List Found) (p : Probe) : List Found :=
  servos.filter fun servo => servo.answers p

/-- What the walk asks of the bus. -/
structure Bus.Answers (bus : Bus) (servos : List Found) : Prop where
  silent : ∀ log p, p.Legal → matchers servos p = [] → (bus log p).verdict p = .empty
  single : ∀ log p servo, p.Legal → matchers servos p = [servo] →
    (bus log p).verdict p = .candidate servo
  crowded : ∀ log p, p.Legal → 2 ≤ (matchers servos p).length →
    (bus log p).verdict p = .collision ∨
      ∃ node, (bus log p).verdict p = .candidate node ∧
        matchesPrefix node.uid.bytes p.pre p.len = true
  fresh : ∀ log p q node again, p.Legal → q.Legal → 2 ≤ (matchers servos p).length →
    2 ≤ (matchers servos q).length → (bus log p).verdict p = .candidate node →
      (bus (p :: log) q).verdict q = .candidate again → again.uid ≠ node.uid

/-! ## Legal probes -/

theorem Probe.root_legal : Probe.root.Legal where
  bounded := Nat.zero_le _
  size := List.length_replicate
  clear := by
    intro k _ _
    simp [bit_eq_testBit, Probe.root]

theorem Probe.Legal.child {p : Probe} (h : p.Legal) (hlt : p.len < full) (v : Bool) :
    (p.child v).Legal where
  bounded := hlt
  size := by rw [Probe.child, withBit_length, h.size]
  clear := by
    intro k hlo hk
    have hin : p.len / 8 < p.pre.length := by
      rw [h.size]
      simp only [full] at hlt
      omega
    have hne : k ≠ p.len := by
      have hsucc : p.len + 1 ≤ k := hlo
      omega
    rw [Probe.child, bit_withBit hin, if_neg hne]
    exact h.clear k (by have hsucc : p.len + 1 ≤ k := hlo; omega) hk

namespace Probe

theorem Legal.len_toNat {p : Probe} (h : p.Legal) : (UInt8.ofNat p.len).toNat = p.len := by
  have hbound : p.len ≤ 128 := h.bounded
  rw [UInt8.toNat_ofNat']
  omega

/-- The request a legal probe carries. -/
def request (p : Probe) : EnumReq := ⟨UInt8.ofNat p.len, p.pre⟩

theorem Legal.request_wf {p : Probe} (h : p.Legal) : p.request.Wf where
  bits := by
    have hbound : p.len ≤ 128 := h.bounded
    rw [UInt8.le_iff_toNat_le]
    change (UInt8.ofNat p.len).toNat ≤ 128
    rw [h.len_toNat]
    exact hbound
  size := h.size
  unused := by
    have hsize : p.pre.length = 16 := h.size
    have hbytes : EnumReq.prefixBytes p.request.prefixLen = (p.len + 7) / 8 := by
      rw [EnumReq.prefixBytes, request, h.len_toNat]
    rw [hbytes]
    apply List.ext_getElem
    · rw [List.length_drop, List.length_replicate, request, hsize]
      rfl
    · intro j hj _
      rw [List.length_drop, request, hsize] at hj
      have hat : p.pre.getD ((p.len + 7) / 8 + j) 0 = p.pre[(p.len + 7) / 8 + j] := by
        rw [List.getD_eq_getElem?_getD, List.getElem?_eq_getElem, Option.getD_some]
      rw [List.getElem_drop, List.getElem_replicate]
      change p.pre[(p.len + 7) / 8 + j] = 0
      rw [← hat]
      apply byte_eq_iff_testBit.mpr
      intro i hi
      have hclear := h.clear (8 * ((p.len + 7) / 8 + j) + i) (by omega) (by
        simp only [full, uidLen]
        omega)
      have hbyte : (8 * ((p.len + 7) / 8 + j) + i) / 8 = (p.len + 7) / 8 + j := by omega
      have hrem : (8 * ((p.len + 7) / 8 + j) + i) % 8 = i := by omega
      rw [bit_eq_testBit, hbyte, hrem] at hclear
      rw [hclear]
      simp

/-- A legal probe can be built, and the servo parses its request back. -/
theorem Legal.payload_parse {p : Probe} (h : p.Legal) :
    ∃ bytes, p.payload = some bytes ∧
      MgmtReq.parseOp .enum EnumReq.parse (.ofList bytes) = some p.request := by
  have hwf := h.request_wf
  have hle := EnumReq.prefixBytes_le hwf.bits
  have hroom : 2 + EnumReq.prefixBytes p.request.prefixLen ≤
      Build.cap (List.replicate (2 + uidLen) 0) := by
    have hcap : Build.cap (List.replicate (2 + uidLen) 0) = 2 + uidLen := by decide
    omega
  obtain ⟨dst, hbuild⟩ := mgmtEnum_of_room p.request.pre hwf.bits hroom
  obtain ⟨-, -, -, hparse⟩ := Build.mgmtEnum_mirrors.roundTrip (x := p.request) h.size hbuild
  refine ⟨dst.take (2 + EnumReq.prefixBytes p.request.prefixLen), ?_, ?_⟩
  · rw [payload]
    change (Build.mgmtEnum _ p.request.prefixLen p.request.pre).map _ = _
    rw [hbuild]
    rfl
  · rw [hparse _ (by simp [FrameBytes.ofList, FrameBytes.bytes]), Build.keptPrefix_eq hwf]

end Probe

/-- A servo takes a legal probe exactly when the client's own comparison does. -/
theorem Found.answers_eq {p : Probe} (h : p.Legal) (servo : Found) :
    servo.answers p = matchesPrefix servo.uid.bytes p.pre p.len := by
  obtain ⟨bytes, hpayload, hparse⟩ := h.payload_parse
  rw [Found.answers, hpayload, Option.bind_some, hparse]
  have hsame := uidPrefixMatches_eq servo.uid.size h.size h.request_wf.bits
  rw [Probe.request, h.len_toNat] at hsame
  exact hsame

/-! ## The two halves of a subtree -/

section

variable {servos : List Found} {p : Probe}

theorem matchers_root : matchers servos .root = servos := by
  rw [matchers, List.filter_eq_self]
  intro servo _
  rw [Found.answers_eq Probe.root_legal]
  rfl

/-- A child's servos are those of its parent with the child's bit. -/
theorem matchers_child (h : p.Legal) (hlt : p.len < full) (v : Bool) :
    matchers servos (p.child v) =
      (matchers servos p).filter fun servo => bit servo.uid.bytes p.len == v := by
  rw [matchers, matchers, List.filter_filter]
  apply List.filter_congr
  intro servo _
  rw [Found.answers_eq (h.child hlt v), Found.answers_eq h, Bool.eq_iff_iff, Bool.and_eq_true,
    beq_iff_eq, Probe.child]
  have hin : p.len / 8 < p.pre.length := by
    rw [h.size]
    simp only [full] at hlt
    omega
  have hclear := h.clear p.len le_rfl hlt
  rw [matchesPrefix_withBit_iff hin, hclear, Bool.or_false, and_comm]

theorem matchers_split (h : p.Legal) (hlt : p.len < full) :
    (matchers servos (p.child true) ++ matchers servos (p.child false)).Perm
      (matchers servos p) := by
  rw [matchers_child h hlt, matchers_child h hlt]
  have hother : (fun servo : Found => bit servo.uid.bytes p.len == false) =
      fun servo => !(bit servo.uid.bytes p.len == true) := by
    funext servo
    cases bit servo.uid.bytes p.len <;> rfl
  rw [hother]
  exact List.filter_append_perm _ _

/-- At full depth at most one servo is left. -/
theorem matchers_full (hdistinct : (servos.map Found.uid).Nodup) (h : p.Legal)
    (hfull : p.len = full) : (matchers servos p).length ≤ 1 := by
  have hnodup : ((matchers servos p).map Found.uid).Nodup :=
    hdistinct.sublist ((List.filter_sublist).map _)
  have hsame : ∀ servo ∈ matchers servos p, servo.uid = ⟨p.pre, h.size⟩ := by
    intro servo hmem
    have hanswers := (List.mem_filter.mp hmem).2
    rw [Found.answers_eq h, hfull] at hanswers
    have hbytes := eq_of_matchesPrefix_full servo.uid.size h.size hanswers
    obtain ⟨⟨bytes, hsize⟩, id⟩ := servo
    exact Uid.mk.injEq _ _ _ _ |>.mpr hbytes
  match hm : matchers servos p with
  | [] => exact Nat.zero_le _
  | [_] => exact le_rfl
  | a :: b :: rest =>
      rw [hm] at hnodup hsame
      have heq : a.uid = b.uid := by
        rw [hsame a (by simp), hsame b (by simp)]
      simp [heq] at hnodup

end

/-! ## What the probes tell -/

section

variable {bus : Bus} {servos : List Found} {p : Probe}

/-- Settled probing repeats one probe, and settles on an answer of its own. -/
theorem settled_log (n : ℕ) (verdict : Verdict) (log : List Probe) :
    ∃ k, (settled bus p n (verdict, log)).2 = List.replicate k p ++ log := by
  induction n generalizing verdict log with
  | zero => exact ⟨0, rfl⟩
  | succ n ih =>
      cases verdict with
      | candidate node => exact ⟨0, rfl⟩
      | collision => exact ⟨0, rfl⟩
      | empty =>
          obtain ⟨k, hk⟩ := ih ((bus log p).verdict p) (p :: log)
          refine ⟨k + 1, ?_⟩
          rw [settled, probe, hk, List.replicate_succ', List.append_assoc]
          rfl

theorem probeSettled_log (log : List Probe) :
    ∃ k, (probeSettled bus p log).2 = List.replicate k p ++ log := by
  obtain ⟨k, hk⟩ : ∃ k, (settled bus p emptyRetries ((bus log p).verdict p, p :: log)).2 = _ :=
    settled_log emptyRetries _ _
  refine ⟨k + 1, ?_⟩
  rw [probeSettled, probe, hk, List.replicate_succ', List.append_assoc]
  rfl

theorem probeSettled_legal {log : List Probe} (h : p.Legal) (hlog : ∀ q ∈ log, q.Legal) :
    ∀ q ∈ (probeSettled bus p log).2, q.Legal := by
  obtain ⟨k, hk⟩ : ∃ k, (probeSettled bus p log).2 = List.replicate k p ++ log :=
    probeSettled_log log
  rw [hk]
  intro q hq
  rcases List.mem_append.mp hq with hnew | hold
  · rw [List.eq_of_mem_replicate hnew]
    exact h
  · exact hlog q hold

/-- A populated subtree answers at the first probe. -/
theorem probeSettled_of_ne_empty {log : List Probe} (h : (bus log p).verdict p ≠ .empty) :
    probeSettled bus p log = ((bus log p).verdict p, p :: log) := by
  rw [probeSettled, probe]
  cases hv : (bus log p).verdict p with
  | candidate node => rfl
  | collision => rfl
  | empty => exact absurd hv h

variable (hbus : bus.Answers servos)

include hbus

theorem verdict_ne_empty (h : p.Legal) (hsome : matchers servos p ≠ []) (log : List Probe) :
    (bus log p).verdict p ≠ .empty := by
  match hm : matchers servos p with
  | [] => exact absurd hm hsome
  | [servo] =>
      rw [hbus.single log p servo h hm]
      intro hempty
      cases hempty
  | a :: b :: rest =>
      rcases hbus.crowded log p h (by rw [hm]; simp) with hcollide | ⟨node, hnode, _⟩
      · rw [hcollide]
        intro hempty
        cases hempty
      · rw [hnode]
        intro hempty
        cases hempty

/-- Silence is believed after the retries: the subtree is empty. -/
theorem probeSettled_silent (h : p.Legal) (hnone : matchers servos p = []) (log : List Probe) :
    (probeSettled bus p log).1 = .empty := by
  have hquiet : ∀ log, (bus log p).verdict p = .empty := fun log => hbus.silent log p h hnone
  rw [probeSettled, probe, emptyRetries, hquiet, settled, probe, hquiet, settled, probe, hquiet,
    settled]
  intro turns log hlog
  cases hlog

theorem probeSettled_some (h : p.Legal) (hsome : matchers servos p ≠ []) (log : List Probe) :
    probeSettled bus p log = ((bus log p).verdict p, p :: log) :=
  probeSettled_of_ne_empty (verdict_ne_empty hbus h hsome log)

/-- A single servo is confirmed: its own child elects it again, the sibling is
silent. -/
theorem visit_single (h : p.Legal) {servo : Found} (hone : matchers servos p = [servo])
    {w : Walk} (hlog : ∀ q ∈ w.log, q.Legal) :
    ∃ log, (∀ q ∈ log, q.Legal) ∧
      visit bus w p = ⟨w.stack, w.found ++ [servo], log⟩ := by
  have hp : probeSettled bus p w.log = (.candidate servo, p :: w.log) := by
    rw [probeSettled_some hbus h (by rw [hone]; simp), hbus.single w.log p servo h hone]
  have hlegal : ∀ q ∈ p :: w.log, q.Legal := by
    intro q hq
    rcases List.mem_cons.mp hq with rfl | hold
    · exact h
    · exact hlog q hold
  by_cases hfull : p.len = full
  · refine ⟨p :: w.log, hlegal, ?_⟩
    simp only [visit, hp, if_pos hfull]
  · have hlt : p.len < full := lt_of_le_of_ne h.bounded hfull
    have hownLegal := h.child hlt (bit servo.uid.bytes p.len)
    have hsibLegal := h.child hlt (!bit servo.uid.bytes p.len)
    have hown : matchers servos (p.child (bit servo.uid.bytes p.len)) = [servo] := by
      rw [matchers_child h hlt, hone]
      simp
    have hsib : matchers servos (p.child !bit servo.uid.bytes p.len) = [] := by
      rw [matchers_child h hlt, hone]
      simp
    have hownAnswer : probeSettled bus (p.child (bit servo.uid.bytes p.len)) (p :: w.log) =
        (.candidate servo, p.child (bit servo.uid.bytes p.len) :: p :: w.log) := by
      rw [probeSettled_some hbus hownLegal (by rw [hown]; simp),
        hbus.single _ _ servo hownLegal hown]
    have hsibAnswer := probeSettled_silent hbus hsibLegal hsib
      (p.child (bit servo.uid.bytes p.len) :: p :: w.log)
    have hend : ∀ q ∈ (probeSettled bus (p.child !bit servo.uid.bytes p.len)
        (p.child (bit servo.uid.bytes p.len) :: p :: w.log)).2, q.Legal := by
      apply probeSettled_legal hsibLegal
      intro q hq
      rcases List.mem_cons.mp hq with rfl | hold
      · exact hownLegal
      · exact hlegal q hold
    refine ⟨_, hend, ?_⟩
    simp only [visit, hp, if_neg hfull, hownAnswer, hsibAnswer, if_true]

/-- A crowded subtree is always searched further. -/
theorem visit_crowded (h : p.Legal) (hlt : p.len < full) (hmany : 2 ≤ (matchers servos p).length)
    {w : Walk} (hlog : ∀ q ∈ w.log, q.Legal) :
    ∃ log, (∀ q ∈ log, q.Legal) ∧
      visit bus w p = ⟨p.child true :: p.child false :: w.stack, w.found, log⟩ := by
  have hsome : matchers servos p ≠ [] := by
    intro hnone
    rw [hnone] at hmany
    simp at hmany
  have hp := probeSettled_some hbus h hsome w.log
  have hlegal : ∀ q ∈ p :: w.log, q.Legal := by
    intro q hq
    rcases List.mem_cons.mp hq with rfl | hold
    · exact h
    · exact hlog q hold
  have hfull : p.len ≠ full := hlt.ne
  rcases hbus.crowded w.log p h hmany with hcollide | ⟨node, hnode, -⟩
  · refine ⟨p :: w.log, hlegal, ?_⟩
    simp only [visit, hp, hcollide, if_neg hfull, Walk.descend]
  · have hownLegal := h.child hlt (bit node.uid.bytes p.len)
    have hsibLegal := h.child hlt (!bit node.uid.bytes p.len)
    have hend : ∀ q ∈ (probeSettled bus (p.child !bit node.uid.bytes p.len)
        (probeSettled bus (p.child (bit node.uid.bytes p.len)) (p :: w.log)).2).2, q.Legal :=
      probeSettled_legal hsibLegal (probeSettled_legal hownLegal hlegal)
    refine ⟨_, hend, ?_⟩
    -- the confirm probes cannot both re-elect the node and find the sibling silent
    have hrefuted : ∀ again,
        (probeSettled bus (p.child (bit node.uid.bytes p.len)) (p :: w.log)).1 = .candidate again →
        (probeSettled bus (p.child !bit node.uid.bytes p.len)
          (probeSettled bus (p.child (bit node.uid.bytes p.len)) (p :: w.log)).2).1 = .empty →
        again.uid ≠ node.uid := by
      intro again hagain hquiet
      have hsib : matchers servos (p.child !bit node.uid.bytes p.len) = [] := by
        by_contra hpopulated
        rw [probeSettled_some hbus hsibLegal hpopulated] at hquiet
        exact verdict_ne_empty hbus hsibLegal hpopulated _ hquiet
      have hown : 2 ≤ (matchers servos (p.child (bit node.uid.bytes p.len))).length := by
        have hsplit := (@matchers_split servos p h hlt).length_eq
        rw [List.length_append] at hsplit
        cases hb : bit node.uid.bytes p.len <;> rw [hb] at hsib <;>
          simp only [Bool.not_true, Bool.not_false] at hsib <;>
          rw [hsib, List.length_nil] at hsplit <;> omega
      have hownSome : matchers servos (p.child (bit node.uid.bytes p.len)) ≠ [] := by
        intro hnone
        rw [hnone] at hown
        simp at hown
      rw [probeSettled_some hbus hownLegal hownSome] at hagain
      exact hbus.fresh w.log p _ node again h hownLegal hmany hown hnode hagain
    simp only [visit, hp, hnode, if_neg hfull]
    generalize hfirst : probeSettled bus (p.child (bit node.uid.bytes p.len)) (p :: w.log) = own
      at hrefuted ⊢
    obtain ⟨ownVerdict, ownLog⟩ := own
    generalize hsecond : probeSettled bus (p.child !bit node.uid.bytes p.len) ownLog = sib
      at hrefuted ⊢
    obtain ⟨sibVerdict, sibLog⟩ := sib
    cases ownVerdict with
    | collision => rfl
    | empty => rfl
    | candidate again =>
        cases sibVerdict with
        | collision => rfl
        | candidate other => rfl
        | empty =>
            have hne := hrefuted again rfl rfl
            simp only [if_neg hne, Walk.descend]

/-- One turn of the loop settles a subtree or splits it. -/
theorem visit_cases (hdistinct : (servos.map Found.uid).Nodup) (h : p.Legal) {w : Walk}
    (hlog : ∀ q ∈ w.log, q.Legal) :
    ∃ log, (∀ q ∈ log, q.Legal) ∧
      (visit bus w p = ⟨w.stack, w.found ++ matchers servos p, log⟩ ∨
        p.len < full ∧
          visit bus w p = ⟨p.child true :: p.child false :: w.stack, w.found, log⟩) := by
  match hm : matchers servos p with
  | [] =>
      refine ⟨(probeSettled bus p w.log).2, probeSettled_legal h hlog, Or.inl ?_⟩
      simp only [visit, probeSettled_silent hbus h hm, List.append_nil]
  | [servo] =>
      obtain ⟨log, hlegal, hvisit⟩ := visit_single hbus h hm hlog
      exact ⟨log, hlegal, Or.inl hvisit⟩
  | a :: b :: rest =>
      have hmany : 2 ≤ (matchers servos p).length := by
        rw [hm]
        simp
      have hlt : p.len < full := by
        refine lt_of_le_of_ne h.bounded fun hfull => ?_
        have hone := matchers_full hdistinct h hfull
        omega
      obtain ⟨log, hlegal, hvisit⟩ := visit_crowded hbus h hlt hmany hlog
      exact ⟨log, hlegal, Or.inr ⟨hlt, hvisit⟩⟩

end

/-! ## The whole walk -/

/-- A bound on the turns a subtree can take. -/
def Probe.weight (p : Probe) : ℕ := 3 ^ (full - p.len)

/-- What is found and what is still below the stack make up the servos. -/
structure Walk.Covers (servos : List Found) (w : Walk) : Prop where
  roster : (w.found ++ w.stack.flatMap (matchers servos)).Perm servos
  stack : ∀ p ∈ w.stack, p.Legal
  log : ∀ p ∈ w.log, p.Legal

theorem Walk.run_covers {bus : Bus} {servos : List Found} (hbus : bus.Answers servos)
    (hdistinct : (servos.map Found.uid).Nodup) (turns : ℕ) {w : Walk} (h : w.Covers servos)
    (hturns : (w.stack.map Probe.weight).sum ≤ turns) :
    ∃ w', Walk.run bus turns w = some w' ∧ w'.found.Perm servos ∧ ∀ p ∈ w'.log, p.Legal := by
  induction turns generalizing w with
  | zero =>
      obtain ⟨stack, found, log⟩ := w
      cases stack with
      | nil =>
          refine ⟨_, rfl, ?_, h.log⟩
          simpa using h.roster
      | cons p stack =>
          have hpos : 0 < p.weight := Nat.pow_pos (by decide)
          simp only [List.map_cons, List.sum_cons] at hturns
          omega
  | succ turns ih =>
      obtain ⟨stack, found, log⟩ := w
      cases stack with
      | nil =>
          refine ⟨_, rfl, ?_, h.log⟩
          simpa using h.roster
      | cons p stack =>
          have hp := h.stack p (List.mem_cons_self)
          have hrest : ∀ q ∈ stack, q.Legal := fun q hq => h.stack q (List.mem_cons_of_mem p hq)
          have hroster := h.roster
          simp only [List.flatMap_cons] at hroster
          simp only [List.map_cons, List.sum_cons] at hturns
          have hlog : ∀ q ∈ (Walk.mk stack found log).log, q.Legal := h.log
          obtain ⟨log', hlog', hvisit⟩ := visit_cases hbus hdistinct hp hlog
          have hturn : Walk.run bus (turns + 1) ⟨p :: stack, found, log⟩ =
              Walk.run bus turns (visit bus ⟨stack, found, log⟩ p) := rfl
          rw [hturn]
          rcases hvisit with hdone | ⟨hlt, hsplit⟩
          · rw [hdone]
            have hpos : 0 < p.weight := Nat.pow_pos (by decide)
            have hbound : (stack.map Probe.weight).sum ≤ turns := by omega
            apply ih ⟨?_, hrest, hlog'⟩ hbound
            rw [List.append_assoc]
            exact hroster
          · rw [hsplit]
            have hweight : p.weight = 3 * (p.child true).weight := by
              have hexp : full - p.len = (full - (p.len + 1)) + 1 := by omega
              rw [Probe.weight, hexp, pow_succ, Nat.mul_comm]
              rfl
            have hsame : (p.child false).weight = (p.child true).weight := rfl
            have hpos : 0 < (p.child true).weight := Nat.pow_pos (by decide)
            apply ih ⟨?_, ?_, hlog'⟩
            · simp only [List.map_cons, List.sum_cons]
              omega
            · refine List.Perm.trans (List.Perm.append_left found ?_) hroster
              simp only [List.flatMap_cons]
              rw [← List.append_assoc]
              exact List.Perm.append_right _ (matchers_split hp hlt)
            · intro q hq
              rcases List.mem_cons.mp hq with rfl | hq
              · exact hp.child hlt true
              · rcases List.mem_cons.mp hq with rfl | hq
                · exact hp.child hlt false
                · exact hrest q hq

theorem uid_le_trans (a b c : Found) (hab : decide (a.uid.bytes ≤ b.uid.bytes) = true)
    (hbc : decide (b.uid.bytes ≤ c.uid.bytes) = true) :
    decide (a.uid.bytes ≤ c.uid.bytes) = true := by
  rw [decide_eq_true_iff] at *
  exact List.le_trans hab hbc

theorem uid_le_total (a b : Found) :
    (decide (a.uid.bytes ≤ b.uid.bytes) || decide (b.uid.bytes ≤ a.uid.bytes)) = true := by
  rw [Bool.or_eq_true, decide_eq_true_iff, decide_eq_true_iff]
  exact List.le_total _ _

section

variable {bus : Bus} {servos : List Found} (hdistinct : (servos.map Found.uid).Nodup)
  (hbus : bus.Answers servos) {turns : ℕ} (hturns : 3 ^ full ≤ turns)

include hdistinct hbus hturns

/-- The walk from any history of probes. -/
theorem walk_from {log : List Probe} (hlog : ∀ p ∈ log, p.Legal) :
    ∃ roster sent, walk bus turns log = some (roster, sent) ∧ roster.Perm servos ∧
      roster.Pairwise (fun a b => a.uid.bytes ≤ b.uid.bytes) ∧ ∀ p ∈ sent, p.Legal := by
  have hstart : Walk.Covers servos ⟨[.root], [], log⟩ := by
    refine ⟨?_, ?_, hlog⟩
    · simp [matchers_root]
    · intro p hp
      rw [List.mem_singleton.mp hp]
      exact Probe.root_legal
  have hweight : (([Probe.root] : List Probe).map Probe.weight).sum ≤ turns := by
    simpa [Probe.weight, Probe.root] using hturns
  obtain ⟨w, hrun, hperm, hsent⟩ := Walk.run_covers hbus hdistinct turns hstart hweight
  refine ⟨_, w.log, by rw [walk, hrun]; rfl, ?_, ?_, hsent⟩
  · exact (List.mergeSort_perm _ _).trans hperm
  · have hsorted := List.pairwise_mergeSort uid_le_trans uid_le_total w.found
    exact hsorted.imp (fun hle => of_decide_eq_true hle)

/-- The walk ends, and its roster is exactly the servos, each once and in UID
order; every probe it sends is a prefix within the UID, clear beyond its length. -/
theorem walk_roster :
    ∃ roster sent, walk bus turns [] = some (roster, sent) ∧ roster.Perm servos ∧
      roster.Pairwise (fun a b => a.uid.bytes ≤ b.uid.bytes) ∧ ∀ p ∈ sent, p.Legal := by
  apply walk_from hdistinct hbus hturns
  intro p hp
  cases hp

/-- Discovery returns after its second walk: two rosters of the same servos agree. -/
theorem discover_roster :
    ∃ roster sent, discover bus turns [] = some (roster, sent) ∧ roster.Perm servos ∧
      roster.Pairwise (fun a b => a.uid.bytes ≤ b.uid.bytes) ∧ ∀ p ∈ sent, p.Legal := by
  obtain ⟨roster, sent, hwalk, hperm, hsorted, hsent⟩ :=
    walk_from hdistinct hbus hturns (show ∀ p ∈ ([] : List Probe), p.Legal by simp)
  obtain ⟨roster', sent', hwalk', hperm', hsorted', hsent'⟩ :=
    walk_from hdistinct hbus hturns hsent
  have hsame : roster' = roster := by
    apply (hperm'.trans hperm.symm).eq_of_pairwise _ hsorted' hsorted
    intro a b ha hb hab hba
    have huid : a.uid = b.uid := by
      obtain ⟨⟨bytes, hsize⟩, id⟩ := a
      obtain ⟨⟨bytes', hsize'⟩, id'⟩ := b
      exact Uid.mk.injEq _ _ _ _ |>.mpr (List.le_antisymm hab hba)
    exact List.inj_on_of_nodup_map hdistinct (hperm'.mem_iff.mp ha) (hperm.mem_iff.mp hb) huid
  refine ⟨roster', sent', ?_, hperm', hsorted', hsent'⟩
  rw [discover, hwalk, Option.bind_some, walksCap, discoverFrom, hwalk']
  simp only [if_pos hsame]

end

/-! ## A plain bus -/

/-- Silence, the one servo's status, or garble. -/
def plainBus (servos : List Found) : Bus := fun _ p =>
  match matchers servos p with
  | [] => ⟨[], 0, false⟩
  | [servo] => ⟨[⟨0, servo.id.byte, some .ok, false, servo.uid.bytes⟩], 0, false⟩
  | _ => ⟨[], 1, true⟩

theorem plainBus_answers (servos : List Found) : (plainBus servos).Answers servos where
  silent := by
    intro log p _ hnone
    simp only [plainBus, hnone]
    rfl
  single := by
    intro log p servo h hone
    have hmem : servo ∈ matchers servos p := by
      rw [hone]
      exact List.mem_singleton_self servo
    have hmatch := (List.mem_filter.mp hmem).2
    rw [Found.answers_eq h] at hmatch
    simp [plainBus, hone, Reply.verdict, hmatch, servo.uid.size]
  crowded := by
    intro log p _ hmany
    left
    match hm : matchers servos p with
    | [] => simp [hm] at hmany
    | [_] => simp [hm] at hmany
    | _ :: _ :: _ =>
        simp only [plainBus, hm]
        rfl
  fresh := by
    intro log p q node again _ _ hmany _ hnode
    match hm : matchers servos p with
    | [] => simp [hm] at hmany
    | [_] => simp [hm] at hmany
    | _ :: _ :: _ =>
        simp only [plainBus, hm] at hnode
        cases hnode

def twinUid (last : Byte) : Uid := ⟨List.replicate 15 7 ++ [last], by simp [uidLen]⟩

/-- Two servos that part in their last bit. -/
theorem walk_roster_twins :
    ∃ roster sent, walk (plainBus [⟨twinUid 0x80, ⟨1⟩⟩, ⟨twinUid 0x00, ⟨2⟩⟩]) (3 ^ full) [] =
        some (roster, sent) ∧
      roster.Perm [⟨twinUid 0x80, ⟨1⟩⟩, ⟨twinUid 0x00, ⟨2⟩⟩] ∧
      roster.Pairwise (fun a b => a.uid.bytes ≤ b.uid.bytes) ∧ ∀ p ∈ sent, p.Legal :=
  walk_roster (by decide) (plainBus_answers _) le_rfl

end OpenServo.Client
