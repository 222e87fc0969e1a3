import OpenServo.Client.Edges
import OpenServo.Core.Waveform
import OpenServo.Protocol.FrameBytes

/-!
# Stamps from edges

The bench turns a time-ordered edge capture into stamps: a break for every low span of
at least nine and a half bits, and a byte for every character.  A character is read at
the middle of its bits from its own start fall, and the next one is looked for one
character time later, within half a bit before and one bit after.
-/

namespace OpenServo.Bench

open Client

/-- One decoded stamp; breaks carry their fall, bytes their start fall. -/
structure BStamp where
  tick : UInt32
  byte : Byte
  flags : Byte
  deriving DecidableEq, Repr

def BStamp.boundary : Byte := (1 : Byte) <<< 1

/-- `e.tick as i64`. -/
def time (e : WireEdge) : ℤ := e.tick.toNat

/-- The number of leading items that satisfy `p`, on a partitioned list. -/
def partitionPoint {α : Type*} (p : α → Bool) (xs : List α) : ℕ := (xs.takeWhile p).length

/-! ## The decoder -/

section

variable (edges : List WireEdge)

/-- Line level at `at'`: the latest edge's level, idle-high before any. -/
def levelAt (at' : ℤ) : Level :=
  match partitionPoint (fun e => time e ≤ at') edges with
  | 0 => .high
  | n + 1 => (edges[n]?.map WireEdge.level).getD .high

/-- Sample one 8N1 character anchored at its captured start fall. -/
def sampleChar (start b : ℤ) : Byte :=
  (List.range 8).foldl (fun byte (k : ℕ) =>
    if levelAt edges (start + b * (3 + 2 * k) / 2) = .high then byte ||| 1 <<< UInt8.ofNat k
    else byte) 0

def timeAt (i : ℕ) : ℤ := (edges[i]?.map time).getD 0

/-- Index of the first fall with tick in `[lo, hi]`. -/
def nextFallIn (lo hi : ℤ) : Option ℕ :=
  let first := partitionPoint (fun e => time e < lo) edges
  let found := (edges.drop first).findIdx? fun e => e.level = .low && time e ≤ hi
  (found.map (first + ·)).filter fun j => timeAt edges j ≤ hi

/-- The character loop from the start fall at `start`, with a bound on its turns: the
stamps, and the last start. -/
def chars (b : ℤ) : ℕ → ℤ → Option (List BStamp × ℤ)
  | 0, _ => none
  | turns + 1, start =>
      let stamp : BStamp := ⟨.ofInt start, sampleChar edges start b, 0⟩
      match nextFallIn edges (start + 19 * b / 2) (start + 11 * b) with
      | some j => (chars b turns (timeAt edges j)).map fun (out, last) => (stamp :: out, last)
      | none => some ([stamp], start)

/-- The loop over the edges from index `i`, with a bound on its turns. -/
def scan (b : ℤ) : ℕ → ℕ → Option (List BStamp)
  | 0, _ => none
  | turns + 1, i =>
      match edges[i]? with
      | none => some []
      | some edge =>
          if edge.level ≠ .low then scan b turns (i + 1)
          else
            match edges[i + 1]? with
            -- a dangling fall: nothing trustworthy to decode
            | none => some []
            | some next =>
                -- the break bar: a 0x00 character is nine low bits, the break ten
                if (time next - time edge) * 2 ≥ 19 * b then
                  (scan b turns (i + 1)).map (⟨edge.tick, 0, BStamp.boundary⟩ :: ·)
                else do
                  let (out, last) ← chars edges b edges.length (time edge)
                  let rest ← scan b turns (partitionPoint (fun e => time e < last + 10 * b) edges)
                  return out ++ rest

/-- Decode a time-ordered edge capture; `none` when a bound on turns is reached. -/
def stampsFromEdges (bitTicks : UInt32) : Option (List BStamp) :=
  scan edges bitTicks.toNat (edges.length + 1) 0

end

/-! ## The wire -/

/-- The line through one 8N1 character: start, data from bit 0 on, stop. -/
def charLevels (byte : Byte) : List Level :=
  .low :: (List.range 8).map (fun k => if byte >>> UInt8.ofNat k &&& 1 == 1 then .high else .low) ++
    [.high]

/-- The transitions of `bits` from bit `k` of a character on. -/
def levelEdges (start b : ℕ) (level : Level) : ℕ → List Level → List WireEdge
  | _, [] => []
  | k, bit :: bits =>
      if bit ≠ level then ⟨.ofNat (start + k * b), bit⟩ :: levelEdges start b bit (k + 1) bits
      else levelEdges start b level (k + 1) bits

/-- One character's edges at `start`, on an idle line. -/
def charEdges (start b : ℕ) (byte : Byte) : List WireEdge :=
  levelEdges start b .high 0 (charLevels byte)

/-- Characters back to back. -/
def bytesEdges (anchor b : ℕ) : List Byte → List WireEdge
  | [] => []
  | byte :: bytes => charEdges anchor b byte ++ bytesEdges (anchor + 10 * b) b bytes

/-- A break-framed frame: ticks of idle between its break and its first byte, the bytes,
and ticks of idle behind them. -/
structure WireFrame where
  seam : ℕ
  bytes : List Byte
  idle : ℕ
  deriving DecidableEq, Repr

namespace WireFrame

/-- Where the first byte's start fall is, for a break falling at `fall`. -/
def anchor (frame : WireFrame) (fall b : ℕ) : ℕ := fall + 10 * b + frame.seam

/-- The end of the last stop bit. -/
def close (frame : WireFrame) (fall b : ℕ) : ℕ :=
  frame.anchor fall b + 10 * b * frame.bytes.length

/-- Where the next break falls. -/
def next (frame : WireFrame) (fall b : ℕ) : ℕ := frame.close fall b + frame.idle

/-- The break's fall, its rise ten bits later, and the bytes. -/
def edges (frame : WireFrame) (fall b : ℕ) : List WireEdge :=
  ⟨.ofNat fall, .low⟩ :: ⟨.ofNat (fall + 10 * b), .high⟩ ::
    bytesEdges (frame.anchor fall b) b frame.bytes

end WireFrame

/-- The edges of frames one after another, the first break falling at `fall`. -/
def wireEdges (fall b : ℕ) : List WireFrame → List WireEdge
  | [] => []
  | frame :: frames => frame.edges fall b ++ wireEdges (frame.next fall b) b frames

/-- The wire ends before the tick counter wraps. -/
def Exact (fall b : ℕ) : List WireFrame → Prop
  | [] => True
  | frame :: frames => frame.close fall b < 2 ^ 32 ∧ Exact (frame.next fall b) b frames

/-! ## What the stamps should be -/

def bytesStamps (anchor b : ℕ) : List Byte → List BStamp
  | [] => []
  | byte :: bytes => ⟨.ofNat anchor, byte, 0⟩ :: bytesStamps (anchor + 10 * b) b bytes

def WireFrame.stamps (frame : WireFrame) (fall b : ℕ) : List BStamp :=
  ⟨.ofNat fall, 0, BStamp.boundary⟩ :: bytesStamps (frame.anchor fall b) b frame.bytes

/-- A boundary at each break's fall, and each byte at its start fall. -/
def wireStamps (fall b : ℕ) : List WireFrame → List BStamp
  | [] => []
  | frame :: frames => frame.stamps fall b ++ wireStamps (frame.next fall b) b frames

end OpenServo.Bench
