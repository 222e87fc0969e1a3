import OpenServo.Bus.CrcSpans
import OpenServo.Security.Messages

/-!
# Unambiguous transcripts

A covered span cut from the ring is the LEN bytes after the break, so it spells its own
length.  What the stream digest absorbs therefore has one reading, and no two roles or inputs
share a message under the MAC or the key derivation.
-/

namespace OpenServo.Bus

open Security Unambiguous

/-- A frame in the ring as the resolver hands it out. -/
structure WireFrame where
  ring : Ring
  span : FrameSpan
  wellFormed : Framer.Spans ring span
  inRing : span.anchor < ring.len

namespace WireFrame

def segments (frame : WireFrame) : List Byte × List Byte :=
  ServoBus.coveredSegments frame.ring frame.span.anchor frame.span.footprint

/-- The covered span's bytes, its two segments in order. -/
def covered (frame : WireFrame) : List Byte := frame.segments.1 ++ frame.segments.2

theorem covered_eq (frame : WireFrame) :
    frame.covered = frame.ring.window (frame.span.anchor + 1) (frame.span.footprint - 3) := by
  have hlen := frame.ring.len_ge
  have hstart : (frame.span.anchor + 1) % frame.ring.len < frame.ring.len :=
    Nat.mod_lt _ (by omega)
  obtain ⟨-, hbound⟩ := frame.wellFormed.footprint_bounds
  have hfit : frame.span.footprint ≤ 258 := hbound
  rw [← Ring.window_mod, covered, segments, ServoBus.coveredSegments]
  dsimp only [ServoBus.coveredSpan]
  split
  · rename_i hinside
    dsimp only
    rw [Ring.slice_eq_window (by omega) hinside, List.append_nil, Nat.add_sub_cancel_left]
  · rename_i hpast
    dsimp only
    rw [Ring.slice_append_slice hstart.le (by omega) (by omega), Nat.add_sub_cancel_left]

theorem header_covered (frame : WireFrame) : 3 ≤ frame.covered.length := by
  have hlow := frame.wellFormed.footprint_bounds.1
  rw [covered_eq, Ring.length_window]
  omega

/-- The covered span of a frame is as long as its LEN byte says. -/
theorem len_covered (frame : WireFrame) :
    (frame.covered.getD 1 0).toNat = frame.covered.length := by
  have hlow := frame.wellFormed.footprint_bounds.1
  have hsized := frame.wellFormed.sized
  rw [covered_eq, Ring.length_window, List.getD_eq_getElem?_getD,
    Ring.getElem?_window (by omega), Option.getD_some]
  rw [footprint] at hsized
  show (frame.ring.byteAt (frame.span.anchor + 2)).toNat = _
  omega

def toSpan (frame : WireFrame) : CoveredSpan where
  bytes := frame.covered
  header := frame.header_covered
  len_eq := frame.len_covered

end WireFrame

/-- The messages behind the three kinds of tag. -/
structure MacFeeds (key : MacKey) : Prop where
  stream : ∀ frames : List WireFrame,
    (StreamDigest.ofFrames key (frames.map WireFrame.segments)).digest =
      mac key (macMessage ⟨.stream, frames.map WireFrame.toSpan⟩)
  frame : ∀ (ctx : SecurityContext) (seq : Byte) (tagged : List Byte),
    ctx.frameTag key seq tagged =
      mac key (macMessage ⟨.frame, ⟨ctx.keys.epoch, seq, tagged⟩⟩)
  commit : ∀ (ctx : SecurityContext) (seq : Byte) (tagged : List Byte),
    ctx.commitTag key seq tagged =
      mac key (macMessage ⟨.commit, ⟨ctx.keys.epoch, seq, ctx.stream.digest, tagged⟩⟩)

theorem macFeeds (key : MacKey) : MacFeeds key where
  stream frames := by
    apply StreamDigest.digest_eq
    rw [List.map_map, List.map_map]
    rfl
  frame ctx seq tagged := ctx.frameTag_eq key seq tagged
  commit ctx seq tagged := ctx.commitTag_eq key seq tagged

/-- Folded spans have one reading; messages under the MAC, and under the key derivation, are
disjoint across roles and injective within each. -/
theorem transcripts_are_unambiguous :
    (∀ frames frames' : List WireFrame,
      frames.flatMap WireFrame.covered = frames'.flatMap WireFrame.covered →
        frames.map WireFrame.covered = frames'.map WireFrame.covered) ∧
    (∀ key, MacFeeds key) ∧
    Function.Injective macMessage ∧
    Function.Injective kdfMessage := by
  refine ⟨fun frames frames' h => ?_, macFeeds, macMessage_injective, kdfMessage_injective⟩
  have hspans : frames.map WireFrame.toSpan = frames'.map WireFrame.toSpan := by
    apply folded_injective
    rw [List.flatMap_map, List.flatMap_map]
    exact h
  have hbytes := congrArg (List.map CoveredSpan.bytes) hspans
  rwa [List.map_map, List.map_map] at hbytes

/-- The ping of `seamPing` at the start of a ring, and a longer frame behind it. -/
def flatPing : Ring where
  bits := 9
  bytes := [0x00, 0x07, 0x03, 0x10, 0xB0, 0xFD, 0x00, 0x07, 0x04, 0x20, 0x55, 0x12, 0x34] ++
    List.replicate 499 0xAA
  cursor := 13
  length_eq := by rw [List.length_append, List.length_replicate]; rfl
  lapMargin := Ring.lapMargin_nine
  indexed := Ring.indexed_nine
  cursor_lt := by decide

def flatFrame : WireFrame where
  ring := flatPing
  span := ⟨0, 6, 0⟩
  wellFormed := ⟨by decide +kernel, by decide +kernel, by decide +kernel⟩
  inRing := by decide

def nextFrame : WireFrame where
  ring := flatPing
  span := ⟨6, 7, 0⟩
  wellFormed := ⟨by decide +kernel, by decide +kernel, by decide +kernel⟩
  inRing := by decide

def seamFrame : WireFrame where
  ring := seamPing
  span := ⟨509, 6, 0⟩
  wellFormed := ⟨by decide +kernel, by decide +kernel, by decide +kernel⟩
  inRing := by decide

/-- A ping, across the seam or not, and the frame behind it. -/
theorem transcripts_of_a_ping :
    [flatFrame, nextFrame].map WireFrame.covered = [seamFrame, nextFrame].map WireFrame.covered :=
  transcripts_are_unambiguous.1 [flatFrame, nextFrame] [seamFrame, nextFrame] (by decide +kernel)

end OpenServo.Bus
