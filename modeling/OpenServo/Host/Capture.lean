import Mathlib

/-!
# The wire-edge capture

Two chronological queues of hardware timestamps, one for each polarity, on the
low sixteen bits of the tick domain.  A drain pops at most so many entries of one
queue in capture order.
-/

namespace OpenServo.Host

/-- Per-ring entry cap on one edge drain. -/
def drainMax : ℕ := 64

/-- Timestamped wire-edge capture. -/
structure EdgeCapture where
  falls : List UInt16
  rises : List UInt16
  /-- A ring lapped undrained captures since the last reset; sticky. -/
  overflow : Bool
  deriving DecidableEq, Repr

namespace EdgeCapture

def empty : EdgeCapture := ⟨[], [], false⟩

def stampFall (capture : EdgeCapture) (tick : UInt16) : EdgeCapture :=
  { capture with falls := capture.falls ++ [tick] }

def stampRise (capture : EdgeCapture) (tick : UInt16) : EdgeCapture :=
  { capture with rises := capture.rises ++ [tick] }

/-- Pop up to `max` falling-edge ticks in capture order. -/
def drainFalls (capture : EdgeCapture) (max : ℕ) : List UInt16 × EdgeCapture :=
  (capture.falls.take max, { capture with falls := capture.falls.drop max })

/-- Pop up to `max` rising-edge ticks in capture order. -/
def drainRises (capture : EdgeCapture) (max : ℕ) : List UInt16 × EdgeCapture :=
  (capture.rises.take max, { capture with rises := capture.rises.drop max })

end EdgeCapture

end OpenServo.Host
