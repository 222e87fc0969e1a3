import OpenServo.Core.BoundedVec
import OpenServo.Core.Transition
import OpenServo.Protocol.Parse
import OpenServo.Protocol.Crc
import OpenServo.Protocol.CrcDetection
import OpenServo.Protocol.Build
import OpenServo.Security.Lockout
import OpenServo.Table.Regions
import OpenServo.Table.TypedFields
import OpenServo.Table.FlashStore
import OpenServo.Dispatch.Reference
import OpenServo.Dispatch.OrderedPairs
import OpenServo.Dispatch.Dirty
import OpenServo.Bus.Transparency
import OpenServo.Bus.Foreign
import OpenServo.Bus.Speculation
import OpenServo.Bus.Seam
import OpenServo.Bus.Cadence
import OpenServo.Bus.Deadlines
import OpenServo.Bus.Arbitration
import OpenServo.Bus.Stream
import OpenServo.Bus.Resync
import OpenServo.Bus.InForce
import OpenServo.Bus.Lifecycle
import OpenServo.Bench.Edges
import OpenServo.Client.Edges
import OpenServo.Client.Cyclic
import OpenServo.Client.Timeline
import OpenServo.Client.Uid
import OpenServo.Client.Walk
import OpenServo.Core.Framing
import OpenServo.Core.Ledger
import OpenServo.Host.Agreement
import OpenServo.Host.Answered
import OpenServo.Client.Submission
import OpenServo.Host.Backlog
import OpenServo.Host.Relay
import OpenServo.Host.CaptureRings
import OpenServo.Usb.Bulk
import OpenServo.Host.Trailer
import OpenServo.Bus.CrcSpans
import OpenServo.Bus.Transmission
import OpenServo.Bus.Transcript
import OpenServo.Core.Blocks
import OpenServo.Core.Mailbox
import OpenServo.Dispatch.Containment
import OpenServo.Dispatch.ProfileRead
import OpenServo.Host.Accounts
import OpenServo.Host.AdapterActions
import OpenServo.Host.Slots
import OpenServo.Host.Owed
import OpenServo.Host.Train
import OpenServo.Security.HalfSip
import OpenServo.Control.Position
import OpenServo.Control.VcalLpf
import OpenServo.Bench.Stamps
import OpenServo.Core.DataToggle
import OpenServo.Usb.Device
import OpenServo.Usb.Wire
