import OpenServo.Protocol.Wire

/-!
# The osc-CRC-16

CRC-16/ARC: reflected polynomial `0xA001`, zero initial value, byte-wise, so a
running value continues across any chunking of the covered span.
-/

namespace OpenServo.Crc

def polyReflected : UInt16 := 0xA001

/-- One of the eight shift steps of a byte update. -/
def shiftStep (crc : UInt16) : UInt16 :=
  if crc &&& 1 != 0 then (crc >>> 1) ^^^ polyReflected else crc >>> 1

def update (crc : UInt16) (byte : Byte) : UInt16 :=
  let crc := crc ^^^ byte.toUInt16
  shiftStep (shiftStep (shiftStep (shiftStep
    (shiftStep (shiftStep (shiftStep (shiftStep crc)))))))

/-- Accumulate `chunk` into a running CRC. -/
def oscCrcContinue (crc : UInt16) (chunk : List Byte) : UInt16 :=
  chunk.foldl update crc

/-- osc-CRC-16 over the covered bytes. -/
def oscCrc (covered : List Byte) : UInt16 := oscCrcContinue 0 covered

theorem oscCrcContinue_append (crc : UInt16) (left right : List Byte) :
    oscCrcContinue crc (left ++ right) = oscCrcContinue (oscCrcContinue crc left) right := by
  simp [oscCrcContinue]

/-- A leading break byte is a no-op under the zero initial value. -/
theorem oscCrc_zero_cons (covered : List Byte) : oscCrc (0 :: covered) = oscCrc covered := by
  simp only [oscCrc, oscCrcContinue, List.foldl_cons]
  congr 1

end OpenServo.Crc
