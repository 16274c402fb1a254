import Mathlib.Logic.Function.Iterate
import VintageKvm.Lib.Word

/-!
# The two CRCs of the wire protocol

`crc16` is CRC-16/CCITT-FALSE, most significant bit first, over a packet;
`crc32` is the reflected CRC-32 of IEEE 802.3 over the Stage 2 image. Both
are folds of a byte step over the buffer, and a byte step is eight bit
steps.
-/

namespace VintageKvm.Protocol

/-! ## CRC-16 -/

namespace Crc16

def POLY : Word := 0x1021
def INIT : Word := 0xFFFF

/-- One turn of the inner loop. -/
def bitStep (crc : Word) : Word := if crc &&& 0x8000 ≠ 0 then (crc <<< 1) ^^^ POLY else crc <<< 1

/-- One byte folded in. -/
def byteStep (crc : Word) (b : Byte) : Word := bitStep^[8] (crc ^^^ (b.setWidth 16 <<< 8))

end Crc16

/-- `crc16::compute`. -/
def crc16 (buf : List Byte) : Word := buf.foldl Crc16.byteStep Crc16.INIT

theorem crc16_concat (buf : List Byte) (b : Byte) :
    crc16 (buf ++ [b]) = Crc16.byteStep (crc16 buf) b :=
  List.foldl_concat ..

example : crc16 [0x31, 0x32, 0x33, 0x34, 0x35, 0x36, 0x37, 0x38, 0x39] = 0x29B1 := by
  decide +kernel

/-! ## CRC-32 -/

namespace Crc32

def POLY : DWord := 0xEDB88320
def INIT : DWord := 0xFFFFFFFF
def XOROUT : DWord := 0xFFFFFFFF

/-- One turn of the inner loop. -/
def bitStep (crc : DWord) : DWord := if crc &&& 1 ≠ 0 then (crc >>> 1) ^^^ POLY else crc >>> 1

/-- One byte folded in. -/
def byteStep (crc : DWord) (b : Byte) : DWord := bitStep^[8] (crc ^^^ b.setWidth 32)

end Crc32

/-- `crc32::compute`. -/
def crc32 (buf : List Byte) : DWord := buf.foldl Crc32.byteStep Crc32.INIT ^^^ Crc32.XOROUT

example : crc32 [0x31, 0x32, 0x33, 0x34, 0x35, 0x36, 0x37, 0x38, 0x39] = 0xCBF43926 := by
  decide +kernel

end VintageKvm.Protocol
