import VintageKvm.Lib.Postcard

/-!
# Telemetry events

The events of the telemetry schema. An emitter has no effect on the code that
calls it: a routine that emits returns the list of its events, oldest first.
On the wire an event is its variant and its fields in postcard's format.
-/

namespace VintageKvm.Firmware

open Postcard

/-- A string of the program, whose length is a `usize` of the firmware. -/
structure StaticStr where
  str : String
  fits : str.utf8ByteSize < 2 ^ 32
  deriving DecidableEq, Repr

inductive ResyncReason where
  | preSohByte | payloadTooLong | badCrc | badEtx | decodeError
  deriving DecidableEq, Repr

inductive Event where
  | boot (fwVersion : StaticStr) (phase : Byte)
  | downloadBegin (totalBlocks : Word) (expectedCrc32 sizeBytes : DWord)
  /-- A BLOCK_ACK. -/
  | blockAck (blockNo : Word) (runningCrc32 : DWord)
  | downloadComplete (crcMatch : Bool) (finalCrc32 : DWord)
  /-- A SEQ that is not the expected one. -/
  | seqGap (expected got cmd : Byte)
  | unknownCmd (cmd : Byte)
  /-- A byte before SOH dropped, or a framed packet rejected. -/
  | packetStreamResync (reason : ResyncReason)
  | encodeError
  deriving DecidableEq, Repr

def ResyncReason.serialize : ResyncReason → List Byte
  | preSohByte => putVariant 0 []
  | payloadTooLong => putVariant 1 []
  | badCrc => putVariant 2 []
  | badEtx => putVariant 3 []
  | decodeError => putVariant 4 []

def Event.serialize : Event → List Byte
  | boot fwVersion phase => putVariant 0 (putStr 32 fwVersion.str ++ [phase])
  | downloadBegin totalBlocks expectedCrc32 sizeBytes =>
    putVariant 1 (putU16 totalBlocks ++ (putU32 expectedCrc32 ++ putU32 sizeBytes))
  | blockAck blockNo runningCrc32 => putVariant 2 (putU16 blockNo ++ putU32 runningCrc32)
  | downloadComplete crcMatch finalCrc32 => putVariant 3 (putBool crcMatch ++ putU32 finalCrc32)
  | seqGap expected got cmd => putVariant 4 ([expected] ++ ([got] ++ [cmd]))
  | unknownCmd cmd => putVariant 5 [cmd]
  | packetStreamResync reason => putVariant 6 reason.serialize
  | encodeError => putVariant 7 []

end VintageKvm.Firmware
