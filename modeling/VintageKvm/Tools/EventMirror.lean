import VintageKvm.Firmware.Event

/-!
# The consumer's mirror of the events

The consumer has its own declaration of the events, which must have the
variants and fields of the firmware's in the same order. `deserialize_event`:
what the firmware serialises is read as the same variant with the same fields.
-/

namespace VintageKvm.Tools

open Postcard

namespace EventsConsumer

inductive ResyncReason where
  | preSohByte | payloadTooLong | badCrc | badEtx | decodeError
  deriving DecidableEq, Repr

inductive Event where
  | boot (fwVersion : String) (phase : Byte)
  | downloadBegin (totalBlocks : Word) (expectedCrc32 sizeBytes : DWord)
  | blockAck (blockNo : Word) (runningCrc32 : DWord)
  | downloadComplete (crcMatch : Bool) (finalCrc32 : DWord)
  | seqGap (expected got cmd : Byte)
  | unknownCmd (cmd : Byte)
  | packetStreamResync (reason : ResyncReason)
  | encodeError
  deriving DecidableEq, Repr

/-- The bits of the host's `usize`. -/
abbrev USIZE_BITS : Nat := 64

/-- `Deserialize` of `ResyncReason`: the variant with an index. -/
def ResyncReason.deserialize : Take ResyncReason := do
  match ← takeVarint 32 with
  | 0 => return .preSohByte
  | 1 => return .payloadTooLong
  | 2 => return .badCrc
  | 3 => return .badEtx
  | 4 => return .decodeError
  | _ => failure

/-- `Deserialize` of `Event`: the variant with an index, its fields in order. -/
def Event.deserialize : Take Event := do
  match ← takeVarint 32 with
  | 0 => do
    let fwVersion ← takeStr USIZE_BITS
    return .boot fwVersion (← takeU8)
  | 1 => do
    let totalBlocks ← takeU16
    let expectedCrc32 ← takeU32
    return .downloadBegin totalBlocks expectedCrc32 (← takeU32)
  | 2 => do
    let blockNo ← takeU16
    return .blockAck blockNo (← takeU32)
  | 3 => do
    let crcMatch ← takeBool
    return .downloadComplete crcMatch (← takeU32)
  | 4 => do
    let expected ← takeU8
    let got ← takeU8
    return .seqGap expected got (← takeU8)
  | 5 => return .unknownCmd (← takeU8)
  | 6 => return .packetStreamResync (← ResyncReason.deserialize)
  | 7 => return .encodeError
  | _ => failure

end EventsConsumer

/-! ## The same event -/

/-- The consumer's name for a reason. -/
def mirrorReason : Firmware.ResyncReason → EventsConsumer.ResyncReason
  | .preSohByte => .preSohByte
  | .payloadTooLong => .payloadTooLong
  | .badCrc => .badCrc
  | .badEtx => .badEtx
  | .decodeError => .decodeError

/-- The consumer's event of the same name with the same fields. -/
def mirrorEvent : Firmware.Event → EventsConsumer.Event
  | .boot fwVersion phase => .boot fwVersion.str phase
  | .downloadBegin totalBlocks expectedCrc32 sizeBytes =>
    .downloadBegin totalBlocks expectedCrc32 sizeBytes
  | .blockAck blockNo runningCrc32 => .blockAck blockNo runningCrc32
  | .downloadComplete crcMatch finalCrc32 => .downloadComplete crcMatch finalCrc32
  | .seqGap expected got cmd => .seqGap expected got cmd
  | .unknownCmd cmd => .unknownCmd cmd
  | .packetStreamResync reason => .packetStreamResync (mirrorReason reason)
  | .encodeError => .encodeError

open EventsConsumer

theorem reads_reason (reason : Firmware.ResyncReason) :
    Reads ResyncReason.deserialize reason.serialize (mirrorReason reason) := by
  cases reason with
  | preSohByte => exact reads_variant (by decide) (Reads.pure _)
  | payloadTooLong => exact reads_variant (by decide) (Reads.pure _)
  | badCrc => exact reads_variant (by decide) (Reads.pure _)
  | badEtx => exact reads_variant (by decide) (Reads.pure _)
  | decodeError => exact reads_variant (by decide) (Reads.pure _)

/-- Every variant, whatever follows it. -/
theorem reads_event (event : Firmware.Event) :
    Reads Event.deserialize event.serialize (mirrorEvent event) := by
  cases event with
  | boot fwVersion phase =>
    have hlen : fwVersion.str.utf8ByteSize < 2 ^ USIZE_BITS :=
      Nat.lt_of_lt_of_le fwVersion.fits (by decide)
    exact reads_variant (by decide)
      ((reads_str fwVersion.fits hlen (by decide) (by decide)).bind (reads_u8 phase).last)
  | downloadBegin totalBlocks expectedCrc32 sizeBytes =>
    exact reads_variant (by decide)
      ((reads_u16 totalBlocks).bind ((reads_u32 expectedCrc32).bind (reads_u32 sizeBytes).last))
  | blockAck blockNo runningCrc32 =>
    exact reads_variant (by decide) ((reads_u16 blockNo).bind (reads_u32 runningCrc32).last)
  | downloadComplete crcMatch finalCrc32 =>
    exact reads_variant (by decide) ((reads_bool crcMatch).bind (reads_u32 finalCrc32).last)
  | seqGap expected got cmd =>
    exact reads_variant (by decide)
      ((reads_u8 expected).bind ((reads_u8 got).bind (reads_u8 cmd).last))
  | unknownCmd cmd => exact reads_variant (by decide) (reads_u8 cmd).last
  | packetStreamResync reason => exact reads_variant (by decide) (reads_reason reason).last
  | encodeError => exact reads_variant (by decide) (Reads.pure _)

/-- What the firmware serialises is read to its end, as the same event. -/
theorem deserialize_event (event : Firmware.Event) :
    Event.deserialize.run event.serialize = some (mirrorEvent event, []) :=
  (reads_event event).whole

end VintageKvm.Tools
