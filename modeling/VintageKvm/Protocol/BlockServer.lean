import VintageKvm.Protocol.Packet

/-!
# The block server and the CAP_RSP payload

`BlockSource` serves an image in blocks: `SliceBlob` over any image,
`EmbeddedStage2` over the one in the firmware. `BlockServer` answers
SEND_BLOCK with the block asked for, and counts the blocks acknowledged.
-/

namespace VintageKvm.Protocol

/-! ## Commands -/

def CMD_CAP_REQ : Byte := 0x00
def CMD_CAP_RSP : Byte := 0x0F
def CMD_CAP_ACK : Byte := 0x0E
def CMD_PING : Byte := 0x10
def CMD_PONG : Byte := 0x11
def CMD_SEND_BLOCK : Byte := 0x20
def CMD_RECV_BLOCK : Byte := 0x21
def CMD_BLOCK_ACK : Byte := 0x22
def CMD_BLOCK_NAK : Byte := 0x23

/-! ## Block sources -/

/-- `BlockSource`. -/
class BlockSource (σ : Type) where
  totalSize : σ → Nat
  crc32 : σ → DWord
  /-- The bytes of a block and their number; `none` past the end. -/
  block : σ → Word → Nat → Option (List Byte × Byte)

/-- `usize::checked_mul`, on the 32-bit target. -/
def checkedMul (a b : Nat) : Option Nat := if a * b < 2 ^ 32 then some (a * b) else none

/-- `block` of an image: `SliceBlob` and `EmbeddedStage2` have the same. -/
def sliceBlock (data : List Byte) (blockNo : Word) (blockSize : Nat) :
    Option (List Byte × Byte) := do
  let start ← checkedMul blockNo.toNat blockSize
  if start ≥ data.length then none
  else
    let stop := min (start + blockSize) data.length
    let slice := (data.take stop).drop start
    some (slice, BitVec.ofNat 8 slice.length)

structure SliceBlob where
  data : List Byte
  crc32 : DWord

instance : BlockSource SliceBlob where
  totalSize b := b.data.length
  crc32 b := b.crc32
  block b := sliceBlock b.data

/-! ## Block server -/

def BLOCK_SIZE : Nat := 64
def RECV_HDR_LEN : Nat := 5
def RECV_MAX_PAYLOAD : Nat := RECV_HDR_LEN + BLOCK_SIZE

inductive BlockError where
  | badRequestPayload | blockOutOfRange
  deriving DecidableEq

structure BlockServer where
  expectedBlock : Word
  deriving DecidableEq

namespace BlockServer

def new : BlockServer := ⟨0⟩

def reset (_ : BlockServer) : BlockServer := ⟨0⟩

/-- `parse_send_block`. -/
def parseSendBlock (payload : List Byte) : Except BlockError Word :=
  match payload with
  | [b₀, b₁, b₂, b₃] => if b₀ ≠ 0 ∨ b₁ ≠ 0 then .error .badRequestPayload else .ok (ofBytes b₂ b₃)
  | _ => .error .badRequestPayload

/-- `build_recv_block`: the number of bytes written, and the buffer. -/
def buildRecvBlock {σ : Type} [BlockSource σ] (_ : BlockServer) (blob : σ) (blockNo : Word)
    (out : List Byte) : Except BlockError (Nat × List Byte) :=
  match BlockSource.block blob blockNo BLOCK_SIZE with
  | none => .error .blockOutOfRange
  | some (data, count) =>
    let out := splice out 0 (be32 (blockNo.setWidth 32))
    let out := out.set 4 count
    let out := splice out RECV_HDR_LEN data
    .ok (RECV_HDR_LEN + count.toNat, out)

/-- `u16::saturating_add`. -/
def saturatingAdd (a b : Word) : Word := BitVec.ofNat 16 (min (a.toNat + b.toNat) 0xFFFF)

/-- `handle_ack`. -/
def handleAck (s : BlockServer) (payload : List Byte) : BlockServer :=
  match parseSendBlock payload with
  | .ok bn => if bn = s.expectedBlock then ⟨saturatingAdd s.expectedBlock 1⟩ else s
  | .error _ => s

end BlockServer

/-! ## CAP_RSP -/

def VERSION_MAJOR : Byte := 1
def VERSION_MINOR : Byte := 0
def ACTIVE_MODE_SPP : Byte := 1
def PAYLOAD_LEN : Nat := 36

/-- `build_cap_rsp_payload` into `PAYLOAD_LEN` bytes. -/
def buildCapRspPayload {σ : Type} [BlockSource σ] (blob : σ) (activeMode : Byte) : List Byte :=
  let out := List.replicate PAYLOAD_LEN 0
  let out := out.set 0 VERSION_MAJOR
  let out := out.set 1 VERSION_MINOR
  let out := out.set 23 activeMode
  let out := splice out 28 (be32 (BitVec.ofNat 32 (BlockSource.totalSize blob)))
  splice out 32 (be32 (BlockSource.crc32 blob))

/-! ## The blocks of an image -/

/-- How many bytes of an image of a size are left for the block after `done`
blocks. -/
def blockLen (size done : Nat) : Nat := min 64 (size - 64 * done)

theorem blockLen_le (size done : Nat) : blockLen size done ≤ 64 := Nat.min_le_left ..

/-- The bytes of a block. -/
def blockData (data : List Byte) (done : Nat) : List Byte := (data.drop (64 * done)).take 64

@[simp] theorem length_blockData (data : List Byte) (done : Nat) :
    (blockData data done).length = blockLen data.length done := by
  rw [blockData, List.length_take, List.length_drop, blockLen]

/-- The payload of a RECV_BLOCK packet. -/
def recvPayload (blockNo : Word) (data : List Byte) : List Byte :=
  be32 (blockNo.setWidth 32) ++ BitVec.ofNat 8 data.length :: data

theorem sliceBlock_some {data : List Byte} {blockNo : Word} (h : 64 * blockNo.toNat < data.length) :
    sliceBlock data blockNo BLOCK_SIZE =
      some (blockData data blockNo.toNat, BitVec.ofNat 8 (blockLen data.length blockNo.toNat)) := by
  have hmul : checkedMul blockNo.toNat BLOCK_SIZE = some (64 * blockNo.toNat) := by
    have := blockNo.isLt
    rw [checkedMul, if_pos (by rw [show BLOCK_SIZE = 64 from rfl]; omega), Nat.mul_comm]
    rfl
  have hdata : (data.take (min (64 * blockNo.toNat + BLOCK_SIZE) data.length)).drop
    (64 * blockNo.toNat) =
      blockData data blockNo.toNat := by
    rw [blockData, List.drop_take, show BLOCK_SIZE = 64 from rfl]
    refine List.take_eq_take_iff.mpr ?_
    rw [List.length_drop]
    omega
  simp only [sliceBlock, hmul, Option.bind_eq_bind, Option.bind_some, if_neg (Nat.not_le.mpr h),
    ge_iff_le, hdata, length_blockData]

theorem sliceBlock_none {data : List Byte} {blockNo : Word} (h : data.length ≤ 64 * blockNo.toNat) :
    sliceBlock data blockNo BLOCK_SIZE = none := by
  have hmul : checkedMul blockNo.toNat BLOCK_SIZE = some (64 * blockNo.toNat) := by
    have := blockNo.isLt
    rw [checkedMul, if_pos (by rw [show BLOCK_SIZE = 64 from rfl]; omega), Nat.mul_comm]
    rfl
  simp only [sliceBlock, hmul, Option.bind_eq_bind, Option.bind_some, if_pos h, ge_iff_le]

namespace BlockServer

theorem be32_setWidth (w : Word) : be32 (w.setWidth 32) = [0, 0, hi w, lo w] := by
  have hlt := w.isLt
  have hh : hiW (w.setWidth 32) = 0 := by
    apply BitVec.eq_of_toNat_eq
    rw [toNat_hiW, BitVec.toNat_setWidth, Nat.mod_eq_of_lt (by omega), Nat.div_eq_of_lt hlt]
    rfl
  have hl : loW (w.setWidth 32) = w := by
    apply BitVec.eq_of_toNat_eq
    rw [toNat_loW, BitVec.toNat_setWidth]
    omega
  rw [be32, hh, hl]
  rfl

/-- A payload is accepted exactly if it is a block number of 32 bits that fits
in 16. -/
theorem parseSendBlock_ok_iff {payload : List Byte} {blockNo : Word} :
    parseSendBlock payload = .ok blockNo ↔ payload = be32 (blockNo.setWidth 32) := by
  rw [be32_setWidth]
  constructor
  · intro h
    unfold parseSendBlock at h
    split at h
    · rename_i b₀ b₁ b₂ b₃
      split at h
      · cases h
      · rename_i hz
        obtain ⟨h₀, h₁⟩ := not_or.mp hz
        cases h
        rw [Decidable.not_not.mp h₀, Decidable.not_not.mp h₁, hi_ofBytes, lo_ofBytes]
    · cases h
  · rintro rfl
    simp only [parseSendBlock, ne_eq, not_true_eq_false, or_self, if_false, ofBytes_hi_lo]

/-- `build_recv_block` over an image writes the payload of the block. -/
theorem buildRecvBlock_some {σ : Type} [BlockSource σ] {data : List Byte} {blob : σ}
    (hb : BlockSource.block blob = sliceBlock data)
    (s : BlockServer) {blockNo : Word} (h : 64 * blockNo.toNat < data.length) {out : List Byte}
    (ho : RECV_MAX_PAYLOAD ≤ out.length) :
    s.buildRecvBlock blob blockNo out = .ok (5 + blockLen data.length blockNo.toNat,
      splice out 0 (recvPayload blockNo (blockData data blockNo.toNat))) := by
  have hle := blockLen_le data.length blockNo.toNat
  rw [show RECV_MAX_PAYLOAD = 69 from rfl] at ho
  have hn : (BitVec.ofNat 8 (blockLen data.length blockNo.toNat)).toNat =
      blockLen data.length blockNo.toNat := by
    rw [BitVec.toNat_ofNat]
    omega
  rw [buildRecvBlock, hb, sliceBlock_some h]
  simp only [hn, RECV_HDR_LEN]
  rw [set_splice _ (show 0 + (be32 (blockNo.setWidth 32)).length = 4 from rfl) (by omega),
    splice_splice (show 0 + (be32 (blockNo.setWidth 32) ++ [_]).length = 5 from rfl)
    (by rw [length_blockData]; omega),
    recvPayload, length_blockData, List.append_assoc]
  rfl

theorem buildRecvBlock_none {σ : Type} [BlockSource σ] {data : List Byte} {blob : σ}
    (hb : BlockSource.block blob = sliceBlock data)
    (s : BlockServer) {blockNo : Word} (h : data.length ≤ 64 * blockNo.toNat) (out : List Byte) :
    s.buildRecvBlock blob blockNo out = .error .blockOutOfRange := by
  rw [buildRecvBlock, hb, sliceBlock_none h]

/-- The payload written, out of the buffer. -/
theorem take_recvPayload (out data : List Byte) (blockNo : Word) :
    (splice out 0 (recvPayload blockNo (blockData data blockNo.toNat))).take
      (5 + blockLen data.length blockNo.toNat) =
      recvPayload blockNo (blockData data blockNo.toNat) := by
  rw [splice_zero, List.take_left']
  rw [recvPayload, List.length_append, List.length_cons, length_be32, length_blockData]
  omega

end BlockServer

end VintageKvm.Protocol
