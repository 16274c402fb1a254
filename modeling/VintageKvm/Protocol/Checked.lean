import VintageKvm.Lib.Checked
import VintageKvm.Protocol.BlockServer

/-!
# The packet protocol with its checks

The functions of the crate once more, where an index out of range, a slice
copied to one of another length, a failed assertion or a vector over its
capacity is `none`. On what the firmware calls them with, none of it happens,
and they are the plain functions.
-/

namespace VintageKvm.Protocol

/-! ## Packets -/

/-- `decode`. A vector that overflows, which `.ok()` would hide, counts as a
failure. -/
def decode? (buf : List Byte) : Option (Except DecodeError IncomingPacket) :=
  if buf.length < OVERHEAD then some (.error .tooShort)
  else do
    if (← buf[0]?) ≠ SOH then return .error .badSoh
    let payloadLen := (ofBytes (← buf[3]?) (← buf[4]?)).toNat
    if payloadLen > MAX_PAYLOAD then return .error .payloadOverflow
    if buf.length ≠ payloadLen + OVERHEAD then return .error .badLen
    let etxOff := HEADER_LEN + payloadLen + 2
    if (← buf[etxOff]?) ≠ ETX then return .error .badEtx
    let crcStart := 1
    let crcEnd := HEADER_LEN + payloadLen
    let computed := crc16 (← slice? buf crcStart crcEnd)
    let onWire := ofBytes (← buf[crcEnd]?) (← buf[crcEnd + 1]?)
    if computed ≠ onWire then return .error .badCrc
    let cmd ← buf[1]?
    let seq ← buf[2]?
    let payload ← Vec.ofSlice (← slice? buf HEADER_LEN (HEADER_LEN + payloadLen))
    return .ok ⟨cmd, seq, payload⟩

/-- `encode`. -/
def encode? (cmd seq : Byte) (payload out : List Byte) :
    Option (Except EncodeError Nat × List Byte) :=
  if payload.length > MAX_PAYLOAD then some (.error .payloadOverflow, out)
  else
    let total := payload.length + OVERHEAD
    if out.length < total then some (.error .outputTooSmall, out)
    else do
      let out ← set? out 0 SOH
      let out ← set? out 1 cmd
      let out ← set? out 2 seq
      let lenBe := BitVec.ofNat 16 payload.length
      let out ← set? out 3 (hi lenBe)
      let out ← set? out 4 (lo lenBe)
      let out ← copy? out HEADER_LEN (HEADER_LEN + payload.length) payload
      let crcStart := 1
      let crcEnd := HEADER_LEN + payload.length
      let crc := crc16 (← slice? out crcStart crcEnd)
      let out ← set? out crcEnd (hi crc)
      let out ← set? out (crcEnd + 1) (lo crc)
      let out ← set? out (crcEnd + 2) ETX
      return (.ok total, out)

/-- `OutgoingPacket::new`: past its guard the vector has room. -/
def OutgoingPacket.new? (cmd seq : Byte) (payloadSlice : List Byte) :
    Option (Option OutgoingPacket) :=
  if payloadSlice.length > MAX_PAYLOAD then some none
  else (Vec.ofSlice payloadSlice).map fun payload => some ⟨cmd, seq, payload⟩

theorem decode?_eq (buf : List Byte) : decode? buf = some (decode buf) := by
  unfold decode? decode
  by_cases h8 : buf.length < OVERHEAD
  · rw [if_pos h8, dif_pos h8]
  rw [if_neg h8, dif_neg h8]
  have h8' : 8 ≤ buf.length := Nat.le_of_not_lt h8
  have h0 : buf[0]? = some buf[0] := List.getElem?_eq_getElem _
  have h1 : buf[1]? = some buf[1] := List.getElem?_eq_getElem _
  have h2 : buf[2]? = some buf[2] := List.getElem?_eq_getElem _
  have h3 : buf[3]? = some buf[3] := List.getElem?_eq_getElem _
  have h4 : buf[4]? = some buf[4] := List.getElem?_eq_getElem _
  simp only [h0, h1, h2, h3, h4, Option.bind_eq_bind, Option.bind_some]
  by_cases hsoh : buf[0] ≠ SOH
  · rw [if_pos hsoh, if_pos hsoh]
    rfl
  rw [if_neg hsoh, if_neg hsoh]
  by_cases hmax : (ofBytes buf[3] buf[4]).toNat > MAX_PAYLOAD
  · rw [if_pos hmax, dif_pos hmax]
    rfl
  rw [if_neg hmax, dif_neg hmax]
  by_cases hlen : buf.length ≠ (ofBytes buf[3] buf[4]).toNat + OVERHEAD
  · rw [if_pos hlen, dif_pos hlen]
    rfl
  rw [if_neg hlen, dif_neg hlen]
  have hetx : HEADER_LEN + (ofBytes buf[3] buf[4]).toNat + 2 < buf.length := etxOff_lt hlen
  have hpay : ((buf.take (HEADER_LEN + (ofBytes buf[3] buf[4]).toNat)).drop HEADER_LEN).length ≤
      MAX_PAYLOAD :=
    payload_length_le hmax
  simp only [List.getElem?_eq_getElem hetx, List.getElem?_eq_getElem (Nat.lt_of_succ_lt hetx),
    List.getElem?_eq_getElem (Nat.lt_of_succ_lt (Nat.lt_of_succ_lt hetx)), Option.bind_some,
    slice?_eq
      (show 1 ≤ HEADER_LEN + (ofBytes buf[3] buf[4]).toNat from Nat.le_add_right_of_le (by decide))
      (Nat.le_of_lt (Nat.lt_of_succ_lt (Nat.lt_of_succ_lt hetx))),
    slice?_eq (Nat.le_add_right HEADER_LEN (ofBytes buf[3] buf[4]).toNat)
      (Nat.le_of_lt (Nat.lt_of_succ_lt (Nat.lt_of_succ_lt hetx)))]
  by_cases hend : buf[HEADER_LEN + (ofBytes buf[3] buf[4]).toNat + 2] ≠ ETX
  · rw [if_pos hend, if_pos hend]
    rfl
  rw [if_neg hend, if_neg hend]
  by_cases hcrc : crc16 ((buf.take (HEADER_LEN + (ofBytes buf[3] buf[4]).toNat)).drop 1) ≠
      ofBytes buf[HEADER_LEN + (ofBytes buf[3] buf[4]).toNat]
      buf[HEADER_LEN + (ofBytes buf[3] buf[4]).toNat + 1]
  · rw [if_pos hcrc, if_pos hcrc]
    rfl
  rw [if_neg hcrc, if_neg hcrc]
  rw [Vec.ofSlice, dif_pos hpay]
  rfl

theorem encode?_eq (cmd seq : Byte) (payload out : List Byte) :
    encode? cmd seq payload out = some (encode cmd seq payload out) := by
  unfold encode? encode
  by_cases hmax : payload.length > MAX_PAYLOAD
  · rw [if_pos hmax, if_pos hmax]
  rw [if_neg hmax, if_neg hmax]
  by_cases hout : out.length < payload.length + OVERHEAD
  · simp only [if_pos hout]
  have hroom : HEADER_LEN + payload.length + 2 < out.length := by
    rw [show HEADER_LEN = 5 from rfl]
    rw [show OVERHEAD = 8 from rfl] at hout
    omega
  have h5 : 5 ≤ HEADER_LEN + payload.length := Nat.le_add_right _ _
  simp only [if_neg hout, Option.bind_eq_bind]
  rw [set?_eq (by omega), Option.bind_some, set?_eq (by rw [List.length_set]; omega),
    Option.bind_some, set?_eq (by simp only [List.length_set]; omega), Option.bind_some,
    set?_eq (by simp only [List.length_set]; omega), Option.bind_some,
    set?_eq (by simp only [List.length_set]; omega), Option.bind_some]
  generalize hhead :
    ((((out.set 0 SOH).set 1 cmd).set 2 seq).set 3 (hi (BitVec.ofNat 16 payload.length))).set 4
    (lo (BitVec.ofNat 16 payload.length)) = head
  have hlen : head.length = out.length := by
    rw [← hhead]
    simp only [List.length_set]
  have hbody : (splice head HEADER_LEN payload).length = out.length := by
    rw [length_splice (by omega), hlen]
  rw [copy?_eq rfl (by omega), Option.bind_some, slice?_eq (by omega) (by omega), Option.bind_some,
    set?_eq (by omega), Option.bind_some, set?_eq (by rw [List.length_set]; omega),
    Option.bind_some, set?_eq (by simp only [List.length_set]; omega), Option.bind_some]
  rfl

theorem OutgoingPacket.new?_eq (cmd seq : Byte) (payload : List Byte) :
    OutgoingPacket.new? cmd seq payload = some (OutgoingPacket.new cmd seq payload) := by
  unfold OutgoingPacket.new? OutgoingPacket.new
  by_cases h : payload.length > MAX_PAYLOAD
  · rw [if_pos h, if_pos h]
  · rw [if_neg h, if_neg h, Vec.ofSlice, dif_pos (Nat.le_of_not_lt h)]
    rfl

/-! ## Blocks -/

/-- `block` of an image; past its end there is none. -/
def sliceBlock? (data : List Byte) (blockNo : Word) (blockSize : Nat) :
    Option (Option (List Byte × Byte)) :=
  match checkedMul blockNo.toNat blockSize with
  | none => some none
  | some start =>
    if start ≥ data.length then some none
    else do
      let stop := min (start + blockSize) data.length
      let slice ← slice? data start stop
      return some (slice, BitVec.ofNat 8 slice.length)

namespace BlockServer

/-- `parse_send_block`. -/
def parseSendBlock? (payload : List Byte) : Option (Except BlockError Word) :=
  if payload.length ≠ 4 then some (.error .badRequestPayload)
  else do
    if (← payload[0]?) ≠ 0 ∨ (← payload[1]?) ≠ 0 then return .error .badRequestPayload
    return .ok (ofBytes (← payload[2]?) (← payload[3]?))

/-- `build_recv_block`. -/
def buildRecvBlock? (_ : BlockServer) (blob : SliceBlob) (blockNo : Word) (out : List Byte) :
    Option (Except BlockError (Nat × List Byte)) := do
  assert? (RECV_MAX_PAYLOAD ≤ out.length)
  match ← sliceBlock? blob.data blockNo BLOCK_SIZE with
  | none => return .error .blockOutOfRange
  | some (data, count) =>
    let out ← copy? out 0 4 (be32 (blockNo.setWidth 32))
    let out ← set? out 4 count
    let out ← copy? out RECV_HDR_LEN (RECV_HDR_LEN + count.toNat) data
    return .ok (RECV_HDR_LEN + count.toNat, out)

/-- `handle_ack`. -/
def handleAck? (s : BlockServer) (payload : List Byte) : Option BlockServer := do
  match ← parseSendBlock? payload with
  | .ok bn => return if bn = s.expectedBlock then ⟨saturatingAdd s.expectedBlock 1⟩ else s
  | .error _ => return s

end BlockServer

/-- `build_cap_rsp_payload`. -/
def buildCapRspPayload? (blob : SliceBlob) (activeMode : Byte) (out : List Byte) :
    Option (Nat × List Byte) := do
  assert? (PAYLOAD_LEN ≤ out.length)
  let slice := List.replicate (← slice? out 0 PAYLOAD_LEN).length 0
  let slice ← set? slice 0 VERSION_MAJOR
  let slice ← set? slice 1 VERSION_MINOR
  let slice ← set? slice 23 activeMode
  let slice ← copy? slice 28 32 (be32 (BitVec.ofNat 32 (BlockSource.totalSize blob)))
  let slice ← copy? slice 32 36 (be32 (BlockSource.crc32 blob))
  return (PAYLOAD_LEN, splice out 0 slice)

theorem sliceBlock?_eq (data : List Byte) (blockNo : Word) (blockSize : Nat) :
    sliceBlock? data blockNo blockSize = some (sliceBlock data blockNo blockSize) := by
  unfold sliceBlock? sliceBlock
  cases checkedMul blockNo.toNat blockSize with
  | none => rfl
  | some start =>
    simp only [Option.bind_eq_bind, Option.bind_some]
    by_cases h : start ≥ data.length
    · rw [if_pos h, if_pos h]
    · rw [if_neg h, if_neg h, slice?_eq (by omega) (Nat.min_le_right _ _)]
      rfl

namespace BlockServer

theorem parseSendBlock?_eq (payload : List Byte) :
    parseSendBlock? payload = some (parseSendBlock payload) := by
  unfold parseSendBlock? parseSendBlock
  split
  next h =>
    split
    next => exact absurd rfl h
    next => rfl
  next h =>
    obtain ⟨b₀, b₁, b₂, b₃, rfl⟩ := List.length_eq_four.mp (not_not.mp h)
    dsimp only
    split
    next hz => exact if_pos hz
    next hz => exact if_neg hz

theorem buildRecvBlock?_eq (s : BlockServer) (blob : SliceBlob) (blockNo : Word) {out : List Byte}
    (h : RECV_MAX_PAYLOAD ≤ out.length) :
    s.buildRecvBlock? blob blockNo out = some (s.buildRecvBlock blob blockNo out) := by
  unfold buildRecvBlock? buildRecvBlock
  rw [assert?_eq h, Option.bind_eq_bind, Option.bind_some, sliceBlock?_eq, Option.bind_eq_bind,
    Option.bind_some]
  have h69 : 69 ≤ out.length := h
  by_cases hlt : 64 * blockNo.toNat < blob.data.length
  · have hle := blockLen_le blob.data.length blockNo.toNat
    have hblock : BlockSource.block blob blockNo BLOCK_SIZE =
        sliceBlock blob.data blockNo BLOCK_SIZE := rfl
    have hcount : (BitVec.ofNat 8 (blockLen blob.data.length blockNo.toNat)).toNat =
        blockLen blob.data.length blockNo.toNat := by
      rw [BitVec.toNat_ofNat]
      omega
    have hout : (splice out 0 (be32 (blockNo.setWidth 32))).length = out.length :=
      length_splice (by rw [length_be32]; omega)
    rw [hblock, sliceBlock_some hlt]
    dsimp only
    rw [copy?_eq (show 0 + (be32 (blockNo.setWidth 32)).length = 4 from rfl) (by omega),
      Option.bind_eq_bind, Option.bind_some, set?_eq (by omega), Option.bind_some,
      copy?_eq (by rw [length_blockData, hcount])
      (by rw [List.length_set, hout, hcount]; exact (Nat.add_le_add_left hle 5).trans h69)]
    rfl
  · have hblock : BlockSource.block blob blockNo BLOCK_SIZE =
        sliceBlock blob.data blockNo BLOCK_SIZE := rfl
    rw [hblock, sliceBlock_none (Nat.le_of_not_lt hlt)]
    rfl

theorem handleAck?_eq (s : BlockServer) (payload : List Byte) :
    s.handleAck? payload = some (s.handleAck payload) := by
  unfold handleAck? handleAck
  rw [parseSendBlock?_eq, Option.bind_eq_bind, Option.bind_some]
  cases parseSendBlock payload with
  | ok bn => rfl
  | error e => rfl

end BlockServer

theorem buildCapRspPayload?_eq (blob : SliceBlob) (mode : Byte) :
    buildCapRspPayload? blob mode (List.replicate PAYLOAD_LEN 0) =
      some (PAYLOAD_LEN, buildCapRspPayload blob mode) := by
  rfl

end VintageKvm.Protocol
