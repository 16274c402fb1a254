import VintageKvm.Firmware.Dispatcher
import VintageKvm.Firmware.Lpt.Mux
import VintageKvm.Firmware.Lpt.NibbleOut
import VintageKvm.Firmware.PacketStream
import VintageKvm.Protocol.Checked

/-!
# The serve loop

A turn receives a packet, dispatches it and sends the reply, if there is one.
Here every operation on its way that can panic is checked, over any image
(the embedded Stage 2 has the same `block`). None of the checks fails, so that
the functions are the plain ones (`handlePacket?_eq`, `nextPacket?_eq`,
`sendPacket?_eq`), and a turn waits for a byte or ends (`serve_ok`).
-/

namespace VintageKvm.Firmware

open Protocol

/-- Why the loop does not go on: `recv_byte` waits, or the firmware has
panicked. -/
inductive Halt where
  | pending | panicked
  deriving DecidableEq

def orPanic {α : Type} : Option α → Except Halt α
  | some a => .ok a
  | none => .error .panicked

/-! ## Dispatching -/

/-- `build_reply`. -/
def buildReply? (cmd seq : Byte) (payload : List Byte) : Option DispatchOutcome := do
  match ← OutgoingPacket.new? cmd seq payload with
  | some p => return .reply p
  | none => return .ignored

/-- `handle_cap_req`. -/
def handleCapReq? (st : SessionState SliceBlob) :
    Option (DispatchOutcome × SessionState SliceBlob) := do
  let st := st.reset
  let payload := List.replicate PAYLOAD_LEN 0
  let (n, payload) ← buildCapRspPayload? st.blob ACTIVE_MODE_SPP payload
  let (seq, st) := st.nextSeq
  return (← buildReply? CMD_CAP_RSP seq (← slice? payload 0 n), st)

/-- `handle_ping`. -/
def handlePing? (p : IncomingPacket) (st : SessionState SliceBlob) :
    Option (DispatchOutcome × SessionState SliceBlob) := do
  let (seq, st) := st.nextSeq
  return (← buildReply? CMD_PONG seq p.payload.bytes, st)

/-- `handle_send_block`. -/
def handleSendBlock? (p : IncomingPacket) (st : SessionState SliceBlob) :
    Option (DispatchOutcome × SessionState SliceBlob) := do
  match ← BlockServer.parseSendBlock? p.payload.bytes with
  | .error _ => return (.ignored, st)
  | .ok blockNo =>
    let payload := List.replicate RECV_MAX_PAYLOAD 0
    match ← st.blockServer.buildRecvBlock? st.blob blockNo payload with
    | .error _ => return (.ignored, st)
    | .ok (n, payload) =>
      let (seq, st) := st.nextSeq
      return (← buildReply? CMD_RECV_BLOCK seq (← slice? payload 0 n), st)

/-- `handle_block_ack`. -/
def handleBlockAck? (p : IncomingPacket) (st : SessionState SliceBlob) :
    Option (DispatchOutcome × SessionState SliceBlob × List Event) := do
  let st := { st with blockServer := ← st.blockServer.handleAck? p.payload.bytes }
  return (.silent, st, [.blockAck (BitVec.ofNat 16 (st.blockServer.expectedBlock.toNat - 1))
    (BlockSource.crc32 st.blob)])

/-- `handle_packet`. -/
def handlePacket? (p : IncomingPacket) (st : SessionState SliceBlob) :
    Option (DispatchOutcome × SessionState SliceBlob × List Event) := do
  let gap := if p.seq ≠ st.rxSeqExpected then [.seqGap st.rxSeqExpected p.seq p.cmd] else []
  let st := { st with rxSeqExpected := p.seq + 1 }
  let (outcome, st, events) ←
    if p.cmd = CMD_CAP_REQ then do let (o, st) ← handleCapReq? st; pure (o, st, [])
    else if p.cmd = CMD_CAP_ACK then let (o, st) := handleCapAck st; pure (o, st, [])
    else if p.cmd = CMD_PING then do let (o, st) ← handlePing? p st; pure (o, st, [])
    else if p.cmd = CMD_SEND_BLOCK then do let (o, st) ← handleSendBlock? p st; pure (o, st, [])
    else if p.cmd = CMD_BLOCK_ACK then handleBlockAck? p st
    else if p.cmd = CMD_BLOCK_NAK then pure (.silent, st, [])
    else pure (.ignored, st, [.unknownCmd p.cmd])
  return (outcome, st, gap ++ events)

theorem buildReply?_eq (cmd seq : Byte) (payload : List Byte) :
    buildReply? cmd seq payload = some (buildReply cmd seq payload) := by
  unfold buildReply? buildReply
  rw [OutgoingPacket.new?_eq, Option.bind_eq_bind, Option.bind_some]
  cases OutgoingPacket.new cmd seq payload with
  | none => rfl
  | some p => rfl

theorem handleCapReq?_eq (st : SessionState SliceBlob) :
    handleCapReq? st = some (handleCapReq st) := by
  unfold handleCapReq? handleCapReq
  dsimp only
  rw [buildCapRspPayload?_eq, Option.bind_eq_bind, Option.bind_some]
  dsimp only
  have hlen := length_buildCapRspPayload st.reset.blob ACTIVE_MODE_SPP
  rw [slice?_zero (Nat.le_of_eq hlen.symm), Option.bind_eq_bind, Option.bind_some, buildReply?_eq,
    List.take_of_length_le (Nat.le_of_eq hlen)]
  rfl

theorem handlePing?_eq (p : IncomingPacket) (st : SessionState SliceBlob) :
    handlePing? p st = some (handlePing p st) := by
  unfold handlePing? handlePing
  dsimp only
  rw [buildReply?_eq]
  rfl

/-- What `build_recv_block` says it wrote is in the buffer. -/
theorem buildRecvBlock_le {s : BlockServer} {blob : SliceBlob} {blockNo : Word} {n : Nat}
    {payload : List Byte} (h : s.buildRecvBlock blob blockNo (List.replicate RECV_MAX_PAYLOAD 0) =
      .ok (n, payload)) : n ≤ payload.length := by
  have hb : BlockSource.block blob = sliceBlock blob.data := rfl
  by_cases hlt : 64 * blockNo.toNat < blob.data.length
  · rw [BlockServer.buildRecvBlock_some hb s hlt (by rw [List.length_replicate])] at h
    cases h
    have hle := blockLen_le blob.data.length blockNo.toNat
    have hpay : (recvPayload blockNo (blockData blob.data blockNo.toNat)).length =
        5 + blockLen blob.data.length blockNo.toNat := by
      rw [recvPayload, List.length_append, List.length_cons, length_be32, length_blockData]
      omega
    rw [length_splice, List.length_replicate]
    · exact Nat.add_le_add_left hle 5
    · rw [Nat.zero_add, hpay, List.length_replicate]
      exact Nat.add_le_add_left hle 5
  · rw [BlockServer.buildRecvBlock_none hb s (Nat.le_of_not_lt hlt)] at h
    cases h

theorem handleSendBlock?_eq (p : IncomingPacket) (st : SessionState SliceBlob) :
    handleSendBlock? p st = some (handleSendBlock p st) := by
  unfold handleSendBlock? handleSendBlock
  rw [BlockServer.parseSendBlock?_eq, Option.bind_eq_bind, Option.bind_some]
  cases BlockServer.parseSendBlock p.payload.bytes with
  | error e => rfl
  | ok blockNo =>
    dsimp only
    rw [BlockServer.buildRecvBlock?_eq _ _ _ (by rw [List.length_replicate]), Option.bind_eq_bind,
      Option.bind_some]
    cases hb : st.blockServer.buildRecvBlock st.blob blockNo
      (List.replicate RECV_MAX_PAYLOAD 0) with
    | error e => rfl
    | ok x =>
      obtain ⟨n, payload⟩ := x
      dsimp only
      rw [slice?_zero (buildRecvBlock_le hb), Option.bind_eq_bind, Option.bind_some, buildReply?_eq]
      rfl

theorem handleBlockAck?_eq (p : IncomingPacket) (st : SessionState SliceBlob) :
    handleBlockAck? p st = some (handleBlockAck p st) := by
  unfold handleBlockAck? handleBlockAck
  rw [BlockServer.handleAck?_eq]
  rfl

theorem handlePacket?_eq (p : IncomingPacket) (st : SessionState SliceBlob) :
    handlePacket? p st = some (handlePacket p st) := by
  unfold handlePacket? handlePacket
  dsimp only
  by_cases h₁ : p.cmd = CMD_CAP_REQ
  · rw [if_pos h₁, if_pos h₁, handleCapReq?_eq]
    rfl
  rw [if_neg h₁, if_neg h₁]
  by_cases h₂ : p.cmd = CMD_CAP_ACK
  · rw [if_pos h₂, if_pos h₂]
    rfl
  rw [if_neg h₂, if_neg h₂]
  by_cases h₃ : p.cmd = CMD_PING
  · rw [if_pos h₃, if_pos h₃, handlePing?_eq]
    rfl
  rw [if_neg h₃, if_neg h₃]
  by_cases h₄ : p.cmd = CMD_SEND_BLOCK
  · rw [if_pos h₄, if_pos h₄, handleSendBlock?_eq]
    rfl
  rw [if_neg h₄, if_neg h₄]
  by_cases h₅ : p.cmd = CMD_BLOCK_ACK
  · rw [if_pos h₅, if_pos h₅, handleBlockAck?_eq]
    rfl
  rw [if_neg h₅, if_neg h₅]
  by_cases h₆ : p.cmd = CMD_BLOCK_NAK
  · rw [if_pos h₆, if_pos h₆]
    rfl
  rw [if_neg h₆, if_neg h₆]
  rfl

/-! ## Sending -/

namespace Lpt

/-- A batch: its words, one a byte, out of an array of `MAX_BATCH_BYTES`. -/
def sendBatch? (pack : Byte → DWord) (bytes : List Byte) : Option (List DWord) := do
  assert? (bytes.length ≤ PioNibbleOut.MAX_BATCH_BYTES)
  let words := List.replicate PioNibbleOut.MAX_BATCH_BYTES 0
  let words ← fill? words 0 (bytes.map pack)
  slice? words 0 bytes.length

/-- `PioNibbleOut::send_bytes`. -/
def PioNibbleOut.sendBytes? : List Byte → Option (List DWord) := sendBatch? packByte

/-- `PioByteRev::send_bytes`. -/
def PioByteRev.sendBytes? : List Byte → Option (List DWord) := sendBatch? (·.setWidth 32)

/-- `PioEcpRev::send_bytes`. -/
def PioEcpRev.sendBytes? : List Byte → Option (List DWord) := sendBatch? (·.setWidth 32)

def PioEpp.encodeReverseCmd (byte : Byte) : DWord := 1 ||| byte.setWidth 32 <<< 24

/-- `send_bytes`: the words for the DMA channel. EPP hands them over one by
one. -/
def ActivePhy.sendBytes? (phy : ActivePhy) (bytes : List Byte) : Option (List DWord) :=
  match phy with
  | .sppNibble _ => PioNibbleOut.sendBytes? bytes
  | .byte _ => PioByteRev.sendBytes? bytes
  | .epp _ => some (bytes.map PioEpp.encodeReverseCmd)
  | .ecp _ => PioEcpRev.sendBytes? bytes

theorem sendBatch?_eq (pack : Byte → DWord) {bytes : List Byte}
    (h : bytes.length ≤ PioNibbleOut.MAX_BATCH_BYTES) :
    sendBatch? pack bytes = some (bytes.map pack) := by
  have hfill : 0 + (bytes.map pack).length ≤
      (List.replicate PioNibbleOut.MAX_BATCH_BYTES (0 : DWord)).length := by
    rwa [Nat.zero_add, List.length_map, List.length_replicate]
  unfold sendBatch?
  rw [assert?_eq h, Option.bind_eq_bind, Option.bind_some]
  dsimp only
  rw [fill?_eq hfill, Option.bind_eq_bind, Option.bind_some,
    slice?_zero (by rwa [length_splice hfill, List.length_replicate]),
    splice_zero, List.take_left' (List.length_map _)]

/-- The word that carries a byte. -/
def ActivePhy.pack : ActivePhy → Byte → DWord
  | .sppNibble _ => PioNibbleOut.packByte
  | .byte _ => (·.setWidth 32)
  | .epp _ => PioEpp.encodeReverseCmd
  | .ecp _ => (·.setWidth 32)

theorem ActivePhy.sendBytes?_eq (phy : ActivePhy) {bytes : List Byte}
    (h : bytes.length ≤ PioNibbleOut.MAX_BATCH_BYTES) :
    phy.sendBytes? bytes = some (bytes.map phy.pack) := by
  cases phy with
  | sppNibble _ => exact sendBatch?_eq _ h
  | byte _ => exact sendBatch?_eq _ h
  | epp _ => rfl
  | ecp _ => exact sendBatch?_eq _ h

theorem exists_of_bind {ε α β : Type} {x : Except ε α} {f : α → Except ε β} {b : β}
    (h : x >>= f = .ok b) : ∃ a, x = .ok a ∧ f a = .ok b := by
  cases x with
  | error e => cases h
  | ok a => exact ⟨a, rfl, h⟩

/-- The multiplexer that a switch leaves has a phy. -/
theorem LptMux.switchTo_populated {load : Loader} {mux mux' : LptMux} {target : LptMode}
    {result : Except LptError Unit} (h : mux.switchTo load target = .ok (result, mux')) :
    mux'.active.isSome := by
  obtain ⟨_, -, h⟩ := exists_of_bind h
  obtain ⟨_, -, h⟩ := exists_of_bind h
  obtain ⟨_, -, h⟩ := exists_of_bind h
  cases target with
  | sppNibble | byte | epp | ecp | spp | ecpDma =>
    obtain ⟨_, -, h⟩ := exists_of_bind h
    cases h
    rfl

end Lpt

open Lpt

/-- The transport over the multiplexer, whose phy slot is populated between
two switches. -/
structure LptTransport where
  phy : LptMux
  reassembler : PacketReassembler
  populated : phy.active.isSome

namespace LptTransport

/-- The transport that `main` builds after the self-reload, none if that
fails. -/
def boot (load : Loader) (hw : LptHardware) : Except Panic (Option LptTransport) := do
  let mux ← LptMux.new load hw
  match h : mux.switchTo load .sppNibble with
  | .error e => .error e
  | .ok (.error _, _) => pure none
  | .ok (.ok (), mux) => pure (some ⟨mux, .new, LptMux.switchTo_populated h⟩)

variable (t : LptTransport)

/-- `send_packet`: the words for the DMA channel, and the events. -/
def sendPacket? (p : OutgoingPacket) : Option (List DWord × List Event) := do
  let buf := List.replicate MAX_PACKET 0
  match ← encode? p.cmd p.seq p.payload.bytes buf with
  | (.ok n, buf) => return (← (← t.phy.active).sendBytes? (← slice? buf 0 n), [])
  | (.error _, _) => return ([], [.encodeError])

/-- The word that carries a byte on the phy of the slot. -/
def pack : Byte → DWord := (t.phy.active.get t.populated).pack

/-- Every packet is sent whole. -/
theorem sendPacket?_eq (p : OutgoingPacket) :
    t.sendPacket? p = some ((PacketReassembler.encoded p).map t.pack, []) := by
  have hle : p.payload.bytes.length + OVERHEAD ≤ MAX_PACKET :=
    Nat.add_le_add_right p.payload.length_le OVERHEAD
  have hlen := length_frame p.cmd p.seq p.payload.bytes
  have hroom : 0 + (frame p.cmd p.seq p.payload.bytes).length ≤
      (List.replicate MAX_PACKET (0 : Byte)).length := by
    rwa [Nat.zero_add, hlen, List.length_replicate]
  have hpack := (t.phy.active.get t.populated).sendBytes?_eq (hlen.trans_le hle)
  have hphy : t.phy.active = some (t.phy.active.get t.populated) :=
    (Option.some_get t.populated).symm
  rw [PacketReassembler.encoded_eq]
  unfold sendPacket?
  dsimp only
  rw [encode?_eq, encode_ok _ _ p.payload.length_le (by rwa [List.length_replicate]),
    Option.bind_eq_bind, Option.bind_some]
  dsimp only
  rw [slice?_zero (by rwa [length_splice hroom, List.length_replicate]), splice_zero,
    List.take_left' hlen, hphy, Option.bind_eq_bind, Option.bind_some, Option.bind_eq_bind,
    Option.bind_some, hpack]
  rfl

/-! ## Receiving -/

/-- `recv_byte` over the populated slot. -/
def recvByte? (mux : LptMux) (s : List Byte) : Except Halt (Byte × List Byte) := do
  let _ ← orPanic mux.active
  match s with
  | [] => .error .pending
  | b :: s => return (b, s)

/-- What stops the reassembler stops the loop. -/
def halt {α : Type} : Except Stop α → Except Halt α
  | .ok a => .ok a
  | .error .pending => .error .pending
  | .error .outOfRange => .error .panicked

/-- The next `n` bytes into the buffer from `i` on. -/
def pull? (mux : LptMux) (r : PacketReassembler) (i : Nat) :
    Nat → List Byte → Except Halt (PacketReassembler × List Byte)
  | 0, s => .ok (r, s)
  | n + 1, s => do
    let (b, s) ← recvByte? mux s
    let r ← halt (r.put i b)
    pull? mux r (i + 1) n s

/-- One turn of the loop of `next_packet`. -/
def turn? (mux : LptMux) (r : PacketReassembler) (s : List Byte) : Except Halt Turn := do
  let (b, s) ← recvByte? mux s
  if b ≠ SOH then
    return .resync .preSohByte r s
  let r ← halt (r.put 0 SOH)
  let (r, s) ← pull? mux r 1 (HEADER_LEN - 1) s
  let payloadLen := (ofBytes (← halt (r.get 3)) (← halt (r.get 4))).toNat
  let total := HEADER_LEN + payloadLen + 3
  if total > MAX_PACKET then
    return .resync .payloadTooLong r s
  let (r, s) ← pull? mux r HEADER_LEN (total - HEADER_LEN) s
  match ← orPanic (decode? (← halt (r.slice total))) with
  | .ok p => return .packet p r s
  | .error e => return .resync (PacketReassembler.reason e) r s

theorem halt_bind {α β : Type} (x : Except Stop α) (f : α → Except Stop β) :
    halt (x >>= f) = halt x >>= fun a => halt (f a) := by
  cases x with
  | ok a => rfl
  | error e => cases e with
    | pending => rfl
    | outOfRange => rfl

theorem recvByte?_eq {mux : LptMux} (h : mux.active.isSome) (s : List Byte) :
    recvByte? mux s = halt (PacketReassembler.recvByte s) := by
  obtain ⟨phy, hphy⟩ := Option.isSome_iff_exists.mp h
  unfold recvByte?
  rw [hphy]
  cases s with
  | nil => rfl
  | cons b s => rfl

theorem pull?_eq {mux : LptMux} (h : mux.active.isSome) (r : PacketReassembler) (i n : Nat)
    (s : List Byte) : pull? mux r i n s = halt (r.pull i n s) := by
  induction n generalizing r i s with
  | zero => rfl
  | succ n ih =>
    unfold pull? PacketReassembler.pull
    rw [recvByte?_eq h, halt_bind]
    refine bind_congr fun x => ?_
    obtain ⟨b, s⟩ := x
    dsimp only
    rw [halt_bind]
    exact bind_congr fun r => ih r (i + 1) s

theorem turn?_eq {mux : LptMux} (h : mux.active.isSome) (r : PacketReassembler) (s : List Byte) :
    turn? mux r s = halt (r.turn s) := by
  unfold turn? PacketReassembler.turn
  rw [recvByte?_eq h, halt_bind]
  refine bind_congr fun x => ?_
  obtain ⟨b, s⟩ := x
  dsimp only
  split
  · rfl
  rw [halt_bind]
  refine bind_congr fun r => ?_
  rw [pull?_eq h, halt_bind]
  refine bind_congr fun x => ?_
  obtain ⟨r, s⟩ := x
  dsimp only
  rw [halt_bind]
  refine bind_congr fun b₃ => ?_
  rw [halt_bind]
  refine bind_congr fun b₄ => ?_
  split
  · rfl
  rw [pull?_eq h, halt_bind]
  refine bind_congr fun x => ?_
  obtain ⟨r, s⟩ := x
  dsimp only
  rw [halt_bind]
  refine bind_congr fun buf => ?_
  rw [decode?_eq]
  cases decode buf with
  | ok p => rfl
  | error e => rfl

theorem halt_eq_ok {α : Type} {x : Except Stop α} {a : α} : halt x = .ok a ↔ x = .ok a := by
  cases x with
  | ok b => exact ⟨fun h => by cases h; rfl, fun h => by cases h; rfl⟩
  | error e => cases e with
    | pending => exact ⟨fun h => (nomatch h), fun h => nomatch h⟩
    | outOfRange => exact ⟨fun h => (nomatch h), fun h => nomatch h⟩

/-- `next_packet`. -/
def nextPacket? (mux : LptMux) (h : mux.active.isSome) (r : PacketReassembler) (s : List Byte) :
    List Event × Except Halt (IncomingPacket × PacketReassembler × List Byte) :=
  match _ht : turn? mux r s with
  | .error e => ([], .error e)
  | .ok (.packet p r s) => ([], .ok (p, r, s))
  | .ok (.resync reason r s') =>
    let x := nextPacket? mux h r s'
    (.packetStreamResync reason :: x.1, x.2)
termination_by s.length
decreasing_by
  exact (PacketReassembler.took_of_turn (halt_eq_ok.mp ((turn?_eq h _ _).symm.trans _ht))).resync_lt

theorem nextPacket?_eq {mux : LptMux} (h : mux.active.isSome) (r : PacketReassembler)
    (s : List Byte) : nextPacket? mux h r s = ((r.nextPacket s).1, halt (r.nextPacket s).2) := by
  fun_induction nextPacket? mux h r s with
  | case1 r s e ht =>
    rw [turn?_eq h] at ht
    rw [PacketReassembler.nextPacket_eq]
    cases hr : r.turn s with
    | ok t =>
      rw [hr] at ht
      cases ht
    | error e' =>
      rw [hr] at ht
      cases e' with
      | pending =>
        cases ht
        rfl
      | outOfRange =>
        cases ht
        rfl
  | case2 r s p r₁ s₁ ht =>
    rw [PacketReassembler.nextPacket_eq, halt_eq_ok.mp ((turn?_eq h _ _).symm.trans ht)]
    rfl
  | case3 r s reason r₁ s₁ ht x ih =>
    rw [PacketReassembler.nextPacket_eq, halt_eq_ok.mp ((turn?_eq h _ _).symm.trans ht)]
    dsimp only [x]
    rw [ih]

/-- The reassembler waits or returns a packet. -/
theorem nextPacket_stop {r : PacketReassembler} {s : List Byte} {e : Stop}
    (h : (r.nextPacket s).2 = .error e) : e = .pending := by
  fun_induction PacketReassembler.nextPacket r s with
  | case1 r s e' ht =>
    obtain hp | ⟨t, hk, -⟩ := PacketReassembler.turn_ok r s
    · rw [hp] at ht
      cases ht
      cases h
      rfl
    · rw [hk] at ht
      cases ht
  | case2 => cases h
  | case3 r s reason r₁ s₁ ht x ih => exact ih h

end LptTransport

/-! ## The loop -/

/-- The loop between two turns: the transport, the session, the bytes to come,
and the words for the DMA channel and the events so far. -/
structure Serving where
  transport : LptTransport
  state : SessionState SliceBlob
  stream : List Byte
  words : List DWord
  events : List Event

/-- One turn of `serve_loop`. -/
def Serving.turn? (x : Serving) : Except Halt Serving := do
  let t := x.transport
  let (resyncs, received) := LptTransport.nextPacket? t.phy t.populated t.reassembler x.stream
  let (p, r, rest) ← received
  let (outcome, st, events) ← orPanic (handlePacket? p x.state)
  let x :=
    { x with
      transport := { t with reassembler := r }, state := st, stream := rest,
      events := x.events ++ resyncs ++ events }
  match outcome with
  | .reply q =>
    let (words, events) ← orPanic (x.transport.sendPacket? q)
    return { x with words := x.words ++ words, events := x.events ++ events }
  | .silent | .ignored => return x

/-- `n` turns of `serve_loop`. -/
def Serving.turns? (x : Serving) : Nat → Except Halt Serving
  | 0 => .ok x
  | n + 1 => do (← x.turn?).turns? n

/-- The packet that an outcome sends. -/
def DispatchOutcome.packet? : DispatchOutcome → Option OutgoingPacket
  | .reply q => some q
  | .silent | .ignored => none

/-- The loop after the packet `p`, which `next_packet` has returned. -/
def Serving.served (x : Serving) (p : IncomingPacket) (r : PacketReassembler) (rest : List Byte) :
    Serving where
  transport := { x.transport with reassembler := r }
  state := next p x.state
  stream := rest
  words := x.words ++ ((handlePacket p x.state).1.packet?.toList.flatMap
    PacketReassembler.encoded).map x.transport.pack
  events := x.events ++ (x.transport.reassembler.nextPacket x.stream).1 ++
    (handlePacket p x.state).2.2

/-- A turn waits for a packet, or serves the next. -/
theorem Serving.turn?_eq (x : Serving) :
    x.turn? = match (x.transport.reassembler.nextPacket x.stream).2 with
    | .error _ => .error .pending
    | .ok (p, r, rest) => .ok (x.served p r rest) := by
  unfold Serving.turn?
  dsimp only
  rw [LptTransport.nextPacket?_eq]
  dsimp only
  cases hr : (x.transport.reassembler.nextPacket x.stream).2 with
  | error e =>
    rw [LptTransport.nextPacket_stop hr]
    rfl
  | ok received =>
    obtain ⟨p, r, rest⟩ := received
    dsimp only [LptTransport.halt, bind, Except.bind]
    rw [handlePacket?_eq]
    dsimp only [orPanic, Serving.served, next]
    cases (handlePacket p x.state).1 with
    | reply q =>
      dsimp only
      rw [LptTransport.sendPacket?_eq]
      simp only [DispatchOutcome.packet?, Option.toList_some, List.flatMap_singleton,
        List.append_nil]
      rfl
    | silent =>
      simp only [DispatchOutcome.packet?, Option.toList_none, List.flatMap_nil, List.map_nil,
        List.append_nil]
      rfl
    | ignored =>
      simp only [DispatchOutcome.packet?, Option.toList_none, List.flatMap_nil, List.map_nil,
        List.append_nil]
      rfl

theorem Serving.turn?_ok (x : Serving) : x.turn? = .error .pending ∨ ∃ x', x.turn? = .ok x' := by
  rw [x.turn?_eq]
  cases (x.transport.reassembler.nextPacket x.stream).2 with
  | error e => exact .inl rfl
  | ok received => exact .inr ⟨_, rfl⟩

/-- The serve loop never panics: whatever bytes come, from any session, any
number of turns waits for a byte or ends. -/
theorem Serving.serve_ok (x : Serving) (n : Nat) :
    x.turns? n = .error .pending ∨ ∃ x', x.turns? n = .ok x' := by
  induction n generalizing x with
  | zero => exact .inr ⟨x, rfl⟩
  | succ n ih =>
    unfold Serving.turns?
    obtain hpending | ⟨x', hx⟩ := x.turn?_ok
    · rw [hpending]
      exact .inl rfl
    · rw [hx]
      exact ih x'

end VintageKvm.Firmware
