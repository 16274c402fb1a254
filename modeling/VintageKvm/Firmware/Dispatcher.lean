import VintageKvm.Firmware.Event
import VintageKvm.Protocol.BlockServer

/-!
# The protocol dispatcher

`handle_packet` and its handlers, on a session over any block source; the
firmware's is the embedded Stage 2. `handled` lists what a packet can do;
from it, over whole runs:

* `dispatch_answered`: every packet of a run is answered as it should be, and
  the SEQ of a reply is its number since the last CAP_REQ;
* `gapsRight_iff`: when SeqGap reports exactly the losses;
* `acksRight_iff`: when BLOCK_ACKs are reported with their own numbers.
-/

namespace VintageKvm.Firmware

open Protocol

/-! ## The embedded Stage 2 -/

def STAGE2_PLACEHOLDER : List Byte := [
  0xB4, 0x09, 0xBA, 0x0D, 0x01, 0xCD, 0x21, 0xB8, 0x00, 0x4C, 0xCD, 0x21, 0xCC,
  0x50, 0x49, 0x43, 0x4F, 0x31, 0x32, 0x38, 0x34, 0x20, 0x53, 0x74, 0x61,
  0x67, 0x65, 0x20, 0x32, 0x20, 0x70, 0x6C, 0x61, 0x63, 0x65, 0x68, 0x6F,
  0x6C, 0x64, 0x65, 0x72, 0x20, 0x76, 0x30, 0x2E, 0x31, 0x0D, 0x0A, 0x24]

def STAGE2_SIZE : Nat := STAGE2_PLACEHOLDER.length

structure EmbeddedStage2 where
  crc : DWord

def EmbeddedStage2.new : EmbeddedStage2 := ⟨Protocol.crc32 STAGE2_PLACEHOLDER⟩

instance : BlockSource EmbeddedStage2 where
  totalSize _ := STAGE2_SIZE
  crc32 b := b.crc
  block _ := sliceBlock STAGE2_PLACEHOLDER

/-! ## The session -/

structure SessionState (σ : Type) where
  blockServer : BlockServer
  blob : σ
  txSeq : Byte
  rxSeqExpected : Byte
  capAcked : Bool

inductive DispatchOutcome where
  | reply (p : OutgoingPacket)
  | silent
  | ignored
  deriving DecidableEq

namespace SessionState

variable {σ : Type}

def withBlob (blob : σ) : SessionState σ := ⟨.new, blob, 0, 0, false⟩

def new : SessionState EmbeddedStage2 := withBlob .new

def reset (st : SessionState σ) : SessionState σ :=
  { st with blockServer := st.blockServer.reset, txSeq := 0, rxSeqExpected := 0, capAcked := false }

/-- `next_seq`: the number, and the state after it is drawn. -/
def nextSeq (st : SessionState σ) : Byte × SessionState σ :=
  (st.txSeq, { st with txSeq := st.txSeq + 1 })

end SessionState

/-! ## The handlers -/

/-- `build_reply`. -/
def buildReply (cmd seq : Byte) (payload : List Byte) : DispatchOutcome :=
  match OutgoingPacket.new cmd seq payload with
  | some p => .reply p
  | none => .ignored

variable {σ : Type} [BlockSource σ]

/-- `handle_cap_req`. -/
def handleCapReq (st : SessionState σ) : DispatchOutcome × SessionState σ :=
  let st := st.reset
  let payload := buildCapRspPayload st.blob ACTIVE_MODE_SPP
  let (seq, st) := st.nextSeq
  (buildReply CMD_CAP_RSP seq payload, st)

omit [BlockSource σ] in
/-- `handle_cap_ack`. -/
def handleCapAck (st : SessionState σ) : DispatchOutcome × SessionState σ :=
  (.silent, { st with capAcked := true })

omit [BlockSource σ] in
/-- `handle_ping`. -/
def handlePing (p : IncomingPacket) (st : SessionState σ) : DispatchOutcome × SessionState σ :=
  let (seq, st) := st.nextSeq
  (buildReply CMD_PONG seq p.payload.bytes, st)

/-- `handle_send_block`. -/
def handleSendBlock (p : IncomingPacket) (st : SessionState σ) : DispatchOutcome × SessionState σ :=
  match BlockServer.parseSendBlock p.payload.bytes with
  | .error _ => (.ignored, st)
  | .ok blockNo =>
    match st.blockServer.buildRecvBlock st.blob blockNo (List.replicate RECV_MAX_PAYLOAD 0) with
    | .error _ => (.ignored, st)
    | .ok (n, payload) =>
      let (seq, st) := st.nextSeq
      (buildReply CMD_RECV_BLOCK seq (payload.take n), st)

/-- `handle_block_ack`: the event is there whatever the payload. -/
def handleBlockAck (p : IncomingPacket) (st : SessionState σ) :
    DispatchOutcome × SessionState σ × List Event :=
  let st := { st with blockServer := st.blockServer.handleAck p.payload.bytes }
  -- `saturating_sub(1)`
  (.silent, st,
    [.blockAck (BitVec.ofNat 16 (st.blockServer.expectedBlock.toNat - 1))
    (BlockSource.crc32 st.blob)])

/-- `handle_packet`: the outcome, the session after it, and the events. -/
def handlePacket (p : IncomingPacket) (st : SessionState σ) :
    DispatchOutcome × SessionState σ × List Event :=
  let gap := if p.seq ≠ st.rxSeqExpected then [.seqGap st.rxSeqExpected p.seq p.cmd] else []
  let st := { st with rxSeqExpected := p.seq + 1 }
  let (outcome, st, events) :=
    if p.cmd = CMD_CAP_REQ then let (o, st) := handleCapReq st; (o, st, [])
    else if p.cmd = CMD_CAP_ACK then let (o, st) := handleCapAck st; (o, st, [])
    else if p.cmd = CMD_PING then let (o, st) := handlePing p st; (o, st, [])
    else if p.cmd = CMD_SEND_BLOCK then let (o, st) := handleSendBlock p st; (o, st, [])
    else if p.cmd = CMD_BLOCK_ACK then handleBlockAck p st
    else if p.cmd = CMD_BLOCK_NAK then (.silent, st, [])
    else (.ignored, st, [.unknownCmd p.cmd])
  (outcome, st, gap ++ events)

/-! ## One packet -/

/-- The session after a packet. -/
def next (p : IncomingPacket) (st : SessionState σ) : SessionState σ := (handlePacket p st).2.1

/-- The events of a packet. -/
def events (p : IncomingPacket) (st : SessionState σ) : List Event := (handlePacket p st).2.2

/-- The event is a SeqGap. -/
def Event.IsSeqGap : Event → Prop
  | .seqGap _ _ _ => True
  | _ => False

/-- The event is a BlockAck. -/
def Event.IsBlockAck : Event → Prop
  | .blockAck _ _ => True
  | _ => False

/-- The report of a SEQ that is not the expected one. -/
def gap (p : IncomingPacket) (st : SessionState σ) : List Event :=
  if p.seq ≠ st.rxSeqExpected then [.seqGap st.rxSeqExpected p.seq p.cmd] else []

/-- What `handle_packet` can do with a packet. -/
inductive Handled (p : IncomingPacket) (st : SessionState σ) :
    DispatchOutcome → SessionState σ → List Event → Prop
  | capReq : p.cmd = CMD_CAP_REQ →
    Handled p st (buildReply CMD_CAP_RSP 0 (buildCapRspPayload st.blob ACTIVE_MODE_SPP))
      ⟨⟨0⟩, st.blob, 1, 0, false⟩ (gap p st)
  | capAck : p.cmd = CMD_CAP_ACK →
    Handled p st .silent { st with rxSeqExpected := p.seq + 1, capAcked := true } (gap p st)
  | ping : p.cmd = CMD_PING → Handled p st (buildReply CMD_PONG st.txSeq p.payload.bytes)
      { st with rxSeqExpected := p.seq + 1, txSeq := st.txSeq + 1 } (gap p st)
  | sendBlock {blockNo n payload} : p.cmd = CMD_SEND_BLOCK →
    BlockServer.parseSendBlock p.payload.bytes = .ok blockNo →
      st.blockServer.buildRecvBlock st.blob blockNo (List.replicate RECV_MAX_PAYLOAD 0) =
      .ok (n, payload) →
      Handled p st (buildReply CMD_RECV_BLOCK st.txSeq (payload.take n))
        { st with rxSeqExpected := p.seq + 1, txSeq := st.txSeq + 1 } (gap p st)
  | noBlock : p.cmd = CMD_SEND_BLOCK →
    (∀ blockNo, BlockServer.parseSendBlock p.payload.bytes = .ok blockNo →
      ∃ e, st.blockServer.buildRecvBlock st.blob blockNo (List.replicate RECV_MAX_PAYLOAD 0) =
        .error e) →
      Handled p st .ignored { st with rxSeqExpected := p.seq + 1 } (gap p st)
  | blockAck {s} : p.cmd = CMD_BLOCK_ACK → st.blockServer.handleAck p.payload.bytes = s →
    Handled p st .silent
      { st with rxSeqExpected := p.seq + 1, blockServer := s }
      (gap p st ++
        [.blockAck (BitVec.ofNat 16 (s.expectedBlock.toNat - 1)) (BlockSource.crc32 st.blob)])
  | other {o evs} : (∀ q, o ≠ .reply q) → (∀ e ∈ evs, ¬ e.IsSeqGap ∧ ¬ e.IsBlockAck) →
      p.cmd ≠ CMD_CAP_REQ ∧ p.cmd ≠ CMD_PING ∧ p.cmd ≠ CMD_SEND_BLOCK ∧ p.cmd ≠ CMD_BLOCK_ACK →
      Handled p st o { st with rxSeqExpected := p.seq + 1 } (gap p st ++ evs)

theorem silent_ne_reply (q : OutgoingPacket) : DispatchOutcome.silent ≠ .reply q := by
  intro h
  cases h

theorem ignored_ne_reply (q : OutgoingPacket) : DispatchOutcome.ignored ≠ .reply q := by
  intro h
  cases h

theorem handled (p : IncomingPacket) (st : SessionState σ) :
    Handled p st (handlePacket p st).1 (next p st) (events p st) := by
  simp only [next, events, handlePacket]
  rw [← gap]
  by_cases h₁ : p.cmd = CMD_CAP_REQ
  · rw [if_pos h₁, List.append_nil]
    exact .capReq h₁
  rw [if_neg h₁]
  by_cases h₂ : p.cmd = CMD_CAP_ACK
  · rw [if_pos h₂, List.append_nil]
    exact .capAck h₂
  rw [if_neg h₂]
  by_cases h₃ : p.cmd = CMD_PING
  · rw [if_pos h₃, List.append_nil]
    exact .ping h₃
  rw [if_neg h₃]
  by_cases h₄ : p.cmd = CMD_SEND_BLOCK
  · rw [if_pos h₄, List.append_nil, handleSendBlock]
    cases hp : BlockServer.parseSendBlock p.payload.bytes with
    | error e =>
      refine .noBlock h₄ fun no hno => ?_
      rw [hp] at hno
      cases hno
    | ok no =>
      simp only
      cases hb : st.blockServer.buildRecvBlock st.blob no (List.replicate RECV_MAX_PAYLOAD 0) with
      | error e =>
        refine .noBlock h₄ fun no' hno => ?_
        rw [hp] at hno
        cases hno
        exact ⟨e, hb⟩
      | ok x => exact .sendBlock h₄ hp hb
  rw [if_neg h₄]
  by_cases h₅ : p.cmd = CMD_BLOCK_ACK
  · rw [if_pos h₅]
    exact .blockAck h₅ rfl
  rw [if_neg h₅]
  by_cases h₆ : p.cmd = CMD_BLOCK_NAK
  · rw [if_pos h₆]
    exact .other silent_ne_reply (fun e he => nomatch he) ⟨h₁, h₃, h₄, h₅⟩
  · rw [if_neg h₆]
    refine .other ignored_ne_reply (fun e he => ?_) ⟨h₁, h₃, h₄, h₅⟩
    rw [List.mem_singleton.mp he]
    exact ⟨fun h => h, fun h => h⟩

omit [BlockSource σ] in
theorem mem_gap {p : IncomingPacket} {st : SessionState σ} {e : Event} (h : e ∈ gap p st) :
    e.IsSeqGap ∧ ¬ e.IsBlockAck ∧ p.seq ≠ st.rxSeqExpected := by
  rw [gap] at h
  split at h
  · rename_i hs
    rw [List.mem_singleton.mp h]
    exact ⟨trivial, fun h => h, hs⟩
  · cases h

namespace Handled

variable {p : IncomingPacket} {st st' : SessionState σ} {o : DispatchOutcome} {evs : List Event}

/-- A SeqGap is reported for a SEQ that is not the expected one, and only for
such. -/
theorem seqGap_iff (h : Handled p st o st' evs) :
    (∃ e ∈ evs, e.IsSeqGap) ↔ p.seq ≠ st.rxSeqExpected := by
  have hgap : (∃ e ∈ gap p st, e.IsSeqGap) ↔ p.seq ≠ st.rxSeqExpected := by
    constructor
    · rintro ⟨e, he, -⟩
      exact (mem_gap he).2.2
    · intro hs
      refine ⟨.seqGap st.rxSeqExpected p.seq p.cmd, ?_, trivial⟩
      rw [gap, if_pos hs]
      exact List.mem_singleton_self _
  have happ : ∀ evs : List Event, (∀ e ∈ evs, ¬ e.IsSeqGap) →
      ((∃ e ∈ gap p st ++ evs, e.IsSeqGap) ↔ p.seq ≠ st.rxSeqExpected) := by
    intro evs hevs
    rw [← hgap]
    constructor
    · rintro ⟨e, he, hg⟩
      exact (List.mem_append.mp he).elim (fun h => ⟨e, h, hg⟩) fun h => absurd hg (hevs e h)
    · rintro ⟨e, he, hg⟩
      exact ⟨e, List.mem_append_left _ he, hg⟩
  cases h with
  | blockAck _ _ =>
    refine happ _ fun e he hg => ?_
    rw [List.mem_singleton.mp he] at hg
    exact hg
  | other _ hevs _ => exact happ _ fun e he => (hevs e he).1
  | _ => exact hgap

/-- The SEQ that is expected after a packet. -/
theorem rxSeqExpected (h : Handled p st o st' evs) :
    st'.rxSeqExpected = if p.cmd = CMD_CAP_REQ then 0 else p.seq + 1 := by
  cases h with
  | capReq h => rw [if_pos h]
  | other _ _ h => rw [if_neg h.1]
  | capAck h | ping h | sendBlock h _ _ | noBlock h _ | blockAck h _ =>
    rw [if_neg fun h' => absurd (h.symm.trans h') (by decide)]

end Handled

/-! ## Replies -/

/-- The session after packets, and what each was answered, newest first. -/
def dispatch (st : SessionState σ) (ps : List IncomingPacket) :
    SessionState σ × List (IncomingPacket × DispatchOutcome) :=
  ps.foldl (fun x p => (next p x.1, (p, (handlePacket p x.1).1) :: x.2)) (st, [])

/-- How many replies there were since the last CAP_REQ, with the reply to it. -/
def replies : List (IncomingPacket × DispatchOutcome) → Nat
  | [] => 0
  | (p, o) :: log =>
    (match o with | .reply _ => 1 | _ => 0) + if p.cmd = CMD_CAP_REQ then 0 else replies log

/-- The answer `o` to a packet `p` that leads from `st` to `st'`, when `k`
replies went out since the last CAP_REQ, a reply to `p` among them. -/
structure Answered (data : List Byte) (p : IncomingPacket) (st st' : SessionState σ)
    (o : DispatchOutcome) (k : Nat) : Prop where
  capReq : p.cmd = CMD_CAP_REQ → ∃ q, o = .reply q ∧ q.cmd = CMD_CAP_RSP
  ping : p.cmd = CMD_PING → ∃ q, o = .reply q ∧ q.cmd = CMD_PONG ∧ q.payload = p.payload
  sendBlock : ∀ n : DWord, p.cmd = CMD_SEND_BLOCK → p.payload.bytes = be32 n →
    64 * n.toNat < data.length → ∃ q, o = .reply q ∧ q.cmd = CMD_RECV_BLOCK ∧
      q.payload.bytes = be32 n ++ BitVec.ofNat 8 (blockLen data.length n.toNat) ::
      blockData data n.toNat
  nothingElse : ∀ q, o = .reply q → p.cmd = CMD_CAP_REQ ∨ p.cmd = CMD_PING ∨
    p.cmd = CMD_SEND_BLOCK ∧ ∃ n : DWord, p.payload.bytes = be32 n ∧ 64 * n.toNat < data.length
  seq : ∀ q, o = .reply q → q.seq = BitVec.ofNat 8 (k - 1)
  txSeq : (∀ q, o ≠ .reply q) → st'.txSeq = st.txSeq
  encodes : ∀ q, o = .reply q → ∀ out : List Byte, out.length = MAX_PACKET →
    ∃ n out', encode q.cmd q.seq q.payload.bytes out = (.ok n, out')

theorem buildReply_ok (cmd seq : Byte) {payload : List Byte} (h : payload.length ≤ MAX_PAYLOAD) :
    buildReply cmd seq payload = .reply ⟨cmd, seq, payload, h⟩ := by
  rw [buildReply, OutgoingPacket.new, if_neg (Nat.not_lt.mpr h), Vec.ofSlice, dif_pos h]
  rfl

/-- Every packet fits into a buffer of `MAX_PACKET` bytes. -/
theorem encode_maxPacket (q : OutgoingPacket) {out : List Byte} (h : out.length = MAX_PACKET) :
    ∃ n out', encode q.cmd q.seq q.payload.bytes out = (.ok n, out') := by
  refine ⟨_, _, encode_ok q.cmd q.seq q.payload.length_le ?_⟩
  rw [h]
  exact Nat.add_le_add_right q.payload.length_le OVERHEAD

omit [BlockSource σ] in
/-- A packet that is not answered. -/
theorem Answered.ofSilent {data : List Byte} {p : IncomingPacket} {st st' : SessionState σ}
    {o : DispatchOutcome} {k : Nat} (ho : ∀ q, o ≠ .reply q) (hreq : p.cmd ≠ CMD_CAP_REQ)
    (hping : p.cmd ≠ CMD_PING)
    (hsend : ∀ n : DWord, p.cmd = CMD_SEND_BLOCK → p.payload.bytes = be32 n →
      ¬ 64 * n.toNat < data.length)
    (hseq : st'.txSeq = st.txSeq) : Answered data p st st' o k where
  capReq h := absurd h hreq
  ping h := absurd h hping
  sendBlock n h hn hlt := absurd hlt (hsend n h hn)
  nothingElse q h := absurd h (ho q)
  seq q h := absurd h (ho q)
  txSeq _ := hseq
  encodes q h := absurd h (ho q)

omit [BlockSource σ] in
/-- A packet that is answered. -/
theorem Answered.ofReply {data : List Byte} {p : IncomingPacket} {st st' : SessionState σ}
    {q : OutgoingPacket} {k : Nat} (hcap : p.cmd = CMD_CAP_REQ → q.cmd = CMD_CAP_RSP)
    (hping : p.cmd = CMD_PING → q.cmd = CMD_PONG ∧ q.payload = p.payload)
    (hsend : ∀ n : DWord, p.cmd = CMD_SEND_BLOCK → p.payload.bytes = be32 n →
      q.cmd = CMD_RECV_BLOCK ∧
      q.payload.bytes = be32 n ++ BitVec.ofNat 8 (blockLen data.length n.toNat) ::
        blockData data n.toNat)
    (hp : p.cmd = CMD_CAP_REQ ∨ p.cmd = CMD_PING ∨
      p.cmd = CMD_SEND_BLOCK ∧ ∃ n : DWord, p.payload.bytes = be32 n ∧ 64 * n.toNat < data.length)
    (hseq : q.seq = BitVec.ofNat 8 (k - 1)) : Answered data p st st' (.reply q) k where
  capReq h := ⟨q, rfl, hcap h⟩
  ping h := ⟨q, rfl, hping h⟩
  sendBlock n h hn _ := ⟨q, rfl, hsend n h hn⟩
  nothingElse _ _ := hp
  seq q' h := by
    cases h
    exact hseq
  txSeq h := absurd rfl (h q)
  encodes q' _ _ h := encode_maxPacket q' h

theorem length_buildCapRspPayload (blob : σ) (mode : Byte) :
    (buildCapRspPayload blob mode).length = PAYLOAD_LEN := by
  simp [buildCapRspPayload, splice, PAYLOAD_LEN]

/-- The payload of the reply to SEND_BLOCK, and what the request was. -/
theorem recvBlock_inv {data : List Byte} {blob : σ} (hb : BlockSource.block blob = sliceBlock data)
    {s : BlockServer} {request payload : List Byte} {blockNo : Word} {n : Nat}
    (hparse : BlockServer.parseSendBlock request = .ok blockNo)
    (hbuild : s.buildRecvBlock blob blockNo (List.replicate RECV_MAX_PAYLOAD 0) =
      .ok (n, payload)) :
    request = be32 (blockNo.setWidth 32) ∧ 64 * blockNo.toNat < data.length ∧
      payload.take n = recvPayload blockNo (blockData data blockNo.toNat) := by
  refine ⟨BlockServer.parseSendBlock_ok_iff.mp hparse, ?_⟩
  by_cases hlt : 64 * blockNo.toNat < data.length
  · rw [BlockServer.buildRecvBlock_some hb s hlt (by rw [List.length_replicate])] at hbuild
    cases hbuild
    exact ⟨hlt, BlockServer.take_recvPayload _ _ _⟩
  · rw [BlockServer.buildRecvBlock_none hb s (Nat.le_of_not_lt hlt)] at hbuild
    cases hbuild

/-- The invariant: the next SEQ is the number of replies since the last
CAP_REQ, and the answers are right. -/
theorem Handled.answered {p : IncomingPacket} {st st' : SessionState σ} {o : DispatchOutcome}
    {evs : List Event} (h : Handled p st o st' evs) {data : List Byte}
    (hb : BlockSource.block st.blob = sliceBlock data)
    (hd : data.length ≤ 64 * 65536) {log : List (IncomingPacket × DispatchOutcome)}
    (hseq : st.txSeq = BitVec.ofNat 8 (replies log)) :
    Answered data p st st' o (replies ((p, o) :: log)) ∧
      st'.txSeq = BitVec.ofNat 8 (replies ((p, o) :: log)) := by
  -- a packet that is not answered, and a reply to anything but a CAP_REQ
  have hsilent : ∀ {o} {st' : SessionState σ}, (∀ q, o ≠ .reply q) → p.cmd ≠ CMD_CAP_REQ →
    p.cmd ≠ CMD_PING →
      (∀ n : DWord, p.cmd = CMD_SEND_BLOCK → p.payload.bytes = be32 n →
        ¬ 64 * n.toNat < data.length) →
      st'.txSeq = st.txSeq →
      Answered data p st st' o (replies ((p, o) :: log)) ∧
      st'.txSeq = BitVec.ofNat 8 (replies ((p, o) :: log)) := by
    intro o st' ho hreq hping hsend htx
    refine ⟨.ofSilent ho hreq hping hsend htx, ?_⟩
    rw [htx, hseq]
    cases o with
    | reply q => exact absurd rfl (ho q)
    | silent | ignored => simp only [replies, if_neg hreq, Nat.zero_add]
  have hnext : ∀ q, p.cmd ≠ CMD_CAP_REQ → replies ((p, .reply q) :: log) = replies log + 1 := by
    intro q hreq
    rw [replies, if_neg hreq, Nat.add_comm]
  cases h with
  | capReq hp =>
    have hlen : (buildCapRspPayload st.blob ACTIVE_MODE_SPP).length ≤ MAX_PAYLOAD := by
      rw [length_buildCapRspPayload]
      decide
    have hk : ∀ q, replies ((p, .reply q) :: log) = 1 := fun q => by rw [replies, if_pos hp]
    rw [buildReply_ok _ _ hlen, hk]
    exact ⟨.ofReply (fun _ => rfl) (fun h => absurd h (hp.trans_ne (by decide)))
      (fun n h => absurd h (hp.trans_ne (by decide))) (.inl hp) rfl, rfl⟩
  | ping hp =>
    have hreq : p.cmd ≠ CMD_CAP_REQ := hp.trans_ne (by decide)
    rw [buildReply_ok _ _ p.payload.length_le, hnext _ hreq]
    refine ⟨.ofReply (fun h => absurd h hreq)
      (fun _ => ⟨rfl, rfl⟩) (fun n h => absurd h (hp.trans_ne (by decide)))
      (.inr (.inl hp)) hseq, ?_⟩
    rw [BitVec.ofNat_add, ← hseq]
    rfl
  | @sendBlock blockNo n payload hp hparse hbuild =>
    have hreq : p.cmd ≠ CMD_CAP_REQ := hp.trans_ne (by decide)
    obtain ⟨hr, hlt, hpay⟩ := recvBlock_inv hb hparse hbuild
    have hle := blockLen_le data.length blockNo.toNat
    have hn : (blockNo.setWidth 32).toNat = blockNo.toNat := by
      rw [BitVec.toNat_setWidth]
      have := blockNo.isLt
      omega
    have hlen : (payload.take n).length ≤ MAX_PAYLOAD := by
      rw [hpay, recvPayload, List.length_append, List.length_cons, length_be32, length_blockData]
      exact Nat.le_trans (Nat.add_le_add_left (Nat.succ_le_succ hle) 4) (by decide)
    rw [buildReply_ok _ _ hlen, hnext _ hreq]
    refine ⟨.ofReply (fun h => absurd h hreq) (fun h => absurd h (hp.trans_ne (by decide)))
      (fun m _ hm => ⟨rfl, ?_⟩)
      (.inr (.inr ⟨hp, blockNo.setWidth 32, hr, by rw [hn]; exact hlt⟩)) hseq, ?_⟩
    · rw [be32_inj.mp (hm.symm.trans hr), hn]
      show payload.take n = _
      rw [hpay, recvPayload, length_blockData]
    · rw [BitVec.ofNat_add, ← hseq]
      rfl
  | noBlock hp hno =>
    refine hsilent ignored_ne_reply (hp.trans_ne (by decide)) (hp.trans_ne (by decide))
      (fun n _ hn hlt => ?_) rfl
    have hn16 : (n.setWidth 16).setWidth 32 = n := by
      apply BitVec.eq_of_toNat_eq
      rw [BitVec.toNat_setWidth, BitVec.toNat_setWidth]
      omega
    have hlt16 : 64 * (n.setWidth 16).toNat < data.length := by
      rw [BitVec.toNat_setWidth]
      omega
    obtain ⟨e, he⟩ := hno (n.setWidth 16) (BlockServer.parseSendBlock_ok_iff.mpr (by rw [hn16, hn]))
    rw [BlockServer.buildRecvBlock_some hb _ hlt16 (by rw [List.length_replicate])] at he
    cases he
  | capAck hp | blockAck hp _ =>
    exact hsilent silent_ne_reply (hp.trans_ne (by decide)) (hp.trans_ne (by decide))
      (fun n h => absurd h (hp.trans_ne (by decide))) rfl
  | other ho _ hp => exact hsilent ho hp.1 hp.2.1 (fun n h => absurd h hp.2.2.1) rfl

theorem dispatch_concat (st : SessionState σ) (ps : List IncomingPacket) (p : IncomingPacket) :
    dispatch st (ps ++ [p]) = (next p (dispatch st ps).1,
      (p, (handlePacket p (dispatch st ps).1).1) :: (dispatch st ps).2) := by
  rw [dispatch, List.foldl_append]
  rfl

/-- The next SEQ is the number of replies since the last CAP_REQ. -/
theorem dispatch_txSeq (blob : EmbeddedStage2) (ps : List IncomingPacket) :
    (dispatch (.withBlob blob) ps).1.txSeq =
      BitVec.ofNat 8 (replies (dispatch (.withBlob blob) ps).2) := by
  induction ps using List.reverseRecOn with
  | nil => rfl
  | append_singleton ps p ih =>
    rw [dispatch_concat]
    exact ((handled p _).answered (show _ = sliceBlock STAGE2_PLACEHOLDER from rfl)
      (by decide) ih).2

/-- Every packet of a run is answered as it should be. -/
theorem dispatch_answered (blob : EmbeddedStage2) (ps : List IncomingPacket) (p : IncomingPacket) :
    Answered STAGE2_PLACEHOLDER p (dispatch (.withBlob blob) ps).1
      (dispatch (.withBlob blob) (ps ++ [p])).1
      (handlePacket p (dispatch (.withBlob blob) ps).1).1
        (replies (dispatch (.withBlob blob) (ps ++ [p])).2) := by
  rw [dispatch_concat]
  exact ((handled p _).answered rfl (by decide) (dispatch_txSeq blob ps)).1

/-! ## SEQ under loss -/

/-- A packet delivered, and how many were lost since the one delivered before. -/
structure Arrival where
  packet : IncomingPacket
  lost : Nat

/-- Of the packets sent, those delivered (`true`). -/
def arrivals (lost : Nat) : List (IncomingPacket × Bool) → List Arrival
  | [] => []
  | (p, true) :: sent => ⟨p, lost⟩ :: arrivals 0 sent
  | (_, false) :: sent => arrivals (lost + 1) sent

/-- The SEQ values of the packets sent are consecutive. -/
def Consecutive (sent : List (IncomingPacket × Bool)) : Prop :=
  sent.IsChain fun x y => y.1.seq = x.1.seq + 1

/-- The packets delivered, each with the session it meets. -/
def met (st : SessionState σ) : List Arrival → List (Arrival × SessionState σ)
  | [] => []
  | a :: rest => (a, st) :: met (next a.packet st) rest

/-- A SeqGap is reported for a packet other than the first if and only if
the number of packets lost before it is not a multiple of 256. -/
def GapsRight (st : SessionState σ) (sent : List (IncomingPacket × Bool)) : Prop :=
  ∀ x ∈ (met st (arrivals 0 sent)).tail, (∃ e ∈ events x.1.packet x.2, e.IsSeqGap) ↔
    ¬ 256 ∣ x.1.lost

/-- After a CAP_REQ that is delivered and does not carry SEQ 255, packets were
lost, not a multiple of 256 of them, and the next one delivered does not carry
SEQ 0. -/
def ResetUnseen (a b : Arrival) : Prop :=
  a.packet.cmd = CMD_CAP_REQ → a.packet.seq = 255 ∨ ¬ 256 ∣ b.lost ∧ b.packet.seq ≠ 0

/-- The SEQ of a packet delivered, from that of the one before. -/
def InStep (a b : Arrival) : Prop := b.packet.seq = a.packet.seq + 1 + BitVec.ofNat 8 b.lost

theorem arrivals_isChain_cons {a : Arrival} :
    ∀ {sent : List (IncomingPacket × Bool)} {lost : Nat}, Consecutive sent →
    (∀ x ∈ sent.head?, x.1.seq = a.packet.seq + 1 + BitVec.ofNat 8 lost) →
      (a :: arrivals lost sent).IsChain InStep := by
  intro sent
  induction sent generalizing a with
  | nil =>
    intro lost _ _
    exact .singleton a
  | cons x sent ih =>
    rintro lost hc hx
    have hs : x.1.seq = a.packet.seq + 1 + BitVec.ofNat 8 lost := hx x rfl
    have hnext : ∀ y ∈ sent.head?, y.1.seq = x.1.seq + 1 := by
      intro y hy
      cases sent with
      | nil => cases hy
      | cons z sent =>
        cases hy
        exact (List.isChain_cons_cons.mp hc).1
    obtain ⟨p, d⟩ := x
    cases d with
    | true =>
      refine List.isChain_cons_cons.mpr ⟨hs, ih hc.of_cons fun y hy => ?_⟩
      rw [hnext y hy]
      exact (BitVec.add_zero _).symm
    | false =>
      refine ih hc.of_cons fun y hy => ?_
      rw [hnext y hy, hs, BitVec.ofNat_add, BitVec.add_assoc _ (BitVec.ofNat 8 lost)]
      rfl

theorem arrivals_isChain {sent : List (IncomingPacket × Bool)} (h : Consecutive sent) :
    (arrivals 0 sent).IsChain InStep := by
  cases sent with
  | nil => exact .nil
  | cons x sent =>
    -- a packet that would have come just before the first
    refine (arrivals_isChain_cons (a := ⟨{ x.1 with seq := x.1.seq - 1 }, 0⟩) h
      fun y hy => ?_).of_cons
    cases hy
    exact (BitVec.sub_add_cancel _ _).symm.trans (BitVec.add_zero _).symm

/-- The report on a packet is right exactly when the reset of a CAP_REQ
before it is not seen. -/
theorem report_right_iff (st : SessionState σ) {a b : Arrival} (h : InStep a b) :
    ((∃ e ∈ events b.packet (next a.packet st), e.IsSeqGap) ↔ ¬ 256 ∣ b.lost) ↔
      ResetUnseen a b := by
  have hlost : BitVec.ofNat 8 b.lost = 0 ↔ 256 ∣ b.lost := by
    rw [← BitVec.toNat_inj, BitVec.toNat_ofNat, Nat.dvd_iff_mod_eq_zero]
    rfl
  rw [(handled b.packet _).seqGap_iff, (handled a.packet st).rxSeqExpected, ResetUnseen, h, ← hlost]
  generalize BitVec.ofNat 8 b.lost = l
  generalize a.packet.seq = s
  by_cases hc : a.packet.cmd = CMD_CAP_REQ
  · simp only [hc, if_pos, forall_const]
    by_cases hs : s = 255
    · subst hs
      have h0 : (255 : Byte) + 1 + l = l := BitVec.zero_add l
      simp only [h0, true_or]
    · have h0 : l = 0 → s + 1 + l ≠ 0 := by
        rintro rfl h
        bv_omega
      simp only [hs, false_or]
      tauto
  · have hl : s + 1 + l ≠ s + 1 ↔ ¬ l = 0 := by
      constructor
      · rintro h rfl
        exact h (BitVec.add_zero _)
      · intro h h'
        exact h (by bv_omega)
    simp only [hc, if_false, false_implies, iff_true]
    exact hl

theorem gapsRight_iff (st : SessionState σ) {sent : List (IncomingPacket × Bool)}
    (h : Consecutive sent) : GapsRight st sent ↔ (arrivals 0 sent).IsChain ResetUnseen := by
  rw [GapsRight]
  have hc := arrivals_isChain h
  generalize arrivals 0 sent = l at hc
  cases l with
  | nil => simp [met]
  | cons a l =>
    induction l generalizing st a with
    | nil => simp [met]
    | cons b l ih =>
      obtain ⟨hab, hc⟩ := List.isChain_cons_cons.mp hc
      have hrest := ih (next a.packet st) b hc
      rw [List.isChain_cons_cons, ← report_right_iff st hab]
      exact List.forall_mem_cons.trans (and_congr_right' hrest)

/-- A handshake: CAP_REQ with SEQ 0, then CAP_ACK with SEQ 1. -/
def handshake : List (IncomingPacket × Bool) :=
  [(⟨CMD_CAP_REQ, 0, [], Nat.zero_le _⟩, true), (⟨CMD_CAP_ACK, 1, [], Nat.zero_le _⟩, true)]

theorem consecutive_handshake : Consecutive handshake := .cons_cons rfl (.singleton _)

theorem gapsRight_iff_handshake :
    GapsRight SessionState.new handshake ↔ (arrivals 0 handshake).IsChain ResetUnseen :=
  gapsRight_iff SessionState.new consecutive_handshake

/-- Nothing is lost in the handshake, and a gap is reported for its CAP_ACK. -/
theorem handshake_gap : Consecutive handshake ∧ ¬ GapsRight SessionState.new handshake := by
  refine ⟨consecutive_handshake, fun h => ?_⟩
  have hack := h _ (List.mem_singleton_self _)
  exact hack.mp ⟨.seqGap 0 1 CMD_CAP_ACK, List.mem_singleton_self _, trivial⟩ ⟨0, rfl⟩

/-! ## BLOCK_ACK under loss -/

/-- The block number of a well-formed BLOCK_ACK. -/
def ackNumber (p : IncomingPacket) : Option Word :=
  if p.cmd = CMD_BLOCK_ACK then (BlockServer.parseSendBlock p.payload.bytes).toOption else none

/-- A BLOCK_ACK that is not well formed. -/
def BadAck (p : IncomingPacket) : Prop := p.cmd = CMD_BLOCK_ACK ∧ ackNumber p = none

/-- The block numbers of the well-formed BLOCK_ACKs. -/
def ackNumbers (ps : List IncomingPacket) : List Nat := (ps.filterMap ackNumber).map BitVec.toNat

/-- What is reported of a packet: a well-formed BLOCK_ACK of a block below
65535 is reported as such and moves the server on, and a malformed one is not
reported. -/
def AckRight (p : IncomingPacket) (st : SessionState σ) : Prop :=
  (∀ b, ackNumber p = some b → b.toNat < 65535 →
    (∃ crc, .blockAck b crc ∈ events p st) ∧ (next p st).blockServer.expectedBlock = b + 1) ∧
  (BadAck p → ∀ e ∈ events p st, ¬ e.IsBlockAck)

/-- Every packet delivered is reported right. -/
def AcksRight (st : SessionState σ) (sent : List (IncomingPacket × Bool)) : Prop :=
  ∀ x ∈ met st (arrivals 0 sent), AckRight x.1.packet x.2

/-- The packets sent that are delivered. -/
def delivered (sent : List (IncomingPacket × Bool)) : List IncomingPacket :=
  (arrivals 0 sent).map Arrival.packet

/-- No malformed BLOCK_ACK is delivered, and of the blocks below 65535 the
first few, without one missing. -/
def AcksInOrder (sent : List (IncomingPacket × Bool)) : Prop :=
  (∀ p ∈ delivered sent, ¬ BadAck p) ∧ ∃ n,
    (ackNumbers (delivered sent)).filter (· < 65535) = List.range n

/-- What a packet other than a CAP_REQ does to the block server. -/
theorem Handled.blockServer {p : IncomingPacket} {st st' : SessionState σ} {o : DispatchOutcome}
    {evs : List Event} (h : Handled p st o st' evs) (hreq : p.cmd ≠ CMD_CAP_REQ) :
    st'.blockServer = if p.cmd = CMD_BLOCK_ACK then st.blockServer.handleAck p.payload.bytes
      else st.blockServer := by
  cases h with
  | capReq hp => exact absurd hp hreq
  | blockAck hp hs => rw [if_pos hp, hs]
  | other _ _ hp => rw [if_neg hp.2.2.2]
  | capAck hp | ping hp | sendBlock hp _ _ | noBlock hp _ => rw [if_neg (hp.trans_ne (by decide))]

/-- What is reported of a BLOCK_ACK. -/
theorem Handled.blockAck_mem_iff {p : IncomingPacket} {st st' : SessionState σ}
    {o : DispatchOutcome} {evs : List Event}
    (h : Handled p st o st' evs) (hp : p.cmd = CMD_BLOCK_ACK) {b : Word} {crc : DWord} :
    .blockAck b crc ∈ evs ↔ b = BitVec.ofNat 16 (st'.blockServer.expectedBlock.toNat - 1) ∧
      crc = BlockSource.crc32 st.blob := by
  have hgap : Event.blockAck b crc ∉ gap p st := fun h => (mem_gap h).2.1 trivial
  cases h with
  | blockAck _ hs =>
    rw [List.mem_append, List.mem_singleton, Event.blockAck.injEq]
    exact ⟨fun h => h.resolve_left hgap, .inr⟩
  | other _ _ h => exact absurd hp h.2.2.2
  | capReq h | capAck h | ping h | sendBlock h _ _ | noBlock h _ =>
    exact absurd (h.symm.trans hp) (by decide)

theorem ackNumber_some {p : IncomingPacket} {b : Word} (h : ackNumber p = some b) :
    p.cmd = CMD_BLOCK_ACK ∧ BlockServer.parseSendBlock p.payload.bytes = .ok b := by
  unfold ackNumber at h
  split at h
  · rename_i hp
    refine ⟨hp, ?_⟩
    cases hparse : BlockServer.parseSendBlock p.payload.bytes with
    | error e =>
      rw [hparse] at h
      cases h
    | ok b' =>
      rw [hparse] at h
      cases h
      rfl
  · cases h

/-- Where a well-formed BLOCK_ACK moves the server. -/
theorem next_expectedBlock {p : IncomingPacket} {b : Word} (h : ackNumber p = some b)
    (st : SessionState σ) : (next p st).blockServer.expectedBlock =
      if b = st.blockServer.expectedBlock then BlockServer.saturatingAdd b 1
      else st.blockServer.expectedBlock := by
  obtain ⟨hp, hparse⟩ := ackNumber_some h
  rw [(handled p st).blockServer (hp.trans_ne (by decide)), if_pos hp,
    BlockServer.handleAck, hparse]
  show (if b = st.blockServer.expectedBlock then
    (⟨BlockServer.saturatingAdd st.blockServer.expectedBlock 1⟩ : BlockServer)
    else st.blockServer).expectedBlock = _
  split
  · rename_i hb
    rw [hb]
  · rfl

theorem saturatingAdd_one {b : Word} (h : b.toNat < 65535) :
    BlockServer.saturatingAdd b 1 = b + 1 := by
  apply BitVec.eq_of_toNat_eq
  rw [BlockServer.saturatingAdd, BitVec.toNat_ofNat, BitVec.toNat_add,
    show (1 : Word).toNat = 1 from rfl]
  omega

/-- A BLOCK_ACK of a block that the server has not gone past is reported right
exactly if it is the one the server expects. -/
theorem ackRight_iff {p : IncomingPacket} {st : SessionState σ} {b : Word}
    (h : ackNumber p = some b) (hlt : b.toNat < 65535)
    (hle : st.blockServer.expectedBlock.toNat ≤ b.toNat) :
    AckRight p st ↔ b = st.blockServer.expectedBlock := by
  have hnext := next_expectedBlock h st
  have hb1 : (b + 1).toNat = b.toNat + 1 := by
    rw [BitVec.toNat_add, show (1 : Word).toNat = 1 from rfl]
    omega
  constructor
  · intro hr
    by_contra hne
    rw [if_neg hne, (hr.1 b h hlt).2] at hnext
    rw [← hnext, hb1] at hle
    omega
  · intro hb
    rw [if_pos hb, saturatingAdd_one hlt] at hnext
    refine ⟨fun b' hb' _ => ?_, fun hbad => nomatch hbad.2.symm.trans h⟩
    cases h.symm.trans hb'
    refine ⟨⟨_, ((handled p st).blockAck_mem_iff (ackNumber_some h).1).mpr ⟨?_, rfl⟩⟩, hnext⟩
    rw [hnext, hb1, Nat.add_sub_cancel, ofNat_toNat16]

/-- A malformed BLOCK_ACK is reported. -/
theorem not_ackRight_of_badAck {p : IncomingPacket} (h : BadAck p) (st : SessionState σ) :
    ¬ AckRight p st := fun hr =>
  hr.2 h _ (((handled p st).blockAck_mem_iff h.1).mpr ⟨rfl, rfl⟩) trivial

/-- The packets of a run, from a server that expects a block none of them has
passed. -/
theorem acksRight_arrivals {l : List Arrival} (st : SessionState σ)
    (hreq : ∀ a ∈ l, a.packet.cmd ≠ CMD_CAP_REQ)
    (hinc : (ackNumbers (l.map Arrival.packet)).Pairwise (· < ·))
    (hle : ∀ b ∈ ackNumbers (l.map Arrival.packet), st.blockServer.expectedBlock.toNat ≤ b) :
    (∀ x ∈ met st l, AckRight x.1.packet x.2) ↔ (∀ p ∈ l.map Arrival.packet, ¬ BadAck p) ∧
      ∃ n, (ackNumbers (l.map Arrival.packet)).filter (· < 65535) =
        List.range' st.blockServer.expectedBlock.toNat n := by
  induction l generalizing st with
  | nil => exact ⟨fun _ => ⟨fun p h => (nomatch h), 0, rfl⟩, fun _ x h => nomatch h⟩
  | cons a l ih =>
    have ih := ih (next a.packet st) fun a ha => hreq a (List.mem_cons_of_mem _ ha)
    rw [met, List.forall_mem_cons, List.map_cons, List.forall_mem_cons]
    rw [List.map_cons] at hinc hle
    cases ha : ackNumber a.packet with
    | none =>
      have hcons : ackNumbers (a.packet :: l.map Arrival.packet) =
          ackNumbers (l.map Arrival.packet) := by
        rw [ackNumbers, List.filterMap_cons_none ha, ackNumbers]
      rw [hcons] at hinc hle
      rw [hcons]
      by_cases hp : a.packet.cmd = CMD_BLOCK_ACK
      · have hbad : BadAck a.packet := ⟨hp, ha⟩
        exact ⟨fun h => absurd h.1 (not_ackRight_of_badAck hbad st), fun h => absurd hbad h.1.1⟩
      · have hs := (handled a.packet st).blockServer (hreq a List.mem_cons_self)
        rw [if_neg hp] at hs
        have hr : AckRight a.packet st :=
          ⟨fun b hb => (nomatch ha.symm.trans hb), fun hb => absurd hb.1 hp⟩
        show _ ∧ (∀ x ∈ met (next a.packet st) l, AckRight x.1.packet x.2) ↔ _
        rw [ih hinc (by rw [hs]; exact hle), hs]
        exact ⟨fun h => ⟨⟨fun hb => hp hb.1, h.2.1⟩, h.2.2⟩, fun h => ⟨hr, h.1.2, h.2⟩⟩
    | some b =>
      have hcons : ackNumbers (a.packet :: l.map Arrival.packet) =
          b.toNat :: ackNumbers (l.map Arrival.packet) := by
        rw [ackNumbers, List.filterMap_cons_some ha, ackNumbers, List.map_cons]
      rw [hcons] at hinc hle
      rw [hcons]
      obtain ⟨hgt, hinc⟩ := List.pairwise_cons.mp hinc
      have hbad : ¬ BadAck a.packet := fun hb => nomatch hb.2.symm.trans ha
      have hnext := next_expectedBlock ha st
      by_cases hlt : b.toNat < 65535
      · rw [List.filter_cons_of_pos (by exact decide_eq_true hlt),
          ackRight_iff ha hlt (hle _ List.mem_cons_self)]
        by_cases hb : b = st.blockServer.expectedBlock
        · have hb1 : (next a.packet st).blockServer.expectedBlock.toNat = b.toNat + 1 := by
            rw [hnext, if_pos hb, saturatingAdd_one hlt, BitVec.toNat_add,
              show (1 : Word).toNat = 1 from rfl]
            omega
          rw [hb1] at ih
          have hrest := ih hinc hgt
          show _ ∧ (∀ x ∈ met (next a.packet st) l, AckRight x.1.packet x.2) ↔ _
          rw [hrest, ← hb]
          constructor
          · rintro ⟨-, hbads, n, hn⟩
            exact ⟨⟨hbad, hbads⟩, n + 1, by rw [List.range'_succ, hn]⟩
          · rintro ⟨⟨-, hbads⟩, n, hn⟩
            cases n with
            | zero => cases hn
            | succ n =>
              rw [List.range'_succ] at hn
              exact ⟨rfl, hbads, n, (List.cons.inj hn).2⟩
        · refine ⟨fun h => absurd h.1 hb, fun ⟨_, n, hn⟩ => ?_⟩
          cases n with
          | zero => cases hn
          | succ n =>
            rw [List.range'_succ] at hn
            exact absurd (BitVec.eq_of_toNat_eq (List.cons.inj hn).1) hb
      · -- a BLOCK_ACK of block 65535 is the last
        have hnil : ackNumbers (l.map Arrival.packet) = [] := by
          refine List.eq_nil_iff_forall_not_mem.mpr fun n hn => ?_
          have hn' := hgt n hn
          obtain ⟨w, -, rfl⟩ := List.mem_map.mp hn
          have := w.isLt
          omega
        have hr : AckRight a.packet st :=
          ⟨fun b' hb' h' => absurd (Option.some.inj (ha.symm.trans hb') ▸ h') hlt,
          fun h => absurd h hbad⟩
        rw [hnil] at ih
        have hrest := ih .nil fun b h => nomatch h
        rw [List.filter_cons_of_neg (by rw [decide_eq_true_eq]; exact hlt), hnil]
        show _ ∧ (∀ x ∈ met (next a.packet st) l, AckRight x.1.packet x.2) ↔ _
        rw [hrest]
        exact ⟨fun h => ⟨⟨hbad, h.2.1⟩, 0, rfl⟩, fun h => ⟨hr, h.1.2, 0, rfl⟩⟩

theorem arrivals_sublist (sent : List (IncomingPacket × Bool)) (lost : Nat) :
    ((arrivals lost sent).map Arrival.packet).Sublist (sent.map Prod.fst) := by
  induction sent generalizing lost with
  | nil => exact .slnil
  | cons x sent ih =>
    obtain ⟨p, d⟩ := x
    cases d with
    | true => exact (ih 0).cons_cons p
    | false => exact (ih (lost + 1)).cons p

/-- After a CAP_REQ, with BLOCK_ACKs of ever higher blocks: all are reported
right exactly if none is missing. -/
theorem acksRight_iff {req : IncomingPacket} (h : req.cmd = CMD_CAP_REQ) (st : SessionState σ)
    {sent : List (IncomingPacket × Bool)} (hreq : ∀ x ∈ sent, x.1.cmd ≠ CMD_CAP_REQ)
    (hinc : (ackNumbers (sent.map Prod.fst)).Pairwise (· < ·)) :
    AcksRight (next req st) sent ↔ AcksInOrder sent := by
  have hsub := arrivals_sublist sent 0
  have hs : (next req st).blockServer = ⟨0⟩ := by
    simp only [next, handlePacket, if_pos h]
    rfl
  have := acksRight_arrivals (next req st) (l := arrivals 0 sent) (fun a ha => ?_)
    (hinc.sublist ((hsub.filterMap ackNumber).map BitVec.toNat))
      (fun b _ => by rw [hs]; exact Nat.zero_le b)
  · rw [AcksRight, this, hs, AcksInOrder, delivered]
    simp only [List.range_eq_range']
    rfl
  · obtain ⟨x, hx, hxa⟩ := List.mem_map.mp (hsub.subset (List.mem_map_of_mem ha))
    rw [← hxa]
    exact hreq x hx

def capReq : IncomingPacket := ⟨CMD_CAP_REQ, 0, [], Nat.zero_le _⟩

/-- The BLOCK_ACKs of blocks 0 and 1; the first is lost. -/
def lostAck : List (IncomingPacket × Bool) :=
  [(⟨CMD_BLOCK_ACK, 1, [0, 0, 0, 0], by decide⟩, false),
    (⟨CMD_BLOCK_ACK, 2, [0, 0, 0, 1], by decide⟩, true)]

theorem acksRight_iff_lostAck :
    AcksRight (next capReq SessionState.new) lostAck ↔ AcksInOrder lostAck :=
  acksRight_iff rfl SessionState.new (by decide) (by decide)

/-- The BLOCK_ACK of block 1 is reported as one of block 0. -/
theorem lostAck_wrong :
    (∀ x ∈ lostAck, x.1.cmd ≠ CMD_CAP_REQ) ∧ (ackNumbers (lostAck.map Prod.fst)).Pairwise (· < ·) ∧
    ¬ AcksRight (next capReq SessionState.new) lostAck := by
  refine ⟨by decide, by decide, fun h => ?_⟩
  obtain ⟨-, he⟩ := (h _ List.mem_cons_self).1 1 rfl (by decide)
  exact absurd he (by decide)

end VintageKvm.Firmware
