import VintageKvm.Firmware.Event
import VintageKvm.Protocol.Packet
import Mathlib.Algebra.BigOperators.Group.List.Basic

/-!
# The packet reassembler

`PacketReassembler::next_packet` over a stream of bytes: those `recv_byte`
returns, an error read as zero. At the end of the stream `recv_byte` waits
(`Stop.pending`); an index out of the range of the buffer would end the
firmware (`Stop.outOfRange`).

A turn of its loop looks at the stream only, never at what the buffer held
before (`turn_soh`), so its runs are cut into pieces of the stream.
-/

namespace VintageKvm.Firmware

open Protocol

/-- `PacketReassembler`: its buffer has `MAX_PACKET` bytes. -/
structure PacketReassembler where
  buf : List Byte
  length_buf : buf.length = MAX_PACKET

/-- Why no packet is returned. -/
inductive Stop where
  | pending | outOfRange
  deriving DecidableEq

/-- What one turn of the loop ends in: an event and the next turn, or a
packet; with the stream after it. -/
inductive Turn where
  | resync (reason : ResyncReason) (r : PacketReassembler) (rest : List Byte)
  | packet (p : IncomingPacket) (r : PacketReassembler) (rest : List Byte)

def Turn.packet? : Turn → Option IncomingPacket
  | .resync _ _ _ => none
  | .packet p _ _ => some p

def Turn.rest : Turn → List Byte
  | .resync _ _ rest => rest
  | .packet _ _ rest => rest

namespace PacketReassembler

def new : PacketReassembler := ⟨List.replicate MAX_PACKET 0, List.length_replicate⟩

variable (r : PacketReassembler)

/-- `self.buf[i] = b`. -/
def put (i : Nat) (b : Byte) : Except Stop PacketReassembler :=
  if i < MAX_PACKET then .ok ⟨r.buf.set i b, by rw [List.length_set, r.length_buf]⟩
  else .error .outOfRange

/-- `self.buf[i]`. -/
def get (i : Nat) : Except Stop Byte :=
  match r.buf[i]? with
  | some b => .ok b
  | none => .error .outOfRange

/-- `&self.buf[..n]`. -/
def slice (n : Nat) : Except Stop (List Byte) :=
  if n ≤ MAX_PACKET then .ok (r.buf.take n) else .error .outOfRange

/-- `phy.recv_byte()`. -/
def recvByte : List Byte → Except Stop (Byte × List Byte)
  | [] => .error .pending
  | b :: s => .ok (b, s)

/-- The next `n` bytes of the stream into the buffer from `i` on. -/
def pull (r : PacketReassembler) (i : Nat) :
    Nat → List Byte → Except Stop (PacketReassembler × List Byte)
  | 0, s => .ok (r, s)
  | n + 1, s => do
    let (b, s) ← recvByte s
    let r ← r.put i b
    pull r (i + 1) n s

/-- What a rejected packet is reported as. -/
def reason : DecodeError → ResyncReason
  | .badCrc => .badCrc
  | .badEtx => .badEtx
  | _ => .decodeError

/-- One turn of the loop of `next_packet`. -/
def turn (s : List Byte) : Except Stop Turn := do
  let (b, s) ← recvByte s
  if b ≠ SOH then
    return .resync .preSohByte r s
  let r ← r.put 0 SOH
  let (r, s) ← r.pull 1 (HEADER_LEN - 1) s
  let payloadLen := (ofBytes (← r.get 3) (← r.get 4)).toNat
  let total := HEADER_LEN + payloadLen + 3
  if total > MAX_PACKET then
    return .resync .payloadTooLong r s
  let (r, s) ← r.pull HEADER_LEN (total - HEADER_LEN) s
  match decode (← r.slice total) with
  | .ok p => return .packet p r s
  | .error e => return .resync (reason e) r s

/-! ## A turn, on the stream alone -/

/-- `pull` waits for all its bytes and puts them after the first `i`. -/
theorem pull_ok (r : PacketReassembler) (i n : Nat) (s : List Byte) (h : i + n ≤ MAX_PACKET) :
    (s.length < n ∧ pull r i n s = .error .pending) ∨
    (n ≤ s.length ∧ ∃ r' : PacketReassembler, pull r i n s = .ok (r', s.drop n) ∧
      r'.buf.take (i + n) = r.buf.take i ++ s.take n) := by
  induction n generalizing r i s with
  | zero => exact .inr ⟨Nat.zero_le _, r, rfl, (List.append_nil _).symm⟩
  | succ n ih =>
    cases s with
    | nil => exact .inl ⟨Nat.succ_pos n, rfl⟩
    | cons b s =>
      have hi : i < MAX_PACKET := by omega
      have hput : r.put i b = .ok ⟨r.buf.set i b, by rw [List.length_set, r.length_buf]⟩ :=
        if_pos hi
      have e : pull r i (n + 1) (b :: s) =
          pull ⟨r.buf.set i b, by rw [List.length_set, r.length_buf]⟩ (i + 1) n s := by
        rw [pull, recvByte]
        simp only [bind, Except.bind, hput]
      rw [e]
      rcases ih ⟨r.buf.set i b, by rw [List.length_set, r.length_buf]⟩ (i + 1) s
        (by omega) with ⟨hl, hp⟩ | ⟨hl, r', hp, hb⟩
      · exact .inl ⟨Nat.succ_lt_succ hl, hp⟩
      · refine .inr ⟨Nat.succ_le_succ hl, r', hp, ?_⟩
        have hlt : i < r.buf.length := r.length_buf ▸ hi
        have hset : (r.buf.set i b).take (i + 1) = r.buf.take i ++ [b] := by
          rw [List.take_succ_eq_append_getElem (by rwa [List.length_set]),
            List.take_set_of_le (le_refl i), List.getElem_set_self]
        rw [show i + (n + 1) = i + 1 + n by omega, hb, hset, List.append_assoc]
        rfl

theorem turn_nil (r : PacketReassembler) : turn r [] = .error .pending := rfl

/-- A byte that is not SOH is dropped. -/
theorem turn_noise (r : PacketReassembler) {b : Byte} (h : b ≠ SOH) (s : List Byte) :
    turn r (b :: s) = .ok (.resync .preSohByte r s) := by
  simp only [turn, recvByte, bind, Except.bind, if_pos h]
  rfl

/-- After SOH, the length field decides how many bytes the turn takes. -/
theorem turn_soh (r : PacketReassembler) (s : List Byte) :
    let n := announced (SOH :: s)
    (turn r (SOH :: s) = .error .pending ∧ (s.length < 4 ∨ n ≤ MAX_PAYLOAD ∧ s.length < n + 7)) ∨
    (4 ≤ s.length ∧ MAX_PAYLOAD < n ∧ ∃ r',
      turn r (SOH :: s) = .ok (.resync .payloadTooLong r' (s.drop 4))) ∨
    (n + 7 ≤ s.length ∧ n ≤ MAX_PAYLOAD ∧ ∃ r', turn r (SOH :: s) =
      match decode ((SOH :: s).take (n + 8)) with
      | .ok p => .ok (.packet p r' (s.drop (n + 7)))
      | .error e => .ok (.resync (reason e) r' (s.drop (n + 7)))) := by
  intro n
  have hput : r.put 0 SOH = .ok ⟨r.buf.set 0 SOH, by rw [List.length_set, r.length_buf]⟩ :=
    if_pos (by decide)
  generalize hr₀ :
    (⟨r.buf.set 0 SOH, by rw [List.length_set, r.length_buf]⟩ : PacketReassembler) = r₀ at hput
  have hb₀ : r₀.buf.take 1 = [SOH] := by
    have h0 : 0 < r.buf.length := by rw [r.length_buf]; decide
    rw [← hr₀, List.take_succ_eq_append_getElem (by rwa [List.length_set]), List.getElem_set_self]
    rfl
  rcases pull_ok r₀ 1 4 s (by decide) with ⟨hl, hp⟩ | ⟨hl, r₁, hp, hb₁⟩
  · refine .inl ⟨?_, .inl hl⟩
    simp only [turn, recvByte, bind, Except.bind, ne_eq, not_true, if_false, hput, HEADER_LEN,
      Nat.add_one_sub_one, hp]
  have hhead : r₁.buf.take 5 = (SOH :: s).take 5 := hb₁.trans (by rw [hb₀]; rfl)
  have hget : ∀ i < 5, r₁.get i = .ok ((SOH :: s).getD i 0) := by
    intro i hi
    have he : r₁.buf[i]? = (SOH :: s)[i]? := by
      rw [← List.getElem?_take_of_lt hi, hhead, List.getElem?_take_of_lt hi]
    have hlt : i < (SOH :: s).length := by
      rw [List.length_cons]
      omega
    rw [get, he, List.getElem?_eq_getElem hlt, List.getD_eq_getElem?_getD,
      List.getElem?_eq_getElem hlt]
    rfl
  have hlen : (ofBytes ((SOH :: s).getD 3 0) ((SOH :: s).getD 4 0)).toNat = n := toNat_ofBytes _ _
  have e : turn r (SOH :: s) =
    (if 5 + n + 3 > MAX_PACKET then .ok (.resync .payloadTooLong r₁ (s.drop 4)) else do
      let (r, s) ← r₁.pull HEADER_LEN (5 + n + 3 - HEADER_LEN) (s.drop 4)
      match decode (← r.slice (5 + n + 3)) with
      | .ok p => return .packet p r s
      | .error e => return .resync (reason e) r s) := by
    simp only [turn, recvByte, bind, Except.bind, ne_eq, not_true, if_false, hput, HEADER_LEN,
      Nat.add_one_sub_one, hp, hget 3 (by decide), hget 4 (by decide), hlen]
    rfl
  by_cases hbig : 5 + n + 3 > MAX_PACKET
  · rw [if_pos hbig] at e
    have hlong : MAX_PAYLOAD < n := by
      rw [show MAX_PACKET = 256 from rfl] at hbig
      rw [show MAX_PAYLOAD = 248 from rfl]
      omega
    exact .inr (.inl ⟨hl, hlong, r₁, e⟩)
  have hsmall : 5 + n + 3 ≤ MAX_PACKET := Nat.le_of_not_lt hbig
  rw [if_neg hbig] at e
  have hn : n ≤ MAX_PAYLOAD := by
    rw [show MAX_PACKET = 256 from rfl] at hsmall
    rw [show MAX_PAYLOAD = 248 from rfl]
    omega
  rcases pull_ok r₁ 5 (5 + n + 3 - 5) (s.drop 4) (by omega) with ⟨hl', hp'⟩ | ⟨hl', r₂, hp', hb₂⟩
  · rw [List.length_drop] at hl'
    refine .inl ⟨e.trans ?_, .inr ⟨hn, by omega⟩⟩
    simp only [bind, Except.bind, HEADER_LEN, hp']
  · rw [List.length_drop] at hl'
    refine .inr (.inr ⟨by omega, hn, r₂, e.trans ?_⟩)
    have hslice : r₂.slice (5 + n + 3) = .ok ((SOH :: s).take (n + 8)) := by
      rw [show 5 + (5 + n + 3 - 5) = 5 + n + 3 by omega, hhead] at hb₂
      rw [slice, if_pos hsmall, hb₂, show n + 8 = 5 + (5 + n + 3 - 5) by omega, List.take_add]
      rfl
    simp only [bind, Except.bind, HEADER_LEN, hp', hslice]
    rw [List.drop_drop, show 4 + (5 + n + 3 - 5) = n + 7 by omega]
    rfl

/-- What a turn that ends takes off the stream: between one and `MAX_PACKET`
bytes, and for a packet its frame. -/
def Took (s : List Byte) : Turn → Prop
  | .resync _ _ rest => ∃ bs, s = bs ++ rest ∧ 1 ≤ bs.length ∧ bs.length ≤ MAX_PACKET
  | .packet p _ rest => s = frame p.cmd p.seq p.payload.bytes ++ rest

/-- A turn never leaves the buffer, and takes a piece of the stream. -/
theorem turn_ok (r : PacketReassembler) (s : List Byte) :
    turn r s = .error .pending ∨ ∃ t, turn r s = .ok t ∧ Took s t := by
  cases s with
  | nil => exact .inl rfl
  | cons b s =>
    by_cases hb : b = SOH
    swap
    · exact .inr ⟨_, turn_noise r hb s, [b], rfl, le_rfl, show 1 ≤ MAX_PACKET by decide⟩
    subst hb
    have hpiece : ∀ k, k ≤ s.length → k < MAX_PACKET → ∃ bs, SOH :: s = bs ++ s.drop k ∧
      1 ≤ bs.length ∧
        bs.length ≤ MAX_PACKET := fun k hk hm => by
      refine ⟨SOH :: s.take k, by rw [List.cons_append, List.take_append_drop], ?_, ?_⟩ <;>
        rw [List.length_cons, List.length_take] <;> omega
    rcases turn_soh r s with ⟨hp, -⟩ | ⟨hl, -, r', e⟩ | ⟨hl, hn, r', e⟩
    · exact .inl hp
    · exact .inr ⟨_, e, hpiece 4 hl (by decide)⟩
    · have h256 : announced (SOH :: s) + 7 < MAX_PACKET := by
        rw [show MAX_PAYLOAD = 248 from rfl] at hn
        rw [show MAX_PACKET = 256 from rfl]
        omega
      cases hd : decode ((SOH :: s).take (announced (SOH :: s) + 8)) with
      | error err =>
        rw [hd] at e
        exact .inr ⟨_, e, hpiece _ hl h256⟩
      | ok p =>
        rw [hd] at e
        refine .inr ⟨_, e, ?_⟩
        rw [Took, ← eq_frame_of_decode hd]
        have hcut := List.take_append_drop (announced (SOH :: s) + 8) (SOH :: s)
        rw [List.drop_succ_cons] at hcut
        exact hcut.symm

/-- A packet's frame is one turn, whatever the buffer held and whatever comes
after it. -/
theorem turn_frame (r : PacketReassembler) (p : IncomingPacket) (s : List Byte) :
    ∃ r', turn r (frame p.cmd p.seq p.payload.bytes ++ s) = .ok (.packet p r' s) := by
  have hpl := p.payload.length_le
  have hfl := length_frame p.cmd p.seq p.payload.bytes
  rw [show OVERHEAD = 8 from rfl] at hfl
  have hann : announced (frame p.cmd p.seq p.payload.bytes ++ s) = p.payload.bytes.length := by
    rw [announced_append (by omega), announced_frame (lt_of_le_of_lt hpl (by decide))]
  have hdec : decode (frame p.cmd p.seq p.payload.bytes) = .ok p := decode_frame p.cmd p.seq hpl
  have htake : (frame p.cmd p.seq p.payload.bytes ++ s).take (p.payload.bytes.length + 8) =
      frame p.cmd p.seq p.payload.bytes := List.take_left' hfl
  have hdrop : (frame p.cmd p.seq p.payload.bytes ++ s).drop (p.payload.bytes.length + 8) = s :=
    List.drop_left' hfl
  have hlen : (frame p.cmd p.seq p.payload.bytes ++ s).length = p.payload.bytes.length + 8 +
      s.length := by
    rw [List.length_append, hfl]
  obtain ⟨t, ht⟩ : ∃ t, frame p.cmd p.seq p.payload.bytes ++ s = SOH :: t := ⟨_, rfl⟩
  rw [ht] at hann htake hdrop hlen ⊢
  rw [List.length_cons] at hlen
  rcases turn_soh r t with ⟨-, hc⟩ | ⟨-, hc, -⟩ | ⟨-, -, r', e⟩ <;> rw [hann] at *
  · omega
  · omega
  · rw [htake, hdec] at e
    rw [List.drop_succ_cons] at hdrop
    exact ⟨r', by rw [e, hdrop]⟩

/-! ## Packets, one after another -/

theorem Took.rest_lt {s : List Byte} {p : IncomingPacket} {r : PacketReassembler} {rest : List Byte}
    (h : Took s (.packet p r rest)) : rest.length < s.length := by
  rw [show s = frame p.cmd p.seq p.payload.bytes ++ rest from h, List.length_append, length_frame]
  exact Nat.lt_add_of_pos_left (Nat.add_pos_right _ (by decide))

theorem Took.resync_lt {s : List Byte} {e : ResyncReason} {r : PacketReassembler} {rest : List Byte}
    (h : Took s (.resync e r rest)) : rest.length < s.length := by
  obtain ⟨bs, rfl, h1, -⟩ := h
  rw [List.length_append]
  omega

theorem took_of_turn {r : PacketReassembler} {s : List Byte} {t : Turn} (h : turn r s = .ok t) :
    Took s t := by
  rcases turn_ok r s with hp | ⟨t', ht, hk⟩
  · rw [hp] at h
    cases h
  · rw [ht] at h
    cases h
    exact hk

/-- `next_packet`: its events, and the packet it returns with the buffer and
the stream after it. -/
def nextPacket (r : PacketReassembler) (s : List Byte) :
    List Event × Except Stop (IncomingPacket × PacketReassembler × List Byte) :=
  match _h : turn r s with
  | .error e => ([], .error e)
  | .ok (.packet p r s) => ([], .ok (p, r, s))
  | .ok (.resync reason r s') =>
    let x := nextPacket r s'
    (.packetStreamResync reason :: x.1, x.2)
termination_by s.length
decreasing_by exact (took_of_turn _h).resync_lt

theorem nextPacket_lt {r r' : PacketReassembler} {s rest : List Byte} {p : IncomingPacket}
    (h : (nextPacket r s).2 = .ok (p, r', rest)) : rest.length < s.length := by
  fun_induction nextPacket r s with
  | case1 r s e ht => cases h
  | case2 r s p' r₁ s₁ ht =>
    cases h
    exact (took_of_turn ht).rest_lt
  | case3 r s reason r₁ s₁ ht x ih => exact (ih h).trans (took_of_turn ht).resync_lt

/-- What repeated calls of `next_packet` return on a stream, until one of
them returns no packet. -/
structure Received where
  packets : List IncomingPacket
  events : List Event
  stop : Stop
  deriving DecidableEq

/-- `next_packet` again and again. -/
def recvAll (r : PacketReassembler) (s : List Byte) : Received :=
  match _h : (nextPacket r s).2 with
  | .error e => ⟨[], (nextPacket r s).1, e⟩
  | .ok (p, r', s') =>
    let x := recvAll r' s'
    ⟨p :: x.packets, (nextPacket r s).1 ++ x.events, x.stop⟩
termination_by s.length
decreasing_by exact nextPacket_lt _h

theorem nextPacket_eq (r : PacketReassembler) (s : List Byte) : nextPacket r s = match turn r s with
    | .error e => ([], .error e)
    | .ok (.packet p r' s') => ([], .ok (p, r', s'))
    | .ok (.resync reason r' s') =>
      (.packetStreamResync reason :: (nextPacket r' s').1, (nextPacket r' s').2) := by
  rw [nextPacket]
  split <;> rename_i h <;> rw [h]

theorem recvAll_eq (r : PacketReassembler) (s : List Byte) :
    recvAll r s = match (nextPacket r s).2 with
    | .error e => ⟨[], (nextPacket r s).1, e⟩
    | .ok (p, r', s') =>
      ⟨p :: (recvAll r' s').packets, (nextPacket r s).1 ++ (recvAll r' s').events,
        (recvAll r' s').stop⟩ := by
  rw [recvAll]
  split <;> rename_i h <;> rw [h]

/-- Another packet before the rest. -/
def Received.packet (p : IncomingPacket) (x : Received) : Received :=
  { x with packets := p :: x.packets }

/-- Another event before the rest. -/
def Received.resync (reason : ResyncReason) (x : Received) : Received :=
  { x with events := .packetStreamResync reason :: x.events }

/-- The calls, turn by turn. -/
theorem recvAll_turn (r : PacketReassembler) (s : List Byte) : recvAll r s = match turn r s with
    | .error e => ⟨[], [], e⟩
    | .ok (.packet p r' s') => (recvAll r' s').packet p
    | .ok (.resync reason r' s') => (recvAll r' s').resync reason := by
  rw [recvAll_eq, nextPacket_eq]
  rcases ht : turn r s with e | ⟨reason, r', s'⟩ | ⟨p, r', s'⟩
  · rfl
  · simp only
    rw [recvAll_eq r' s']
    rcases hn : (nextPacket r' s').2 with e | ⟨p, r'', s''⟩
    · rfl
    · rfl
  · rfl

/-! ## Clean streams -/

/-- A string without SOH. -/
structure Noise where
  bytes : List Byte
  noSoh : SOH ∉ bytes

/-- The bytes on the wire of `p`: what `encode` writes into the buffer of
`send_packet`. -/
def encoded (p : OutgoingPacket) : List Byte :=
  (encode p.cmd p.seq p.payload.bytes (List.replicate MAX_PACKET 0)).2.take
    (p.payload.bytes.length + OVERHEAD)

/-- The packet as it is received. -/
def received (p : OutgoingPacket) : IncomingPacket := ⟨p.cmd, p.seq, p.payload⟩

theorem encoded_eq (p : OutgoingPacket) : encoded p = frame p.cmd p.seq p.payload.bytes := by
  have h := encode_ok p.cmd p.seq p.payload.length_le
    (show _ ≤ (List.replicate MAX_PACKET (0 : Byte)).length by
    rw [List.length_replicate]
    exact Nat.add_le_add_right p.payload.length_le OVERHEAD)
  rw [encoded, h, splice_zero, List.take_left' (length_frame _ _ _)]

/-- Packets, each after a string of noise, and noise at the end. -/
def cleanStream : List (Noise × OutgoingPacket) → Noise → List Byte
  | [], tail => tail.bytes
  | (noise, p) :: segs, tail => noise.bytes ++ encoded p ++ cleanStream segs tail

/-- Noise is dropped byte by byte. -/
theorem recvAll_noise (r : PacketReassembler) (n : Noise) (s : List Byte) :
    recvAll r (n.bytes ++ s) = (Received.resync .preSohByte)^[n.bytes.length] (recvAll r s) := by
  obtain ⟨bs, h⟩ := n
  show recvAll r (bs ++ s) = (Received.resync .preSohByte)^[bs.length] (recvAll r s)
  induction bs with
  | nil => rfl
  | cons b bs ih =>
    have hb : b ≠ SOH := fun e => h (e ▸ List.mem_cons_self)
    have ht : recvAll r (b :: (bs ++ s)) = (recvAll r (bs ++ s)).resync .preSohByte := by
      rw [recvAll_turn, turn_noise r hb]
    rw [List.cons_append, ht, ih fun hm => h (List.mem_cons_of_mem b hm), List.length_cons,
      Function.iterate_succ_apply']

/-- The same event again and again. -/
theorem resync_iterate (reason : ResyncReason) (n : Nat) (x : Received) :
    (Received.resync reason)^[n] x =
    ⟨x.packets, List.replicate n (.packetStreamResync reason) ++ x.events, x.stop⟩ := by
  induction n with
  | zero => rfl
  | succ n ih =>
    rw [Function.iterate_succ_apply', ih]
    rfl

/-- Noise and packets: the packets are received, each once and in order, and
every byte of noise is reported once. -/
theorem recvAll_clean (r : PacketReassembler) (segs : List (Noise × OutgoingPacket))
    (tail : Noise) : recvAll r (cleanStream segs tail) =
      { packets := segs.map fun seg => received seg.2
        events := List.replicate ((segs.map fun seg => seg.1.bytes.length).sum + tail.bytes.length)
          (.packetStreamResync .preSohByte)
        stop := .pending } := by
  induction segs generalizing r with
  | nil =>
    have h := recvAll_noise r tail []
    have h₀ : recvAll r [] = ⟨[], [], .pending⟩ := recvAll_turn r []
    rw [List.append_nil, h₀, resync_iterate, List.append_nil] at h
    rw [cleanStream, h, List.map_nil, List.map_nil, List.sum_nil, Nat.zero_add]
  | cons seg segs ih =>
    obtain ⟨noise, p⟩ := seg
    obtain ⟨r', hr⟩ := turn_frame r (received p) (cleanStream segs tail)
    have ht : recvAll r (encoded p ++ cleanStream segs tail) =
        (recvAll r' (cleanStream segs tail)).packet (received p) := by
      rw [encoded_eq, recvAll_turn,
        show turn r (frame p.cmd p.seq p.payload.bytes ++ cleanStream segs tail) = _ from hr]
    rw [cleanStream, List.append_assoc, recvAll_noise, ht, ih r', resync_iterate]
    simp only [Received.packet, List.map_cons, List.sum_cons, Nat.add_assoc, List.replicate_add]

/-! ## Any stream -/

/-- A piece of the stream that a turn took, and what became of it. -/
inductive Piece where
  | dropped (bs : List Byte) (reason : ResyncReason)
  | framed (bs : List Byte) (p : IncomingPacket)

namespace Piece

def bytes : Piece → List Byte
  | dropped bs _ => bs
  | framed bs _ => bs

def packet? : Piece → Option IncomingPacket
  | dropped _ _ => none
  | framed _ p => some p

def event? : Piece → Option Event
  | dropped _ reason => some (.packetStreamResync reason)
  | framed _ _ => none

/-- A piece of one to `MAX_PACKET` bytes; of a packet, what `encode` writes. -/
def Ok (x : Piece) : Prop :=
  1 ≤ x.bytes.length ∧ x.bytes.length ≤ MAX_PACKET ∧ ∀ p, x.packet? = some p → ∀ out : List Byte,
    x.bytes.length ≤ out.length →
    encode p.cmd p.seq p.payload.bytes out =
    (.ok x.bytes.length, x.bytes ++ out.drop x.bytes.length)

end Piece

/-- The turns from a state on, with the piece of the stream each takes, to the
one that does not end. -/
inductive Turns : PacketReassembler → List Byte → List Piece → List Byte → Stop → Prop
  | last {r s e} : turn r s = .error e → Turns r s [] s e
  | dropped {r s bs reason r' s' xs rest e} : turn r s = .ok (.resync reason r' s') → s = bs ++ s' →
      Turns r' s' xs rest e → Turns r s (.dropped bs reason :: xs) rest e
  | framed {r s bs p r' s' xs rest e} : turn r s = .ok (.packet p r' s') → s = bs ++ s' →
      Turns r' s' xs rest e → Turns r s (.framed bs p :: xs) rest e

/-- The turns cut the stream into pieces. -/
theorem Turns.stream {r : PacketReassembler} {s rest : List Byte} {xs : List Piece} {e : Stop}
    (h : Turns r s xs rest e) : s = xs.flatMap Piece.bytes ++ rest := by
  induction h with
  | last _ => rfl
  | dropped _ hs _ ih => rw [hs, List.flatMap_cons, List.append_assoc, ← ih]; rfl
  | framed _ hs _ ih => rw [hs, List.flatMap_cons, List.append_assoc, ← ih]; rfl

/-- What is received is what the turns made of their pieces. -/
theorem Turns.received {r : PacketReassembler} {s rest : List Byte} {xs : List Piece} {e : Stop}
    (h : Turns r s xs rest e) :
    recvAll r s = ⟨xs.filterMap Piece.packet?, xs.filterMap Piece.event?, e⟩ := by
  induction h with
  | last ht => rw [recvAll_turn, ht]; rfl
  | dropped ht _ _ ih => rw [recvAll_turn, ht]; simp only [ih]; rfl
  | framed ht _ _ ih => rw [recvAll_turn, ht]; simp only [ih]; rfl

/-- Every stream is cut into pieces by finitely many turns. -/
theorem exists_turns (r : PacketReassembler) (s : List Byte) :
    ∃ xs rest, Turns r s xs rest .pending ∧ ∀ x ∈ xs, x.Ok := by
  induction hn : s.length using Nat.strong_induction_on generalizing r s with
  | _ n ih =>
    rcases turn_ok r s with hp | ⟨⟨reason, r', s'⟩ | ⟨p, r', s'⟩, ht, hk⟩
    · exact ⟨[], s, .last hp, fun x hx => nomatch hx⟩
    · obtain ⟨xs, rest, hx, hok⟩ := ih s'.length (hn ▸ hk.resync_lt) r' s' rfl
      obtain ⟨bs, hs, h1, h256⟩ := hk
      refine ⟨.dropped bs reason :: xs, rest, .dropped ht hs hx, fun x hm => ?_⟩
      rcases List.mem_cons.mp hm with rfl | hm
      · exact ⟨h1, h256, fun p hp => nomatch hp⟩
      · exact hok x hm
    · obtain ⟨xs, rest, hx, hok⟩ := ih s'.length (hn ▸ hk.rest_lt) r' s' rfl
      have hl := length_frame p.cmd p.seq p.payload.bytes
      refine ⟨.framed (frame p.cmd p.seq p.payload.bytes) p :: xs, rest, .framed ht hk hx,
        fun x hm => ?_⟩
      rcases List.mem_cons.mp hm with rfl | hm
      · refine ⟨?_, ?_, fun q hq => ?_⟩
        · show 1 ≤ (frame p.cmd p.seq p.payload.bytes).length
          rw [hl]
          exact Nat.le_add_left 1 (p.payload.bytes.length + 7)
        · show (frame p.cmd p.seq p.payload.bytes).length ≤ MAX_PACKET
          rw [hl]
          exact Nat.add_le_add_right p.payload.length_le OVERHEAD
        · cases hq
          exact (eq_frame_iff_encode _ p.cmd p.seq p.payload.length_le).mp rfl
      · exact hok x hm

/-- A turn that ends does the same on a longer stream, with any buffer. -/
theorem turn_append {r : PacketReassembler} {s : List Byte} {t : Turn} (h : turn r s = .ok t)
    (r' : PacketReassembler) (x : List Byte) :
    ∃ t', turn r' (s ++ x) = .ok t' ∧ t'.packet? = t.packet? ∧ t'.rest = t.rest ++ x := by
  cases s with
  | nil => cases h
  | cons b s =>
    by_cases hb : b = SOH
    swap
    · rw [turn_noise r hb] at h
      cases h
      exact ⟨_, turn_noise r' hb (s ++ x), rfl, rfl⟩
    subst hb
    have hann : 4 ≤ s.length → announced (SOH :: (s ++ x)) = announced (SOH :: s) := fun h4 =>
      announced_append (h := SOH :: s) (Nat.succ_le_succ h4)
    have hlen : (s ++ x).length = s.length + x.length := List.length_append
    have hdrop : ∀ k ≤ s.length, (s ++ x).drop k = s.drop k ++ x :=
      fun k hk => List.drop_append_of_le_length hk
    rcases turn_soh r s with ⟨hp, -⟩ | ⟨h4, hbig, r₁, e⟩ | ⟨hl, hn, r₁, e⟩
    · rw [hp] at h
      cases h
    · rw [e] at h
      cases h
      rcases turn_soh r' (s ++ x) with ⟨-, hc⟩ | ⟨-, -, r₂, e'⟩ | ⟨-, hc, -⟩
      · rw [hann h4] at hc
        omega
      · exact ⟨_, e', rfl, hdrop 4 h4⟩
      · rw [hann h4] at hc
        omega
    · have h4 : 4 ≤ s.length := by omega
      rcases turn_soh r' (s ++ x) with ⟨-, hc⟩ | ⟨-, hc, -⟩ | ⟨-, -, r₂, e'⟩
      · rw [hann h4] at hc
        omega
      · rw [hann h4] at hc
        omega
      · have htake : (SOH :: (s ++ x)).take (announced (SOH :: s) + 8) =
            (SOH :: s).take (announced (SOH :: s) + 8) :=
          List.take_append_of_le_length
            (show announced (SOH :: s) + 8 ≤ (SOH :: s).length from Nat.succ_le_succ hl)
        rw [hann h4, htake, hdrop _ hl] at e'
        rw [e] at h
        cases hd : decode ((SOH :: s).take (announced (SOH :: s) + 8)) with
        | ok p =>
          rw [hd] at h e'
          cases h
          exact ⟨_, e', rfl, rfl⟩
        | error err =>
          rw [hd] at h e'
          cases h
          exact ⟨_, e', rfl, rfl⟩

theorem rest_lt {r : PacketReassembler} {s : List Byte} {t : Turn} (h : turn r s = .ok t) :
    t.rest.length < s.length := by
  have hk := took_of_turn h
  cases t with
  | resync reason r' rest => exact hk.resync_lt
  | packet p r' rest => exact hk.rest_lt

/-- The packets of a stream, by what its first turn takes. -/
theorem packets_of_turn {r : PacketReassembler} {s : List Byte} {t : Turn} (h : turn r s = .ok t) :
    ∃ r', (recvAll r s).packets = t.packet?.toList ++ (recvAll r' t.rest).packets := by
  rw [recvAll_turn, h]
  cases t with
  | resync reason r' rest => exact ⟨r', rfl⟩
  | packet p r' rest => exact ⟨r', rfl⟩

/-- The packets of a stream do not depend on the buffer. -/
theorem packets_buffer (r r' : PacketReassembler) (s : List Byte) :
    (recvAll r s).packets = (recvAll r' s).packets := by
  induction hn : s.length using Nat.strong_induction_on generalizing r r' s with
  | _ n ih =>
    rcases turn_ok r s with hp | ⟨t, ht, -⟩
    · have hp' : turn r' s = .error .pending := by
        rcases turn_ok r' s with hp' | ⟨t, ht, -⟩
        · exact hp'
        · obtain ⟨t', ht', -⟩ := turn_append ht r []
          rw [List.append_nil, hp] at ht'
          cases ht'
      rw [recvAll_turn, recvAll_turn, hp, hp']
    · obtain ⟨t', ht', hpacket, hrest⟩ := turn_append ht r' []
      rw [List.append_nil] at ht' hrest
      obtain ⟨r₁, e₁⟩ := packets_of_turn ht
      obtain ⟨r₂, e₂⟩ := packets_of_turn ht'
      rw [e₁, e₂, hpacket, hrest, ih _ (hn ▸ rest_lt ht) r₁ r₂ _ rfl]

/-- A turn takes its packet off the packets of every longer stream. -/
theorem packets_append {r : PacketReassembler} {s : List Byte} {t : Turn} (h : turn r s = .ok t)
    (r' r'' : PacketReassembler) (x : List Byte) :
    (recvAll r' (s ++ x)).packets = t.packet?.toList ++ (recvAll r'' (t.rest ++ x)).packets := by
  obtain ⟨t', ht', hpacket, hrest⟩ := turn_append h r' x
  obtain ⟨r₁, e₁⟩ := packets_of_turn ht'
  rw [e₁, hpacket, hrest, packets_buffer r₁ r'']

/-! ## A frame after a broken one -/

/-- The places of a stream where a packet is looked for, as the stream from
there on. They follow from the length fields alone, whether or not a packet is
found. -/
inductive Sought : List Byte → List Byte → Prop
  | here (s : List Byte) : Sought s s
  | noise {b : Byte} {s u : List Byte} (h : b ≠ SOH) (rest : Sought s u) : Sought (b :: s) u
  | tooLong {s u : List Byte} (header : 4 ≤ s.length) (long : MAX_PAYLOAD < announced (SOH :: s))
    (rest : Sought (s.drop 4) u) : Sought (SOH :: s) u
  | framed {s u : List Byte} (short : announced (SOH :: s) ≤ MAX_PAYLOAD)
    (whole : announced (SOH :: s) + 7 ≤ s.length)
    (rest : Sought (s.drop (announced (SOH :: s) + 7)) u) :
    Sought (SOH :: s) u

theorem Sought.length_le {s u : List Byte} (h : Sought s u) : u.length ≤ s.length := by
  induction h with
  | here => exact le_rfl
  | noise _ _ ih => exact ih.trans (Nat.le_succ _)
  | tooLong _ _ _ ih =>
    rw [List.length_drop] at ih
    exact ih.trans ((Nat.sub_le _ _).trans (Nat.le_succ _))
  | framed _ _ _ ih =>
    rw [List.length_drop] at ih
    exact ih.trans ((Nat.sub_le _ _).trans (Nat.le_succ _))

/-- A frame at SOH, and what its length field says. -/
theorem prefix_frame {p : IncomingPacket} {s : List Byte}
    (h : frame p.cmd p.seq p.payload.bytes <+: SOH :: s) :
    announced (SOH :: s) = p.payload.bytes.length ∧ p.payload.bytes.length + 7 ≤ s.length ∧
      (SOH :: s).take (announced (SOH :: s) + 8) = frame p.cmd p.seq p.payload.bytes := by
  have hlen := length_frame p.cmd p.seq p.payload.bytes
  rw [show OVERHEAD = 8 from rfl] at hlen
  obtain ⟨v, hv⟩ := h
  have hann : announced (SOH :: s) = p.payload.bytes.length := by
    rw [← hv, announced_append (by omega),
      announced_frame (lt_of_le_of_lt p.payload.length_le (show 248 < 65536 by decide))]
  refine ⟨hann, ?_, ?_⟩
  · have hall := congrArg List.length hv
    rw [List.length_append, List.length_cons] at hall
    omega
  · rw [hann, ← hv, List.take_left' hlen]

/-! A frame stands where one is looked for, by the turn that is taken there. -/

section

variable {p : IncomingPacket} {b : Byte} {s : List Byte}

theorem stands_noise (h : b ≠ SOH) :
    (∃ u, Sought (b :: s) u ∧ frame p.cmd p.seq p.payload.bytes <+: u) ↔
      ∃ u, Sought s u ∧ frame p.cmd p.seq p.payload.bytes <+: u := by
  refine ⟨?_, fun ⟨u, hu, hp⟩ => ⟨u, .noise h hu, hp⟩⟩
  rintro ⟨u, hu, hp⟩
  cases hu with
  | here => exact absurd (List.cons_prefix_cons.mp hp).1.symm h
  | noise _ rest => exact ⟨u, rest, hp⟩
  | tooLong => exact absurd rfl h
  | framed => exact absurd rfl h

/-- The turn waits for more than there is. -/
theorem not_stands (h : s.length < 4 ∨
      announced (SOH :: s) ≤ MAX_PAYLOAD ∧ s.length < announced (SOH :: s) + 7) :
    ¬ ∃ u, Sought (SOH :: s) u ∧ frame p.cmd p.seq p.payload.bytes <+: u := by
  rintro ⟨u, hu, hp⟩
  cases hu with
  | here =>
    obtain ⟨hann, hlen, -⟩ := prefix_frame hp
    omega
  | noise h _ => exact h rfl
  | tooLong header long => omega
  | framed short whole => omega

theorem stands_tooLong (header : 4 ≤ s.length) (long : MAX_PAYLOAD < announced (SOH :: s)) :
    (∃ u, Sought (SOH :: s) u ∧ frame p.cmd p.seq p.payload.bytes <+: u) ↔
      ∃ u, Sought (s.drop 4) u ∧ frame p.cmd p.seq p.payload.bytes <+: u := by
  refine ⟨?_, fun ⟨u, hu, hp⟩ => ⟨u, .tooLong header long hu, hp⟩⟩
  rintro ⟨u, hu, hp⟩
  cases hu with
  | here =>
    have hann := (prefix_frame hp).1
    have hle := p.payload.length_le
    omega
  | noise h _ => exact absurd rfl h
  | tooLong _ _ rest => exact ⟨u, rest, hp⟩
  | framed short _ _ => omega

theorem stands_framed (short : announced (SOH :: s) ≤ MAX_PAYLOAD)
    (whole : announced (SOH :: s) + 7 ≤ s.length) :
    (∃ u, Sought (SOH :: s) u ∧ frame p.cmd p.seq p.payload.bytes <+: u) ↔
      decode ((SOH :: s).take (announced (SOH :: s) + 8)) = .ok p ∨
        ∃ u, Sought (s.drop (announced (SOH :: s) + 7)) u ∧
          frame p.cmd p.seq p.payload.bytes <+: u := by
  rw [decode_eq_ok_iff]
  constructor
  · rintro ⟨u, hu, hp⟩
    cases hu with
    | here => exact .inl (prefix_frame hp).2.2
    | noise h _ => exact absurd rfl h
    | tooLong _ long _ => omega
    | framed _ _ rest => exact .inr ⟨u, rest, hp⟩
  · rintro (he | ⟨u, hu, hp⟩)
    · exact ⟨_, .here _, he ▸ List.take_prefix _ _⟩
    · exact ⟨u, .framed short whole hu, hp⟩

end

/-- A packet is received iff its frame stands where one is looked for. -/
theorem mem_packets_iff (r : PacketReassembler) (s : List Byte) (p : IncomingPacket) :
    p ∈ (recvAll r s).packets ↔ ∃ u, Sought s u ∧ frame p.cmd p.seq p.payload.bytes <+: u := by
  induction hn : s.length using Nat.strong_induction_on generalizing r s with
  | _ n ih =>
    cases s with
    | nil =>
      rw [recvAll_turn, turn_nil]
      refine iff_of_false List.not_mem_nil ?_
      rintro ⟨u, hu, hp⟩
      have hle := hp.length_le.trans hu.length_le
      rw [length_frame, List.length_nil] at hle
      exact absurd hle (Nat.not_le.mpr (Nat.succ_pos _))
    | cons b s =>
      rw [List.length_cons] at hn
      by_cases hb : b = SOH
      swap
      · rw [recvAll_turn, turn_noise r hb, stands_noise hb]
        exact ih s.length (by omega) r s rfl
      subst hb
      rcases turn_soh r s with ⟨e, hshort⟩ | ⟨hl, hlong, r', e⟩ | ⟨hl, hle, r', e⟩
      · rw [recvAll_turn, e]
        exact iff_of_false List.not_mem_nil (not_stands hshort)
      · rw [recvAll_turn, e, stands_tooLong hl hlong]
        exact ih (s.drop 4).length (by rw [List.length_drop]; omega) r' _ rfl
      · have hrest :=
          ih (s.drop (announced (SOH :: s) + 7)).length (by rw [List.length_drop]; omega) r' _ rfl
        rw [stands_framed hle hl, ← hrest, recvAll_turn, e]
        cases decode ((SOH :: s).take (announced (SOH :: s) + 8)) with
        | ok q =>
          show p ∈ q :: _ ↔ _
          rw [List.mem_cons, Except.ok.injEq, eq_comm]
        | error err => exact (or_iff_right fun h => by cases h).symm

/-- After a broken frame no packet is looked for where the next one starts: its
first bytes are taken into the broken one. -/
theorem not_sought {g : OutgoingPacket} {t s u : List Byte} (h0 : t ≠ []) (hp : t <+: encoded g)
    (hne : t ≠ encoded g) (hu : Sought (t ++ s) u) : u ≠ s := by
  rw [encoded_eq] at hp hne
  have hfl := length_frame g.cmd g.seq g.payload.bytes
  rw [show OVERHEAD = 8 from rfl] at hfl
  have hlt : t.length < g.payload.bytes.length + 8 := by
    rw [← hfl]
    exact lt_of_le_of_ne hp.length_le fun h => hne (hp.eq_of_length h)
  obtain ⟨t', rfl⟩ : ∃ t', t = SOH :: t' := by
    cases t with
    | nil => exact absurd rfl h0
    | cons b t' => exact ⟨t', by rw [(List.cons_prefix_cons.mp hp).1]⟩
  -- a header that is whole announces the broken frame's payload
  have hann : 4 ≤ t'.length → announced (SOH :: (t' ++ s)) = g.payload.bytes.length := by
    intro h4
    have h5 : 5 ≤ (SOH :: t').length := Nat.succ_le_succ h4
    obtain ⟨v, hv⟩ := hp
    have hg : announced (frame g.cmd g.seq g.payload.bytes) = g.payload.bytes.length :=
      announced_frame (lt_of_le_of_lt g.payload.length_le (show 248 < 65536 by decide))
    rw [← List.cons_append, announced_append h5, ← hg, ← hv, announced_append h5]
  have hle := g.payload.length_le
  rw [List.length_cons] at hlt
  rw [List.cons_append] at hu
  intro he
  cases hu with
  | here =>
    have hlen := congrArg List.length he
    rw [List.length_cons, List.length_append] at hlen
    omega
  | noise h _ => exact h rfl
  | tooLong header long rest =>
    have hdrop := rest.length_le
    rw [he] at hdrop
    rw [List.length_drop, List.length_append] at hdrop
    rw [List.length_append] at header
    by_cases h4 : 4 ≤ t'.length
    · rw [hann h4] at long
      omega
    · omega
  | framed short whole rest =>
    have hdrop := rest.length_le
    rw [he] at hdrop
    rw [List.length_drop, List.length_append] at hdrop
    rw [List.length_append] at whole
    by_cases h4 : 4 ≤ t'.length
    · rw [hann h4] at hdrop whole
      omega
    · omega

/-- The packet sent after a broken frame is received iff its frame stands at
another place of the stream too, where one is looked for. -/
theorem delivers_iff (r : PacketReassembler) (g f : OutgoingPacket) (fs : List OutgoingPacket)
    {t : List Byte} (h0 : t ≠ []) (hp : t <+: encoded g) (hne : t ≠ encoded g) :
    received f ∈ (recvAll r (t ++ (encoded f ++ fs.flatMap encoded))).packets ↔
      ∃ u, Sought (t ++ (encoded f ++ fs.flatMap encoded)) u ∧ u ≠ encoded f ++ fs.flatMap encoded ∧
      encoded f <+: u := by
  rw [mem_packets_iff, encoded_eq f]
  exact exists_congr fun u => and_congr_right
    fun hu => (and_iff_right (not_sought h0 hp hne hu)).symm

/-- A PING without payload. -/
def ping : OutgoingPacket := ⟨0x10, 5, [], Nat.zero_le _⟩

theorem encoded_ping : encoded ping = [0x01, 0x10, 0x05, 0x00, 0x00, 0x74, 0x97, 0x03] := by
  rw [encoded_eq]
  decide +kernel

theorem ping_prefix : [SOH] <+: encoded ping := by
  rw [encoded_ping]
  exact List.cons_prefix_cons.mpr ⟨rfl, List.nil_prefix⟩

theorem ping_ne : [SOH] ≠ encoded ping := by
  rw [encoded_ping]
  decide

/-- A PING that ends as a frame with the bytes that a PING starts with. -/
def pingTwice : OutgoingPacket := ⟨0x10, 3, [0x83, 0x58], by decide⟩

theorem encoded_pingTwice :
    encoded pingTwice = [0x01, 0x10, 0x03, 0x00, 0x02, 0x83, 0x58, 0x01, 0x10, 0x03] := by
  rw [encoded_eq]
  decide +kernel

/-- It is cut off before the CRC and sent again: the two make one frame. -/
theorem delivers_iff_pingTwice :
    received pingTwice ∈
      (recvAll new ([0x01, 0x10, 0x03, 0x00, 0x02, 0x83, 0x58] ++
        (encoded pingTwice ++ [].flatMap encoded))).packets := by
  have hp : [0x01, 0x10, 0x03, 0x00, 0x02, 0x83, 0x58] <+: encoded pingTwice := by
    rw [encoded_pingTwice]
    exact ⟨[0x01, 0x10, 0x03], rfl⟩
  have hne : [0x01, 0x10, 0x03, 0x00, 0x02, 0x83, 0x58] ≠ encoded pingTwice := by
    rw [encoded_pingTwice]
    decide
  refine (delivers_iff new pingTwice pingTwice [] (by decide) hp hne).mpr ⟨_, .here _, ?_, ?_⟩
  · rw [encoded_pingTwice]
    decide
  · rw [encoded_pingTwice]
    exact ⟨[0x00, 0x02, 0x83, 0x58, 0x01, 0x10, 0x03], rfl⟩

/-- A PING cut off after its first byte, and the PING sent again: neither is received. -/
theorem ping_lost : ([SOH] ≠ [] ∧ [SOH] <+: encoded ping ∧ [SOH] ≠ encoded ping) ∧
    (recvAll new ([SOH] ++ encoded ping)).packets = [] := by
  refine ⟨⟨by decide, ping_prefix, ping_ne⟩, ?_⟩
  rw [encoded_ping]
  obtain ⟨r', e⟩ : ∃ r', turn new [0x01, 0x01, 0x10, 0x05, 0x00, 0x00, 0x74, 0x97, 0x03] =
      .ok (.resync .payloadTooLong r' [0x00, 0x74, 0x97, 0x03]) := ⟨_, rfl⟩
  have hn := recvAll_noise r' ⟨[0x00, 0x74, 0x97, 0x03], by decide⟩ []
  have h₀ : recvAll r' [] = ⟨[], [], .pending⟩ := recvAll_turn r' []
  rw [show [SOH] ++ [0x01, 0x10, 0x05, 0x00, 0x00, 0x74, 0x97, 0x03] =
    [0x01, 0x01, 0x10, 0x05, 0x00, 0x00, 0x74, 0x97, 0x03] from rfl, recvAll_turn, e]
  show (recvAll r' [0x00, 0x74, 0x97, 0x03]).packets = []
  rw [show recvAll r' [0x00, 0x74, 0x97, 0x03] = _ from hn, h₀, resync_iterate]

end PacketReassembler

end VintageKvm.Firmware
