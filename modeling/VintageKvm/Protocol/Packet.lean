import VintageKvm.Lib.Buffer
import VintageKvm.Protocol.Crc

/-!
# Wire packets

`SOH | CMD | SEQ | LEN_HI | LEN_LO | PAYLOAD | CRC_HI | CRC_LO | ETX`, the
CRC-16 over `CMD` to the end of the payload. `encode` writes a packet into a
buffer, `decode` takes one apart; both are the crate's functions, index by
index. `frame` is the string of a packet, what the two agree on:

* `encode` writes `frame` at the start of its buffer and nothing else
  (`encode_ok`), or refuses and writes nothing (`encode_err`);
* `decode` accepts exactly the frames (`decode_eq_ok_iff`).
-/

namespace VintageKvm.Protocol

def SOH : Byte := 0x01
def ETX : Byte := 0x03
def HEADER_LEN : Nat := 5
def TRAILER_LEN : Nat := 3
def OVERHEAD : Nat := HEADER_LEN + TRAILER_LEN

/-- The longest payload. -/
def MAX_PAYLOAD : Nat := 256 - OVERHEAD

/-- The longest packet on the wire. -/
def MAX_PACKET : Nat := MAX_PAYLOAD + OVERHEAD

/-- `heapless::Vec<u8, n>`: a byte string within its capacity. -/
structure Vec (n : Nat) where
  bytes : List Byte
  length_le : bytes.length ≤ n
  deriving DecidableEq

/-- `Vec::extend_from_slice` of an empty vector. -/
def Vec.ofSlice {n : Nat} (s : List Byte) : Option (Vec n) :=
  if h : s.length ≤ n then some ⟨s, h⟩ else none

structure IncomingPacket where
  cmd : Byte
  seq : Byte
  payload : Vec MAX_PAYLOAD
  deriving DecidableEq

structure OutgoingPacket where
  cmd : Byte
  seq : Byte
  payload : Vec MAX_PAYLOAD
  deriving DecidableEq

/-- `OutgoingPacket::new`. -/
def OutgoingPacket.new (cmd seq : Byte) (payloadSlice : List Byte) : Option OutgoingPacket :=
  if payloadSlice.length > MAX_PAYLOAD then none
  else (Vec.ofSlice payloadSlice).map (⟨cmd, seq, ·⟩)

theorem payload_length_le {buf : List Byte} {n : Nat} (h : ¬ n > MAX_PAYLOAD) :
    ((buf.take (5 + n)).drop 5).length ≤ MAX_PAYLOAD := by
  rw [List.length_drop, List.length_take]
  omega

theorem etxOff_lt {buf : List Byte} {n : Nat} (h : ¬ buf.length ≠ n + OVERHEAD) :
    HEADER_LEN + n + 2 < buf.length := by
  rw [Decidable.not_not.mp h]
  simp only [OVERHEAD, HEADER_LEN, TRAILER_LEN]
  omega

inductive DecodeError where
  | tooShort | badSoh | badLen | badEtx | badCrc | payloadOverflow
  deriving DecidableEq

inductive EncodeError where
  | payloadOverflow | outputTooSmall
  deriving DecidableEq

/-- `decode`: every index is in range where it is used. -/
def decode (buf : List Byte) : Except DecodeError IncomingPacket :=
  if h8 : buf.length < OVERHEAD then .error .tooShort
  else
    have h8 : 8 ≤ buf.length := Nat.le_of_not_lt h8
    if buf[0] ≠ SOH then .error .badSoh
    else
      let payloadLen := (ofBytes buf[3] buf[4]).toNat
      if hm : payloadLen > MAX_PAYLOAD then .error .payloadOverflow
      else if hl : buf.length ≠ payloadLen + OVERHEAD then .error .badLen
      else
        let etxOff := HEADER_LEN + payloadLen + 2
        have hl : etxOff < buf.length := etxOff_lt hl
        if buf[etxOff] ≠ ETX then .error .badEtx
        else
          let crcStart := 1
          let crcEnd := HEADER_LEN + payloadLen
          have : crcEnd + 1 < buf.length := Nat.lt_of_succ_lt hl
          have : crcEnd < buf.length := Nat.lt_of_succ_lt this
          let computed := crc16 ((buf.take crcEnd).drop crcStart)
          let onWire := ofBytes buf[crcEnd] buf[crcEnd + 1]
          if computed ≠ onWire then .error .badCrc
          else .ok ⟨buf[1], buf[2], (buf.take (HEADER_LEN + payloadLen)).drop HEADER_LEN,
            payload_length_le hm⟩

/-- `encode`: the result and the buffer after it. -/
def encode (cmd seq : Byte) (payload out : List Byte) : Except EncodeError Nat × List Byte :=
  if payload.length > MAX_PAYLOAD then (.error .payloadOverflow, out)
  else
    let total := payload.length + OVERHEAD
    if out.length < total then (.error .outputTooSmall, out)
    else
      let out := out.set 0 SOH
      let out := out.set 1 cmd
      let out := out.set 2 seq
      let lenBe := BitVec.ofNat 16 payload.length
      let out := out.set 3 (hi lenBe)
      let out := out.set 4 (lo lenBe)
      let out := splice out HEADER_LEN payload
      let crcStart := 1
      let crcEnd := HEADER_LEN + payload.length
      let crc := crc16 ((out.take crcEnd).drop crcStart)
      let out := out.set crcEnd (hi crc)
      let out := out.set (crcEnd + 1) (lo crc)
      let out := out.set (crcEnd + 2) ETX
      (.ok total, out)

/-! ## The frame of a packet -/

/-- What the CRC is over: `CMD` to the end of the payload. -/
def body (cmd seq : Byte) (payload : List Byte) : List Byte :=
  cmd :: seq :: be16 (BitVec.ofNat 16 payload.length) ++ payload

/-- The string of a packet. -/
def frame (cmd seq : Byte) (payload : List Byte) : List Byte :=
  SOH :: body cmd seq payload ++ be16 (crc16 (body cmd seq payload)) ++ [ETX]

@[simp] theorem length_body (cmd seq : Byte) (payload : List Byte) :
    (body cmd seq payload).length = payload.length + 4 := by
  simp only [body, List.length_append, List.length_cons, length_be16]
  omega

@[simp] theorem length_frame (cmd seq : Byte) (payload : List Byte) :
    (frame cmd seq payload).length = payload.length + OVERHEAD := by
  simp only [frame, List.length_append, List.length_cons, length_body, length_be16, List.length_nil,
    OVERHEAD, HEADER_LEN, TRAILER_LEN]

/-- `encode` with room writes the frame at the start of its buffer. -/
theorem encode_ok {payload out : List Byte} (cmd seq : Byte) (hp : payload.length ≤ MAX_PAYLOAD)
    (ho : payload.length + OVERHEAD ≤ out.length) :
    encode cmd seq payload out =
      (.ok (payload.length + OVERHEAD), splice out 0 (frame cmd seq payload)) := by
  rw [encode, if_neg (Nat.not_lt.mpr hp), if_neg (Nat.not_lt.mpr ho)]
  simp only [OVERHEAD, HEADER_LEN, TRAILER_LEN] at ho
  have hhead :
    ((((out.set 0 SOH).set 1 cmd).set 2 seq).set 3 (hi (BitVec.ofNat 16 payload.length))).set 4
      (lo (BitVec.ofNat 16 payload.length)) =
      splice out 0 (SOH :: cmd :: seq :: be16 (BitVec.ofNat 16 payload.length)) := by
    rw [set_eq_splice out SOH (show 0 < out.length by omega),
      set_splice cmd (show 0 + [SOH].length = 1 from rfl) (by omega),
      set_splice seq (show 0 + ([SOH] ++ [cmd]).length = 2 from rfl) (by omega),
      set_splice _ (show 0 + ([SOH] ++ [cmd] ++ [seq]).length = 3 from rfl) (by omega)]
    exact set_splice _ rfl (show 4 < out.length by omega)
  have hbody : splice (splice out 0 (SOH :: cmd :: seq :: be16 (BitVec.ofNat 16 payload.length)))
      HEADER_LEN payload = splice out 0 (SOH :: body cmd seq payload) :=
    splice_splice rfl (by simp only [HEADER_LEN]; omega)
  have hlen : (SOH :: body cmd seq payload).length = HEADER_LEN + payload.length := by
    simp only [List.length_cons, length_body, HEADER_LEN]
    omega
  have hcrc :
    ((splice out 0 (SOH :: body cmd seq payload)).take (HEADER_LEN + payload.length)).drop 1 =
      body cmd seq payload := by
    rw [splice_zero, List.take_left' hlen, List.drop_one, List.tail_cons]
  simp only [hhead, hbody, hcrc]
  rw [set_splice _ (by omega) (by simp only [HEADER_LEN]; omega),
    set_splice _ (by simp only [List.length_append, List.length_singleton]; omega)
      (by simp only [HEADER_LEN]; omega),
    set_splice _ (by simp only [List.length_append, List.length_singleton]; omega)
      (by simp only [HEADER_LEN]; omega)]
  simp only [frame, be16, List.append_assoc, List.cons_append, List.nil_append]

/-- `encode` refuses a payload that is too long, or a buffer too short for
the frame, and then leaves the buffer as it was. -/
theorem encode_err {payload out : List Byte} (cmd seq : Byte)
    (h : ¬ (payload.length ≤ MAX_PAYLOAD ∧ payload.length + OVERHEAD ≤ out.length)) :
    ∃ e, encode cmd seq payload out = (.error e, out) := by
  by_cases hp : payload.length > MAX_PAYLOAD
  · exact ⟨_, by rw [encode, if_pos hp]⟩
  · have ho : out.length < payload.length + OVERHEAD :=
      Nat.lt_of_not_le fun ho => h ⟨Nat.le_of_not_lt hp, ho⟩
    exact ⟨.outputTooSmall, by rw [encode, if_neg hp]; exact if_pos ho⟩

/-! ## What `decode` accepts -/

/-- A string of a header, `n` more bytes and a trailer, taken apart. -/
theorem exists_parts {buf : List Byte} {n : Nat} (h : buf.length = n + OVERHEAD) :
    ∃ b₀ b₁ b₂ b₃ b₄ payload c d e, payload.length = n ∧
      buf = b₀ :: b₁ :: b₂ :: b₃ :: b₄ :: (payload ++ [c, d, e]) := by
  simp only [OVERHEAD, HEADER_LEN, TRAILER_LEN] at h
  obtain ⟨b₀, b₁, b₂, b₃, b₄, rest, rfl⟩ : ∃ b₀ b₁ b₂ b₃ b₄ rest,
      buf = b₀ :: b₁ :: b₂ :: b₃ :: b₄ :: rest := by
    match buf, h with
    | b₀ :: b₁ :: b₂ :: b₃ :: b₄ :: rest, _ => exact ⟨b₀, b₁, b₂, b₃, b₄, rest, rfl⟩
  have hr : (rest.drop n).length = 3 := by
    simp only [List.length_cons] at h
    rw [List.length_drop]
    omega
  obtain ⟨c, d, e, ht⟩ := List.length_eq_three.mp hr
  refine ⟨b₀, b₁, b₂, b₃, b₄, rest.take n, c, d, e, ?_, by rw [← ht, List.take_append_drop]⟩
  simp only [List.length_cons] at h
  rw [List.length_take]
  omega

/-- `decode` of a string whose length field is right. -/
theorem decode_parts {b₀ b₁ b₂ b₃ b₄ c d e : Byte} {payload : List Byte}
    (hn : payload.length = (ofBytes b₃ b₄).toNat) (hp : payload.length ≤ MAX_PAYLOAD) :
    decode (b₀ :: b₁ :: b₂ :: b₃ :: b₄ :: (payload ++ [c, d, e])) =
      if b₀ ≠ SOH then .error .badSoh
      else if e ≠ ETX then .error .badEtx
      else if crc16 (b₁ :: b₂ :: b₃ :: b₄ :: payload) ≠ ofBytes c d then .error .badCrc
      else .ok ⟨b₁, b₂, payload, hp⟩ := by
  generalize hL : b₀ :: b₁ :: b₂ :: b₃ :: b₄ :: (payload ++ [c, d, e]) = buf
  have hl : buf.length = payload.length + 8 := by
    simp only [← hL, List.length_cons, List.length_append, List.length_nil]
  have hget : ∀ i, buf[HEADER_LEN + payload.length + i]? = [c, d, e][i]? := by
    intro i
    rw [show HEADER_LEN + payload.length + i = payload.length + i + 5 by
      simp only [HEADER_LEN]; omega]
    simp only [← hL, List.getElem?_cons_succ]
    rw [List.getElem?_append_right (Nat.le_add_right ..), Nat.add_sub_cancel_left]
  obtain ⟨_, hc⟩ := List.getElem?_eq_some_iff.mp (hget 0)
  obtain ⟨_, hd⟩ := List.getElem?_eq_some_iff.mp (hget 1)
  obtain ⟨_, he⟩ := List.getElem?_eq_some_iff.mp (hget 2)
  have ht : buf.take (HEADER_LEN + payload.length) = b₀ :: b₁ :: b₂ :: b₃ :: b₄ :: payload := by
    rw [← hL, HEADER_LEN, Nat.add_comm]
    simp only [List.take_succ_cons, List.take_left]
  simp only [Nat.add_zero] at hc
  have h₀ : buf[0] = b₀ := by simp only [← hL, List.getElem_cons_zero]
  have h₁ : buf[1] = b₁ := by simp only [← hL, List.getElem_cons_zero, List.getElem_cons_succ]
  have h₂ : buf[2] = b₂ := by simp only [← hL, List.getElem_cons_zero, List.getElem_cons_succ]
  have h₃ : buf[3] = b₃ := by simp only [← hL, List.getElem_cons_zero, List.getElem_cons_succ]
  have h₄ : buf[4] = b₄ := by simp only [← hL, List.getElem_cons_zero, List.getElem_cons_succ]
  rw [decode, dif_neg (by rw [hl]; simp only [OVERHEAD, HEADER_LEN, TRAILER_LEN]; omega)]
  simp only [h₀, h₁, h₂, h₃, h₄, ← hn, hc, hd, he, ht]
  rw [dif_neg (Nat.not_lt.mpr hp),
    dif_neg (by simp only [hl, OVERHEAD, HEADER_LEN, TRAILER_LEN]; omega)]
  rfl

/-- The length field of a frame. -/
theorem length_field {payload : List Byte} (hp : payload.length ≤ MAX_PAYLOAD) :
    (ofBytes (hi (BitVec.ofNat 16 payload.length)) (lo (BitVec.ofNat 16 payload.length))).toNat =
      payload.length := by
  rw [ofBytes_hi_lo, toNat_ofNat16]
  simp only [MAX_PAYLOAD, OVERHEAD, HEADER_LEN, TRAILER_LEN] at hp
  omega

/-- `decode` takes a frame apart. -/
theorem decode_frame (cmd seq : Byte) {payload : List Byte} (hp : payload.length ≤ MAX_PAYLOAD) :
    decode (frame cmd seq payload) = .ok ⟨cmd, seq, payload, hp⟩ := by
  have hf : frame cmd seq payload = SOH :: cmd :: seq :: hi (BitVec.ofNat 16 payload.length) ::
      lo (BitVec.ofNat 16 payload.length) :: (payload ++ [hi (crc16 (body cmd seq payload)),
        lo (crc16 (body cmd seq payload)), ETX]) := by
    simp only [frame, body, be16, List.append_assoc, List.cons_append, List.nil_append]
  have hcrc : crc16 (cmd :: seq :: hi (BitVec.ofNat 16 payload.length) ::
      lo (BitVec.ofNat 16 payload.length) :: payload) = crc16 (body cmd seq payload) := rfl
  rw [hf, decode_parts (length_field hp).symm hp, if_neg (not_not.mpr rfl),
    if_neg (not_not.mpr rfl), ofBytes_hi_lo, if_neg (not_not.mpr hcrc)]

/-- The length field of what `decode` accepts is right. -/
theorem length_of_decode {buf : List Byte} {p : IncomingPacket} (h : decode buf = .ok p) :
    ∃ _ : 8 ≤ buf.length, (ofBytes buf[3] buf[4]).toNat ≤ MAX_PAYLOAD ∧
      buf.length = (ofBytes buf[3] buf[4]).toNat + OVERHEAD := by
  rw [decode] at h
  split at h <;> [cases h; rename_i h8]
  dsimp only at h
  split at h <;> [cases h; skip]
  split at h <;> [cases h; rename_i hm]
  split at h <;> [cases h; rename_i hl]
  exact ⟨Nat.le_of_not_lt h8, Nat.le_of_not_lt hm, not_not.mp hl⟩

/-- `decode` accepts frames only, and returns what they carry. -/
theorem eq_frame_of_decode {buf : List Byte} {p : IncomingPacket} (h : decode buf = .ok p) :
    buf = frame p.cmd p.seq p.payload.bytes := by
  obtain ⟨h8, hm, hl⟩ := length_of_decode h
  obtain ⟨b₀, b₁, b₂, b₃, b₄, payload, c, d, e, hn, rfl⟩ := exists_parts hl
  replace hn : payload.length = (ofBytes b₃ b₄).toNat := hn
  rw [decode_parts hn (hn ▸ hm)] at h
  split at h <;> [cases h; rename_i hsoh]
  split at h <;> [cases h; rename_i hetx]
  split at h <;> [cases h; rename_i hcrc]
  cases h
  have hlen : be16 (BitVec.ofNat 16 payload.length) = [b₃, b₄] := by
    rw [hn, BitVec.ofNat_toNat, BitVec.setWidth_eq, be16, hi_ofBytes, lo_ofBytes]
  have hbody : body b₁ b₂ payload = b₁ :: b₂ :: b₃ :: b₄ :: payload := by
    rw [body, hlen]
    rfl
  simp only [frame, hbody, not_not.mp hsoh, not_not.mp hetx, not_not.mp hcrc, be16, hi_ofBytes,
    lo_ofBytes, List.cons_append, List.append_assoc, List.nil_append]

/-- `decode` accepts exactly the frames of packets. -/
theorem decode_eq_ok_iff (buf : List Byte) (p : IncomingPacket) :
    decode buf = .ok p ↔ buf = frame p.cmd p.seq p.payload.bytes := by
  refine ⟨eq_frame_of_decode, ?_⟩
  rintro rfl
  exact decode_frame p.cmd p.seq p.payload.length_le

/-! ## The length field -/

/-- The payload length a packet's header announces. -/
def announced (bs : List Byte) : Nat := (bs.getD 3 0).toNat * 256 + (bs.getD 4 0).toNat

theorem announced_append {h t : List Byte} (hl : 5 ≤ h.length) :
    announced (h ++ t) = announced h := by
  simp only [announced, List.getD_eq_getElem?_getD,
    List.getElem?_append_left (show 3 < h.length by omega),
    List.getElem?_append_left (show 4 < h.length by omega)]

theorem announced_frame {cmd seq : Byte} {payload : List Byte} (hp : payload.length < 65536) :
    announced (frame cmd seq payload) = payload.length := by
  have hh := toNat_hi (BitVec.ofNat 16 payload.length)
  have hl := toNat_lo (BitVec.ofNat 16 payload.length)
  rw [toNat_ofNat16 hp] at hh hl
  simp only [announced, frame, body, be16, List.cons_append, List.nil_append, List.getD_cons_succ,
    List.getD_cons_zero]
  rw [hh, hl]
  omega

theorem announced_lt (bs : List Byte) : announced bs < 65536 := by
  have := (bs.getD 3 0).isLt
  have := (bs.getD 4 0).isLt
  rw [announced]
  omega

/-! ## The codec -/

/-- `encode` succeeds exactly when payload and buffer fit. -/
theorem encode_cases (cmd seq : Byte) (payload out : List Byte) :
    (payload.length ≤ MAX_PAYLOAD ∧ payload.length + OVERHEAD ≤ out.length ∧
      encode cmd seq payload out = (.ok (payload.length + OVERHEAD),
        splice out 0 (frame cmd seq payload))) ∨
    ((MAX_PAYLOAD < payload.length ∨ out.length < payload.length + OVERHEAD) ∧
      ∃ e, encode cmd seq payload out = (.error e, out)) := by
  by_cases h : payload.length ≤ MAX_PAYLOAD ∧ payload.length + OVERHEAD ≤ out.length
  · exact .inl ⟨h.1, h.2, encode_ok cmd seq h.1 h.2⟩
  · exact .inr ⟨by omega, encode_err cmd seq h⟩

/-- A string is the frame of a packet exactly when `encode` writes it. -/
theorem eq_frame_iff_encode (buf : List Byte) (cmd seq : Byte) {payload : List Byte}
    (hp : payload.length ≤ MAX_PAYLOAD) : buf = frame cmd seq payload ↔
      ∀ out : List Byte, buf.length ≤ out.length →
        encode cmd seq payload out = (.ok buf.length, buf ++ out.drop buf.length) := by
  constructor
  · rintro rfl out ho
    rw [length_frame] at ho ⊢
    rw [encode_ok cmd seq hp ho, splice_zero, length_frame]
  · intro h
    have he := h buf le_rfl
    rcases encode_cases cmd seq payload buf with ⟨-, -, hok⟩ | ⟨-, e, herr⟩
    · rw [hok, splice_zero, Prod.mk.injEq, Except.ok.injEq] at he
      exact (List.append_inj_left he.2 (by rw [length_frame, he.1])).symm
    · rw [herr, Prod.mk.injEq] at he
      cases he.1

/-- The wire codec: `decode` accepts exactly what `encode` writes and gives
back what it was written from; `encode` fails exactly when the payload or the
buffer does not fit, then writes nothing, and never writes past the length it
returns. -/
theorem codec_exact :
    (∀ (buf : List Byte) (p : IncomingPacket), decode buf = .ok p ↔
      ∀ out : List Byte, buf.length ≤ out.length →
        encode p.cmd p.seq p.payload.bytes out = (.ok buf.length, buf ++ out.drop buf.length)) ∧
    (∀ (c s : Byte) (pl out : List Byte) (h : pl.length ≤ MAX_PAYLOAD),
      pl.length + OVERHEAD ≤ out.length → (encode c s pl out).1 = .ok (pl.length + OVERHEAD) ∧
      decode ((encode c s pl out).2.take (pl.length + OVERHEAD)) = .ok ⟨c, s, pl, h⟩) ∧
    (∀ (c s : Byte) (pl out : List Byte), (∃ e, (encode c s pl out).1 = .error e) ↔
      MAX_PAYLOAD < pl.length ∨ out.length < pl.length + OVERHEAD) ∧
    (∀ (c s : Byte) (pl out : List Byte) (e : EncodeError),
      (encode c s pl out).1 = .error e → (encode c s pl out).2 = out) ∧
    (∀ (c s : Byte) (pl out : List Byte) (n : Nat), (encode c s pl out).1 = .ok n →
      (encode c s pl out).2.length = out.length ∧ (encode c s pl out).2.drop n = out.drop n) := by
  refine ⟨fun buf p => ?_, fun c s pl out hp ho => ?_, fun c s pl out => ?_,
    fun c s pl out e h => ?_, fun c s pl out n h => ?_⟩
  · rw [decode_eq_ok_iff]
    exact eq_frame_iff_encode buf p.cmd p.seq p.payload.length_le
  · rw [encode_ok c s hp ho, splice_zero, List.take_left' (length_frame c s pl)]
    exact ⟨rfl, decode_frame c s hp⟩
  · rcases encode_cases c s pl out with ⟨hp, ho, hok⟩ | ⟨hbad, e, herr⟩
    · rw [hok]
      exact ⟨fun ⟨_, h⟩ => (nomatch h), fun h => absurd h (by omega)⟩
    · rw [herr]
      exact ⟨fun _ => hbad, fun _ => ⟨e, rfl⟩⟩
  · rcases encode_cases c s pl out with ⟨-, -, hok⟩ | ⟨-, e', herr⟩
    · rw [hok] at h
      cases h
    · rw [herr]
  · rcases encode_cases c s pl out with ⟨-, ho, hok⟩ | ⟨-, e', herr⟩
    · rw [hok] at h ⊢
      cases h
      have hl := length_frame c s pl
      refine ⟨length_splice (by omega), ?_⟩
      rw [splice_zero, List.drop_left' hl, hl]
    · rw [herr] at h
      cases h

end VintageKvm.Protocol
