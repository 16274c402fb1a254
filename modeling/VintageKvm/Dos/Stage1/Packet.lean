import VintageKvm.Dos.Stage1.Layout
import VintageKvm.Protocol.Packet

/-!
# Stage 1: packets

`crc16_ccitt`, `packet_encode` and `packet_validate`. The CRC is the one of
the wire protocol (`crc16Ccitt_ok`), and `packet_encode` leaves in its buffer
the frame of the packet (`packetEncode_ok`). Its count in CX is not the
length of that frame: the CRC keeps its bit counter in BL, where
`packet_encode` keeps the low byte of the payload's length.
-/

namespace VintageKvm.Stage1

open I8086 Machine Protocol

variable {δ ι : Type}

/-! ## CRC-16 -/

/-- One turn of `crc16_ccitt.bit_loop`. -/
def crc16Bit (m : Machine δ ι) : Machine δ ι :=
  m |>.test (·.dx) (imm 0x8000)
    |>.jz (·.shl1 .dx) (fun m => m |>.shl1 .dx |>.xorw .dx (imm 0x1021))
    |>.decb .bl

/-- One turn of `crc16_ccitt.byte_loop`. -/
def crc16Byte (m : Machine δ ι) : Machine δ ι :=
  m.lodsb |>.xorb .dh (·.reg8 .al) |>.movb .bl (imm 8) |>.loopNz crc16Bit

/-- `crc16_ccitt`. -/
def crc16Ccitt (m : Machine δ ι) : Machine δ ι :=
  m |>.mov .dx (imm 0xFFFF) |>.whileCx crc16Byte |>.mov .ax (·.dx)

theorem crc16Bit_ok (m : Machine δ ι) : crc16Bit m = { m with
    dx := Crc16.bitStep m.dx, bx := ofBytes (hi m.bx) (lo m.bx - 1), cf := false,
    zf := lo m.bx - 1 = 0 } := by
  by_cases h : m.dx &&& 0x8000 = 0
  · have hm : m.dx.msb = false := by
      have := congrArg (fun w : Word => w.getLsbD 15) h
      simpa [BitVec.msb_eq_getLsbD_last] using this
    simp only [crc16Bit, test, jz, imm, h, decide_true, if_true, shl1, decb, reg, setReg,
      reg8, setReg8, Crc16.bitStep, ne_eq, not_true, if_false, hm]
  · simp only [crc16Bit, test, jz, imm, h, decide_false, Bool.false_eq_true, if_false, shl1, xorw,
      decb, reg, setReg, reg8, setReg8, Crc16.bitStep, Crc16.POLY, ne_eq,
      not_false_eq_true, if_true]

theorem crc16Byte_ok (m : Machine δ ι) : crc16Byte m = { m with
    ax := ofBytes (hi m.ax) (m.mem m.si), si := m.si + 1, dx := Crc16.byteStep m.dx (m.mem m.si)
    bx := ofBytes (hi m.bx) 0, cf := false, zf := true } := by
  let I : Nat → Machine δ ι → Prop := fun k m' => k ≤ 8 ∧ ∃ c z, m' = { m with
      ax := ofBytes (hi m.ax) (m.mem m.si), si := m.si + 1
      dx := Crc16.bitStep^[8 - k] (m.dx ^^^ ((m.mem m.si).setWidth 16 <<< 8))
      bx := ofBytes (hi m.bx) (BitVec.ofNat 8 k), cf := c, zf := z } ∧
    (k = 0 → c = false ∧ z = true)
  have hstep : ∀ k m, I (k + 1) m → I k (crc16Bit m) ∧ ((crc16Bit m).zf = true ↔ k = 0) := by
    rintro k m' ⟨hk, c, z, hm, -⟩
    rw [crc16Bit_ok, hm]
    have hb : lo (ofBytes (hi m.bx) (BitVec.ofNat 8 (k + 1))) - 1 = BitVec.ofNat 8 k := by
      rw [lo_ofBytes, BitVec.ofNat_add]
      exact BitVec.add_sub_cancel _ _
    have hz : BitVec.ofNat 8 k = 0 ↔ k = 0 := by
      rw [← BitVec.toNat_inj, BitVec.toNat_ofNat]
      show k % 256 = 0 ↔ k = 0
      omega
    simp only [hb, hi_ofBytes]
    refine ⟨⟨by omega, false, decide (BitVec.ofNat 8 k = 0), ?_, fun h => ⟨rfl, ?_⟩⟩, ?_⟩
    · rw [show 8 - k = (8 - (k + 1)) + 1 by omega, Function.iterate_succ_apply']
    · exact decide_eq_true (hz.mpr h)
    · exact decide_eq_true_iff.trans hz
  have h0 : I 8 (m.lodsb |>.xorb .dh (·.reg8 .al) |>.movb .bl (imm 8)) := by
    simp only [lodsb, xorb, movb, imm, reg8, setReg8, lo_ofBytes, ofBytes_xor_hi]
    exact ⟨le_rfl, _, _, rfl, fun h => absurd h (by decide)⟩
  obtain ⟨-, c, z, h, hcz⟩ := loopNz_rule I hstep (by decide) (by decide) h0
  obtain ⟨rfl, rfl⟩ := hcz rfl
  rw [crc16Byte, h]
  rfl

theorem crc16Ccitt_turns (m : Machine δ ι) {n : Nat} (h0 : 0 < n) (hn : n < 65536)
    (hcx : m.cx = BitVec.ofNat 16 n) : crc16Ccitt m = { m with
      ax := crc16 (m.mem.bytes m.si n), bx := ofBytes (hi m.bx) 0, cx := 0,
      dx := crc16 (m.mem.bytes m.si n)
      si := m.si + BitVec.ofNat 16 n, cf := false, zf := true } := by
  let I : Nat → Machine δ ι → Prop := fun k m' => k ≤ n ∧ ∃ a b c z, m' = { m with
      ax := a, bx := b, cx := BitVec.ofNat 16 k, dx := crc16 (m.mem.bytes m.si (n - k))
      si := m.si + BitVec.ofNat 16 (n - k), cf := c, zf := z } ∧
    hi b = hi m.bx ∧ (k < n → lo b = 0 ∧ c = false ∧ z = decide (BitVec.ofNat 16 k = 0))
  have hbody : ∀ k m', I (k + 1) m' → m'.cx = BitVec.ofNat 16 (k + 1) →
      (crc16Byte m').cx = m'.cx ∧ I k ((crc16Byte m').dec .cx) := by
    rintro k m' ⟨hk, a, b, c, z, hm, hb, -⟩ -
    rw [crc16Byte_ok, hm]
    refine ⟨rfl, Nat.le_of_succ_le hk,
      ofBytes (hi a) (m.mem (m.si + BitVec.ofNat 16 (n - (k + 1)))),
      ofBytes (hi b) 0, false, decide (BitVec.ofNat 16 k = 0), ?_, (hi_ofBytes _ _).trans hb,
      fun _ => ⟨lo_ofBytes _ _, rfl, rfl⟩⟩
    simp only [dec, reg, setReg, ofNat_succ_sub_one,
      show n - k = n - (k + 1) + 1 by omega, Mem.bytes_succ, crc16_concat, add_ofNat_add_one]
  have hI : I n (m.mov .dx (imm 0xFFFF)) := by
    refine ⟨le_rfl, m.ax, m.bx, m.cf, m.zf, ?_, rfl, fun h => absurd h (lt_irrefl _)⟩
    rw [Nat.sub_self, ← hcx, show m.si + BitVec.ofNat 16 0 = m.si from BitVec.add_zero _]
    rfl
  obtain ⟨⟨-, a, b, c, z, e, hb, h⟩, -⟩ := whileCx_rule I hbody hn hI hcx
  obtain ⟨hlo, rfl, rfl⟩ := h h0
  have hbx : b = ofBytes (hi m.bx) 0 := by rw [← hb, ← hlo, ofBytes_hi_lo]
  rw [crc16Ccitt, e, hbx, Nat.sub_zero]
  rfl

/-- `crc16_ccitt` over the CX bytes at DS:SI. BL is its bit counter, left at
zero. -/
theorem crc16Ccitt_ok (m : Machine δ ι) (h : m.cx ≠ 0) :
    crc16Ccitt m = { m with
      ax := crc16 (m.mem.bytes m.si m.cx.toNat), bx := ofBytes (hi m.bx) 0, cx := 0
      dx := crc16 (m.mem.bytes m.si m.cx.toNat), si := m.si + m.cx, cf := false, zf := true } := by
  have hcx : m.cx = BitVec.ofNat 16 m.cx.toNat := by rw [BitVec.ofNat_toNat, BitVec.setWidth_eq]
  have h0 : 0 < m.cx.toNat := Nat.pos_of_ne_zero fun h0 => h (BitVec.eq_of_toNat_eq h0)
  rw [crc16Ccitt_turns m h0 m.cx.isLt hcx, ← hcx]

/-- `crc16_ccitt` over any number of bytes. -/
theorem crc16Ccitt_bytes (m : Machine δ ι) : ∃ b s c z, crc16Ccitt m = { m with
    ax := crc16 (m.mem.bytes m.si m.cx.toNat), bx := b, cx := 0
    dx := crc16 (m.mem.bytes m.si m.cx.toNat), si := s, cf := c, zf := z } := by
  by_cases h : m.cx = 0
  · let m₀ : Machine δ ι := m.mov .dx (imm 0xFFFF)
    let I : Nat → Machine δ ι → Prop := fun k m' => k = 0 ∧ m' = m₀
    have hbody : ∀ k m', I (k + 1) m' → m'.cx = BitVec.ofNat 16 (k + 1) →
        (crc16Byte m').cx = m'.cx ∧ I k ((crc16Byte m').dec .cx) :=
          fun k m' h _ => absurd h.1 (Nat.succ_ne_zero k)
    have hI : I 0 m₀ := ⟨rfl, rfl⟩
    obtain ⟨⟨-, e⟩, -⟩ := whileCx_rule I hbody (by decide) hI h
    refine ⟨m.bx, m.si, m.cf, m.zf, ?_⟩
    have hnil : m.mem.bytes m.si m.cx.toNat = [] := by rw [h]; rfl
    have hcrc : crc16 [] = 0xFFFF := rfl
    rw [crc16Ccitt, e, hnil, hcrc]
    simp only [m₀, mov, setReg, imm, ← h]
  · exact ⟨_, _, _, _, crc16Ccitt_ok m h⟩

/-! ## `packet_encode` -/

/-- `packet_encode`. -/
def packetEncode (m : Machine δ ι) : Machine δ ι :=
  m |>.push (·.si) |>.mov .bx (·.cx)
    |>.mov .di (imm TX_BUF_OFF) |>.stb (·.di) (imm SOH) |>.inc .di
    |>.stb (·.di) (·.reg8 .al) |>.inc .di
    |>.movb .al (·.byte txSeq) |>.stb (·.di) (·.reg8 .al) |>.incMemb txSeq |>.inc .di
    |>.stb (·.di) (·.reg8 .bh) |>.inc .di |>.stb (·.di) (·.reg8 .bl) |>.inc .di
    |>.jcxz id (·.repMovsb)
    |>.mov .si (imm (TX_BUF_OFF + 1)) |>.mov .cx (·.bx) |>.add .cx (imm 4) |> crc16Ccitt
    |>.stb (·.di) (·.reg8 .ah) |>.inc .di |>.stb (·.di) (·.reg8 .al) |>.inc .di
    |>.stb (·.di) (imm ETX)
    |>.mov .cx (·.bx) |>.add .cx (imm PACKET_OVERHEAD) |>.pop .si

/-- The payload at DS:SI lies apart from what `packet_encode` writes. -/
def PayloadApart (m : Machine δ ι) : Prop :=
  Region.Apart ⟨m.si, m.cx.toNat⟩ ⟨TX_BUF_OFF, m.cx.toNat + 8⟩ ∧
    ¬ (⟨m.si, m.cx.toNat⟩ : Region).Has txSeq

theorem payloadApart_of_eq {m : Machine δ ι} (a n : Word) (hsi : m.si = a) (hcx : m.cx = n)
    (h : Region.Apart ⟨a, n.toNat⟩ ⟨TX_BUF_OFF, n.toNat + 8⟩)
    (hs : ¬ (⟨a, n.toNat⟩ : Region).Has txSeq) :
    PayloadApart m := by
  subst hsi hcx
  exact ⟨h, hs⟩

/-- The header `packet_encode` writes. -/
theorem encodeHeader_mem (mem : Mem) (cmd : Byte) (len : Word) :
    ((((((mem.set TX_BUF_OFF SOH).set (TX_BUF_OFF + 1) cmd).set
      (TX_BUF_OFF + 1 + 1) (mem txSeq)).set txSeq
      (mem txSeq + 1)).set (TX_BUF_OFF + 1 + 1 + 1) (hi len)).set
        (TX_BUF_OFF + 1 + 1 + 1 + 1) (lo len)) =
    (mem.set txSeq (mem txSeq + 1)).store TX_BUF_OFF [SOH, cmd, mem txSeq, hi len, lo len] := by
  have h : ((mem.set TX_BUF_OFF SOH).set (TX_BUF_OFF + 1) cmd).set
    (TX_BUF_OFF + 1 + 1) (mem txSeq) =
      mem.store TX_BUF_OFF [SOH, cmd, mem txSeq] := rfl
  have hc : (mem.store TX_BUF_OFF [SOH, cmd, mem txSeq]).set txSeq (mem txSeq + 1) =
      (mem.set txSeq (mem txSeq + 1)).store TX_BUF_OFF [SOH, cmd, mem txSeq] :=
    Mem.store_set_comm _ _ (show 3 ≤ 65536 by decide)
      (show ¬ (⟨TX_BUF_OFF, 3⟩ : Region).Has txSeq by decide)
  rw [h, hc]
  rfl

/-- What the CRC is taken over, and where. -/
theorem cons_body_eq {cmd seq : Byte} {payload : List Byte} {len : Word}
    (h : payload.length = len.toNat) :
    SOH :: body cmd seq payload = [SOH, cmd, seq, hi len, lo len] ++ payload := by
  rw [body, h, BitVec.ofNat_toNat, BitVec.setWidth_eq]
  rfl

/-- The body of a frame stored at `a`. -/
theorem bytes_store_body (mem : Mem) (a : Word) (cmd seq : Byte) {payload : List Byte} {n : Nat}
    (hn : payload.length = n) (hle : n ≤ MAX_PAYLOAD) :
    (mem.store a (SOH :: body cmd seq payload)).bytes (a + 1) (n + 4) = body cmd seq payload := by
  rw [Mem.store, show n + 4 = (body cmd seq payload).length by rw [length_body, hn]]
  refine Mem.bytes_store _ _ _ ?_
  rw [length_body, hn]
  exact le_trans (Nat.add_le_add_right hle 4) (by decide)

/-- The trailer `packet_encode` writes. -/
theorem encodeTrailer_mem (mem : Mem) (a : Word) (cmd seq : Byte) {payload : List Byte} {len : Word}
    (h : payload.length = len.toNat) :
    (((mem.store a (SOH :: body cmd seq payload)).set
      (a + 5 + len) (hi (crc16 (body cmd seq payload)))).set
      (a + 5 + len + 1) (lo (crc16 (body cmd seq payload)))).set (a + 5 + len + 1 + 1) ETX =
    mem.store a (frame cmd seq payload) := by
  have hl : BitVec.ofNat 16 (SOH :: body cmd seq payload).length = 5 + len := by
    rw [List.length_cons, length_body, h, show len.toNat + 4 + 1 = 5 + len.toNat by omega,
      BitVec.ofNat_add, BitVec.ofNat_toNat, BitVec.setWidth_eq]
    rfl
  have h₁ : a + BitVec.ofNat 16 (SOH :: body cmd seq payload).length = a + 5 + len := by
    rw [hl, BitVec.add_assoc]
  rw [Mem.set_store _ _ h₁,
    Mem.set_store _ _ (by rw [List.length_append, BitVec.ofNat_add, ← BitVec.add_assoc, h₁]; rfl),
    Mem.set_store _ _ (by
      rw [List.length_append, List.length_append, BitVec.ofNat_add, BitVec.ofNat_add,
        ← BitVec.add_assoc, ← BitVec.add_assoc, h₁]
      rfl)]
  simp only [frame, be16, List.append_assoc, List.cons_append, List.nil_append]
  rfl

/-- `packet_encode` leaves the frame of the packet in its buffer, and a count
that has lost the low byte of the payload's length. -/
theorem packetEncode_ok (m : Machine δ ι) (hlen : m.cx.toNat ≤ MAX_PAYLOAD) (ha : PayloadApart m) :
    ∃ c z, packetEncode m = { m with
      ax := crc16 (body (lo m.ax) (m.mem txSeq) (m.mem.bytes m.si m.cx.toNat))
      bx := ofBytes (hi m.cx) 0, cx := ofBytes (hi m.cx) 0 + PACKET_OVERHEAD
      dx := crc16 (body (lo m.ax) (m.mem txSeq) (m.mem.bytes m.si m.cx.toNat))
      di := TX_BUF_OFF + 5 + m.cx + 1 + 1, cf := c, zf := z
      mem := (m.mem.set txSeq (m.mem txSeq + 1)).store TX_BUF_OFF
        (frame (lo m.ax) (m.mem txSeq) (m.mem.bytes m.si m.cx.toNat)) } := by
  generalize hP : m.mem.bytes m.si m.cx.toNat = P
  have hPl : P.length = m.cx.toNat := by rw [← hP, Mem.length_bytes]
  let M := m.mem.set txSeq (m.mem txSeq + 1)
  let m₁ : Machine δ ι := { m with
    ax := ofBytes (hi m.ax) (m.mem txSeq), bx := m.cx, di := TX_BUF_OFF + 5, zf := false
    stk := m.si :: m.stk
    mem := M.store TX_BUF_OFF [SOH, lo m.ax, m.mem txSeq, hi m.cx, lo m.cx] }
  have h₁ : (m |>.push (·.si) |>.mov .bx (·.cx)
      |>.mov .di (imm TX_BUF_OFF) |>.stb (·.di) (imm SOH) |>.inc .di
      |>.stb (·.di) (·.reg8 .al) |>.inc .di
      |>.movb .al (·.byte txSeq) |>.stb (·.di) (·.reg8 .al) |>.incMemb txSeq |>.inc .di
      |>.stb (·.di) (·.reg8 .bh) |>.inc .di |>.stb (·.di) (·.reg8 .bl) |>.inc .di) = m₁ := by
    simp only [push, mov, stb, inc, movb, incMemb, reg, setReg, reg8, setReg8, byte,
      imm, lo_ofBytes]
    simp (disch := decide) only [Mem.set_of_ne]
    rw [encodeHeader_mem]
    rfl
  have hsrc : Region.Apart ⟨m.si, m.cx.toNat⟩ ⟨TX_BUF_OFF + 5, m.cx.toNat⟩ :=
    ha.1.sub (Region.sub_of_le (by
      rw [show (TX_BUF_OFF + 5 - TX_BUF_OFF).toNat = 5 by decide]
      show 5 + m.cx.toNat ≤ m.cx.toNat + 8
      omega))
  have hread : m₁.mem.bytes m.si m.cx.toNat = P := by
    have hseq : Frame [⟨txSeq, 1⟩, ⟨TX_BUF_OFF, 5⟩] m.mem M :=
      (Frame.refl _ _).set _ ⟨⟨txSeq, 1⟩, List.mem_cons_self, Region.has_base _ Nat.one_pos⟩
    have hhdr : Frame [⟨txSeq, 1⟩, ⟨TX_BUF_OFF, 5⟩] M m₁.mem :=
      (Frame.store M TX_BUF_OFF [SOH, lo m.ax, m.mem txSeq, hi m.cx, lo m.cx]
        (show 5 ≤ 65536 by decide)).mono fun r hr => List.mem_cons_of_mem _ hr
    rw [← hP]
    refine (hseq.trans hhdr).bytes m.cx.isLt.le fun r hr => ?_
    rcases List.mem_cons.mp hr with rfl | hr
    · exact fun x hx hx' => ha.2 (Region.has_one hx' ▸ hx)
    · rw [List.mem_singleton.mp hr]
      exact ha.1.sub (Region.sub_of_le (by
        rw [BitVec.sub_self]
        show 0 + 5 ≤ m.cx.toNat + 8
        omega))
  have h₂ : m₁.repMovsb = { m₁ with
      si := m.si + m.cx, di := TX_BUF_OFF + 5 + m.cx, cx := 0
      mem := M.store TX_BUF_OFF (SOH :: body (lo m.ax) (m.mem txSeq) P) } := by
    rw [repMovsb_eq m₁ hsrc, cons_body_eq hPl, Mem.store_append]
    exact congrArg (fun bs => { m₁ with
      si := m.si + m.cx, di := TX_BUF_OFF + 5 + m.cx, cx := 0,
      mem := m₁.mem.store (TX_BUF_OFF + 5) bs }) hread
  let m₂ : Machine δ ι := { m₁ with
    si := TX_BUF_OFF + 1, di := TX_BUF_OFF + 5 + m.cx, cx := BitVec.ofNat 16 (m.cx.toNat + 4)
    cf := decide (65536 ≤ m.cx.toNat + 4), zf := decide (m.cx + 4 = 0)
    mem := M.store TX_BUF_OFF (SOH :: body (lo m.ax) (m.mem txSeq) P) }
  have h₃ : (m₁.repMovsb |>.mov .si (imm (TX_BUF_OFF + 1)) |>.mov .cx (·.bx)
      |>.add .cx (imm 4)) = m₂ := by
    rw [h₂]
    simp only [mov, add, setReg, reg, imm, m₂, BitVec.ofNat_add, BitVec.ofNat_toNat,
      BitVec.setWidth_eq]
    rfl
  have hmax : m.cx.toNat + 4 < 65536 := lt_of_le_of_lt (Nat.add_le_add_right hlen 4) (by decide)
  rw [packetEncode, h₁, jcxz_repMovsb, h₃, crc16Ccitt_turns m₂ (Nat.succ_pos _) hmax rfl]
  have hcrc : m₂.mem.bytes m₂.si (m.cx.toNat + 4) = body (lo m.ax) (m.mem txSeq) P :=
    bytes_store_body M TX_BUF_OFF _ _ hPl (hPl ▸ hlen)
  refine ⟨decide (65536 ≤ (ofBytes (hi m.cx) 0).toNat + PACKET_OVERHEAD.toNat),
    decide (ofBytes (hi m.cx) 0 + PACKET_OVERHEAD = 0), ?_⟩
  simp only [hcrc, stb, inc, mov, add, pop, top, setReg, reg, reg8, imm, m₂, m₁, List.headD_cons,
    List.tail_cons]
  rw [encodeTrailer_mem M TX_BUF_OFF _ _ hPl]

/-- A payload that `packet_encode` takes has a length of one byte. -/
theorem hi_eq_zero {len : Word} (h : len.toNat ≤ MAX_PAYLOAD) : hi len = 0 := by
  apply BitVec.eq_of_toNat_eq
  rw [toNat_hi, Nat.div_eq_of_lt (lt_of_le_of_lt h (by decide))]
  rfl

/-- What the frame leaves of the rest: the sequence number is moved on, and
only it and the frame's own bytes change. -/
theorem encoded_mem (mem : Mem) {fr : List Byte} (hl : fr.length ≤ 256) :
    ((mem.set txSeq (mem txSeq + 1)).store TX_BUF_OFF fr).bytes TX_BUF_OFF fr.length = fr ∧
    ((mem.set txSeq (mem txSeq + 1)).store TX_BUF_OFF fr) txSeq = mem txSeq + 1 := by
  refine ⟨Mem.bytes_store _ _ _ (le_trans hl (by decide)), ?_⟩
  rw [Frame.byte (Frame.store _ _ _ (le_trans hl (by decide))), Mem.set_self]
  intro r hr
  rw [List.mem_singleton.mp hr]
  exact not_lt.mpr (le_trans hl (show 256 ≤ (txSeq - TX_BUF_OFF).toNat by decide))

/-- The two encoders agree on the call `m` of `packet_encode`: the buffer holds
what `encode` writes, CX is the length it returns, and the sequence number
moves on by one. -/
def EncodersAgree (m : Machine δ ι) : Prop :=
  let payload := m.mem.bytes m.si m.cx.toNat
  let m' := packetEncode m
  (∀ out : List Byte, payload.length + OVERHEAD ≤ out.length →
    encode (lo m.ax) (m.mem txSeq) payload out = (.ok (payload.length + OVERHEAD),
      m'.mem.bytes TX_BUF_OFF (payload.length + OVERHEAD) ++
      out.drop (payload.length + OVERHEAD))) ∧
  m'.cx = BitVec.ofNat 16 (payload.length + OVERHEAD) ∧
  m'.mem txSeq = m.mem txSeq + 1

/-- The buffer and the sequence number are right for every payload. -/
theorem packetEncode_buffer (m : Machine δ ι) (hlen : m.cx.toNat ≤ MAX_PAYLOAD)
    (ha : PayloadApart m) : (packetEncode m).mem.bytes TX_BUF_OFF (m.cx.toNat + OVERHEAD) =
      frame (lo m.ax) (m.mem txSeq) (m.mem.bytes m.si m.cx.toNat) ∧
    (packetEncode m).mem txSeq = m.mem txSeq + 1 ∧ (packetEncode m).cx = PACKET_OVERHEAD := by
  obtain ⟨c, z, e⟩ := packetEncode_ok m hlen ha
  have hl : (frame (lo m.ax) (m.mem txSeq) (m.mem.bytes m.si m.cx.toNat)).length =
      m.cx.toNat + OVERHEAD := by
    rw [length_frame, Mem.length_bytes]
  have h := encoded_mem m.mem (le_of_eq_of_le hl (Nat.add_le_add_right hlen OVERHEAD))
  rw [e]
  rw [hl] at h
  exact ⟨h.1, h.2, by rw [hi_eq_zero hlen]; rfl⟩

/-- The encoders agree exactly on packets without a payload: the count of every
other packet is cut to that of an empty one. -/
theorem encodersAgree_iff (m : Machine δ ι) (hlen : m.cx.toNat ≤ MAX_PAYLOAD)
    (ha : PayloadApart m) : EncodersAgree m ↔ m.cx = 0 := by
  obtain ⟨hbuf, hseq, hcx⟩ := packetEncode_buffer m hlen ha
  have hn : (m.mem.bytes m.si m.cx.toNat).length = m.cx.toNat := Mem.length_bytes ..
  constructor
  · rintro ⟨-, h, -⟩
    rw [hn, hcx] at h
    have h' := congrArg BitVec.toNat h
    rw [BitVec.toNat_ofNat,
      Nat.mod_eq_of_lt (lt_of_le_of_lt (Nat.add_le_add_right hlen _) (by decide))] at h'
    exact BitVec.eq_of_toNat_eq (Nat.add_right_cancel ((Nat.zero_add _).trans h')).symm
  · intro h
    refine ⟨fun out ho => ?_, ?_, hseq⟩
    · rw [encode_ok _ _ (by rw [hn]; exact hlen) ho, splice_zero, length_frame, hn, hbuf]
    · rw [hcx, hn, h]
      rfl

/-- The call `packet_self_test` makes: PING with the payload `HELLO`. -/
def encodeHello : Machine Unit Unit where
  ax := ofBytes 0 CMD_PING
  bx := 0
  cx := 5
  dx := 0
  si := testPayloadHello
  di := 0
  cs := 0
  ds := 0
  es := 0
  cf := false
  zf := false
  stk := []
  mem := Mem.store (fun _ => 0) testPayloadHello [0x48, 0x45, 0x4C, 0x4C, 0x4F]
  got := []
  dos := ()
  io := ()

theorem encodeHello_apart : PayloadApart encodeHello :=
  ⟨Region.apart_of_le (by decide) (by decide), by decide⟩

theorem encodersAgree_iff_hello : EncodersAgree encodeHello ↔ encodeHello.cx = 0 :=
  encodersAgree_iff encodeHello (by decide) encodeHello_apart

/-- The self-test's own call is one on which the encoders differ: 8 for 13. -/
theorem encoders_differ : encodeHello.cx.toNat ≤ MAX_PAYLOAD ∧ PayloadApart encodeHello ∧
    (packetEncode encodeHello).cx = 8 ∧ ¬ EncodersAgree encodeHello := by
  have h := (packetEncode_buffer encodeHello (by decide) encodeHello_apart).2.2
  refine ⟨by decide, encodeHello_apart, h, fun hagree => ?_⟩
  have hcx := hagree.2.1
  rw [h, Mem.length_bytes] at hcx
  exact absurd hcx (by decide)

/-! ## `packet_validate` -/

/-- `packet_validate`. -/
def packetValidate (m : Machine δ ι) : Machine δ ι :=
  m |>.cmp (·.cx) (imm PACKET_OVERHEAD) |>.jc bad fun m =>
  m |>.cmpb (fun m => m.byte m.si) (imm SOH) |>.jnz bad fun m =>
  m |>.movb .bh (fun m => m.byte (m.si + 3)) |>.movb .bl (fun m => m.byte (m.si + 4))
    |>.mov .ax (·.bx) |>.add .ax (imm PACKET_OVERHEAD) |>.jc bad fun m =>
  m |>.cmp (·.ax) (·.cx) |>.jnz bad fun m =>
  m |>.cmpb (fun m => m.byte (m.bx + m.si + 7)) (imm ETX) |>.jnz bad fun m =>
  m |>.push (·.si) |>.push (·.bx) |>.inc .si |>.mov .cx (·.bx) |>.add .cx (imm 4) |> crc16Ccitt
    |>.pop .bx |>.pop .si
    |>.cmpb (·.reg8 .ah) (fun m => m.byte (m.bx + m.si + 5)) |>.jnz bad fun m =>
  m |>.cmpb (·.reg8 .al) (fun m => m.byte (m.bx + m.si + 6)) |>.jnz bad fun m =>
  m |>.movb .al (fun m => m.byte (m.si + 1)) |>.movb .ah (fun m => m.byte (m.si + 2))
    |>.add .si (imm PACKET_HEADER_LEN) |>.mov .cx (·.bx) |>.clc
where
  /-- `.bad`. -/
  bad (m : Machine δ ι) : Machine δ ι := m.stc

/-- The length field of the packet at `a`. -/
def lenField (mem : Mem) (a : Word) : Word := ofBytes (mem (a + 3)) (mem (a + 4))

/-- What `packet_validate` checks of `n` bytes at `a`. -/
structure Accepted (mem : Mem) (a : Word) (n : Nat) : Prop where
  soh : mem a = SOH
  len : (lenField mem a).toNat + OVERHEAD = n
  etx : mem (lenField mem a + a + 7) = ETX
  crc_hi : hi (crc16 (mem.bytes (a + 1) ((lenField mem a).toNat + 4))) =
    mem (lenField mem a + a + 5)
  crc_lo : lo (crc16 (mem.bytes (a + 1) ((lenField mem a).toNat + 4))) =
    mem (lenField mem a + a + 6)

/-- `packet_validate` returns no carry exactly on what it checks for, and then
the command, the sequence number and the payload. -/
theorem packetValidate_ok (m : Machine δ ι) :
    (Accepted m.mem m.si m.cx.toNat ∧ ∃ d z, packetValidate m = { m with
      ax := ofBytes (m.mem (m.si + 2)) (m.mem (m.si + 1)), bx := lenField m.mem m.si
      cx := lenField m.mem m.si, dx := d, si := m.si + PACKET_HEADER_LEN, cf := false, zf := z }) ∨
    (¬ Accepted m.mem m.si m.cx.toNat ∧ ∃ a b w d s z, packetValidate m = { m with
      ax := a, bx := b, cx := w, dx := d, si := s, cf := true, zf := z }) := by
  by_cases h8 : m.cx.toNat < PACKET_OVERHEAD.toNat
  · refine .inr ⟨fun h => ?_, m.ax, m.bx, m.cx, m.dx, m.si, decide (m.cx = PACKET_OVERHEAD), ?_⟩
    · have := h.len
      have : PACKET_OVERHEAD.toNat ≤ m.cx.toNat := this ▸ Nat.le_add_left OVERHEAD _
      omega
    · simp only [packetValidate, packetValidate.bad, ↓jc, ↓reduceIte, Machine.cmp, imm, h8,
        decide_true, stc]
  by_cases hsoh : m.mem m.si = SOH
  swap
  · refine .inr ⟨fun h => hsoh h.soh, m.ax, m.bx, m.cx, m.dx, m.si, false, ?_⟩
    simp only [packetValidate, packetValidate.bad, ↓jc, ↓jnz, ↓reduceIte, Machine.cmp, cmpb, byte,
      imm, h8, hsoh, decide_false, Bool.false_eq_true, stc]
  generalize hL : lenField m.mem m.si = L
  by_cases hov : 65536 ≤ L.toNat + PACKET_OVERHEAD.toNat
  · refine .inr ⟨fun h => ?_, L + PACKET_OVERHEAD, L, m.cx, m.dx, m.si,
      decide (L + PACKET_OVERHEAD = 0), ?_⟩
    · have hlen := h.len
      rw [hL] at hlen
      have := m.cx.isLt
      have : L.toNat + 8 = m.cx.toNat := hlen
      have : 65536 ≤ L.toNat + 8 := hov
      omega
    · rw [lenField] at hL
      simp only [packetValidate, packetValidate.bad, ↓jc, ↓jnz, ↓reduceIte, Machine.cmp, cmpb, byte,
        imm, h8, hsoh, decide_false, decide_true, Bool.false_eq_true, movb, mov, add, reg, setReg,
        setReg8, hi_ofBytes, hL, hov, stc]
  have hLL := hL
  rw [lenField] at hLL
  by_cases hlen : L + PACKET_OVERHEAD = m.cx
  swap
  · refine .inr ⟨fun h => hlen ?_, L + PACKET_OVERHEAD, L, m.cx, m.dx, m.si, false, ?_⟩
    · have := h.len
      rw [hL] at this
      apply BitVec.eq_of_toNat_eq
      rw [BitVec.toNat_add, Nat.mod_eq_of_lt (not_le.mp hov)]
      exact this
    · simp only [packetValidate, packetValidate.bad, ↓jc, ↓jnz, ↓reduceIte, Machine.cmp, cmpb, byte,
        imm, h8, hsoh, decide_false, decide_true, Bool.false_eq_true, movb, mov, add, reg, setReg,
        setReg8, hi_ofBytes, hLL, hov, hlen, stc]
  by_cases hetx : m.mem (L + m.si + 7) = ETX
  swap
  · refine .inr ⟨fun h => hetx (hL ▸ h.etx), m.cx, L, m.cx, m.dx, m.si, false, ?_⟩
    simp only [packetValidate, packetValidate.bad, ↓jc, ↓jnz, ↓reduceIte, Machine.cmp, cmpb, byte,
      imm, h8, hsoh, decide_false, decide_true, Bool.false_eq_true, movb, mov, add, reg, setReg,
      setReg8, hi_ofBytes, hLL, hov, hlen, hetx, stc]
  have hL4 : (L + 4).toNat = L.toNat + 4 := by
    have : ¬ 65536 ≤ L.toNat + 8 := hov
    rw [BitVec.toNat_add]
    show (L.toNat + 4) % 65536 = L.toNat + 4
    omega
  have hL4' : L + 4 ≠ 0 := fun h => by
    rw [h] at hL4
    exact absurd hL4 (Nat.succ_ne_zero _).symm
  generalize hC : crc16 (m.mem.bytes (m.si + 1) (L.toNat + 4)) = C
  by_cases hhi : hi C = m.mem (L + m.si + 5)
  swap
  · refine .inr ⟨fun h => hhi ?_, C, L, 0, C, m.si, false, ?_⟩
    · have := h.crc_hi
      rwa [hL, hC] at this
    · simp only [packetValidate, packetValidate.bad, ↓jc, ↓jnz, ↓reduceIte, Machine.cmp, cmpb, byte,
        imm, h8, hsoh, decide_false, decide_true, Bool.false_eq_true, movb, mov, add, inc, reg,
        setReg, reg8, setReg8, hi_ofBytes, hLL, hov, hlen, hetx, push, pop, top, List.headD_cons,
        List.tail_cons, crc16Ccitt_ok, ne_eq, hL4', not_false_eq_true, hL4, hC, hhi, stc]
  by_cases hlo : lo C = m.mem (L + m.si + 6)
  swap
  · refine .inr ⟨fun h => hlo ?_, C, L, 0, C, m.si, false, ?_⟩
    · have := h.crc_lo
      rwa [hL, hC] at this
    · simp only [packetValidate, packetValidate.bad, ↓jc, ↓jnz, ↓reduceIte, Machine.cmp, cmpb, byte,
        imm, h8, hsoh, decide_false, decide_true, Bool.false_eq_true, movb, mov, add, inc, reg,
        setReg, reg8, setReg8, hi_ofBytes, hLL, hov, hlen, hetx, push, pop, top, List.headD_cons,
        List.tail_cons, crc16Ccitt_ok, ne_eq, hL4', not_false_eq_true, hL4, hC, hhi, hlo, stc]
  refine .inl ⟨⟨hsoh, ?_, by rwa [hL], by rwa [hL, hC], by rwa [hL, hC]⟩, C,
    decide (m.si + PACKET_HEADER_LEN = 0), ?_⟩
  · rw [hL, ← hlen, BitVec.toNat_add, Nat.mod_eq_of_lt (not_le.mp hov)]
    rfl
  · simp only [packetValidate, ↓jc, ↓jnz, ↓reduceIte, Machine.cmp, cmpb, byte, imm, h8, hsoh,
      decide_false, decide_true, Bool.false_eq_true, movb, mov, add, inc, reg, setReg, reg8,
      setReg8, hi_ofBytes, lo_ofBytes, hLL, hov, hlen, hetx, push, pop, top, List.headD_cons,
      List.tail_cons, crc16Ccitt_ok, ne_eq, hL4', not_false_eq_true, hL4, hC, hhi, hlo, clc]

/-- The bytes of a packet in memory, with the length `n` of its payload. -/
theorem bytes_packet (mem : Mem) (a : Word) (n : Nat) :
    mem.bytes a (n + 8) = mem a :: mem.bytes (a + 1) (n + 4) ++
      [mem (BitVec.ofNat 16 n + a + 5), mem (BitVec.ofNat 16 n + a + 6),
        mem (BitVec.ofNat 16 n + a + 7)] := by
  have e : a + 1 + BitVec.ofNat 16 (n + 4) = BitVec.ofNat 16 n + a + 5 := by
    rw [BitVec.ofNat_add]
    bv_omega
  have h3 : ∀ x, mem.bytes x 3 = [mem x, mem (x + 1), mem (x + 1 + 1)] := fun _ => rfl
  rw [show n + 8 = n + 4 + 3 + 1 from rfl, Mem.bytes, Mem.bytes_add mem (a + 1) (n + 4) 3, e, h3,
    List.cons_append, BitVec.add_assoc _ 5 1, BitVec.add_assoc _ (5 + 1) 1]
  rfl

theorem bytes_body (mem : Mem) (a : Word) (n : Nat) : mem.bytes (a + 1) (n + 4) =
    mem (a + 1) :: mem (a + 2) :: mem (a + 3) :: mem (a + 4) :: mem.bytes (a + 5) n := by
  have h4 : ∀ x, mem.bytes x (n + 4) = mem x :: mem (x + 1) :: mem (x + 1 + 1) ::
    mem (x + 1 + 1 + 1) ::
      mem.bytes (x + 1 + 1 + 1 + 1) n := fun _ => rfl
  rw [h4, BitVec.add_assoc a 1 1, BitVec.add_assoc a (1 + 1) 1, BitVec.add_assoc a (1 + 1 + 1) 1,
    BitVec.add_assoc a (1 + 1 + 1 + 1) 1]
  rfl

/-- What `packet_validate` accepts is the frame of what it returns. -/
theorem Accepted.eq_frame {mem : Mem} {a : Word} {n : Nat} (h : Accepted mem a n) :
    mem.bytes a n =
      frame (mem (a + 1)) (mem (a + 2)) (mem.bytes (a + 5) (lenField mem a).toNat) := by
  have hb : mem.bytes (a + 1) ((lenField mem a).toNat + 4) =
      body (mem (a + 1)) (mem (a + 2)) (mem.bytes (a + 5) (lenField mem a).toNat) := by
    rw [bytes_body, body, Mem.length_bytes, ofNat_toNat16, be16, lenField, hi_ofBytes, lo_ofBytes]
    rfl
  rw [← h.len, show OVERHEAD = 8 from rfl, bytes_packet, hb, ofNat_toNat16, h.soh, h.etx,
    ← h.crc_hi, ← h.crc_lo, hb, frame, be16, List.append_assoc]
  rfl

/-- `packet_validate` accepts exactly the frames. -/
theorem accepted_iff (mem : Mem) (a : Word) (n : Nat) : Accepted mem a n ↔
    ∃ cmd seq payload, payload.length < 65536 ∧ payload.length + OVERHEAD = n ∧
      mem.bytes a n = frame cmd seq payload := by
  constructor
  · intro h
    refine ⟨_, _, _, ?_, ?_, h.eq_frame⟩
    · rw [Mem.length_bytes]
      exact (lenField mem a).isLt
    · rw [Mem.length_bytes]
      exact h.len
  · rintro ⟨cmd, seq, payload, hp, rfl, h⟩
    rw [show OVERHEAD = 8 from rfl, bytes_packet, frame, List.cons_append, List.append_assoc,
      List.cons_append] at h
    obtain ⟨hsoh, h⟩ := List.cons_eq_cons.mp h
    obtain ⟨hb, ht⟩ := List.append_inj h (by rw [Mem.length_bytes, length_body])
    simp only [be16, List.cons_append, List.nil_append, List.cons.injEq, and_true] at ht
    obtain ⟨hh, hl, he⟩ := ht
    have hL : lenField mem a = BitVec.ofNat 16 payload.length := by
      have hb' := hb
      rw [bytes_body, body, be16] at hb'
      simp only [List.cons_append, List.nil_append, List.cons.injEq] at hb'
      rw [lenField, hb'.2.2.1, hb'.2.2.2.1, ofBytes_hi_lo]
    have hn : (lenField mem a).toNat = payload.length := by rw [hL, toNat_ofNat16 hp]
    exact ⟨hsoh, by rw [hn], by rw [hL, he]; rfl, by rw [hn, hb, hL, hh], by rw [hn, hb, hL, hl]⟩

end VintageKvm.Stage1
