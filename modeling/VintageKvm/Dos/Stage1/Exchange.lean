import VintageKvm.Dos.Stage1.Channel

/-!
# Stage 1: sending and receiving packets

The steps the handshake, the stress test and the download share: a packet is
encoded and drained (`encodeDrain`), and a packet is received in two parts, its
header (`recvHeader`) and the rest of it (`recvRest`).

`Sent` and `Heard` say what each leaves: which bytes went over the link, and
what of the machine is as before.
-/

namespace VintageKvm.Stage1

open I8086 Machine Dos Protocol

variable {ι β : Type} [Pump ι]

/-! ## The routines -/

/-- `call packet_encode`, `mov si, TX_BUF_OFF`, `call tx_drain`. -/
def encodeDrain (m : Machine DosState ι) : Machine DosState ι :=
  m |> packetEncode |>.mov .si (imm TX_BUF_OFF) |> txDrain

/-- The header of a packet into the receive buffer, and its length field into
BX. -/
def recvHeader (fail next : Machine DosState ι → β) (m : Machine DosState ι) : β :=
  m |>.mov .di (imm RX_BUF_OFF) |>.mov .cx (imm PACKET_HEADER_LEN) |> rxFill |>.jc fail fun m =>
  m |>.movb .bh (·.byte (RX_BUF_OFF + 3)) |>.movb .bl (·.byte (RX_BUF_OFF + 4)) |> next

/-- The rest of a packet with BX bytes of payload, if it fits the buffer, and
the packet checked. -/
def recvRest (fail next : Machine DosState ι → β) (m : Machine DosState ι) : β :=
  m |>.mov .ax (·.bx) |>.add .ax (imm PACKET_OVERHEAD) |>.jc fail fun m =>
  m |>.cmp (·.ax) (imm PACKET_BUF_SIZE) |>.ja fail fun m =>
  m |>.mov .di (imm (RX_BUF_OFF + PACKET_HEADER_LEN)) |>.mov .cx (·.bx)
    |>.add .cx (imm PACKET_TRAILER_LEN) |> rxFill |>.jc fail fun m =>
  m |>.mov .si (imm RX_BUF_OFF) |>.mov .cx (·.bx) |>.add .cx (imm PACKET_OVERHEAD) |> packetValidate
    |>.jc fail next

/-! ## Sending -/

variable [LawfulPump ι]

/-- The packet with the frame `fr` was built, and as much of it sent as the
count of `packet_encode` says. -/
structure Sent (fr : List Byte) (m m' : Machine DosState ι) : Prop where
  keeps : Keeps Link txWire m m'
  cf : m'.cf = decide (m.mem currentPump ≠ PUMP_LPT_SPP)
  got : m'.got = m.got
  seq : m'.mem txSeq = m.mem txSeq + 1
  link : m.mem currentPump = PUMP_LPT_SPP →
    Steps (m.mem.word lptBase) ((fr.take 8).map .sent) m.io m'.io

theorem encodeDrain_ok (m : Machine DosState ι) (hlen : m.cx.toNat ≤ MAX_PAYLOAD)
    (ha : PayloadApart m) :
    Sent (frame (lo m.ax) (m.mem txSeq) (m.mem.bytes m.si m.cx.toNat)) m (encodeDrain m) := by
  have hk : Keeps Link txWire m (packetEncode m) := packetEncode_keeps m hlen ha
  obtain ⟨hbuf, hseq, hcx⟩ := packetEncode_buffer m hlen ha
  have hio : (packetEncode m).got = m.got ∧ (packetEncode m).io = m.io := by
    obtain ⟨c, z, e⟩ := packetEncode_ok m hlen ha
    rw [e]
    exact ⟨rfl, rfl⟩
  have hpump : (packetEncode m).mem currentPump = m.mem currentPump := hk.mem.byte (by decide)
  generalize frame (lo m.ax) (m.mem txSeq) (m.mem.bytes m.si m.cx.toNat) = fr at hbuf
  rw [encodeDrain]
  generalize packetEncode m = m₁ at *
  obtain ⟨hgot, hio⟩ := hio
  have h₈ : m₁.mem.bytes TX_BUF_OFF 8 = fr.take 8 := by
    rw [← hbuf, Mem.take_bytes _ _ (show 8 ≤ m.cx.toNat + OVERHEAD from Nat.le_add_left 8 _)]
  obtain ⟨hd, hcf⟩ :
      Keeps Link txWire (m₁.mov .si (imm TX_BUF_OFF)) (txDrain (m₁.mov .si (imm TX_BUF_OFF))) ∧ _ :=
    txDrain_keeps _
  have hk₁ : Keeps Link txWire m₁ (txDrain (m₁.mov .si (imm TX_BUF_OFF))) := hd.congr rfl rfl
  rw [show (m₁.mov .si (imm TX_BUF_OFF)).mem = m₁.mem from rfl, hpump] at hcf
  by_cases hp : m.mem currentPump = PUMP_LPT_SPP
  · obtain ⟨a, z, io, e, hs⟩ := txDrain_ok (m₁.mov .si (imm TX_BUF_OFF)) (hpump.trans hp)
    refine ⟨hk.trans hk₁, hcf, by rw [e]; exact hgot, by rw [e]; exact hseq, fun _ => ?_⟩
    have hs' : Steps (m₁.mem.word lptBase) ((m₁.mem.bytes TX_BUF_OFF m₁.cx.toNat).map .sent)
        m₁.io io := hs
    rw [hcx, show PACKET_OVERHEAD.toNat = 8 from rfl, h₈, hk.base, hio] at hs'
    rw [e]
    exact hs'
  · refine ⟨hk.trans hk₁, hcf, ?_, ?_, fun h => absurd h hp⟩ <;>
      rw [txDrain_none (m₁.mov .si (imm TX_BUF_OFF)) (fun h => hp (hpump ▸ h))]
    · exact hgot
    · exact hseq

/-! ## Receiving -/

/-- The bytes `bs` were received, and after them, if `late`, the link timed
out. -/
structure Heard (bs : List Byte) (late : Bool) (m m' : Machine DosState ι) : Prop where
  keeps : Keeps Link rxWire m m'
  got : m'.got = m.got ++ bs
  link : Steps (m.mem.word lptBase) (bs.map .got ++ if late then [.timeout] else []) m.io m'.io

namespace Heard

variable {m m₁ m₂ m₃ m' : Machine DosState ι} {bs bs' : List Byte} {late : Bool}

theorem trans (h₁ : Heard bs false m₁ m₂) (h₂ : Heard bs' late m₂ m₃) :
    Heard (bs ++ bs') late m₁ m₃ where
  keeps := h₁.keeps.trans h₂.keeps
  got := by rw [h₂.got, h₁.got, List.append_assoc]
  link := by
    have hl := h₁.link
    rw [if_neg Bool.false_ne_true, List.append_nil] at hl
    rw [List.map_append, List.append_assoc]
    exact hl.append (h₁.keeps.base ▸ h₂.link)

theorem still (h : Heard bs late m m₁) (e : Still m₁ m') : Heard bs late m m' :=
  ⟨h.keeps.still e, e.got.trans h.got, e.io ▸ h.link⟩

theorem congr (h : Heard bs late m₁ m₂) (e₁ : SameCore m m₁) (e₂ : SameCore m₂ m') :
    Heard bs late m m' := by
  refine still ?_ e₂.still
  have hk := h.keeps.congr e₁ rfl
  simp only [SameCore, core, Prod.mk.injEq] at e₁
  refine ⟨hk, ?_, ?_⟩
  · rw [h.got, e₁.2.2.2.2.2.1]
  · rw [← e₁.2.2.2.2.2.2.2, ← e₁.2.2.2.2.1]
    exact h.link

end Heard

/-- `rx_fill` into the receive buffer at `a`. -/
theorem rxFill_heard (m : Machine DosState ι) (hp : m.mem currentPump = PUMP_LPT_SPP)
    (hn : m.cx.toNat ≤ 256) (hsub : Region.Sub ⟨m.di, m.cx.toNat⟩ ⟨RX_BUF_OFF, 256⟩) :
    ∃ bs late, Heard bs late m (rxFill m) ∧
    (rxFill m).cf = late ∧ (rxFill m).bx = m.bx ∧ (late = true → bs.length < m.cx.toNat) ∧
    (late = false → bs.length = m.cx.toNat ∧
      ∃ ph, (rxFill m).mem = (m.mem.set lastPhase ph).store m.di bs) := by
  have hbuf : Region.Apart pumpVars ⟨RX_BUF_OFF, 256⟩ := Region.apart_of_le (by decide) (by decide)
  have hf := rxFill_ok m hp (hbuf.sub hsub)
  have hk := hf.within hn hsub
  rcases hf with ⟨a, z, ph, bs, io, hl, e, hs⟩ | ⟨a, w, z, ph, bs, io, hl, e, hs⟩ <;> rw [e] at hk ⊢
  · exact ⟨bs, false, ⟨hk, rfl, by rwa [if_neg Bool.false_ne_true, List.append_nil]⟩, rfl, rfl,
      (fun h => nomatch h), fun _ => ⟨hl, ph, rfl⟩⟩
  · exact ⟨bs, true, ⟨hk, rfl, hs⟩, rfl, rfl, fun _ => hl, fun h => nomatch h⟩

/-- The length field as the machine reads it. -/
theorem announced_bytes (mem : Mem) (a : Word) {n : Nat} (hn : 5 ≤ n) :
    BitVec.ofNat 16 (announced (mem.bytes a n)) = ofBytes (mem (a + 3)) (mem (a + 4)) := by
  rw [announced, Mem.getD_bytes mem a (show 3 < n by omega),
    Mem.getD_bytes mem a (show 4 < n by omega), ← toNat_ofBytes, ofNat_toNat16]
  rfl

/-- The header of a packet: all five bytes of it, or a timeout. -/
theorem recvHeader_ok (m : Machine DosState ι) (hp : m.mem currentPump = PUMP_LPT_SPP)
    (fail next : Machine DosState ι → β) :
    (∃ m₁ bs, recvHeader fail next m = fail m₁ ∧ Heard bs true m m₁ ∧ bs.length < 5) ∨
    ∃ m₁ bs, recvHeader fail next m = next m₁ ∧ Heard bs false m m₁ ∧ bs.length = 5 ∧
      m₁.mem.bytes RX_BUF_OFF 5 = bs ∧ m₁.bx = BitVec.ofNat 16 (announced bs) := by
  let m₀ : Machine DosState ι := m |>.mov .di (imm RX_BUF_OFF) |>.mov .cx (imm PACKET_HEADER_LEN)
  have h₅ : Region.Sub ⟨RX_BUF_OFF, (5 : Word).toNat⟩ ⟨RX_BUF_OFF, 256⟩ :=
    Region.sub_of_le (by decide)
  obtain ⟨bs, late, hh, hcf, -, hlate, hfull⟩ :=
    rxFill_heard m₀ hp (show (5 : Word).toNat ≤ 256 by decide) h₅
  have hh' : Heard bs late m (rxFill m₀) := hh.congr rfl rfl
  rw [show recvHeader fail next m = (rxFill m₀ |>.jc fail fun m => m
    |>.movb .bh (·.byte (RX_BUF_OFF + 3)) |>.movb .bl (·.byte (RX_BUF_OFF + 4)) |> next) from rfl]
  generalize rxFill m₀ = m₁ at hh' hcf hfull
  cases late with
  | true =>
    rw [jc_pos hcf]
    exact .inl ⟨m₁, bs, rfl, hh', hlate rfl⟩
  | false =>
    obtain ⟨hl, ph, hmem⟩ := hfull rfl
    have hbs : m₁.mem.bytes RX_BUF_OFF 5 = bs := by
      rw [hmem]
      have hb := Mem.bytes_store (m.mem.set lastPhase ph) RX_BUF_OFF bs (hl ▸ (5 : Word).isLt.le)
      rw [hl] at hb
      exact hb
    rw [jc_neg hcf]
    refine .inr ⟨{ m₁ with bx := BitVec.ofNat 16 (announced bs) }, bs, ?_,
      hh'.congr rfl rfl, hl, hbs, rfl⟩
    rw [← hbs, announced_bytes m₁.mem RX_BUF_OFF le_rfl]
    simp only [movb, setReg8, byte, hi_ofBytes]

/-- What holds after a timeout and after a header holds of `recv_header`. -/
theorem recvHeader_cases {P : β → Prop} {m : Machine DosState ι}
    {fail next : Machine DosState ι → β} (hp : m.mem currentPump = PUMP_LPT_SPP)
    (hfail : ∀ m₁ bs, Heard bs true m m₁ → bs.length < 5 → P (fail m₁))
    (hnext : ∀ m₁ bs, Heard bs false m m₁ → bs.length = 5 → m₁.mem.bytes RX_BUF_OFF 5 = bs →
      m₁.bx = BitVec.ofNat 16 (announced bs) → P (next m₁)) : P (recvHeader fail next m) := by
  rcases recvHeader_ok m hp fail next with
    ⟨m₁, bs, e, hh, hl⟩ | ⟨m₁, bs, e, hh, hl, hmem, hbx⟩ <;> rw [e]
  · exact hfail m₁ bs hh hl
  · exact hnext m₁ bs hh hl hmem hbx

/-- What may come after a packet's header. -/
inductive RestHeard (fail next : Machine DosState ι → β) (h : List Byte) (m : Machine DosState ι)
    (b : β) : Prop
  /-- The packet does not fit the buffer: nothing is received. -/
  | long (m₁ : Machine DosState ι) : b = fail m₁ → SameCore m m₁ → MAX_PAYLOAD < announced h →
    RestHeard fail next h m b
  | late (m₁ : Machine DosState ι) (t : List Byte) : b = fail m₁ → Heard t true m m₁ →
    t.length < announced h + 3 → RestHeard fail next h m b
  | bad (m₁ : Machine DosState ι) (t : List Byte) : b = fail m₁ → Heard t false m m₁ →
    t.length = announced h + 3 → (∀ cmd seq payload, h ++ t ≠ frame cmd seq payload) →
    RestHeard fail next h m b
  | ok (m₁ : Machine DosState ι) (t : List Byte) (cmd seq : Byte) (payload : List Byte) :
    b = next m₁ → Heard t false m m₁ → t.length = announced h + 3 →
    payload.length ≤ MAX_PAYLOAD → h ++ t = frame cmd seq payload →
    m₁.mem.bytes RX_BUF_OFF (payload.length + 8) = frame cmd seq payload → lo m₁.ax = cmd →
    RestHeard fail next h m b

/-- The two parts of a packet, received one after the other. -/
theorem bytes_two_fills (mem : Mem) (ph : Byte) {h t : List Byte} (hh : mem.bytes RX_BUF_OFF 5 = h)
    (ht : t.length ≤ 251) :
    ((mem.set lastPhase ph).store (RX_BUF_OFF + 5) t).bytes RX_BUF_OFF (5 + t.length) = h ++ t := by
  have hf : Frame [⟨lastPhase, 1⟩, ⟨RX_BUF_OFF + 5, 251⟩] mem
      ((mem.set lastPhase ph).store (RX_BUF_OFF + 5) t) :=
    ((Frame.refl _ _).set _ (by decide)).trans ((Frame.store _ _ _ (by omega)).widen fun r hr => by
      rw [List.mem_singleton.mp hr]
      exact ⟨⟨RX_BUF_OFF + 5, 251⟩, by decide,
        Region.sub_of_le (by rw [BitVec.sub_self]; simpa using ht)⟩)
  have happ : ∀ r ∈ [⟨lastPhase, 1⟩, ⟨RX_BUF_OFF + 5, 251⟩], Region.Apart ⟨RX_BUF_OFF, 5⟩ r := by
    intro r hr
    simp only [List.mem_cons, List.not_mem_nil, or_false] at hr
    rcases hr with rfl | rfl <;> exact Region.apart_of_le (by decide) (by decide)
  rw [Mem.bytes_add, hf.bytes (by decide) happ, hh]
  exact congrArg (h ++ ·) (Mem.bytes_store _ _ _ (by omega))

omit [LawfulPump ι] in
/-- A packet too long for the buffer is not received. -/
theorem recvRest_long (m : Machine DosState ι) (hbig : 256 < m.bx.toNat + 8)
    (fail next : Machine DosState ι → β) :
    ∃ m₁, recvRest fail next m = fail m₁ ∧ SameCore m m₁ := by
  have h₈ : PACKET_OVERHEAD.toNat = 8 := rfl
  by_cases hov : 65536 ≤ m.bx.toNat + PACKET_OVERHEAD.toNat
  · refine ⟨m |>.mov .ax (·.bx) |>.add .ax (imm PACKET_OVERHEAD), ?_, rfl⟩
    simp only [recvRest, ↓jc, ↓reduceIte, mov, add, reg, setReg, imm, hov, decide_true]
  have hsum : (m.bx + PACKET_OVERHEAD).toNat = m.bx.toNat + 8 := by
    rw [BitVec.toNat_add, Nat.mod_eq_of_lt (not_le.mp hov), h₈]
  have hcf : ¬ (m.bx + PACKET_OVERHEAD).toNat < PACKET_BUF_SIZE.toNat := by
    rw [hsum, show PACKET_BUF_SIZE.toNat = 256 from rfl]
    omega
  have hzf : ¬ m.bx + PACKET_OVERHEAD = PACKET_BUF_SIZE := fun hz => by
    rw [hz, show PACKET_BUF_SIZE.toNat = 256 from rfl] at hsum
    omega
  refine ⟨m |>.mov .ax (·.bx) |>.add .ax (imm PACKET_OVERHEAD) |>.cmp (·.ax) (imm PACKET_BUF_SIZE),
    ?_, rfl⟩
  simp only [recvRest, ↓jc, ↓ja, ↓reduceIte, mov, add, reg, setReg, imm, hov, Machine.cmp, hcf,
    hzf, decide_false, Bool.or_self, Bool.false_eq_true]

omit [LawfulPump ι] in
/-- One that fits is received after its header, and validated. -/
theorem recvRest_fits (m : Machine DosState ι) (hfit : m.bx.toNat + 8 ≤ 256)
    (fail next : Machine DosState ι → β) :
    ∃ a c z, recvRest fail next m = (rxFill { m with
        ax := a, cx := BitVec.ofNat 16 (m.bx.toNat + 3), di := RX_BUF_OFF + PACKET_HEADER_LEN,
        cf := c, zf := z }
      |>.jc fail fun m =>
      m |>.mov .si (imm RX_BUF_OFF) |>.mov .cx (·.bx) |>.add .cx (imm PACKET_OVERHEAD)
        |> packetValidate |>.jc fail next) := by
  have hov : ¬ 65536 ≤ m.bx.toNat + PACKET_OVERHEAD.toNat := by
    rw [show PACKET_OVERHEAD.toNat = 8 from rfl]
    omega
  have hsum : (m.bx + PACKET_OVERHEAD).toNat = m.bx.toNat + 8 := by
    rw [BitVec.toNat_add, Nat.mod_eq_of_lt (not_le.mp hov)]
    rfl
  have hja : (decide ((m.bx + PACKET_OVERHEAD).toNat < PACKET_BUF_SIZE.toNat) ||
      decide (m.bx + PACKET_OVERHEAD = PACKET_BUF_SIZE)) = true := by
    rw [Bool.or_eq_true, decide_eq_true_iff, decide_eq_true_iff, ← BitVec.toNat_inj, hsum,
      show PACKET_BUF_SIZE.toNat = 256 from rfl]
    omega
  have hcx : BitVec.ofNat 16 (m.bx.toNat + 3) = m.bx + PACKET_TRAILER_LEN := by
    rw [BitVec.ofNat_add, ofNat_toNat16]
    rfl
  let m₁ : Machine DosState ι := m |>.mov .ax (·.bx) |>.add .ax (imm PACKET_OVERHEAD)
    |>.mov .cx (·.bx) |>.add .cx (imm PACKET_TRAILER_LEN)
  refine ⟨m₁.ax, m₁.cf, m₁.zf, ?_⟩
  simp only [recvRest, ↓jc, ↓ja, ↓reduceIte, mov, add, reg, setReg, imm, hov, Machine.cmp, hja,
    decide_false, Bool.false_eq_true, m₁, hcx]

/-- A packet heard whole is validated. -/
theorem validate_heard {m m₁ : Machine DosState ι} {h t : List Byte} (hh : Heard t false m m₁)
    (hl : h.length = 5) (ht : t.length = announced h + 3) (hfit : announced h + 8 ≤ 256)
    (hbx : m₁.bx = BitVec.ofNat 16 (announced h))
    (hbytes : m₁.mem.bytes RX_BUF_OFF (announced h + 8) = h ++ t)
    (fail next : Machine DosState ι → β) : RestHeard fail next h m
      (m₁ |>.mov .si (imm RX_BUF_OFF) |>.mov .cx (·.bx) |>.add .cx (imm PACKET_OVERHEAD)
        |> packetValidate |>.jc fail next) := by
  let m₂ : Machine DosState ι := m₁ |>.mov .si (imm RX_BUF_OFF) |>.mov .cx (·.bx)
    |>.add .cx (imm PACKET_OVERHEAD)
  have hcx : m₂.cx.toNat = announced h + 8 := by
    show (m₁.bx + PACKET_OVERHEAD).toNat = _
    rw [hbx, BitVec.toNat_add, toNat_ofNat16 (by omega), show PACKET_OVERHEAD.toNat = 8 from rfl,
      Nat.mod_eq_of_lt (by omega)]
  have hh₂ : Heard t false m (packetValidate m₂) := hh.congr rfl (packetValidate_core m₂)
  have hlen : (h ++ t).length = announced h + 8 := by
    rw [List.length_append, hl, ht]
    omega
  have hshort : ∀ {cmd seq payload}, h ++ t = frame cmd seq payload →
      payload.length + 8 = announced h + 8 := by
    intro cmd seq payload e
    rw [← hlen, e, length_frame]
    rfl
  have hfr : Accepted m₁.mem RX_BUF_OFF (announced h + 8) ↔
      ∃ cmd seq payload, payload.length ≤ MAX_PAYLOAD ∧ h ++ t = frame cmd seq payload := by
    rw [accepted_iff, hbytes, show MAX_PAYLOAD = 248 from rfl]
    constructor
    · rintro ⟨cmd, seq, payload, -, -, e⟩
      have := hshort e
      exact ⟨cmd, seq, payload, by omega, e⟩
    · rintro ⟨cmd, seq, payload, hp', e⟩
      exact ⟨cmd, seq, payload, by omega, hshort e, e⟩
  rcases packetValidate_ok m₂ with ⟨hacc, d, z, hv⟩ | ⟨hacc, a, b, w, d, s, z, hv⟩ <;>
    rw [hcx] at hacc
  · have e : (packetValidate m₂ |>.jc fail next) = next (packetValidate m₂) :=
      jc_neg (by rw [hv])
    obtain ⟨cmd, seq, payload, hp', hf⟩ := hfr.mp hacc
    have hmem : (packetValidate m₂).mem = m₁.mem := by rw [hv]; rfl
    refine .ok _ t cmd seq payload e hh₂ ht hp' hf ?_ ?_
    · rw [hmem, hshort hf, hbytes, hf]
    · have hcmd := Mem.getD_bytes m₁.mem RX_BUF_OFF (show 1 < announced h + 8 by omega)
      rw [hbytes, hf] at hcmd
      rw [hv]
      exact (lo_ofBytes _ _).trans hcmd.symm
  · have e : (packetValidate m₂ |>.jc fail next) = fail (packetValidate m₂) :=
      jc_pos (by rw [hv])
    refine .bad _ t e hh₂ ht fun cmd seq payload he => hacc (hfr.mpr ⟨cmd, seq, payload, ?_, he⟩)
    have := hshort he
    rw [show MAX_PAYLOAD = 248 from rfl]
    omega

theorem recvRest_ok (m : Machine DosState ι) (hp : m.mem currentPump = PUMP_LPT_SPP) {h : List Byte}
    (hl : h.length = 5) (hh : m.mem.bytes RX_BUF_OFF 5 = h)
    (hbx : m.bx = BitVec.ofNat 16 (announced h))
    (fail next : Machine DosState ι → β) : RestHeard fail next h m (recvRest fail next m) := by
  have hn : m.bx.toNat = announced h := by rw [hbx, toNat_ofNat16 (announced_lt h)]
  by_cases hbig : 256 < announced h + 8
  · obtain ⟨m₁, e, hcore⟩ := recvRest_long m (hn ▸ hbig) fail next
    exact .long m₁ e hcore (by rw [show MAX_PAYLOAD = 248 from rfl]; omega)
  obtain ⟨a, c, z, e⟩ := recvRest_fits m (by omega) fail next
  rw [e, hn]
  let m₁ : Machine DosState ι := { m with
    ax := a, cx := BitVec.ofNat 16 (announced h + 3), di := RX_BUF_OFF + PACKET_HEADER_LEN,
    cf := c, zf := z }
  have hcx : m₁.cx.toNat = announced h + 3 := toNat_ofNat16 (by omega)
  have hsub : Region.Sub ⟨RX_BUF_OFF + 5, announced h + 3⟩ ⟨RX_BUF_OFF, 256⟩ := by
    refine Region.sub_of_le ?_
    rw [show (RX_BUF_OFF + 5 - RX_BUF_OFF).toNat = 5 by decide]
    show 5 + (announced h + 3) ≤ 256
    omega
  obtain ⟨t, late, hheard, hcf, hbx', hlate, hfull⟩ := rxFill_heard m₁ hp (by omega) (hcx ▸ hsub)
  have hh₁ : Heard t late m (rxFill m₁) := hheard.congr rfl rfl
  generalize rxFill m₁ = m₂ at hh₁ hcf hbx' hfull
  cases late with
  | true =>
    rw [jc_pos hcf]
    exact .late m₂ t rfl hh₁ (hcx ▸ hlate rfl)
  | false =>
    obtain ⟨ht, ph, hmem⟩ := hfull rfl
    rw [hcx] at ht
    rw [jc_neg hcf]
    refine validate_heard hh₁ hl ht (by omega) (hbx'.trans hbx) ?_ fail next
    rw [hmem, show announced h + 8 = 5 + t.length by omega]
    exact bytes_two_fills m.mem ph hh (by omega)

end VintageKvm.Stage1
