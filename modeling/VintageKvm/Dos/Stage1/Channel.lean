import VintageKvm.Dos.Stage1.Packet
import VintageKvm.Dos.Stage1.Within

/-!
# Stage 1: the channel

`tx_drain` and `rx_fill` move strings through the byte pump of the current
channel. Stage 1 runs here over any pump (`Pump`): the SPP nibble pump on a
machine's ports, or a byte channel to a peer that is itself modelled. What a
pump may do is `LawfulPump`: a step of the link with one event, flags, AX,
and the phase variable.
-/

namespace VintageKvm.Stage1

open I8086 Machine Dos

/-- What happens on the link. -/
inductive Ev where
  | sent (b : Byte)
  | got (b : Byte)
  | timeout
  deriving DecidableEq

/-- The byte pump Stage 1 is assembled with. -/
class Pump (ι : Type) where
  lptSendByte : Machine DosState ι → Machine DosState ι
  lptRecvByte : Machine DosState ι → Machine DosState ι

/-- A pump that sends the byte in AL and receives into AL, or sets carry. The
link's state changes by a step of `Step`, at the port base in `lpt_base`. -/
class LawfulPump (ι : Type) [Pump ι] where
  Step : Word → Ev → ι → ι → Prop
  send_ok (m : Machine DosState ι) : ∃ c z io,
    Pump.lptSendByte m = { m with cf := c, zf := z, io := io } ∧
    Step (m.mem.word lptBase) (.sent (lo m.ax)) m.io io
  recv_ok (m : Machine DosState ι) :
    (∃ a z ph io, Pump.lptRecvByte m = { m with
        ax := a, cf := false, zf := z, mem := m.mem.set lastPhase ph,
        got := m.got ++ [lo a], io := io } ∧
      Step (m.mem.word lptBase) (.got (lo a)) m.io io) ∨
    (∃ a z ph io, Pump.lptRecvByte m = { m with
        ax := a, cf := true, zf := z, mem := m.mem.set lastPhase ph, io := io } ∧
      Step (m.mem.word lptBase) .timeout m.io io)

export LawfulPump (Step)

variable {ι : Type} [Pump ι]

/-! ## The routines -/

/-- `tx_drain`. -/
def txDrain (m : Machine DosState ι) : Machine DosState ι :=
  m |>.cmpb (·.byte currentPump) (imm PUMP_LPT_SPP) |>.jz lptSpp (·.stc)
where
  /-- `.lpt_spp`. -/
  lptSpp (m : Machine DosState ι) : Machine DosState ι :=
    m.jcxz (·.clc) fun m => m |>.loop (fun m => Pump.lptSendByte m.lodsb) |>.clc

/-- One turn of `rx_fill.loop`. -/
def rxFillLoop (m : Machine DosState ι) : Flow (Machine DosState ι) (Machine DosState ι) :=
  m |> Pump.lptRecvByte |>.jc (fun m => .done m.stc) fun m => .next m.stosb

/-- `rx_fill`. -/
def rxFill (m : Machine DosState ι) : Machine DosState ι :=
  m |>.cmpb (·.byte currentPump) (imm PUMP_LPT_SPP) |>.jz lptSpp (·.stc)
where
  /-- `.lpt_spp`. -/
  lptSpp (m : Machine DosState ι) : Machine DosState ι :=
    m.jcxz (·.clc) fun m => m.loopE rxFillLoop (·.clc)

/-- `packet_self_test`. -/
def packetSelfTest (m : Machine DosState ι) : Machine DosState ι :=
  m |>.movb .al (imm CMD_PING) |>.mov .si (imm testPayloadHello) |>.mov .cx (imm 5) |> packetEncode
    |>.push (·.cx) |>.mov .si (imm TX_BUF_OFF) |>.mov .di (imm RX_BUF_OFF) |>.repMovsb |>.pop .cx
    |>.mov .si (imm RX_BUF_OFF) |> packetValidate |>.jc fail fun m =>
  m |>.cmpb (·.reg8 .al) (imm CMD_PING) |>.jnz fail fun m =>
  m |>.cmp (·.cx) (imm 5) |>.jnz fail fun m =>
  m |>.mov .di (·.si) |>.mov .si (imm testPayloadHello) |>.repeCmpsb |>.jnz fail (·.clc)
where
  /-- `.fail`. -/
  fail (m : Machine DosState ι) : Machine DosState ι := m.stc

/-- `pump_dispatcher_self_test`. -/
def pumpDispatcherSelfTest (m : Machine DosState ι) : Machine DosState ι :=
  m |>.movb .al (·.byte currentPump) |>.push (·.ax)
    |>.stb (imm currentPump) (imm PUMP_NONE)
    |>.mov .si (imm TX_BUF_OFF) |>.xorw .cx (·.cx) |> txDrain |>.jnc fail fun m =>
  m |>.mov .di (imm RX_BUF_OFF) |>.xorw .cx (·.cx) |> rxFill |>.jnc fail fun m =>
  m |>.stb (imm currentPump) (imm PUMP_LPT_SPP)
    |>.mov .si (imm TX_BUF_OFF) |>.xorw .cx (·.cx) |> txDrain |>.jc fail fun m =>
  m |>.mov .di (imm RX_BUF_OFF) |>.xorw .cx (·.cx) |> rxFill |>.jc fail fun m =>
  m |>.pop .ax |>.stb (imm currentPump) (·.reg8 .al) |>.clc
where
  /-- `.fail`. -/
  fail (m : Machine DosState ι) : Machine DosState ι :=
    m |>.pop .ax |>.stb (imm currentPump) (·.reg8 .al) |>.stc

/-! ## What goes over the link -/

variable [LawfulPump ι]

/-- The events `evs` take the link from one state to another. -/
inductive Steps (base : Word) : List Ev → ι → ι → Prop
  | nil (io : ι) : Steps base [] io io
  | cons {ev : Ev} {evs : List Ev} {io₁ io₂ io₃ : ι} :
    Step base ev io₁ io₂ → Steps base evs io₂ io₃ → Steps base (ev :: evs) io₁ io₃

theorem Steps.append {base : Word} {evs evs' : List Ev} {io₁ io₂ io₃ : ι}
    (h₁ : Steps base evs io₁ io₂) (h₂ : Steps base evs' io₂ io₃) :
    Steps base (evs ++ evs') io₁ io₃ := by
  induction h₁ with
  | nil _ => exact h₂
  | cons h _ ih => exact .cons h (ih h₂)

theorem Steps.split {base : Word} {evs evs' : List Ev} {io₁ io₃ : ι}
    (h : Steps base (evs ++ evs') io₁ io₃) :
    ∃ io₂, Steps base evs io₁ io₂ ∧ Steps base evs' io₂ io₃ := by
  induction evs generalizing io₁ with
  | nil => exact ⟨io₁, .nil io₁, h⟩
  | cons ev evs ih =>
    cases h with
    | cons hstep hrest =>
      obtain ⟨io₂, h₁, h₂⟩ := ih hrest
      exact ⟨io₂, .cons hstep h₁, h₂⟩

theorem Steps.one {base : Word} {ev : Ev} {io₁ io₂ : ι} (h : Step base ev io₁ io₂) :
    Steps base [ev] io₁ io₂ := .cons h (.nil _)

/-- `tx_drain.loop` sends the CX bytes at DS:SI. -/
theorem txLoop_ok (m : Machine DosState ι) (hcx : m.cx ≠ 0) :
    ∃ a c z io, m.loop (fun m => Pump.lptSendByte m.lodsb) = { m with
        ax := a, cx := 0, si := m.si + m.cx, cf := c, zf := z, io := io } ∧
      Steps (m.mem.word lptBase) ((m.mem.bytes m.si m.cx.toNat).map .sent) m.io io := by
  let n := m.cx.toNat
  let I : Nat → Machine DosState ι → Prop := fun k m' => k ≤ n ∧ ∃ a w c z io, m' = { m with
      ax := a, cx := w, si := m.si + BitVec.ofNat 16 (n - k), cf := c, zf := z, io := io } ∧
    Steps (m.mem.word lptBase) ((m.mem.bytes m.si (n - k)).map .sent) m.io io
  have hbody : ∀ k m', I (k + 1) m' → m'.cx = BitVec.ofNat 16 (k + 1) →
      (Pump.lptSendByte m'.lodsb).cx = m'.cx ∧
        I k { Pump.lptSendByte m'.lodsb with cx := BitVec.ofNat 16 k } := by
    rintro k m' ⟨hk, a, w, c, z, io, hm, hs⟩ -
    obtain ⟨c', z', io', e, hs'⟩ := LawfulPump.send_ok m'.lodsb
    rw [e]
    subst hm
    simp only [lodsb, lo_ofBytes] at hs' ⊢
    refine ⟨trivial, Nat.le_of_succ_le hk,
      ofBytes (hi a) (m.mem (m.si + BitVec.ofNat 16 (n - (k + 1)))),
      BitVec.ofNat 16 k, c', z', io', ?_, ?_⟩
    · rw [add_ofNat_add_one, show n - (k + 1) + 1 = n - k by omega]
    · rw [show n - k = n - (k + 1) + 1 by omega, Mem.bytes_succ, List.map_append]
      exact hs.append (.one hs')
  have hI : I n m := by
    refine ⟨le_rfl, m.ax, m.cx, m.cf, m.zf, m.io, ?_, ?_⟩
    · rw [Nat.sub_self, show m.si + BitVec.ofNat 16 0 = m.si from BitVec.add_zero _]
    · rw [Nat.sub_self]
      exact .nil _
  obtain ⟨⟨-, a, w, c, z, io, e, hs⟩, hz⟩ :=
    loop_rule I hbody (toNat_pos_of_ne hcx) m.cx.isLt.le hI (ofNat_toNat16 m.cx).symm
  rw [e] at hz ⊢
  have hw : w = 0 := hz
  rw [hw, Nat.sub_zero, ofNat_toNat16]
  exact ⟨a, c, z, io, rfl, hs⟩

/-- `tx_drain` on the SPP pump sends the string at DS:SI. -/
theorem txDrain_ok (m : Machine DosState ι) (hp : m.mem currentPump = PUMP_LPT_SPP) :
    ∃ a z io,
      txDrain m = { m with ax := a, cx := 0, si := m.si + m.cx, cf := false, zf := z, io := io } ∧
      Steps (m.mem.word lptBase) ((m.mem.bytes m.si m.cx.toNat).map .sent) m.io io := by
  have hz : (m.cmpb (·.byte currentPump) (imm PUMP_LPT_SPP)).zf = true := decide_eq_true hp
  rw [txDrain, jz_pos hz, txDrain.lptSpp]
  by_cases hcx : (m.cmpb (·.byte currentPump) (imm PUMP_LPT_SPP)).cx = 0
  · have hcx' : m.cx = 0 := hcx
    rw [jcxz_pos hcx, hcx', show m.si + (0 : Word) = m.si from BitVec.add_zero _]
    exact ⟨m.ax, _, m.io, by rw [← hcx']; rfl, .nil _⟩
  · obtain ⟨a, c, z, io, e, hs⟩ := txLoop_ok _ hcx
    rw [jcxz_neg hcx, e]
    exact ⟨a, z, io, rfl, hs⟩

omit [LawfulPump ι] in
/-- `tx_drain` on another pump. -/
theorem txDrain_none (m : Machine DosState ι) (hp : m.mem currentPump ≠ PUMP_LPT_SPP) :
    txDrain m = { m with cf := true, zf := false } := by
  simp only [txDrain, cmpb, byte, imm, ↓jz, ↓reduceIte, hp, decide_false, Bool.false_eq_true, stc]

omit [LawfulPump ι] in
/-- `tx_drain` of nothing. -/
theorem txDrain_zero (m : Machine DosState ι) (hp : m.mem currentPump = PUMP_LPT_SPP)
    (h : m.cx = 0) : txDrain m = { m with cf := false, zf := true } := by
  simp only [txDrain, txDrain.lptSpp, cmpb, byte, imm, ↓jz, ↓jcxz, ↓reduceIte, hp, h,
    decide_true, clc]

/-- The end of an `rx_fill` for `n` bytes: all of them in the buffer at ES:DI,
or a timeout after fewer. -/
def Filled (n : Nat) (m m' : Machine DosState ι) : Prop :=
  (∃ a z ph bs io, bs.length = n ∧ m' = { m with
      ax := a, cx := 0, di := m.di + BitVec.ofNat 16 n, cf := false, zf := z
      mem := (m.mem.set lastPhase ph).store m.di bs, got := m.got ++ bs, io := io } ∧
    Steps (m.mem.word lptBase) (bs.map .got) m.io io) ∨
  (∃ a w z ph bs io, bs.length < n ∧ m' = { m with
      ax := a, cx := w, di := m.di + BitVec.ofNat 16 bs.length, cf := true, zf := z
      mem := (m.mem.set lastPhase ph).store m.di bs, got := m.got ++ bs, io := io } ∧
    Steps (m.mem.word lptBase) (bs.map .got ++ [.timeout]) m.io io)

/-- The pump's variables. -/
abbrev pumpVars : Region := ⟨lptBase, 3⟩

/-- After part of a buffer apart from the pump's variables is filled. -/
theorem filled_mem (mem : Mem) {a : Word} {bs : List Byte} {n : Nat} (ph ph' : Byte)
    (hn : n ≤ 65536) (hl : bs.length ≤ n) (ha : Region.Apart pumpVars ⟨a, n⟩) :
    ((mem.set lastPhase ph).store a bs).set lastPhase ph' = (mem.set lastPhase ph').store a bs ∧
    ((mem.set lastPhase ph).store a bs).word lptBase = mem.word lptBase := by
  have hsub : Region.Sub ⟨a, bs.length⟩ ⟨a, n⟩ :=
    Region.sub_of_le (by rw [BitVec.sub_self]; simpa using hl)
  have hout : ∀ x, pumpVars.Has x → ¬ (⟨a, bs.length⟩ : Region).Has x :=
    fun x hx h => ha x hx (hsub x h)
  constructor
  · rw [Mem.store_set_comm _ _ (le_trans hl hn) (hout _ (by decide)), Mem.set_set]
  · rw [Mem.word_store_of_not_has _ (le_trans hl hn) (hout _ (by decide)) (hout _ (by decide))]
    exact Mem.word_set_of_ne _ _ (by decide) (by decide)

/-- `rx_fill` on the SPP pump. -/
theorem rxFill_ok (m : Machine DosState ι) (hp : m.mem currentPump = PUMP_LPT_SPP)
    (ha : Region.Apart pumpVars ⟨m.di, m.cx.toNat⟩) : Filled m.cx.toNat m (rxFill m) := by
  have hz : (m.cmpb (·.byte currentPump) (imm PUMP_LPT_SPP)).zf = true := decide_eq_true hp
  rw [rxFill, jz_pos hz, rxFill.lptSpp]
  generalize hn : m.cx.toNat = n at ha
  have hle : n ≤ 65536 := hn ▸ m.cx.isLt.le
  by_cases hcx : (m.cmpb (·.byte currentPump) (imm PUMP_LPT_SPP)).cx = 0
  · have hcx' : m.cx = 0 := hcx
    have hn0 : n = 0 := by rw [← hn, hcx']; rfl
    rw [jcxz_pos hcx]
    refine .inl ⟨m.ax, true, m.mem lastPhase, [], m.io, hn0.symm, ?_, .nil _⟩
    rw [Mem.set_eq_self, List.append_nil, hn0,
      show m.di + BitVec.ofNat 16 0 = m.di from BitVec.add_zero _, ← hcx', ← hz]
    rfl
  rw [jcxz_neg hcx]
  have h0 : 0 < n := hn ▸ toNat_pos_of_ne hcx
  let I : Nat → Machine DosState ι → Prop :=
    fun k m' => ∃ a w c z ph bs io, bs.length + k = n ∧ m' = { m with
      ax := a, cx := w, di := m.di + BitVec.ofNat 16 bs.length, cf := c, zf := z
      mem := (m.mem.set lastPhase ph).store m.di bs, got := m.got ++ bs, io := io } ∧
    Steps (m.mem.word lptBase) (bs.map .got) m.io io
  have hbody : ∀ k m', I (k + 1) m' → m'.cx = BitVec.ofNat 16 (k + 1) →
      (rxFillLoop m').Sat (fun m'' => m''.cx = m'.cx ∧ I k { m'' with cx := BitVec.ofNat 16 k })
        (Filled n m) := by
    rintro k m' ⟨a, w, c, z, ph, bs, io, hk, hm, hs⟩ -
    have hl : bs.length ≤ n := by omega
    rcases LawfulPump.recv_ok m' with ⟨a', z', ph', io', e, hs'⟩ | ⟨a', z', ph', io', e, hs'⟩
    · obtain ⟨hset, hbase⟩ := filled_mem m.mem ph ph' hle hl ha
      subst hm
      simp only [hbase] at hs'
      simp only [rxFillLoop, e, jc, Bool.false_eq_true, if_false, stosb, Flow.sat_next]
      refine ⟨trivial, a', BitVec.ofNat 16 k, false, z', ph', bs ++ [lo a'], io', ?_, ?_, ?_⟩
      · rw [List.length_append, List.length_singleton]
        omega
      · rw [hset, Mem.set_store _ _ rfl, List.append_assoc, List.length_append,
          List.length_singleton, add_ofNat_add_one]
      · rw [List.map_append]
        exact hs.append (.one hs')
    · obtain ⟨hset, hbase⟩ := filled_mem m.mem ph ph' hle hl ha
      subst hm
      simp only [hbase] at hs'
      simp only [rxFillLoop, e, jc, if_true, stc, Flow.sat_done]
      refine .inr ⟨a', w, z', ph', bs, io', by omega, ?_, hs.append (.one hs')⟩
      rw [hset]
  have hfall : ∀ m', I 0 m' → m'.cx = 0 → Filled n m m'.clc := by
    rintro m' ⟨a, w, c, z, ph, bs, io, hk, rfl, hs⟩ hw
    have hw' : w = 0 := hw
    refine .inl ⟨a, z, ph, bs, io, hk, ?_, hs⟩
    rw [hw', show bs.length = n from hk]
    rfl
  have hI : I n (m.cmpb (·.byte currentPump) (imm PUMP_LPT_SPP)) := by
    refine ⟨m.ax, m.cx, decide ((m.mem currentPump).toNat < PUMP_LPT_SPP.toNat),
      decide (m.mem currentPump = PUMP_LPT_SPP), m.mem lastPhase, [], m.io,
        Nat.zero_add n, ?_, .nil _⟩
    rw [Mem.set_eq_self, List.append_nil, List.length_nil,
      show m.di + BitVec.ofNat 16 0 = m.di from BitVec.add_zero _]
    rfl
  exact loopE_rule I (Filled n m) hbody hfall h0 hle hI (hn ▸ (ofNat_toNat16 m.cx).symm)

omit [LawfulPump ι] in
/-- `rx_fill` on another pump. -/
theorem rxFill_none (m : Machine DosState ι) (hp : m.mem currentPump ≠ PUMP_LPT_SPP) :
    rxFill m = { m with cf := true, zf := false } := by
  simp only [rxFill, cmpb, byte, imm, ↓jz, ↓reduceIte, hp, decide_false, Bool.false_eq_true, stc]

omit [LawfulPump ι] in
/-- `rx_fill` of nothing. -/
theorem rxFill_zero (m : Machine DosState ι) (hp : m.mem currentPump = PUMP_LPT_SPP)
    (h : m.cx = 0) : rxFill m = { m with cf := false, zf := true } := by
  simp only [rxFill, rxFill.lptSpp, cmpb, byte, imm, ↓jz, ↓jcxz, ↓reduceIte, hp, h,
    decide_true, clc]

/-! ## The frames -/

/-- A step of the link at a port base. -/
def Link (base : Word) (io io' : ι) : Prop := ∃ ev, Step base ev io io'

theorem Steps.link {base : Word} {evs : List Ev} {io io' : ι} (h : Steps base evs io io') :
    Relation.ReflTransGen (Link base) io io' := by
  induction h with
  | nil _ => exact .refl
  | cons hs _ ih => exact .head ⟨_, hs⟩ ih

/-- What the sending of a packet writes to. -/
abbrev txWire : List Region := [⟨txSeq, 1⟩, ⟨TX_BUF_OFF, 256⟩]

/-- What the receiving of a packet writes to. -/
abbrev rxWire : List Region := [⟨lastPhase, 1⟩, ⟨RX_BUF_OFF, 256⟩]

/-- What the exchange of packets writes to. -/
abbrev wire : List Region := [⟨lastPhase, 1⟩, ⟨txSeq, 1⟩, ⟨TX_BUF_OFF, 256⟩, ⟨RX_BUF_OFF, 256⟩]

omit [Pump ι] [LawfulPump ι] in
theorem packetValidate_core (m : Machine DosState ι) : SameCore m (packetValidate m) := by
  rcases packetValidate_ok m with ⟨-, d, z, e⟩ | ⟨-, a, b, w, d, s, z, e⟩ <;> rw [e] <;> rfl

omit [Pump ι] [LawfulPump ι] in
theorem packetEncode_keeps {r : Word → ι → ι → Prop} (m : Machine DosState ι)
    (hlen : m.cx.toNat ≤ Protocol.MAX_PAYLOAD)
    (ha : PayloadApart m) : Keeps r txWire m (packetEncode m) := by
  obtain ⟨c, z, e⟩ := packetEncode_ok m hlen ha
  generalize hf : Protocol.frame (lo m.ax) (m.mem txSeq) (m.mem.bytes m.si m.cx.toNat) = f at e
  have hl : f.length ≤ 256 := by
    rw [← hf, Protocol.length_frame, Mem.length_bytes]
    exact Nat.add_le_add_right hlen 8
  have hsub : Region.Sub ⟨TX_BUF_OFF, f.length⟩ ⟨TX_BUF_OFF, 256⟩ := Region.sub_of_le (by
    rw [BitVec.sub_self]
    simpa using hl)
  have hmem : Frame txWire m.mem ((m.mem.set txSeq (m.mem txSeq + 1)).store TX_BUF_OFF f) :=
    ((Frame.refl _ _).set _ (by decide)).trans ((Frame.store _ _ _ (by omega)).widen fun s hs => by
      rw [List.mem_singleton.mp hs]
      exact ⟨⟨TX_BUF_OFF, 256⟩, by decide, hsub⟩)
  rw [e]
  exact ⟨⟨rfl, rfl, rfl, rfl, hmem, hmem.word (by decide) (by decide), List.prefix_rfl,
    .refl⟩, .refl _⟩

theorem txDrain_keeps {rs : List Region} (m : Machine DosState ι) :
    Keeps Link rs m (txDrain m) ∧ (txDrain m).cf = decide (m.mem currentPump ≠ PUMP_LPT_SPP) := by
  by_cases hp : m.mem currentPump = PUMP_LPT_SPP
  · obtain ⟨a, z, io, e, hs⟩ := txDrain_ok m hp
    rw [e]
    refine ⟨⟨⟨rfl, rfl, rfl, rfl, .refl _ _, rfl, List.prefix_rfl, hs.link⟩, .refl _⟩, ?_⟩
    simp only [hp, ne_eq, not_true, decide_false]
  · rw [txDrain_none m hp]
    refine ⟨(Keeps.refl m).congr rfl rfl, ?_⟩
    simp only [hp, ne_eq, not_false_eq_true, decide_true]

theorem Filled.within {n : Nat} {m m' : Machine DosState ι} (h : Filled n m m') (hn : n ≤ 256)
    (hsub : Region.Sub ⟨m.di, n⟩ ⟨RX_BUF_OFF, 256⟩) : Keeps Link rxWire m m' := by
  have hmem : ∀ (bs : List Byte) ph, bs.length ≤ n →
      Frame rxWire m.mem ((m.mem.set lastPhase ph).store m.di bs) := by
    intro bs ph hl
    refine ((Frame.refl _ _).set _ (by decide)).trans ((Frame.store _ _ _ (by omega)).widen
      fun s hs => ?_)
    rw [List.mem_singleton.mp hs]
    refine ⟨⟨RX_BUF_OFF, 256⟩, by decide, fun x hx => hsub x (Region.sub_of_le ?_ x hx)⟩
    rw [BitVec.sub_self]
    simpa using hl
  rcases h with ⟨a, z, ph, bs, io, hl, rfl, hs⟩ | ⟨a, w, z, ph, bs, io, hl, rfl, hs⟩
  · have hm := hmem bs ph hl.le
    exact ⟨⟨rfl, rfl, rfl, rfl, hm, hm.word (by decide) (by decide), List.prefix_append _ _,
      hs.link⟩, .refl _⟩
  · have hm := hmem bs ph hl.le
    exact ⟨⟨rfl, rfl, rfl, rfl, hm, hm.word (by decide) (by decide), List.prefix_append _ _,
      hs.link⟩, .refl _⟩

/-! ## The self-tests -/

omit [Pump ι] [LawfulPump ι] in
theorem repeCmpsb_core (m : Machine DosState ι) : SameCore m m.repeCmpsb := by
  suffices h : ∀ n (m : Machine DosState ι), core (repeCmpsbN n m) = core m from h _ m
  intro n
  induction n with
  | zero => exact fun _ => rfl
  | succ n ih =>
    intro m
    rw [repeCmpsbN]
    simp only
    split
    · rw [ih]
      rfl
    · rfl

omit [Pump ι] [LawfulPump ι] in
theorem packetSelfTest_keeps {r : Word → ι → ι → Prop} (m : Machine DosState ι) :
    Keeps r wire m (packetSelfTest m) := by
  let m₀ : Machine DosState ι := m |>.movb .al (imm CMD_PING) |>.mov .si (imm testPayloadHello)
    |>.mov .cx (imm 5)
  have ha : PayloadApart m₀ := payloadApart_of_eq testPayloadHello 5 rfl rfl
    (Region.apart_of_le (by decide) (by decide)) (by decide)
  have hlen : m₀.cx.toNat ≤ Protocol.MAX_PAYLOAD :=
    show (5 : Word).toNat ≤ Protocol.MAX_PAYLOAD by decide
  have he : Keeps r wire m (packetEncode m₀) :=
    ((packetEncode_keeps m₀ hlen ha).mono (by decide)).congr rfl rfl
  have hcx : (packetEncode m₀).cx = 8 := (packetEncode_buffer m₀ hlen ha).2.2
  generalize hm₁ : packetEncode m₀ = m₁ at he hcx
  let m₂ : Machine DosState ι := m₁ |>.push (·.cx) |>.mov .si (imm TX_BUF_OFF)
    |>.mov .di (imm RX_BUF_OFF)
  let m₃ : Machine DosState ι := m₂.repMovsb |>.pop .cx |>.mov .si (imm RX_BUF_OFF)
  have hc : Keeps r wire m₁ m₃ := by
    have happ : Region.Apart ⟨TX_BUF_OFF, (8 : Word).toNat⟩ ⟨RX_BUF_OFF, (8 : Word).toNat⟩ :=
      Region.apart_of_le (by decide) (by decide)
    have hcopy := repMovsb_eq m₂
      (show Region.Apart ⟨TX_BUF_OFF, m₁.cx.toNat⟩ ⟨RX_BUF_OFF, m₁.cx.toNat⟩ from hcx ▸ happ)
    have hmem :
        Frame wire m₁.mem (m₁.mem.store RX_BUF_OFF (m₁.mem.bytes TX_BUF_OFF (8 : Word).toNat)) :=
      (Frame.store _ _ _ (by rw [Mem.length_bytes]; decide)).widen fun s hs => by
        rw [List.mem_singleton.mp hs, Mem.length_bytes]
        exact ⟨⟨RX_BUF_OFF, 256⟩, by decide, Region.sub_of_le (by decide)⟩
    have e : m₃ = { m₁ with
        cx := 8, si := RX_BUF_OFF, di := RX_BUF_OFF + 8
        mem := m₁.mem.store RX_BUF_OFF (m₁.mem.bytes TX_BUF_OFF (8 : Word).toNat) } := by
      show (m₂.repMovsb |>.pop .cx |>.mov .si (imm RX_BUF_OFF)) = _
      rw [hcopy]
      simp only [m₂, push, pop, top, mov, setReg, imm, hcx, List.headD_cons, List.tail_cons]
    rw [e]
    exact ⟨⟨rfl, rfl, rfl, rfl, hmem, hmem.word (by decide) (by decide), List.prefix_rfl,
      .refl⟩, .refl _⟩
  have hv : SameCore m₃ (packetValidate m₃) := packetValidate_core m₃
  have hrun : packetSelfTest m = (packetValidate m₃ |>.jc packetSelfTest.fail fun m =>
      m |>.cmpb (·.reg8 .al) (imm CMD_PING) |>.jnz packetSelfTest.fail fun m =>
      m |>.cmp (·.cx) (imm 5) |>.jnz packetSelfTest.fail fun m =>
      m |>.mov .di (·.si) |>.mov .si (imm testPayloadHello) |>.repeCmpsb
        |>.jnz packetSelfTest.fail (·.clc)) := by
    simp only [m₃, m₂, ← hm₁, m₀, packetSelfTest]
  suffices h : SameCore m₃ (packetSelfTest m) from (he.trans hc).congr rfl h
  rw [hrun]
  clear hrun
  generalize packetValidate m₃ = m₄ at hv
  clear_value m₃
  have hcmp := repeCmpsb_core (m₄ |>.cmpb (·.reg8 .al) (imm CMD_PING) |>.cmp (·.cx) (imm 5)
    |>.mov .di (·.si) |>.mov .si (imm testPayloadHello))
  simp only [SameCore, core, cmpb, Machine.cmp, mov, setReg] at hcmp hv
  refine jc_cases (fun _ => ?_) fun _ => jnz_cases (fun _ => ?_)
    fun _ => jnz_cases (fun _ => ?_) fun _ => ?_
  · simp only [SameCore, core, packetSelfTest.fail, stc, hv]
  · simp only [SameCore, core, packetSelfTest.fail, stc, cmpb, hv]
  · simp only [SameCore, core, packetSelfTest.fail, stc, cmpb, Machine.cmp, hv]
  · simp only [cmpb, Machine.cmp, mov, setReg]
    generalize repeCmpsb _ = x at hcmp ⊢
    refine jnz_cases (fun _ => ?_) fun _ => ?_ <;>
      simp only [SameCore, core, packetSelfTest.fail, stc, clc, hcmp, hv]

omit [LawfulPump ι] in
/-- The dispatcher's self-test does no I/O. -/
theorem pumpDispatcherSelfTest_core (m : Machine DosState ι) :
    SameCore m (pumpDispatcherSelfTest m) := by
  have hne : ¬ PUMP_NONE = PUMP_LPT_SPP := by decide
  simp only [pumpDispatcherSelfTest, ↓jnc, ↓jc, ↓reduceIte, movb, push, stb, mov, xorw, reg, setReg,
    reg8, setReg8, byte, imm, BitVec.xor_self, Mem.set_self, Mem.set_set, Mem.set_eq_self,
    txDrain_none, rxFill_none, txDrain_zero, rxFill_zero, hne, ne_eq, not_false_eq_true,
    Bool.false_eq_true, pop, top, clc, List.headD_cons, List.tail_cons, lo_ofBytes, SameCore, core,
    show (0#16 : Word) = 0 from rfl]

end VintageKvm.Stage1
