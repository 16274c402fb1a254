import VintageKvm.I8086.Bus

/-!
# The SPP nibble byte pump

The routines of `stage0/lpt_nibble.inc`, shared by all stages: a byte goes
out through the data register with a strobe, and comes in as two nibbles on
status bits 3 to 6, each announced by a change of bit 7 (the phase).

The two nested polling loops of `lpt_recv_nibble` are one bounded loop over
the status port (`pollNibble`); `lptRecvNibble_ok` says so, and with it what
the routine leaves in every register.
-/

namespace VintageKvm.Dos

open I8086 Machine

variable {δ ι : Type} [Ports ι]

abbrev LPT_DATA : Word := 0
abbrev LPT_STATUS : Word := 1
abbrev LPT_CONTROL : Word := 2
abbrev CTRL_INIT : Byte := 0x04
abbrev CTRL_BASE : Byte := 0x0C
abbrev STAT_NIBBLE_MASK : Byte := 0x78
abbrev STAT_PHASE : Byte := 0x80
abbrev TIMEOUT_OUTER : Word := 0xFFFF
abbrev TIMEOUT_INNER : Word := 0x0010

/-- What the program that includes the pump fixes: where the pump's variables
lie, and the count of `tiny_delay`. -/
structure LptNibble where
  lptBase : Word
  DELAY_COUNT : Word

namespace LptNibble

variable (v : LptNibble)

/-- `last_phase` follows the word `lpt_base`. -/
def lastPhase : Word := v.lptBase + 2

theorem word_lptBase_set (mem : Mem) (b : Byte) :
    (mem.set v.lastPhase b).word v.lptBase = mem.word v.lptBase :=
  Mem.word_set_of_ne mem b (by rw [lastPhase]; bv_omega) (by rw [lastPhase]; bv_omega)

/-- `tiny_delay`. -/
def tinyDelay (m : Machine δ ι) : Machine δ ι :=
  m |>.push (·.cx) |>.mov .cx (imm v.DELAY_COUNT) |>.loop id |>.pop .cx

/-- `tiny_delay_short`. -/
def tinyDelayShort (m : Machine δ ι) : Machine δ ι :=
  m |>.push (·.cx) |>.mov .cx (imm 12) |>.loop id |>.pop .cx

/-- `init_lpt_control`. -/
def initLptControl (m : Machine δ ι) : Machine δ ι :=
  m |>.mov .dx (·.word v.lptBase) |>.add .dx (imm LPT_CONTROL)
    |>.movb .al (imm CTRL_BASE) |>.outAl (·.dx) |> v.tinyDelay
    |>.mov .dx (·.word v.lptBase) |>.add .dx (imm LPT_STATUS)
    |>.inAl (·.dx) |>.andb .al (imm STAT_PHASE) |>.stb (imm v.lastPhase) (·.reg8 .al)

/-- `lpt_send_byte`. -/
def lptSendByte (m : Machine δ ι) : Machine δ ι :=
  m |>.push (·.ax) |>.push (·.dx)
    |>.mov .dx (·.word v.lptBase) |>.add .dx (imm LPT_DATA) |>.outAl (·.dx) |> v.tinyDelay
    |>.mov .dx (·.word v.lptBase) |>.add .dx (imm LPT_CONTROL)
    |>.movb .al (imm (CTRL_BASE ^^^ CTRL_INIT)) |>.outAl (·.dx) |> v.tinyDelay
    |>.movb .al (imm CTRL_BASE) |>.outAl (·.dx) |> v.tinyDelay
    |>.pop .dx |>.pop .ax

/-- `lpt_recv_nibble.candidate_phase`, with the second read. -/
def candidatePhase (m : Machine δ ι) : Flow (Machine δ ι) (Flow (Machine δ ι) (Machine δ ι)) :=
  m |>.movb .bh (·.reg8 .al) |> tinyDelayShort
    |>.inAl (·.dx) |>.movb .ah (·.reg8 .al) |>.andb .ah (imm STAT_PHASE)
    |>.cmpb (·.reg8 .ah) (·.reg8 .bl)
    |>.jz (fun m => .next (m.movb .al (·.reg8 .bh)))
      fun m => .done (.done (m |>.stb (imm v.lastPhase) (·.reg8 .ah) |>.pop .cx
        |>.andb .al (imm STAT_NIBBLE_MASK) |>.shrb .al 3 |>.andb .al (imm 0x0F) |>.clc))

/-- One turn of `lpt_recv_nibble.wait_inner`. -/
def waitInner (m : Machine δ ι) : Flow (Machine δ ι) (Flow (Machine δ ι) (Machine δ ι)) :=
  m |>.inAl (·.dx) |>.movb .ah (·.reg8 .al) |>.andb .ah (imm STAT_PHASE)
    |>.cmpb (·.reg8 .ah) (·.reg8 .bl) |>.jnz v.candidatePhase .next

/-- One turn of `lpt_recv_nibble.wait_outer`. -/
def waitOuter (m : Machine δ ι) : Flow (Machine δ ι) (Machine δ ι) :=
  m |>.push (·.cx) |>.mov .cx (imm TIMEOUT_INNER)
    |>.loopE v.waitInner (fun m => .next (m.pop .cx))

/-- `lpt_recv_nibble`. -/
def lptRecvNibble (m : Machine δ ι) : Machine δ ι :=
  m |>.push (·.bx) |>.push (·.cx) |>.push (·.dx)
    |>.mov .dx (·.word v.lptBase) |>.add .dx (imm LPT_STATUS)
    |>.movb .bl (·.byte v.lastPhase) |>.mov .cx (imm TIMEOUT_OUTER)
    |>.loopE v.waitOuter (·.stc)
    |>.pop .dx |>.pop .cx |>.pop .bx

/-- `lpt_recv_byte`. -/
def lptRecvByte (m : Machine δ ι) : Machine δ ι :=
  m |>.push (·.bx) |> v.lptRecvNibble |>.jc fail fun m =>
    m |>.movb .bl (·.reg8 .al) |> v.lptRecvNibble |>.jc fail fun m =>
      m |>.shlb .al 4 |>.orb .al (·.reg8 .bl) |>.clc |>.pop .bx |> returned
where
  /-- `.fail`. -/
  fail (m : Machine δ ι) : Machine δ ι := m.stc |>.pop .bx
  /-- The history of what the receiver has returned. -/
  returned (m : Machine δ ι) : Machine δ ι := { m with got := m.got ++ [lo m.ax] }

/-! ## The delays -/

omit [Ports ι] in
theorem tinyDelay_eq (m : Machine δ ι) : v.tinyDelay m = m := by
  simp only [tinyDelay, loop_id, push, mov, setReg, pop, top, List.headD_cons, List.tail_cons]

omit [Ports ι] in
theorem tinyDelayShort_eq (m : Machine δ ι) : tinyDelayShort m = m := by
  simp only [tinyDelayShort, loop_id, push, mov, setReg, pop, top, List.headD_cons, List.tail_cons]

/-- `init_lpt_control` takes the phase on the status port for the last one. -/
theorem initLptControl_ok (m : Machine δ ι) : ∃ a d z c, v.initLptControl m = { m with
    ax := a, dx := d, zf := z, cf := c
    mem := m.mem.set v.lastPhase ((Ports.inp (m.mem.word v.lptBase + LPT_STATUS)
      (Ports.out (m.mem.word v.lptBase + LPT_CONTROL) CTRL_BASE m.io)).1 &&& STAT_PHASE)
    io := (Ports.inp (m.mem.word v.lptBase + LPT_STATUS)
      (Ports.out (m.mem.word v.lptBase + LPT_CONTROL) CTRL_BASE m.io)).2 } := by
  simp only [initLptControl, tinyDelay_eq, mov, add, movb, outAl, inAl, andb, stb, setReg, setReg8,
    reg, reg8, word, imm, lo_ofBytes]
  exact ⟨_, _, _, _, rfl⟩

/-! ## Receiving a nibble -/

/-- At most `n` polls of the status port `p` for a phase other than `ph`, each
that sees one read again: the second read, if its phase differs too. -/
def pollNibble (p : Word) (ph : Byte) : Nat → ι → Option Byte × ι
  | 0, io => (none, io)
  | n + 1, io =>
    let (s, io₁) := Ports.inp p io
    if s &&& STAT_PHASE = ph then pollNibble p ph n io₁
    else
      let (s', io₂) := Ports.inp p io₁
      if s' &&& STAT_PHASE = ph then pollNibble p ph n io₂ else (some s', io₂)

/-- The nibble on status bits 3 to 6. -/
def nibbleOf (s : Byte) : Byte := ((s &&& STAT_NIBBLE_MASK) >>> 3) &&& 0x0F

/-- What one turn of the inner loop does, by the phases it reads. -/
theorem waitInner_ok (m : Machine δ ι) :
    (∃ a b z c io', v.waitInner m =
      .next { m with ax := a, bx := ofBytes b (lo m.bx), zf := z, cf := c, io := io' } ∧
      ∀ n, pollNibble m.dx (lo m.bx) (n + 1) m.io = pollNibble m.dx (lo m.bx) n io') ∨
    ∃ s b z io', v.waitInner m = .done (.done { m with
        ax := ofBytes (s &&& STAT_PHASE) (nibbleOf s), bx := ofBytes b (lo m.bx),
        cx := m.stk.headD 0
        zf := z, cf := false, stk := m.stk.tail
        mem := m.mem.set v.lastPhase (s &&& STAT_PHASE), io := io' }) ∧
      ∀ n, pollNibble m.dx (lo m.bx) (n + 1) m.io = (some s, io') := by
  generalize hs : (Ports.inp m.dx m.io).1 = s
  generalize hio : (Ports.inp m.dx m.io).2 = io₁
  generalize hs' : (Ports.inp m.dx io₁).1 = s'
  generalize hio' : (Ports.inp m.dx io₁).2 = io₂
  by_cases h : s &&& STAT_PHASE = lo m.bx
  · left
    refine ⟨ofBytes (s &&& STAT_PHASE) s, hi m.bx, true,
      decide ((s &&& STAT_PHASE).toNat < (lo m.bx).toNat), io₁, ?_, ?_⟩
    · simp only [waitInner, inAl, movb, andb, cmpb, jnz, reg8, setReg8,
        imm, hs, hio, hi_ofBytes, lo_ofBytes, h, decide_true, if_true, ofBytes_hi_lo]
    · intro n
      simp only [pollNibble, hs, hio, h, if_true]
  · by_cases h' : s' &&& STAT_PHASE = lo m.bx
    · left
      refine ⟨ofBytes (lo m.bx) s, s, true,
        decide ((s' &&& STAT_PHASE).toNat < (lo m.bx).toNat), io₂, ?_, ?_⟩
      · simp only [waitInner, inAl, movb, andb, cmpb, jnz, jz, reg8, setReg8,
          imm, hs, hio, hs', hio', hi_ofBytes, lo_ofBytes, h, h', decide_true, decide_false,
          if_true, if_false, Bool.false_eq_true, candidatePhase, tinyDelayShort_eq]
      · intro n
        simp only [pollNibble, hs, hio, hs', hio', h, h', if_true, if_false]
    · right
      refine ⟨s', s, decide (nibbleOf s' = 0), io₂, ?_, ?_⟩
      · simp only [waitInner, inAl, movb, andb, cmpb, jnz, jz, reg8, setReg8, imm, hs, hio, hs',
          hio', hi_ofBytes, lo_ofBytes, h, h', decide_false, if_false, Bool.false_eq_true,
          candidatePhase, tinyDelayShort_eq, stb, pop, top, setReg, shrb, clc, nibbleOf]
        rfl
      · intro n
        simp only [pollNibble, hs, hio, hs', hio', h, h', if_false]

/-- A turn of the outer loop is sixteen polls. -/
theorem waitOuter_ok (m : Machine δ ι) :
    (∃ a b z c io', v.waitOuter m =
      .next { m with ax := a, bx := ofBytes b (lo m.bx), zf := z, cf := c, io := io' } ∧
      ∀ n, pollNibble m.dx (lo m.bx) (n + 16) m.io = pollNibble m.dx (lo m.bx) n io') ∨
    ∃ s b z io', v.waitOuter m = .done { m with
        ax := ofBytes (s &&& STAT_PHASE) (nibbleOf s), bx := ofBytes b (lo m.bx),
        zf := z, cf := false
        mem := m.mem.set v.lastPhase (s &&& STAT_PHASE), io := io' } ∧
      ∀ n, pollNibble m.dx (lo m.bx) (n + 16) m.io = (some s, io') := by
  let I : Nat → Machine δ ι → Prop := fun k m' =>
    ∃ a b z c io', m' = { m with
        ax := a, bx := ofBytes b (lo m.bx), cx := BitVec.ofNat 16 k, zf := z, cf := c
        stk := m.cx :: m.stk, io := io' } ∧
      ∀ n, pollNibble m.dx (lo m.bx) (n + 16) m.io = pollNibble m.dx (lo m.bx) (n + k) io'
  let Q : Flow (Machine δ ι) (Machine δ ι) → Prop := fun f =>
    (∃ a b z c io',
      f = .next { m with ax := a, bx := ofBytes b (lo m.bx), zf := z, cf := c, io := io' } ∧
      ∀ n, pollNibble m.dx (lo m.bx) (n + 16) m.io = pollNibble m.dx (lo m.bx) n io') ∨
    ∃ s b z io', f = .done { m with
        ax := ofBytes (s &&& STAT_PHASE) (nibbleOf s), bx := ofBytes b (lo m.bx),
        zf := z, cf := false
        mem := m.mem.set v.lastPhase (s &&& STAT_PHASE), io := io' } ∧
      ∀ n, pollNibble m.dx (lo m.bx) (n + 16) m.io = (some s, io')
  have hbody : ∀ k m', I (k + 1) m' → m'.cx = BitVec.ofNat 16 (k + 1) →
      (v.waitInner m').Sat
        (fun m'' => m''.cx = m'.cx ∧ I k { m'' with cx := BitVec.ofNat 16 k }) Q := by
    intro k m' ⟨a, b, z, c, io', hm, hpoll⟩ _
    rcases v.waitInner_ok m' with
      ⟨a₁, b₁, z₁, c₁, io₁, e, hp⟩ | ⟨s, b₁, z₁, io₁, e, hp⟩ <;> rw [e] <;> subst hm
    · simp only [lo_ofBytes] at hp
      refine ⟨rfl, a₁, b₁, z₁, c₁, io₁, by simp only [lo_ofBytes], fun n => ?_⟩
      rw [hpoll, ← Nat.add_assoc, hp]
    · simp only [lo_ofBytes] at hp
      refine .inr ⟨s, b₁, z₁, io₁, by simp only [lo_ofBytes, List.headD_cons, List.tail_cons],
        fun n => ?_⟩
      rw [hpoll, ← Nat.add_assoc, hp]
  have hfall : ∀ m', I 0 m' → m'.cx = 0 → Q (.next (m'.pop .cx)) := by
    rintro _ ⟨a, b, z, c, io', rfl, hpoll⟩ -
    exact .inl ⟨a, b, z, c, io', rfl, hpoll⟩
  have h0 : I 16 (m |>.push (·.cx) |>.mov .cx (imm TIMEOUT_INNER)) :=
    ⟨m.ax, hi m.bx, m.zf, m.cf, m.io, by simp only [push, mov, setReg, imm, ofBytes_hi_lo]; rfl,
      fun _ => rfl⟩
  exact loopE_rule I Q hbody hfall (by decide) (by decide) h0 rfl

/-- The budget of polls. -/
abbrev POLLS : Nat := 0xFFFF * 0x10

/-- `lpt_recv_nibble`: the nibble of the status read that ends the polling
and the phase it carries, or carry. -/
theorem lptRecvNibble_ok (m : Machine δ ι) :
    (∃ a z io', v.lptRecvNibble m = { m with ax := a, zf := z, cf := true, io := io' } ∧
      pollNibble (m.mem.word v.lptBase + LPT_STATUS) (m.mem v.lastPhase) POLLS m.io = (none, io')) ∨
    ∃ s z io', v.lptRecvNibble m = { m with
        ax := ofBytes (s &&& STAT_PHASE) (nibbleOf s), zf := z, cf := false
        mem := m.mem.set v.lastPhase (s &&& STAT_PHASE), io := io' } ∧
      pollNibble (m.mem.word v.lptBase + LPT_STATUS) (m.mem v.lastPhase) POLLS m.io =
      (some s, io') := by
  generalize hp : m.mem.word v.lptBase + LPT_STATUS = p
  generalize hph : m.mem v.lastPhase = ph
  let I : Nat → Machine δ ι → Prop := fun k m' =>
    ∃ a b z c io', m' = { m with
        ax := a, bx := ofBytes b ph, cx := BitVec.ofNat 16 k, dx := p, zf := z, cf := c
        stk := m.dx :: m.cx :: m.bx :: m.stk, io := io' } ∧
      pollNibble p ph POLLS m.io = pollNibble p ph (k * 16) io'
  let Q : Machine δ ι → Prop := fun m' => ∃ a b w z c io' mem',
    m' = { m with
        ax := a, bx := b, cx := w, dx := p, zf := z, cf := c
        stk := m.dx :: m.cx :: m.bx :: m.stk, mem := mem', io := io' } ∧
      ((c = true ∧ mem' = m.mem ∧ pollNibble p ph POLLS m.io = (none, io')) ∨
        ∃ s, c = false ∧ a = ofBytes (s &&& STAT_PHASE) (nibbleOf s) ∧
          mem' = m.mem.set v.lastPhase (s &&& STAT_PHASE) ∧
          pollNibble p ph POLLS m.io = (some s, io'))
  have hbody : ∀ k m', I (k + 1) m' → m'.cx = BitVec.ofNat 16 (k + 1) →
      (v.waitOuter m').Sat
        (fun m'' => m''.cx = m'.cx ∧ I k { m'' with cx := BitVec.ofNat 16 k }) Q := by
    intro k m' ⟨a, b, z, c, io', hm, hpoll⟩ _
    rcases v.waitOuter_ok m' with
      ⟨a₁, b₁, z₁, c₁, io₁, e, hpo⟩ | ⟨s, b₁, z₁, io₁, e, hpo⟩ <;> rw [e] <;> subst hm
    · simp only [lo_ofBytes] at hpo
      refine ⟨rfl, a₁, b₁, z₁, c₁, io₁, by simp only [lo_ofBytes], ?_⟩
      rw [hpoll, Nat.succ_mul, hpo]
    · simp only [lo_ofBytes] at hpo
      refine ⟨_, _, _, _, _, io₁, _, rfl, .inr ⟨s, rfl, rfl, rfl, ?_⟩⟩
      rw [hpoll, Nat.succ_mul, hpo]
  have hfall : ∀ m', I 0 m' → m'.cx = 0 → Q m'.stc := by
    rintro _ ⟨a, b, z, c, io', rfl, hpoll⟩ -
    exact ⟨_, _, _, _, _, io', _, rfl, .inl ⟨rfl, rfl, by rw [hpoll, Nat.zero_mul]; rfl⟩⟩
  have h0 : I 0xFFFF (m |>.push (·.bx) |>.push (·.cx) |>.push (·.dx)
      |>.mov .dx (·.word v.lptBase) |>.add .dx (imm LPT_STATUS)
      |>.movb .bl (·.byte v.lastPhase) |>.mov .cx (imm TIMEOUT_OUTER)) := by
    refine ⟨m.ax, hi m.bx, decide (p = 0),
      decide (65536 ≤ (m.mem.word v.lptBase).toNat + LPT_STATUS.toNat), m.io, ?_, rfl⟩
    simp only [push, mov, add, movb, setReg, setReg8, reg, word, byte, imm, hp, hph]
    rfl
  have hloop := loopE_rule I Q hbody hfall (by decide) (by decide) h0 rfl
  rw [lptRecvNibble]
  obtain ⟨a, b, w, z, c, io', mem', e, h⟩ := hloop
  rw [e]
  rcases h with ⟨rfl, rfl, h⟩ | ⟨s, rfl, rfl, rfl, h⟩
  · exact .inl ⟨a, z, io', rfl, h⟩
  · exact .inr ⟨s, z, io', rfl, h⟩

/-! ## Bytes -/

/-- Two nibbles polled for, low first: the byte (none on a timeout), the phase
last accepted, and the ports after it. -/
def pollByte (p : Word) (ph : Byte) (io : ι) : Option Byte × Byte × ι :=
  match pollNibble p ph POLLS io with
  | (none, io₁) => (none, ph, io₁)
  | (some s, io₁) =>
    match pollNibble p (s &&& STAT_PHASE) POLLS io₁ with
    | (none, io₂) => (none, s &&& STAT_PHASE, io₂)
    | (some s', io₂) => (some (nibbleOf s' <<< 4 ||| nibbleOf s), s' &&& STAT_PHASE, io₂)

theorem pollByte_late {p : Word} {ph s : Byte} {io io₁ io₂ : ι}
    (h₁ : pollNibble p ph POLLS io = (some s, io₁))
    (h₂ : pollNibble p (s &&& STAT_PHASE) POLLS io₁ = (none, io₂)) :
    pollByte p ph io = (none, s &&& STAT_PHASE, io₂) := by
  rw [pollByte, h₁]
  dsimp only
  rw [h₂]

theorem pollByte_some {p : Word} {ph s s' : Byte} {io io₁ io₂ : ι}
    (h₁ : pollNibble p ph POLLS io = (some s, io₁))
    (h₂ : pollNibble p (s &&& STAT_PHASE) POLLS io₁ = (some s', io₂)) :
    pollByte p ph io = (some (nibbleOf s' <<< 4 ||| nibbleOf s), s' &&& STAT_PHASE, io₂) := by
  rw [pollByte, h₁]
  dsimp only
  rw [h₂]

/-- `lpt_recv_byte`: what polling for two nibbles gives, with the phase in
`last_phase` and, on success, in AH. -/
theorem lptRecvByte_ok (m : Machine δ ι) {r : Option Byte} {ph : Byte} {io' : ι}
    (h : pollByte (m.mem.word v.lptBase + LPT_STATUS) (m.mem v.lastPhase) m.io = (r, ph, io')) :
    ∃ a z, v.lptRecvByte m = { m with
        ax := a, zf := z, cf := r.isNone, mem := m.mem.set v.lastPhase ph
        got := m.got ++ r.toList, io := io' } ∧
      ∀ b ∈ r, a = ofBytes ph b := by
  rcases v.lptRecvNibble_ok (m.push (·.bx)) with ⟨a, z, io₁, e, hp⟩ | ⟨s, z, io₁, e, hp⟩
  · simp only [push] at hp
    simp only [pollByte, hp, Prod.mk.injEq] at h
    obtain ⟨rfl, rfl, rfl⟩ := h
    refine ⟨a, z, ?_, fun b hb => nomatch hb⟩
    simp only [lptRecvByte, lptRecvByte.fail, e, jc, if_true]
    simp only [push, stc, pop, top, setReg, List.headD_cons, List.tail_cons, Mem.set_eq_self,
      Option.isNone_none, Option.toList_none, List.append_nil]
  · simp only [push] at hp
    let m₁ : Machine δ ι := { m with
      ax := ofBytes (s &&& STAT_PHASE) (nibbleOf s), bx := ofBytes (hi m.bx) (nibbleOf s),
      zf := z, cf := false
      stk := m.bx :: m.stk, mem := m.mem.set v.lastPhase (s &&& STAT_PHASE), io := io₁ }
    have e₁ : (v.lptRecvNibble (m.push (·.bx))).movb .bl (·.reg8 .al) = m₁ := by
      rw [e]
      simp only [push, movb, reg8, setReg8, lo_ofBytes, m₁]
    have hcf : (v.lptRecvNibble (m.push (·.bx))).cf = false := by rw [e]
    rcases v.lptRecvNibble_ok m₁ with ⟨a', z', io₂, e', hp'⟩ | ⟨s', z', io₂, e', hp'⟩ <;>
      simp only [m₁, word_lptBase_set, Mem.set_self] at hp' <;>
      simp only [pollByte, hp, hp', Prod.mk.injEq] at h <;> obtain ⟨rfl, rfl, rfl⟩ := h
    · refine ⟨a', z', ?_, fun b hb => nomatch hb⟩
      simp only [lptRecvByte, lptRecvByte.fail, jc, hcf, e₁, e', stc, pop, top, setReg, if_true,
        Bool.false_eq_true, if_false, List.headD_cons, List.tail_cons, Option.isNone_none,
        Option.toList_none, List.append_nil, m₁]
    · refine ⟨ofBytes (s' &&& STAT_PHASE) (nibbleOf s' <<< 4 ||| nibbleOf s),
        decide (nibbleOf s' <<< 4 ||| nibbleOf s = 0), ?_, ?_⟩
      · simp only [lptRecvByte, jc, hcf, e₁, e', Bool.false_eq_true, if_false]
        simp only [lptRecvByte.returned, shlb, orb, clc, pop, top, setReg, setReg8, reg8,
          List.headD_cons, List.tail_cons, Mem.set_set, hi_ofBytes, lo_ofBytes, m₁,
          Option.isNone_some, Option.toList_some]
      · rintro b ⟨⟩
        rfl

/-- `lpt_send_byte` writes to the data and the control register and keeps
every register. -/
theorem lptSendByte_ok (m : Machine δ ι) : ∃ c z, v.lptSendByte m = { m with
    cf := c, zf := z
    io := Ports.out (m.mem.word v.lptBase + LPT_CONTROL) CTRL_BASE
      (Ports.out (m.mem.word v.lptBase + LPT_CONTROL) (CTRL_BASE ^^^ CTRL_INIT)
        (Ports.out (m.mem.word v.lptBase + LPT_DATA) (lo m.ax) m.io)) } := by
  simp only [lptSendByte, tinyDelay_eq, push, mov, add, outAl, movb, pop, top, setReg,
    setReg8, reg, word, imm, List.headD_cons, List.tail_cons, lo_ofBytes]
  exact ⟨_, _, rfl⟩

/-! ## The ports -/

/-- The registers the pump writes to. -/
def pumpPorts (base p : Word) : Prop := p = base + LPT_DATA ∨ p = base + LPT_CONTROL

theorem pollNibble_drives (ps : Word → Prop) (p : Word) (ph : Byte) (n : Nat) (io : ι) :
    Drives ps io (pollNibble p ph n io).2 := by
  induction n generalizing io with
  | zero => exact .refl
  | succ n ih =>
    have h₁ : Drives ps io (Ports.inp p io).2 := .single (.inp p io)
    have h₂ : Drives ps io (Ports.inp p (Ports.inp p io).2).2 := h₁.tail (.inp p _)
    simp only [pollNibble]
    split
    · exact h₁.trans (ih _)
    · split
      · exact h₂.trans (ih _)
      · exact h₂

theorem pollByte_drives (ps : Word → Prop) (p : Word) (ph : Byte) (io : ι) :
    Drives ps io (pollByte p ph io).2.2 := by
  have h₁ := pollNibble_drives ps p ph POLLS io
  rw [pollByte]
  split
  · rename_i e
    rwa [e] at h₁
  · rename_i s io₁ e
    rw [e] at h₁
    have h₂ := pollNibble_drives ps p (s &&& STAT_PHASE) POLLS io₁
    split
    · rename_i e'
      rw [e'] at h₂
      exact h₁.trans h₂
    · rename_i e'
      rw [e'] at h₂
      exact h₁.trans h₂

theorem lptSendByte_drives (m : Machine δ ι) :
    ∃ c z io, v.lptSendByte m = { m with cf := c, zf := z, io := io } ∧
    Drives (pumpPorts (m.mem.word v.lptBase)) m.io io := by
  obtain ⟨c, z, e⟩ := v.lptSendByte_ok m
  refine ⟨c, z, _, e, ?_⟩
  exact .tail (.tail (.single (.out _ _ (.inl rfl))) (.out _ _ (.inr rfl))) (.out _ _ (.inr rfl))

end LptNibble

end VintageKvm.Dos
