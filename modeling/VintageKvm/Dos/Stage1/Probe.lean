import VintageKvm.Dos.Stage1.PortPump
import VintageKvm.Dos.Stage1.Negotiate

/-!
# Stage 1: the parallel port probed

Chipset detection and IEEE 1284 negotiation. Whatever the port answers, they
write to its data, control and extended control registers only, and to their
own variables.
-/

namespace VintageKvm.Stage1

open I8086 Machine Dos

variable {ι : Type} [Ports ι]

/-! ## The routines -/

/-- `lpt_chipset_detect`. -/
def lptChipsetDetect (m : Machine DosState ι) : Machine DosState ι :=
  m |>.stb (imm dpCapsIrq) (imm 0xFF) |>.stb (imm dpCapsDma) (imm 0xFF)
    |>.stb (imm dpCapsFlags) (imm 0)
    |>.mov .ax (·.word savedBx) |>.stw (imm lptBase) (·.ax) |>.orw .ax (·.ax) |>.jz noLpt probe
where
  /-- The ECR, and the EPP mode of it. -/
  probe (m : Machine DosState ι) : Machine DosState ι :=
    m |>.stb (imm dpCapsFlags) (imm CAPS_SPP) |>.mov .dx (·.word lptBase) |>.add .dx (imm LPT_ECR)
      |>.inAl (·.dx) |>.stb (imm ecrSaved) (·.reg8 .al)
      |>.movb .al (imm ECR_TEST_PATTERN1) |>.outAl (·.dx) |>.inAl (·.dx)
      |>.cmpb (·.reg8 .al) (imm ECR_TEST_PATTERN1) |>.jnz restoreEcr fun m =>
    m |>.movb .al (imm ECR_TEST_PATTERN2) |>.outAl (·.dx) |>.inAl (·.dx)
      |>.cmpb (·.reg8 .al) (imm ECR_TEST_PATTERN2) |>.jnz restoreEcr fun m =>
    m |>.orMemb dpCapsFlags CAPS_ECP |>.movb .al (imm ECR_MODE_EPP) |>.outAl (·.dx) |>.inAl (·.dx)
      |>.andb .al (imm ECR_MODE_MASK) |>.cmpb (·.reg8 .al) (imm ECR_MODE_EPP)
      |>.jnz restoreEcr fun m =>
    m |>.orMemb dpCapsFlags CAPS_EPP |> restoreEcr
  /-- `.restore_ecr`. -/
  restoreEcr (m : Machine DosState ι) : Machine DosState ι :=
    m |>.mov .dx (·.word lptBase) |>.add .dx (imm LPT_ECR) |>.movb .al (·.byte ecrSaved)
      |>.outAl (·.dx) |>.clc
  /-- `.no_lpt`. -/
  noLpt (m : Machine DosState ι) : Machine DosState ι :=
    m |>.xorw .ax (·.ax) |>.stw (imm lptBase) (·.ax) |>.stb (imm dpCapsFlags) (imm 0) |>.stc

/-- `print_caps`. -/
def printCaps (m : Machine DosState ι) : Machine DosState ι :=
  m |> putsMsg msgCapsLabel |>.xorb .ah (·.reg8 .ah) |>.movb .al (·.byte dpCapsFlags) |> printHex8
    |> putsMsg msgCapsOpen
    |> flag CAPS_SPP msgCapsSppStr |> flag CAPS_EPP msgCapsEppStr |> flag CAPS_ECP msgCapsEcpStr
    |> putsMsg msgCapsClose
where
  /-- The name of one capability. -/
  flag (cap : Byte) (msg : Word) (m : Machine DosState ι) : Machine DosState ι :=
    m |>.testb (·.byte dpCapsFlags) (imm cap) |>.jz id (putsMsg msg)

/-- `ieee1284_negotiate_ladder`. -/
def ieee1284NegotiateLadder (m : Machine DosState ι) : Machine DosState ι :=
  m |>.cmp (·.word lptBase) (imm 0) |>.jz (settle NEG_MODE_NONE msgNegSkipped) fun m =>
  m |>.testb (·.byte dpCapsFlags) (imm CAPS_ECP) |>.jz tryEpp fun m =>
  m |>.movb .al (imm XFLAG_ECP) |> ieee1284Negotiate |>.jc tryEpp (settle NEG_MODE_ECP msgNegEcp)
where
  /-- The mode is recorded and printed. -/
  settle (mode : Byte) (msg : Word) (m : Machine DosState ι) : Machine DosState ι :=
    m |>.stb (imm negotiatedMode) (imm mode) |> putsMsg msg
  /-- `.try_epp`. -/
  tryEpp (m : Machine DosState ι) : Machine DosState ι :=
    m |>.testb (·.byte dpCapsFlags) (imm CAPS_EPP) |>.jz tryByte fun m =>
    m |>.movb .al (imm XFLAG_EPP) |> ieee1284Negotiate |>.jc tryByte (settle NEG_MODE_EPP msgNegEpp)
  /-- `.try_byte`. -/
  tryByte (m : Machine DosState ι) : Machine DosState ι :=
    m |>.movb .al (imm XFLAG_BYTE) |> ieee1284Negotiate
      |>.jc (settle NEG_MODE_SPP msgNegSpp) (settle NEG_MODE_BYTE msgNegByte)

/-! ## What they leave alone -/

/-- The registers of the parallel port that Stage 1 writes to. -/
def lptPorts (base p : Word) : Prop :=
  p = base + LPT_DATA ∨ p = base + LPT_CONTROL ∨ p = base + LPT_ECR

/-- An access to the ports, with writes to the parallel port's only. -/
abbrev LptStep (base : Word) : ι → ι → Prop := Access (lptPorts base)

namespace Keeps

variable {rs : List Region} {m m₁ : Machine DosState ι}

theorem inAl (h : Keeps LptStep rs m m₁) {p : Machine DosState ι → Word} :
    Keeps LptStep rs m (m₁.inAl p) :=
  ⟨⟨h.cs, h.ds, h.es, h.stk, h.mem, h.base, h.got, h.link.tail (.inp _ _)⟩, h.dos⟩

theorem outAl (h : Keeps LptStep rs m m₁) {p : Machine DosState ι → Word}
    (hp : lptPorts (m.mem.word lptBase) (p m₁)) : Keeps LptStep rs m (m₁.outAl p) :=
  ⟨⟨h.cs, h.ds, h.es, h.stk, h.mem, h.base, h.got, h.link.tail (.out _ _ hp)⟩, h.dos⟩

end Keeps

omit [Ports ι] in
theorem flag_still {m m₁ : Machine DosState ι} (h : Still m m₁) (cap : Byte) (msg : Word) :
    Still m (printCaps.flag cap msg m₁) := by
  have htest : Still m (m₁.testb (·.byte dpCapsFlags) (imm cap)) := h.testb
  exact jz_cases (fun _ => htest) fun _ => htest.putsMsg

omit [Ports ι] in
theorem printCaps_still (m : Machine DosState ι) : Still m (printCaps m) := by
  have h : Still m (m |> putsMsg msgCapsLabel |>.xorb .ah (·.reg8 .ah)
    |>.movb .al (·.byte dpCapsFlags) |> printHex8
      |> putsMsg msgCapsOpen) := (Still.refl m).putsMsg.xorb.movb.printHex8.putsMsg
  exact (flag_still (flag_still (flag_still h _ _) _ _) _ _).putsMsg

/-- What the detection writes to, besides the port base. -/
abbrev capsVars : List Region := [⟨ecrSaved, 1⟩, ⟨dpCapsFlags, 1⟩]

theorem restoreEcr_keeps {m m₁ : Machine DosState ι} (h : Keeps LptStep capsVars m m₁) :
    Keeps LptStep capsVars m (lptChipsetDetect.restoreEcr m₁) := by
  have h₁ : Keeps LptStep capsVars m (m₁ |>.mov .dx (·.word lptBase) |>.add .dx (imm LPT_ECR)
      |>.movb .al (·.byte ecrSaved)) :=
    h.still (.movb <| .add <| .mov <| .refl _)
  exact (h₁.outAl (.inr (.inr (congrArg (· + LPT_ECR) h.base)))).still (.clc <| .refl _)

/-- A value written to the ECR and read back. -/
theorem ecr_keeps {m m₁ : Machine DosState ι} (h : Keeps LptStep capsVars m m₁)
    (hdx : m₁.dx = m.mem.word lptBase + LPT_ECR) (v : Byte) :
    Keeps LptStep capsVars m (m₁ |>.movb .al (imm v) |>.outAl (·.dx) |>.inAl (·.dx)) := by
  have h₁ : Keeps LptStep capsVars m (m₁.movb .al (imm v)) := h.still (.movb <| .refl _)
  exact (h₁.outAl (.inr (.inr hdx))).inAl

theorem probe_keeps (m : Machine DosState ι) :
    Keeps LptStep capsVars m (lptChipsetDetect.probe m) := by
  let m₁ : Machine DosState ι :=
    m |>.stb (imm dpCapsFlags) (imm CAPS_SPP) |>.mov .dx (·.word lptBase)
    |>.add .dx (imm LPT_ECR) |>.inAl (·.dx) |>.stb (imm ecrSaved) (·.reg8 .al)
  have h₀ : Keeps LptStep capsVars m (m.stb (imm dpCapsFlags) (imm CAPS_SPP)) :=
    (Keeps.refl m).stb (by decide)
  have h₁ : Keeps LptStep capsVars m m₁ := (h₀.still (.add <| .mov <| .refl _)).inAl.stb (by decide)
  have hdx : m₁.dx = m.mem.word lptBase + LPT_ECR := congrArg (· + LPT_ECR) h₀.base
  have hmode : ∀ {m' : Machine DosState ι} {cap : Byte}, Keeps LptStep capsVars m m' →
      Keeps LptStep capsVars m (m'.orMemb dpCapsFlags cap) := fun {m'} {cap} h =>
    (h.stb (v := fun m => m.mem dpCapsFlags ||| cap) (by decide)).congr rfl rfl
  refine jnz_cases (fun _ => restoreEcr_keeps ((ecr_keeps h₁ hdx _).still (.cmpb <| .refl _)))
    fun _ => ?_
  have h₂ := (ecr_keeps h₁ hdx ECR_TEST_PATTERN1).still
    (Still.cmpb (v := (·.reg8 .al)) (w := imm ECR_TEST_PATTERN1) <| .refl _)
  refine jnz_cases (fun _ => restoreEcr_keeps ((ecr_keeps h₂ hdx _).still (.cmpb <| .refl _)))
    fun _ => ?_
  have h₃ := (ecr_keeps h₂ hdx ECR_TEST_PATTERN2).still
    (Still.cmpb (v := (·.reg8 .al)) (w := imm ECR_TEST_PATTERN2) <| .refl _)
  let m₃ : Machine DosState ι := m₁ |>.movb .al (imm ECR_TEST_PATTERN1) |>.outAl (·.dx)
    |>.inAl (·.dx)
    |>.cmpb (·.reg8 .al) (imm ECR_TEST_PATTERN1) |>.movb .al (imm ECR_TEST_PATTERN2) |>.outAl (·.dx)
    |>.inAl (·.dx)
    |>.cmpb (·.reg8 .al) (imm ECR_TEST_PATTERN2) |>.orMemb dpCapsFlags CAPS_ECP
  let m₄ : Machine DosState ι := m₃ |>.movb .al (imm ECR_MODE_EPP) |>.outAl (·.dx) |>.inAl (·.dx)
    |>.andb .al (imm ECR_MODE_MASK) |>.cmpb (·.reg8 .al) (imm ECR_MODE_EPP)
  have h₄ : Keeps LptStep capsVars m m₄ :=
    (ecr_keeps (hmode h₃) hdx ECR_MODE_EPP).still (.cmpb <| .andb <| .refl _)
  exact jnz_cases (fun _ => restoreEcr_keeps h₄) fun _ => restoreEcr_keeps (hmode h₄)

/-- What the detection leaves: the port base is the one inherited, and without
one CF is set. -/
structure Detected (m m' : Machine DosState ι) : Prop where
  base : m'.mem.word lptBase = m.mem.word savedBx
  none : m.mem.word savedBx = 0 → m'.cf = true
  mem : Frame (⟨lptBase, 2⟩ :: ⟨dpCapsIrq, 1⟩ :: ⟨dpCapsDma, 1⟩ :: capsVars) m.mem m'.mem
  dos : DosState.Quiet m.dos m'.dos
  link : Drives (lptPorts (m.mem.word savedBx)) m.io m'.io

theorem lptChipsetDetect_ok (m : Machine DosState ι) : Detected m (lptChipsetDetect m) := by
  let m₁ : Machine DosState ι :=
    m |>.stb (imm dpCapsIrq) (imm 0xFF) |>.stb (imm dpCapsDma) (imm 0xFF)
    |>.stb (imm dpCapsFlags) (imm 0) |>.mov .ax (·.word savedBx) |>.stw (imm lptBase) (·.ax)
    |>.orw .ax (·.ax)
  let mem : Mem := m.mem.set dpCapsIrq 0xFF |>.set dpCapsDma 0xFF |>.set dpCapsFlags 0
  have hbx : mem.word savedBx = m.mem.word savedBx :=
    ((((Frame.refl [⟨dpCapsIrq, 1⟩, ⟨dpCapsDma, 1⟩, ⟨dpCapsFlags, 1⟩] m.mem).set _ (by decide)).set
      _ (by decide)).set _ (by decide)).word (by decide) (by decide)
  have hmem : m₁.mem = mem.setWord lptBase (m.mem.word savedBx) :=
    congrArg (mem.setWord lptBase) hbx
  have hbase : m₁.mem.word lptBase = m.mem.word savedBx := by
    rw [hmem]
    exact Mem.word_setWord ..
  have hframe :
      Frame (⟨lptBase, 2⟩ :: ⟨dpCapsIrq, 1⟩ :: ⟨dpCapsDma, 1⟩ :: capsVars) m.mem m₁.mem := by
    rw [hmem]
    exact (((Frame.refl _ _).set _ (by decide)).set _ (by decide)).set _ (by decide)
      |>.setWord _ (by decide) (by decide)
  have hzf : m₁.zf = decide (m.mem.word savedBx = 0) := by
    show decide (mem.word savedBx ||| mem.word savedBx = 0) = _
    rw [hbx, BitVec.or_self]
  show Detected m (m₁.jz lptChipsetDetect.noLpt lptChipsetDetect.probe)
  refine jz_cases (fun hz => ?_) fun hz => ?_
  · have h0 : m.mem.word savedBx = 0 := of_decide_eq_true (hzf.symm.trans hz)
    have hstore :
        (lptChipsetDetect.noLpt m₁).mem = (m₁.mem.setWord lptBase 0).set dpCapsFlags 0 := by
      show (m₁.mem.setWord lptBase (m₁.ax ^^^ m₁.ax)).set dpCapsFlags 0 = _
      rw [BitVec.xor_self]
      rfl
    refine ⟨?_, fun _ => rfl, ?_, .refl _, .refl⟩
    · rw [hstore, Mem.word_set_of_ne _ _ (by decide) (by decide), Mem.word_setWord, h0]
    · rw [hstore]
      exact (hframe.setWord _ (by decide) (by decide)).set _ (by decide)
  · have h0 : m.mem.word savedBx ≠ 0 := of_decide_eq_false (hzf.symm.trans hz)
    have hk := probe_keeps m₁
    refine ⟨hk.base.trans hbase, fun h => absurd h h0,
      hframe.trans (hk.mem.mono (by decide)), hk.dos, ?_⟩
    have hlink := hk.link
    rwa [hbase] at hlink

/-! ## Negotiation -/

theorem turn_drives {base : Word} {xflag : Byte} (x : Negotiate × ι) :
    Drives (lptPorts base) x.2 (Negotiate.turn base xflag x).2 := by
  obtain ⟨at_, io⟩ := x
  cases at_ with
  | data => exact .single (.out _ _ (.inl rfl))
  | waitAck turns => exact .single (.inp _ _)
  | select => exact .single (.inp _ _)
  | returned accepted => exact .refl
  | _ => exact .single (.out _ _ (.inr (.inl rfl)))

theorem ieee1284Negotiate_keeps {rs : List Region} (m : Machine DosState ι) :
    Keeps LptStep rs m (ieee1284Negotiate m) := by
  obtain ⟨x, hacc, c, d, z, accepted, -, hm⟩ := ieee1284Negotiate_ok m
  have hlink : Drives (lptPorts (m.mem.word lptBase)) m.io x.2 := by
    clear hm
    induction hacc with
    | refl => exact .refl
    | tail _ hy ih => exact ih.trans (hy ▸ turn_drives _)
  rw [hm]
  exact ⟨⟨rfl, rfl, rfl, rfl, .refl _ _, rfl, List.prefix_rfl, hlink⟩, .refl _⟩

/-- What the negotiation writes to. -/
abbrev modeVars : List Region := [⟨negotiatedMode, 1⟩]

theorem settle_keeps {m m₁ : Machine DosState ι} (h : Keeps LptStep modeVars m m₁) (mode : Byte)
    (msg : Word) : Keeps LptStep modeVars m (ieee1284NegotiateLadder.settle mode msg m₁) :=
  (h.stb (by decide)).still (.putsMsg <| .refl _)

/-- A request, and where the ladder goes on. -/
theorem request_keeps {m m₁ : Machine DosState ι} (h : Keeps LptStep modeVars m m₁) (xflag : Byte)
    {taken next : Machine DosState ι → Machine DosState ι}
    (ht : ∀ m₂, Keeps LptStep modeVars m m₂ → Keeps LptStep modeVars m (taken m₂))
    (hn : ∀ m₂, Keeps LptStep modeVars m m₂ → Keeps LptStep modeVars m (next m₂)) :
    Keeps LptStep modeVars m (m₁ |>.movb .al (imm xflag) |> ieee1284Negotiate
      |>.jc taken next) := by
  have hneg :=
  (h.still (.movb <| .refl _)).trans (ieee1284Negotiate_keeps (m₁.movb .al (imm xflag)))
  exact jc_cases (fun _ => ht _ hneg) fun _ => hn _ hneg

theorem tryByte_keeps {m m₁ : Machine DosState ι} (h : Keeps LptStep modeVars m m₁) :
    Keeps LptStep modeVars m (ieee1284NegotiateLadder.tryByte m₁) :=
  request_keeps h XFLAG_BYTE (fun _ h => settle_keeps h _ _) fun _ h => settle_keeps h _ _

theorem tryEpp_keeps {m m₁ : Machine DosState ι} (h : Keeps LptStep modeVars m m₁) :
    Keeps LptStep modeVars m (ieee1284NegotiateLadder.tryEpp m₁) := by
  have htest : Keeps LptStep modeVars m (m₁.testb (·.byte dpCapsFlags) (imm CAPS_EPP)) :=
    h.still (.testb <| .refl _)
  exact jz_cases (fun _ => tryByte_keeps htest) fun _ =>
    request_keeps htest XFLAG_EPP (fun _ h => tryByte_keeps h) fun _ h => settle_keeps h _ _

theorem ieee1284NegotiateLadder_keeps (m : Machine DosState ι) :
    Keeps LptStep modeVars m (ieee1284NegotiateLadder m) := by
  refine jz_cases (fun _ => settle_keeps ((Keeps.refl m).still (.cmp <| .refl _)) _ _) fun _ => ?_
  have htest : Keeps LptStep modeVars m
      (m |>.cmp (·.word lptBase) (imm 0) |>.testb (·.byte dpCapsFlags) (imm CAPS_ECP)) :=
    (Keeps.refl m).still (.testb <| .cmp <| .refl _)
  exact jz_cases (fun _ => tryEpp_keeps htest) fun _ =>
    request_keeps htest XFLAG_ECP (fun _ h => tryEpp_keeps h) fun _ h => settle_keeps h _ _

end VintageKvm.Stage1
