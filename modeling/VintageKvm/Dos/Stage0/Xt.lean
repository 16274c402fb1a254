import VintageKvm.Dos.Stage0.Exit

/-!
# Stage 0 on an XT

All that `start` of `s0_xt.asm` does before the download is to search for the
Pico. One that answers at the first port, and then sends an image that can be
loaded, is handed over to (`start_loads`).
-/

namespace VintageKvm.Stage0.Xt

open I8086 Machine Dos
open Stage1 (putsMsg)

variable {ι : Type} [Ports ι]

/-- `find_pico_lpt`. -/
def findPicoLpt (m : Machine DosState ι) : Machine DosState ι := findPico .s0Xt (·.stc) m

omit [Ports ι] in
/-- `print_base`. -/
def printBase (m : Machine DosState ι) : Machine DosState ι := Stage0.printBase .s0Xt m

omit [Ports ι] in
/-- The state in which Stage 1 is jumped to. -/
def handOff (m : Machine DosState ι) : Machine DosState ι :=
  m |> putsMsg (msgJump .s0Xt) |>.mov .ax (imm 0x3150) |>.mov .bx (·.word (lptBase .s0Xt))
    |>.mov .cx (·.word (stage1Size .s0Xt)) |>.mov .dx (imm 1) |>.push (·.cs) |>.popDs
    |>.push (·.cs) |>.popEs

omit [Ports ι] in
/-- `exit_error`. -/
def exitError (m : Machine DosState ι) : AtPs2.Outcome ι :=
  m |>.mov .ax (imm 0x4C01) |> fun m => .exited (m.reg8 .al) m

omit [Ports ι] in
/-- A message before `exit_error`. -/
def failWith (msg : Word) (m : Machine DosState ι) : AtPs2.Outcome ι :=
  m |> putsMsg msg |> exitError

/-- `start`. -/
def start (m : Machine DosState ι) : AtPs2.Outcome ι :=
  m |>.push (·.cs) |>.popDs |>.push (·.cs) |>.popEs |> putsMsg (msgBanner .s0Xt) |> findPicoLpt
    |>.jc (failWith msgNoPico) fun m =>
  m |> putsMsg msgFound |> printBase |> getStage1Meta .s0Xt
    |>.jc (failWith (msgMetaFail .s0Xt)) fun m =>
  m |> checkStage1Size .s0Xt |>.jc (failWith (msgSizeFail .s0Xt)) fun m =>
  m |> downloadStage1 .s0Xt |>.jc (failWith (msgDownloadFail .s0Xt)) fun m =>
  m |> verifyImageChecksum .s0Xt |>.jc (failWith (msgChecksumFail .s0Xt))
    fun m => .stage1 (handOff m)

/-! ## A Pico that answers -/

section

variable {base : Word} {ph : Byte} {mem : Mem} {d : DosState} {bs : List Byte}
  {m : Machine DosState ι}

/-- The byte that is expected is received. -/
theorem answered (hl : Linked .s0Xt mem (base + LPT_STATUS) ph) {rsp : Byte}
    (h : Fed base ph mem d (rsp :: bs) m) {P : Machine DosState ι → Prop}
    {next : Machine DosState ι → Machine DosState ι}
    (hnext : ∀ m', Fed base ph mem d bs m' → P (next m')) :
    P ((lpt .s0Xt).lptRecvByte m |>.jc (·.stc) fun m => m |>.cmpb (·.reg8 .al) (imm rsp)
      |>.jnz (·.stc) next) := by
  obtain ⟨h₁, hcf, hax⟩ := h.recv hl
  show P ((recvByte .s0Xt m).jc _ _)
  rw [jc_neg hcf]
  generalize recvByte .s0Xt m = m₁ at h₁ hax
  have hal : lo m₁.ax = rsp := by rw [hax, lo_ofBytes]
  have hz : (m₁.cmpb (·.reg8 .al) (imm rsp)).zf = true := decide_eq_true hal
  rw [jnz_neg hz]
  exact hnext _ (h₁.same rfl rfl rfl)

theorem probePico_answers (hl : Linked .s0Xt mem (base + LPT_STATUS) ph)
    (h : Fed base ph mem d (RSP_OK0 :: RSP_OK1 :: bs) m) :
    Fed base ph mem d bs (probePico .s0Xt m) ∧ (probePico .s0Xt m).cf = false := by
  have hsend : ∀ {bs} {m' : Machine DosState ι} (b : Byte), Fed base ph mem d bs m' →
      Fed base ph mem d bs ((lpt .s0Xt).lptSendByte (m'.movb .al (imm b))) := fun {bs m'} b h =>
    ((show Fed base ph mem d bs (m'.movb .al (imm b)) from h.same rfl rfl rfl).send hl).1
  have h₁ := hsend CMD_PROBE3 <| hsend CMD_PROBE2 <| hsend CMD_PROBE1 <| hsend CMD_PROBE0 h
  let P : Machine DosState ι → Prop := fun m' => Fed base ph mem d bs m' ∧ m'.cf = false
  show P (probePico .s0Xt m)
  exact answered hl h₁ fun m₂ h₂ => answered hl h₂ fun m₃ h₃ => ⟨h₃.same rfl rfl rfl, rfl⟩

/-- The first candidate answers. -/
theorem findPicoLpt_answers (hm : Listed .s0Xt m.mem)
    (hstat : (Ports.inp (0x3BC + LPT_STATUS) (Ports.out (0x3BC + LPT_CONTROL) CTRL_BASE m.io)).1 &&&
      STAT_PHASE = ph)
    (hfeeds : Feeds 0x3BC ph
      (Ports.inp (0x3BC + LPT_STATUS) (Ports.out (0x3BC + LPT_CONTROL) CTRL_BASE m.io)).2
      (RSP_OK0 :: RSP_OK1 :: bs)) :
    ∃ mem, Linked .s0Xt mem (0x3BC + LPT_STATUS) ph ∧ Fed 0x3BC ph mem m.dos bs (findPicoLpt m) ∧
      (findPicoLpt m).cf = false := by
  let m₁ : Machine DosState ι := m |>.mov .si (imm (lptCandidates .s0Xt)) |>.lodsw |>.orw .ax (·.ax)
  have hax : m₁.ax = 0x3BC := by
    show m.mem.word (lptCandidates .s0Xt) ||| m.mem.word (lptCandidates .s0Xt) = 0x3BC
    rw [BitVec.or_self]
    exact (congrArg m.mem.word (BitVec.add_zero _).symm).trans (hm.ports 0 (by decide))
  let m₂ : Machine DosState ι := m₁.stw (imm (lptBase .s0Xt)) (·.ax)
  have hbase : m₂.mem.word (lptBase .s0Xt) = 0x3BC := (Mem.word_setWord _ _ _).trans hax
  obtain ⟨a, d, z, c, e⟩ := (lpt .s0Xt).initLptControl_ok m₂
  rw [show m₂.mem.word (lpt .s0Xt).lptBase = 0x3BC from hbase,
    show m₂.io = m.io from rfl, hstat] at e
  let mem := m₂.mem.set (lastPhase .s0Xt) ph
  let m₃ : Machine DosState ι := (lpt .s0Xt).initLptControl m₂ |>.mov .cx (imm PROBE_RETRIES)
  have hl : Linked .s0Xt mem (0x3BC + LPT_STATUS) ph :=
    ⟨trivial, congrArg (· + LPT_STATUS) (((lpt .s0Xt).word_lptBase_set _ ph).trans hbase),
      Mem.set_self _ _ _, hstat ▸ isPhase_and _⟩
  have h₃ : Fed 0x3BC ph mem m.dos (RSP_OK0 :: RSP_OK1 :: bs) (m₃.push (·.cx)) := by
    simp only [m₃, e]
    exact ⟨rfl, rfl, hfeeds⟩
  obtain ⟨h₄, hcf₄⟩ := probePico_answers hl h₃
  have hprobe : tryProbe .s0Xt m₃ =
      .done (.done ((probePico .s0Xt (m₃.push (·.cx))).pop .cx).clc) := jnc_pos hcf₄
  have hloop :
      m₃.loopE (tryProbe .s0Xt) .next = .done ((probePico .s0Xt (m₃.push (·.cx))).pop .cx).clc := by
    rw [loopE]
    exact iter_done (by rw [hprobe])
  have hz : m₁.zf = false := decide_eq_false fun h0 => absurd (hax.symm.trans h0) (by decide)
  have hport : nextPort .s0Xt (·.stc) (m.mov .si (imm (lptCandidates .s0Xt))) = _ :=
    (jz_neg hz).trans hloop
  have hfind : findPicoLpt m = _ := iter_done hport
  rw [hfind]
  exact ⟨mem, hl, h₄.same rfl rfl rfl, rfl⟩

/-- A Pico that answers at the first port and sends an image that can be
loaded: Stage 1 is jumped to, and is that image. -/
theorem start_loads {blocks : List (List Byte)} (hm : Listed .s0Xt m.mem) (hb : Loadable ph blocks)
    (hstat : (Ports.inp (0x3BC + LPT_STATUS) (Ports.out (0x3BC + LPT_CONTROL) CTRL_BASE m.io)).1 &&&
      STAT_PHASE = ph)
    (hfeeds : Feeds 0x3BC ph
      (Ports.inp (0x3BC + LPT_STATUS) (Ports.out (0x3BC + LPT_CONTROL) CTRL_BASE m.io)).2
      (RSP_OK0 :: RSP_OK1 :: imageWire blocks)) :
    ∃ m', start m = .stage1 m' ∧ DosState.Quiet m.dos m'.dos ∧
      m'.mem.bytes STAGE1_LOAD_OFF (64 * blocks.length) = blocks.flatten := by
  let m₀ : Machine DosState ι := m |>.push (·.cs) |>.popDs |>.push (·.cs) |>.popEs
    |> putsMsg (msgBanner .s0Xt)
  have hm₀ : m₀.mem = m.mem ∧ m₀.io = m.io ∧ DosState.Quiet m.dos m₀.dos := by
    simp only [m₀, Stage1.putsMsg_ok]
    exact ⟨rfl, rfl, _, m.dos.asked, rfl⟩
  obtain ⟨hmem₀, hio₀, hdos₀⟩ := hm₀
  have hfind := findPicoLpt_answers (m := m₀) (hmem₀ ▸ hm) (hio₀ ▸ hstat) (hio₀ ▸ hfeeds)
  show ∃ m', (findPicoLpt m₀).jc _ _ = _ ∧ _
  obtain ⟨mem, hl, h₁, hcf₁⟩ := hfind
  rw [jc_neg hcf₁]
  obtain ⟨a, s, c, z, con, e⟩ : ∃ a s c z con, printBase _ = _ :=
    printBase_ok .s0Xt (putsMsg msgFound (findPicoLpt m₀))
  let m₁ : Machine DosState ι := printBase (putsMsg msgFound (findPicoLpt m₀))
  have h₂ : Fed 0x3BC ph mem m₁.dos (imageWire blocks) m₁ := by
    simp only [m₁]
    rw [e, Stage1.putsMsg_ok]
    exact ⟨h₁.mem, rfl, h₁.feeds⟩
  have hdos₁ : DosState.Quiet m.dos m₁.dos := by
    refine (h₁.dos.symm ▸ hdos₀).trans ?_
    simp only [m₁]
    rw [e, Stage1.putsMsg_ok]
    exact ⟨con, _, rfl⟩
  obtain ⟨hcf₂, hcf₃, hcf₄, hcf₅, hdos, hbytes⟩ := fetch_loads (h₂.mem.symm ▸ hl) hb h₂.feeds
  show ∃ m', (getStage1Meta .s0Xt m₁).jc _ _ = _ ∧ _
  rw [jc_neg hcf₂, jc_neg hcf₃, jc_neg hcf₄, jc_neg hcf₅]
  obtain ⟨hmem₅, -, hdos₅⟩ := AtPs2.verifyImageChecksum_ok .s0Xt
    (downloadStage1 .s0Xt (checkStage1Size .s0Xt (getStage1Meta .s0Xt m₁)))
  refine ⟨_, rfl, ?_, ?_⟩
  · rw [handOff, Stage1.putsMsg_ok]
    refine ((hdos₅.trans hdos).symm ▸ hdos₁).trans ⟨_, _, rfl⟩
  · rw [handOff, Stage1.putsMsg_ok]
    exact (congrArg (Mem.bytes · _ _) hmem₅).trans hbytes

end

end VintageKvm.Stage0.Xt
