import VintageKvm.I8086.Bus
import VintageKvm.Dos.Stage1.Main
import VintageKvm.Dos.Stage1.Probe

/-!
# Stage 1: from the hand-off to the exit

`start`, and what its exits leave in the interrupt controllers. Stage 1 writes
to their masks in `restore_irq_state_if_masked` only, which only the exit of a
bad hand-off comes to: of any other failure, the masks are those of the
hand-off (`failure_restores_iff`).
-/

namespace VintageKvm.Stage1

open I8086 Machine Dos

abbrev IRQ1_MASK : Byte := 0x02
abbrev IRQ12_MASK : Byte := 0x10

variable {ι : Type}

/-! ## The routines -/

/-- `validate_handoff`. -/
def validateHandoff (m : Machine DosState ι) : Machine DosState ι :=
  m |>.cmp (·.word savedAx) (imm HANDOFF_MARKER) |>.jnz bad fun m =>
  m |>.mov .ax (·.word savedCx) |>.orw .ax (·.ax) |>.jz bad fun m =>
  m |>.cmp (·.ax) (imm MAX_STAGE1_SIZE) |>.ja bad fun m =>
  m |>.mov .ax (·.word savedDx) |>.orw .ax (·.ax) |>.jz bad fun m =>
  m |>.testb (·.reg8 .al) (imm CHAN_ANY) |>.jz bad (·.clc)
where
  /-- `.bad`. -/
  bad (m : Machine DosState ι) : Machine DosState ι := m.stc

/-- `print_inherited_state`. -/
def printInheritedState (m : Machine DosState ι) : Machine DosState ι :=
  m |> item msgLptLabel savedBx |> item msgChanLabel savedDx |> item msgSizeLabel savedCx
where
  /-- One register of the hand-off. -/
  item (label var : Word) (m : Machine DosState ι) : Machine DosState ι :=
    m |> putsMsg label |>.mov .ax (·.word var) |> printHex16 |> putsMsg msgCrlf

section

variable [Ports ι]

/-- `restore_irq_state_if_masked`. -/
def restoreIrqStateIfMasked (m : Machine DosState ι) : Machine DosState ι :=
  m |>.mov .ax (·.word savedDx) |>.testb (·.reg8 .al) (imm CHAN_I8042_ANY) |>.jz id fun m =>
  m |>.inAl (imm PIC1_DATA) |>.andb .al (imm 0xFD) |>.outAl (imm PIC1_DATA)
    |>.mov .ax (·.word savedDx) |>.testb (·.reg8 .al) (imm CHAN_AUX) |>.jz id fun m =>
  m |>.inAl (imm PIC2_DATA) |>.andb .al (imm 0xEF) |>.outAl (imm PIC2_DATA)

/-- `exit_error`. -/
def exitError (m : Machine DosState ι) : Outcome ι :=
  m |> puts |> restoreIrqStateIfMasked |>.mov .ax (imm 0x4C01) |> int21Exit

/-- `fail_handoff`. -/
def failHandoff (m : Machine DosState ι) : Outcome ι :=
  m |>.mov .si (imm msgErrHandoff) |> exitError

/-- `start` up to `validate_handoff` (the registers are saved between a `cli`
and an `sti`). -/
def snapshot (m : Machine DosState ι) : Machine DosState ι :=
  m |>.stw (imm savedAx) (·.ax) |>.stw (imm savedBx) (·.bx) |>.stw (imm savedCx) (·.cx)
    |>.stw (imm savedDx) (·.dx) |>.push (·.cs) |>.popDs |>.push (·.cs) |>.popEs |> putsMsg msgBanner

/-- `start` from `print_inherited_state` to `cap_handshake`. -/
def bringUp (m : Machine DosState ι) : Machine DosState ι :=
  m |> printInheritedState |> lptChipsetDetect |>.jc noLptYet lptUp
    |> packetSelfTest |>.jc (putsMsg msgPacketFail) (putsMsg msgPacketOk)
    |> pumpDispatcherSelfTest |>.jc (putsMsg msgPumpFail) (putsMsg msgPumpOk)
    |> ieee1284NegotiateLadder
where
  /-- A parallel port. -/
  lptUp (m : Machine DosState ι) : Machine DosState ι :=
    m |> printCaps |> lpt.initLptControl |>.stb (imm currentPump) (imm PUMP_LPT_SPP)
      |> putsMsg msgPumpLptSpp
  /-- `.no_lpt_yet`. -/
  noLptYet (m : Machine DosState ι) : Machine DosState ι :=
    m |> putsMsg msgModeBTodo |>.stb (imm currentPump) (imm PUMP_NONE)

/-- `start`. -/
def start (m : Machine DosState ι) : Outcome ι :=
  m |> snapshot |> validateHandoff |>.jc failHandoff fun m => m |> bringUp |> fromHandshake

end

/-! ## The hand-off -/

/-- What `validate_handoff` accepts. -/
structure ValidHandoff (m : Machine DosState ι) : Prop where
  marker : m.ax = HANDOFF_MARKER
  size : m.cx ≠ 0 ∧ m.cx.toNat ≤ MAX_STAGE1_SIZE.toNat
  channel : lo m.dx &&& CHAN_ANY ≠ 0

instance (m : Machine DosState ι) : Decidable (ValidHandoff m) :=
  decidable_of_iff (m.ax = HANDOFF_MARKER ∧ (m.cx ≠ 0 ∧ m.cx.toNat ≤ MAX_STAGE1_SIZE.toNat) ∧
    lo m.dx &&& CHAN_ANY ≠ 0)
    ⟨fun ⟨h₁, h₂, h₃⟩ => ⟨h₁, h₂, h₃⟩, fun h => ⟨h.marker, h.size, h.channel⟩⟩

/-- Where the registers of the hand-off are kept. -/
abbrev saved : List Region := [⟨savedAx, 8⟩]

/-- What the snapshot leaves: the registers of the hand-off in their
variables. -/
structure Snapped (m m' : Machine DosState ι) : Prop where
  ax : m'.mem.word savedAx = m.ax
  bx : m'.mem.word savedBx = m.bx
  cx : m'.mem.word savedCx = m.cx
  dx : m'.mem.word savedDx = m.dx
  mem : Frame saved m.mem m'.mem
  dos : DosState.Quiet m.dos m'.dos
  io : m'.io = m.io

theorem snapshot_eq (m : Machine DosState ι) : snapshot m = putsMsg msgBanner { m with
    ds := m.cs, es := m.cs
    mem := m.mem |>.setWord savedAx m.ax |>.setWord savedBx m.bx |>.setWord savedCx m.cx
    |>.setWord savedDx m.dx } := by
  simp only [snapshot, stw, push, popDs, popEs, top, imm, List.headD_cons, List.tail_cons]

theorem snapshot_ok (m : Machine DosState ι) : Snapped m (snapshot m) := by
  rw [snapshot_eq, putsMsg_ok]
  refine ⟨?_, ?_, ?_, ?_, ?_, ⟨_, m.dos.asked, rfl⟩, rfl⟩
  iterate 4 simp (disch := decide) only [Mem.word_setWord, Mem.word_setWord_of_ne]
  exact ((((Frame.refl _ _).setWord _ (by decide) (by decide)).setWord _ (by decide)
    (by decide)).setWord _ (by decide) (by decide)).setWord _ (by decide) (by decide)

/-- The carry flag of the validation says that the hand-off is not valid. -/
structure Validated (m m₁ m' : Machine DosState ι) : Prop where
  still : Still m₁ m'
  valid : m'.cf = false ↔ ValidHandoff m

theorem validateHandoff_ok {m m₁ : Machine DosState ι} (h : Snapped m m₁) :
    Validated m m₁ (validateHandoff m₁) := by
  have hbad : ∀ {m'}, Still m₁ m' → ¬ ValidHandoff m →
      Validated m m₁ (validateHandoff.bad m') := fun hs hv =>
    ⟨hs.stc, fun hc => (nomatch hc), fun h => absurd h hv⟩
  have hax : m₁.mem.word savedCx ||| m₁.mem.word savedCx = m.cx := by rw [BitVec.or_self, h.cx]
  have hdx : m₁.mem.word savedDx ||| m₁.mem.word savedDx = m.dx := by rw [BitVec.or_self, h.dx]
  let m₂ : Machine DosState ι := m₁ |>.cmp (·.word savedAx) (imm HANDOFF_MARKER)
    |>.mov .ax (·.word savedCx) |>.orw .ax (·.ax)
  have h₂ : Still m₁ m₂ := .orw <| .mov <| .cmp <| .refl _
  let m₃ : Machine DosState ι := m₂ |>.cmp (·.ax) (imm MAX_STAGE1_SIZE) |>.mov .ax (·.word savedDx)
    |>.orw .ax (·.ax)
  have h₃ : Still m₁ m₃ := .orw <| .mov <| .cmp h₂
  have h₄ : Still m₁ (m₃.testb (·.reg8 .al) (imm CHAN_ANY)) := h₃.testb
  refine jnz_cases (fun hz => hbad (.cmp <| .refl _) fun hv => ?_) fun hmark => ?_
  · exact of_decide_eq_false hz (h.ax.trans hv.marker)
  refine jz_cases (fun hz => hbad h₂ fun hv => ?_) fun hz₂ => ?_
  · exact hv.size.1 (hax.symm.trans (of_decide_eq_true hz))
  refine ja_cmp_cases (fun hlt => hbad h₂.cmp fun hv => ?_) fun hle => ?_
  · have hlt' : MAX_STAGE1_SIZE.toNat < m.cx.toNat := hax ▸ hlt
    exact absurd hv.size.2 (Nat.not_le.mpr hlt')
  refine jz_cases (fun hz => hbad h₃ fun hv => ?_) fun _ => ?_
  · have h0 : m.dx = 0 := hdx.symm.trans (of_decide_eq_true hz)
    exact hv.channel (by rw [h0]; decide)
  refine jz_cases (fun hz => hbad h₄ fun hv => ?_) fun hz₄ => ?_
  · exact hv.channel (hdx ▸ of_decide_eq_true hz)
  refine ⟨h₄.clc, fun _ => ⟨?_, ⟨?_, ?_⟩, ?_⟩, fun _ => rfl⟩
  · exact h.ax.symm.trans (of_decide_eq_true hmark)
  · exact hax ▸ of_decide_eq_false hz₂
  · exact hax ▸ hle
  · exact hdx ▸ of_decide_eq_false hz₄

/-! ## The masks -/

/-- The interrupts that DX asks for are not masked: IRQ1 with a KBD or an AUX
channel, IRQ12 with an AUX channel. -/
structure Unmasked (dx : Word) (b : Bus) : Prop where
  irq1 : lo dx &&& CHAN_I8042_ANY ≠ 0 → b.pic1 &&& IRQ1_MASK = 0
  irq12 : lo dx &&& CHAN_AUX ≠ 0 → b.pic2 &&& IRQ12_MASK = 0

theorem Unmasked.congr {dx : Word} {b b' : Bus} (h : Bus.SameMasks b b') :
    Unmasked dx b' ↔ Unmasked dx b := by
  constructor
  · intro hu
    exact ⟨fun hd => h.1 ▸ hu.irq1 hd, fun hd => h.2 ▸ hu.irq12 hd⟩
  · intro hu
    exact ⟨fun hd => h.1.symm ▸ hu.irq1 hd, fun hd => h.2.symm ▸ hu.irq12 hd⟩

/-- An AUX channel is an i8042 channel. -/
theorem chan_aux {ch : Byte} (h : ch &&& CHAN_I8042_ANY = 0) : ch &&& CHAN_AUX = 0 := by
  have e : CHAN_AUX = CHAN_I8042_ANY &&& CHAN_AUX := by decide
  rw [e, ← BitVec.and_assoc, h]
  exact BitVec.zero_and

/-- A bit that a mask leaves out is cleared. -/
theorem and_cleared {mask bit : Byte} (h : mask &&& bit = 0) (b : Byte) :
    b &&& mask &&& bit = 0 := by
  rw [BitVec.and_assoc, h]
  exact BitVec.and_zero

theorem clearPic1_io (m : Machine DosState Bus) (v : Byte) :
    (m |>.inAl (imm PIC1_DATA) |>.andb .al (imm v) |>.outAl (imm PIC1_DATA)).io =
      { m.io with pic1 := m.io.pic1 &&& v } := by
  show Ports.out PIC1_DATA (lo (ofBytes _ (lo (ofBytes _ m.io.pic1) &&& v))) m.io = _
  rw [lo_ofBytes, lo_ofBytes]
  rfl

theorem clearPic2_io (m : Machine DosState Bus) (v : Byte) :
    (m |>.inAl (imm PIC2_DATA) |>.andb .al (imm v) |>.outAl (imm PIC2_DATA)).io =
      { m.io with pic2 := m.io.pic2 &&& v } := by
  show Ports.out PIC2_DATA (lo (ofBytes _ (lo (ofBytes _ m.io.pic2) &&& v))) m.io = _
  rw [lo_ofBytes, lo_ofBytes]
  rfl

theorem restoreIrqStateIfMasked_ok (m : Machine DosState Bus) :
    Unmasked (m.mem.word savedDx) (restoreIrqStateIfMasked m).io := by
  let Q : Machine DosState Bus → Prop := fun m' => Unmasked (m.mem.word savedDx) m'.io
  let m₁ : Machine DosState Bus :=
    m |>.mov .ax (·.word savedDx) |>.testb (·.reg8 .al) (imm CHAN_I8042_ANY)
  let m₂ : Machine DosState Bus := m₁ |>.inAl (imm PIC1_DATA) |>.andb .al (imm 0xFD)
    |>.outAl (imm PIC1_DATA) |>.mov .ax (·.word savedDx) |>.testb (·.reg8 .al) (imm CHAN_AUX)
  have h₂ : m₂.io = { m.io with pic1 := m.io.pic1 &&& 0xFD } := clearPic1_io m₁ 0xFD
  have hpic1 : m₂.io.pic1 &&& IRQ1_MASK = 0 := by
    rw [h₂]
    exact and_cleared (by decide) _
  show Q (restoreIrqStateIfMasked m)
  refine jz_cases (fun hz => ?_) fun _ => jz_cases (fun hz => ?_) fun _ => ?_
  · have hno : lo (m.mem.word savedDx) &&& CHAN_I8042_ANY = 0 := of_decide_eq_true hz
    exact ⟨fun h => absurd hno h, fun h => absurd (chan_aux hno) h⟩
  · have hno : lo (m.mem.word savedDx) &&& CHAN_AUX = 0 := of_decide_eq_true hz
    exact ⟨fun _ => hpic1, fun h => absurd hno h⟩
  · have h₃ := clearPic2_io m₂ 0xEF
    refine ⟨fun _ => ?_, fun _ => ?_⟩
    · rw [h₃]
      exact hpic1
    · rw [h₃]
      exact and_cleared (by decide) _

/-- The exit of a bad hand-off. -/
theorem failHandoff_ok (m : Machine DosState Bus) :
    ∃ m', failHandoff m = .exited 1 m' ∧ Unmasked (m.mem.word savedDx) m'.io := by
  have hs : Still m (puts (m.mov .si (imm msgErrHandoff))) := (Still.refl m).putsMsg
  have h := restoreIrqStateIfMasked_ok (puts (m.mov .si (imm msgErrHandoff)))
  rw [hs.mem] at h
  exact ⟨_, congrArg (Outcome.exited · _) (show lo (0x4C01 : Word) = 1 by decide), h⟩

/-! ## After the download -/

theorem emitStr_io (m : Machine DosState ι) : (emitStr m).io = m.io := by
  let Q : Machine DosState ι → Prop := fun m' => m'.io = m.io
  refine iter_keeps Q Q (fun s hs => ?_) (fun _ => id) _ m rfl
  exact jz_cases (P := Flow.Sat Q Q) (fun _ => hs) fun _ => hs

theorem emitHexDigit_io (m : Machine DosState ι) : (emitHexDigit m).io = m.io := by
  let m₁ : Machine DosState ι := m |>.andb .al (imm 0x0F) |>.cmpb (·.reg8 .al) (imm 10)
  have h : (m₁.jc (·.addb .al (imm 0x30)) (·.addb .al (imm (0x41 - 10)))).io = m.io := by
    rw [jc]
    split <;> rfl
  exact h

theorem emitHex8_io (m : Machine DosState ι) : (emitHex8 m).io = m.io :=
  (emitHexDigit_io _).trans (emitHexDigit_io _)

theorem emitHex16_io (m : Machine DosState ι) : (emitHex16 m).io = m.io :=
  (emitHex8_io _).trans (emitHex8_io _)

theorem emitDec16_io (m : Machine DosState ι) : (emitDec16 m).io = m.io := by
  let Q : Machine DosState ι → Prop := fun m' => m'.io = m.io
  let m₁ : Machine DosState ι := m |>.push (·.ax) |>.push (·.bx) |>.push (·.cx) |>.push (·.dx)
    |>.mov .bx (imm 10) |>.xorw .cx (·.cx)
  have hdiv : ∀ m', Q m' → Q (divLoop m') := fun _ h => h
  have hemit : ∀ m', Q m' → Q (emitLoop m') := fun _ h => h
  have h₀ : Q m₁ := by
    simp only [Q, m₁, xorw, mov, setReg, push]
  have h₁ : Q (m₁.loopNz divLoop) := loopNz_keeps Q hdiv h₀
  exact loop_keeps Q (fun _ _ h => h) hemit h₁

theorem emitModeName_io (m : Machine DosState ι) : (emitModeName m).io = m.io := by
  let Q : Machine DosState ι → Prop := fun m' => m'.io = m.io
  have hname : ∀ str m', Q m' → Q (emitModeName.name str m') :=
    fun str m' h => (emitStr_io (m'.mov .si (imm str))).trans h
  have hmode : ∀ {mode : Byte} {str : Word} {next : Machine DosState ι → Machine DosState ι},
    (∀ m', Q m' → Q (next m')) →
      ∀ m', Q m' → Q (m' |>.cmpb (·.reg8 .al) (imm mode) |>.jz (emitModeName.name str) next) :=
        fun hn m' h =>
    jz_cases (fun _ => hname _ _ h) fun _ => hn _ h
  exact hmode (hmode (hmode (hmode (hname _)))) m rfl

theorem buildEnvironment_io (m : Machine DosState ι) : (buildEnvironment m).io = m.io :=
  (emitStr_io _).trans <| (emitDec16_io _).trans <| (emitDec16_io _).trans <|
    (emitStr_io _).trans <|
    (emitDec16_io _).trans <| (emitStr_io _).trans <| (emitModeName_io _).trans <|
      (emitStr_io _).trans <|
    (emitHex16_io _).trans <| emitStr_io _

theorem int21Resize_io (m : Machine DosState ι) : (int21Resize m).io = m.io := by
  unfold int21Resize
  dsimp only
  split
  · rfl
  · split <;> rfl

theorem int21Exec_io (m : Machine DosState ι) : (int21Exec m).io = m.io := by
  unfold int21Exec
  dsimp only
  split <;> rfl

/-- DOS leaves the ports of Stage 1 alone. -/
theorem int21_io (m : Machine DosState ι) : (int21 m).io = m.io := by
  unfold int21
  split
  case h_8 => exact int21Resize_io m
  case h_9 => exact int21Exec_io m
  all_goals rfl

theorem execStage2_io (m : Machine DosState ι) : (execStage2 m).io = m.io := by
  let Q : Machine DosState ι → Prop := fun m' => m'.io = m.io
  let m₁ : Machine DosState ι :=
    m |>.push (·.es) |>.push (·.cs) |>.popEs |>.movb .ah (imm DOS_RESIZE)
    |>.mov .bx (imm EXEC_RESIZE_PARAS)
  have h₁ : Q (int21 m₁).popEs := int21_io m₁
  have hcode : ∀ m', Q m' → Q (execStage2.exitcode m') := fun m' h =>
    jc_cases (P := Q) (fun _ => h)
      fun _ => (int21_io (m'.popEs.popDs.movb .ah (imm DOS_GET_EXITCODE))).trans h
  have hparams : ∀ m' : Machine DosState ι, (execStage2.params m').io = m'.io := fun m' => by
    simp only [execStage2.params, mov, setReg, Machine.add, stw, push, popEs, popDs]
  have hnext : ∀ m', Q m' → Q (execStage2.exitcode (int21 (execStage2.params m'))) := fun m' h =>
    hcode _ ((int21_io _).trans ((hparams m').trans h))
  show Q ((int21 m₁).popEs.jc execStage2.fail
    fun m' => execStage2.exitcode (int21 (execStage2.params m')))
  exact jc_cases (fun _ => h₁) fun _ => hnext _ h₁

/-- Where the program exits, the ports are in this state. -/
def Leaves (io : ι) : Outcome ι → Prop
  | .exited _ m => m.io = io
  | .wild _ => True

theorem callExec_leaves (m : Machine DosState ι) : Leaves m.io (callExec m) := by
  have h := execStage2_io (m.push (imm execReturn))
  show Leaves m.io (ret _ _ _)
  unfold ret
  split
  · refine jc_cases (fun _ => ?_) fun _ => h
    unfold callExec.execFailed
    rw [putsMsg_ok]
    exact h
  · trivial

theorem afterDownload_leaves (m : Machine DosState ι) : Leaves m.io (afterDownload m) := by
  refine jc_cases (fun _ => ?_) fun _ => ?_
  · unfold noStage2
    rw [putsMsg_ok]
    rfl
  · have h := callExec_leaves (buildEnvironment m)
    rwa [buildEnvironment_io] at h

/-! ## Before the handshake -/

theorem item_still {m m₁ : Machine DosState ι} (h : Still m m₁) (label var : Word) :
    Still m (printInheritedState.item label var m₁) := h.putsMsg.mov.printHex16.putsMsg

theorem printInheritedState_still (m : Machine DosState ι) : Still m (printInheritedState m) :=
  item_still (item_still (item_still (.refl m) _ _) _ _) _ _

variable [Ports ι]

theorem initLptControl_keeps (m : Machine DosState ι) :
    Keeps LptStep [⟨lastPhase, 1⟩] m (lpt.initLptControl m) := by
  obtain ⟨a, d, z, c, e⟩ := lpt.initLptControl_ok m
  rw [e]
  refine ⟨⟨rfl, rfl, rfl, rfl, (Frame.refl _ _).set _ (by decide),
    Mem.word_set_of_ne _ _ (by decide) (by decide), List.prefix_rfl, ?_⟩, .refl _⟩
  exact .tail (.single (.out _ _ (.inr (.inl rfl)))) (.inp _ _)

/-- What is written to between the detection and the handshake. -/
abbrev testVars : List Region := wire ++ [⟨currentPump, 1⟩] ++ modeVars

theorem lptUp_keeps (m : Machine DosState ι) : Keeps LptStep testVars m (bringUp.lptUp m) := by
  have h : Keeps LptStep testVars m (lpt.initLptControl (printCaps m)) :=
    (printCaps_still m).keeps.trans ((initLptControl_keeps _).mono (by decide))
  exact (h.stb (by decide)).still (.putsMsg <| .refl _)

theorem noLptYet_keeps (m : Machine DosState ι) : Keeps LptStep testVars m (bringUp.noLptYet m) :=
  (Still.putsMsg <| .refl m).keeps.stb (by decide)

omit [Ports ι] in
/-- A message by the carry flag. -/
theorem verdict_still (m : Machine DosState ι) (fail ok : Word) :
    Still m (m.jc (putsMsg fail) (putsMsg ok)) :=
  jc_cases (fun _ => .putsMsg <| .refl m) fun _ => .putsMsg <| .refl m

/-- The self-tests and the negotiation keep the pump. -/
theorem afterDetection_keeps (m : Machine DosState ι) : Keeps LptStep (wire ++ modeVars) m
    (m |> packetSelfTest |>.jc (putsMsg msgPacketFail) (putsMsg msgPacketOk)
      |> pumpDispatcherSelfTest |>.jc (putsMsg msgPumpFail) (putsMsg msgPumpOk)
        |> ieee1284NegotiateLadder) := by
  have h₁ : Keeps LptStep (wire ++ modeVars) m (packetSelfTest m) :=
  (packetSelfTest_keeps m).mono (by decide)
  have h₂ := h₁.still (verdict_still _ msgPacketFail msgPacketOk)
  have h₃ :=
    (h₂.still (pumpDispatcherSelfTest_core _).still).still (verdict_still _ msgPumpFail msgPumpOk)
  exact h₃.trans ((ieee1284NegotiateLadder_keeps _).mono (by decide))

/-- What is written to before the handshake. -/
abbrev upVars : List Region :=
  testVars ++ ⟨lptBase, 2⟩ :: ⟨dpCapsIrq, 1⟩ :: ⟨dpCapsDma, 1⟩ :: capsVars

/-- What is left for the handshake: without a parallel port there is no pump. -/
structure Up (m m' : Machine DosState ι) : Prop where
  mem : Frame upVars m.mem m'.mem
  dos : DosState.Quiet m.dos m'.dos
  base : m'.mem.word lptBase = m.mem.word savedBx
  link : Drives (lptPorts (m.mem.word savedBx)) m.io m'.io
  none : m.mem.word savedBx = 0 → m'.mem currentPump = PUMP_NONE

theorem bringUp_ok (m : Machine DosState ι) : Up m (bringUp m) := by
  let m₁ : Machine DosState ι := m |> printInheritedState |> lptChipsetDetect
  let m₂ : Machine DosState ι := m₁.jc bringUp.noLptYet bringUp.lptUp
  have h₀ := printInheritedState_still m
  have h₁ : Detected (printInheritedState m) m₁ := lptChipsetDetect_ok _
  have h₂ : Keeps LptStep testVars m₁ m₂ :=
    jc_cases (fun _ => noLptYet_keeps m₁) fun _ => lptUp_keeps m₁
  have h₃ := afterDetection_keeps m₂
  have hk : Keeps LptStep testVars m₁ (bringUp m) := h₂.trans (h₃.mono (by decide))
  have hbx : (printInheritedState m).mem.word savedBx = m.mem.word savedBx :=
    congrArg (Mem.word · savedBx) h₀.mem
  have hbase : m₁.mem.word lptBase = m.mem.word savedBx := h₁.base.trans hbx
  refine ⟨?_, (h₀.dos.trans h₁.dos).trans hk.dos, hk.base.trans hbase, ?_, fun hb => ?_⟩
  · have hd := h₁.mem
    rw [h₀.mem] at hd
    exact (hd.mono (by decide)).trans (hk.mem.mono (by decide))
  · have hd := h₁.link
    have hl := hk.link
    rw [hbx, h₀.io] at hd
    rw [hbase] at hl
    exact hd.trans hl
  · have hcf : m₁.cf = true := h₁.none (hbx.trans hb)
    have hpump : m₂.mem currentPump = PUMP_NONE := by
      show (m₁.jc bringUp.noLptYet bringUp.lptUp).mem currentPump = _
      rw [jc_pos hcf]
      exact Mem.set_self (putsMsg msgModeBTodo m₁).mem currentPump PUMP_NONE
    exact (h₃.mem.byte (by decide)).trans hpump

/-! ## The run -/

/-- The pump's accesses are to the parallel port. -/
theorem Link.drives {base : Word} {io io' : ι} (h : Relation.ReflTransGen (Link base) io io') :
    Drives (lptPorts base) io io' := by
  refine Relation.ReflTransGen.lift' id (fun _ _ ⟨_, hd⟩ => ?_) _ _ h
  exact Drives.mono hd fun _ hp => hp.imp_right .inl

theorem preflight_link (m : Machine DosState ι) :
    (preflight m).mem.word lptBase = m.mem.word lptBase ∧
    Drives (lptPorts (m.mem.word lptBase)) m.io (preflight m).io := by
  obtain ⟨bs, hs, -⟩ := capHandshake_ok m
  have hk := pumpStressTest_keeps (capHandshake m)
  have hl := hk.link
  rw [hs.keeps.base] at hl
  exact ⟨hk.base.trans hs.keeps.base, (Link.drives hs.keeps.link).trans (Link.drives hl)⟩

theorem downloadStage2_within (m : Machine DosState ι) (hn : Named m.mem) :
    Within Link downloadVars m (downloadStage2 m) := by
  rcases downloadStage2_ok m hn with ⟨-, hskip⟩ | ⟨-, created, hd⟩
  · exact hskip.within
  · exact hd.within

/-- What `start` has come to after the download. -/
structure Loaded (m m' : Machine DosState ι) : Prop where
  run : start m = afterDownload m'
  download : ∃ m₁, Named m₁.mem ∧ DosState.Quiet m.dos m₁.dos ∧ m' = downloadStage2 m₁
  link : Drives (lptPorts m.bx) m.io m'.io
  /-- Without a parallel port there is no download. -/
  none : m.bx = 0 → m'.cf = true ∧ DosState.Quiet m.dos m'.dos

theorem start_valid (m : Machine DosState ι) (hn : Named m.mem) (hv : ValidHandoff m) :
    ∃ m', Loaded m m' := by
  let m₁ : Machine DosState ι := m |> snapshot |> validateHandoff
  let m₂ : Machine DosState ι := m₁ |> bringUp |> preflight
  have hs := snapshot_ok m
  obtain ⟨hstill, hvalid⟩ := validateHandoff_ok hs
  have hup : Up m₁ (bringUp m₁) := bringUp_ok m₁
  obtain ⟨bs, hp⟩ := preflight_ok (bringUp m₁)
  obtain ⟨hbase, hlink⟩ := preflight_link (bringUp m₁)
  have hbx : m₁.mem.word savedBx = m.bx := (congrArg (Mem.word · savedBx) hstill.mem).trans hs.bx
  have hnamed : Named m₂.mem := by
    have h₁ : Frame saved m.mem m₁.mem := hstill.mem.symm ▸ hs.mem
    exact hp.named ((hn.frame h₁ (by decide)).frame hup.mem (by decide))
  have hd := downloadStage2_within m₂ hnamed
  have hdos : DosState.Quiet m.dos m₂.dos := ((hs.dos.trans hstill.dos).trans hup.dos).trans hp.dos
  refine ⟨downloadStage2 m₂, jc_neg (hvalid.mpr hv), ⟨m₂, hnamed, hdos, rfl⟩, ?_, fun h0 => ?_⟩
  · have h₂ := hup.link
    have h₄ := Link.drives hd.link
    rw [hstill.io, hs.io, hbx] at h₂
    rw [hup.base, hbx] at hlink
    rw [hbase, hup.base, hbx] at h₄
    exact (h₂.trans hlink).trans h₄
  · have hpump : m₂.mem currentPump = PUMP_NONE := hp.pump.trans (hup.none (hbx.trans h0))
    rcases downloadStage2_ok m₂ hnamed with ⟨-, hskip⟩ | ⟨hw, -⟩
    · exact ⟨hskip.cf, hdos.trans hskip.dos⟩
    · exact absurd hpump hw.pump

/-- The program ends with errorlevel 1, and has run no other. -/
structure Fails (m m' : Machine DosState ι) : Prop where
  exit : start m = .exited 1 m'
  own : ∃ calls, m'.dos.calls = m.dos.calls ++ calls ∧ ∀ name, .exec name true ∉ calls

/-- Stage 1 without a parallel port fails, the ports as they were. -/
theorem start_noLpt (m : Machine DosState ι) (hn : Named m.mem) (hv : ValidHandoff m)
    (h0 : m.bx = 0) : ∃ m', Fails m m' ∧ Drives (lptPorts m.bx) m.io m'.io := by
  obtain ⟨m₁, hrun, -, hlink, hnone⟩ := start_valid m hn hv
  obtain ⟨hcf, hdos⟩ := hnone h0
  let m' : Machine DosState ι := putsMsg msgNoStage2 m₁ |>.mov .ax (imm 0x4C01)
  have hs : Still m₁ m' := (Still.refl m₁).putsMsg.mov
  have e : afterDownload m₁ = .exited 1 m' :=
    (jc_pos hcf).trans (congrArg (Outcome.exited · _) (show lo (0x4C01 : Word) = 1 by decide))
  refine ⟨m', ⟨hrun.trans e, [], ?_, fun _ => List.not_mem_nil⟩, hs.io ▸ hlink⟩
  obtain ⟨con, asked, ed⟩ := hdos.trans hs.dos
  rw [ed, List.append_nil]

theorem createFile_refused (m : Machine DosState ι) (hr : ∀ k, (m.dos.ask k).cf = true) :
    (downloadStage2.createFile m).cf = true := by
  let m₁ : Machine DosState ι := m |>.movb .ah (imm DOS_CREATE) |>.xorw .cx (·.cx)
    |>.mov .dx (imm stage2Filename)
  have hcreate : int21 m₁ = int21Create m₁ := int21_create (hi_ofBytes _ _)
  have hcf : (int21 m₁).cf = true := by
    rw [hcreate]
    exact hr _
  exact congrArg Machine.cf
    (show downloadStage2.createFile m = downloadStage2.skip msgDlFailCreate (int21 m₁) from
      jc_pos hcf)

theorem downloadStage2_refused (m : Machine DosState ι) (hr : ∀ k, (m.dos.ask k).cf = true) :
    (downloadStage2 m).cf = true := by
  let Q : Machine DosState ι → Prop := fun m' => m'.cf = true
  let m₁ : Machine DosState ι := m |>.cmpb (·.byte currentPump) (imm PUMP_NONE)
    |>.mov .ax (·.word stage2ImageSize) |>.orw .ax (·.word (stage2ImageSize + 2))
  refine jnz_cases (P := Q) (fun _ => jnz_cases (P := Q) (fun _ => ?_) fun _ => rfl) fun _ => rfl
  show (downloadStage2.haveSize m₁).cf = true
  rcases haveSize_ok m₁ with ⟨-, m₂, -, e⟩ | ⟨-, m₂, hs, e⟩
  · rw [e]
    rfl
  · rw [e]
    exact createFile_refused m₂
      fun k => (congrArg (fun ask : Nat → Reply => (ask k).cf) hs.dos.ask).trans (hr k)

/-- Stage 1 fails where DOS refuses. -/
theorem start_refused (m : Machine DosState ι) (hn : Named m.mem) (hv : ValidHandoff m)
    (hr : ∀ k, (m.dos.ask k).cf = true) : ∃ m', Fails m m' := by
  obtain ⟨-, hrun, ⟨m₁, hn₁, hq, rfl⟩, -⟩ := start_valid m hn hv
  have hcf := downloadStage2_refused m₁
    fun k => (congrArg (fun ask : Nat → Reply => (ask k).cf) hq.ask).trans (hr k)
  obtain ⟨m', e, -, calls, hcalls, hno⟩ := downloadStage2_unexecuted m₁ hn₁ hcf
  obtain ⟨con, asked, ed⟩ := hq
  rw [ed] at hcalls
  exact ⟨m', hrun.trans e, calls, hcalls, fun name => hno name true⟩

/-- The parallel port is not an interrupt controller. -/
def ClearOfPics (base : Word) : Prop := ¬ lptPorts base PIC1_DATA ∧ ¬ lptPorts base PIC2_DATA

instance (base : Word) : Decidable (ClearOfPics base) :=
  inferInstanceAs (Decidable (¬ (_ ∨ _ ∨ _) ∧ ¬ (_ ∨ _ ∨ _)))

/-- A run that fails gives back the interrupts that DX asks for iff its
hand-off was refused, or they were not masked. -/
theorem failure_restores_iff (m : Machine DosState Bus) (hn : Named m.mem) (hbx : ClearOfPics m.bx)
    {m' : Machine DosState Bus} (hf : Fails m m') :
    Unmasked m.dx m'.io ↔ ¬ ValidHandoff m ∨ Unmasked m.dx m.io := by
  by_cases hv : ValidHandoff m
  · obtain ⟨m₁, hrun, -, hlink, -⟩ := start_valid m hn hv
    have hmasks : Bus.SameMasks m.io m₁.io := .of_drives hlink hbx.1 hbx.2
    have hio : Leaves m₁.io (.exited 1 m') := hf.exit ▸ hrun ▸ afterDownload_leaves m₁
    have hsame : Bus.SameMasks m.io m'.io := (show m'.io = m₁.io from hio) ▸ hmasks
    rw [Unmasked.congr hsame, or_iff_right (not_not.mpr hv)]
  · have hs := snapshot_ok m
    obtain ⟨hstill, hvalid⟩ := validateHandoff_ok hs
    have hcf : (validateHandoff (snapshot m)).cf = true := by
      rw [← Bool.not_eq_false, hvalid]
      exact hv
    obtain ⟨m₁, hexit, hu⟩ := failHandoff_ok (validateHandoff (snapshot m))
    have hrun : start m = .exited 1 m₁ := (jc_pos hcf).trans hexit
    obtain rfl : m₁ = m' := (Outcome.exited.inj (hrun.symm.trans hf.exit)).2
    rw [hstill.mem, hs.dx] at hu
    exact ⟨fun _ => .inl hv, fun _ => hu⟩

/-- Stage 1 handed a KBD channel and no parallel port, IRQ1 masked. -/
def kbdOnly : Machine DosState Bus where
  ax := HANDOFF_MARKER
  bx := 0
  cx := 0x1400
  dx := 0x0002
  si := 0
  di := 0
  cs := 0x1000
  ds := 0x1000
  es := 0x1000
  cf := false
  zf := false
  stk := []
  mem := Mem.store (fun _ => 0) stage2Filename (stage2Name ++ [0])
  got := []
  dos := (inherited fun _ => 0).dos
  io := ⟨IRQ1_MASK, 0, fun _ => 0, 0, []⟩

theorem kbdOnly_named : Named kbdOnly.mem := by
  unfold Named
  decide

theorem kbdOnly_valid : ValidHandoff kbdOnly := by decide

theorem kbdOnly_restores_iff : ∃ m', Fails kbdOnly m' ∧
    (Unmasked kbdOnly.dx m'.io ↔ ¬ ValidHandoff kbdOnly ∨ Unmasked kbdOnly.dx kbdOnly.io) := by
  obtain ⟨m', hf, -⟩ := start_noLpt kbdOnly kbdOnly_named kbdOnly_valid rfl
  exact ⟨m', hf, failure_restores_iff kbdOnly kbdOnly_named (by decide) hf⟩

/-- There is no download, and IRQ1 stays masked. -/
theorem kbdOnly_masked : ∃ m', Fails kbdOnly m' ∧ ¬ Unmasked kbdOnly.dx m'.io := by
  obtain ⟨m', hf, hlink⟩ := start_noLpt kbdOnly kbdOnly_named kbdOnly_valid rfl
  have hclear : ClearOfPics kbdOnly.bx := by decide
  have hsame : Bus.SameMasks kbdOnly.io m'.io := .of_drives hlink hclear.1 hclear.2
  refine ⟨m', hf, fun hu => ?_⟩
  have hirq := ((Unmasked.congr hsame).mp hu).irq1 (by decide)
  revert hirq
  decide

end VintageKvm.Stage1
