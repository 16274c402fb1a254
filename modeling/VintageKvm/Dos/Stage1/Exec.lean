import VintageKvm.Dos.Stage1.Image

/-!
# Stage 1: running Stage 2

`build_environment` and `exec_stage2`, and the call of the latter as the
program's stack sees it: before `INT 21h/4Bh` the stack holds ES, DS and the
return address, at the top of the segment, where DOS put it and where the
block Stage 1 keeps does not reach.
-/

namespace VintageKvm.Stage1

open I8086 Machine Dos

variable {ι : Type}

/-! ## The environment -/

/-- `emit_str`. -/
def emitStr (m : Machine DosState ι) : Machine DosState ι :=
  iter (fun m => m |>.lodsb |>.orb .al (·.reg8 .al) |>.jz .done (.next ∘ stosb)) id 65536 m

/-- `emit_hex_digit`. -/
def emitHexDigit (m : Machine DosState ι) : Machine DosState ι :=
  m |>.andb .al (imm 0x0F) |>.cmpb (·.reg8 .al) (imm 10)
    |>.jc (·.addb .al (imm 0x30)) (·.addb .al (imm (0x41 - 10))) |>.stosb

/-- `emit_hex8`. -/
def emitHex8 (m : Machine DosState ι) : Machine DosState ι :=
  m |>.push (·.ax) |>.movb .ah (·.reg8 .al) |>.shrb .al 4 |> emitHexDigit
    |>.movb .al (·.reg8 .ah) |>.andb .al (imm 0x0F) |> emitHexDigit |>.pop .ax

/-- `emit_hex16`. -/
def emitHex16 (m : Machine DosState ι) : Machine DosState ι :=
  m |>.push (·.ax) |>.movb .al (·.reg8 .ah) |> emitHex8 |>.pop .ax |> emitHex8

/-- `emit_dec16.emitloop`. -/
def emitLoop (m : Machine DosState ι) : Machine DosState ι :=
  m |>.pop .ax |>.addb .al (imm 0x30) |>.stosb

/-- `emit_dec16`. -/
def emitDec16 (m : Machine DosState ι) : Machine DosState ι :=
  m |>.push (·.ax) |>.push (·.bx) |>.push (·.cx) |>.push (·.dx)
    |>.mov .bx (imm 10) |>.xorw .cx (·.cx)
    |>.loopNz divLoop |>.loop emitLoop
    |>.pop .dx |>.pop .cx |>.pop .bx |>.pop .ax

/-- `emit_mode_name`. -/
def emitModeName (m : Machine DosState ι) : Machine DosState ι :=
  m |>.cmpb (·.reg8 .al) (imm NEG_MODE_ECP) |>.jz (name strModeEcp) fun m =>
  m |>.cmpb (·.reg8 .al) (imm NEG_MODE_EPP) |>.jz (name strModeEpp) fun m =>
  m |>.cmpb (·.reg8 .al) (imm NEG_MODE_BYTE) |>.jz (name strModeByte) fun m =>
  m |>.cmpb (·.reg8 .al) (imm NEG_MODE_SPP) |>.jz (name strModeSpp) (name strNegFailed)
where
  /-- `.ecp`, `.epp`, `.byte`, `.spp`. -/
  name (str : Word) (m : Machine DosState ι) : Machine DosState ι :=
    m |>.mov .si (imm str) |> emitStr

/-- `build_environment`. -/
def buildEnvironment (m : Machine DosState ι) : Machine DosState ι :=
  m |>.push (·.es) |>.push (·.cs) |>.popEs |>.mov .di (imm ENV_BUF_OFF)
    |>.mov .si (imm envPrefixStr) |> emitStr |>.mov .ax (·.word savedBx) |> emitHex16
    |>.mov .si (imm envModeStr) |> emitStr |>.movb .al (·.byte negotiatedMode) |> emitModeName
    |>.mov .si (imm envChanStr) |> emitStr |>.mov .ax (·.word savedDx) |> emitDec16
    |>.mov .si (imm envVerStr) |> emitStr |>.xorb .ah (·.reg8 .ah)
    |>.movb .al (·.byte picoVersionMajor) |> emitDec16
    |>.movb .al (imm 0x2E) |>.stosb |>.xorb .ah (·.reg8 .ah)
    |>.movb .al (·.byte picoVersionMinor) |> emitDec16
    |>.xorb .al (·.reg8 .al) |>.stosb |>.stosb |>.mov .ax (imm 1) |>.stosw
    |>.mov .si (imm stage2Filename) |> emitStr |>.xorb .al (·.reg8 .al) |>.stosb |>.popEs

/-! ## The child -/

/-- `exec_stage2`. -/
def execStage2 (m : Machine DosState ι) : Machine DosState ι :=
  m |>.push (·.es) |>.push (·.cs) |>.popEs |>.movb .ah (imm DOS_RESIZE)
    |>.mov .bx (imm EXEC_RESIZE_PARAS) |> int21 |>.popEs |>.jc fail (exitcode ∘ int21 ∘ params)
where
  /-- Step 2, and the registers of step 3. -/
  params (m : Machine DosState ι) : Machine DosState ι :=
    m |>.mov .ax (·.cs) |>.add .ax (imm ENV_BUF_PARAS) |>.stw (imm execParamEnvSeg) (·.ax)
      |>.mov .ax (·.cs) |>.stw (imm (execParamCmdtail + 2)) (·.ax)
      |>.stw (imm (execParamFcb1 + 2)) (·.ax)
      |>.stw (imm (execParamFcb2 + 2)) (·.ax)
      |>.push (·.ds) |>.push (·.es) |>.push (·.cs) |>.popEs |>.mov .bx (imm execParamBlock)
      |>.push (·.cs) |>.popDs |>.mov .dx (imm stage2Filename) |>.mov .ax (imm 0x4B00)
  /-- What follows `INT 21h/4Bh`. -/
  exitcode (m : Machine DosState ι) : Machine DosState ι :=
    m |>.popEs |>.popDs |>.jc fail fun m => m |>.movb .ah (imm DOS_GET_EXITCODE) |> int21 |>.clc
  /-- `.fail`. -/
  fail (m : Machine DosState ι) : Machine DosState ι := m.stc

/-- Where `start` goes on after its `call exec_stage2`. -/
abbrev execReturn : Word := 0x0880

/-- `ret` to the caller that goes on at `a`, or to wherever the word on the
stack points. -/
def ret (a : Word) (next : Machine DosState ι → Outcome ι) (m : Machine DosState ι) : Outcome ι :=
  if m.top = a then next { m with stk := m.stk.tail } else .wild m

/-- `start` from `call exec_stage2` on. -/
def callExec (m : Machine DosState ι) : Outcome ι :=
  m |>.push (imm execReturn) |> execStage2 |> ret execReturn fun m =>
  m.jc execFailed fun m => m |>.movb .ah (imm 0x4C) |> int21Exit
where
  /-- `.exec_failed`. -/
  execFailed (m : Machine DosState ι) : Outcome ι :=
    m |> putsMsg msgErrExec |>.mov .ax (imm 0x4C01) |> int21Exit

/-- The parameter block with the program's segment in it. -/
def execParams (cs : Word) (mem : Mem) : Mem :=
  mem |>.setWord execParamEnvSeg (cs + ENV_BUF_PARAS) |>.setWord (execParamCmdtail + 2) cs
    |>.setWord (execParamFcb1 + 2) cs |>.setWord (execParamFcb2 + 2) cs

/-- The answers DOS gives to the two calls of `exec_stage2` are that the
block was shrunk, and that the child was run. -/
structure Executes (m : Machine DosState ι) : Prop where
  resized : (m.dos.ask m.dos.asked).cf = false
  executed : (m.dos.ask (m.dos.asked + 1)).cf = false

/-- What the child leaves. -/
def execChild (m : Machine DosState ι) : Child := (m.dos.ask (m.dos.asked + 1)).child

/-- The words of the stack that `exec_stage2` reads after the child's return. -/
def liveStack (m : Machine DosState ι) : List Word := [m.es, m.ds, execReturn]

/-- SP at the call of `EXEC`. -/
def execSp (m : Machine DosState ι) : Word := m.dos.sp - BitVec.ofNat 16 (2 * (m.stk.length + 3))

theorem reload_append (kept : Nat) (child : Mem) (sp : Word) (ws ws' : List Word) :
    reload kept child sp (ws ++ ws') =
    reload kept child sp ws ++ reload kept child (sp + BitVec.ofNat 16 (2 * ws.length)) ws' := by
  induction ws generalizing sp with
  | nil => rw [List.nil_append, List.length_nil, Nat.mul_zero, BitVec.add_zero]; rfl
  | cons w ws ih =>
    have hsp : sp + 2 + BitVec.ofNat 16 (2 * ws.length) =
        sp + BitVec.ofNat 16 (2 * (ws.length + 1)) := by
      rw [Nat.mul_succ, Nat.add_comm, BitVec.ofNat_add, ← BitVec.add_assoc]
      rfl
    rw [List.cons_append, reload, ih, List.length_cons, hsp]
    rfl

/-- The machine `EXEC` is called on. -/
def execCall (m : Machine DosState ι) : Machine DosState ι :=
  { m.mov .ax (·.cs) |>.add .ax (imm ENV_BUF_PARAS) with
  ax := 0x4B00, bx := execParamBlock, dx := stage2Filename, ds := m.cs, es := m.cs
  stk := liveStack m ++ m.stk, mem := execParams m.cs m.mem
  dos := { m.dos.answered with paras := EXEC_RESIZE_PARAS.toNat } }

/-- The block shrunk, the child is run. -/
theorem execStage2_resized (m : Machine DosState ι) (h : (m.dos.ask m.dos.asked).cf = false) :
    execStage2 (m.push (imm execReturn)) = execStage2.exitcode (int21Exec (execCall m)) := by
  let m₁ : Machine DosState ι := { m with
    ax := ofBytes DOS_RESIZE (lo m.ax), bx := EXEC_RESIZE_PARAS, es := m.cs,
    stk := m.es :: execReturn :: m.stk }
  have h₁ : int21 m₁ = int21Resize m₁ := int21_resize (hi_ofBytes _ _)
  have hres : int21Resize m₁ = { m₁ with
      cf := false, dos := { m.dos.answered with paras := EXEC_RESIZE_PARAS.toNat } } := by
    unfold int21Resize
    rw [if_neg (not_not.mpr rfl),
      if_neg (show ¬ m₁.dos.reply.cf = true from h ▸ Bool.false_ne_true)]
  have h₂ : int21 (execCall m) = int21Exec (execCall m) :=
    int21_exec (show hi (0x4B00 : Word) = DOS_EXEC by decide)
  have e : execStage2 (m.push (imm execReturn)) =
      (int21 m₁).popEs.jc execStage2.fail (execStage2.exitcode ∘ int21 ∘ execStage2.params) := rfl
  have hp : execStage2.params ({ m₁ with
      cf := false,
      dos := { m.dos.answered with paras := EXEC_RESIZE_PARAS.toNat } } : Machine DosState
        ι).popEs = execCall m := by
    simp only [execStage2.params, popEs, mov, setReg, Machine.add, reg, stw, imm, push, popDs, top,
      List.headD_cons, List.tail_cons, execCall, execParams, liveStack, List.cons_append,
      List.nil_append, m₁]
    congr 1
  rw [e, h₁, hres, jc_neg rfl, ← h₂, ← hp]
  rfl

theorem int21Exec_executed (m : Machine DosState ι) (h : m.dos.reply.cf = false) :
    (int21Exec m).cf = false ∧ (int21Exec m).dos.exit = m.dos.reply.child.exit ∧
    (int21Exec m).stk =
      reload (m.dos.paras * 16) m.dos.reply.child.mem
        (m.dos.sp - BitVec.ofNat 16 (2 * m.stk.length)) m.stk ∧
    ∀ x : Word, x.toNat < m.dos.paras * 16 → (int21Exec m).mem x = m.mem x := by
  have e : ¬ m.dos.reply.cf = true := h ▸ Bool.false_ne_true
  unfold int21Exec
  rw [if_neg e]
  exact ⟨h, rfl, rfl, fun x hx => if_pos hx⟩

/-- The end of `exec_stage2`. -/
theorem exitcode_eq (m : Machine DosState ι) (hcf : m.cf = false) {e d : Word} {ws : List Word}
    (hstk : m.stk = e :: d :: ws) :
    execStage2.exitcode m =
      { m with ax := m.dos.exit, ds := d, es := e, cf := false, stk := ws } := by
  let m₁ : Machine DosState ι :=
    { m with ax := ofBytes DOS_GET_EXITCODE (lo m.ax), ds := d, es := e, stk := ws }
  have h₁ : int21 m₁ = int21GetExitcode m₁ := int21_getExitcode (hi_ofBytes _ _)
  have hpop : m.popEs.popDs = { m with ds := d, es := e, stk := ws } := by
    simp only [popEs, popDs, top, hstk, List.headD_cons, List.tail_cons]
  unfold execStage2.exitcode
  rw [hpop, jc_neg (m := { m with ds := d, es := e, stk := ws }) hcf]
  show (int21 m₁).clc = _
  rw [h₁]
  rfl

/-- The memory Stage 1 keeps, in bytes. -/
theorem execCall_kept (m : Machine DosState ι) : (execCall m).dos.paras * 16 = 0x3000 := by
  show EXEC_RESIZE_PARAS.toNat * 16 = 0x3000
  decide

/-- The end of `exec_stage2` on the words the child left. -/
def returned (m : Machine DosState ι) (e d : Word) (stk : List Word) : Machine DosState ι :=
  { int21Exec (execCall m) with
    ax := (execChild m).exit, ds := d, es := e, cf := false, stk := stk }

theorem execStage2_eq (m : Machine DosState ι) (h : Executes m) {e d : Word} {stk : List Word}
    (hstk : reload 0x3000 (execChild m).mem (execSp m) (liveStack m ++ m.stk) = e :: d :: stk) :
    execStage2 (m.push (imm execReturn)) = returned m e d stk := by
  obtain ⟨hcf, hexit, hreload, -⟩ := int21Exec_executed (execCall m) h.executed
  rw [execCall_kept] at hreload
  rw [execStage2_resized m h.resized, exitcode_eq _ hcf (hreload.trans hstk), hexit]
  rfl

/-- The return to the word on the stack, and the exit. -/
theorem callExec_eq (m : Machine DosState ι) (h : Executes m) {e d a : Word} {stk : List Word}
    (hstk : reload 0x3000 (execChild m).mem (execSp m) (liveStack m ++ m.stk) =
      e :: d :: a :: stk) :
    callExec m = if a = execReturn then
        .exited (lo (execChild m).exit) ((returned m e d stk).movb .ah (imm 0x4C))
      else .wild (returned m e d (a :: stk)) := by
  unfold callExec
  rw [execStage2_eq m h hstk]
  unfold ret
  refine if_congr (show (returned m e d (a :: stk)).top = execReturn ↔ a = execReturn from
    Iff.rfl) ?_ rfl
  show jc (returned m e d stk) _ _ = _
  rw [jc_neg rfl]
  exact congrArg (Outcome.exited · _) (lo_ofBytes _ _)

/-! ## Surviving the child -/

/-- Stage 1 goes on as if there had been no child: the words it pops are those
it pushed, what it kept of its memory is as it was, and it exits with the
child's errorlevel. -/
def Survives (m : Machine DosState ι) : Prop :=
  ∃ m', callExec m = .exited (lo (execChild m).exit) m' ∧
  m'.es = m.es ∧ m'.ds = m.ds ∧ ∀ x : Word, x.toNat < 0x3000 → m'.mem x = (execCall m).mem x

/-- Stage 1 survives its child iff the child leaves the stack alone. -/
theorem survives_iff (m : Machine DosState ι) (h : Executes m) :
    Survives m ↔ Spares 0x3000 (execChild m).mem (execSp m) (liveStack m) := by
  obtain ⟨e, d, a, hlive⟩ : ∃ e d a, reload 0x3000 (execChild m).mem (execSp m) (liveStack m) =
      [e, d, a] := ⟨_, _, _, rfl⟩
  have hstk := reload_append 0x3000 (execChild m).mem (execSp m) (liveStack m) m.stk
  rw [hlive] at hstk
  have hrun := callExec_eq m h hstk
  rw [← reload_eq_iff, hlive]
  constructor
  · rintro ⟨m', hexit, hes, hds, -⟩
    rw [hexit] at hrun
    split at hrun
    · rename_i ha
      obtain rfl := (Outcome.exited.inj hrun).2
      rw [show e = m.es from hes, show d = m.ds from hds, ha]
      rfl
    · cases hrun
  · intro hsame
    injection hsame with he hsame
    injection hsame with hd hsame
    injection hsame with ha
    rw [if_pos ha] at hrun
    refine ⟨_, hrun, he, hd, fun x hx => ?_⟩
    exact (int21Exec_executed (execCall m) h.executed).2.2.2 x (by rwa [execCall_kept])

/-- Stage 1 on the stack it has from Stage 0, in a DOS that runs `child`. -/
def inherited (child : Mem) : Machine DosState Unit where
  ax := 0
  bx := 0
  cx := 0
  dx := 0
  si := 0
  di := 0
  cs := 0x1000
  ds := 0x1000
  es := 0x1000
  cf := false
  zf := false
  stk := []
  mem := fun _ => 0
  got := []
  dos := ⟨fun _ => none, fun _ => none, [], [], 0x1000, 0xFFFE, 0,
    fun _ => ⟨false, 0, 0, 0, 0, ⟨child, 0, 0, 0, 0, 0, 0x2000, 0x2000, 7⟩⟩, 0⟩
  io := ()

theorem survives_iff_spared :
    Survives (inherited (Mem.store (fun _ => 0) 0xFFF8 [0x00, 0x10, 0x00, 0x10, 0x80, 0x08])) :=
  (survives_iff _ ⟨rfl, rfl⟩).mpr (by decide)

/-- A child that clears the memory DOS gave it. -/
theorem cleared_wild :
    Executes (inherited fun _ => 0) ∧ (∃ m', callExec (inherited fun _ => 0) = .wild m') ∧
    ¬ Survives (inherited fun _ => 0) := by
  have h : Executes (inherited fun _ => 0) := ⟨rfl, rfl⟩
  have hstk : reload 0x3000 (execChild (inherited fun _ => 0)).mem (execSp (inherited fun _ => 0))
      (liveStack (inherited fun _ => 0) ++ []) = [0, 0, 0] := by decide
  have hrun := callExec_eq (inherited fun _ => 0) h hstk
  rw [if_neg (by decide)] at hrun
  refine ⟨h, ⟨_, hrun⟩, fun ⟨m', hexit, _⟩ => ?_⟩
  rw [hrun] at hexit
  cases hexit

end VintageKvm.Stage1
