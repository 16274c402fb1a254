import VintageKvm.Dos.Stage1.Exchange

/-!
# Stage 1: the stress test

Eight rounds of PING and PONG, timed and counted. Whatever the peer does, the
test comes back with the stack, the files and all variables but its own as
they were.
-/

namespace VintageKvm.Stage1

open I8086 Machine Dos Protocol

variable {ι : Type} [Pump ι]

/-- `read_centisec_clock`. -/
def readCentisecClock (m : Machine DosState ι) : Machine DosState ι :=
  m |>.push (·.bx) |>.push (·.cx) |>.push (·.dx) |>.movb .ah (imm 0x2C) |> int21
    |>.xorb .ah (·.reg8 .ah) |>.movb .al (·.reg8 .dh) |>.movb .bl (imm 100) |>.mulb .bl
    |>.xorb .dh (·.reg8 .dh) |>.add .ax (·.dx) |>.pop .dx |>.pop .cx |>.pop .bx

/-- `compute_elapsed_centis`. -/
def computeElapsedCentis (m : Machine DosState ι) : Machine DosState ι :=
  m |>.sub .ax (·.bx) |>.jnc id (·.add .ax (imm 6000))

/-- `stress_one_iter`. -/
def stressOneIter (m : Machine DosState ι) : Machine DosState ι :=
  m |>.movb .al (imm CMD_PING) |>.mov .si (imm stressPayload) |>.mov .cx (imm STRESS_PAYLOAD_LEN)
    |> encodeDrain |>.jc err fun m =>
  m |> recvHeader err fun m =>
  m |>.cmp (·.bx) (imm STRESS_PAYLOAD_LEN) |>.jnz err fun m =>
  m |>.mov .di (imm (RX_BUF_OFF + PACKET_HEADER_LEN))
    |>.mov .cx (imm (STRESS_PAYLOAD_LEN + PACKET_TRAILER_LEN)) |> rxFill |>.jc err fun m =>
  m |>.mov .si (imm RX_BUF_OFF) |>.mov .cx (imm (STRESS_PAYLOAD_LEN + PACKET_OVERHEAD))
    |> packetValidate |>.jc err fun m =>
  m |>.cmpb (·.reg8 .al) (imm CMD_PONG) |>.jnz err fun m =>
  m |>.mov .di (·.si) |>.mov .si (imm stressPayload) |>.mov .cx (imm STRESS_PAYLOAD_LEN)
    |>.repeCmpsb |>.jnz err id
where
  /-- `.err`. -/
  err (m : Machine DosState ι) : Machine DosState ι := m.incMem stressErrors

/-- `print_stress_result`. -/
def printStressResult (m : Machine DosState ι) : Machine DosState ι :=
  m |> putsMsg msgStressPrefix |>.mov .ax (imm STRESS_ITERATIONS) |> printDec16
    |> putsMsg msgStressIterSep |>.mov .ax (·.word stressErrors) |> printDec16
    |> putsMsg msgStressErrSep |>.mov .ax (·.word stressElapsedCentis) |> printDec16
    |> putsMsg msgStressUnit

/-- `pump_stress_test`. -/
def pumpStressTest (m : Machine DosState ι) : Machine DosState ι :=
  m |>.cmpb (·.byte currentPump) (imm PUMP_NONE) |>.jnz havePump fun m =>
    m |> putsMsg msgStressSkipped |>.stc
where
  /-- `.have_pump`. -/
  havePump (m : Machine DosState ι) : Machine DosState ι :=
    m |>.xorw .ax (·.ax) |>.stw (imm stressErrors) (·.ax)
      |> readCentisecClock |>.stw (imm stressStartCentis) (·.ax)
      |>.mov .cx (imm STRESS_ITERATIONS)
      |>.loop (fun m => m |>.push (·.cx) |> stressOneIter |>.pop .cx)
      |> readCentisecClock |>.mov .bx (·.word stressStartCentis) |> computeElapsedCentis
      |>.stw (imm stressElapsedCentis) (·.ax)
      |> printStressResult
      |>.cmp (·.word stressErrors) (imm STRESS_MAX_ERRORS) |>.ja (·.stc) (·.clc)

/-! ## What it leaves alone -/

/-- The test's own variables. -/
abbrev stressVars : List Region :=
  wire ++ [⟨stressErrors, 2⟩, ⟨stressStartCentis, 2⟩, ⟨stressElapsedCentis, 2⟩]

omit [Pump ι] in
theorem readCentisecClock_still (m : Machine DosState ι) : Still m (readCentisecClock m) := by
  simp only [readCentisecClock, push, movb, int21, reg8, setReg8, imm, hi_ofBytes,
    BitVec.reduceToNat, int21Time, xorb, mulb, add, reg, setReg, pop, top, List.headD_cons,
    List.tail_cons]
  exact ⟨rfl, rfl, rfl, rfl, rfl, rfl, rfl, m.dos.con, m.dos.asked + 1, rfl⟩

omit [Pump ι] in
theorem computeElapsedCentis_still (m : Machine DosState ι) : Still m (computeElapsedCentis m) :=
  jnc_cases (fun _ => .sub (.refl m)) fun _ => .add (.sub (.refl m))

omit [Pump ι] in
theorem printStressResult_still (m : Machine DosState ι) : Still m (printStressResult m) :=
  .putsMsg <| .printDec16 <| .mov <| .putsMsg <| .printDec16 <| .mov <| .putsMsg <| .printDec16 <|
    .mov <| .putsMsg <| .refl m

variable [LawfulPump ι]

theorem stressOneIter_keeps (m : Machine DosState ι) :
    Keeps Link stressVars m (stressOneIter m) := by
  let m₀ : Machine DosState ι := m |>.movb .al (imm CMD_PING) |>.mov .si (imm stressPayload)
    |>.mov .cx (imm STRESS_PAYLOAD_LEN)
  have herr : ∀ m', Keeps Link stressVars m m' →
      Keeps Link stressVars m (stressOneIter.err m') := fun m' h =>
    (h.stw (a := stressErrors) (v := fun m => m.mem.word stressErrors + 1) (by decide)
      (by decide)).congr rfl rfl
  have hsent := encodeDrain_ok m₀ (show STRESS_PAYLOAD_LEN.toNat ≤ MAX_PAYLOAD by decide)
    (payloadApart_of_eq stressPayload STRESS_PAYLOAD_LEN rfl rfl
      (Region.apart_of_le (by decide) (by decide)) (by decide))
  have hk₁ : Keeps Link stressVars m (encodeDrain m₀) :=
    (hsent.keeps.mono (by decide)).congr rfl rfl
  have hcf : (encodeDrain m₀).cf = decide (m.mem currentPump ≠ PUMP_LPT_SPP) := hsent.cf
  show Keeps Link stressVars m (encodeDrain m₀ |>.jc stressOneIter.err _)
  generalize encodeDrain m₀ = m₁ at hk₁ hcf
  by_cases hp : m.mem currentPump = PUMP_LPT_SPP
  swap
  · rw [jc_pos (hcf.trans (decide_eq_true hp))]
    exact herr _ hk₁
  rw [jc_neg (hcf.trans (decide_eq_false (not_not.mpr hp)))]
  have hp₁ : m₁.mem currentPump = PUMP_LPT_SPP := (hk₁.mem.byte (by decide)).trans hp
  have hthen : ∀ {m' m''}, Keeps Link stressVars m m' → Keeps Link rxWire m' m'' →
      Keeps Link stressVars m m'' :=
    fun h h' => h.trans (h'.mono (by decide))
  refine recvHeader_cases hp₁ (fun m₂ bs hh _ => herr _ (hthen hk₁ hh.keeps))
    fun m₂ bs hh _ _ _ => ?_
  have hk₂ := hthen hk₁ hh.keeps
  have hp₂ : m₂.mem currentPump = PUMP_LPT_SPP := (hh.keeps.mem.byte (by decide)).trans hp₁
  refine jnz_cases (fun _ => herr _ (hk₂.still (.cmp <| .refl _))) fun _ => ?_
  let m₃ : Machine DosState ι := m₂ |>.cmp (·.bx) (imm STRESS_PAYLOAD_LEN)
    |>.mov .di (imm (RX_BUF_OFF + PACKET_HEADER_LEN))
    |>.mov .cx (imm (STRESS_PAYLOAD_LEN + PACKET_TRAILER_LEN))
  have hsub :
    Region.Sub ⟨RX_BUF_OFF + PACKET_HEADER_LEN, (STRESS_PAYLOAD_LEN + PACKET_TRAILER_LEN).toNat⟩
      ⟨RX_BUF_OFF, 256⟩ := Region.sub_of_le (by decide)
  have hle : (STRESS_PAYLOAD_LEN + PACKET_TRAILER_LEN).toNat ≤ 256 := by decide
  obtain ⟨bs', late, hh', -⟩ := rxFill_heard m₃ hp₂ hle hsub
  have hk₃ : Keeps Link stressVars m (rxFill m₃) := hthen hk₂ (hh'.keeps.congr rfl rfl)
  show Keeps Link stressVars m (rxFill m₃ |>.jc stressOneIter.err _)
  generalize rxFill m₃ = m₄ at hk₃
  refine jc_cases (fun _ => herr _ hk₃) fun _ => ?_
  let m₅ : Machine DosState ι :=
    m₄ |>.mov .si (imm RX_BUF_OFF) |>.mov .cx (imm (STRESS_PAYLOAD_LEN + PACKET_OVERHEAD))
  have hk₅ : Keeps Link stressVars m (packetValidate m₅) :=
    hk₃.still ((Still.mov <| .mov <| .refl _).trans (SameCore.still (packetValidate_core m₅)))
  show Keeps Link stressVars m (packetValidate m₅ |>.jc stressOneIter.err _)
  generalize packetValidate m₅ = m₆ at hk₅
  refine jc_cases (fun _ => herr _ hk₅)
    fun _ => jnz_cases (fun _ => herr _ (hk₅.still (.cmpb <| .refl _))) fun _ => ?_
  have hk₇ := hk₅.still ((Still.mov <| .mov <| .mov <| .cmpb <| .refl m₆).trans
    (SameCore.still (repeCmpsb_core
    (m₆ |>.cmpb (·.reg8 .al) (imm CMD_PONG) |>.mov .di (·.si) |>.mov .si (imm stressPayload)
      |>.mov .cx (imm STRESS_PAYLOAD_LEN)))))
  exact jnz_cases (fun _ => herr _ hk₇) fun _ => hk₇

/-- The stress test keeps all but its variables. -/
theorem pumpStressTest_keeps (m : Machine DosState ι) :
    Keeps Link stressVars m (pumpStressTest m) := by
  refine jnz_cases (fun _ => ?_) fun _ => Still.keeps (.stc <| .putsMsg <| .cmpb <| .refl m)
  let m₀ : Machine DosState ι := m |>.cmpb (·.byte currentPump) (imm PUMP_NONE)
  let m₁ : Machine DosState ι := m₀ |>.xorw .ax (·.ax) |>.stw (imm stressErrors) (·.ax)
    |> readCentisecClock |>.stw (imm stressStartCentis) (·.ax) |>.mov .cx (imm STRESS_ITERATIONS)
  have hk₁ : Keeps Link stressVars m m₁ := by
    have h : Keeps Link stressVars m (m₀.xorw .ax (·.ax)) := Still.keeps (.xorw <| .cmpb <| .refl m)
    exact (((h.stw (by decide) (by decide)).still (readCentisecClock_still _)).stw (by decide)
      (by decide)).still (.mov <| .refl _)
  let body : Machine DosState ι → Machine DosState ι :=
    fun m => m |>.push (·.cx) |> stressOneIter |>.pop .cx
  have hbody : ∀ k m', Keeps Link stressVars m m' → m'.cx = BitVec.ofNat 16 (k + 1) →
      (body m').cx = m'.cx ∧ Keeps Link stressVars m { body m' with cx := BitVec.ofNat 16 k } := by
    intro k m' hk _
    have hit := stressOneIter_keeps (m'.push (·.cx))
    exact ⟨congrArg (List.headD · 0) hit.stk, (hk.trans hit.pop).still (.setCx <| .refl _)⟩
  have hloop := (loop_rule (fun _ => Keeps Link stressVars m) hbody (show 0 < 8 by decide)
    (by decide) hk₁ rfl).1
  show Keeps Link stressVars m (loop body m₁ |> readCentisecClock
    |>.mov .bx (·.word stressStartCentis) |> computeElapsedCentis
    |>.stw (imm stressElapsedCentis) (·.ax) |> printStressResult
    |>.cmp (·.word stressErrors) (imm STRESS_MAX_ERRORS) |>.ja (·.stc) (·.clc))
  generalize loop body m₁ = m₂ at hloop
  let m₃ : Machine DosState ι := m₂ |> readCentisecClock |>.mov .bx (·.word stressStartCentis)
    |> computeElapsedCentis |>.stw (imm stressElapsedCentis) (·.ax)
  have hk₃ : Keeps Link stressVars m m₃ :=
    (hloop.still ((Still.mov <| readCentisecClock_still m₂).trans
      (computeElapsedCentis_still _))).stw (by decide) (by decide)
  have hk₄ : Keeps Link stressVars m
      (m₃ |> printStressResult |>.cmp (·.word stressErrors) (imm STRESS_MAX_ERRORS)) :=
    hk₃.still (.cmp <| printStressResult_still _)
  rw [ja]
  split
  · exact hk₄.still (.clc <| .refl _)
  · exact hk₄.still (.stc <| .refl _)

end VintageKvm.Stage1
