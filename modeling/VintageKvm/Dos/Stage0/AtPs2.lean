import VintageKvm.Dos.Stage0.Restore
import VintageKvm.Dos.Stage0.Search
import VintageKvm.Dos.Stage1.Console

/-!
# Stage 0: from the entry to the exit or the hand-off

`start` of `s0_atps2_core.inc`, by the labels before the three calls of
`restore_i8042_and_pic` (`step`), and what the way to the first of them
writes: the variables it clears, and the ports and variables of the LPT
channel (`enter_ok`, `tryLptChannel_ok`).
-/

namespace VintageKvm.Stage0.AtPs2

open I8086 Machine Dos Bus
-- the console is printed to as in Stage 1
open Stage1 (putsMsg)

variable {ι : Type} [Ports ι] (aux : Bool)

/-! ## The LPT channel -/

/-- `lpt_send_byte`. -/
abbrev lptSendByte (m : Machine DosState ι) : Machine DosState ι :=
  (lpt (.s0AtPs2 aux)).lptSendByte m

/-- `lpt_recv_byte`. -/
abbrev lptRecvByte (m : Machine DosState ι) : Machine DosState ι :=
  (lpt (.s0AtPs2 aux)).lptRecvByte m

/-- `probe_pico_lpt`. -/
def probePicoLpt (m : Machine DosState ι) : Machine DosState ι :=
  m |>.movb .al (imm CMD_PROBE0) |> lptSendByte aux
    |>.movb .al (imm CMD_PROBE1) |> lptSendByte aux
    |>.movb .al (imm CMD_PROBE2) |> lptSendByte aux
    |>.movb .al (imm CMD_PROBE3) |> lptSendByte aux
    |> lptRecvByte aux |>.jc (·.stc) fun m =>
      m |>.cmpb (·.reg8 .al) (imm RSP_OK0) |>.jnz (·.stc) fun m =>
        m |> lptRecvByte aux |>.jc (·.stc) fun m =>
          m |>.cmpb (·.reg8 .al) (imm RSP_OK1) |>.jnz (·.stc) (·.clc)

/-- One turn of `.try_probe`. -/
def tryProbe (m : Machine DosState ι) :
    Flow (Machine DosState ι) (Flow (Machine DosState ι) (Machine DosState ι)) :=
  m |>.push (·.cx) |> probePicoLpt aux |>.pop .cx |>.jnc (.done ∘ .done ∘ (·.clc)) .next

/-- One turn of `.next_port`. -/
def nextPort (m : Machine DosState ι) : Flow (Machine DosState ι) (Machine DosState ι) :=
  m |>.lodsw |>.orw .ax (·.ax) |>.jz (.done ∘ notFound) fun m =>
    m |>.stw (imm (lptBase (.s0AtPs2 aux))) (·.ax) |> (lpt (.s0AtPs2 aux)).initLptControl
      |>.mov .cx (imm PROBE_RETRIES) |>.loopE (tryProbe aux) .next
where
  /-- `.not_found`. -/
  notFound (m : Machine DosState ι) : Machine DosState ι :=
    m |>.xorw .ax (·.ax) |>.stw (imm (lptBase (.s0AtPs2 aux))) (·.ax) |>.stc

/-- `find_pico_lpt`. -/
def findPicoLpt (m : Machine DosState ι) : Machine DosState ι :=
  m |>.mov .si (imm (lptCandidates (.s0AtPs2 aux)))
    |> iter (nextPort aux) (nextPort.notFound aux) 65536

theorem findPicoLpt_eq (m : Machine DosState ι) :
    findPicoLpt aux m = findPico (.s0AtPs2 aux) (nextPort.notFound aux) m := rfl

/-- `print_base`. -/
def printBase (m : Machine DosState ι) : Machine DosState ι := Stage0.printBase (.s0AtPs2 aux) m

/-- `try_lpt_channel`. -/
def tryLptChannel (m : Machine DosState ι) : Machine DosState ι :=
  m |> findPicoLpt aux |>.jc id fun m =>
    m |>.orMem (dxBitmap aux) (CHAN_LPT.setWidth 16) |> putsMsg (msgLptFound aux) |> printBase aux

/-! ## The run -/

/-- `choose_download_channel`. -/
def chooseDownloadChannel (m : Machine DosState ι) : Machine DosState ι :=
  m |>.test (·.word (dxBitmap aux)) (imm (CHAN_LPT.setWidth 16)) |>.jz tryKbd (choose CHAN_LPT)
where
  /-- A channel chosen. -/
  choose (ch : Byte) (m : Machine DosState ι) : Machine DosState ι :=
    m |>.stb (imm (currentChannel aux)) (imm ch) |>.clc
  /-- `.try_kbd`. -/
  tryKbd (m : Machine DosState ι) : Machine DosState ι :=
    m |>.test (·.word (dxBitmap aux)) (imm (CHAN_KBD.setWidth 16)) |>.jz tryAux (choose CHAN_KBD)
  /-- `.try_aux`. -/
  tryAux (m : Machine DosState ι) : Machine DosState ι :=
    if aux then
      m |>.test (·.word (dxBitmap aux)) (imm (CHAN_AUX.setWidth 16)) |>.jz (·.stc) (choose CHAN_AUX)
    else m.stc

/-- `start` up to `try_lpt_channel`. -/
def enter (m : Machine DosState ι) : Machine DosState ι :=
  m |>.push (·.cs) |>.popDs |>.push (·.cs) |>.popEs |> putsMsg (msgBanner (.s0AtPs2 aux))
    |>.xorw .ax (·.ax) |>.stw (imm (dxBitmap aux)) (·.ax)
    |>.stw (imm (lptBase (.s0AtPs2 aux))) (·.ax)
    |>.stb (imm (currentChannel aux)) (·.reg8 .al) |>.stb (imm (i8042Active aux)) (·.reg8 .al)
    |>.stb (imm (ccbSaved aux)) (·.reg8 .al) |>.stb (imm (auxEnabled aux)) (·.reg8 .al)

/-- `try_i8042_private` from `i8042_mastery` to `.restore_if_none`. -/
def tryUnlock (m : Machine DosState ι) : Machine DosState ι :=
  m |>.stb (imm (i8042Active aux)) (imm 1) |> kbdUnlockPrivate aux
    |>.jc id (found CHAN_KBD (msgKbdFound aux)) |> tryAux
where
  /-- A channel is up. -/
  found (ch : Byte) (msg : Word) (m : Machine DosState ι) : Machine DosState ι :=
    m |>.orMem (dxBitmap aux) (ch.setWidth 16) |> putsMsg msg
  /-- `.try_aux`. -/
  tryAux (m : Machine DosState ι) : Machine DosState ι :=
    if aux then m |> auxUnlockPrivate aux |>.jc id (found CHAN_AUX msgAuxFound) else m

/-- How Stage 0 ends: `INT 21h/4Ch`, or a jump to Stage 1. -/
inductive Outcome (ι : Type) where
  | exited (errorlevel : Byte) (m : Machine DosState ι)
  | stage1 (m : Machine DosState ι)

/-- The labels of the run: the entry, those from which
`restore_i8042_and_pic` is called, and the return of `try_i8042_private`. -/
inductive Label where
  | start
  | masteryFail
  | restoreIfNone
  | tried
  | exitError
  deriving DecidableEq

/-- The state in which Stage 1 is jumped to. -/
def handOff (m : Machine DosState ι) : Machine DosState ι :=
  m |> putsMsg (msgJump (.s0AtPs2 aux)) |>.mov .ax (imm 0x3150)
    |>.mov .bx (·.word (lptBase (.s0AtPs2 aux)))
    |>.mov .cx (·.word (stage1Size (.s0AtPs2 aux))) |>.mov .dx (·.word (dxBitmap aux))
    |>.push (·.cs) |>.popDs |>.push (·.cs) |>.popEs

/-- A message before `exit_error`. -/
def failWith (msg : Word) (m : Machine DosState ι) :
    Flow (Label × Machine DosState ι) (Outcome ι) :=
  .next (.exitError, putsMsg msg m)

/-- `start` from the return of `try_i8042_private`. -/
def fromTried (m : Machine DosState ι) : Flow (Label × Machine DosState ι) (Outcome ι) :=
  m |>.mov .ax (·.word (dxBitmap aux)) |>.orw .ax (·.ax) |>.jz failNoChannel fun m =>
  m |> chooseDownloadChannel aux |>.jc failNoChannel fun m =>
  m |> getStage1Meta img |>.jc (failWith (msgMetaFail img)) fun m =>
  m |> checkStage1Size img |>.jc (failWith (msgSizeFail img)) fun m =>
  m |> downloadStage1 img |>.jc (failWith (msgDownloadFail img)) fun m =>
  m |> verifyImageChecksum img |>.jc (failWith (msgChecksumFail img))
    fun m => .done (.stage1 (handOff aux m))
where
  /-- The program. -/
  img : Image := .s0AtPs2 aux
  /-- `fail_no_channel`. -/
  failNoChannel (m : Machine DosState ι) : Flow (Label × Machine DosState ι) (Outcome ι) :=
    failWith (msgNoChannel aux) m

/-- From one label to the next. -/
def step : Label × Machine DosState ι → Flow (Label × Machine DosState ι) (Outcome ι)
  | (.start, m) =>
    m |> enter aux |> tryLptChannel aux
      |> i8042Mastery aux (fun m => .next (.masteryFail, m)) fun m =>
      m |> tryUnlock aux |>.test (·.word (dxBitmap aux)) (imm ((CHAN_KBD ||| CHAN_AUX).setWidth 16))
        |>.jnz (fun m => .next (.tried, m)) fun m => .next (.restoreIfNone, m)
  | (.masteryFail, m) => .next (.tried, m |> restoreI8042AndPic aux |>.stc)
  | (.restoreIfNone, m) => .next (.tried, restoreI8042AndPic aux m)
  | (.tried, m) => fromTried aux m
  | (.exitError, m) =>
    .done (m |> restoreI8042AndPic aux |>.mov .ax (imm 0x4C01) |> fun m => .exited (m.reg8 .al) m)

/-- `start`. -/
def start (m : Machine DosState ι) : Outcome ι :=
  iter (step aux) (fun s => .exited 0 s.2) 4 (.start, m)

/-! ## The entry -/

/-- What `start` clears. -/
def entryVars : List Region :=
  [⟨dxBitmap aux, 2⟩, ⟨lptBase (.s0AtPs2 aux), 2⟩, ⟨currentChannel aux, 1⟩, ⟨i8042Active aux, 1⟩,
    ⟨ccbSaved aux, 1⟩, ⟨auxEnabled aux, 1⟩]

/-- The state in which the channels are tried. -/
structure Entered (m m' : Machine DosState Bus) : Prop where
  io : m'.io = m.io
  mem : Frame (entryVars aux) m.mem m'.mem
  bitmap : m'.mem.word (dxBitmap aux) = 0
  saved : m'.mem (ccbSaved aux) = 0
  enabled : m'.mem (auxEnabled aux) = 0

theorem enter_ok (m : Machine DosState Bus) : Entered aux m (enter aux m) := by
  let mem : Mem := m.mem |>.setWord (dxBitmap aux) 0 |>.setWord (lptBase (.s0AtPs2 aux)) 0
    |>.set (currentChannel aux) 0
    |>.set (i8042Active aux) 0 |>.set (ccbSaved aux) 0 |>.set (auxEnabled aux) 0
  have hmem : (enter aux m).mem = mem := by
    simp only [enter, push, popDs, popEs, Stage1.putsMsg_ok, xorw, stw, stb, reg, reg8, setReg, imm,
      BitVec.xor_self, mem]
    rfl
  refine ⟨?_, ?_, ?_, ?_, ?_⟩
  · simp only [enter, push, popDs, popEs, Stage1.putsMsg_ok, xorw, stw, stb, reg, reg8, setReg, imm]
  · rw [hmem]
    exact (Frame.refl _ _).setWordVar 0 (by simp [entryVars]) |>.setWordVar 0 (by simp [entryVars])
      |>.setVar 0 (by simp [entryVars]) |>.setVar 0 (by simp [entryVars])
      |>.setVar 0 (by simp [entryVars])
      |>.setVar 0 (by simp [entryVars])
  all_goals
    rw [hmem]
    cases aux <;> simp (disch := decide) only [mem, Mem.word_setWord, Mem.word_set_of_ne,
      Mem.word_setWord_of_ne, Mem.set_self, Mem.set_of_ne]

/-! ## The LPT channel writes -/

/-- The writes to the candidates' data and control registers. -/
def lptWrites (w : Word × Byte) : Prop := candidatePorts w.1

theorem pumpPorts_apart {base p : Word} (hb : base ∈ lptPorts) (h : LptNibble.pumpPorts base p) :
    (p ≠ PIC1_DATA ∧ p ≠ PIC2_DATA) ∧ ¬ kbcPorts p := by
  simp only [lptPorts, List.mem_cons, List.not_mem_nil, or_false] at hb
  unfold LptNibble.pumpPorts kbcPorts at *
  rcases hb with rfl | rfl | rfl <;> rcases h with rfl | rfl <;> decide

section

variable {aux} {m m' : Machine DosState Bus}

/-- The search writes to the ports of the candidates. -/
theorem touches_of_sought (h : Sought (.s0AtPs2 aux) m m') :
    Touches lptWrites (searchVars (.s0AtPs2 aux)) m m' where
  mem := h.mem
  link := Puts.of_drives h.link (fun ⟨_, hb, hp⟩ => (pumpPorts_apart hb hp).1.1 rfl)
    fun ⟨_, hb, hp⟩ => (pumpPorts_apart hb hp).1.2 rfl

/-- `find_pico_lpt` finds nothing, or the base of a candidate. -/
theorem findPicoLpt_ok (hl : Listed (.s0AtPs2 aux) m.mem) :
    Touches lptWrites (searchVars (.s0AtPs2 aux)) m (findPicoLpt aux m) ∧
      ((findPicoLpt aux m).cf = false →
        (findPicoLpt aux m).mem.word (lptBase (.s0AtPs2 aux)) ∈ lptPorts) := by
  let Q : Machine DosState Bus → Prop :=
    fun m' => Touches lptWrites (searchVars (.s0AtPs2 aux)) m m' ∧
    (m'.cf = false → m'.mem.word (lptBase (.s0AtPs2 aux)) ∈ lptPorts)
  refine findPico_cases (P := Q) hl (fun m' h => ?_) fun m' h hbase _ _ =>
    ⟨touches_of_sought h, fun _ => hbase⟩
  have ht := touches_of_sought h
  exact ⟨⟨ht.mem.setWordVar _ (by simp [searchVars]), ht.link⟩, (Bool.noConfusion ·)⟩

theorem bitmap_apart (aux : Bool) :
    (∀ r ∈ searchVars (.s0AtPs2 aux), ¬ r.Has (dxBitmap aux) ∧ ¬ r.Has (dxBitmap aux + 1)) ∧
    lptBase (.s0AtPs2 aux) ≠ dxBitmap aux ∧ lptBase (.s0AtPs2 aux) + 1 ≠ dxBitmap aux ∧
    lptBase (.s0AtPs2 aux) ≠ dxBitmap aux + 1 ∧ lptBase (.s0AtPs2 aux) + 1 ≠ dxBitmap aux + 1 := by
  cases aux <;> decide +kernel

/-- `try_lpt_channel`: the bit of the LPT channel is set with a candidate for
the port base only. -/
theorem tryLptChannel_ok (hl : Listed (.s0AtPs2 aux) m.mem) (h0 : m.mem.word (dxBitmap aux) = 0) :
    Touches lptWrites (⟨dxBitmap aux, 2⟩ :: searchVars (.s0AtPs2 aux)) m (tryLptChannel aux m) ∧
    ((tryLptChannel aux m).mem.word (dxBitmap aux) = 0 ∨
      (tryLptChannel aux m).mem.word (dxBitmap aux) = 1 ∧
      (tryLptChannel aux m).mem.word (lptBase (.s0AtPs2 aux)) ∈ lptPorts) := by
  obtain ⟨hf, hbase⟩ := findPicoLpt_ok hl
  obtain ⟨hap, h₁, h₂, h₃, h₄⟩ := bitmap_apart aux
  let P : Machine DosState Bus → Prop :=
    fun m' => Touches lptWrites (⟨dxBitmap aux, 2⟩ :: searchVars (.s0AtPs2 aux)) m m' ∧
    (m'.mem.word (dxBitmap aux) = 0 ∨ m'.mem.word (dxBitmap aux) = 1 ∧
      m'.mem.word (lptBase (.s0AtPs2 aux)) ∈ lptPorts)
  have hz : (findPicoLpt aux m).mem.word (dxBitmap aux) = 0 :=
    (hf.mem.word (fun r hr => (hap r hr).1) fun r hr => (hap r hr).2).trans h0
  have hw : Touches lptWrites (⟨dxBitmap aux, 2⟩ :: searchVars (.s0AtPs2 aux)) m
      (findPicoLpt aux m) :=
    hf.mono (fun _ h => h) fun _ h => List.mem_cons_of_mem _ h
  show P _
  refine jc_cases (fun _ => ⟨hw, .inl hz⟩) fun hcf => ?_
  have hbase' := hbase hcf
  generalize findPicoLpt aux m = m₁ at hw hz hbase'
  obtain ⟨a, s, c, z, con, e⟩ : ∃ a s c z con, printBase aux _ = _ :=
    printBase_ok (.s0AtPs2 aux) (m₁ |>.orMem (dxBitmap aux) (CHAN_LPT.setWidth 16)
      |> putsMsg (msgLptFound aux))
  have hmem : (m₁.orMem (dxBitmap aux) (CHAN_LPT.setWidth 16)).mem =
      m₁.mem.setWord (dxBitmap aux) 1 := by
    rw [orMem, hz]
    rfl
  show P (printBase aux _)
  rw [e, Stage1.putsMsg_ok]
  refine ⟨⟨?_, hw.link⟩, .inr ⟨?_, ?_⟩⟩ <;> dsimp only <;> rw [hmem]
  · exact hw.mem.setWordVar _ List.mem_cons_self
  · exact Mem.word_setWord _ _ _
  · rw [Mem.word_setWord_of_ne _ _ h₁ h₂ h₃ h₄]
    exact hbase'

end

end VintageKvm.Stage0.AtPs2
