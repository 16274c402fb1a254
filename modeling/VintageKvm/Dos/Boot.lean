import VintageKvm.Dos.Stage0.Xt
import VintageKvm.Dos.Stage1.Start

/-!
# From Stage 0 to Stage 1

Stage 1 is jumped to in the memory and on the ports that Stage 0 leaves. What
it is handed is always what it takes (`start_hands`): it never comes to
`fail_handoff`. So where the chain ends without Stage 2, the interrupts and
the i8042 are those of the entry if no private channel was up, and else the
masks stay as Stage 0 has set them (`boot_fails`).
-/

namespace VintageKvm.Boot

open I8086 Machine Dos Bus Stage0
open Stage1 (putsMsg putsMsg_ok ValidHandoff Named Fails)

/-- `start` of the three programs. -/
def start {ι : Type} [Ports ι] : Image → Machine DosState ι → AtPs2.Outcome ι
  | .s0Xt => Xt.start
  | .s0AtPs2 aux => AtPs2.start aux

/-- What Stage 1 is handed: a port base in BX if and only if the LPT channel is
up. -/
structure Handed (m : Machine DosState Bus) : Prop where
  valid : ValidHandoff m
  port : lo m.dx &&& CHAN_LPT = 0 ∧ m.bx = 0 ∨ lo m.dx &&& CHAN_LPT ≠ 0 ∧ m.bx ∈ lptPorts
  segments : m.ds = m.cs ∧ m.es = m.cs

/-- Stage 0 fails, or hands over. -/
def Hands : AtPs2.Outcome Bus → Prop
  | .exited errorlevel _ => errorlevel = 1
  | .stage1 m => Handed m

/-! ## The download -/

section

variable {img : Image} {m : Machine DosState Bus}

/-- The download leaves the bytes that it does not use. -/
theorem download_fixed {a : Word} (ha : Fixed img a) (hcf : (checkStage1Size img m).cf = false) :
    (verifyImageChecksum img (downloadStage1 img (checkStage1Size img m))).mem a = m.mem a := by
  obtain ⟨-, hc₀, -, -, hf₀⟩ := begun_ok img m hcf
  have hk := downloadStage1_kept img hc₀ rfl
  rw [(AtPs2.verifyImageChecksum_ok img _).1, ha.byte (window_above hc₀.le) hk.mem,
    ha.byte (window_above (Nat.zero_le _)) hf₀]

theorem download_word {a : Word} (ha : Fixed img a ∧ Fixed img (a + 1))
    (hcf : (checkStage1Size img m).cf = false) :
    (verifyImageChecksum img (downloadStage1 img (checkStage1Size img m))).mem.word a =
      m.mem.word a := by
  rw [Mem.word, Mem.word, download_fixed ha.1 hcf, download_fixed ha.2 hcf]

/-- The metadata and the image are received from `m₁` on. -/
structure Fetched (img : Image) (m₁ m' : Machine DosState Bus) : Prop where
  announced : (getStage1Meta img m₁).cf = false
  check : (checkStage1Size img (getStage1Meta img m₁)).cf = false
  eq :
    m' = verifyImageChecksum img (downloadStage1 img (checkStage1Size img (getStage1Meta img m₁)))

/-- The size handed over is that of an image. -/
theorem download_size (hcf : (checkStage1Size img m).cf = false) :
    let w := (verifyImageChecksum img (downloadStage1 img (checkStage1Size img m))).mem.word
      (stage1Size img)
    w ≠ 0 ∧ w.toNat ≤ Stage1.MAX_STAGE1_SIZE.toNat := by
  obtain ⟨hc, -⟩ := begun_ok img m hcf
  rw [download_word (fixed_words img _ (by simp)) hcf]
  refine ⟨fun h0 => ?_, hc.le⟩
  have hpos := hc.pos
  rw [h0] at hpos
  exact absurd hpos (by decide)

/-! ## The registers handed over -/

/-- What the jump hands over of the memory. -/
structure Jumped (img : Image) (m m' : Machine DosState Bus) : Prop where
  ax : m'.ax = Stage1.HANDOFF_MARKER
  bx : m'.bx = m.mem.word (lptBase img)
  cx : m'.cx = m.mem.word (stage1Size img)
  segments : m'.ds = m'.cs ∧ m'.es = m'.cs
  io : m'.io = m.io

theorem xt_jumped (m : Machine DosState Bus) :
    Jumped .s0Xt m (Xt.handOff m) ∧ (Xt.handOff m).dx = 1 := by
  rw [Xt.handOff, putsMsg_ok]
  exact ⟨⟨rfl, rfl, rfl, ⟨rfl, rfl⟩, rfl⟩, rfl⟩

theorem core_jumped (aux : Bool) (m : Machine DosState Bus) :
    Jumped (.s0AtPs2 aux) m (AtPs2.handOff aux m) ∧
      (AtPs2.handOff aux m).dx = m.mem.word (dxBitmap aux) := by
  rw [AtPs2.handOff, putsMsg_ok]
  exact ⟨⟨rfl, rfl, rfl, ⟨rfl, rfl⟩, rfl⟩, rfl⟩

/-- A mask of a byte sees the low byte. -/
theorem and_setWidth (w : Word) (b : Byte) : w &&& b.setWidth 16 = (lo w &&& b).setWidth 16 := by
  apply BitVec.eq_of_getLsbD_eq
  intro i hi
  rw [BitVec.getLsbD_and, BitVec.getLsbD_setWidth, BitVec.getLsbD_setWidth, BitVec.getLsbD_and, lo,
    BitVec.getLsbD_setWidth]
  by_cases h8 : i < 8
  · simp [h8, hi]
  · rw [BitVec.getLsbD_of_ge b i (by omega), Bool.and_false, Bool.and_false, Bool.and_false,
      Bool.and_false]

theorem lo_and {w : Word} {b : Byte} : lo w &&& b = 0 ↔ w &&& b.setWidth 16 = 0 := by
  rw [and_setWidth]
  constructor
  · intro h
    rw [h]
    rfl
  · intro h
    have hlo := congrArg lo h
    rwa [lo, BitVec.setWidth_setWidth_of_le _ (by decide), BitVec.setWidth_eq] at hlo

theorem Jumped.valid {m' : Machine DosState Bus} (h : Jumped img m m')
    (hsize : m.mem.word (stage1Size img) ≠ 0 ∧
      (m.mem.word (stage1Size img)).toNat ≤ Stage1.MAX_STAGE1_SIZE.toNat)
    (hup : m'.dx &&& 7 ≠ 0) : ValidHandoff m' :=
  ⟨h.ax, h.cx.symm ▸ hsize, fun hz => hup (lo_and.mp hz)⟩

end

/-! ## On an XT -/

section

variable {m m' : Machine DosState Bus}

/-- From `m` to `m'` the ports of candidates were used only, one of which
answered. -/
structure Served (m m' : Machine DosState Bus) : Prop where
  base : m'.mem.word (lptBase .s0Xt) ∈ lptPorts
  link : Drives candidatePorts m.io m'.io

namespace Served

/-- Other registers. -/
theorem same (h : Served m m') {m₁ : Machine DosState Bus} (hm : m₁.mem = m'.mem)
    (hio : m₁.io = m'.io) : Served m m₁ :=
  ⟨hm ▸ h.base, hio ▸ h.link⟩

theorem drives (h : Served m m') {io : Bus} (hd : Drives (linkPorts .s0Xt m'.mem) m'.io io) :
    Drives candidatePorts m.io io :=
  h.link.trans (Drives.mono hd fun _ hp => ⟨_, h.base, hp⟩)

theorem send (h : Served m m') : Served m (Stage0.sendByte .s0Xt m') := by
  obtain ⟨c, z, io, e, hd⟩ := sendByte_ok .s0Xt m'
  rw [e]
  exact ⟨h.base, h.drives hd⟩

theorem recvU16 (h : Served m m') : Served m (Stage0.recvU16 .s0Xt m') := by
  obtain ⟨a, c, z, ph, bs, io, e, -, hd⟩ := recvU16_ok .s0Xt m'
  rw [e]
  refine ⟨?_, h.drives hd⟩
  show (m'.mem.set (lastPhase .s0Xt) ph).word (lptBase .s0Xt) ∈ lptPorts
  rw [Mem.word_set_of_ne _ _ (by decide) (by decide)]
  exact h.base

/-- A word of the metadata stored. -/
theorem stored (h : Served m m') {a : Word} (ha : Apart (lptBase .s0Xt) a) :
    Served m (m'.stw (imm a) (·.ax)) := by
  obtain ⟨h₁, h₂, h₃, h₄⟩ := ha
  refine ⟨?_, h.link⟩
  show (m'.mem.setWord a m'.ax).word (lptBase .s0Xt) ∈ lptPorts
  rw [Mem.word_setWord_of_ne _ _ h₁ h₂ h₃ h₄]
  exact h.base

/-- A word of the metadata received, before it is stored with the rest to
follow. -/
theorem field (h : Served m m') {a : Word} (ha : Apart (lptBase .s0Xt) a)
    {next : Machine DosState Bus → Machine DosState Bus}
    (hnext : ∀ m₁, Served m (m₁.stw (imm a) (·.ax)) → Served m (next m₁)) :
    Served m ((Stage0.recvU16 .s0Xt m').jc getStage1Meta.fail next) := by
  have h₁ := h.recvU16
  generalize Stage0.recvU16 .s0Xt m' = m₁ at h₁
  exact jc_cases (fun _ => h₁.same rfl rfl) fun _ => hnext m₁ (h₁.stored ha)

/-- `get_stage1_meta`. -/
theorem getStage1Meta (h : Served m m') : Served m (Stage0.getStage1Meta .s0Xt m') := by
  have h₁ : Served m (Stage0.sendByte .s0Xt (m'.movb .al (imm CMD_GET_META))) :=
    (show Served m (m'.movb .al (imm CMD_GET_META)) from h.same rfl rfl).send
  rw [Stage0.getStage1Meta]
  generalize Stage0.sendByte .s0Xt (m'.movb .al (imm CMD_GET_META)) = m₁ at h₁ ⊢
  rw [sent]
  refine h₁.field (a := stage1Size .s0Xt) (base_apart _ (by simp [wordVars])) fun _ h₂ => ?_
  refine h₂.field (a := stage1Blocks .s0Xt) (base_apart _ (by simp [wordVars])) fun _ h₃ => ?_
  exact h₃.field (a := stage1Sum16 .s0Xt) (base_apart _ (by simp [wordVars]))
    fun _ h₄ => h₄.same rfl rfl

/-- `check_stage1_size`. -/
theorem check (h : Served m m') : Served m (checkStage1Size .s0Xt m') := by
  obtain ⟨a, w, c, z, e, -⟩ := checkStage1Size_ok .s0Xt m'
  rw [e]
  exact h.same rfl rfl

/-- `download_stage1`. -/
theorem download (h : Served m (checkStage1Size .s0Xt m'))
    (hcf : (checkStage1Size .s0Xt m').cf = false) :
    Served m (downloadStage1 .s0Xt (checkStage1Size .s0Xt m')) := by
  obtain ⟨-, hc₀, -, -, hf₀⟩ := begun_ok .s0Xt m' hcf
  have hk := downloadStage1_kept .s0Xt hc₀ rfl
  have hfixed := fixed_words .s0Xt (lptBase .s0Xt) (by simp)
  have hmem : (checkStage1Size .s0Xt m').mem = m'.mem := by
    obtain ⟨a, w, c, z, e, -⟩ := checkStage1Size_ok .s0Xt m'
    rw [e]
  have hbegun : Served m (begun .s0Xt (checkStage1Size .s0Xt m')) := by
    refine ⟨?_, h.link⟩
    rw [Fixed.word hfixed (window_above (Nat.zero_le _)) hf₀, ← hmem]
    exact h.base
  refine ⟨?_, hbegun.drives hk.link⟩
  rw [Fixed.word hfixed (window_above hc₀.le) hk.mem]
  exact hbegun.base

end Served

/-- How Stage 0 ends on an XT. -/
def XtEnds (m : Machine DosState Bus) : AtPs2.Outcome Bus → Prop
  | .exited errorlevel m' => errorlevel = 1 ∧ Drives candidatePorts m.io m'.io
  | .stage1 m' => Handed m' ∧ m'.dx = 1 ∧ Drives candidatePorts m.io m'.io

theorem xt_fails (hd : Drives candidatePorts m.io m'.io) (msg : Word) :
    XtEnds m (Xt.failWith msg m') := by
  rw [Xt.failWith, putsMsg_ok]
  exact ⟨show lo (0x4C01 : Word) = 1 by decide, hd⟩

theorem xt_ends (hl : Listed .s0Xt m.mem) : XtEnds m (Xt.start m) := by
  let m₀ : Machine DosState Bus := m |>.push (·.cs) |>.popDs |>.push (·.cs) |>.popEs
    |> putsMsg (msgBanner .s0Xt)
  have hm₀ : m₀.mem = m.mem ∧ m₀.io = m.io := by
    simp only [m₀, putsMsg_ok]
    exact ⟨rfl, rfl⟩
  have hprint : ∀ {m'}, Served m m' →
      Served m (Xt.printBase (putsMsg msgFound m')) := fun {m'} h => by
    obtain ⟨a, s, c, z, con, e⟩ : ∃ a s c z con, Xt.printBase _ = _ :=
      printBase_ok .s0Xt (putsMsg msgFound m')
    rw [e, putsMsg_ok]
    exact h.same rfl rfl
  show XtEnds m ((Xt.findPicoLpt m₀).jc _ _)
  refine findPico_cases (P := fun m' => XtEnds m (m'.jc _ _))
    (m := m₀) (hm₀.1 ▸ hl) (fun m' h => ?_) fun m' h hbase _ hcf => ?_
  · rw [jc_pos rfl]
    exact xt_fails (hm₀.2 ▸ h.link) _
  · rw [jc_neg hcf]
    have h₁ := (hprint ⟨hbase, hm₀.2 ▸ h.link⟩).getStage1Meta
    generalize Stage0.getStage1Meta .s0Xt (Xt.printBase (putsMsg msgFound m')) = m₁ at h₁ ⊢
    refine jc_cases (P := XtEnds m) (fun _ => xt_fails h₁.link _) fun _ => ?_
    have h₂ := h₁.check
    refine jc_cases (P := XtEnds m) (fun _ => xt_fails h₂.link _) fun hcf => ?_
    have h₃ := h₂.download hcf
    have hsize := download_size hcf
    generalize downloadStage1 .s0Xt (checkStage1Size .s0Xt m₁) = m₂ at h₃ hsize ⊢
    refine jc_cases (P := XtEnds m) (fun _ => xt_fails h₃.link _) fun _ => ?_
    obtain ⟨hmem, hio, -⟩ := AtPs2.verifyImageChecksum_ok .s0Xt m₂
    have h₄ := h₃.same hmem hio
    generalize verifyImageChecksum .s0Xt m₂ = m₃ at h₄ hsize ⊢
    refine jc_cases (P := XtEnds m) (fun _ => xt_fails h₄.link _) fun _ => ?_
    obtain ⟨hj, hdx⟩ := xt_jumped m₃
    refine ⟨⟨hj.valid hsize ?_, .inr ⟨?_, hj.bx ▸ h₄.base⟩, hj.segments⟩, hdx, hj.io ▸ h₄.link⟩ <;>
      rw [hdx] <;> decide

end

/-! ## With the i8042 -/

section

open AtPs2 (entered entryVars_apart Mastered Unlocking Loading)

variable {aux : Bool} {m m' m₀ : Machine DosState Bus}

/-- The bit of the LPT channel tells of the port base. -/
def Port (aux : Bool) (mem : Mem) : Prop :=
  mem.word (dxBitmap aux) &&& 1 = 0 ∧ mem.word (lptBase (.s0AtPs2 aux)) = 0 ∨
    mem.word (dxBitmap aux) &&& 1 ≠ 0 ∧ mem.word (lptBase (.s0AtPs2 aux)) ∈ lptPorts

theorem Port.keeps {mem mem' : Mem} (h : Port aux mem)
    (hbit : mem'.word (dxBitmap aux) &&& 1 = mem.word (dxBitmap aux) &&& 1)
    (hbase : mem'.word (lptBase (.s0AtPs2 aux)) = mem.word (lptBase (.s0AtPs2 aux))) :
    Port aux mem' := by
  rw [Port, hbit, hbase]
  exact h

theorem Port.frame {mem mem' : Mem} {rs : List Region} (h : Port aux mem) (hf : Frame rs mem mem')
    (hap : ∀ r ∈ rs, ¬ r.Has (dxBitmap aux) ∧ ¬ r.Has (dxBitmap aux + 1) ∧
      ¬ r.Has (lptBase (.s0AtPs2 aux)) ∧ ¬ r.Has (lptBase (.s0AtPs2 aux) + 1)) : Port aux mem' := by
  refine h.keeps (congrArg (· &&& 1) ?_) ?_
  · exact hf.word (fun r hr => (hap r hr).1) fun r hr => (hap r hr).2.1
  · exact hf.word (fun r hr => (hap r hr).2.2.1) fun r hr => (hap r hr).2.2.2

/-- The search for the Pico. -/
theorem entered_port (hl : Listed (.s0AtPs2 aux) m.mem) : Port aux (entered aux m).mem := by
  have hl₁ := AtPs2.enter_listed hl
  have hzero := (AtPs2.enter_ok aux m).bitmap
  show Port aux (AtPs2.tryLptChannel aux (AtPs2.enter aux m)).mem
  generalize AtPs2.enter aux m = m₁ at hl₁ hzero ⊢
  obtain ⟨hap, h₁, h₂, h₃, h₄⟩ := AtPs2.bitmap_apart aux
  have hbits : ∀ {m'}, Sought (.s0AtPs2 aux) m₁ m' → m'.mem.word (dxBitmap aux) = 0 := fun h =>
    (h.mem.word (fun r hr => (hap r hr).1) fun r hr => (hap r hr).2).trans hzero
  rw [AtPs2.tryLptChannel, AtPs2.findPicoLpt_eq]
  refine findPico_cases (P := fun m' => Port aux (m'.jc id _).mem) hl₁ (fun m' h => ?_)
    fun m' h hbase _ hcf => ?_
  · have hmem :
        (AtPs2.nextPort.notFound aux m').mem = m'.mem.setWord (lptBase (.s0AtPs2 aux)) 0 := by
      simp only [AtPs2.nextPort.notFound, xorw, stw, stc, reg, setReg, imm, BitVec.xor_self]
      rfl
    rw [jc_pos rfl, id, Port, hmem, Mem.word_setWord,
      Mem.word_setWord_of_ne _ _ h₁.symm h₃.symm h₂.symm h₄.symm, hbits h]
    exact .inl ⟨rfl, rfl⟩
  · rw [jc_neg hcf]
    obtain ⟨a, s, c, z, con, e⟩ : ∃ a s c z con, AtPs2.printBase aux _ = _ :=
      printBase_ok (.s0AtPs2 aux)
      (m' |>.orMem (dxBitmap aux) (CHAN_LPT.setWidth 16) |> putsMsg (msgLptFound aux))
    rw [e, putsMsg_ok]
    have hmem : (m'.orMem (dxBitmap aux) (CHAN_LPT.setWidth 16)).mem =
        m'.mem.setWord (dxBitmap aux) 1 := by
      rw [orMem, hbits h]
      rfl
    refine .inr ⟨?_, ?_⟩ <;> dsimp only <;> rw [hmem]
    · rw [Mem.word_setWord]
      decide
    · rw [Mem.word_setWord_of_ne _ _ h₁ h₂ h₃ h₄]
      exact hbase

theorem Port.mastered (h : Port aux m.mem) {r : Option Byte} (hm : Mastered aux r m m') :
    Port aux m'.mem :=
  h.frame hm.mem (entryVars_apart aux).2.2

theorem Port.unlocked (h : Port aux m.mem) (hu : Unlocking aux m m') : Port aux m'.mem := by
  have hap := (AtPs2.unlockVars_apart aux).1
  exact h.keeps hu.lpt (hu.touches.mem.word (hap _ (by simp)) (hap _ (by simp)))

theorem Port.restored (h : Port aux m.mem) : Port aux (AtPs2.restoreI8042AndPic aux m).mem := by
  obtain ⟨-, hap⟩ := AtPs2.restoreVars_apart aux
  obtain ⟨a, c, z, e⟩ := AtPs2.restoreI8042AndPic_ok aux m
  rw [e]
  exact h.frame (AtPs2.released_frame aux m.mem) fun r hr =>
    ⟨hap _ (by simp) r hr, hap _ (by simp) r hr, hap _ (by simp) r hr, hap _ (by simp) r hr⟩

theorem Port.loading (h : Port aux m.mem) (hl : Loading aux m m') : Port aux m'.mem :=
  h.keeps (congrArg (· &&& 1) (hl.word (by simp [AtPs2.heldVars]) (by simp [AtPs2.heldVars])))
    (hl.word (by simp [AtPs2.heldVars]) (by simp [AtPs2.heldVars]))

/-- A hand-off, with a channel chosen. -/
theorem Port.handOff (h : Port aux m.mem) (hup : m.mem.word (dxBitmap aux) &&& 7 ≠ 0)
    (hsize : m.mem.word (stage1Size (.s0AtPs2 aux)) ≠ 0 ∧
      (m.mem.word (stage1Size (.s0AtPs2 aux))).toNat ≤ Stage1.MAX_STAGE1_SIZE.toNat) :
      Handed (AtPs2.handOff aux m) := by
  obtain ⟨hj, hdx⟩ := core_jumped aux m
  refine ⟨hj.valid hsize (hdx ▸ hup), ?_, hj.segments⟩
  rw [lo_and, ne_eq, lo_and, hdx, hj.bx]
  exact h

theorem word_chosen {ch : Byte} (hc : AtPs2.Chosen aux ch m m') {a : Word}
    (ha : a ∈ AtPs2.runVars aux) (ha' : a + 1 ∈ AtPs2.runVars aux) :
    m'.mem.word a = m.mem.word a := by
  rw [hc.mem]
  exact Mem.word_set_of_ne _ _ (AtPs2.currentChannel_apart aux a ha)
    (AtPs2.currentChannel_apart aux _ ha')

theorem Port.chosen (h : Port aux m.mem) {ch : Byte} (hc : AtPs2.Chosen aux ch m m') :
    Port aux m'.mem :=
  h.keeps (congrArg (· &&& 1) (word_chosen hc (by simp [AtPs2.runVars]) (by simp [AtPs2.runVars])))
    (word_chosen hc (by simp [AtPs2.runVars]) (by simp [AtPs2.runVars]))

/-- The channel chosen is one of the three. -/
theorem up_of_chosen {ch : Byte} (hc : AtPs2.Chosen aux ch m m') :
    m'.mem.word (dxBitmap aux) &&& 7 ≠ 0 := by
  have hbit : ∀ {c : Word}, 7 &&& c = c → m.mem.word (dxBitmap aux) &&& c ≠ 0 →
      m.mem.word (dxBitmap aux) &&& 7 ≠ 0 := by
    intro c hc hne hz
    rw [← hc, ← BitVec.and_assoc, hz] at hne
    exact hne BitVec.zero_and
  rw [word_chosen hc (by simp [AtPs2.runVars]) (by simp [AtPs2.runVars])]
  rcases hc.up with ⟨-, hup⟩ | ⟨-, hup⟩ | ⟨-, hup⟩
  · exact hbit (by decide) hup
  · exact hbit (by decide) hup
  · exact hbit (by decide) hup

/-- The LPT is preferred. -/
theorem choose_lpt_cases {β : Type} {Q : β → Prop} {fail next : Machine DosState Bus → β}
    (m : Machine DosState Bus) (hf : ∀ m', Q (fail m')) (hn : ∀ ch m', AtPs2.Chosen aux ch m m' →
      (m.mem.word (dxBitmap aux) &&& 1 ≠ 0 → ch = CHAN_LPT) → Q (next m')) :
    Q ((AtPs2.chooseDownloadChannel aux m).jc fail next) := by
  by_cases hb : m.mem.word (dxBitmap aux) &&& 1 = 0
  · exact AtPs2.choose_cases m (fun m' _ _ => hf m') fun ch m' hc => hn ch m' hc
      fun hne => absurd hb hne
  · let m₁ : Machine DosState Bus := m |>.test (·.word (dxBitmap aux)) (imm (CHAN_LPT.setWidth 16))
    have e : AtPs2.chooseDownloadChannel aux m =
        AtPs2.chooseDownloadChannel.choose aux CHAN_LPT m₁ := jz_neg (decide_eq_false hb)
    rw [e, jc_neg rfl]
    exact hn _ _ ⟨rfl, rfl, .inl ⟨rfl, hb⟩⟩ fun _ => rfl

/-- Stage 1 is downloaded over the channel chosen, or Stage 0 fails. -/
theorem tried_cases {P : AtPs2.Outcome Bus → Prop} (hdone : ∀ {ch m₁ m'}, AtPs2.Chosen aux ch m m₁ →
      (m.mem.word (dxBitmap aux) &&& 1 ≠ 0 → ch = CHAN_LPT) → Fetched (.s0AtPs2 aux) m₁ m' →
        Loading aux m₁ m' →
      P (.stage1 (AtPs2.handOff aux m'))) :
    (AtPs2.fromTried aux m).Sat (·.1 = .exitError) P := by
  let Q : Flow (AtPs2.Label × Machine DosState Bus) (AtPs2.Outcome Bus) → Prop :=
    fun f => f.Sat (·.1 = .exitError) P
  show Q (AtPs2.fromTried aux m)
  refine jz_cases (P := Q) (fun _ => rfl) fun _ => ?_
  refine choose_lpt_cases (Q := Q) _ (fun _ => rfl) fun ch m₁ hc hlpt => ?_
  have hc' : AtPs2.Chosen aux ch m m₁ := ⟨hc.mem, hc.io, hc.up⟩
  have h₁ : Loading aux m₁ (getStage1Meta (.s0AtPs2 aux) m₁) := (Loading.refl m₁).getStage1Meta
  refine jc_cases (P := Q) (fun _ => rfl) fun hmeta => ?_
  have hmeta' : (getStage1Meta (.s0AtPs2 aux) m₁).cf = false := hmeta
  have h₂ := h₁.check
  refine jc_cases (P := Q) (fun _ => rfl) fun hcf => ?_
  have hcf' : (checkStage1Size (.s0AtPs2 aux) (getStage1Meta (.s0AtPs2 aux) m₁)).cf = false := hcf
  have h₃ := h₂.download hcf'
  refine jc_cases (P := Q) (fun _ => rfl) fun _ => ?_
  obtain ⟨hmem, hio, -⟩ := AtPs2.verifyImageChecksum_ok (.s0AtPs2 aux)
    (downloadStage1 (.s0AtPs2 aux)
      (checkStage1Size (.s0AtPs2 aux) (getStage1Meta (.s0AtPs2 aux) m₁)))
  have h₄ := h₃.same _ hmem hio
  exact jc_cases (P := Q) (fun _ => rfl) fun _ => hdone hc' hlpt ⟨hmeta', hcf', rfl⟩ h₄

theorem tried_ok (h : Port aux m.mem) : (AtPs2.fromTried aux m).Sat (·.1 = .exitError) Hands := by
  refine tried_cases fun {ch m₁ m'} hc _ hf hl => ?_
  have hsize := download_size hf.check
  rw [← hf.eq] at hsize
  refine ((h.chosen hc).loading hl).handOff ?_ hsize
  rw [hl.word (by simp [AtPs2.heldVars]) (by simp [AtPs2.heldVars])]
  exact up_of_chosen hc

/-- What the routines between the search and the choice of a channel keep. -/
structure Untried (aux : Bool) (I : Mem → Prop) : Prop where
  mastered : ∀ {m m' : Machine DosState Bus} {r}, I m.mem → Mastered aux r m m' → I m'.mem
  unlocked : ∀ {m m' : Machine DosState Bus}, I m.mem → Unlocking aux m m' → I m'.mem
  restored : ∀ {m : Machine DosState Bus}, I m.mem → I (AtPs2.restoreI8042AndPic aux m).mem

/-- What holds at a label. -/
def AtLabel (I : Mem → Prop) (m₀ : Machine DosState Bus) : AtPs2.Label × Machine DosState Bus → Prop
  | (.start, m) => m = m₀
  | (.exitError, _) => True
  | (_, m) => I m.mem

section

variable {I : Mem → Prop} {P : AtPs2.Outcome Bus → Prop}

theorem core_step (hI : Untried aux I) (hentered : I (entered aux m₀).mem)
    (htried : ∀ {m}, I m.mem → (AtPs2.fromTried aux m).Sat (·.1 = .exitError) P)
    (hexit : ∀ m, P (.exited 1 m))
    {s : AtPs2.Label × Machine DosState Bus} (h : AtLabel I m₀ s) :
    (AtPs2.step aux s).Sat (fun s' => AtLabel I m₀ s' ∧ s'.1.left < s.1.left) P := by
  obtain ⟨l, m⟩ := s
  cases l with
  | start =>
    obtain rfl : m = m₀ := h
    let Q : Flow (AtPs2.Label × Machine DosState Bus) (AtPs2.Outcome Bus) → Prop := fun f =>
      f.Sat (fun s' => AtLabel I m s' ∧ s'.1.left < AtPs2.Label.start.left) P
    refine AtPs2.i8042Mastery_cases (P := Q) (entered aux m)
      (fun m' hm => ⟨hI.mastered hentered hm, Nat.lt_succ_self 2⟩) fun m' hm hs => ?_
    have hne : m'.mem (ccbSaved aux) ≠ 0 := by
      rw [hs]
      decide
    have hu : I (AtPs2.tryUnlock aux m').mem :=
      hI.unlocked (hI.mastered hentered hm) (Unlocking.tryUnlock hne)
    have hlt : AtPs2.Label.tried.left < AtPs2.Label.start.left := by decide
    exact jnz_cases (P := Q) (fun _ => ⟨hu, hlt⟩) fun _ => ⟨hu, Nat.lt_succ_self 2⟩
  | masteryFail => exact ⟨hI.restored h, Nat.lt_succ_self 1⟩
  | restoreIfNone => exact ⟨hI.restored h, Nat.lt_succ_self 1⟩
  | tried =>
    refine (htried h).imp (fun s' hs => ?_) fun _ he => he
    obtain ⟨l, m'⟩ := s'
    obtain rfl : l = .exitError := hs
    exact ⟨trivial, Nat.zero_lt_one⟩
  | exitError =>
    show P (.exited (lo 0x4C01) _)
    rw [show lo (0x4C01 : Word) = 1 by decide]
    exact hexit _

/-- What is kept up to the choice of a channel decides how Stage 0 ends. -/
theorem core_rule (hI : Untried aux I) (hentered : I (entered aux m₀).mem)
    (htried : ∀ {m}, I m.mem → (AtPs2.fromTried aux m).Sat (·.1 = .exitError) P)
    (hexit : ∀ m, P (.exited 1 m)) :
    P (AtPs2.start aux m₀) :=
  iter_rule (AtLabel I m₀) P (fun s => s.1.left) (fun _ h => core_step hI hentered htried hexit h) _
    _ rfl (Nat.lt_succ_self 3)

end

theorem core_hands (hl : Listed (.s0AtPs2 aux) m₀.mem) : Hands (AtPs2.start aux m₀) :=
  core_rule (I := Port aux) ⟨fun h hm => h.mastered hm, fun h hu => h.unlocked hu,
    fun h => h.restored⟩ (entered_port hl) tried_ok fun _ => rfl

end

/-! ## A Pico that answers -/

/-- A block whose CRC ends in a byte 0. -/
def padding : List Byte := 0x75 :: List.replicate 63 0

/-- The block with the name of Stage 2's file. -/
def nameBlock : List Byte :=
  [0x34, 0x37] ++ List.replicate 19 0 ++ Stage1.stage2Name ++ List.replicate 31 0

/-- Stage 1's image of 16384 bytes. -/
def program : List (List Byte) :=
  List.replicate 45 padding ++ nameBlock :: List.replicate 210 padding

theorem program_length : program.length = 256 := by
  rw [program, List.length_append, List.length_cons, List.length_replicate, List.length_replicate]

theorem program_loadable : Loadable 0 program where
  pos := List.ne_nil_of_length_pos (by rw [program_length]; decide)
  le := by rw [program_length]; decide
  full := by
    intro data h
    simp only [program, List.mem_append, List.mem_replicate, List.mem_cons] at h
    obtain rfl | rfl : data = padding ∨ data = nameBlock := by tauto
    · decide +kernel
    · decide +kernel
  size := by rw [program_length]; decide
  count := by rw [program_length]; decide
  sum := by
    rw [program, List.flatten_append, List.flatten_cons, sum16_append, sum16_append,
      sum16_replicate, sum16_replicate]
    decide +kernel

/-- An XT at the first port of which a Pico sends that image. -/
def handing : Machine DosState Bus :=
  loaded .s0Xt fun i => (0 :: (RSP_OK0 :: RSP_OK1 :: imageWire program).flatMap statuses).getD i 0

theorem handing_listed : Listed .s0Xt handing.mem := loaded_listed .s0Xt _

theorem handing_loads : ∃ m', start .s0Xt handing = .stage1 m' ∧ DosState.Quiet handing.dos m'.dos ∧
    Named m'.mem := by
  have hreads : Reads (Ports.out (0x3BC + LPT_CONTROL) CTRL_BASE handing.io)
      (0 :: (RSP_OK0 :: RSP_OK1 :: imageWire program).flatMap statuses) := reads_getD rfl rfl
  obtain ⟨hstat, hrest⟩ := hreads.cons (p := 0x3BC + LPT_STATUS) (by decide) (by decide)
  obtain ⟨m', e, hdos, hbytes⟩ :=
    Xt.start_loads handing_listed program_loadable (congrArg (· &&& STAT_PHASE) hstat)
    (feeds_of_reads (by decide) (by decide) hrest)
  refine ⟨m', e, hdos, ?_⟩
  have hname : (m'.mem.bytes STAGE1_LOAD_OFF (64 * program.length)).drop 2901 = _ :=
    Mem.drop_bytes _ _ (by rw [program_length]; decide)
  rw [program_length] at hbytes hname
  rw [hbytes] at hname
  have hfirst :=
    Mem.take_bytes m'.mem (STAGE1_LOAD_OFF + 2901) (k := 13) (n := 64 * 256 - 2901) (by decide)
  rw [Named]
  refine hfirst.symm.trans ((congrArg (List.take 13) hname.symm).trans ?_)
  decide +kernel

/-! ## Both programs -/

/-- Whatever the Pico sends and the i8042 does, Stage 0 fails or hands over
what Stage 1 takes. -/
theorem start_hands (img : Image) (m : Machine DosState Bus) (hl : Listed img m.mem) :
    Hands (start img m) := by
  cases img with
  | s0Xt =>
    have h := xt_ends hl
    show Hands (Xt.start m)
    cases e : Xt.start m with
    | exited errorlevel m' =>
      rw [e] at h
      exact h.1
    | stage1 m' =>
      rw [e] at h
      exact h.1
  | s0AtPs2 aux => exact core_hands hl

theorem start_hands_handing : ∃ m', start .s0Xt handing = .stage1 m' ∧ Handed m' := by
  obtain ⟨m', e, -⟩ := handing_loads
  have h := start_hands .s0Xt handing handing_listed
  rw [e] at h
  exact ⟨m', e, h⟩

/-! ## A boot that fails -/

section

open AtPs2 (Released Restored Ctl Masked)

variable {P : Prop} {k₀ : Ctl} {b₀ b b' : Bus} {r : Option Byte} {m m' : Machine DosState Bus}

/-- Writes that are not to the i8042 leave what was given back. -/
theorem released_puts (h : Released P k₀ b₀ r m) (hp : Puts (fun w => ¬ kbcPorts w.1) m.io m'.io) :
    Released P k₀ b₀ r m' := by
  refine ⟨h.masks.trans hp.masks, fun hP => ?_⟩
  obtain ⟨k, htold, hccb, haux⟩ := h.restored hP
  have hkeep : ∀ (k' : Ctl) (w : Word × Byte), ¬ kbcPorts w.1 → k' = k →
      k'.out w = k := fun k' w hw hk =>
    hk ▸ Ctl.out_other k' hw
  obtain ⟨k', htold', rfl⟩ := Ctl.told_of_outs (· = k) hkeep hp.outs rfl
  exact ⟨_, htold.trans htold', hccb, haux⟩

/-- The ports that Stage 1 writes to with the base it was handed. -/
theorem lptPorts_apart {base p : Word} (hb : base = 0 ∨ base ∈ lptPorts)
    (h : Stage1.lptPorts base p) : (p ≠ PIC1_DATA ∧ p ≠ PIC2_DATA) ∧ ¬ kbcPorts p := by
  simp only [lptPorts, List.mem_cons, List.not_mem_nil, or_false] at hb
  unfold Stage1.lptPorts kbcPorts at *
  rcases hb with rfl | rfl | rfl | rfl <;> rcases h with rfl | rfl | rfl <;> decide

/-- Where Stage 1 fails, it has written to the parallel port only. -/
theorem Handed.puts (hh : Handed m) (hn : Named m.mem) (hf : Fails m m') :
    Puts (fun w => ¬ kbcPorts w.1) m.io m'.io := by
  obtain ⟨m₁, hrun, -, hlink, -⟩ := Stage1.start_valid m hn hh.valid
  have hleaves : Stage1.Leaves m₁.io (.exited 1 m') :=
    hf.exit ▸ hrun ▸ Stage1.afterDownload_leaves m₁
  have hio : m'.io = m₁.io := hleaves
  have hbase : m.bx = 0 ∨ m.bx ∈ lptPorts := hh.port.imp (fun h => h.2) fun h => h.2
  rw [hio]
  exact (Puts.of_drives hlink (fun hp => (lptPorts_apart hbase hp).1.1 rfl)
    fun hp => (lptPorts_apart hbase hp).1.2 rfl).mono fun _ hp => (lptPorts_apart hbase hp).2

/-- Wherever the run restores, the controller takes the final writes. -/
def Accepted : Image → Machine DosState Bus → Prop
  | .s0Xt, _ => True
  | .s0AtPs2 aux, m => AtPs2.Accepted aux m

/-- The command byte read at the entry, if one was. -/
def readAtEntry : Image → Machine DosState Bus → Option Byte
  | .s0Xt, _ => none
  | .s0AtPs2 aux, m => AtPs2.readAtEntry aux m

/-- What a boot without Stage 2 leaves of the interrupts and of the i8042, the
command byte of which was `ccb` at the entry. -/
def Leaves (img : Image) (ccb : Byte) (pending : Option Byte) (m₀ : Machine DosState Bus) :
    AtPs2.Outcome Bus → Prop
  | .exited _ m => Released (Accepted img m₀) ⟨ccb, pending, false⟩ m₀.io (readAtEntry img m₀) m
  | .stage1 m => Named m.mem → ∀ m', Fails m m' →
    (m.dx &&& 6 = 0 →
      Released (Accepted img m₀) ⟨ccb, pending, false⟩ m₀.io (readAtEntry img m₀) m') ∧
    (m.dx &&& 6 ≠ 0 → ∃ aux, img = .s0AtPs2 aux ∧ Masked aux m₀.io m'.io)

theorem candidatePorts_apart {p : Word} (h : candidatePorts p) :
    (p ≠ PIC1_DATA ∧ p ≠ PIC2_DATA) ∧ ¬ kbcPorts p := by
  obtain ⟨base, hb, hp⟩ := h
  exact AtPs2.pumpPorts_apart hb hp

/-- On an XT the i8042 is not written to. -/
theorem xt_released (h : Drives candidatePorts b b') (hio : m'.io = b') (ccb : Byte)
    (pending : Option Byte) : Released P ⟨ccb, pending, false⟩ b none m' := by
  subst hio
  have hp : Puts (fun w => ¬ kbcPorts w.1) b m'.io := by
    refine (Puts.of_drives h (fun hp => ?_) fun hp => ?_).mono
      fun _ hp => (candidatePorts_apart hp).2
    · exact (candidatePorts_apart hp).1.1 rfl
    · exact (candidatePorts_apart hp).1.2 rfl
  have h₀ : Released P ⟨ccb, pending, false⟩ b none { m' with io := b } :=
    ⟨.refl b, fun _ => ⟨_, .refl _ b, rfl, rfl⟩⟩
  exact released_puts h₀ hp

theorem core_ends (aux : Bool) (hl : Listed (.s0AtPs2 aux) m.mem) (ccb : Byte)
    (pending : Option Byte) : AtPs2.Ends aux (AtPs2.Accepted aux m) ⟨ccb, pending, false⟩ m.io
      (AtPs2.readAtEntry aux m) (AtPs2.start aux m) := by
  refine iter_turns (AtPs2.AtLabel aux (AtPs2.Accepted aux m)
    ⟨ccb, pending, false⟩ (AtPs2.readAtEntry aux m) m) _
    (fun s => s.1.left) (fun s ht hat => ?_) rfl (Nat.lt_succ_self 3)
  exact AtPs2.step_ok hl ccb pending hat fun hr hp => hp s.1 s.2 hr ht

/-- A boot that fails, in Stage 0 or in Stage 1, gives the interrupts and the
i8042 back if no private channel was up; else the interrupts stay masked. -/
theorem boot_fails (img : Image) (m : Machine DosState Bus) (hl : Listed img m.mem) (ccb : Byte)
    (pending : Option Byte) : Leaves img ccb pending m (start img m) := by
  cases img with
  | s0Xt =>
    have h := xt_ends hl
    show Leaves .s0Xt ccb pending m (Xt.start m)
    cases e : Xt.start m with
    | exited errorlevel m' =>
      rw [e] at h
      exact xt_released h.2 rfl ccb pending
    | stage1 m' =>
      rw [e] at h
      obtain ⟨hh, hdx, hd⟩ := h
      refine fun hn m'' hf => ⟨fun _ => released_puts (xt_released hd rfl ccb pending)
        (hh.puts hn hf), fun hup => absurd ?_ hup⟩
      rw [hdx]
      decide
  | s0AtPs2 aux =>
    have h := core_ends aux hl ccb pending
    have hands := core_hands hl
    show Leaves (.s0AtPs2 aux) ccb pending m (AtPs2.start aux m)
    cases e : AtPs2.start aux m with
    | exited errorlevel m' =>
      rw [e] at h
      exact h.2
    | stage1 m' =>
      rw [e] at h hands
      intro hn m'' hf
      have hp := Handed.puts hands hn hf
      refine ⟨fun hz => released_puts (h.1 hz) hp, fun hup => ⟨aux, rfl, ?_, ?_⟩⟩
      · exact hp.masks.1.trans (h.2 hup).pic1
      · exact hp.masks.2.trans (h.2 hup).pic2

/-- DOS refuses to create Stage 2's file. -/
theorem boot_fails_handing : ∃ m₁ m', start .s0Xt handing = .stage1 m₁ ∧ Fails m₁ m' ∧
    Released True ⟨0x65, none, false⟩ handing.io none m' := by
  obtain ⟨m₁, e, hdos, hn⟩ := handing_loads
  have hends := xt_ends handing_listed
  rw [show Xt.start handing = _ from e] at hends
  obtain ⟨hh, hdx, -⟩ := hends
  obtain ⟨m', hf⟩ := Stage1.start_refused m₁ hn hh.valid
    fun k => congrArg (fun ask : Nat → Reply => (ask k).cf) hdos.ask
  have h := boot_fails .s0Xt handing handing_listed 0x65 none
  rw [e] at h
  refine ⟨m₁, m', e, hf, (h hn m' hf).1 ?_⟩
  rw [hdx]
  decide

end

end VintageKvm.Boot
