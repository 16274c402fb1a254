import VintageKvm.Dos.Boot

/-!
# The images that Stage 0 loads over the LPT

Over the LPT `recv_u16` takes the phase for the low byte of a word, so that the
size and the number of blocks it has stored end in the same byte, which is 0 or
80h. `check_stage1_size` lets no such pair pass but that of 16384, 32768 or
49152 bytes (`sizes_of_checked`): Stage 1 is never handed another size over the
LPT, whatever the Pico announces (`start_sized`).
-/

namespace VintageKvm.Stage0

open I8086 Machine Dos Dos.LptNibble

/-! ## What was received -/

section

variable {δ ι : Type} [Ports ι] {img : Image} {p : Word} {ph : Byte} {m : Machine δ ι}

/-- Over the LPT a byte received was polled for. -/
theorem polled_of_cf (hl : Linked img m.mem p ph) (hcf : (recvByte img m).cf = false) :
    ∃ b, Delivers p ph m.io [b] := by
  cases hpoll : pollByte p ph m.io with
  | mk r rest =>
    obtain ⟨ph', io⟩ := rest
    cases r with
    | some b =>
      refine ⟨b, ?_⟩
      simp only [Delivers, List.length_singleton, pollBytes, hpoll, List.map_cons, List.map_nil]
    | none =>
      rw [← hl.port, ← hl.phase, ← lpt_lastPhase] at hpoll
      have hlate (c z : Bool) : ((lpt img).lptRecvByte { m with cf := c, zf := z }).cf = true := by
        obtain ⟨a, z', e, -⟩ := (lpt img).lptRecvByte_ok { m with cf := c, zf := z } hpoll
        rw [e]
        rfl
      have hrecv : (recvByte img m).cf = true := by
        cases img with
        | s0Xt => exact hlate m.cf m.zf
        | s0AtPs2 aux =>
          have hch : m.mem (currentChannel aux) = CHAN_LPT := hl.channel
          rw [recvByte, AtPs2.recvByte, jnz_neg (decide_eq_true hch)]
          exact hlate _ _
      rw [hrecv] at hcf
      cases hcf

theorem recvByte_of_cf (hl : Linked img m.mem p ph) (hcf : (recvByte img m).cf = false) :
    ∃ b z got io,
    recvByte img m = { m with ax := ofBytes ph b, zf := z, cf := false, got := got, io := io } := by
  obtain ⟨b, hd⟩ := polled_of_cf hl hcf
  obtain ⟨z, got, io, e, -⟩ := recvByte_lpt (streams_delivers hl.isPhase) hl hd
  exact ⟨b, z, got, io, e⟩

/-- Over the LPT a word received has the phase for its low byte. -/
theorem recvU16_of_cf (hl : Linked img m.mem p ph) (hcf : (recvU16 img m).cf = false) :
    ∃ b z got io,
    recvU16 img m = { m with ax := ofBytes b ph, zf := z, cf := false, got := got, io := io } := by
  rw [recvU16] at hcf ⊢
  cases h₁ : (recvByte img m).cf with
  | true =>
    rw [jc_pos h₁] at hcf
    cases hcf
  | false =>
    rw [jc_neg h₁] at hcf ⊢
    obtain ⟨b, z, got, io, e⟩ := recvByte_of_cf hl h₁
    let m₁ : Machine δ ι := (recvByte img m).movb .ah (·.reg8 .al)
    have hl₁ : Linked img m₁.mem p ph := by
      simp only [m₁, e]
      exact hl
    cases h₂ : (recvByte img m₁).cf with
    | true =>
      rw [jc_pos h₂] at hcf
      cases hcf
    | false =>
      obtain ⟨b', z', got', io', e'⟩ := recvByte_of_cf hl₁ h₂
      rw [jc_neg h₂, e']
      simp only [m₁, e, movb, setReg8, reg8, xchgAlAh, clc, hi_ofBytes, lo_ofBytes]
      exact ⟨b', z', got', io', rfl⟩

/-- A word of the metadata is received, or the routine fails. -/
theorem field_cases (hl : Linked img m.mem p ph) {P : Machine δ ι → Prop}
    {next : Machine δ ι → Machine δ ι} (hfail : ∀ m', P (getStage1Meta.fail m'))
    (hnext : ∀ b m', m'.mem = m.mem → m'.ax = ofBytes b ph → P (next m')) :
    P ((recvU16 img m).jc getStage1Meta.fail next) := by
  cases h : (recvU16 img m).cf with
  | true =>
    rw [jc_pos h]
    exact hfail _
  | false =>
    obtain ⟨b, z, got, io, e⟩ := recvU16_of_cf hl h
    rw [jc_neg h, e]
    exact hnext b _ rfl rfl

/-- The words of the metadata. -/
structure Announced (img : Image) (mem : Mem) (ph : Byte) : Prop where
  size : lo (mem.word (stage1Size img)) = ph
  blocks : lo (mem.word (stage1Blocks img)) = ph

theorem getStage1Meta_of_cf (hl : Linked img m.mem p ph) :
    (getStage1Meta img m).cf = false → Announced img (getStage1Meta img m).mem ph := by
  let P : Machine δ ι → Prop := fun m' => m'.cf = false → Announced img m'.mem ph
  have hfail : ∀ m', P (getStage1Meta.fail m') := fun _ h => Bool.noConfusion h
  obtain ⟨c₀, z₀, e₀⟩ := sent_lpt (m := m.movb .al (imm CMD_GET_META)) hl (getStage1Meta.fail)
    (fun m => m |> recvU16 img |>.jc getStage1Meta.fail fun m => m
      |>.stw (imm (stage1Size img)) (·.ax) |>
      recvU16 img |>.jc getStage1Meta.fail fun m => m |>.stw (imm (stage1Blocks img)) (·.ax) |>
        recvU16 img |>.jc getStage1Meta.fail fun m => m |>.stw (imm (stage1Sum16 img))
        (·.ax) |>.clc)
  let m₀ : Machine δ ι := { m.movb .al (imm CMD_GET_META) with
    cf := c₀, zf := z₀, io := (sendByte img (m.movb .al (imm CMD_GET_META))).io }
  have hl₀ : Linked img m₀.mem p ph := hl
  show P (getStage1Meta img m)
  rw [getStage1Meta, e₀]
  refine field_cases hl₀ hfail fun a m₁ hm₁ ha => ?_
  have hl₁ : Linked img (m₁.stw (imm (stage1Size img)) (·.ax)).mem p ph := by
    show Linked img (m₁.mem.setWord _ m₁.ax) p ph
    rw [hm₁]
    exact hl₀.setWord (by simp [wordVars]) _
  refine field_cases hl₁ hfail fun b m₂ hm₂ hb => ?_
  have hl₂ : Linked img (m₂.stw (imm (stage1Blocks img)) (·.ax)).mem p ph := by
    show Linked img (m₂.mem.setWord _ m₂.ax) p ph
    rw [hm₂]
    exact hl₁.setWord (by simp [wordVars]) _
  refine field_cases hl₂ hfail fun c m₃ hm₃ _ _ => ?_
  have hmem : (m₃.stw (imm (stage1Sum16 img)) (·.ax)).clc.mem =
      metaMem img m.mem (ofBytes a ph) (ofBytes b ph) m₃.ax := by
    show m₃.mem.setWord _ _ = _
    rw [hm₃, ← hb, ← ha]
    show (m₂.mem.setWord _ _).setWord _ _ = _
    rw [hm₂]
    show ((m₁.mem.setWord _ _).setWord _ _).setWord _ _ = _
    rw [hm₁]
    rfl
  obtain ⟨hsize, hblocks, -⟩ := metaMem_words img m.mem (ofBytes a ph) (ofBytes b ph) m₃.ax
  rw [hmem]
  exact ⟨by rw [hsize, lo_ofBytes], by rw [hblocks, lo_ofBytes]⟩

/-- The sizes that pass the check. -/
def lptSizes : List Word := [0x4000, 0x8000, 0xC000]

theorem sizes_of_checked {mem : Mem} (hph : IsPhase ph) (ha : Announced img mem ph)
    (hc : Checked img mem) : mem.word (stage1Size img) ∈ lptSizes := by
  obtain ⟨hpos, hle, hblocks⟩ := hc
  have hsize := toNat_lo (mem.word (stage1Size img))
  have hcount := toNat_lo (mem.word (stage1Blocks img))
  rw [ha.size] at hsize
  rw [ha.blocks] at hcount
  generalize mem.word (stage1Size img) = s at *
  generalize mem.word (stage1Blocks img) = n at *
  -- with the bit set the size is 128 above a multiple of 256, and so 2 blocks above one of 4
  have hzero : ph.toNat = 0 := by
    rcases hph with rfl | rfl
    · rfl
    · have h80 : (STAT_PHASE : Byte).toNat = 128 := by decide
      omega
  have hval : s.toNat = 0x4000 ∨ s.toNat = 0x8000 ∨ s.toNat = 0xC000 := by omega
  simp only [lptSizes, List.mem_cons, List.not_mem_nil, or_false, ← BitVec.toNat_inj]
  exact hval

end

end VintageKvm.Stage0

namespace VintageKvm.Boot

open I8086 Machine Dos Bus Stage0
open Stage1 (putsMsg putsMsg_ok)

/-- Over the LPT nothing but these sizes is handed over; without a hand-off the
errorlevel is 1. -/
def Sized : AtPs2.Outcome Bus → Prop
  | .exited errorlevel _ => errorlevel = 1
  | .stage1 m => lo m.dx &&& CHAN_LPT ≠ 0 → m.cx ∈ lptSizes

/-- An image fetched over the LPT. -/
theorem Fetched.size {img : Image} {m₁ m' : Machine DosState Bus} (h : Fetched img m₁ m')
    {p : Word} {ph : Byte} (hl : Linked img m₁.mem p ph) :
    m'.mem.word (stage1Size img) ∈ lptSizes := by
  obtain ⟨hc, -⟩ := begun_ok img _ h.check
  rw [h.eq, download_word (fixed_words img _ (by simp)) h.check]
  exact sizes_of_checked hl.isPhase (getStage1Meta_of_cf hl h.announced) hc

/-! ## On an XT -/

theorem exitError_sized (msg : Word) (m : Machine DosState Bus) : Sized (Xt.failWith msg m) :=
  show lo 0x4C01 = 1 by decide

theorem xt_sized {m : Machine DosState Bus} (hl : Listed .s0Xt m.mem) : Sized (Xt.start m) := by
  let m₀ : Machine DosState Bus := m |>.push (·.cs) |>.popDs |>.push (·.cs) |>.popEs
    |> putsMsg (msgBanner .s0Xt)
  have hm₀ : m₀.mem = m.mem := by
    simp only [m₀, putsMsg_ok]
    rfl
  have hprint : ∀ m' : Machine DosState Bus, (Xt.printBase (putsMsg msgFound m')).mem =
      m'.mem := fun m' => by
    obtain ⟨a, s, c, z, con, e⟩ : ∃ a s c z con, Xt.printBase _ = _ :=
      printBase_ok .s0Xt (putsMsg msgFound m')
    rw [e, putsMsg_ok]
  show Sized ((Xt.findPicoLpt m₀).jc _ _)
  refine findPico_cases (P := fun m' => Sized (m'.jc _ _))
    (m := m₀) (hm₀ ▸ hl) (fun m' _ => exitError_sized _ _) fun m' _ _ hph hcf => ?_
  rw [jc_neg hcf]
  have hlinked : Linked .s0Xt (Xt.printBase (putsMsg msgFound m')).mem _ _ :=
    ⟨trivial, rfl, rfl, (hprint m').symm ▸ hph⟩
  generalize Xt.printBase (putsMsg msgFound m') = m₁ at hlinked ⊢
  refine jc_cases (P := Sized) (fun _ => exitError_sized _ _) fun hmeta => ?_
  refine jc_cases (P := Sized) (fun _ => exitError_sized _ _) fun hcheck => ?_
  have hf : Fetched .s0Xt m₁ _ := ⟨hmeta, hcheck, rfl⟩
  have hsize := hf.size hlinked
  refine jc_cases (P := Sized) (fun _ => exitError_sized _ _)
    fun _ => jc_cases (P := Sized) (fun _ => exitError_sized _ _) fun _ _ => ?_
  generalize verifyImageChecksum .s0Xt _ = m₂ at hsize ⊢
  rw [(xt_jumped m₂).1.cx]
  exact hsize

/-! ## With the i8042 -/

section

open AtPs2 (entered entryVars_apart Mastered Unlocking Loading)

variable {aux : Bool} {m m' m₀ : Machine DosState Bus}

/-- With the LPT channel up the phase is one. -/
def Phased (aux : Bool) (mem : Mem) : Prop :=
  mem.word (dxBitmap aux) &&& 1 ≠ 0 → IsPhase (mem (lastPhase (.s0AtPs2 aux)))

theorem Phased.keeps {mem mem' : Mem} (h : Phased aux mem)
    (hbit : mem'.word (dxBitmap aux) &&& 1 = mem.word (dxBitmap aux) &&& 1)
    (hph : mem' (lastPhase (.s0AtPs2 aux)) = mem (lastPhase (.s0AtPs2 aux))) : Phased aux mem' := by
  rw [Phased, hbit, hph]
  exact h

/-- The phase is not among the variables of the i8042. -/
theorem lastPhase_apart (aux : Bool) :
    (∀ r ∈ AtPs2.masteryVars aux, ¬ r.Has (lastPhase (.s0AtPs2 aux))) ∧
    (∀ r ∈ AtPs2.unlockVars aux, ¬ r.Has (lastPhase (.s0AtPs2 aux))) ∧
    (∀ r ∈ AtPs2.restoreVars aux, ¬ r.Has (lastPhase (.s0AtPs2 aux))) ∧
    lastPhase (.s0AtPs2 aux) ≠ dxBitmap aux ∧ lastPhase (.s0AtPs2 aux) ≠ dxBitmap aux + 1 ∧
    lastPhase (.s0AtPs2 aux) ≠ currentChannel aux := by
  rw [← List.forall_iff_forall_mem, ← List.forall_iff_forall_mem, ← List.forall_iff_forall_mem]
  cases aux <;> decide +kernel

theorem phased_untried (aux : Bool) : Untried aux (Phased aux) where
  mastered {m m' r} h hm := by
    have hap := (entryVars_apart aux).2.2
    refine h.keeps (congrArg (· &&& 1) ?_) (hm.mem.byte (lastPhase_apart aux).1)
    exact hm.mem.word (fun r hr => (hap r hr).1) fun r hr => (hap r hr).2.1
  unlocked h hu := h.keeps hu.lpt (hu.touches.mem.byte (lastPhase_apart aux).2.1)
  restored {m} h := by
    obtain ⟨-, hap⟩ := AtPs2.restoreVars_apart aux
    have hf := AtPs2.released_frame aux m.mem
    obtain ⟨a, c, z, e⟩ := AtPs2.restoreI8042AndPic_ok aux m
    rw [e]
    refine h.keeps (congrArg (· &&& 1) ?_) (hf.byte (lastPhase_apart aux).2.2.1)
    exact hf.word (hap _ (by simp)) (hap _ (by simp))

theorem entered_phased (hl : Listed (.s0AtPs2 aux) m.mem) : Phased aux (entered aux m).mem := by
  have hl₁ := AtPs2.enter_listed hl
  have hzero := (AtPs2.enter_ok aux m).bitmap
  show Phased aux (AtPs2.tryLptChannel aux (AtPs2.enter aux m)).mem
  generalize AtPs2.enter aux m = m₁ at hl₁ hzero ⊢
  obtain ⟨hap, h₁, h₂, h₃, h₄⟩ := AtPs2.bitmap_apart aux
  rw [AtPs2.tryLptChannel, AtPs2.findPicoLpt_eq]
  refine findPico_cases (P := fun m' => Phased aux (m'.jc id _).mem) hl₁ (fun m' h => ?_)
    fun m' h _ hph hcf => ?_
  · have hmem :
        (AtPs2.nextPort.notFound aux m').mem = m'.mem.setWord (lptBase (.s0AtPs2 aux)) 0 := by
      simp only [AtPs2.nextPort.notFound, xorw, stw, stc, reg, setReg, imm, BitVec.xor_self]
      rfl
    have hbits : m'.mem.word (dxBitmap aux) = 0 :=
      (h.mem.word (fun r hr => (hap r hr).1) fun r hr => (hap r hr).2).trans hzero
    rw [jc_pos rfl, id, Phased, hmem,
      Mem.word_setWord_of_ne _ _ h₁.symm h₃.symm h₂.symm h₄.symm, hbits]
    exact fun hne => absurd BitVec.zero_and hne
  · rw [jc_neg hcf]
    obtain ⟨a, s, c, z, con, e⟩ : ∃ a s c z con, AtPs2.printBase aux _ = _ :=
      printBase_ok (.s0AtPs2 aux)
      (m' |>.orMem (dxBitmap aux) (CHAN_LPT.setWidth 16) |> putsMsg (msgLptFound aux))
    rw [e, putsMsg_ok]
    have hne := (lastPhase_apart aux).2.2.2
    intro _
    show IsPhase ((m'.mem.setWord (dxBitmap aux) _) (lastPhase (.s0AtPs2 aux)))
    rw [Mem.setWord, Mem.set_of_ne _ _ hne.2.1, Mem.set_of_ne _ _ hne.1]
    exact hph

theorem tried_sized (h : Phased aux m.mem) :
    (AtPs2.fromTried aux m).Sat (·.1 = .exitError) Sized := by
  refine tried_cases fun {ch m₁ m'} hc hlpt hf hl => ?_
  obtain ⟨hj, hdx⟩ := core_jumped aux m'
  intro hne
  rw [ne_eq, lo_and, hdx, hl.word (by simp [AtPs2.heldVars]) (by simp [AtPs2.heldVars]),
    word_chosen hc (by simp [AtPs2.runVars]) (by simp [AtPs2.runVars])] at hne
  obtain rfl := hlpt hne
  rw [hj.cx]
  refine hf.size ⟨?_, rfl, rfl, ?_⟩
  · show m₁.mem (currentChannel aux) = CHAN_LPT
    rw [hc.mem, Mem.set_self]
  · rw [hc.mem, Mem.set_of_ne _ _ (lastPhase_apart aux).2.2.2.2.2]
    exact h hne

end

/-! ## Both programs -/

/-- Over the LPT Stage 1 is handed over with 16384, 32768 or 49152 bytes, or
not at all. -/
theorem start_sized (img : Image) (m : Machine DosState Bus) (hl : Listed img m.mem) :
    Sized (start img m) := by
  cases img with
  | s0Xt => exact xt_sized hl
  | s0AtPs2 aux => exact core_rule (phased_untried aux) (entered_phased hl) tried_sized fun _ => rfl

theorem start_sized_handing :
    ∃ m', start .s0Xt handing = .stage1 m' ∧ lo m'.dx &&& CHAN_LPT ≠ 0 ∧ m'.cx ∈ lptSizes := by
  obtain ⟨m', e, -⟩ := handing_loads
  have hends := xt_ends handing_listed
  rw [show Xt.start handing = _ from e] at hends
  have hup : lo m'.dx &&& CHAN_LPT ≠ 0 := by
    rw [hends.2.1]
    decide
  have h := start_sized .s0Xt handing handing_listed
  rw [e] at h
  exact ⟨m', e, hup, h hup⟩

end VintageKvm.Boot
