import VintageKvm.Dos.Stage1.Within
import VintageKvm.I8086.Stack
import VintageKvm.Protocol.Crc

/-!
# Stage 1: the running CRC-32

`crc32_init`, `crc32_update_byte`, `crc32_buf` and `crc32_finalize` keep the
state of the checksum in the double word `crc32_state`; over the bytes of an
image in any number of pieces it is the CRC-32 of the wire protocol.

`crc32_buf` reads a block of the segment that its stack lies in as well:
`crc32BufStacked` has it there, and does what `crc32Buf` does on a block apart
from the cells of the stack (`crc32BufStacked_ok`).
-/

namespace VintageKvm.Stage1

open I8086 Machine Protocol

variable {δ ι : Type}

/-- `crc32_init`. -/
def crc32Init (m : Machine δ ι) : Machine δ ι :=
  m |>.stw (imm crc32State) (imm 0xFFFF) |>.stw (imm (crc32State + 2)) (imm 0xFFFF)

/-- One turn of `crc32_update_byte.bit`. -/
def crc32Bit (m : Machine δ ι) : Machine δ ι :=
  m |>.shr1 .dx |>.rcr1 .ax |>.jnc id fun m => m |>.xorw .ax (imm 0x8320) |>.xorw .dx (imm 0xEDB8)

/-- `crc32_update_byte`, what stands between `push si` and `pop si`. -/
def crc32Fold (m : Machine δ ι) : Machine δ ι :=
  m |>.movb .bl (·.reg8 .al) |>.mov .ax (·.word crc32State) |>.mov .dx (·.word (crc32State + 2))
    |>.xorb .al (·.reg8 .bl) |>.mov .cx (imm 8) |>.loop crc32Bit
    |>.stw (imm crc32State) (·.ax) |>.stw (imm (crc32State + 2)) (·.dx)

/-- `crc32_update_byte`. -/
def crc32UpdateByte (m : Machine δ ι) : Machine δ ι := m |>.push (·.si) |> crc32Fold |>.pop .si

/-- `crc32_update_byte`, its stack in the segment. -/
def crc32UpdateByteStacked (s : Stacked δ ι) : Stacked δ ι :=
  s |>.push (·.si) |>.step crc32Fold |>.pop .si

/-- One turn of `crc32_buf.next`. -/
def crc32Next (m : Machine δ ι) : Machine δ ι :=
  m |>.lodsb |>.push (·.cx) |> crc32UpdateByte |>.pop .cx

/-- One turn of `crc32_buf.next`, its stack in the segment: `next` is the
address after `call crc32_update_byte`. -/
def crc32NextStacked (next : Word) (s : Stacked δ ι) : Option (Stacked δ ι) :=
  (s |>.step (·.lodsb) |>.push (·.cx) |>.call next crc32UpdateByteStacked).map (·.pop .cx)

/-- `crc32_buf`. -/
def crc32Buf (m : Machine δ ι) : Machine δ ι := m.jcxz id (·.loop crc32Next)

/-- `crc32_buf`, its stack in the segment. -/
def crc32BufStacked (next : Word) (s : Stacked δ ι) : Option (Stacked δ ι) :=
  if s.machine.cx = 0 then some s else s.loop (crc32NextStacked next)

/-- `crc32_finalize`. -/
def crc32Finalize (m : Machine δ ι) : Machine δ ι :=
  m |>.mov .ax (·.word crc32State) |>.mov .dx (·.word (crc32State + 2))
    |>.xorw .ax (imm 0xFFFF) |>.xorw .dx (imm 0xFFFF)

/-! ## A bit -/

/-- The bit step on the two words. -/
theorem bitStep_words (h l : Word) : Crc32.bitStep (ofWords h l) =
    if l.getLsbD 0 then
      ofWords (h >>> 1 ^^^ 0xEDB8)
        ((l >>> 1 ||| BitVec.ofNat 16 (h.getLsbD 0).toNat <<< 15) ^^^ 0x8320)
    else ofWords (h >>> 1) (l >>> 1 ||| BitVec.ofNat 16 (h.getLsbD 0).toNat <<< 15) := by
  have hb : ofWords h l &&& 1 ≠ 0 ↔ l.getLsbD 0 = true := by
    have hn : (ofWords h l &&& 1).toNat = l.toNat % 2 := by
      rw [BitVec.toNat_and, toNat_ofWords]
      show (h.toNat * 65536 + l.toNat) &&& 1 = _
      rw [Nat.and_one_is_mod]
      omega
    rw [← BitVec.testBit_toNat, Nat.testBit_zero, decide_eq_true_iff, ne_eq, ← BitVec.toNat_inj, hn]
    show ¬ l.toNat % 2 = 0 ↔ _
    omega
  rw [Crc32.bitStep, ofWords_shr1, ← ofWords_xor]
  by_cases hl : l.getLsbD 0 = true
  · rw [if_pos (hb.mpr hl), if_pos hl]
    rfl
  · rw [if_neg fun hc => hl (hb.mp hc), if_neg hl]

theorem crc32Bit_ok (m : Machine δ ι) :
    ∃ c z a d, crc32Bit m = { m with ax := a, dx := d, cf := c, zf := z } ∧
    ofWords d a = Crc32.bitStep (ofWords m.dx m.ax) := by
  rw [bitStep_words]
  by_cases hl : m.ax.getLsbD 0 = true
  · simp only [crc32Bit, shr1, rcr1, ↓jnc, reg, setReg, hl, ↓reduceIte, xorw, imm]
    exact ⟨_, _, _, _, rfl, rfl⟩
  · have hl' : m.ax.getLsbD 0 = false := Bool.eq_false_of_not_eq_true hl
    simp only [crc32Bit, shr1, rcr1, ↓jnc, reg, setReg, hl', ↓reduceIte, Bool.false_eq_true, id]
    exact ⟨_, _, _, _, rfl, rfl⟩

/-! ## A byte -/

/-- The byte in AL is folded into the state. -/
theorem crc32Fold_ok (m : Machine δ ι) : ∃ c z, crc32Fold m = { m with
    ax := loW (Crc32.byteStep (m.mem.dword crc32State) (lo m.ax)),
    bx := ofBytes (hi m.bx) (lo m.ax), cx := 0
    dx := hiW (Crc32.byteStep (m.mem.dword crc32State) (lo m.ax)), cf := c, zf := z
    mem := m.mem.setDword crc32State (Crc32.byteStep (m.mem.dword crc32State) (lo m.ax)) } := by
  let s₀ := m.mem.dword crc32State ^^^ (lo m.ax).setWidth 32
  let m₀ : Machine δ ι := { m with
    ax := loW s₀, bx := ofBytes (hi m.bx) (lo m.ax), cx := 8, dx := hiW s₀, cf := false
    zf := decide (lo (m.mem.word crc32State) ^^^ lo m.ax = 0) }
  have h₀ : (m |>.movb .bl (·.reg8 .al) |>.mov .ax (·.word crc32State)
      |>.mov .dx (·.word (crc32State + 2)) |>.xorb .al (·.reg8 .bl) |>.mov .cx (imm 8)) = m₀ := by
    have hs : s₀ = ofWords (m.mem.word (crc32State + 2)) (m.mem.word crc32State ^^^
        (lo m.ax).setWidth 16) := by
      rw [show s₀ = m.mem.dword crc32State ^^^ (lo m.ax).setWidth 32 from rfl, setWidth_byte,
        Mem.dword, ofWords_xor,
        show m.mem.word (crc32State + 2) ^^^ (0 : Word) = m.mem.word (crc32State + 2) from
          BitVec.xor_zero]
    simp only [movb, mov, xorb, setReg, reg8, setReg8, word, imm, lo_ofBytes, ofBytes_xor_lo, m₀,
      hs, loW_ofWords, hiW_ofWords]
  let I : Nat → Machine δ ι → Prop := fun k m' => k ≤ 8 ∧ ∃ a d w c z,
    m' = { m₀ with ax := a, cx := w, dx := d, cf := c, zf := z } ∧
    ofWords d a = Crc32.bitStep^[8 - k] s₀
  have hbody : ∀ k m', I (k + 1) m' → m'.cx = BitVec.ofNat 16 (k + 1) →
      (crc32Bit m').cx = m'.cx ∧ I k { crc32Bit m' with cx := BitVec.ofNat 16 k } := by
    rintro k m' ⟨hk, a, d, w, c, z, hm, hs⟩ -
    obtain ⟨c', z', a', d', e, hs'⟩ := crc32Bit_ok m'
    rw [e]
    subst hm
    refine ⟨rfl, Nat.le_of_succ_le hk, a', d', BitVec.ofNat 16 k, c', z', rfl, ?_⟩
    rw [hs', show 8 - k = 8 - (k + 1) + 1 by omega, Function.iterate_succ_apply', ← hs]
  have hI : I 8 m₀ := ⟨le_rfl, loW s₀, hiW s₀, 8, false, m₀.zf, rfl, ofWords_hiW_loW s₀⟩
  obtain ⟨⟨-, a, d, w, c, z, e, hs⟩, hw⟩ := loop_rule I hbody (by decide) (by decide) hI rfl
  have hb : ofWords d a = Crc32.byteStep (m.mem.dword crc32State) (lo m.ax) := hs
  rw [e] at hw
  have hw' : w = 0 := hw
  refine ⟨c, z, ?_⟩
  rw [crc32Fold, h₀, e, hw', ← hb, Mem.setDword, loW_ofWords, hiW_ofWords]
  rfl

theorem crc32Next_ok (m : Machine δ ι) : ∃ c z,
    let d := Crc32.byteStep (m.mem.dword crc32State) (m.mem m.si)
    crc32Next m = { m with
      ax := loW d, bx := ofBytes (hi m.bx) (m.mem m.si), dx := hiW d, si := m.si + 1,
      cf := c, zf := z
      mem := m.mem.setDword crc32State d } := by
  obtain ⟨c, z, e⟩ := crc32Fold_ok (m |>.lodsb |>.push (·.cx) |>.push (·.si))
  rw [crc32Next, crc32UpdateByte, e]
  refine ⟨c, z, ?_⟩
  simp only [lodsb, push, pop, top, setReg, List.headD_cons, List.tail_cons, lo_ofBytes]

/-- The CX bytes at DS:SI are folded into the state. -/
theorem crc32Buf_ok (m : Machine δ ι)
    (ha : Region.Apart ⟨crc32State, 4⟩ ⟨m.si, m.cx.toNat⟩) :
    ∃ a b d c z s mem, crc32Buf m = { m with
      ax := a, bx := b, cx := 0, dx := d, si := s, cf := c, zf := z, mem := mem } ∧
    Frame [⟨crc32State, 4⟩] m.mem mem ∧
    mem.dword crc32State =
    (m.mem.bytes m.si m.cx.toNat).foldl Crc32.byteStep (m.mem.dword crc32State) := by
  generalize hn : m.cx.toNat = n at ha
  by_cases hcx : m.cx = 0
  · have h0 : n = 0 := by rw [← hn, hcx]; rfl
    refine ⟨m.ax, m.bx, m.dx, m.cf, m.zf, m.si, m.mem, ?_, .refl _ _, by rw [h0]; rfl⟩
    rw [crc32Buf, jcxz_pos hcx, ← hcx]
    rfl
  let I : Nat → Machine δ ι → Prop := fun k m' => k ≤ n ∧ ∃ a b w d c z mem,
    m' =
    { m with
    ax := a, bx := b, cx := w, dx := d, si := m.si + BitVec.ofNat 16 (n - k), cf := c, zf := z,
    mem := mem } ∧
    Frame [⟨crc32State, 4⟩] m.mem mem ∧
    mem.dword crc32State = (m.mem.bytes m.si (n - k)).foldl Crc32.byteStep (m.mem.dword crc32State)
  have hbody : ∀ k m', I (k + 1) m' → m'.cx = BitVec.ofNat 16 (k + 1) →
      (crc32Next m').cx = m'.cx ∧ I k { crc32Next m' with cx := BitVec.ofNat 16 k } := by
    rintro k m' ⟨hk, a, b, w, d, c, z, mem, hm, hf, hs⟩ -
    obtain ⟨c', z', e⟩ := crc32Next_ok m'
    rw [e]
    subst hm
    have hbyte : mem (m.si + BitVec.ofNat 16 (n - (k + 1))) =
        m.mem (m.si + BitVec.ofNat 16 (n - (k + 1))) :=
      hf.byte fun r hr hc => ha _ (List.mem_singleton.mp hr ▸ hc) (Region.has_ofNat _ (by omega)
        (hn ▸ m.cx.isLt.le))
    simp only [hbyte]
    let b' := m.mem (m.si + BitVec.ofNat 16 (n - (k + 1)))
    let d' := Crc32.byteStep (mem.dword crc32State) b'
    refine ⟨trivial, Nat.le_of_succ_le hk, loW d', ofBytes (hi b) b', BitVec.ofNat 16 k,
      hiW d', c', z', mem.setDword crc32State d', ?_, ?_, ?_⟩
    · rw [add_ofNat_add_one, show n - (k + 1) + 1 = n - k by omega]
    · exact hf.trans (.setDword_self mem crc32State d')
    · rw [Mem.dword_setDword, show d' = Crc32.byteStep (mem.dword crc32State) b' from rfl, hs,
        show n - k = n - (k + 1) + 1 by omega, Mem.bytes_succ, List.foldl_concat]
  have hn0 : 0 < n := hn ▸ toNat_pos_of_ne hcx
  have hI : I n m := by
    refine ⟨le_rfl, m.ax, m.bx, m.cx, m.dx, m.cf, m.zf, m.mem, ?_, .refl _ _, ?_⟩
    · rw [Nat.sub_self, show m.si + BitVec.ofNat 16 0 = m.si from BitVec.add_zero _]
    · rw [Nat.sub_self]
      rfl
  obtain ⟨⟨-, a, b, w, d, c, z, mem, e, hf, hs⟩, hw⟩ :=
    loop_rule I hbody hn0 (hn ▸ m.cx.isLt.le) hI (by rw [← hn, ofNat_toNat16])
  rw [e] at hw
  have hw' : w = 0 := hw
  refine ⟨a, b, d, c, z, m.si + BitVec.ofNat 16 (n - 0), mem, ?_, hf, hs⟩
  rw [crc32Buf, jcxz_neg hcx, e, hw']

/-! ## The stack in the segment -/

/-- The cells below SP that the pushes and the calls of `crc32_buf` write. -/
def crc32Cells (sp : Word) : Region := ⟨sp - 6, 6⟩

/-- The machines differ in flags and in the cells of the stack. -/
structure Mirrors (sp : Word) (s : Stacked δ ι) (m : Machine δ ι) : Prop where
  top : s.sp = sp
  frame : Frame [crc32Cells sp] m.mem s.machine.mem
  machine : ∃ c z, s.machine = { m with cf := c, zf := z, mem := s.machine.mem }

/-- The words pushed in a turn of `crc32_buf`: CX, the address after the call
and SI. -/
def crc32Pushed (mem : Mem) (sp cx next si : Word) : Mem :=
  ((mem.setWord (sp - 2) cx).setWord (sp - 2 - 2) next).setWord (sp - 2 - 2 - 2) si

section Cells

variable (mem : Mem) (sp cx next si : Word)

theorem crc32Cells_has (i : Nat) (h : i < 6) {x : Word} (hx : x = sp - 6 + BitVec.ofNat 16 i) :
    ∃ r ∈ [crc32Cells sp], r.Has x :=
  ⟨_, List.mem_singleton_self _, hx ▸ Region.has_ofNat _ h (by decide)⟩

theorem crc32Pushed_frame : Frame [crc32Cells sp] mem (crc32Pushed mem sp cx next si) :=
  (((Frame.refl _ _).setWord _ (crc32Cells_has sp 4 (by decide) (by bv_omega))
    (crc32Cells_has sp 5 (by decide) (by bv_omega))).setWord _
      (crc32Cells_has sp 2 (by decide) (by bv_omega))
    (crc32Cells_has sp 3 (by decide) (by bv_omega))).setWord _
      (crc32Cells_has sp 0 (by decide) (by bv_omega))
    (crc32Cells_has sp 1 (by decide) (by bv_omega))

theorem crc32Pushed_si : (crc32Pushed mem sp cx next si).word (sp - 2 - 2 - 2) = si :=
  Mem.word_setWord _ _ _

theorem crc32Pushed_next : (crc32Pushed mem sp cx next si).word (sp - 2 - 2) = next := by
  rw [crc32Pushed, Mem.word_setWord_of_ne _ _ (by bv_omega) (by bv_omega) (by bv_omega)
    (by bv_omega), Mem.word_setWord]

theorem crc32Pushed_cx : (crc32Pushed mem sp cx next si).word (sp - 2) = cx := by
  rw [crc32Pushed, Mem.word_setWord_of_ne _ _ (by bv_omega) (by bv_omega) (by bv_omega)
    (by bv_omega), Mem.word_setWord_of_ne _ _ (by bv_omega) (by bv_omega) (by bv_omega)
      (by bv_omega), Mem.word_setWord]

/-- The state is set apart from the cells. -/
theorem crc32Cells_setDword (d : DWord) (happ : Region.Apart ⟨crc32State, 4⟩ (crc32Cells sp))
    (i : Nat) (h : i < 5) {x : Word} (hx : x = sp - 6 + BitVec.ofNat 16 i) :
    (mem.setDword crc32State d).word x = mem.word x := by
  have hf := Frame.setDword_self mem crc32State d
  have hout : ∀ i < 6, ∀ r ∈ [(⟨crc32State, 4⟩ : Region)],
      ¬ r.Has (sp - 6 + BitVec.ofNat 16 i) := fun i hi r hr hc =>
    happ _ (List.mem_singleton.mp hr ▸ hc) (Region.has_ofNat _ hi (by decide))
  subst hx
  exact hf.word (hout i (by omega)) (add_ofNat_add_one _ i ▸ hout (i + 1) (by omega))

end Cells

/-- A turn of `crc32_buf` leaves the words it pushed behind in the cells. -/
theorem crc32NextStacked_ok (next : Word) (s : Stacked δ ι)
    (happ : Region.Apart ⟨crc32State, 4⟩ (crc32Cells s.sp)) : ∃ c z,
    let m := s.machine
    let d := Crc32.byteStep (m.mem.dword crc32State) (m.mem m.si)
    crc32NextStacked next s = some { s with machine := { m with
      ax := loW d, bx := ofBytes (hi m.bx) (m.mem m.si), dx := hiW d, si := m.si + 1,
      cf := c, zf := z
      mem := (crc32Pushed m.mem s.sp m.cx next (m.si + 1)).setDword crc32State d } } := by
  obtain ⟨m, sp⟩ := s
  let s₁ : Stacked δ ι := (⟨m, sp⟩ : Stacked δ ι).step (·.lodsb) |>.push (·.cx) |>.push (imm next)
    |>.push (·.si)
  obtain ⟨c, z, e⟩ := crc32Fold_ok s₁.machine
  have hstate : (crc32Pushed m.mem sp m.cx next (m.si + 1)).dword crc32State =
      m.mem.dword crc32State :=
    (crc32Pushed_frame m.mem sp m.cx next (m.si + 1)).dword_apart happ
  generalize hM : crc32Pushed m.mem sp m.cx next (m.si + 1) = mem at hstate
  have hmem : s₁.machine.mem = mem := hM
  have hax : lo s₁.machine.ax = m.mem m.si := lo_ofBytes _ _
  rw [hmem, hstate, hax] at e
  generalize hd : Crc32.byteStep (m.mem.dword crc32State) (m.mem m.si) = d at e
  refine ⟨c, z, ?_⟩
  have hsi := crc32Cells_setDword mem sp d happ 0 (by decide) (x := sp - 2 - 2 - 2) (by bv_omega)
  have hnext := crc32Cells_setDword mem sp d happ 2 (by decide) (x := sp - 2 - 2) (by bv_omega)
  have hcx := crc32Cells_setDword mem sp d happ 4 (by decide) (x := sp - 2) (by bv_omega)
  rw [← hM, crc32Pushed_si] at hsi
  rw [← hM, crc32Pushed_next] at hnext
  rw [← hM, crc32Pushed_cx] at hcx
  have hbyte : crc32UpdateByteStacked ((⟨m, sp⟩ : Stacked δ ι).step (·.lodsb) |>.push (·.cx)
    |>.push (imm next)) =
      ⟨{ m with
                ax := loW d, bx := ofBytes (hi m.bx) (m.mem m.si), cx := 0, dx := hiW d,
                si := m.si + 1, cf := c, zf := z
                mem := mem.setDword crc32State d }, sp - 2 - 2⟩ := by
    have hs₁ : crc32UpdateByteStacked ((⟨m, sp⟩ : Stacked δ ι).step (·.lodsb) |>.push (·.cx)
      |>.push (imm next)) = (s₁.step crc32Fold).pop .si := rfl
    rw [hs₁, Stacked.step, e, Stacked.pop]
    simp only [mov, setReg, word]
    rw [show s₁.sp = sp - 2 - 2 - 2 from rfl, ← hM, hsi, BitVec.sub_add_cancel]
    rfl
  rw [crc32NextStacked, Stacked.call, hbyte]
  simp only [word, ← hM, hnext, if_true, Option.map_some, Stacked.pop, BitVec.sub_add_cancel, mov,
    setReg, hcx, hd]

/-- The stack in the segment makes no difference to a block apart from it. -/
theorem crc32BufStacked_mirrors (next : Word) {sp : Word} {s : Stacked δ ι} {m : Machine δ ι}
    (h : Mirrors sp s m) (state : Region.Apart ⟨crc32State, 4⟩ (crc32Cells sp))
    (block : Region.Apart (crc32Cells sp) ⟨m.si, m.cx.toNat⟩) :
    ∃ s', crc32BufStacked next s = some s' ∧ Mirrors sp s' (crc32Buf m) := by
  let R : Stacked δ ι → Machine δ ι → Prop := fun s m =>
    Mirrors sp s m ∧ Region.Apart (crc32Cells sp) ⟨m.si, m.cx.toNat⟩
  have hturn : ∀ s m, R s m → m.cx ≠ 0 → ∃ s', crc32NextStacked next s = some s' ∧
    s'.machine.cx = (crc32Next m).cx ∧
      R (s'.step fun m => { m with cx := m.cx - 1 })
      { crc32Next m with cx := (crc32Next m).cx - 1 } := by
    rintro ⟨ms, sp'⟩ m ⟨⟨top, frame, c, z, hm⟩, block⟩ hcx
    have top' : sp' = sp := top
    subst top'
    generalize ms.mem = mem at frame hm
    subst hm
    have hpos : 0 < m.cx.toNat := toNat_pos_of_ne hcx
    have hbyte : mem m.si = m.mem m.si := frame.byte fun r hr hc =>
      block _ (List.mem_singleton.mp hr ▸ hc) (Region.has_base _ hpos)
    have hstate : mem.dword crc32State = m.mem.dword crc32State := frame.dword_apart state
    obtain ⟨c₁, z₁, e₁⟩ := crc32Next_ok m
    obtain ⟨c₂, z₂, e₂⟩ :=
      crc32NextStacked_ok next ⟨{ m with cf := c, zf := z, mem := mem }, sp'⟩ state
    rw [e₁, e₂]
    simp only [hbyte, hstate]
    refine ⟨_, rfl, rfl, ⟨rfl, ?_, c₂, z₂, rfl⟩, ?_⟩
    · exact (frame.trans (crc32Pushed_frame _ _ _ _ _)).setDword_both _ _
    · have hsub : Region.Sub ⟨m.si + 1, (m.cx - 1).toNat⟩ ⟨m.si, m.cx.toNat⟩ := Region.sub_of_le (by
        rw [BitVec.add_comm, BitVec.add_sub_cancel]
        show 1 + (m.cx - 1).toNat ≤ m.cx.toNat
        bv_omega)
      exact block.sub hsub
  by_cases hcx : m.cx = 0
  · have hs : s.machine.cx = 0 := by
      obtain ⟨c, z, e⟩ := h.machine
      rw [e]
      exact hcx
    exact ⟨s, if_pos hs, by rwa [crc32Buf, jcxz_pos hcx]⟩
  · have hs : s.machine.cx ≠ 0 := by
      obtain ⟨c, z, e⟩ := h.machine
      rw [e]
      exact hcx
    obtain ⟨s', e, h', -⟩ := Stacked.loop_sim R hturn ⟨h, block⟩ hcx
    refine ⟨s', (if_neg hs).trans e, ?_⟩
    rwa [crc32Buf, jcxz_neg hcx]

/-- Where a call of `crc32_buf` may read: the block lies apart from the running
checksum and the cells of the stack, and the running checksum apart from these
and the address the call returns to. -/
structure Crc32Clear (s : Stacked δ ι) : Prop where
  state : Region.Apart ⟨crc32State, 4⟩ ⟨s.machine.si, s.machine.cx.toNat⟩
  cells : Region.Apart (crc32Cells s.sp) ⟨s.machine.si, s.machine.cx.toNat⟩
  stack : Region.Apart ⟨crc32State, 4⟩ ⟨s.sp - 6, 8⟩

/-- The call returns, and the CX bytes at DS:SI are folded into the state. -/
theorem crc32BufStacked_ok (next : Word) {s : Stacked δ ι} (h : Crc32Clear s) : ∃ s',
    crc32BufStacked next s = some s' ∧ s'.sp = s.sp ∧ s'.machine.word s.sp = s.machine.word s.sp ∧
    s'.machine.mem.dword crc32State =
      (s.machine.mem.bytes s.machine.si s.machine.cx.toNat).foldl Crc32.byteStep
      (s.machine.mem.dword crc32State) := by
  have hsub : Region.Sub (crc32Cells s.sp) ⟨s.sp - 6, 8⟩ := Region.sub_of_le (by simp [crc32Cells])
  have hstack : Region.Apart ⟨crc32State, 4⟩ (crc32Cells s.sp) := h.stack.sub hsub
  have hmirror : Mirrors s.sp s s.machine := ⟨rfl, .refl _ _, s.machine.cf, s.machine.zf, rfl⟩
  obtain ⟨s', e, h'⟩ := crc32BufStacked_mirrors next hmirror hstack h.cells
  obtain ⟨a, b, d, c, z, si, mem, e', hf, hfold⟩ := crc32Buf_ok s.machine h.state
  have hframe := h'.frame
  rw [e'] at hframe
  have hbase : ∀ i < 2,
      s.sp + BitVec.ofNat 16 i = s.sp - 6 + BitVec.ofNat 16 (6 + i) := fun i hi => by
    rw [BitVec.ofNat_add]
    bv_omega
  have hcells : ∀ i < 2, ∀ r ∈ [crc32Cells s.sp],
      ¬ r.Has (s.sp + BitVec.ofNat 16 i) := fun i hi r hr => by
    rw [List.mem_singleton.mp hr, hbase i hi, Region.Has, crc32Cells, Region.sub_toNat _ (by omega)]
    exact Nat.not_lt.mpr (Nat.le_add_right 6 i)
  have hstate : ∀ i < 2, ∀ r ∈ [(⟨crc32State, 4⟩ : Region)],
      ¬ r.Has (s.sp + BitVec.ofNat 16 i) := fun i hi r hr hc =>
    h.stack _
      (List.mem_singleton.mp hr ▸ hc) (hbase i hi ▸ Region.has_ofNat _ (by omega) (by decide))
  refine ⟨s', e, h'.top, ?_, ?_⟩
  · exact (hframe.word (by simpa using hcells 0 (by decide)) (hcells 1 (by decide))).trans
      (hf.word (by simpa using hstate 0 (by decide)) (hstate 1 (by decide)))
  · rw [hframe.dword_apart hstack, hfold]

end VintageKvm.Stage1
