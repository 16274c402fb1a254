import VintageKvm.Dos.Stage0.Download
import VintageKvm.Protocol.BlockServer

/-!
# Stage 0: a block received

The peer names the size of Stage 1, the number of its blocks and the length of
each. Here are the check of the metadata (`Checked`) and the routine that
receives a block: it refuses a length that is not within the image, and
otherwise stores the bytes in the place of the block and nowhere else
(`receive_ok`, `receive_guarded`).
-/

namespace VintageKvm.Stage0

open I8086 Machine Dos

variable {δ ι : Type} [Ports ι] (img : Image)

/-! ## Regions -/

/-- Where an image of `n` bytes goes. -/
abbrev window (n : Nat) : Region := ⟨STAGE1_LOAD_OFF, n⟩

/-- Where block `k` goes. -/
def offset (k : Nat) : Word := STAGE1_LOAD_OFF + BitVec.ofNat 16 (64 * k)

/-- The bytes of block `k` of an image of `n` bytes. -/
abbrev piece (n k : Nat) : Region := ⟨offset k, Protocol.blockLen n k⟩

/-- The variables of the download. -/
def vars : List Region :=
  [⟨lastPhase img, 1⟩, ⟨currentBlock img, 2⟩, ⟨blockCrcRecv img, 2⟩, ⟨blockLen img, 1⟩,
    ⟨retryCount img, 1⟩]

/-- Those of them that `receive_current_block` uses. -/
def temps : List Region := [⟨lastPhase img, 1⟩, ⟨blockCrcRecv img, 2⟩, ⟨blockLen img, 1⟩]

theorem temps_sub : temps img ⊆ vars img := by
  intro r hr
  simp only [temps, vars, List.mem_cons, List.not_mem_nil, or_false] at hr ⊢
  tauto

/-- A byte of Stage 0 that is none of the download's variables. -/
def Fixed (a : Word) : Prop := a.toNat < 0x800 ∧ ∀ r ∈ vars img, ¬ r.Has a

instance (a : Word) : Decidable (Fixed img a) := inferInstanceAs (Decidable (_ ∧ _))

/-- A region above Stage 0. -/
def Above (w : Region) : Prop := ∀ x, w.Has x → 0x800 ≤ x.toNat

theorem window_above {n : Nat} (hn : n ≤ 50000) : Above (window n) := by
  intro x hx
  simp only [Region.Has] at hx
  by_contra hlt
  have : (x - STAGE1_LOAD_OFF).toNat = 65536 - 0x800 + x.toNat := by
    rw [BitVec.toNat_sub]
    show (65536 - 0x800 + x.toNat) % 65536 = _
    omega
  omega

theorem Above.sub {w w' : Region} (h : Above w) (hs : Region.Sub w' w) : Above w' :=
  fun x hx => h x (hs x hx)

/-- A block lies in the window. -/
theorem piece_sub_window {n k : Nat} (hn : n ≤ 50000) : Region.Sub (piece n k) (window n) := by
  by_cases hk : 64 * k < n
  · refine Region.sub_of_le ?_
    show (STAGE1_LOAD_OFF + BitVec.ofNat 16 (64 * k) - STAGE1_LOAD_OFF).toNat +
      Protocol.blockLen n k ≤ n
    rw [Region.sub_toNat _ (by omega), Protocol.blockLen]
    omega
  · intro x hx
    have h0 : Protocol.blockLen n k = 0 := by
      rw [Protocol.blockLen]
      omega
    simp only [Region.Has, h0] at hx
    omega

section

variable {img} {w : Region} {mem mem' : Mem} {a : Word}

theorem Fixed.byte (ha : Fixed img a) (hw : Above w) (h : Frame (w :: vars img) mem mem') :
    mem' a = mem a := by
  refine Frame.byte h fun r hr => ?_
  rcases List.mem_cons.mp hr with rfl | hr
  · intro hc
    have := hw a hc
    have := ha.1
    omega
  · exact ha.2 r hr

theorem Fixed.word (ha : Fixed img a ∧ Fixed img (a + 1)) (hw : Above w)
    (h : Frame (w :: vars img) mem mem') : mem'.word a = mem.word a := by
  rw [Mem.word, Mem.word, ha.1.byte hw h, ha.2.byte hw h]

end

/-- The words the metadata gives, and the port base. -/
theorem fixed_words : ∀ a ∈ [stage1Size img, stage1Blocks img, stage1Sum16 img, lptBase img],
    Fixed img a ∧ Fixed img (a + 1) := by
  rw [← List.forall_iff_forall_mem]
  cases img with
  | s0Xt => decide +kernel
  | s0AtPs2 aux => cases aux <;> decide +kernel

theorem fixed_currentChannel (aux : Bool) : Fixed (.s0AtPs2 aux) (currentChannel aux) := by
  cases aux <;> decide +kernel

theorem linkPorts_frame {w : Region} {mem mem' : Mem} (hw : Above w)
    (h : Frame (w :: vars img) mem mem') : linkPorts img mem' = linkPorts img mem := by
  have hb := Fixed.word (fixed_words img (lptBase img) (by simp)) hw h
  cases img with
  | s0Xt => rw [linkPorts, linkPorts, hb]
  | s0AtPs2 aux => rw [linkPorts, linkPorts, hb, (fixed_currentChannel aux).byte hw h]

/-! ## What a routine of the download keeps -/

/-- `m'` differs from `m` in the registers that are not saved, within `w` and
in variables of the download, and was reached by bytes on the link. -/
structure Kept (w : Region) (vs : List Region) (m m' : Machine δ ι) : Prop where
  cs : m'.cs = m.cs
  ds : m'.ds = m.ds
  es : m'.es = m.es
  stk : m'.stk = m.stk
  dos : m'.dos = m.dos
  mem : Frame (w :: vs) m.mem m'.mem
  link : Drives (linkPorts img m.mem) m.io m'.io

namespace Kept

variable {img} {w w' : Region} {vs vs' : List Region} {m m₁ m₂ m₃ : Machine δ ι}

theorem refl (w : Region) (vs : List Region) (m : Machine δ ι) : Kept img w vs m m :=
  ⟨rfl, rfl, rfl, rfl, rfl, .refl _ _, .refl⟩

theorem widen (h : Kept img w vs m m₁) (hw : Region.Sub w w') (hvs : vs ⊆ vs') :
    Kept img w' vs' m m₁ :=
  { h with
    mem := h.mem.widen fun r hr => by
      rcases List.mem_cons.mp hr with rfl | hr
      · exact ⟨w', List.mem_cons_self, hw⟩
      · exact ⟨r, List.mem_cons_of_mem _ (hvs hr), .refl r⟩ }

theorem trans (hw : Above w) (hvs : vs ⊆ vars img) (h₁ : Kept img w vs m₁ m₂)
    (h₂ : Kept img w vs m₂ m₃) : Kept img w vs m₁ m₃ where
  cs := h₂.cs.trans h₁.cs
  ds := h₂.ds.trans h₁.ds
  es := h₂.es.trans h₁.es
  stk := h₂.stk.trans h₁.stk
  dos := h₂.dos.trans h₁.dos
  mem := h₁.mem.trans h₂.mem
  link := h₁.link.trans (linkPorts_frame img hw (h₁.widen (.refl w) hvs).mem ▸ h₂.link)

end Kept

theorem temps_has : ∀ a ∈ [lastPhase img, blockCrcRecv img, blockCrcRecv img + 1, blockLen img],
    ∃ r ∈ temps img, r.Has a := by
  rw [← List.forall_iff_forall_mem]
  cases img with
  | s0Xt => decide +kernel
  | s0AtPs2 aux => cases aux <;> decide +kernel

/-- A byte stored in a variable of `receive_current_block`. -/
theorem temps_set {mem mem' : Mem} {w : Region} (h : Frame (w :: temps img) mem mem')
    {a : Word} (b : Byte)
    (ha : a ∈ [lastPhase img, blockCrcRecv img, blockCrcRecv img + 1, blockLen img]) :
    Frame (w :: temps img) mem (mem'.set a b) := by
  obtain ⟨r, hr, hh⟩ := temps_has img a ha
  exact h.set b ⟨r, List.mem_cons_of_mem _ hr, hh⟩

/-! ## The metadata check -/

/-- The metadata that `check_stage1_size` accepts. -/
structure Checked (mem : Mem) : Prop where
  pos : 0 < (mem.word (stage1Size img)).toNat
  le : (mem.word (stage1Size img)).toNat ≤ 50000
  blocks : (mem.word (stage1Blocks img)).toNat = ((mem.word (stage1Size img)).toNat + 63) / 64

omit [Ports ι] in
/-- `.shr_loop`. -/
theorem shrLoop_ok (m : Machine δ ι) (hcx : m.cx = 6) :
    ∃ c z, m.loop (·.shr1 .ax) = { m with ax := m.ax >>> 6, cx := 0, cf := c, zf := z } := by
  let I : Nat → Machine δ ι → Prop := fun k m' => k ≤ 6 ∧ ∃ w c z,
    m' = { m with ax := m.ax >>> (6 - k), cx := w, cf := c, zf := z }
  have hbody : ∀ k m', I (k + 1) m' → m'.cx = BitVec.ofNat 16 (k + 1) →
      (m'.shr1 .ax).cx = m'.cx ∧ I k { m'.shr1 .ax with cx := BitVec.ofNat 16 k } := by
    rintro k _ ⟨hk, w, c, z, rfl⟩ -
    have hs : m.ax >>> (6 - k) = m.ax >>> (6 - (k + 1)) >>> 1 := by
      rw [← BitVec.shiftRight_add, show 6 - (k + 1) + 1 = 6 - k by omega]
    refine ⟨rfl, Nat.le_of_succ_le hk, ?_⟩
    simp only [shr1, reg, setReg, hs]
    exact ⟨_, _, _, rfl⟩
  have hI : I 6 m := ⟨le_rfl, m.cx, m.cf, m.zf, by simp⟩
  obtain ⟨⟨-, w, c, z, e⟩, hw⟩ := loop_rule I hbody (by decide) (by decide) hI hcx
  rw [e] at hw ⊢
  have hw' : w = 0 := hw
  exact ⟨c, z, by rw [hw']⟩

omit [Ports ι] in
theorem checkStage1Size_ok (m : Machine δ ι) : ∃ a w c z,
    checkStage1Size img m = { m with ax := a, cx := w, cf := c, zf := z } ∧
    (c = false ↔ Checked img m.mem) := by
  generalize hs : m.mem.word (stage1Size img) = s
  let P : Machine δ ι → Prop := fun m' => ∃ a w c z,
    m' = { m with ax := a, cx := w, cf := c, zf := z } ∧ (c = false ↔ Checked img m.mem)
  have hbad : ∀ a w c z, ¬ Checked img m.mem →
      P (checkStage1Size.bad { m with ax := a, cx := w, cf := c, zf := z }) := fun a w _ z hno =>
    ⟨a, w, true, z, rfl, (Bool.noConfusion ·), fun h => absurd h hno⟩
  let m₁ : Machine δ ι := { m with ax := s, cf := false, zf := decide (s = 0) }
  have h₁ : (m |>.mov .ax (·.word (stage1Size img)) |>.orw .ax (·.ax)) = m₁ := by
    simp only [mov, orw, setReg, reg, word, hs, BitVec.or_self, m₁]
  show P (checkStage1Size img m)
  rw [checkStage1Size, h₁]
  refine jz_cases (fun hz => hbad _ _ _ _ fun h => ?_) fun hz => ?_
  · have hp := h.pos
    rw [hs, of_decide_eq_true hz] at hp
    exact absurd hp (lt_irrefl _)
  have hpos : 0 < s.toNat := toNat_pos_of_ne (of_decide_eq_false hz)
  refine ja_cmp_cases (fun hgt => hbad _ _ _ _ fun h => ?_) fun hle => ?_
  · have := h.le
    rw [hs] at this
    exact absurd hgt (not_lt.mpr this)
  have hle' : s.toNat ≤ 50000 := hle
  -- the sum that rounds up does not overflow
  refine jc_cases (fun hc => ?_) fun _ => ?_
  · have hc' : 65536 ≤ s.toNat + (BLOCK_SIZE - 1 : Word).toNat := of_decide_eq_true hc
    rw [show (BLOCK_SIZE - 1 : Word).toNat = 63 from rfl] at hc'
    omega
  let m₂ : Machine δ ι := { m with
    ax := s + (BLOCK_SIZE - 1), cx := 6,
    cf := decide (65536 ≤ s.toNat + (BLOCK_SIZE - 1 : Word).toNat)
    zf := decide (s + (BLOCK_SIZE - 1) = 0) }
  obtain ⟨c, z, e⟩ := shrLoop_ok m₂ rfl
  have hax : ((s + (BLOCK_SIZE - 1)) >>> 6).toNat = (s.toNat + 63) / 64 := by
    rw [BitVec.toNat_ushiftRight, Nat.shiftRight_eq_div_pow, BitVec.toNat_add]
    show (s.toNat + 63) % 65536 / 64 = _
    omega
  show P ((m₂.loop (·.shr1 .ax) |>.cmp (·.ax) (·.word (stage1Blocks img))).jnz
    checkStage1Size.bad (·.clc))
  rw [e]
  refine jnz_cases (fun hz₂ => hbad _ _ _ _ fun h => ?_)
    fun hz₂ => ⟨_, _, false, _, rfl, fun _ => ⟨?_, ?_, ?_⟩, fun _ => rfl⟩
  · refine of_decide_eq_false hz₂ (BitVec.eq_of_toNat_eq ?_)
    exact hax.trans (hs ▸ h.blocks.symm)
  · rwa [hs]
  · rwa [hs]
  · rw [hs, ← hax]
    exact (congrArg BitVec.toNat (of_decide_eq_true hz₂)).symm

/-! ## A block received -/

theorem linkPorts_set (mem : Mem) (ph : Byte) :
    linkPorts img (mem.set (lastPhase img) ph) = linkPorts img mem :=
  linkPorts_frame img (w := window 0) (window_above (Nat.zero_le _))
    ((temps_set img (.refl _ mem) ph (by simp)).mono
    fun r hr => (List.mem_cons.mp hr).elim (· ▸ List.mem_cons_self) fun h => List.mem_cons_of_mem _
      (temps_sub img h))

theorem recvU16_ok (m : Machine δ ι) : ∃ a c z ph bs io, recvU16 img m = { m with
      ax := a, cf := c, zf := z, mem := m.mem.set (lastPhase img) ph,
      got := m.got ++ bs, io := io } ∧
    (c = false → bs.length = 2) ∧ Drives (linkPorts img m.mem) m.io io := by
  obtain ⟨a, c, z, ph, bs, io, e, hbs, hd⟩ := recvByte_ok img m
  rw [recvU16, e]
  cases c with
  | true => exact ⟨a, true, z, ph, bs, io, rfl, (Bool.noConfusion ·), hd⟩
  | false =>
    obtain ⟨a', c', z', ph', bs', io', e', hbs', hd'⟩ := recvByte_ok img { m with
      ax := ofBytes (lo a) (lo a), cf := false, zf := z, mem := m.mem.set (lastPhase img) ph,
      got := m.got ++ bs, io := io }
    have e₂ : ∀ f g : Machine δ ι → Machine δ ι, jc { m with
        ax := a, cf := false, zf := z, mem := m.mem.set (lastPhase img) ph, got := m.got ++ bs,
        io := io } f (fun m =>
        m |>.movb .ah (·.reg8 .al) |> recvByte img |> g) = g { m with
        ax := a', cf := c', zf := z', mem := m.mem.set (lastPhase img) ph',
        got := m.got ++ (bs ++ bs'), io := io' } := by
      intro f g
      rw [jc_neg rfl]
      simp only [movb, setReg8, reg8]
      rw [e']
      simp only [Mem.set_set, List.append_assoc]
    rw [e₂ _ (fun m => m.jc (·.stc) fun m => m |>.xchgAlAh |>.clc)]
    have hdd : Drives (linkPorts img m.mem) m.io io' := hd.trans (linkPorts_set img m.mem ph ▸ hd')
    cases c' with
    | true => exact ⟨a', true, z', ph', _, io', rfl, (Bool.noConfusion ·), hdd⟩
    | false => exact ⟨_, false, z', ph', _, io', rfl, fun _ => by rw [hbs, hbs']; rfl, hdd⟩

omit [Ports ι] in
/-- `mul` by the block size. -/
theorem mul_block {k : Nat} {w : Word} (hw : w.toNat = k) (hk : 64 * k < 65536) :
    loW (w.setWidth 32 * (64 : Word).setWidth 32) = BitVec.ofNat 16 (64 * k) ∧
    hiW (w.setWidth 32 * (64 : Word).setWidth 32) = 0 := by
  have hp : (w.setWidth 32 * (64 : Word).setWidth 32).toNat = 64 * k := by
    rw [BitVec.toNat_mul, BitVec.toNat_setWidth, hw]
    show k % 4294967296 * 64 % 4294967296 = _
    omega
  constructor <;> apply BitVec.eq_of_toNat_eq
  · rw [toNat_loW, hp, toNat_ofNat16 hk, Nat.mod_eq_of_lt hk]
  · rw [toNat_hiW, hp]
    exact Nat.div_eq_of_lt hk

/-- The state in which the bytes of a block are about to be received. -/
def opened (m : Machine δ ι) (k : Nat) (len ph : Byte) (c : Bool) (io : ι) : Machine δ ι := { m with
  ax := offset k, bx := BLOCK_SIZE, cx := ofBytes 0 len, dx := 0, di := offset k,
  cf := c, zf := true
  mem := (m.mem.set (lastPhase img) ph).set (blockLen img) len, got := m.got ++ [len], io := io }

omit [Ports ι] in
/-- The length of a block and the phase are not what the arithmetic reads. -/
theorem word_temps (mem : Mem) (ph len : Byte) : ∀ a ∈ [currentBlock img, stage1Size img],
    ((mem.set (lastPhase img) ph).set (blockLen img) len).word a = mem.word a := by
  have hne : ∀ a ∈ [currentBlock img, stage1Size img], (a ≠ lastPhase img ∧ a + 1 ≠ lastPhase img) ∧
      a ≠ blockLen img ∧ a + 1 ≠ blockLen img := by
    rw [← List.forall_iff_forall_mem]
    cases img with
    | s0Xt => decide +kernel
    | s0AtPs2 aux => cases aux <;> decide +kernel
  intro a ha
  obtain ⟨⟨h₁, h₂⟩, h₃, h₄⟩ := hne a ha
  rw [Mem.word_set_of_ne _ _ h₃ h₄, Mem.word_set_of_ne _ _ h₁ h₂]

omit [Ports ι] in
/-- The block arithmetic, up to the comparison with the size. -/
theorem blockEnd_ok (m : Machine δ ι) {k : Nat} (hk : (m.mem.word (currentBlock img)).toNat = k)
    (h : 64 * k < 65536) {β : Type} (fail next : Machine δ ι → β) :
    ((m |>.mov .ax (·.word (currentBlock img)) |>.mov .bx (imm BLOCK_SIZE) |>.mul .bx
      |>.orw .dx (·.dx)).jnz fail fun m =>
      m |>.mov .bx (·.ax) |>.xorb .ah (·.reg8 .ah) |>.movb .al (·.byte (blockLen img))
        |>.add .bx (·.ax) |>.jc fail next) =
    jc { m with
      ax := ofBytes 0 (m.mem (blockLen img)),
      bx := BitVec.ofNat 16 (64 * k) + ofBytes 0 (m.mem (blockLen img)), dx := 0
      cf := decide (65536 ≤ 64 * k + (m.mem (blockLen img)).toNat)
      zf := decide (BitVec.ofNat 16 (64 * k) + ofBytes 0 (m.mem (blockLen img)) = 0) }
      fail next := by
  obtain ⟨hlo, hhi⟩ := mul_block hk h
  let m₁ : Machine δ ι :=
    { m with ax := BitVec.ofNat 16 (64 * k), bx := BLOCK_SIZE, dx := 0, cf := false, zf := true }
  have e : (m |>.mov .ax (·.word (currentBlock img)) |>.mov .bx (imm BLOCK_SIZE) |>.mul .bx
      |>.orw .dx (·.dx)) = m₁ := by
    simp only [mov, mul, orw, setReg, reg, word, imm, hlo, hhi, BitVec.or_self, decide_true, m₁]
  have hz : m₁.zf = true := rfl
  rw [e, jnz_neg hz]
  simp only [mov, xorb, movb, add, setReg, reg, setReg8, reg8, byte, BitVec.xor_self, hi_ofBytes,
    toNat_byteWord, toNat_ofNat16 h, show (0#8 : Byte) = 0 from rfl, m₁]

omit [Ports ι] in
/-- Where the bytes of a block go. -/
theorem blockStart_ok (m : Machine δ ι) {k : Nat} (hk : (m.mem.word (currentBlock img)).toNat = k)
    (h : 64 * k < 65536) :
        ∃ c, (m |>.mov .ax (·.word (currentBlock img)) |>.mov .bx (imm BLOCK_SIZE) |>.mul .bx
        |>.add .ax (imm STAGE1_LOAD_OFF) |>.mov .di (·.ax)
        |>.xorw .cx (·.cx) |>.movb .cl (·.byte (blockLen img))) = { m with
      ax := offset k, bx := BLOCK_SIZE, cx := ofBytes 0 (m.mem (blockLen img)), dx := 0,
      di := offset k, cf := c, zf := true } := by
  obtain ⟨hlo, hhi⟩ := mul_block hk h
  have ho : offset k = BitVec.ofNat 16 (64 * k) + STAGE1_LOAD_OFF := BitVec.add_comm _ _
  have h0 : hi (0 : Word) = 0 := rfl
  simp only [mov, mul, add, xorw, movb, setReg, reg, setReg8, word, byte, imm,
    BitVec.xor_self, hlo, hhi, ho]
  exact ⟨_, rfl⟩

/-- The length of a block: it is refused, or it is within the image. -/
theorem receive_open (m : Machine δ ι) {k n : Nat} (hk : (m.mem.word (currentBlock img)).toNat = k)
    (hn : (m.mem.word (stage1Size img)).toNat = n) (hnw : 64 * k + 64 + 0x800 < 65536) :
    (∃ m' bs, (∀ stosb, receiveCurrentBlockWith img stosb m = m') ∧ m'.cf = true ∧
      m'.got = m.got ++ bs ∧ (∀ w, Kept img w (temps img) m m') ∧ ((recvByte img m).cf = false →
        64 < (lo (recvByte img m).ax).toNat ∨ n < 64 * k + (lo (recvByte img m).ax).toNat)) ∨
    ∃ len ph c io, (∀ stosb, receiveCurrentBlockWith img stosb m = (opened img m k len ph c io).jcxz
        (receiveCurrentBlockWith.recvCrc img)
        (·.loopE (receiveCurrentBlockWith.recvLoop img stosb)
          (receiveCurrentBlockWith.recvCrc img))) ∧
      len.toNat ≤ 64 ∧ 64 * k + len.toNat ≤ n ∧ Drives (linkPorts img m.mem) m.io io ∧
      ∃ a z, recvByte img m = { m with
        ax := a, cf := false, zf := z, mem := m.mem.set (lastPhase img) ph, got := m.got ++ [len],
        io := io } ∧ lo a = len := by
  obtain ⟨a, c, z, ph, bs, io, e, hbs, hd⟩ := recvByte_ok img m
  cases c with
  | true =>
    let mA : Machine δ ι := { m with
      ax := a, cf := true, zf := z, mem := m.mem.set (lastPhase img) ph,
      got := m.got ++ bs, io := io }
    have hcf : mA.cf = true := rfl
    refine .inl ⟨mA, bs, fun stosb => ?_, rfl, rfl, fun w =>
      ⟨rfl, rfl, rfl, rfl, rfl, temps_set img (.refl _ _) ph (by simp), hd⟩, fun h => ?_⟩
    · rw [receiveCurrentBlockWith, e, jc_pos hcf]
      rfl
    · rw [e] at h
      cases h
  | false =>
    obtain rfl : bs = [lo a] := hbs
    generalize hl : lo a = len at e
    have hax : lo (recvByte img m).ax = len := by rw [e, hl]
    let mem : Mem := (m.mem.set (lastPhase img) ph).set (blockLen img) len
    have hmem : ∀ w, Frame (w :: temps img) m.mem mem := fun w =>
      temps_set img (temps_set img (.refl _ _) ph (by simp)) len (by simp)
    let mB : Machine δ ι :=
      { m with ax := a, cf := false, zf := z, mem := mem, got := m.got ++ [len], io := io }
    let mA : Machine δ ι := { m with
      ax := a, cf := false, zf := z, mem := m.mem.set (lastPhase img) ph,
      got := m.got ++ [len], io := io }
    have hcf : mA.cf = false := rfl
    have hstb : mA.stb (imm (blockLen img)) (·.reg8 .al) = mB := by
      simp only [mA, mB, mem, stb, reg8, imm, hl]
    have hk' : (mB.mem.word (currentBlock img)).toNat = k := by
      rw [← hk]
      exact congrArg BitVec.toNat (word_temps img m.mem ph len _ (by simp))
    have hn' : (mB.mem.word (stage1Size img)).toNat = n := by
      rw [← hn]
      exact congrArg BitVec.toNat (word_temps img m.mem ph len _ (by simp))
    have hlen : mem (blockLen img) = len := Mem.set_self _ _ _
    let mC : Machine δ ι := { mB with
      ax := ofBytes 0 (mem (blockLen img)),
      bx := BitVec.ofNat 16 (64 * k) + ofBytes 0 (mem (blockLen img)), dx := 0
      cf := decide (65536 ≤ 64 * k + (mem (blockLen img)).toNat)
      zf := decide (BitVec.ofNat 16 (64 * k) + ofBytes 0 (mem (blockLen img)) = 0) }
    have hbx : len.toNat ≤ 64 → mC.bx.toNat = 64 * k + len.toNat := fun hle => by
      show (BitVec.ofNat 16 (64 * k) + ofBytes 0 (mem (blockLen img))).toNat = _
      rw [BitVec.toNat_add, toNat_ofNat16 (by omega), toNat_byteWord, hlen]
      omega
    let mD : Machine δ ι := mC.cmp (·.bx) (·.word (stage1Size img))
    obtain ⟨c', hstart⟩ := blockStart_ok img mD hk' (by omega)
    have hcases : ∀ stosb (P : Machine δ ι → Prop),
      (64 < len.toNat → P (mB.cmpb (·.reg8 .al) (imm BLOCK_SIZE)).stc) →
        (len.toNat ≤ 64 → n < 64 * k + len.toNat → P mD.stc) →
        (len.toNat ≤ 64 → 64 * k + len.toNat ≤ n → P ((opened img m k len ph c' io).jcxz
          (receiveCurrentBlockWith.recvCrc img)
          (·.loopE (receiveCurrentBlockWith.recvLoop img stosb)
            (receiveCurrentBlockWith.recvCrc img)))) →
        P (receiveCurrentBlockWith img stosb m) := by
      intro stosb P hlong hfit hok
      rw [receiveCurrentBlockWith, e, jc_neg hcf, hstb]
      refine ja_cmpb_cases (fun hgt => hlong ?_) fun hle => ?_
      · have hgt' : 64 < (lo a).toNat := hgt
        rwa [hl] at hgt'
      have hle' : (lo a).toNat ≤ 64 := hle
      rw [hl] at hle'
      rw [blockEnd_ok img (mB.cmpb (·.reg8 .al) (imm BLOCK_SIZE)) hk' (by omega)]
      refine jc_cases (fun hc => ?_) fun _ => ?_
      · have hc' : 65536 ≤ 64 * k + (mem (blockLen img)).toNat := of_decide_eq_true hc
        rw [hlen] at hc'
        omega
      refine ja_cmp_cases (fun hgt => hfit hle' ?_) fun hle => ?_
      · rw [← hn', ← hbx hle']
        exact hgt
      · have hle₂ : 64 * k + len.toNat ≤ n := by
          rw [← hn', ← hbx hle']
          exact hle
        have hop : (mD |>.mov .ax (·.word (currentBlock img)) |>.mov .bx (imm BLOCK_SIZE) |>.mul .bx
            |>.add .ax (imm STAGE1_LOAD_OFF) |>.mov .di (·.ax) |>.xorw .cx (·.cx)
            |>.movb .cl (·.byte (blockLen img))) =
            opened img m k len ph c' io := by
          rw [hstart, show mD.mem (blockLen img) = len from hlen]
          rfl
        have := hok hle' hle₂
        rw [← hop] at this
        exact this
    by_cases h64 : len.toNat ≤ 64
    swap
    · exact .inl ⟨_, [len],
        fun stosb => hcases stosb (· = (mB.cmpb (·.reg8 .al) (imm BLOCK_SIZE)).stc) (fun _ => rfl)
        (fun h => absurd h h64) fun h => absurd h h64, rfl, rfl,
          fun w => ⟨rfl, rfl, rfl, rfl, rfl, hmem w, hd⟩,
        fun _ => .inl (hax ▸ not_le.mp h64)⟩
    by_cases hfit : 64 * k + len.toNat ≤ n
    · exact .inr ⟨len, ph, c', io,
        fun stosb => hcases stosb (· = _) (fun h => absurd h64 (not_le.mpr h))
        (fun _ h => absurd hfit (not_le.mpr h)) fun _ _ => rfl, h64, hfit, hd, a, z, e, hl⟩
    · exact .inl ⟨_, [len],
        fun stosb => hcases stosb (· = mD.stc) (fun h => absurd h64 (not_le.mpr h)) (fun _ _ => rfl)
        fun _ h => absurd h hfit, rfl, rfl, fun w => ⟨rfl, rfl, rfl, rfl, rfl, hmem w, hd⟩,
        fun _ => .inr (hax ▸ not_le.mp hfit)⟩

/-- `.recv_loop` from `o`, with `k` of `L` bytes to come. -/
def Filling (o : Machine δ ι) (L k : Nat) (m : Machine δ ι) : Prop := ∃ a w c z ph bs io,
  bs.length + k = L ∧ m = { o with
    ax := a, cx := w, di := o.di + BitVec.ofNat 16 bs.length, cf := c, zf := z
    mem := (o.mem.set (lastPhase img) ph).store o.di bs, got := o.got ++ bs, io := io } ∧
  Drives (linkPorts img o.mem) o.io io

section

variable {img} {o m : Machine δ ι} {L k : Nat}

theorem Filling.kept (h : Filling img o L k m) (hL : L ≤ 64) :
    Kept img ⟨o.di, L⟩ (temps img) o m ∧ ∃ bs, m.got = o.got ++ bs := by
  obtain ⟨a, w, c, z, ph, bs, io, hk, rfl, hd⟩ := h
  refine ⟨⟨rfl, rfl, rfl, rfl, rfl, ?_, hd⟩, bs, rfl⟩
  refine (temps_set img (.refl _ _) ph (by simp)).trans ((Frame.store _ _ _ (by omega)).widen
    fun r hr => ?_)
  rw [List.mem_singleton.mp hr]
  exact ⟨_, List.mem_cons_self, Region.sub_of_le (by rw [BitVec.sub_self]; simp; omega)⟩

theorem low_not_has {w : Region} (hw : Above w) {a : Word} (ha : a.toNat < 0x800) :
    ¬ w.Has a := fun h => by
  have := hw a h
  omega

theorem lastPhase_low (img : Image) : (lastPhase img).toNat < 0x800 := by
  cases img with
  | s0Xt => decide
  | s0AtPs2 aux => cases aux <;> decide

/-- One turn of `.recv_loop`: a byte at DI, or carry. -/
theorem recvLoop_step (hL : L ≤ 64) (ha : Above ⟨o.di, L⟩) (h : Filling img o L (k + 1) m) :
    (∃ m', (∀ stosb, receiveCurrentBlockWith.recvLoop img stosb m = .done m') ∧ m'.cf = true ∧
      Filling img o L (k + 1) m') ∨
    ∃ m', (∀ stosb, receiveCurrentBlockWith.recvLoop img stosb m = .next (stosb m')) ∧
      m'.cx = m.cx ∧
      m'.di = o.di + BitVec.ofNat 16 (L - (k + 1)) ∧ ∀ w,
        Filling img o L k { m'.stosb with cx := w } := by
  obtain ⟨b, c, z, ph', bs', io', e, hbs, hd'⟩ := recvByte_ok img m
  have hkept := (h.kept hL).1
  obtain ⟨a, w, c₀, z₀, ph, bs, io, hk, hm, hd⟩ := h
  have hlink : Drives (linkPorts img o.mem) o.io io' := by
    have := linkPorts_frame img ha (hkept.widen (.refl _) (temps_sub img)).mem
    rw [this] at hd'
    exact hkept.link.trans hd'
  have hsub : Region.Sub ⟨o.di, bs.length⟩ ⟨o.di, L⟩ :=
    Region.sub_of_le (by rw [BitVec.sub_self]; simp; omega)
  have hset : ((o.mem.set (lastPhase img) ph).store o.di bs).set (lastPhase img) ph' =
      (o.mem.set (lastPhase img) ph').store o.di bs := by
    rw [Mem.store_set_comm _ _ (by omega) (low_not_has (ha.sub hsub) (lastPhase_low img)),
      Mem.set_set]
  subst hm
  simp only [hset] at e
  let m' : Machine δ ι := { o with
    ax := b, cx := w, di := o.di + BitVec.ofNat 16 bs.length, cf := c, zf := z
    mem := (o.mem.set (lastPhase img) ph').store o.di bs, got := o.got ++ bs ++ bs', io := io' }
  cases c with
  | true =>
    have hcf : m'.cf = true := rfl
    refine .inl ⟨m', fun stosb => ?_, rfl, ?_⟩
    · rw [receiveCurrentBlockWith.recvLoop, e, jc_pos hcf]
      rfl
    · obtain rfl : bs' = [] := hbs
      exact ⟨b, w, true, z, ph', bs, io', hk, by simp only [m', List.append_nil], hlink⟩
  | false =>
    have hcf : m'.cf = false := rfl
    obtain rfl : bs' = [lo b] := hbs
    refine .inr ⟨m', fun stosb => ?_, rfl, ?_, fun w' => ?_⟩
    · rw [receiveCurrentBlockWith.recvLoop, e, jc_neg hcf]
      rfl
    · show o.di + BitVec.ofNat 16 bs.length = _
      rw [show L - (k + 1) = bs.length by omega]
    · refine ⟨b, w', false, z, ph', bs ++ [lo b], io', ?_, ?_, hlink⟩
      · rw [List.length_append, List.length_singleton]
        omega
      · simp only [m', stosb, Mem.set_store _ _ rfl, add_ofNat_add_one, List.length_append,
          List.length_singleton, List.append_assoc]

end

omit [Ports ι] in
/-- `stosb` into an image of `n` bytes; `trap` outside it. -/
def guardedStosb (n : Nat) (trap : Machine δ ι → Machine δ ι) (m : Machine δ ι) : Machine δ ι :=
  if STAGE1_LOAD_OFF.toNat ≤ m.di.toNat ∧ m.di.toNat < STAGE1_LOAD_OFF.toNat + n then m.stosb
  else trap m

theorem filling_start (o : Machine δ ι) (L : Nat) : Filling img o L L o := by
  refine ⟨o.ax, o.cx, o.cf, o.zf, o.mem (lastPhase img), [], o.io, Nat.zero_add L, ?_, .refl⟩
  rw [Mem.set_eq_self, List.append_nil,
    show o.di + BitVec.ofNat 16 [].length = o.di from BitVec.add_zero _]
  rfl

/-- Where byte `i` of a block goes. -/
theorem toNat_offset {k i : Nat} (h : 64 * k + i + 0x800 < 65536) :
    (offset k + BitVec.ofNat 16 i).toNat = 0x800 + 64 * k + i := by
  rw [offset, BitVec.toNat_add, BitVec.toNat_add, toNat_ofNat16 (by omega),
    toNat_ofNat16 (by omega)]
  show ((0x800 + 64 * k) % 65536 + i) % 65536 = _
  omega

/-- A block that fits lies in its place. -/
theorem sub_piece {n k L : Nat} (hL : L ≤ 64) (hfit : 64 * k + L ≤ n) :
    Region.Sub ⟨offset k, L⟩ (piece n k) := by
  refine Region.sub_of_le ?_
  rw [BitVec.sub_self]
  show 0 + L ≤ min 64 (n - 64 * k)
  omega

theorem receive_guarded (trap : Machine δ ι → Machine δ ι) (m : Machine δ ι) {k n : Nat}
    (hk : (m.mem.word (currentBlock img)).toNat = k) (hn : (m.mem.word (stage1Size img)).toNat = n)
    (hle : n ≤ 50000)
    (hlt : 64 * k < n) :
    receiveCurrentBlockWith img (guardedStosb n trap) m = receiveCurrentBlock img m := by
  rcases receive_open img m hk hn (by omega) with
    ⟨m', bs, hrun, -⟩ | ⟨len, ph, c, io, hrun, hlen, hfit, -⟩
  · rw [receiveCurrentBlock, hrun, hrun]
  rw [receiveCurrentBlock, hrun, hrun]
  let o := opened img m k len ph c io
  show o.jcxz _ _ = o.jcxz _ _
  by_cases h0 : o.cx = 0
  · rw [jcxz_pos h0, jcxz_pos h0]
  rw [jcxz_neg h0, jcxz_neg h0]
  have ha : Above ⟨o.di, len.toNat⟩ :=
    (window_above hle).sub fun x hx => piece_sub_window hle x (sub_piece hlen hfit x hx)
  have hcx : o.cx = BitVec.ofNat 16 len.toNat := BitVec.eq_of_toNat_eq (by
    rw [show o.cx.toNat = len.toNat from toNat_byteWord len, toNat_ofNat16 (by omega)])
  have hpos : 0 < len.toNat := (toNat_byteWord len).symm ▸ toNat_pos_of_ne h0
  refine loopE_congr (fun j m' => Filling img o len.toNat j m')
    (fun j m' hI _ => ?_) (fun j m' m'' hI _ hs => ?_) hpos (filling_start img o len.toNat) hcx
  · rcases recvLoop_step hlen ha hI with ⟨m₁, e, -⟩ | ⟨m₁, e, -, hdi, -⟩
    · rw [e, e]
    · have hat : m₁.di.toNat = 0x800 + 64 * k + (len.toNat - (j + 1)) := by
        rw [hdi]
        exact toNat_offset (by omega)
      have hj : j + 1 ≤ len.toNat := by
        obtain ⟨-, -, -, -, -, bs, -, hl, -⟩ := hI
        omega
      rw [e, e, guardedStosb, if_pos]
      rw [hat]
      show 0x800 ≤ _ ∧ _ < 0x800 + n
      omega
  · rcases recvLoop_step hlen ha hI with ⟨m₁, e, -⟩ | ⟨m₁, e, hcx, hdi, hf⟩
    · rw [e] at hs
      cases hs
    · rw [e] at hs
      obtain rfl := Flow.next.inj hs
      exact ⟨hcx, hf _⟩

/-- What `receive_current_block` leaves of block `k` of an image of `n` bytes;
without carry, the block as the peer sent it: its length, its bytes, and the
two bytes of a CRC. -/
structure BlockReceived (n k : Nat) (m m' : Machine δ ι) : Prop where
  kept : Kept img (piece n k) (temps img) m m'
  got : ∃ bs, m'.got = m.got ++ bs
  ok : m'.cf = false → ∃ (len : Byte) (data crc : List Byte), data.length = len.toNat ∧
    len.toNat ≤ 64 ∧ 64 * k + len.toNat ≤ n ∧
    crc.length = 2 ∧ m'.got = m.got ++ (len :: data ++ crc) ∧
    m'.mem.bytes (offset k) len.toNat = data ∧ m'.mem (blockLen img) = len

/-- The variables of `receive_current_block` lie apart, below the image. -/
theorem temps_apart :
    (∀ x ∈ [lastPhase img, blockCrcRecv img, blockCrcRecv img + 1, blockLen img], x.toNat < 0x800) ∧
    ∀ x ∈ [lastPhase img, blockCrcRecv img, blockCrcRecv img + 1], blockLen img ≠ x := by
  rw [← List.forall_iff_forall_mem, ← List.forall_iff_forall_mem]
  cases img with
  | s0Xt => decide +kernel
  | s0AtPs2 aux => cases aux <;> decide +kernel

theorem bytes_set_low {mem : Mem} {w x : Word} {L : Nat} (ha : Above ⟨w, L⟩) (hL : L ≤ 65536)
    (hx : x.toNat < 0x800) (b : Byte) : (mem.set x b).bytes w L = mem.bytes w L :=
  Mem.bytes_congr fun _ hi => Mem.set_of_ne _ _ fun e => low_not_has ha hx
    (e ▸ Region.has_ofNat w hi hL)

/-- `.recv_crc` after `L` bytes received. -/
theorem recvCrc_ok {o m : Machine δ ι} {L : Nat} (hL : L ≤ 64) (ha : Above ⟨o.di, L⟩)
    (h : Filling img o L 0 m) :
      Kept img ⟨o.di, L⟩ (temps img) o (receiveCurrentBlockWith.recvCrc img m) ∧ ∃ data crc,
        data.length = L ∧
      (receiveCurrentBlockWith.recvCrc img m).got = o.got ++ (data ++ crc) ∧
      ((receiveCurrentBlockWith.recvCrc img m).cf = false → crc.length = 2 ∧
        (receiveCurrentBlockWith.recvCrc img m).mem.bytes o.di L = data ∧
        (receiveCurrentBlockWith.recvCrc img m).mem (blockLen img) = o.mem (blockLen img)) := by
  have hkept := (h.kept hL).1
  obtain ⟨a, w, c, z, ph, bs, io, hk, hm, -⟩ := h
  obtain ⟨a', c', z', ph', crc, io', e, hcrc, hd⟩ := recvU16_ok img m
  obtain ⟨hlow, hne⟩ := temps_apart img
  obtain rfl : bs.length = L := hk
  rw [linkPorts_frame img ha (hkept.widen (.refl _) (temps_sub img)).mem] at hd
  have hmem : Frame (⟨o.di, bs.length⟩ :: temps img) o.mem (m.mem.set (lastPhase img) ph') :=
    temps_set img hkept.mem ph' (by simp)
  have hgot : m.got ++ crc = o.got ++ (bs ++ crc) := by rw [hm, List.append_assoc]
  have hkept' : ∀ mem', Frame (⟨o.di, bs.length⟩ :: temps img) o.mem mem' → ∀ a c z,
    Kept img ⟨o.di, bs.length⟩ (temps img) o
      { m with ax := a, cf := c, zf := z, mem := mem', got := m.got ++ crc, io := io' } :=
      fun mem' hf a c z =>
    ⟨hkept.cs, hkept.ds, hkept.es, hkept.stk, hkept.dos, hf, hkept.link.trans hd⟩
  rw [receiveCurrentBlockWith.recvCrc, e]
  cases c' with
  | true => exact ⟨hkept' _ hmem _ _ _, bs, crc, rfl, hgot, (Bool.noConfusion ·)⟩
  | false =>
    refine ⟨hkept' _ (temps_set img (temps_set img hmem (lo a') (by simp)) (hi a') (by simp)) _ _ _,
      bs, crc, rfl, hgot, fun _ => ⟨hcrc rfl, ?_, ?_⟩⟩
    · show (((m.mem.set (lastPhase img) ph').set (blockCrcRecv img) (lo a')).set
        (blockCrcRecv img + 1) (hi a')).bytes o.di bs.length = bs
      rw [bytes_set_low ha (by omega) (hlow _ (by simp)),
        bytes_set_low ha (by omega) (hlow _ (by simp)),
        bytes_set_low ha (by omega) (hlow _ (by simp)), hm]
      exact Mem.bytes_store _ _ _ (by omega)
    · show (((m.mem.set (lastPhase img) ph').set (blockCrcRecv img) (lo a')).set
        (blockCrcRecv img + 1) (hi a')) (blockLen img) = o.mem (blockLen img)
      rw [Mem.set_of_ne _ _ (hne _ (by simp)), Mem.set_of_ne _ _ (hne _ (by simp)),
        Mem.set_of_ne _ _ (hne _ (by simp)), hm]
      show ((o.mem.set (lastPhase img) ph).store o.di bs) (blockLen img) = _
      rw [Mem.store_of_not_has _ (by omega) (low_not_has ha (hlow _ (by simp))),
        Mem.set_of_ne _ _ (hne _ (by simp))]

theorem receive_ok (m : Machine δ ι) {k n : Nat} (hk : (m.mem.word (currentBlock img)).toNat = k)
    (hn : (m.mem.word (stage1Size img)).toNat = n) (hle : n ≤ 50000) (hlt : 64 * k < n) :
    BlockReceived img n k m (receiveCurrentBlock img m) := by
  rcases receive_open img m hk hn (by omega) with
    ⟨m', bs, hrun, hcf, hgot, hkept, -⟩ | ⟨len, ph, c, io, hrun, hlen, hfit, hd, -⟩
  · rw [receiveCurrentBlock, hrun]
    exact ⟨hkept _, ⟨bs, hgot⟩, fun h => absurd (hcf.symm.trans h) (by decide)⟩
  let o := opened img m k len ph c io
  have hsub : Region.Sub ⟨o.di, len.toNat⟩ (piece n k) := sub_piece hlen hfit
  have habove : Above (piece n k) := (window_above hle).sub (piece_sub_window hle)
  have ha : Above ⟨o.di, len.toNat⟩ := habove.sub hsub
  have hopen : Kept img (piece n k) (temps img) m o :=
    ⟨rfl, rfl, rfl, rfl, rfl, temps_set img (temps_set img (.refl _ _) ph (by simp)) len
      (by simp), hd⟩
  have hlenv : o.mem (blockLen img) = len := Mem.set_self _ _ _
  have hcrc : ∀ m', Filling img o len.toNat 0 m' →
      BlockReceived img n k m (receiveCurrentBlockWith.recvCrc img m') := by
    intro m' hf
    obtain ⟨hkept, data, crc, hl, hgot, hok⟩ := recvCrc_ok img hlen ha hf
    refine ⟨hopen.trans habove (temps_sub img) (hkept.widen hsub fun _ h => h),
      ⟨len :: data ++ crc, ?_⟩, fun h => ?_⟩
    · rw [hgot]
      show m.got ++ [len] ++ (data ++ crc) = _
      simp only [List.append_assoc, List.cons_append, List.nil_append]
    · obtain ⟨hc, hb, hlv⟩ := hok h
      refine ⟨len, data, crc, hl, hlen, hfit, hc, ?_, hb, hlv.trans hlenv⟩
      rw [hgot]
      show m.got ++ [len] ++ (data ++ crc) = _
      simp only [List.append_assoc, List.cons_append, List.nil_append]
  rw [receiveCurrentBlock, hrun]
  show BlockReceived img n k m (o.jcxz _ _)
  by_cases h0 : o.cx = 0
  · rw [jcxz_pos h0]
    have hl0 : len.toNat = 0 := (toNat_byteWord len).symm.trans (congrArg BitVec.toNat h0)
    exact hcrc o (hl0 ▸ filling_start img o 0)
  rw [jcxz_neg h0]
  have hcx : o.cx = BitVec.ofNat 16 len.toNat := BitVec.eq_of_toNat_eq (by
    rw [show o.cx.toNat = len.toNat from toNat_byteWord len, toNat_ofNat16 (by omega)])
  have hpos : 0 < len.toNat := (toNat_byteWord len).symm ▸ toNat_pos_of_ne h0
  refine loopE_rule (fun j m' => Filling img o len.toNat j m') (BlockReceived img n k m)
    (fun j m' hI _ => ?_) (fun m' hI _ => hcrc m' hI) hpos (by omega)
      (filling_start img o len.toNat) hcx
  rcases recvLoop_step hlen ha hI with ⟨m₁, e, hcf, hf⟩ | ⟨m₁, e, hcx, -, hf⟩
  · rw [e]
    obtain ⟨hkept, bs, hgot⟩ := hf.kept hlen
    refine ⟨hopen.trans habove (temps_sub img) (hkept.widen hsub fun _ h => h),
      ⟨[len] ++ bs, ?_⟩, fun h =>
      absurd (hcf.symm.trans h) (by decide)⟩
    rw [hgot]
    exact List.append_assoc _ _ _
  · rw [e]
    exact ⟨hcx, hf _⟩

end VintageKvm.Stage0
