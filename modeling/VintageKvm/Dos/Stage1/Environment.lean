import VintageKvm.Dos.Stage1.Exec
import VintageKvm.Lib.Text

/-!
# Stage 1: the environment of Stage 2

What `build_environment` stores at `ENV_BUF_OFF` (`buildEnvironment_ok`): the
one variable `PICO_BOOT`, the end of the list, and the program's path. `Emits`
is what a routine that stores at ES:DI does; `readBoot` is what Stage 2 is
promised to read, and it reads what Stage 1 knows (`environment_read`).
-/

namespace VintageKvm.Stage1

open I8086 Machine Dos

variable {ι : Type} {bs cs : List Byte} {m m' m₁ m₂ : Machine DosState ι}

/-! ## Storing at ES:DI -/

/-- `bs` was stored at DI; AX, SI and the flags are not kept. -/
def Emits (bs : List Byte) (m m' : Machine DosState ι) : Prop := ∃ a s c z, m' = { m with
  ax := a, si := s, di := m.di + BitVec.ofNat 16 bs.length, cf := c, zf := z,
  mem := m.mem.store m.di bs }

namespace Emits

theorem refl (m : Machine DosState ι) : Emits [] m m :=
  ⟨m.ax, m.si, m.cf, m.zf, by rw [List.length_nil, BitVec.add_zero]; rfl⟩

theorem trans (h₁ : Emits bs m m₁) (h₂ : Emits cs m₁ m₂) : Emits (bs ++ cs) m m₂ := by
  obtain ⟨a₁, s₁, c₁, z₁, rfl⟩ := h₁
  obtain ⟨a, s, c, z, rfl⟩ := h₂
  refine ⟨a, s, c, z, ?_⟩
  rw [Mem.store_append, List.length_append, BitVec.ofNat_add, BitVec.add_assoc]

/-- Other values in AX, SI and the flags. -/
theorem regs (h : Emits bs m m₁) (a s : Word) (c z : Bool) :
    Emits bs m { m₁ with ax := a, si := s, cf := c, zf := z } := by
  obtain ⟨a₁, s₁, c₁, z₁, rfl⟩ := h
  exact ⟨a, s, c, z, rfl⟩

theorem stosb (h : Emits bs m m₁) {b : Byte} (hb : lo m₁.ax = b) :
    Emits (bs ++ [b]) m m₁.stosb := by
  refine h.trans ⟨m₁.ax, m₁.si, m₁.cf, m₁.zf, ?_⟩
  rw [← hb]
  rfl

/-- AX saved on the stack. -/
theorem pop {v : Machine DosState ι → Word} (h : Emits bs (m.push v) m₁) :
    Emits bs m (m₁.pop .ax) ∧ (m₁.pop .ax).ax = v m := by
  obtain ⟨a, s, c, z, rfl⟩ := h
  exact ⟨⟨_, _, _, _, rfl⟩, rfl⟩

/-- ES given back. -/
theorem popEs {d : Word} (h : Emits bs { m with es := m.cs, stk := m.es :: m.stk, di := d } m₁) :
    ∃ a s d' c z, m₁.popEs = { m with
    ax := a, si := s, di := d', cf := c, zf := z, mem := m.mem.store d bs } := by
  obtain ⟨a, s, c, z, rfl⟩ := h
  exact ⟨a, s, _, c, z, rfl⟩

theorem stosw (h : Emits bs m m₁) : Emits (bs ++ [lo m₁.ax, hi m₁.ax]) m m₁.stosw := by
  refine h.trans ⟨m₁.ax, m₁.si, m₁.cf, m₁.zf, ?_⟩
  rfl

end Emits

/-- A string of the image: where it lies and its text. -/
structure Asciiz (mem : Mem) (a : Word) (s : List Byte) : Prop where
  bytes : mem.bytes a (s.length + 1) = s ++ [0]
  ended : (0 : Byte) ∉ s

theorem Asciiz.head {mem : Mem} {a : Word} {b : Byte} {s : List Byte} (h : Asciiz mem a (b :: s)) :
    mem a = b ∧ b ≠ 0 :=
  ⟨(List.cons.inj h.bytes).1, fun hb => h.ended (hb ▸ List.mem_cons_self)⟩

/-- One turn of `emit_str.loop`. -/
def emitTurn (m : Machine DosState ι) : Flow (Machine DosState ι) (Machine DosState ι) :=
  m |>.lodsb |>.orb .al (·.reg8 .al) |>.jz .done (.next ∘ stosb)

/-- The turns for a string that lies below DI. -/
theorem emitTurns_emit (s : List Byte) :
    ∀ (n : Nat) (m : Machine DosState ι), s.length < n → Asciiz m.mem m.si s →
    m.si.toNat + s.length < m.di.toNat → m.di.toNat + s.length < 65536 →
    Emits s m (iter emitTurn id n m) := by
  induction s with
  | nil =>
    intro n m hn h _ _
    obtain ⟨n, rfl⟩ := Nat.exists_eq_succ_of_ne_zero (Nat.ne_of_gt hn)
    have h0 : m.mem m.si = 0 := (List.cons.inj h.bytes).1
    let m₁ : Machine DosState ι := m |>.lodsb |>.orb .al (·.reg8 .al)
    have hz : m₁.zf = true := by
      simp only [m₁, lodsb, orb, setReg8, reg8, lo_ofBytes, h0, BitVec.or_self, decide_true]
    have e : emitTurn m = .done m₁ := jz_pos hz
    rw [iter_done e]
    exact (Emits.refl m).regs _ _ _ _
  | cons b s ih =>
    intro n m hn h hap hend
    obtain ⟨n, rfl⟩ :=
      Nat.exists_eq_succ_of_ne_zero (Nat.ne_of_gt (Nat.lt_of_le_of_lt (Nat.zero_le _) hn))
    rw [List.length_cons] at hn hap hend
    obtain ⟨hb, hne⟩ := h.head
    let m₁ : Machine DosState ι := m |>.lodsb |>.orb .al (·.reg8 .al)
    have hal : lo m₁.ax = b := by
      simp only [m₁, lodsb, orb, setReg8, reg8, lo_ofBytes, hb, BitVec.or_self]
    have hz : m₁.zf = false := by
      simp only [m₁, lodsb, orb, setReg8, reg8, lo_ofBytes, hb, BitVec.or_self, hne, decide_false]
    have h₁ : Emits [b] m m₁.stosb := ((Emits.refl m).regs _ _ _ _).stosb hal
    have hsi : m₁.stosb.si.toNat = m.si.toNat + 1 := by
      show (m.si + 1).toNat = _
      bv_omega
    have hdi : m₁.stosb.di.toNat = m.di.toNat + 1 := by
      show (m.di + 1).toNat = _
      bv_omega
    have e : emitTurn m = .next m₁.stosb := jz_neg hz
    rw [iter_next e]
    refine h₁.trans (ih n _ (by omega) ?_ (by omega) (by omega))
    -- the rest of the string is below the byte stored
    have hmem : m₁.stosb.mem = m.mem.set m.di b := congrArg (m.mem.set m.di) hal
    rw [show m₁.stosb.si = m.si + 1 from rfl, hmem]
    refine ⟨?_, fun h0 => h.ended (List.mem_cons_of_mem _ h0)⟩
    refine Eq.trans (Mem.bytes_congr fun i hi => Mem.set_of_ne _ _ fun he => ?_)
      (List.cons.inj h.bytes).2
    have hn := congrArg BitVec.toNat he
    rw [BitVec.toNat_add, BitVec.toNat_ofNat, show (m.si + 1).toNat = m.si.toNat + 1 from hsi] at hn
    omega

/-- `emit_str`. -/
theorem emitStr_emits {s : List Byte} (h : Asciiz m.mem m.si s)
    (hap : m.si.toNat + s.length < m.di.toNat)
    (hend : m.di.toNat + s.length < 65536) : Emits s m (emitStr m) :=
  emitTurns_emit s 65536 m (by omega) h hap hend

/-! ## Numbers -/

/-- A digit of a number in hexadecimal. -/
def hexChar (d : Nat) : Char := d.digitChar.toUpper

/-- What `emit_hex16` writes. -/
def hex16 (w : Word) : Text :=
  [hexChar (w.toNat / 4096), hexChar (w.toNat / 256 % 16), hexChar (w.toNat / 16 % 16),
    hexChar (w.toNat % 16)]

theorem hexChar_ok : ∀ d < 16, BitVec.ofNat 8 (hexChar d).toNat =
    (if d < 10 then BitVec.ofNat 8 d + 0x30 else BitVec.ofNat 8 d + 0x37) ∧
    (hexChar d).toNat < 128 ∧ Text.digit 16 (hexChar d) = some d := by
  decide

/-- The byte of a character. -/
def ascii (c : Char) : Byte := BitVec.ofNat 8 c.toNat

/-- `emit_hex_digit`, AH kept. -/
theorem emitHexDigit_emits (m : Machine DosState ι) :
    Emits [ascii (hexChar ((lo m.ax).toNat % 16))] m (emitHexDigit m) ∧
    hi (emitHexDigit m).ax = hi m.ax := by
  let m₁ : Machine DosState ι := m |>.andb .al (imm 0x0F) |>.cmpb (·.reg8 .al) (imm 10)
  have hd : (lo m.ax &&& 0x0F).toNat = (lo m.ax).toNat % 16 := by
    rw [BitVec.toNat_and]
    exact Nat.and_two_pow_sub_one_eq_mod _ 4
  have hal : lo m₁.ax = BitVec.ofNat 8 ((lo m.ax).toNat % 16) := by
    rw [← hd, BitVec.ofNat_toNat, BitVec.setWidth_eq]
    exact lo_ofBytes _ _
  have hcf : m₁.cf = decide ((lo m.ax).toNat % 16 < 10) := by
    simp only [m₁, andb, cmpb, setReg8, reg8, imm, lo_ofBytes, hd]
    rfl
  have hadd : ∀ b : Byte, Emits [lo m₁.ax + b] m (m₁.addb .al (imm b)).stosb ∧
      hi (m₁.addb .al (imm b)).stosb.ax = hi m.ax := fun b =>
    ⟨((Emits.refl m).regs _ _ _ _).stosb (lo_ofBytes _ _), (hi_ofBytes _ _).trans (hi_ofBytes _ _)⟩
  obtain ⟨hc, -, -⟩ := hexChar_ok ((lo m.ax).toNat % 16) (Nat.mod_lt _ (by decide))
  rw [ascii, hc, ← hal]
  show Emits _ m (m₁.jc (·.addb .al (imm 0x30)) (·.addb .al (imm (0x41 - 10)))).stosb ∧
    hi (m₁.jc (·.addb .al (imm 0x30)) (·.addb .al (imm (0x41 - 10)))).stosb.ax = _
  by_cases h : (lo m.ax).toNat % 16 < 10
  · rw [if_pos h, jc_pos (hcf.trans (decide_eq_true h))]
    exact hadd 0x30
  · rw [if_neg h, jc_neg (hcf.trans (decide_eq_false h))]
    exact hadd (0x41 - 10)

/-- `emit_hex8`, AX kept. -/
theorem emitHex8_emits (m : Machine DosState ι) :
    Emits [ascii (hexChar ((lo m.ax).toNat / 16)), ascii (hexChar ((lo m.ax).toNat % 16))] m
      (emitHex8 m) ∧
    (emitHex8 m).ax = m.ax := by
  let m₁ : Machine DosState ι := m |>.push (·.ax) |>.movb .ah (·.reg8 .al) |>.shrb .al 4
  let m₂ : Machine DosState ι := emitHexDigit m₁ |>.movb .al (·.reg8 .ah) |>.andb .al (imm 0x0F)
  have hlt := (lo m.ax).isLt
  have hal₁ : (lo m₁.ax).toNat % 16 = (lo m.ax).toNat / 16 := by
    have hlo : lo m₁.ax = lo m.ax >>> 4 := by
      simp only [m₁, push, movb, shrb, setReg8, reg8, lo_ofBytes]
    rw [hlo, BitVec.toNat_ushiftRight, Nat.shiftRight_eq_div_pow]
    omega
  have hah₁ : hi m₁.ax = lo m.ax := (hi_ofBytes _ _).trans (hi_ofBytes _ _)
  obtain ⟨h₁, hhi⟩ := emitHexDigit_emits m₁
  have hal₂ : (lo m₂.ax).toNat % 16 = (lo m.ax).toNat % 16 := by
    have hlo : lo m₂.ax = lo m.ax &&& 0x0F := by
      simp only [m₂, movb, andb, setReg8, reg8, imm, lo_ofBytes, hhi, hah₁]
    rw [hlo, BitVec.toNat_and, show (0x0F : Byte).toNat = 2 ^ 4 - 1 from rfl,
      Nat.and_two_pow_sub_one_eq_mod]
    omega
  obtain ⟨h₂, -⟩ := emitHexDigit_emits m₂
  rw [hal₁] at h₁
  rw [hal₂] at h₂
  have hpush : Emits [] (m.push (·.ax)) m₁ := (Emits.refl _).regs _ _ _ _
  exact ((hpush.trans h₁).regs _ _ _ _ |>.trans h₂).pop

theorem emitHex16_emits (m : Machine DosState ι) :
    Emits ((hex16 m.ax).map ascii) m (emitHex16 m) := by
  let m₁ : Machine DosState ι := m |>.push (·.ax) |>.movb .al (·.reg8 .ah)
  have hal : lo m₁.ax = hi m.ax := lo_ofBytes _ _
  obtain ⟨h₁, -⟩ := emitHex8_emits m₁
  have hpush : Emits [] (m.push (·.ax)) m₁ := (Emits.refl _).regs _ _ _ _
  obtain ⟨h₂, hax⟩ := (hpush.trans h₁).pop
  obtain ⟨h₃, -⟩ := emitHex8_emits ((emitHex8 m₁).pop .ax)
  rw [hax] at h₃
  have h := h₂.trans h₃
  rw [hal, toNat_hi, toNat_lo] at h
  have hw := m.ax.isLt
  rwa [Nat.div_div_eq_div_mul, show m.ax.toNat % 256 / 16 = m.ax.toNat / 16 % 16 by omega,
    show m.ax.toNat % 256 % 16 = m.ax.toNat % 16 by omega] at h

/-- A digit on the stack, as it is stored. -/
def digitByte (w : Word) : Byte := lo w + 0x30

/-- A turn of `.divloop`: the last digit is pushed. -/
theorem divLoop_digit (m : Machine DosState ι) (hbx : m.bx = 10) : divLoop m = { m with
    ax := BitVec.ofNat 16 (m.ax.toNat / 10), cx := m.cx + 1,
    dx := BitVec.ofNat 16 (m.ax.toNat % 10), cf := false
    zf := decide (m.ax.toNat / 10 = 0), stk := BitVec.ofNat 16 (m.ax.toNat % 10) :: m.stk } := by
  have ha := m.ax.isLt
  have hq : loW (ofWords 0#16 m.ax / (10 : Word).setWidth 32) =
      BitVec.ofNat 16 (m.ax.toNat / 10) := by
    apply BitVec.eq_of_toNat_eq
    refine (toNat_div10 m.ax).trans ?_
    rw [BitVec.toNat_ofNat]
    omega
  have hr : loW (ofWords 0#16 m.ax % (10 : Word).setWidth 32) =
      BitVec.ofNat 16 (m.ax.toNat % 10) := by
    apply BitVec.eq_of_toNat_eq
    rw [toNat_loW, BitVec.toNat_umod, toNat_ofWords, BitVec.toNat_ofNat]
    simp
  have hz : (BitVec.ofNat 16 (m.ax.toNat / 10) = 0) ↔ m.ax.toNat / 10 = 0 := by
    rw [← BitVec.toNat_inj, BitVec.toNat_ofNat]
    show _ = 0 ↔ _
    omega
  simp only [divLoop, xorw, div, push, inc, orw, reg, setReg, hbx, BitVec.xor_self,
    BitVec.or_self, hq, hr, hz]

theorem decimal_append {n : Nat} (h : n / 10 ≠ 0) :
    Text.decimal n = Text.decimal (n / 10) ++ [Nat.digitChar (n % 10)] :=
  Nat.toDigits_of_base_le (by decide) (by omega)

theorem decimal_lt {n : Nat} (h : n / 10 = 0) : Text.decimal n = [Nat.digitChar (n % 10)] := by
  rw [Nat.mod_eq_of_lt (by omega)]
  exact Nat.toDigits_of_lt_base (by omega)

theorem digitByte_ok {n : Nat} :
    digitByte (BitVec.ofNat 16 (n % 10)) = ascii (Nat.digitChar (n % 10)) := by
  have hall : ∀ d < 10, digitByte (BitVec.ofNat 16 d) = ascii (Nat.digitChar d) := by decide
  exact hall _ (Nat.mod_lt _ (by decide))

/-- `.divloop`: the digits are pushed, their number in CX. -/
theorem divLoops_digits (m : Machine DosState ι) (hbx : m.bx = 10) (hcx : m.cx = 0) : ∃ a d c z ds,
    ds.map digitByte = (Text.decimal m.ax.toNat).map ascii ∧ ds.length ≤ 65536 ∧ m.loopNz divLoop =
      { m with
        ax := a, cx := BitVec.ofNat 16 ds.length, dx := d, cf := c, zf := z,
        stk := ds ++ m.stk } := by
  let st (a d : Word) (c z : Bool) (ds : List Word) : Machine DosState ι :=
    { m with
      ax := a, cx := BitVec.ofNat 16 ds.length, dx := d, cf := c, zf := z, stk := ds ++ m.stk }
  have hturn (a d : Word) (c z : Bool) (ds : List Word) :
    divLoop (st a d c z ds) = st (BitVec.ofNat 16 (a.toNat / 10))
      (BitVec.ofNat 16 (a.toNat % 10)) false
        (decide (a.toNat / 10 = 0)) (BitVec.ofNat 16 (a.toNat % 10) :: ds) := by
    rw [divLoop_digit (st a d c z ds) hbx]
    simp only [st, List.length_cons, BitVec.ofNat_add, List.cons_append]
    rfl
  -- what is left in AX goes before the digits pushed so far
  let I : Machine DosState ι → Prop :=
    fun m' => ∃ a d c z ds, m' = st a d c z ds ∧ ds.length + a.toNat ≤ 65535 ∧
    (Text.decimal a.toNat).map ascii ++ ds.map digitByte = (Text.decimal m.ax.toNat).map ascii
  let Q : Machine DosState ι → Prop := fun m' => ∃ a d c z ds,
    ds.map digitByte = (Text.decimal m.ax.toNat).map ascii ∧ ds.length ≤ 65536 ∧ m' = st a d c z ds
  have hround : ∀ m', I m' → (divLoop m').zf = false → I (divLoop m') ∧
      (divLoop m').ax.toNat < m'.ax.toNat := by
    rintro m' ⟨a, d, c, z, ds, rfl, hle, hds⟩ hz
    rw [hturn] at hz ⊢
    have hne : a.toNat / 10 ≠ 0 := of_decide_eq_false hz
    have ha := a.isLt
    have hq : (BitVec.ofNat 16 (a.toNat / 10)).toNat = a.toNat / 10 := by
      rw [BitVec.toNat_ofNat]
      omega
    refine ⟨⟨_, _, _, _, _, rfl, ?_, ?_⟩, ?_⟩
    · rw [hq, List.length_cons]
      omega
    · rw [← hds, hq, decimal_append hne, List.map_append, List.map_cons, digitByte_ok,
        List.append_assoc]
      rfl
    · show (BitVec.ofNat 16 (a.toNat / 10)).toNat < a.toNat
      omega
  have hlast : ∀ m', I m' → (divLoop m').zf = true → Q (divLoop m') := by
    rintro m' ⟨a, d, c, z, ds, rfl, hle, hds⟩ hz
    rw [hturn] at hz ⊢
    have h0 : a.toNat / 10 = 0 := of_decide_eq_true hz
    refine ⟨_, _, _, _, _, ?_, ?_, rfl⟩
    · rw [← hds, decimal_lt h0, List.map_cons, digitByte_ok]
      rfl
    · rw [List.length_cons]
      omega
  have hax := m.ax.isLt
  refine loopNz_rank I Q (·.ax.toNat) hround hlast ⟨m.ax, m.dx, m.cf, m.zf, [], ?_, ?_,
    List.append_nil _⟩ hax
  · show m = st m.ax m.dx m.cf m.zf []
    simp only [st, List.length_nil, List.nil_append]
    rw [show BitVec.ofNat 16 0 = m.cx from hcx.symm]
  · rw [List.length_nil]
    omega

/-- `.emitloop`: the digits are popped and stored. -/
theorem emitLoops_digits (m : Machine DosState ι) {ds ws : List Word} (hne : ds ≠ [])
    (hle : ds.length ≤ 65536) (hcx : m.cx = BitVec.ofNat 16 ds.length) (hstk : m.stk = ds ++ ws) :
    Emits (ds.map digitByte) { m with cx := 0, stk := ws } (m.loop emitLoop) := by
  let st (done left : List Word) (a w : Word) (c z : Bool) : Machine DosState ι :=
    { m with
      ax := a, cx := w, di := m.di + BitVec.ofNat 16 done.length, cf := c, zf := z
      stk := left ++ ws, mem := m.mem.store m.di (done.map digitByte) }
  have hturn (done left : List Word) (d a w : Word) (c z : Bool) : ∃ a' c' z',
      emitLoop (st done (d :: left) a w c z) = st (done ++ [d]) left a' w c' z' := by
    refine ⟨ofBytes (hi d) (lo d + 0x30), decide (256 ≤ (lo d).toNat + (0x30 : Byte).toNat),
      decide (lo d + 0x30 = 0), ?_⟩
    have hmem : (m.mem.store m.di (done.map digitByte)).set (m.di + BitVec.ofNat 16 done.length)
      (digitByte d) =
        m.mem.store m.di ((done ++ [d]).map digitByte) := by
      rw [List.map_append, Mem.store_append, List.length_map]
      rfl
    have hdi :
        m.di + BitVec.ofNat 16 done.length + 1 = m.di + BitVec.ofNat 16 (done ++ [d]).length := by
      rw [List.length_append, BitVec.ofNat_add, BitVec.add_assoc]
      rfl
    simp only [emitLoop, st, pop, top, addb, reg8, setReg, setReg8, imm, stosb, lo_ofBytes,
      List.cons_append, List.headD_cons, List.tail_cons, ← hmem, ← hdi, digitByte]
    rfl
  let I : Nat → Machine DosState ι → Prop :=
    fun k m' => ∃ done left a w c z, m' = st done left a w c z ∧ done ++ left = ds ∧ left.length = k
  have hbody : ∀ k m', I (k + 1) m' → m'.cx = BitVec.ofNat 16 (k + 1) →
      (emitLoop m').cx = m'.cx ∧ I k { emitLoop m' with cx := BitVec.ofNat 16 k } := by
    rintro k m' ⟨done, left, a, w, c, z, rfl, hds, hk⟩ -
    obtain ⟨d, left, rfl⟩ := List.exists_cons_of_length_eq_add_one hk
    obtain ⟨a', c', z', e⟩ := hturn done left d a w c z
    rw [e]
    exact ⟨rfl, done ++ [d], left, a', BitVec.ofNat 16 k, c', z', rfl,
      by rw [← hds, List.append_assoc]; rfl, Nat.succ.inj hk⟩
  have h0 : I ds.length m := by
    refine ⟨[], ds, m.ax, m.cx, m.cf, m.zf, ?_, rfl, rfl⟩
    simp only [st, List.length_nil, BitVec.add_zero, ← hstk, List.map_nil]
    rfl
  obtain ⟨⟨done, left, a, w, c, z, e, hds, hk⟩, hz⟩ :=
    loop_rule I hbody (List.length_pos_of_ne_nil hne) hle h0 hcx
  obtain rfl := List.eq_nil_of_length_eq_zero hk
  obtain rfl : done = ds := (List.append_nil done).symm.trans hds
  rw [e] at hz ⊢
  obtain rfl : w = 0 := hz
  refine ⟨a, m.si, c, z, ?_⟩
  rw [List.length_map]
  rfl

/-- `emit_dec16`. -/
theorem emitDec16_emits (m : Machine DosState ι) :
    Emits ((Text.decimal m.ax.toNat).map ascii) m (emitDec16 m) := by
  let m₁ : Machine DosState ι := { m with
    bx := 10, cx := 0, cf := false, zf := true, stk := m.dx :: m.cx :: m.bx :: m.ax :: m.stk }
  have h₁ : (m |>.push (·.ax) |>.push (·.bx) |>.push (·.cx) |>.push (·.dx) |>.mov .bx (imm 10)
      |>.xorw .cx (·.cx)) = m₁ := by
    simp only [push, mov, xorw, reg, setReg, imm, BitVec.xor_self, m₁]
    rfl
  obtain ⟨a, d, c, z, ds, hds, hle, e⟩ := divLoops_digits m₁ rfl rfl
  have hne : ds ≠ [] := by
    rintro rfl
    exact Text.toDigits_ne_nil 10 _ (List.map_eq_nil_iff.mp hds.symm)
  obtain ⟨a', s', c', z', e'⟩ := emitLoops_digits { m₁ with
    ax := a, cx := BitVec.ofNat 16 ds.length, dx := d, cf := c, zf := z,
    stk := ds ++ m₁.stk } hne hle rfl rfl
  rw [emitDec16, h₁, e, e', hds]
  exact ⟨m.ax, s', c', z', rfl⟩

/-! ## The block -/

def prefixText : Text := "PICO_BOOT=LPT=".toList
def modeText : Text := " MODE=".toList
def chanText : Text := " CHAN=".toList
def verText : Text := " VER=".toList
def pathText : Text := "PICO1284.EXE".toList

/-- The strings of the image that are stored. -/
def strings : List (Word × Text) := [
  (envPrefixStr, prefixText), (envModeStr, modeText), (envChanStr, chanText),
  (envVerStr, verText), (strModeEcp, "ECP".toList), (strModeEpp, "EPP".toList),
  (strModeByte, "BYTE".toList), (strModeSpp, "SPP".toList),
  (strNegFailed, "NEG_FAILED".toList), (stage2Filename, pathText)]

/-- The strings are where they were assembled. -/
def Assembled (mem : Mem) : Prop :=
  ∀ p ∈ strings, mem.bytes p.1 (p.2.length + 1) = p.2.map ascii ++ [0]

instance (mem : Mem) : Decidable (Assembled mem) := inferInstanceAs (Decidable (∀ p ∈ strings, _))

/-- They lie below the block, which is of 128 bytes at most. -/
theorem strings_below : ∀ p ∈ strings, p.1.toNat + p.2.length < ENV_BUF_OFF.toNat ∧
    p.2.length + 1 ≤ (ENV_BUF_OFF - p.1).toNat ∧ 128 ≤ (p.1 - ENV_BUF_OFF).toNat ∧
    (0 : Byte) ∉ p.2.map ascii := by
  decide

/-- The name of a mode. -/
def modeName (mode : Byte) : Word × Text :=
  if mode = NEG_MODE_ECP then (strModeEcp, "ECP".toList)
  else if mode = NEG_MODE_EPP then (strModeEpp, "EPP".toList)
  else if mode = NEG_MODE_BYTE then (strModeByte, "BYTE".toList)
  else if mode = NEG_MODE_SPP then (strModeSpp, "SPP".toList)
  else (strNegFailed, "NEG_FAILED".toList)

/-- What Stage 2 is told. -/
structure Boot where
  base : Word
  mode : Byte
  chan : Word
  major : Byte
  minor : Byte

/-- The variable and its value. -/
def Boot.text (b : Boot) : Text :=
  prefixText ++ hex16 b.base ++ modeText ++ (modeName b.mode).2 ++ chanText ++
  Text.decimal b.chan.toNat ++ verText ++ Text.decimal b.major.toNat ++ '.' ::
  Text.decimal b.minor.toNat

/-- The block: the variable, the empty string, and one path. -/
def Boot.block (b : Boot) : List Byte :=
  b.text.map ascii ++ [0, 0, 1, 0] ++ pathText.map ascii ++ [0]

/-- What the variables of Stage 1 say. -/
def bootOf (mem : Mem) : Boot :=
  ⟨mem.word savedBx, mem negotiatedMode, mem.word savedDx, mem picoVersionMajor,
    mem picoVersionMinor⟩

/-- The block has come to `bs`, at most `k` bytes. -/
structure Building (m₀ : Machine DosState ι) (k : Nat) (bs : List Byte) (m : Machine DosState ι) :
    Prop where
  emits : Emits bs m₀ m
  le : bs.length ≤ k
  fits : k < 128

namespace Building

variable {m₀ : Machine DosState ι} {k : Nat}

/-- Other values in AX, SI and the flags. -/
theorem regs (h : Building m₀ k bs m) (a s : Word) (c z : Bool) :
    Building m₀ k bs { m with ax := a, si := s, cf := c, zf := z } :=
  ⟨h.emits.regs a s c z, h.le, h.fits⟩

theorem di (h : Building m₀ k bs m) (hdi : m₀.di = ENV_BUF_OFF) :
    m.di = ENV_BUF_OFF + BitVec.ofNat 16 bs.length := by
  obtain ⟨⟨a, s, c, z, rfl⟩, -, -⟩ := h
  rw [hdi]

/-- All of the block. -/
theorem all (h : Building m₀ k bs m) (cs : List Byte) (e : bs = cs) : Emits cs m₀ m := e ▸ h.emits

/-- Only the block has changed. -/
theorem frame (h : Building m₀ k bs m) (hdi : m₀.di = ENV_BUF_OFF) :
    Frame [⟨ENV_BUF_OFF, 128⟩] m₀.mem m.mem := by
  obtain ⟨⟨a, s, c, z, rfl⟩, hle, hfits⟩ := h
  rw [← hdi]
  refine (Frame.store m₀.mem m₀.di bs (by omega)).widen
    fun r hr => ⟨_, List.mem_singleton_self _, ?_⟩
  rw [List.mem_singleton.mp hr]
  exact Region.sub_of_le (by simp only [BitVec.sub_self]; show 0 + _ ≤ _; omega)

/-- A routine that stores so many bytes at most. -/
theorem emit (h : Building m₀ k bs m) {n : Nat} (he : Emits cs m m') (hn : cs.length ≤ n)
    (hk : k + n < 128) : Building m₀ (k + n) (bs ++ cs) m' :=
  ⟨h.emits.trans he, by rw [List.length_append]; exact Nat.add_le_add h.le hn, hk⟩

/-- A string of the image. -/
theorem str (h : Building m₀ k bs m) (hdi : m₀.di = ENV_BUF_OFF) (ha : Assembled m₀.mem)
    {p : Word × Text} (hp : p ∈ strings) {n : Nat} (hl : p.2.length ≤ n) (hk : k + n < 128) :
    Building m₀ (k + n) (bs ++ p.2.map ascii) (emitStr (m.mov .si (imm p.1))) := by
  obtain ⟨hbelow, h₁, h₂, h0⟩ := strings_below p hp
  have hd : m.di.toNat = ENV_BUF_OFF.toNat + bs.length := by
    have hle := h.le
    rw [h.di hdi, BitVec.toNat_add, BitVec.toNat_ofNat, show ENV_BUF_OFF.toNat = 0x2800 from rfl]
    omega
  have hbytes : m.mem.bytes p.1 (p.2.length + 1) = p.2.map ascii ++ [0] := by
    refine ((h.frame hdi).bytes (by omega) fun r hr => ?_).trans (ha p hp)
    rw [List.mem_singleton.mp hr]
    exact Region.apart_of_le h₁ h₂
  have hz : Asciiz (m.mov .si (imm p.1)).mem (m.mov .si (imm p.1)).si (p.2.map ascii) :=
    ⟨by rw [List.length_map]; exact hbytes, h0⟩
  refine (h.regs m.ax p.1 m.cf m.zf).emit (emitStr_emits hz ?_ ?_) (by rwa [List.length_map]) hk
  · show p.1.toNat + _ < m.di.toNat
    rw [hd, List.length_map]
    exact Nat.lt_of_lt_of_le hbelow (Nat.le_add_right _ _)
  · show m.di.toNat + _ < _
    have hle := h.le
    rw [hd, List.length_map, show ENV_BUF_OFF.toNat = 0x2800 from rfl]
    omega

/-- A variable, in AX. -/
theorem word (h : Building m₀ k bs m) (hdi : m₀.di = ENV_BUF_OFF) {x : Word}
    (hx : ∀ r ∈ [(⟨ENV_BUF_OFF, 128⟩ : Region)], ¬ r.Has x ∧ ¬ r.Has (x + 1)) :
    Building m₀ k bs (m.mov .ax (·.word x)) ∧ (m.mov .ax (·.word x)).ax = m₀.mem.word x :=
  ⟨h.regs _ m.si m.cf m.zf, (h.frame hdi).word (fun r hr => (hx r hr).1) fun r hr => (hx r hr).2⟩

/-- A variable of one byte, in AX. -/
theorem wide (h : Building m₀ k bs m) (hdi : m₀.di = ENV_BUF_OFF) {x : Word}
    (hx : ∀ r ∈ [(⟨ENV_BUF_OFF, 128⟩ : Region)], ¬ r.Has x) :
    Building m₀ k bs (m |>.xorb .ah (·.reg8 .ah) |>.movb .al (·.byte x)) ∧
      (m |>.xorb .ah (·.reg8 .ah) |>.movb .al (·.byte x)).ax.toNat = (m₀.mem x).toNat := by
  have hbyte : m.mem x = m₀.mem x := (h.frame hdi).byte hx
  refine ⟨h.regs _ m.si _ _, ?_⟩
  have hax : (m |>.xorb .ah (·.reg8 .ah) |>.movb .al (·.byte x)).ax = ofBytes 0 (m.mem x) := by
    simp only [xorb, movb, setReg8, reg8, byte, BitVec.xor_self, hi_ofBytes]
    rfl
  rw [hax, hbyte, toNat_byteWord]

/-- A variable of one byte, in AL. -/
theorem byteVar (h : Building m₀ k bs m) (hdi : m₀.di = ENV_BUF_OFF) {x : Word}
    (hx : ∀ r ∈ [(⟨ENV_BUF_OFF, 128⟩ : Region)], ¬ r.Has x) :
    Building m₀ k bs (m.movb .al (·.byte x)) ∧ lo (m.movb .al (·.byte x)).ax = m₀.mem x :=
  ⟨h.regs _ m.si m.cf m.zf, (lo_ofBytes _ _).trans ((h.frame hdi).byte hx)⟩

theorem hex (h : Building m₀ k bs m) {w : Word} (hw : m.ax = w) (hk : k + 4 < 128) :
    Building m₀ (k + 4) (bs ++ (hex16 w).map ascii) (emitHex16 m) := by
  subst hw
  exact h.emit (emitHex16_emits m) (Nat.le_refl 4) hk

theorem dec (h : Building m₀ k bs m) {n : Nat} (hw : m.ax.toNat = n) (hk : k + 5 < 128) :
    Building m₀ (k + 5) (bs ++ (Text.decimal n).map ascii) (emitDec16 m) := by
  subst hw
  refine h.emit (emitDec16_emits m) ?_ hk
  rw [List.length_map]
  exact (Nat.length_toDigits_le_iff (by decide) (by decide)).mpr (by have := m.ax.isLt; omega)

theorem char (h : Building m₀ k bs m) {b : Byte} (hb : lo m.ax = b) (hk : k + 1 < 128) :
    Building m₀ (k + 1) (bs ++ [b]) m.stosb :=
  h.emit (by have he := (Emits.refl m).stosb hb; rwa [List.nil_append] at he) (Nat.le_refl 1) hk

/-- A byte of the code. -/
theorem lit (h : Building m₀ k bs m) (b : Byte) (hk : k + 1 < 128) :
    Building m₀ (k + 1) (bs ++ [b]) (m |>.movb .al (imm b) |>.stosb) :=
  (show Building m₀ k bs (m.movb .al (imm b)) from h.regs _ m.si m.cf m.zf).char (lo_ofBytes _ _) hk

/-- The end of a string. -/
theorem nul (h : Building m₀ k bs m) (hk : k + 1 < 128) :
    Building m₀ (k + 1) (bs ++ [0]) (m |>.xorb .al (·.reg8 .al) |>.stosb) ∧
    lo (m |>.xorb .al (·.reg8 .al) |>.stosb).ax = 0 := by
  have hal : lo (m.xorb .al (·.reg8 .al)).ax = 0 := (lo_ofBytes _ _).trans BitVec.xor_self
  exact ⟨(show Building m₀ k bs (m.xorb .al (·.reg8 .al)) from h.regs _ m.si _ _).char hal hk, hal⟩

/-- The count of what follows. -/
theorem count (h : Building m₀ k bs m) (hk : k + 2 < 128) :
    Building m₀ (k + 2) (bs ++ [1, 0]) (m |>.mov .ax (imm 1) |>.stosw) := by
  have he : Emits [lo 1, hi 1] (m.mov .ax (imm 1)) (m.mov .ax (imm 1)).stosw :=
    (Emits.refl (m.mov .ax (imm 1))).stosw
  rw [show lo (1 : Word) = 1 by decide, show hi (1 : Word) = 0 by decide] at he
  exact (show Building m₀ k bs (m.mov .ax (imm 1)) from h.regs _ m.si m.cf m.zf).emit he
    (Nat.le_refl 2) hk

/-- `emit_mode_name`. -/
theorem mode (h : Building m₀ k bs m) (hdi : m₀.di = ENV_BUF_OFF) (ha : Assembled m₀.mem)
    {mode : Byte} (hal : lo m.ax = mode) (hk : k + 10 < 128) :
    Building m₀ (k + 10) (bs ++ (modeName mode).2.map ascii) (emitModeName m) := by
  let Q : Word × Text → Machine DosState ι → Prop :=
    fun p m' => Building m₀ (k + 10) (bs ++ p.2.map ascii) m'
  have hname {p : Word × Text} (hp : p ∈ strings) (hl : p.2.length ≤ 10) (c z : Bool) :
      Q p (emitModeName.name p.1 { m with cf := c, zf := z }) :=
    (h.regs m.ax m.si c z).str hdi ha hp hl hk
  have hcmp (m' : Machine DosState ι) (hal' : lo m'.ax = mode) (b : Byte) {p rest : Word × Text}
      {next : Machine DosState ι → Machine DosState ι}
      (hyes : Q p (emitModeName.name p.1 (m'.cmpb (·.reg8 .al) (imm b))))
      (hno : Q rest (next (m'.cmpb (·.reg8 .al) (imm b)))) :
      Q (if mode = b then p else rest)
      ((m'.cmpb (·.reg8 .al) (imm b)).jz (emitModeName.name p.1) next) := by
    have hz : (m'.cmpb (·.reg8 .al) (imm b)).zf = decide (mode = b) :=
      congrArg (fun x => decide (x = b)) hal'
    by_cases he : mode = b
    · rw [if_pos he, jz_pos (hz.trans (decide_eq_true he))]
      exact hyes
    · rw [if_neg he, jz_neg (hz.trans (decide_eq_false he))]
      exact hno
  show Q (modeName mode) (emitModeName m)
  refine hcmp m hal NEG_MODE_ECP (hname (by simp [strings]) (by decide) _ _) ?_
  refine hcmp _ hal NEG_MODE_EPP (hname (by simp [strings]) (by decide) _ _) ?_
  refine hcmp _ hal NEG_MODE_BYTE (hname (by simp [strings]) (by decide) _ _) ?_
  exact hcmp _ hal NEG_MODE_SPP (hname (by simp [strings]) (by decide) _ _)
    (hname (by simp [strings]) (by decide) _ _)

end Building

/-- `build_environment` stores the block, and changes no other byte. -/
theorem buildEnvironment_ok (m : Machine DosState ι) (ha : Assembled m.mem) :
    ∃ a s d c z, buildEnvironment m = { m with
    ax := a, si := s, di := d, cf := c, zf := z,
    mem := m.mem.store ENV_BUF_OFF (bootOf m.mem).block } := by
  let m₀ : Machine DosState ι := { m with es := m.cs, stk := m.es :: m.stk, di := ENV_BUF_OFF }
  have hdi : m₀.di = ENV_BUF_OFF := rfl
  have h₀ : Building m₀ 0 [] m₀ := ⟨.refl m₀, Nat.le_refl 0, by decide⟩
  have hstr {k : Nat} {bs : List Byte} {m : Machine DosState ι} (h : Building m₀ k bs m)
    {p : Word × Text} (hp : p ∈ strings)
      (n : Nat) (hl : p.2.length ≤ n) (hk : k + n < 128) := h.str hdi ha hp hl hk
  have h₁ :=
    hstr h₀ (p := (envPrefixStr, prefixText)) (by simp [strings]) 14 (by decide) (by decide)
  obtain ⟨h₂, hbase⟩ := h₁.word hdi (x := savedBx) (by decide)
  have h₃ := hstr (h₂.hex hbase (by decide)) (p := (envModeStr, modeText)) (by simp [strings]) 6
    (by decide) (by decide)
  obtain ⟨h₄, hmode⟩ := h₃.byteVar hdi (x := negotiatedMode) (by decide)
  have h₅ := hstr (h₄.mode hdi ha hmode (by decide))
    (p := (envChanStr, chanText)) (by simp [strings]) 6 (by decide) (by decide)
  obtain ⟨h₆, hchan⟩ := h₅.word hdi (x := savedDx) (by decide)
  have h₇ := hstr (h₆.dec (congrArg BitVec.toNat hchan) (by decide))
    (p := (envVerStr, verText)) (by simp [strings]) 5 (by decide) (by decide)
  obtain ⟨h₈, hmajor⟩ := h₇.wide hdi (x := picoVersionMajor) (by decide)
  have h₉ := h₈.dec hmajor (by decide)
  obtain ⟨h₁₀, hminor⟩ := (h₉.lit 0x2E (by decide)).wide hdi (x := picoVersionMinor) (by decide)
  obtain ⟨h₁₁, hal⟩ := (h₁₀.dec hminor (by decide)).nul (by decide)
  have h₁₂ := hstr ((h₁₁.char hal (by decide)).count (by decide))
    (p := (stage2Filename, pathText)) (by simp [strings]) 12 (by decide) (by decide)
  obtain ⟨h₁₃, -⟩ := h₁₂.nul (by decide)
  have hdot : ascii '.' = 0x2E := by decide
  have hm₀ : (m |>.push (·.es) |>.push (·.cs) |>.popEs |>.mov .di (imm ENV_BUF_OFF)) = m₀ := rfl
  rw [buildEnvironment, hm₀]
  refine Emits.popEs (h₁₃.all (bootOf m.mem).block ?_)
  simp only [Boot.block, Boot.text, bootOf, List.map_append, List.map_cons, hdot, List.append_assoc,
    List.nil_append, List.cons_append, m₀]

/-! ## What Stage 2 reads -/

/-- The bytes up to a NUL, and those after it. -/
def cutNul (bs : List Byte) : List Byte × List Byte :=
  (bs.takeWhile (· ≠ 0), (bs.dropWhile (· ≠ 0)).tail)

/-- The strings of an environment, at most `n`, and what follows the empty
string that ends them. -/
def readVars : Nat → List Byte → List (List Byte) × List Byte
  | 0, bs => ([], bs)
  | n + 1, bs =>
    let (s, rest) := cutNul bs
    if s = [] then ([], rest)
    else
      let (ss, rest) := readVars n rest
      (s :: ss, rest)

/-- An environment of DOS: the variables, and the path after the count. -/
def readEnviron (bs : List Byte) : List (List Byte) × List Byte :=
  let (vars, rest) := readVars bs.length bs
  (vars, (cutNul (rest.drop 2)).1)

/-- The fields of `PICO_BOOT`: base, mode, channels and version. -/
def readBoot (s : Text) : Option (Nat × Text × Nat × Nat × Nat) := do
  let (name, value) ← Text.splitOnce '=' s
  if name ≠ "PICO_BOOT".toList then none
  let fields ← (Text.splitAsciiWhitespace value).mapM (Text.splitOnce '=')
  let base ← fields.lookup "LPT".toList >>= Text.parseDigits 16 65535
  let mode ← fields.lookup "MODE".toList
  let chan ← fields.lookup "CHAN".toList >>= Text.parseDigits 10 65535
  let (major, minor) ← fields.lookup "VER".toList >>= Text.splitOnce '.'
  let major ← Text.parseDigits 10 255 major
  let minor ← Text.parseDigits 10 255 minor
  return (base, mode, chan, major, minor)

theorem cutNul_eq {s : List Byte} (h : (0 : Byte) ∉ s) (rest : List Byte) :
    cutNul (s ++ 0 :: rest) = (s, rest) := by
  have hs : ∀ b ∈ s, decide (b ≠ 0) = true := fun b hb => decide_eq_true fun he => h (he ▸ hb)
  rw [cutNul, List.takeWhile_append_of_pos hs, List.dropWhile_append_of_pos hs]
  simp

/-- The characters are ASCII, from `k` on. -/
def AsciiFrom (k : Nat) (s : Text) : Prop := ∀ c ∈ s, k ≤ c.toNat ∧ c.toNat < 128

instance (k : Nat) (s : Text) : Decidable (AsciiFrom k s) :=
  List.decidableBAll (fun c : Char => k ≤ c.toNat ∧ c.toNat < 128) s

namespace AsciiFrom

variable {k : Nat} {s t : Text}

theorem append (hs : AsciiFrom k s) (ht : AsciiFrom k t) : AsciiFrom k (s ++ t) := fun c hc =>
  (List.mem_append.mp hc).elim (hs c) (ht c)

theorem mono (h : AsciiFrom k s) {n : Nat} (hn : n ≤ k) : AsciiFrom n s :=
  fun c hc => (h c hc).imp_left (Nat.le_trans hn)

theorem not_nul (h : AsciiFrom k s) (hk : 0 < k) : (0 : Byte) ∉ s.map ascii := by
  rw [List.mem_map]
  rintro ⟨c, hc, h0⟩
  obtain ⟨hlow, hhigh⟩ := h c hc
  have hn := congrArg BitVec.toNat h0
  rw [ascii, BitVec.toNat_ofNat] at hn
  change _ = 0 at hn
  omega

/-- No white space from 33 on. -/
theorem word (h : AsciiFrom 33 s) : ∀ c ∈ s, Text.isAsciiWhitespace c = false := fun c hc => by
  obtain ⟨hlow, -⟩ := h c hc
  have hne : ∀ n ∈ [0x20, 0x09, 0x0A, 0x0C, 0x0D], c.toNat ≠ n := fun n hn => by
    simp only [List.mem_cons, List.not_mem_nil, or_false] at hn
    omega
  rw [Text.isAsciiWhitespace, List.contains_eq_mem, decide_eq_false fun hmem => hne _ hmem rfl]

end AsciiFrom

/-- The characters of a string of bytes. -/
def chars (bs : List Byte) : Text := bs.map fun b => Char.ofNat b.toNat

theorem AsciiFrom.chars_eq {k : Nat} {s : Text} (h : AsciiFrom k s) : chars (s.map ascii) = s := by
  rw [chars, List.map_map]
  refine (List.map_congr_left fun c hc => ?_).trans (List.map_id s)
  obtain ⟨-, hhigh⟩ := h c hc
  show Char.ofNat (BitVec.ofNat 8 c.toNat).toNat = c
  rw [BitVec.toNat_ofNat, Nat.mod_eq_of_lt (by omega), Char.ofNat_toNat]

theorem asciiFrom_hex16 (w : Word) : AsciiFrom 33 (hex16 w) := by
  have hw := w.isLt
  have hall : ∀ d < 16, 33 ≤ (hexChar d).toNat ∧ (hexChar d).toNat < 128 := by decide
  intro c hc
  simp only [hex16, List.mem_cons, List.not_mem_nil, or_false] at hc
  rcases hc with rfl | rfl | rfl | rfl
  · exact hall _ (by omega)
  · exact hall _ (by omega)
  · exact hall _ (by omega)
  · exact hall _ (by omega)

theorem asciiFrom_decimal (n : Nat) : AsciiFrom 33 (Text.decimal n) :=
  Text.forall_mem_toDigits (by decide) (p := fun c => 33 ≤ c.toNat ∧ c.toNat < 128) (by decide) n

theorem parse_hex16 (w : Word) : Text.parseDigits 16 65535 (hex16 w) = some w.toNat := by
  have hw := w.isLt
  have hdigit : ∀ d < 16, Text.digit 16 (hexChar d) = some d := fun d hd => (hexChar_ok d hd).2.2
  simp only [Text.parseDigits, hex16, List.isEmpty_cons, Bool.false_eq_true, if_false,
    List.foldlM_cons, List.foldlM_nil]
  rw [hdigit _ (by omega), hdigit _ (by omega), hdigit _ (by omega), hdigit _ (by omega)]
  simp only [Option.bind_eq_bind, Option.bind_some]
  rw [if_pos (by omega), Option.bind_some, if_pos (by omega), Option.bind_some, if_pos (by omega),
    Option.bind_some, if_pos (by omega), Option.bind_some]
  exact congrArg some (by omega)

/-- The fields of the variable. -/
def Boot.fields (b : Boot) : List (Text × Text) :=
  [("LPT".toList, hex16 b.base), ("MODE".toList, (modeName b.mode).2),
    ("CHAN".toList, Text.decimal b.chan.toNat),
    ("VER".toList, Text.decimal b.major.toNat ++ '.' :: Text.decimal b.minor.toNat)]

theorem modeName_mem (mode : Byte) :
    (modeName mode).2 ∈ ["ECP".toList, "EPP".toList, "BYTE".toList, "SPP".toList,
      "NEG_FAILED".toList] := by
  unfold modeName
  split
  · exact .head _
  · split
    · exact .tail _ (.head _)
    · split
      · exact .tail _ (.tail _ (.head _))
      · split
        · exact .tail _ (.tail _ (.tail _ (.head _)))
        · exact .tail _ (.tail _ (.tail _ (.tail _ (.head _))))

theorem asciiFrom_mode (mode : Byte) : AsciiFrom 33 (modeName mode).2 := by
  have hall : ∀ s ∈ ["ECP".toList, "EPP".toList, "BYTE".toList, "SPP".toList, "NEG_FAILED".toList],
      AsciiFrom 33 s := by decide
  exact hall _ (modeName_mem mode)

/-- A field as it is written. -/
def field (f : Text × Text) : Text := f.1 ++ '=' :: f.2

theorem Boot.text_eq (b : Boot) :
    b.text = "PICO_BOOT".toList ++ '=' :: [' '].intercalate (b.fields.map field) := by
  have h₁ : prefixText = "PICO_BOOT".toList ++ '=' :: ("LPT".toList ++ ['=']) := by decide
  have h₂ : modeText = ' ' :: ("MODE".toList ++ ['=']) := by decide
  have h₃ : chanText = ' ' :: ("CHAN".toList ++ ['=']) := by decide
  have h₄ : verText = ' ' :: ("VER".toList ++ ['=']) := by decide
  rw [text, h₁, h₂, h₃, h₄, fields, List.map_cons, List.map_cons, List.map_cons, List.map_cons,
    List.map_nil, Text.intercalate_cons]
  simp only [field, List.flatMap_cons, List.flatMap_nil, List.append_assoc, List.cons_append,
    List.nil_append, List.append_nil]

theorem Boot.fields_ascii (b : Boot) :
    ∀ f ∈ b.fields, AsciiFrom 33 f.1 ∧ AsciiFrom 33 f.2 ∧ '=' ∉ f.1 := by
  have hkeys : ∀ s ∈ ["LPT".toList, "MODE".toList, "CHAN".toList, "VER".toList], AsciiFrom 33 s ∧
      '=' ∉ s := by decide
  have hdot : AsciiFrom 33 ['.'] := by decide
  intro f hf
  simp only [fields, List.mem_cons, List.not_mem_nil, or_false] at hf
  rcases hf with rfl | rfl | rfl | rfl
  · exact ⟨(hkeys _ (by simp)).1, asciiFrom_hex16 _, (hkeys _ (by simp)).2⟩
  · exact ⟨(hkeys _ (by simp)).1, asciiFrom_mode _, (hkeys _ (by simp)).2⟩
  · exact ⟨(hkeys _ (by simp)).1, asciiFrom_decimal _, (hkeys _ (by simp)).2⟩
  · exact ⟨(hkeys _ (by simp)).1, (asciiFrom_decimal _).append (hdot.append (asciiFrom_decimal _)),
      (hkeys _ (by simp)).2⟩

theorem Boot.printable (b : Boot) : AsciiFrom 32 b.text := by
  have hlit : AsciiFrom 32 prefixText ∧ AsciiFrom 32 modeText ∧ AsciiFrom 32 chanText ∧
      AsciiFrom 32 verText ∧ AsciiFrom 32 ['.'] := by
    decide
  obtain ⟨h₁, h₂, h₃, h₄, h₅⟩ := hlit
  have hdec (n : Nat) : AsciiFrom 32 (Text.decimal n) := (asciiFrom_decimal n).mono (by decide)
  have hbase := h₁.append ((asciiFrom_hex16 b.base).mono (by decide))
  have hmode := (hbase.append h₂).append ((asciiFrom_mode b.mode).mono (by decide))
  have hchan := (hmode.append h₃).append (hdec b.chan.toNat)
  exact ((hchan.append h₄).append (hdec b.major.toNat)).append (h₅.append (hdec b.minor.toNat))

/-- Fields are split where they were joined. -/
theorem split_fields : ∀ fs : List (Text × Text), (∀ f ∈ fs, '=' ∉ f.1) →
    (fs.map field).mapM (Text.splitOnce '=') = some fs
  | [], _ => rfl
  | f :: fs, h => by
    rw [List.map_cons, List.mapM_cons, field, Text.splitOnce_eq (h f List.mem_cons_self),
      split_fields fs fun f hf => h f (List.mem_cons_of_mem _ hf)]
    rfl

theorem readBoot_text (b : Boot) :
    readBoot b.text = some (b.base.toNat, (modeName b.mode).2, b.chan.toNat, b.major.toNat,
      b.minor.toNat) := by
  have hwords : ∀ w ∈ b.fields.map field, w ≠ [] ∧ ∀ c ∈ w, Text.isAsciiWhitespace c = false := by
    intro w hw
    obtain ⟨f, hf, rfl⟩ := List.mem_map.mp hw
    obtain ⟨h₁, h₂, -⟩ := b.fields_ascii f hf
    have heq : AsciiFrom 33 ['='] := by decide
    exact ⟨List.append_ne_nil_of_right_ne_nil _ (List.cons_ne_nil _ _),
      (h₁.append (heq.append h₂)).word⟩
  have hdot : '.' ∉ Text.decimal b.major.toNat :=
    fun h => Text.digit_ne (Text.isDigit_decimal h) (d := '.') (by decide) rfl
  have hdec (n k : Nat) (hn : n ≤ k) : Text.parseDigits 10 k (Text.decimal n) = some n :=
    Text.parseDigits_toDigits (by decide) (by decide) hn
  have hmajor := b.major.isLt
  have hminor := b.minor.isLt
  have hchan := b.chan.isLt
  rw [b.text_eq, readBoot, Text.splitOnce_eq (by decide)]
  simp only [Option.bind_eq_bind, Option.bind_some, ne_eq, not_true_eq_false, if_false]
  rw [Text.splitAsciiWhitespace_words hwords, split_fields _ fun f hf => (b.fields_ascii f hf).2.2]
  have hbase : b.fields.lookup "LPT".toList = some (hex16 b.base) := rfl
  have hmode : b.fields.lookup "MODE".toList = some (modeName b.mode).2 := rfl
  have hfchan : b.fields.lookup "CHAN".toList = some (Text.decimal b.chan.toNat) := rfl
  have hver : b.fields.lookup "VER".toList =
      some (Text.decimal b.major.toNat ++ '.' :: Text.decimal b.minor.toNat) := rfl
  simp only [Option.bind_some, hbase, hmode, hfchan, hver]
  rw [parse_hex16, Option.bind_some, hdec _ _ (by omega), Option.bind_some, Text.splitOnce_eq hdot,
    Option.bind_some, hdec _ _ (by omega), Option.bind_some, hdec _ _ (by omega), Option.bind_some]
  rfl

theorem Boot.length_block (b : Boot) : b.block.length ≤ 128 := by
  have hmode : ∀ s ∈ ["ECP".toList, "EPP".toList, "BYTE".toList, "SPP".toList, "NEG_FAILED".toList],
      s.length ≤ 10 := by decide
  have hm := hmode _ (modeName_mem b.mode)
  have hdec (n k : Nat) (hk : 0 < k) (hn : n < 10 ^ k) : (Text.decimal n).length ≤ k :=
    (Nat.length_toDigits_le_iff (by decide) hk).mpr hn
  have h₁ := hdec b.chan.toNat 5 (by decide) (by have := b.chan.isLt; omega)
  have h₂ := hdec b.major.toNat 3 (by decide) (by have := b.major.isLt; omega)
  have h₃ := hdec b.minor.toNat 3 (by decide) (by have := b.minor.isLt; omega)
  have hlit : prefixText.length = 14 ∧ modeText.length = 6 ∧ chanText.length = 6 ∧
      verText.length = 5 ∧ pathText.length = 12 := by
    decide
  obtain ⟨l₁, l₂, l₃, l₄, l₅⟩ := hlit
  simp only [block, text, hex16, List.length_append, List.length_map, List.length_cons,
    List.length_nil, l₁, l₂, l₃, l₄, l₅]
  omega

theorem readVars_cons {s : List Byte} (h0 : (0 : Byte) ∉ s) (hne : s ≠ []) (n : Nat)
    (rest : List Byte) :
    readVars (n + 1) (s ++ 0 :: rest) = (s :: (readVars n rest).1, (readVars n rest).2) := by
  rw [readVars, cutNul_eq h0]
  exact if_neg hne

theorem readVars_end (n : Nat) (rest : List Byte) : readVars (n + 1) (0 :: rest) = ([], rest) := by
  have h := cutNul_eq (s := []) (by decide) rest
  rw [List.nil_append] at h
  rw [readVars, h]
  exact if_pos rfl

/-- The block read as an environment, whatever follows it. -/
theorem readEnviron_block (b : Boot) (rest : List Byte) :
    readEnviron (b.block ++ rest) = ([b.text.map ascii], pathText.map ascii) := by
  have htext : (0 : Byte) ∉ b.text.map ascii := b.printable.not_nul (by decide)
  have hpath : (0 : Byte) ∉ pathText.map ascii := by decide
  have hne : b.text.map ascii ≠ [] := by
    intro he
    have hp : b.text ≠ [] := by
      rw [b.text_eq]
      exact List.append_ne_nil_of_right_ne_nil _ (List.cons_ne_nil _ _)
    exact hp (List.map_eq_nil_iff.mp he)
  have hblock : b.block ++ rest = b.text.map ascii ++ 0 :: 0 :: 1 :: 0 ::
      (pathText.map ascii ++ 0 :: rest) := by
    simp only [Boot.block, List.append_assoc, List.cons_append, List.nil_append]
  obtain ⟨n, hn⟩ : ∃ n, (b.block ++ rest).length = n + 1 + 1 := by
    refine ⟨(b.block ++ rest).length - 2, ?_⟩
    rw [hblock, List.length_append, List.length_cons, List.length_cons]
    omega
  rw [readEnviron, hn, hblock, readVars_cons htext hne, readVars_end]
  show (_, (cutNul (pathText.map ascii ++ 0 :: rest)).1) = _
  rw [cutNul_eq hpath]

/-- The words of the parameter block that are patched. -/
def paramVars : List Region :=
  [⟨execParamEnvSeg, 2⟩, ⟨execParamCmdtail + 2, 2⟩, ⟨execParamFcb1 + 2, 2⟩, ⟨execParamFcb2 + 2, 2⟩]

theorem execCall_mem (m : Machine DosState ι) (ha : Assembled m.mem) :
    (execCall (buildEnvironment m)).mem =
      execParams m.cs (m.mem.store ENV_BUF_OFF (bootOf m.mem).block) := by
  obtain ⟨a, s, d, c, z, e⟩ := buildEnvironment_ok m ha
  generalize m.mem.store ENV_BUF_OFF (bootOf m.mem).block = mem at e ⊢
  rw [e]
  rfl

theorem execParams_frame (cs : Word) (mem : Mem) : Frame paramVars mem (execParams cs mem) :=
  ((((Frame.refl _ _).setWordVar _ (by simp [paramVars])).setWordVar _
    (by simp [paramVars])).setWordVar _ (by simp [paramVars])).setWordVar _ (by simp [paramVars])

/-- The patched words are not in the block. -/
theorem bytes_execParams (cs : Word) (mem : Mem) (bs : List Byte) (hl : bs.length ≤ 128) :
    (execParams cs (mem.store ENV_BUF_OFF bs)).bytes ENV_BUF_OFF bs.length = bs := by
  have hap : ∀ r ∈ paramVars, 128 ≤ (r.base - ENV_BUF_OFF).toNat ∧
      r.len ≤ (ENV_BUF_OFF - r.base).toNat := by decide
  rw [(execParams_frame cs _).bytes (by omega)
    fun r hr => Region.apart_of_le (Nat.le_trans hl (hap r hr).1) (hap r hr).2]
  exact Mem.bytes_store _ _ _ (by omega)

theorem buildEnvironment_frame (m : Machine DosState ι) (ha : Assembled m.mem) :
    Frame [⟨ENV_BUF_OFF, 128⟩] m.mem (buildEnvironment m).mem := by
  obtain ⟨a, s, d, c, z, e⟩ := buildEnvironment_ok m ha
  have hle := (bootOf m.mem).length_block
  have h := Frame.store m.mem ENV_BUF_OFF (bootOf m.mem).block (by omega)
  generalize m.mem.store ENV_BUF_OFF (bootOf m.mem).block = mem at e h
  rw [e]
  refine h.widen fun r hr => ⟨_, List.mem_singleton_self _, ?_⟩
  rw [List.mem_singleton.mp hr]
  exact Region.sub_of_le (by simp only [BitVec.sub_self]; show 0 + _ ≤ _; omega)

/-- Where `EXEC` is called, the parameter block names the paragraph of an
environment from which Stage 2 reads what Stage 1 knows. -/
theorem environment_read (m : Machine DosState ι) (ha : Assembled m.mem) :
    let m' := execCall (buildEnvironment m)
    m'.mem.word execParamEnvSeg = m.cs + ENV_BUF_PARAS ∧
    ENV_BUF_OFF.toNat = 16 * ENV_BUF_PARAS.toNat ∧
    ∃ value path, readEnviron (m'.mem.bytes ENV_BUF_OFF 0x800) = ([value], path) ∧
      chars path = pathText ∧
      readBoot (chars value) = some ((m.mem.word savedBx).toNat,
        (modeName (m.mem negotiatedMode)).2, (m.mem.word savedDx).toNat,
          (m.mem picoVersionMajor).toNat, (m.mem picoVersionMinor).toNat) := by
  intro m'
  let b := bootOf m.mem
  have hmem : m'.mem = execParams m.cs (m.mem.store ENV_BUF_OFF b.block) := execCall_mem m ha
  have hle := b.length_block
  refine ⟨?_, by decide, b.text.map ascii, pathText.map ascii, ?_, ?_, ?_⟩
  · rw [hmem, execParams, Mem.word_setWord_of_ne _ _ (by decide) (by decide)
      (by decide) (by decide), Mem.word_setWord_of_ne _ _ (by decide) (by decide)
        (by decide) (by decide),
      Mem.word_setWord_of_ne _ _ (by decide) (by decide) (by decide) (by decide), Mem.word_setWord]
  · have hbytes : m'.mem.bytes ENV_BUF_OFF b.block.length = b.block :=
      hmem ▸ bytes_execParams m.cs m.mem b.block hle
    rw [show 0x800 = b.block.length + (0x800 - b.block.length) by omega, Mem.bytes_add, hbytes]
    exact readEnviron_block b _
  · exact AsciiFrom.chars_eq (k := 32) (by decide)
  · rw [b.printable.chars_eq]
    exact readBoot_text b

end VintageKvm.Stage1
