import VintageKvm.Dos.Stage1.Layout

/-!
# Stage 1: the console

`puts` and the number printers. What each of them leaves is the machine it
found but for flags and the console (`Printed`).
-/

namespace VintageKvm.Stage1

open I8086 Machine Dos

variable {ι : Type}

/-- `puts`. -/
def puts (m : Machine DosState ι) : Machine DosState ι :=
  m |>.push (·.ax) |>.push (·.dx) |>.mov .dx (·.si) |>.movb .ah (imm 0x09) |> int21
    |>.pop .dx |>.pop .ax

/-- `mov si, msg` / `call puts`. -/
def putsMsg (msg : Word) (m : Machine DosState ι) : Machine DosState ι := puts (m.mov .si (imm msg))

/-- `print_hex_digit`. -/
def printHexDigit (m : Machine DosState ι) : Machine DosState ι :=
  m |>.cmpb (·.reg8 .al) (imm 10)
    |>.jc (·.addb .al (imm 0x30)) (·.addb .al (imm (0x41 - 10)))
    |>.push (·.dx) |>.movb .dl (·.reg8 .al) |>.movb .ah (imm 0x02) |> int21 |>.pop .dx

/-- `print_hex8`. -/
def printHex8 (m : Machine DosState ι) : Machine DosState ι :=
  m |>.push (·.ax) |>.movb .ah (·.reg8 .al) |>.shrb .al 4 |> printHexDigit
    |>.movb .al (·.reg8 .ah) |>.andb .al (imm 0x0F) |> printHexDigit |>.pop .ax

/-- `print_hex16`. -/
def printHex16 (m : Machine DosState ι) : Machine DosState ι :=
  m |>.push (·.ax) |>.movb .al (·.reg8 .ah) |> printHex8 |>.pop .ax |> printHex8

/-- `print_hex32`. -/
def printHex32 (m : Machine DosState ι) : Machine DosState ι :=
  m |>.push (·.ax) |>.mov .ax (·.dx) |> printHex16 |>.pop .ax |> printHex16

/-- `print_dec16.divloop`. -/
def divLoop (m : Machine DosState ι) : Machine DosState ι :=
  m |>.xorw .dx (·.dx) |>.div .bx |>.push (·.dx) |>.inc .cx |>.orw .ax (·.ax)

/-- `print_dec16.printloop`. -/
def printLoop (m : Machine DosState ι) : Machine DosState ι :=
  m |>.pop .dx |>.movb .al (·.reg8 .dl) |>.addb .al (imm 0x30) |>.movb .dl (·.reg8 .al)
    |>.push (·.dx) |>.movb .ah (imm 0x02) |> int21 |>.pop .dx

/-- `print_dec16`. -/
def printDec16 (m : Machine DosState ι) : Machine DosState ι :=
  m |>.push (·.ax) |>.push (·.bx) |>.push (·.cx) |>.push (·.dx)
    |>.mov .bx (imm 10) |>.xorw .cx (·.cx)
    |>.loopNz divLoop |>.loop printLoop
    |>.pop .dx |>.pop .cx |>.pop .bx |>.pop .ax

/-! ## What they leave -/

/-- `m'` is `m` but for flags and the console. -/
def Printed (m m' : Machine DosState ι) : Prop :=
  ∃ c z con, m' = { m with cf := c, zf := z, dos := { m.dos with con := con } }

theorem puts_ok (m : Machine DosState ι) : puts m =
    { m with dos := { m.dos with con := m.dos.con ++ upTo 0x24 m.mem 65536 m.si } } := by
  simp only [puts, push, mov, movb, pop, top, setReg, setReg8, int21, int21Puts, reg8,
    imm, hi_ofBytes]
  rfl

theorem putsMsg_ok (msg : Word) (m : Machine DosState ι) : putsMsg msg m =
    { m with si := msg, dos := { m.dos with con := m.dos.con ++ upTo 0x24 m.mem 65536 msg } } :=
  puts_ok _

theorem printHexDigit_ok (m : Machine DosState ι) : ∃ a c z con, printHexDigit m =
    { m with ax := a, cf := c, zf := z, dos := { m.dos with con := con } } := by
  by_cases h : (lo m.ax).toNat < (10 : Byte).toNat <;>
    simp only [printHexDigit, cmpb, jc, reg8, imm, h, decide_true, decide_false, if_true, if_false,
      Bool.false_eq_true] <;>
    simp only [addb, push, movb, reg8, setReg8, imm, int21, hi_ofBytes, BitVec.reduceToNat,
      int21Putc, pop, top, setReg, List.headD_cons, List.tail_cons] <;>
    exact ⟨_, _, _, _, rfl⟩

theorem printHex8_ok (m : Machine DosState ι) : Printed m (printHex8 m) := by
  obtain ⟨a, c, z, con, e⟩ :=
    printHexDigit_ok (m |>.push (·.ax) |>.movb .ah (·.reg8 .al) |>.shrb .al 4)
  obtain ⟨a', c', z', con', e'⟩ := printHexDigit_ok
    (printHexDigit (m |>.push (·.ax) |>.movb .ah (·.reg8 .al) |>.shrb .al 4)
      |>.movb .al (·.reg8 .ah) |>.andb .al (imm 0x0F))
  exact ⟨c', z', con', by rw [printHex8, e', e]; rfl⟩

theorem printHex16_ok (m : Machine DosState ι) : Printed m (printHex16 m) := by
  obtain ⟨c, z, con, e⟩ := printHex8_ok (m |>.push (·.ax) |>.movb .al (·.reg8 .ah))
  obtain ⟨c', z', con', e'⟩ := printHex8_ok
    (printHex8 (m |>.push (·.ax) |>.movb .al (·.reg8 .ah)) |>.pop .ax)
  exact ⟨c', z', con', by rw [printHex16, e', e]; rfl⟩

theorem printHex32_ok (m : Machine DosState ι) : Printed m (printHex32 m) := by
  obtain ⟨c, z, con, e⟩ := printHex16_ok (m |>.push (·.ax) |>.mov .ax (·.dx))
  obtain ⟨c', z', con', e'⟩ := printHex16_ok
    (printHex16 (m |>.push (·.ax) |>.mov .ax (·.dx)) |>.pop .ax)
  exact ⟨c', z', con', by rw [printHex32, e', e]; rfl⟩

theorem printLoop_ok (m : Machine DosState ι) : ∃ a d c z con, printLoop m =
    { m with
      ax := a, dx := d, cf := c, zf := z, stk := m.stk.tail,
      dos := { m.dos with con := con } } := by
  simp only [printLoop, pop, top, movb, addb, push, reg8, setReg, setReg8, imm, int21, hi_ofBytes,
    BitVec.reduceToNat, int21Putc, List.headD_cons, List.tail_cons]
  exact ⟨_, _, _, _, _, rfl⟩

theorem toNat_div10 (a : Word) :
    (loW (ofWords 0 a / (10 : Word).setWidth 32)).toNat = a.toNat / 10 := by
  have ha := a.isLt
  have h : (ofWords 0 a / (10 : Word).setWidth 32).toNat = a.toNat / 10 := by
    rw [BitVec.toNat_udiv, toNat_ofWords]
    simp
  rw [toNat_loW, h]
  omega

theorem divLoop_ok (m : Machine DosState ι) (hbx : m.bx = 10) : ∃ a d c z, divLoop m =
    { m with ax := a, cx := m.cx + 1, dx := d, cf := c, zf := z, stk := d :: m.stk } ∧
    a.toNat = m.ax.toNat / 10 ∧ (z = true ↔ a = 0) := by
  refine ⟨loW (ofWords 0 m.ax / (10 : Word).setWidth 32),
    loW (ofWords 0 m.ax % (10 : Word).setWidth 32), false,
    decide (loW (ofWords 0 m.ax / (10 : Word).setWidth 32) = 0), ?_, toNat_div10 m.ax,
      decide_eq_true_iff⟩
  simp only [divLoop, xorw, div, push, inc, orw, reg, setReg, hbx, BitVec.xor_self, BitVec.or_self]
  rfl

/-- The digits are pushed, their number in CX. -/
theorem divLoops_ok (m : Machine DosState ι) (hbx : m.bx = 10) (hcx : m.cx = 0) :
    ∃ a d c z ds, ds ≠ [] ∧ ds.length ≤ 65536 ∧ m.loopNz divLoop =
      { m with
        ax := a, cx := BitVec.ofNat 16 ds.length, dx := d, cf := c, zf := z,
        stk := ds ++ m.stk } := by
  let I : Machine DosState ι → Prop := fun m' => ∃ a d c z ds,
    ds.length + a.toNat ≤ 65535 ∧
    m' = { m with
      ax := a, cx := BitVec.ofNat 16 ds.length, dx := d, cf := c, zf := z, stk := ds ++ m.stk }
  let Q : Machine DosState ι → Prop := fun m' => ∃ a d c z ds, ds ≠ [] ∧ ds.length ≤ 65536 ∧
    m' = { m with
      ax := a, cx := BitVec.ofNat 16 ds.length, dx := d, cf := c, zf := z, stk := ds ++ m.stk }
  have hround : ∀ m', I m' → (divLoop m').zf = false →
      I (divLoop m') ∧ (divLoop m').ax.toNat < m'.ax.toNat := by
    rintro m' ⟨a, d, c, z, ds, hle, hm⟩ hz
    obtain ⟨a', d', c', z', e, ha, hz'⟩ := divLoop_ok m' (by rw [hm]; exact hbx)
    rw [e] at hz ⊢
    subst hm
    have hpos : a'.toNat ≠ 0 := fun h => by
      rw [hz'.mpr (BitVec.eq_of_toNat_eq h)] at hz
      cases hz
    simp only at ha
    refine ⟨⟨a', d', c', z', d' :: ds, ?_, ?_⟩, ?_⟩
    · rw [List.length_cons]
      omega
    · simp only [List.length_cons, BitVec.ofNat_add, List.cons_append]
      rfl
    · show a'.toNat < a.toNat
      omega
  have hlast : ∀ m', I m' → (divLoop m').zf = true → Q (divLoop m') := by
    rintro m' ⟨a, d, c, z, ds, hle, hm⟩ _
    obtain ⟨a', d', c', z', e, -, -⟩ := divLoop_ok m' (by rw [hm]; exact hbx)
    rw [e]
    subst hm
    refine ⟨a', d', c', z', d' :: ds, List.cons_ne_nil _ _, ?_, ?_⟩
    · rw [List.length_cons]
      omega
    · simp only [List.length_cons, BitVec.ofNat_add, List.cons_append]
      rfl
  have h0 : I m := ⟨m.ax, m.dx, m.cf, m.zf,
    [], by have := m.ax.isLt; simp only [List.length_nil]; omega, by
    rw [List.length_nil, show BitVec.ofNat 16 0 = m.cx from hcx.symm]; rfl⟩
  exact loopNz_rank I Q (·.ax.toNat) hround hlast h0 m.ax.isLt

/-- The digits are popped and printed. -/
theorem printLoops_ok (m : Machine DosState ι) {ds ws : List Word} (hne : ds ≠ [])
    (hle : ds.length ≤ 65536) (hcx : m.cx = BitVec.ofNat 16 ds.length) (hstk : m.stk = ds ++ ws) :
    ∃ a d c z con, m.loop printLoop =
      { m with
        ax := a, cx := 0, dx := d, cf := c, zf := z, stk := ws,
        dos := { m.dos with con := con } } := by
  let I : Nat → Machine DosState ι → Prop := fun k m' => ∃ a w d c z con,
    m' = { m with
      ax := a, cx := w, dx := d, cf := c, zf := z, stk := ds.drop (ds.length - k) ++ ws
      dos := { m.dos with con := con } } ∧ k ≤ ds.length
  have hbody : ∀ k m', I (k + 1) m' → m'.cx = BitVec.ofNat 16 (k + 1) →
      (printLoop m').cx = m'.cx ∧ I k { printLoop m' with cx := BitVec.ofNat 16 k } := by
    rintro k m' ⟨a, w, d, c, z, con, hm, hk⟩ _
    obtain ⟨a', d', c', z', con', e⟩ := printLoop_ok m'
    rw [e]
    subst hm
    refine ⟨rfl, a', BitVec.ofNat 16 k, d', c', z', con', ?_, Nat.le_of_succ_le hk⟩
    have hd : ds.drop (ds.length - (k + 1)) ≠ [] := fun h => by
      have := List.drop_eq_nil_iff.mp h
      omega
    simp only [List.tail_append_of_ne_nil hd, List.tail_drop,
      show ds.length - (k + 1) + 1 = ds.length - k by omega]
  have h0 : I ds.length m := ⟨m.ax, m.cx, m.dx, m.cf, m.zf, m.dos.con, by
    rw [Nat.sub_self, List.drop_zero, ← hstk], le_rfl⟩
  obtain ⟨⟨a, w, d, c, z, con, e, -⟩, hz⟩ :=
    loop_rule I hbody (List.length_pos_of_ne_nil hne) hle h0 hcx
  rw [e] at hz ⊢
  rw [Nat.sub_zero, List.drop_length, List.nil_append]
  exact ⟨a, d, c, z, con, congrArg (fun w => { m with
    ax := a, cx := w, dx := d, cf := c, zf := z, stk := ws, dos := { m.dos with con := con } }) hz⟩

theorem printDec16_ok (m : Machine DosState ι) : Printed m (printDec16 m) := by
  let m₁ : Machine DosState ι := { m with
    bx := 10, cx := 0, cf := false, zf := true, stk := m.dx :: m.cx :: m.bx :: m.ax :: m.stk }
  have h₁ : (m |>.push (·.ax) |>.push (·.bx) |>.push (·.cx) |>.push (·.dx) |>.mov .bx (imm 10)
      |>.xorw .cx (·.cx)) = m₁ := by
    simp only [push, mov, xorw, reg, setReg, imm, BitVec.xor_self, m₁]
    rfl
  rw [printDec16, h₁]
  obtain ⟨a, d, c, z, ds, hne, hle, e⟩ := divLoops_ok m₁ rfl rfl
  rw [e]
  obtain ⟨a', d', c', z', con, e'⟩ := printLoops_ok { m₁ with
    ax := a, cx := BitVec.ofNat 16 ds.length, dx := d, cf := c, zf := z,
    stk := ds ++ m₁.stk } hne hle rfl rfl
  rw [e']
  exact ⟨c', z', con, rfl⟩

end VintageKvm.Stage1
