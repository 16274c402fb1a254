import VintageKvm.Lib.Mem
import VintageKvm.Lib.Loop
import Mathlib.Order.Basic

/-!
# The 8086 in one segment

The registers and flags of a real-mode program whose code, data and stack
share one segment (a DOS `.COM` program: `CS = DS = ES = SS`), with its
instructions as functions of the state. A jump is a function of its two
continuations; a `call` is the application of the callee. `shlb` and `shrb`, the
shifts by an immediate above 1 that the sources use, are of the 80186 and later.

The words pushed and not yet popped are the list `stk`, the newest first;
where they lie in the segment matters to `EXEC` and to a routine that reads the
bytes below the stack pointer (`Stacked`). String instructions
run with the direction flag clear. What the program's ports answer is the
state `io` of the machine around it (`Ports`).
-/

namespace VintageKvm.I8086

/-- The 16-bit registers. -/
inductive Reg where
  | ax | bx | cx | dx | si | di
  deriving DecidableEq, Repr

/-- The 8-bit registers. -/
inductive Reg8 where
  | al | ah | bl | bh | cl | ch | dl | dh
  deriving DecidableEq, Repr

/-- A machine whose ports are on `ι` and whose operating system's state is
`δ`. -/
structure Machine (δ ι : Type) where
  ax : Word
  bx : Word
  cx : Word
  dx : Word
  si : Word
  di : Word
  cs : Word
  ds : Word
  es : Word
  cf : Bool
  zf : Bool
  stk : List Word
  mem : Mem
  /-- The bytes the link's receiver has returned, oldest first (a history:
  no instruction reads it). -/
  got : List Byte
  dos : δ
  io : ι

/-- What is on the ports: `IN` reads a byte, `OUT` writes one. -/
class Ports (ι : Type) where
  inp : Word → ι → Byte × ι
  out : Word → Byte → ι → ι

namespace Machine

variable {δ ι : Type}

/-- A 16-bit register. -/
def reg (m : Machine δ ι) : Reg → Word
  | .ax => m.ax
  | .bx => m.bx
  | .cx => m.cx
  | .dx => m.dx
  | .si => m.si
  | .di => m.di

/-- Set a 16-bit register. -/
def setReg (m : Machine δ ι) : Reg → Word → Machine δ ι
  | .ax, w => { m with ax := w }
  | .bx, w => { m with bx := w }
  | .cx, w => { m with cx := w }
  | .dx, w => { m with dx := w }
  | .si, w => { m with si := w }
  | .di, w => { m with di := w }

/-- An 8-bit register. -/
def reg8 (m : Machine δ ι) : Reg8 → Byte
  | .al => lo m.ax
  | .ah => hi m.ax
  | .bl => lo m.bx
  | .bh => hi m.bx
  | .cl => lo m.cx
  | .ch => hi m.cx
  | .dl => lo m.dx
  | .dh => hi m.dx

/-- Set an 8-bit register. -/
def setReg8 (m : Machine δ ι) : Reg8 → Byte → Machine δ ι
  | .al, b => { m with ax := ofBytes (hi m.ax) b }
  | .ah, b => { m with ax := ofBytes b (lo m.ax) }
  | .bl, b => { m with bx := ofBytes (hi m.bx) b }
  | .bh, b => { m with bx := ofBytes b (lo m.bx) }
  | .cl, b => { m with cx := ofBytes (hi m.cx) b }
  | .ch, b => { m with cx := ofBytes b (lo m.cx) }
  | .dl, b => { m with dx := ofBytes (hi m.dx) b }
  | .dh, b => { m with dx := ofBytes b (lo m.dx) }

/-- The byte at `a`. -/
def byte (m : Machine δ ι) (a : Word) : Byte := m.mem a

/-- The word at `a`. -/
def word (m : Machine δ ι) (a : Word) : Word := m.mem.word a

attribute [simp] reg setReg reg8 setReg8 byte word

/-! ## Moves -/

section

variable (m : Machine δ ι)

/-- `mov r, v`. -/
@[simp] def mov (r : Reg) (v : Machine δ ι → Word) : Machine δ ι := m.setReg r (v m)

/-- `mov r, v` on bytes. -/
@[simp] def movb (r : Reg8) (v : Machine δ ι → Byte) : Machine δ ι := m.setReg8 r (v m)

/-- `mov byte [a], v`. -/
@[simp] def stb (a : Machine δ ι → Word) (v : Machine δ ι → Byte) : Machine δ ι :=
  { m with mem := m.mem.set (a m) (v m) }

/-- `mov word [a], v`. -/
@[simp] def stw (a : Machine δ ι → Word) (v : Machine δ ι → Word) : Machine δ ι :=
  { m with mem := m.mem.setWord (a m) (v m) }

/-- `push v`. -/
@[simp] def push (v : Machine δ ι → Word) : Machine δ ι := { m with stk := v m :: m.stk }

/-- The word on top of the stack. -/
@[simp] def top : Word := m.stk.headD 0

/-- `pop r`. -/
@[simp] def pop (r : Reg) : Machine δ ι := { m.setReg r m.top with stk := m.stk.tail }

/-- `pop ds`. -/
@[simp] def popDs : Machine δ ι := { m with ds := m.top, stk := m.stk.tail }

/-- `pop es`. -/
@[simp] def popEs : Machine δ ι := { m with es := m.top, stk := m.stk.tail }

/-- `xchg al, ah`. -/
@[simp] def xchgAlAh : Machine δ ι := { m with ax := ofBytes (lo m.ax) (hi m.ax) }

/-! ## Arithmetic -/

/-- `stc`. -/
@[simp] def stc : Machine δ ι := { m with cf := true }

/-- `clc`. -/
@[simp] def clc : Machine δ ι := { m with cf := false }

/-- `inc r`: the carry flag stays. -/
@[simp] def inc (r : Reg) : Machine δ ι := { m.setReg r (m.reg r + 1) with zf := m.reg r + 1 = 0 }

/-- `dec r`: the carry flag stays. -/
@[simp] def dec (r : Reg) : Machine δ ι := { m.setReg r (m.reg r - 1) with zf := m.reg r - 1 = 0 }

/-- `dec r` on a byte. -/
@[simp] def decb (r : Reg8) : Machine δ ι :=
  { m.setReg8 r (m.reg8 r - 1) with zf := m.reg8 r - 1 = 0 }

/-- `inc byte [a]`. -/
@[simp] def incMemb (a : Word) : Machine δ ι :=
  { m with mem := m.mem.set a (m.mem a + 1), zf := m.mem a + 1 = 0 }

/-- `dec byte [a]`. -/
@[simp] def decMemb (a : Word) : Machine δ ι :=
  { m with mem := m.mem.set a (m.mem a - 1), zf := m.mem a - 1 = 0 }

/-- `inc word [a]`. -/
@[simp] def incMem (a : Word) : Machine δ ι :=
  { m with mem := m.mem.setWord a (m.mem.word a + 1), zf := m.mem.word a + 1 = 0 }

/-- `add r, v`. -/
@[simp] def add (r : Reg) (v : Machine δ ι → Word) : Machine δ ι :=
  { m.setReg r (m.reg r + v m) with
    cf := 65536 ≤ (m.reg r).toNat + (v m).toNat
    zf := m.reg r + v m = 0 }

/-- `adc r, v`. -/
@[simp] def adc (r : Reg) (v : Machine δ ι → Word) : Machine δ ι :=
  { m.setReg r (m.reg r + v m + BitVec.ofNat 16 m.cf.toNat) with
    cf := 65536 ≤ (m.reg r).toNat + (v m).toNat + m.cf.toNat
    zf := m.reg r + v m + BitVec.ofNat 16 m.cf.toNat = 0 }

/-- `sub r, v`. -/
@[simp] def sub (r : Reg) (v : Machine δ ι → Word) : Machine δ ι :=
  { m.setReg r (m.reg r - v m) with
    cf := (m.reg r).toNat < (v m).toNat
    zf := m.reg r = v m }

/-- `sbb r, v`. -/
@[simp] def sbb (r : Reg) (v : Machine δ ι → Word) : Machine δ ι :=
  { m.setReg r (m.reg r - v m - BitVec.ofNat 16 m.cf.toNat) with
    cf := (m.reg r).toNat < (v m).toNat + m.cf.toNat
    zf := m.reg r - v m - BitVec.ofNat 16 m.cf.toNat = 0 }

/-- `add r, v` on bytes. -/
@[simp] def addb (r : Reg8) (v : Machine δ ι → Byte) : Machine δ ι :=
  { m.setReg8 r (m.reg8 r + v m) with
    cf := 256 ≤ (m.reg8 r).toNat + (v m).toNat
    zf := m.reg8 r + v m = 0 }

/-- `cmp v, w`. -/
@[simp] def cmp (v w : Machine δ ι → Word) : Machine δ ι :=
  { m with cf := (v m).toNat < (w m).toNat, zf := v m = w m }

/-- `cmp v, w` on bytes. -/
@[simp] def cmpb (v w : Machine δ ι → Byte) : Machine δ ι :=
  { m with cf := (v m).toNat < (w m).toNat, zf := v m = w m }

/-- `mul r`: `DX:AX = AX * r`. -/
@[simp] def mul (r : Reg) : Machine δ ι :=
  let p := m.ax.setWidth 32 * (m.reg r).setWidth 32
  { m with ax := loW p, dx := hiW p, cf := hiW p ≠ 0 }

/-- `mul r` on a byte: `AX = AL * r`. -/
@[simp] def mulb (r : Reg8) : Machine δ ι :=
  let p := (lo m.ax).setWidth 16 * (m.reg8 r).setWidth 16
  { m with ax := p, cf := hi p ≠ 0 }

/-- `div r` of `DX:AX` (a quotient that fits; the flags are undefined after
it and stay here). -/
@[simp] def div (r : Reg) : Machine δ ι :=
  { m with
    ax := loW (ofWords m.dx m.ax / (m.reg r).setWidth 32)
    dx := loW (ofWords m.dx m.ax % (m.reg r).setWidth 32) }

/-! ## Logic and shifts -/

/-- `and r, v` on bytes. -/
@[simp] def andb (r : Reg8) (v : Machine δ ι → Byte) : Machine δ ι :=
  { m.setReg8 r (m.reg8 r &&& v m) with cf := false, zf := m.reg8 r &&& v m = 0 }

/-- `or r, v` on bytes. -/
@[simp] def orb (r : Reg8) (v : Machine δ ι → Byte) : Machine δ ι :=
  { m.setReg8 r (m.reg8 r ||| v m) with cf := false, zf := m.reg8 r ||| v m = 0 }

/-- `xor r, v` on bytes. -/
@[simp] def xorb (r : Reg8) (v : Machine δ ι → Byte) : Machine δ ι :=
  { m.setReg8 r (m.reg8 r ^^^ v m) with cf := false, zf := m.reg8 r ^^^ v m = 0 }

/-- `and r, v`. -/
@[simp] def andw (r : Reg) (v : Machine δ ι → Word) : Machine δ ι :=
  { m.setReg r (m.reg r &&& v m) with cf := false, zf := m.reg r &&& v m = 0 }

/-- `or r, v`. -/
@[simp] def orw (r : Reg) (v : Machine δ ι → Word) : Machine δ ι :=
  { m.setReg r (m.reg r ||| v m) with cf := false, zf := m.reg r ||| v m = 0 }

/-- `xor r, v`. -/
@[simp] def xorw (r : Reg) (v : Machine δ ι → Word) : Machine δ ι :=
  { m.setReg r (m.reg r ^^^ v m) with cf := false, zf := m.reg r ^^^ v m = 0 }

/-- `or byte [a], v`. -/
@[simp] def orMemb (a : Word) (v : Byte) : Machine δ ι :=
  { m with mem := m.mem.set a (m.mem a ||| v), cf := false, zf := m.mem a ||| v = 0 }

/-- `or word [a], v`. -/
@[simp] def orMem (a : Word) (v : Word) : Machine δ ι :=
  { m with mem := m.mem.setWord a (m.mem.word a ||| v), cf := false, zf := m.mem.word a ||| v = 0 }

/-- `test v, w`. -/
@[simp] def test (v w : Machine δ ι → Word) : Machine δ ι :=
  { m with cf := false, zf := v m &&& w m = 0 }

/-- `test v, w` on bytes. -/
@[simp] def testb (v w : Machine δ ι → Byte) : Machine δ ι :=
  { m with cf := false, zf := v m &&& w m = 0 }

/-- `shl r, 1`. -/
@[simp] def shl1 (r : Reg) : Machine δ ι :=
  { m.setReg r (m.reg r <<< 1) with cf := (m.reg r).msb, zf := m.reg r <<< 1 = 0 }

/-- `shr r, 1`. -/
@[simp] def shr1 (r : Reg) : Machine δ ι :=
  { m.setReg r (m.reg r >>> 1) with cf := (m.reg r).getLsbD 0, zf := m.reg r >>> 1 = 0 }

/-- `rcl r, 1`. -/
@[simp] def rcl1 (r : Reg) : Machine δ ι :=
  { m.setReg r (m.reg r <<< 1 ||| BitVec.ofNat 16 m.cf.toNat) with cf := (m.reg r).msb }

/-- `rcr r, 1`. -/
@[simp] def rcr1 (r : Reg) : Machine δ ι :=
  { m.setReg r (m.reg r >>> 1 ||| BitVec.ofNat 16 m.cf.toNat <<< 15) with
    cf := (m.reg r).getLsbD 0 }

/-- `shl r, n` on a byte (`0 < n`), an instruction of the 80186 and later. -/
@[simp] def shlb (r : Reg8) (n : Nat) : Machine δ ι :=
  { m.setReg8 r (m.reg8 r <<< n) with cf := (m.reg8 r).getLsbD (8 - n), zf := m.reg8 r <<< n = 0 }

/-- `shr r, n` on a byte (`0 < n`), of the 80186 and later too. -/
@[simp] def shrb (r : Reg8) (n : Nat) : Machine δ ι :=
  { m.setReg8 r (m.reg8 r >>> n) with cf := (m.reg8 r).getLsbD (n - 1), zf := m.reg8 r >>> n = 0 }

/-! ## Strings -/

/-- `lodsb`. -/
@[simp] def lodsb : Machine δ ι := { m with ax := ofBytes (hi m.ax) (m.mem m.si), si := m.si + 1 }

/-- `lodsw`. -/
@[simp] def lodsw : Machine δ ι := { m with ax := m.mem.word m.si, si := m.si + 2 }

/-- `stosb`. -/
@[simp] def stosb : Machine δ ι := { m with mem := m.mem.set m.di (lo m.ax), di := m.di + 1 }

/-- `stosw`. -/
@[simp] def stosw : Machine δ ι := { m with mem := m.mem.setWord m.di m.ax, di := m.di + 2 }

/-- `movsb`. -/
def movsb : Machine δ ι :=
  { m with mem := m.mem.set m.di (m.mem m.si), si := m.si + 1, di := m.di + 1 }

/-- `rep movsb`, `n` times round. -/
def repMovsbN : Nat → Machine δ ι → Machine δ ι
  | 0, m => m
  | n + 1, m => repMovsbN n { m.movsb with cx := m.cx - 1 }

/-- `rep movsb`. -/
def repMovsb : Machine δ ι := repMovsbN m.cx.toNat m

/-- `repe cmpsb`, at most `n` times round: up to the first difference. -/
def repeCmpsbN : Nat → Machine δ ι → Machine δ ι
  | 0, m => m
  | n + 1, m =>
    let m' := { m with
      cf := (m.mem m.si).toNat < (m.mem m.di).toNat
      zf := m.mem m.si = m.mem m.di
      si := m.si + 1, di := m.di + 1, cx := m.cx - 1 }
    if m'.zf then repeCmpsbN n m' else m'

/-- `repe cmpsb`. -/
def repeCmpsb : Machine δ ι := repeCmpsbN m.cx.toNat m

/-! ## Ports -/

/-- `in al, p`. -/
@[simp] def inAl [Ports ι] (p : Machine δ ι → Word) : Machine δ ι :=
  { m with
    ax := ofBytes (hi m.ax) (Ports.inp (p m) m.io).1
    io := (Ports.inp (p m) m.io).2 }

/-- `out p, al`. -/
@[simp] def outAl [Ports ι] (p : Machine δ ι → Word) : Machine δ ι :=
  { m with io := Ports.out (p m) (lo m.ax) m.io }

/-! ## Jumps and loops -/

variable {β : Type} (taken next : Machine δ ι → β)

/-- `jc`, `jb`. -/
@[simp] def jc : β := if m.cf then taken m else next m

/-- `jnc`, `jae`. -/
@[simp] def jnc : β := if m.cf then next m else taken m

/-- `jz`, `je`. -/
@[simp] def jz : β := if m.zf then taken m else next m

/-- `jnz`, `jne`. -/
@[simp] def jnz : β := if m.zf then next m else taken m

/-- `ja`. -/
@[simp] def ja : β := if m.cf || m.zf then next m else taken m

/-- `jbe`. -/
@[simp] def jbe : β := if m.cf || m.zf then taken m else next m

/-- `jcxz`. -/
@[simp] def jcxz : β := if m.cx = 0 then taken m else next m

end

section

variable {β : Type} {m : Machine δ ι} {taken next : Machine δ ι → β}

theorem jc_pos (h : m.cf = true) : m.jc taken next = taken m := if_pos h
theorem jc_neg (h : m.cf = false) : m.jc taken next = next m := if_neg (h ▸ Bool.false_ne_true)
theorem jnc_pos (h : m.cf = false) : m.jnc taken next = taken m := if_neg (h ▸ Bool.false_ne_true)
theorem jnc_neg (h : m.cf = true) : m.jnc taken next = next m := if_pos h
theorem jz_pos (h : m.zf = true) : m.jz taken next = taken m := if_pos h
theorem jz_neg (h : m.zf = false) : m.jz taken next = next m := if_neg (h ▸ Bool.false_ne_true)
theorem jnz_pos (h : m.zf = false) : m.jnz taken next = taken m := if_neg (h ▸ Bool.false_ne_true)
theorem jnz_neg (h : m.zf = true) : m.jnz taken next = next m := if_pos h
theorem jcxz_pos (h : m.cx = 0) : m.jcxz taken next = taken m := if_pos h
theorem jcxz_neg (h : m.cx ≠ 0) : m.jcxz taken next = next m := if_neg h

theorem jc_cases {P : β → Prop} (ht : m.cf = true → P (taken m)) (hn : m.cf = false → P (next m)) :
    P (m.jc taken next) := by
  cases h : m.cf with
  | true =>
    rw [jc_pos h]
    exact ht h
  | false =>
    rw [jc_neg h]
    exact hn h

theorem jnc_cases {P : β → Prop} (ht : m.cf = false → P (taken m)) (hn : m.cf = true → P (next m)) :
    P (m.jnc taken next) := by
  cases h : m.cf with
  | false =>
    rw [jnc_pos h]
    exact ht h
  | true =>
    rw [jnc_neg h]
    exact hn h

theorem jz_cases {P : β → Prop} (ht : m.zf = true → P (taken m)) (hn : m.zf = false → P (next m)) :
    P (m.jz taken next) := by
  cases h : m.zf with
  | true =>
    rw [jz_pos h]
    exact ht h
  | false =>
    rw [jz_neg h]
    exact hn h

theorem jnz_cases {P : β → Prop} (ht : m.zf = false → P (taken m)) (hn : m.zf = true → P (next m)) :
    P (m.jnz taken next) := by
  cases h : m.zf with
  | false =>
    rw [jnz_pos h]
    exact ht h
  | true =>
    rw [jnz_neg h]
    exact hn h

theorem ja_cmp_cases {P : β → Prop} {v w : Machine δ ι → Word}
    (ht : (w m).toNat < (v m).toNat → P (taken (m.cmp v w)))
    (hn : (v m).toNat ≤ (w m).toNat → P (next (m.cmp v w))) : P ((m.cmp v w).ja taken next) := by
  rw [ja]
  split <;> rename_i h <;> simp only [cmp, Bool.or_eq_true, decide_eq_true_eq,
    ← BitVec.toNat_inj] at h
  · exact hn (by omega)
  · exact ht (by omega)

theorem ja_cmpb_cases {P : β → Prop} {v w : Machine δ ι → Byte}
    (ht : (w m).toNat < (v m).toNat → P (taken (m.cmpb v w)))
    (hn : (v m).toNat ≤ (w m).toNat → P (next (m.cmpb v w))) : P ((m.cmpb v w).ja taken next) := by
  rw [ja]
  split <;> rename_i h <;> simp only [cmpb, Bool.or_eq_true, decide_eq_true_eq,
    ← BitVec.toNat_inj] at h
  · exact hn (by omega)
  · exact ht (by omega)

end

/-- `L: body; loop L`, where `body` may jump out; `fall` is the code after
the loop. -/
def loopE {τ : Type} (body : Machine δ ι → Flow (Machine δ ι) τ) (fall : Machine δ ι → τ)
    (m : Machine δ ι) : τ :=
  iter (fun m => match body m with
    | .done t => .done t
    | .next m => if m.cx - 1 = 0 then .done (fall { m with cx := m.cx - 1 })
        else .next { m with cx := m.cx - 1 }) fall 65536 m

/-- `L: body; loop L`. -/
def loop (body : Machine δ ι → Machine δ ι) (m : Machine δ ι) : Machine δ ι :=
  loopE (fun m => .next (body m)) id m

/-- `L: jcxz out; body; dec cx; jmp L`. -/
def whileCx (body : Machine δ ι → Machine δ ι) (m : Machine δ ι) : Machine δ ι :=
  iter (fun m => if m.cx = 0 then .done m else .next ((body m).dec .cx)) id 65536 m

/-- `L: body; jnz L`. -/
def loopNz (body : Machine δ ι → Machine δ ι) (m : Machine δ ι) : Machine δ ι :=
  iter (fun m => if (body m).zf then .done (body m) else .next (body m)) id 65536 m

/-- A `loop` of `n` turns: what one turn keeps, given how many are left, holds
of the result. -/
theorem loopE_rule {τ : Type} {body : Machine δ ι → Flow (Machine δ ι) τ} {fall : Machine δ ι → τ}
    (I : Nat → Machine δ ι → Prop) (Q : τ → Prop)
    (hbody : ∀ k m, I (k + 1) m → m.cx = BitVec.ofNat 16 (k + 1) →
      (body m).Sat (fun m' => m'.cx = m.cx ∧ I k { m' with cx := BitVec.ofNat 16 k }) Q)
    (hfall : ∀ m, I 0 m → m.cx = 0 → Q (fall m))
    {n : Nat} (h0 : 0 < n) (hn : n ≤ 65536) {m : Machine δ ι} (hI : I n m)
    (hcx : m.cx = BitVec.ofNat 16 n) : Q (loopE body fall m) := by
  suffices h : ∀ f n m, 0 < n → n ≤ f → n ≤ 65536 → I n m → m.cx = BitVec.ofNat 16 n →
      Q (iter (fun m => match body m with
        | .done t => .done t
        | .next m => if m.cx - 1 = 0 then .done (fall { m with cx := m.cx - 1 })
            else .next { m with cx := m.cx - 1 }) fall f m) from h _ n m h0 hn hn hI hcx
  intro f
  induction f with
  | zero => intro n m h0 hf; omega
  | succ f ih =>
    intro n m h0 hf hn hI hcx
    obtain ⟨k, rfl⟩ : ∃ k, n = k + 1 := ⟨n - 1, by omega⟩
    have hb := hbody k m hI hcx
    rw [iter]
    cases hs : body m with
    | done t =>
      rw [hs] at hb
      exact hb
    | next m' =>
      rw [hs] at hb
      obtain ⟨hcx', hI'⟩ := hb
      have e : m'.cx - 1 = BitVec.ofNat 16 k := by rw [hcx', hcx, ofNat_succ_sub_one]
      simp only [e]
      by_cases hk : k = 0
      · subst hk
        exact hfall _ hI' rfl
      · rw [if_neg]
        · exact ih k _ (by omega) (by omega) (by omega) hI' rfl
        · intro h
          have := congrArg BitVec.toNat h
          rw [BitVec.toNat_ofNat] at this
          simp at this
          omega

/-- A `loop` whose turns may be replaced: where the loop comes by, both bodies
do the same. -/
theorem loopE_congr {τ : Type} {body body' : Machine δ ι → Flow (Machine δ ι) τ}
    {fall : Machine δ ι → τ} (I : Nat → Machine δ ι → Prop)
    (heq : ∀ k m, I (k + 1) m → m.cx = BitVec.ofNat 16 (k + 1) → body' m = body m)
    (hnext : ∀ k m m', I (k + 1) m → m.cx = BitVec.ofNat 16 (k + 1) → body m = .next m' →
      m'.cx = m.cx ∧ I k { m' with cx := BitVec.ofNat 16 k })
    {n : Nat} (h0 : 0 < n) {m : Machine δ ι} (hI : I n m) (hcx : m.cx = BitVec.ofNat 16 n) :
    loopE body' fall m = loopE body fall m := by
  let J : Machine δ ι → Prop := fun m => ∃ k, I (k + 1) m ∧ m.cx = BitVec.ofNat 16 (k + 1)
  refine iter_congr J (fun s ⟨k, hI, hcx⟩ => ?_) (fun s s' ⟨k, hI, hcx⟩ hs => ?_) _ m
    ⟨n - 1, by rwa [Nat.sub_add_cancel h0], by rwa [Nat.sub_add_cancel h0]⟩
  · rw [heq k s hI hcx]
  · cases hb : body s with
    | done t =>
      rw [hb] at hs
      cases hs
    | next m' =>
      obtain ⟨hcx', hI'⟩ := hnext k s m' hI hcx hb
      have e : m'.cx - 1 = BitVec.ofNat 16 k := by rw [hcx', hcx, ofNat_succ_sub_one]
      rw [hb] at hs
      simp only [e] at hs
      split at hs
      · cases hs
      · rename_i hk
        obtain ⟨j, rfl⟩ : ∃ j, k = j + 1 := ⟨k - 1, by
          have : k ≠ 0 := by rintro rfl; exact hk rfl
          omega⟩
        obtain rfl := Flow.next.inj hs
        exact ⟨j, hI', rfl⟩

/-- `loop L`, taken until CX is counted down. -/
def loopTo {β : Type} (m : Machine δ ι) (taken next : Machine δ ι → β) : β :=
  if m.cx - 1 = 0 then next { m with cx := m.cx - 1 } else taken { m with cx := m.cx - 1 }

/-- What `loop L` makes of a turn of a loop: `enter` is what stands at `L`
before the turn begins, `behind` what follows the loop. -/
def afterTurn {τ ρ : Type} (enter : Machine δ ι → Machine δ ι)
    (behind : Machine δ ι → Flow (Machine δ ι) ρ)
    (out : τ → Flow (Machine δ ι) ρ) : Flow (Machine δ ι) τ → Flow (Machine δ ι) ρ
  | .next m => m.loopTo (.next ∘ enter) behind
  | .done t => out t

/-- A loop of `n` turns, each of which takes at most `c` steps of the code as its
labels lie: so it takes at most `c * n` of them. -/
theorem loopE_takes {τ ρ : Type} {body : Machine δ ι → Flow (Machine δ ι) τ}
    {fall : Machine δ ι → τ} {enter : Machine δ ι → Machine δ ι}
    {step behind : Machine δ ι → Flow (Machine δ ι) ρ} {out : τ → Flow (Machine δ ι) ρ}
    {c : Nat} (hcx : ∀ m m', body m = .next m' → m'.cx = m.cx)
    (hturn : ∀ m, ∃ i < c, ∃ m', Takes step i (enter m) m' ∧
      step m' = afterTurn enter behind out (body m))
    (hfall : ∀ m, behind m = out (fall m))
    {n : Nat} (h0 : 0 < n) (hn : n ≤ 65536) {m : Machine δ ι} (hm : m.cx = BitVec.ofNat 16 n) :
    ∃ i < c * n, ∃ m', Takes step i (enter m) m' ∧ step m' = out (loopE body fall m) := by
  let Q : τ → Prop := fun t => ∃ i < c * n, ∃ m', Takes step i (enter m) m' ∧ step m' = out t
  let Left : Nat → Machine δ ι → Prop := fun k m' =>
    if k = 0 then Q (fall m') else ∃ i, i + c * k ≤ c * n ∧ Takes step i (enter m) (enter m')
  have hbody : ∀ k m₁, Left (k + 1) m₁ → m₁.cx = BitVec.ofNat 16 (k + 1) →
      (body m₁).Sat (fun m' => m'.cx = m₁.cx ∧ Left k { m' with cx := BitVec.ofNat 16 k }) Q := by
    intro k m₁ hl hm₁
    obtain ⟨i, hi, ht⟩ : ∃ i, i + c * (k + 1) ≤ c * n ∧ Takes step i (enter m) (enter m₁) := by
      rwa [show Left (k + 1) m₁ = _ from if_neg (Nat.succ_ne_zero k)] at hl
    obtain ⟨j, hj, m₂, ht', hs⟩ := hturn m₁
    have hin : i + j < c * n := by
      rw [Nat.mul_succ] at hi
      omega
    cases e : body m₁ with
    | done t =>
      rw [e] at hs
      exact ⟨i + j, hin, m₂, ht.trans ht', hs⟩
    | next m' =>
      have hcx' := hcx m₁ m' e
      have hdec : m'.cx - 1 = BitVec.ofNat 16 k := by rw [hcx', hm₁, ofNat_succ_sub_one]
      rw [e, afterTurn, loopTo, hdec] at hs
      refine ⟨hcx', ?_⟩
      by_cases hk : k = 0
      · subst hk
        rw [if_pos (show BitVec.ofNat 16 0 = 0 from rfl)] at hs
        exact ⟨i + j, hin, m₂, ht.trans ht', hs.trans (hfall _)⟩
      · have hne : BitVec.ofNat 16 k ≠ 0 := fun hz => by
          have hlt : k < n := Nat.lt_of_mul_lt_mul_left (Nat.lt_of_lt_of_le
            (Nat.mul_lt_mul_of_pos_left (Nat.lt_succ_self k) (Nat.zero_lt_of_lt hj))
              (Nat.le_of_add_left_le hi))
          have hz' := congrArg BitVec.toNat hz
          rw [toNat_ofNat16 (by omega)] at hz'
          exact hk hz'
        rw [if_neg hne] at hs
        rw [show Left k _ = _ from if_neg hk]
        refine ⟨i + j + 1, ?_, (ht.trans ht').tail hs⟩
        rw [Nat.mul_succ] at hi
        omega
  have hstart : Left n m := by
    rw [show Left n m = _ from if_neg (Nat.ne_of_gt h0)]
    exact ⟨0, Nat.le_of_eq (Nat.zero_add _), .refl _⟩
  exact loopE_rule Left Q hbody (fun m' hl _ => by rwa [show Left 0 m' = _ from if_pos rfl] at hl)
    h0 hn hstart hm

/-- `loopE_rule` without jumps out. -/
theorem loop_rule {body : Machine δ ι → Machine δ ι} (I : Nat → Machine δ ι → Prop)
    (hbody : ∀ k m, I (k + 1) m → m.cx = BitVec.ofNat 16 (k + 1) →
      (body m).cx = m.cx ∧ I k { body m with cx := BitVec.ofNat 16 k })
    {n : Nat} (h0 : 0 < n) (hn : n ≤ 65536) {m : Machine δ ι} (hI : I n m)
    (hcx : m.cx = BitVec.ofNat 16 n) : I 0 (loop body m) ∧ (loop body m).cx = 0 := by
  let Q : Machine δ ι → Prop := fun m => I 0 m ∧ m.cx = 0
  have hb : ∀ k m, I (k + 1) m → m.cx = BitVec.ofNat 16 (k + 1) →
      (Flow.next (body m) : Flow (Machine δ ι) (Machine δ ι)).Sat
        (fun m' => m'.cx = m.cx ∧ I k { m' with cx := BitVec.ofNat 16 k }) Q := hbody
  exact loopE_rule I Q hb (fun _ hI hcx => ⟨hI, hcx⟩) h0 hn hI hcx

/-- A `jcxz` loop of `n` turns. -/
theorem whileCx_rule {body : Machine δ ι → Machine δ ι} (I : Nat → Machine δ ι → Prop)
    (hbody : ∀ k m, I (k + 1) m → m.cx = BitVec.ofNat 16 (k + 1) →
      (body m).cx = m.cx ∧ I k ((body m).dec .cx))
    {n : Nat} (hn : n < 65536) {m : Machine δ ι} (hI : I n m)
    (hcx : m.cx = BitVec.ofNat 16 n) : I 0 (whileCx body m) ∧ (whileCx body m).cx = 0 := by
  suffices h : ∀ f n m, n < f → n < 65536 → I n m → m.cx = BitVec.ofNat 16 n →
      I 0 (iter (fun m => if m.cx = 0 then .done m else .next ((body m).dec .cx)) id f m) ∧
      (iter (fun m => if m.cx = 0 then .done m else .next ((body m).dec .cx)) id f m).cx = 0 from
    h _ n m hn hn hI hcx
  intro f
  induction f with
  | zero => intro n m hf; omega
  | succ f ih =>
    intro n m hf hn hI hcx
    cases n with
    | zero =>
      have e : m.cx = 0 := hcx
      rw [iter, if_pos e]
      exact ⟨hI, e⟩
    | succ k =>
      have hne : ¬ m.cx = 0 := by
        rw [hcx]
        intro h
        have := congrArg BitVec.toNat h
        rw [BitVec.toNat_ofNat] at this
        simp at this
        omega
      obtain ⟨hcx', hI'⟩ := hbody k m hI hcx
      rw [iter, if_neg hne]
      refine ih k _ (by omega) (by omega) hI' ?_
      simp only [dec, reg, setReg, hcx', hcx, ofNat_succ_sub_one]

/-- A `jnz` loop of `n` turns, its zero flag set by the last one only. -/
theorem loopNz_rule {body : Machine δ ι → Machine δ ι} (I : Nat → Machine δ ι → Prop)
    (hbody : ∀ k m, I (k + 1) m → I k (body m) ∧ ((body m).zf = true ↔ k = 0))
    {n : Nat} (h0 : 0 < n) (hn : n ≤ 65536) {m : Machine δ ι} (hI : I n m) :
    I 0 (loopNz body m) := by
  suffices h : ∀ f n m, 0 < n → n ≤ f → I n m →
      I 0 (iter (fun m => if (body m).zf then .done (body m) else .next (body m)) id f m) from
    h _ n m h0 hn hI
  intro f
  induction f with
  | zero => intro n m h0 hf; omega
  | succ f ih =>
    intro n m h0 hf hI
    obtain ⟨k, rfl⟩ : ∃ k, n = k + 1 := ⟨n - 1, by omega⟩
    obtain ⟨hI', hz⟩ := hbody k m hI
    rw [iter]
    by_cases hk : k = 0
    · subst hk
      rw [if_pos (hz.mpr rfl)]
      exact hI'
    · rw [if_neg fun h => hk (hz.mp h)]
      exact ih k _ (by omega) (by omega) hI'

/-- A `jnz` loop by a rank that every turn round lowers. -/
theorem loopNz_rank {body : Machine δ ι → Machine δ ι} (I Q : Machine δ ι → Prop)
    (rank : Machine δ ι → Nat)
    (hround : ∀ m, I m → (body m).zf = false → I (body m) ∧ rank (body m) < rank m)
    (hlast : ∀ m, I m → (body m).zf = true → Q (body m)) {m : Machine δ ι} (hI : I m)
    (hr : rank m < 65536) : Q (loopNz body m) := by
  refine iter_rule I Q rank (fun s hs => ?_) _ m hI hr
  cases hz : (body s).zf with
  | true => exact hlast s hs hz
  | false => exact hround s hs hz

/-- What every turn keeps, and does not depend on the counter, holds where the
loop leaves. -/
theorem loopE_keeps {τ : Type} {body : Machine δ ι → Flow (Machine δ ι) τ} {fall : Machine δ ι → τ}
    (I : Machine δ ι → Prop) (Q : τ → Prop) (hcx : ∀ m w, I m → I { m with cx := w })
    (hbody : ∀ m, I m → (body m).Sat I Q) (hfall : ∀ m, I m → Q (fall m))
    {m : Machine δ ι} (h : I m) :
    Q (loopE body fall m) := by
  refine iter_keeps I Q (fun s hs => ?_) hfall _ m h
  have hb := hbody s hs
  cases e : body s with
  | done t =>
    rw [e] at hb
    exact hb
  | next m' =>
    rw [e] at hb
    show Flow.Sat I Q (if m'.cx - 1 = 0 then _ else _)
    split
    · exact hfall _ (hcx _ _ hb)
    · exact hcx _ _ hb

/-- `loopE_keeps` without jumps out. -/
theorem loop_keeps {body : Machine δ ι → Machine δ ι} (I : Machine δ ι → Prop)
    (hcx : ∀ m w, I m → I { m with cx := w })
    (hbody : ∀ m, I m → I (body m)) {m : Machine δ ι} (h : I m) : I (loop body m) := by
  have hb : ∀ m, I m → (Flow.next (body m) : Flow (Machine δ ι) (Machine δ ι)).Sat I I := hbody
  exact loopE_keeps I I hcx hb (fun _ => id) h

/-- What the body keeps a `jnz` loop keeps. -/
theorem loopNz_keeps {body : Machine δ ι → Machine δ ι} (I : Machine δ ι → Prop)
    (hbody : ∀ m, I m → I (body m)) {m : Machine δ ι} (h : I m) : I (loopNz body m) := by
  refine iter_keeps I I (fun s hs => ?_) (fun _ => id) _ m h
  split <;> exact hbody s hs

/-- How many turns a `loop` with this counter makes. -/
theorem exists_turns (w : Word) : ∃ n, 0 < n ∧ n ≤ 65536 ∧ w = BitVec.ofNat 16 n := by
  by_cases h : w = 0
  · exact ⟨65536, by decide, le_rfl, by rw [h]; rfl⟩
  · refine ⟨w.toNat, ?_, w.isLt.le, (BitVec.ofNat_toNat 16 w).symm ▸ (BitVec.setWidth_eq w).symm⟩
    exact Nat.pos_of_ne_zero fun h0 => h (BitVec.eq_of_toNat_eq h0)

/-- `L: loop L`. -/
theorem loop_id (m : Machine δ ι) : loop id m = { m with cx := 0 } := by
  obtain ⟨n, h0, hn, hcx⟩ := exists_turns m.cx
  let I : Nat → Machine δ ι → Prop := fun _ m' => ∃ w, m' = { m with cx := w }
  have hstep : ∀ k m', I (k + 1) m' → m'.cx = BitVec.ofNat 16 (k + 1) →
      (id m').cx = m'.cx ∧ I k { id m' with cx := BitVec.ofNat 16 k } := by
    rintro k _ ⟨w, rfl⟩ _
    exact ⟨rfl, _, rfl⟩
  obtain ⟨⟨w, h⟩, hz⟩ := loop_rule I hstep h0 hn ⟨m.cx, rfl⟩ hcx
  rw [h] at hz ⊢
  have hw : w = 0 := hz
  rw [hw]

/-! ## A double word in DX:AX -/

/-- A loop that shifts DX:AX by one bit each turn. -/
theorem shiftLoop_ok (f : DWord → DWord) {body : Machine δ ι → Machine δ ι}
    (hbody : ∀ m, ∃ a d c z, body m = { m with ax := a, dx := d, cf := c, zf := z } ∧
      ofWords d a = f (ofWords m.dx m.ax))
    (m : Machine δ ι) {n : Nat} (h0 : 0 < n) (hn : n ≤ 65536) (hcx : m.cx = BitVec.ofNat 16 n) :
    ∃ c z, m.loop body = { m with
      ax := loW (f^[n] (ofWords m.dx m.ax)), dx := hiW (f^[n] (ofWords m.dx m.ax)), cx := 0,
      cf := c, zf := z } := by
  let I : Nat → Machine δ ι → Prop := fun k m' => k ≤ n ∧ ∃ a w d c z,
    m' = { m with ax := a, cx := w, dx := d, cf := c, zf := z } ∧
    ofWords d a = f^[n - k] (ofWords m.dx m.ax)
  have hstep : ∀ k m', I (k + 1) m' → m'.cx = BitVec.ofNat 16 (k + 1) →
      (body m').cx = m'.cx ∧ I k { body m' with cx := BitVec.ofNat 16 k } := by
    rintro k m' ⟨hk, a, w, d, c, z, hm, hs⟩ -
    obtain ⟨a', d', c', z', e, hs'⟩ := hbody m'
    rw [e]
    subst hm
    refine ⟨rfl, Nat.le_of_succ_le hk, a', BitVec.ofNat 16 k, d', c', z', rfl, ?_⟩
    rw [hs', show n - k = n - (k + 1) + 1 by omega, Function.iterate_succ_apply', ← hs]
  have hI : I n m := ⟨le_rfl, m.ax, m.cx, m.dx, m.cf, m.zf, rfl, by rw [Nat.sub_self]; rfl⟩
  obtain ⟨⟨-, a, w, d, c, z, e, hs⟩, hw⟩ := loop_rule I hstep h0 hn hI hcx
  rw [e] at hw
  have hw' : w = 0 := hw
  refine ⟨c, z, ?_⟩
  rw [e, hw', ← show ofWords d a = f^[n] (ofWords m.dx m.ax) from hs, loW_ofWords, hiW_ofWords]

theorem shrBody_ok (m : Machine δ ι) : ∃ a d c z, (m |>.shr1 .dx |>.rcr1 .ax) =
    { m with ax := a, dx := d, cf := c, zf := z } ∧ ofWords d a = ofWords m.dx m.ax >>> 1 := by
  simp only [shr1, rcr1, reg, setReg]
  exact ⟨_, _, _, _, rfl, (ofWords_shr1 m.dx m.ax).symm⟩

theorem shlBody_ok (m : Machine δ ι) : ∃ a d c z, (m |>.shl1 .ax |>.rcl1 .dx) =
    { m with ax := a, dx := d, cf := c, zf := z } ∧ ofWords d a = ofWords m.dx m.ax <<< 1 := by
  simp only [shl1, rcl1, reg, setReg]
  exact ⟨_, _, _, _, rfl, (ofWords_shl1 m.dx m.ax).symm⟩

/-! ## String instructions -/

/-- `rep movsb` between regions apart is a string stored. -/
theorem repMovsb_eq (m : Machine δ ι) (h : Region.Apart ⟨m.si, m.cx.toNat⟩ ⟨m.di, m.cx.toNat⟩) :
    m.repMovsb = { m with
      mem := m.mem.store m.di (m.mem.bytes m.si m.cx.toNat), si := m.si + m.cx, di := m.di + m.cx,
      cx := 0 } := by
  suffices hn : ∀ (n : Nat) (m : Machine δ ι), n ≤ 65536 → Region.Apart ⟨m.si, n⟩ ⟨m.di, n⟩ →
      repMovsbN n m = { m with
        mem := m.mem.store m.di (m.mem.bytes m.si n), si := m.si + BitVec.ofNat 16 n
        di := m.di + BitVec.ofNat 16 n, cx := m.cx - BitVec.ofNat 16 n } by
    rw [repMovsb, hn _ m m.cx.isLt.le h, BitVec.ofNat_toNat, BitVec.setWidth_eq, BitVec.sub_self]
    rfl
  intro n
  induction n with
  | zero => intro m _ _; simp [repMovsbN, Mem.bytes, Mem.store]
  | succ n ih =>
    intro m hle h
    have hsub : ∀ a : Word, Region.Sub ⟨a + 1, n⟩ ⟨a, n + 1⟩ := fun a => Region.sub_of_le (by
      rw [BitVec.add_comm, BitVec.add_sub_cancel]
      show 1 + n ≤ n + 1
      omega)
    have hb : (m.mem.set m.di (m.mem m.si)).bytes (m.si + 1) n = m.mem.bytes (m.si + 1) n :=
      have hf : Frame [⟨m.di, 1⟩] m.mem (m.mem.set m.di (m.mem m.si)) :=
        (Frame.refl _ _).set _ ⟨_, List.mem_singleton_self _, Region.has_base _ Nat.one_pos⟩
      hf.bytes (by omega) fun r hr => by
        rw [List.mem_singleton.mp hr]
        exact fun x hx hx' => h x (hsub _ x hx) (by
          rw [Region.has_one hx']
          exact Region.has_base _ (Nat.succ_pos _))
    have happ : Region.Apart ⟨m.si + 1, n⟩ ⟨m.di + 1, n⟩ :=
      fun x hx hx' => h x (hsub _ x hx) (hsub _ x hx')
    have ih' := ih { m.movsb with cx := m.cx - 1 } (by omega) happ
    rw [repMovsbN, ih']
    simp only [movsb, hb, Mem.bytes, Mem.store, Mem.add_ofNat_succ]
    rw [show m.cx - 1 - BitVec.ofNat 16 n = m.cx - BitVec.ofNat 16 (n + 1) by
      rw [BitVec.ofNat_add]; bv_omega]

/-- `jcxz` over a `rep` changes nothing. -/
theorem jcxz_repMovsb (m : Machine δ ι) : m.jcxz id (·.repMovsb) = m.repMovsb := by
  rw [jcxz]
  split
  · rename_i h
    rw [repMovsb, h]
    rfl
  · rfl

attribute [irreducible] loopE loop whileCx loopNz

end Machine

/-- An immediate operand. -/
abbrev imm {δ ι : Type} {w : Nat} (v : BitVec w) : Machine δ ι → BitVec w := fun _ => v

end VintageKvm.I8086
