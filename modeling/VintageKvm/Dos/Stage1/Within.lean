import VintageKvm.Dos.Stage1.Console
import Mathlib.Logic.Relation
import Mathlib.Data.List.Infix

/-!
# Stage 1: what a routine leaves alone

`Within` is all of memory outside the regions a routine names, the stack and
the segments; what it does on the link is steps of a relation that may depend
on the port base. `Keeps` adds that of DOS it uses the console and the clock
only, and `Still` that there is nothing else to see: no store, no link. All
compose, so that a sequence of routines is framed by its parts.
-/

namespace VintageKvm.Stage1

open I8086 Machine Dos

variable {ι : Type} {r r' : Word → ι → ι → Prop} {rs rs' : List Region}
  {m m' m₁ m₂ m₃ : Machine DosState ι}

/-- All of a machine but its registers and flags. -/
def core (m : Machine DosState ι) :
    Word × Word × Word × List Word × Mem × List Byte × DosState × ι :=
  (m.cs, m.ds, m.es, m.stk, m.mem, m.got, m.dos, m.io)

/-- Only registers and flags differ. -/
def SameCore (m m' : Machine DosState ι) : Prop := core m' = core m

/-- `m'` differs from `m` in memory within `rs` only, has its stack and
segments, and was reached by steps of `r` on the link. -/
structure Within (r : Word → ι → ι → Prop) (rs : List Region) (m m' : Machine DosState ι) :
    Prop where
  cs : m'.cs = m.cs
  ds : m'.ds = m.ds
  es : m'.es = m.es
  stk : m'.stk = m.stk
  mem : Frame rs m.mem m'.mem
  base : m'.mem.word lptBase = m.mem.word lptBase
  got : m.got <+: m'.got
  link : Relation.ReflTransGen (r (m.mem.word lptBase)) m.io m'.io

/-- `Within`, and only the console and the clock of DOS are used. -/
structure Keeps (r : Word → ι → ι → Prop) (rs : List Region) (m m' : Machine DosState ι) : Prop
    extends Within r rs m m' where
  dos : DosState.Quiet m.dos m'.dos

namespace Within

theorem trans (h₁ : Within r rs m₁ m₂) (h₂ : Within r rs m₂ m₃) : Within r rs m₁ m₃ where
  cs := h₂.cs.trans h₁.cs
  ds := h₂.ds.trans h₁.ds
  es := h₂.es.trans h₁.es
  stk := h₂.stk.trans h₁.stk
  mem := h₁.mem.trans h₂.mem
  base := h₂.base.trans h₁.base
  got := h₁.got.trans h₂.got
  link := h₁.link.trans (h₁.base ▸ h₂.link)

theorem mono (h : Within r rs m m') (hs : ∀ s ∈ rs, s ∈ rs') : Within r rs' m m' :=
  { h with mem := h.mem.mono hs }

/-- Registers and flags do not matter. -/
theorem congr (h : Within r rs m₁ m₂) (e₁ : SameCore m m₁) (e₂ : SameCore m₂ m') :
    Within r rs m m' := by
  simp only [SameCore, core, Prod.mk.injEq] at e₁ e₂
  obtain ⟨hcs, hds, hes, hstk, hmem, hgot, -, hio⟩ := e₁
  obtain ⟨hcs', hds', hes', hstk', hmem', hgot', -, hio'⟩ := e₂
  refine ⟨?_, ?_, ?_, ?_, ?_, ?_, ?_, ?_⟩
  · rw [← hcs, hcs', h.cs]
  · rw [← hds, hds', h.ds]
  · rw [← hes, hes', h.es]
  · rw [← hstk, hstk', h.stk]
  · rw [← hmem, hmem']
    exact h.mem
  · rw [← hmem, hmem', h.base]
  · rw [← hgot, hgot']
    exact h.got
  · rw [← hmem, ← hio, hio']
    exact h.link

end Within

namespace Keeps

theorem refl (m : Machine DosState ι) : Keeps r rs m m :=
  ⟨⟨rfl, rfl, rfl, rfl, .refl _ _, rfl, List.prefix_rfl, .refl⟩, .refl _⟩

theorem trans (h₁ : Keeps r rs m₁ m₂) (h₂ : Keeps r rs m₂ m₃) : Keeps r rs m₁ m₃ :=
  ⟨h₁.toWithin.trans h₂.toWithin, h₁.dos.trans h₂.dos⟩

theorem mono (h : Keeps r rs m m') (hs : ∀ s ∈ rs, s ∈ rs') : Keeps r rs' m m' :=
  ⟨h.toWithin.mono hs, h.dos⟩

theorem congr (h : Keeps r rs m₁ m₂) (e₁ : SameCore m m₁) (e₂ : SameCore m₂ m') :
    Keeps r rs m m' := by
  refine ⟨h.toWithin.congr e₁ e₂, ?_⟩
  simp only [SameCore, core, Prod.mk.injEq] at e₁ e₂
  rw [← e₁.2.2.2.2.2.2.1, e₂.2.2.2.2.2.2.1]
  exact h.dos

/-- The memory changed. -/
theorem setMem {mem : Mem} (h : Frame rs m.mem mem) (hb : mem.word lptBase = m.mem.word lptBase) :
    Keeps r rs m { m with mem := mem } :=
  ⟨⟨rfl, rfl, rfl, rfl, h, hb, List.prefix_rfl, .refl⟩, .refl _⟩

/-- A byte stored. -/
theorem stb (h : Keeps r rs m m₁) {a : Word} {v : Machine DosState ι → Byte}
    (ha : (∃ s ∈ rs, s.Has a) ∧ a ≠ lptBase ∧ a ≠ lptBase + 1) : Keeps r rs m (m₁.stb (imm a) v) :=
  ⟨⟨h.cs, h.ds, h.es, h.stk, h.mem.set _ ha.1,
    (Mem.word_set_of_ne _ _ ha.2.1.symm ha.2.2.symm).trans h.base, h.got, h.link⟩, h.dos⟩

/-- A word stored. -/
theorem stw (h : Keeps r rs m m₁) {a : Word} {v : Machine DosState ι → Word}
    (ha : (∃ s ∈ rs, s.Has a) ∧ a ≠ lptBase ∧ a ≠ lptBase + 1)
    (ha' : (∃ s ∈ rs, s.Has (a + 1)) ∧ a + 1 ≠ lptBase ∧ a + 1 ≠ lptBase + 1) :
    Keeps r rs m (m₁.stw (imm a) v) :=
  (stb (v := fun _ => hi (v m₁)) (stb (v := fun _ => lo (v m₁)) h ha) ha').congr rfl rfl

/-- `push`, a part that keeps, `pop`. -/
theorem pop {v : Machine DosState ι → Word} (h : Keeps r rs (m.push v) m₁) {d : Reg} :
    Keeps r rs m (m₁.pop d) := by
  have hs : m₁.stk = v m :: m.stk := h.stk
  have ht : (m₁.pop d).stk = m.stk := by
    cases d <;> exact congrArg List.tail hs
  have he : SameCore { m₁ with stk := m.stk } (m₁.pop d) := by
    simp only [SameCore, core, ht]
    cases d <;> rfl
  have hk : Keeps r rs m { m₁ with stk := m.stk } :=
    ⟨⟨h.cs, h.ds, h.es, rfl, h.mem, h.base, h.got, h.link⟩, h.dos⟩
  exact hk.congr rfl he

end Keeps

/-! ## Printing -/

/-- Besides registers and flags, only the console and the clock of DOS differ. -/
structure Still (m m' : Machine DosState ι) : Prop where
  cs : m'.cs = m.cs
  ds : m'.ds = m.ds
  es : m'.es = m.es
  stk : m'.stk = m.stk
  mem : m'.mem = m.mem
  got : m'.got = m.got
  io : m'.io = m.io
  dos : DosState.Quiet m.dos m'.dos

theorem SameCore.still (h : SameCore m m') : Still m m' := by
  simp only [SameCore, core, Prod.mk.injEq] at h
  obtain ⟨hcs, hds, hes, hstk, hmem, hgot, hdos, hio⟩ := h
  exact ⟨hcs, hds, hes, hstk, hmem, hgot, hio, hdos ▸ .refl _⟩

theorem Within.still (h : Within r rs m m₁) (e : Still m₁ m') : Within r rs m m' where
  cs := e.cs.trans h.cs
  ds := e.ds.trans h.ds
  es := e.es.trans h.es
  stk := e.stk.trans h.stk
  mem := e.mem ▸ h.mem
  base := (congrArg (Mem.word · lptBase) e.mem).trans h.base
  got := e.got ▸ h.got
  link := e.io ▸ h.link

theorem Keeps.still (h : Keeps r rs m m₁) (e : Still m₁ m') : Keeps r rs m m' :=
  ⟨h.toWithin.still e, h.dos.trans e.dos⟩

theorem Still.keeps (h : Still m m') : Keeps r rs m m' := (Keeps.refl m).still h

namespace Still

theorem refl (m : Machine DosState ι) : Still m m := ⟨rfl, rfl, rfl, rfl, rfl, rfl, rfl, .refl _⟩

theorem trans (h₁ : Still m₁ m₂) (h₂ : Still m₂ m₃) : Still m₁ m₃ :=
  ⟨h₂.cs.trans h₁.cs, h₂.ds.trans h₁.ds, h₂.es.trans h₁.es, h₂.stk.trans h₁.stk,
    h₂.mem.trans h₁.mem, h₂.got.trans h₁.got, h₂.io.trans h₁.io, h₁.dos.trans h₂.dos⟩

theorem ofPrinted (h : Printed m m') : Still m m' := by
  obtain ⟨c, z, con, rfl⟩ := h
  exact ⟨rfl, rfl, rfl, rfl, rfl, rfl, rfl, con, m.dos.asked, rfl⟩

/-! One more step. -/

variable (h : Still m m₁)
include h

theorem mov {d : Reg} {v : Machine DosState ι → Word} : Still m (m₁.mov d v) := by
  refine h.trans (SameCore.still ?_)
  cases d <;> rfl

theorem setCx {w : Word} : Still m { m₁ with cx := w } := h.trans (SameCore.still rfl)

theorem movb {d : Reg8} {v : Machine DosState ι → Byte} : Still m (m₁.movb d v) := by
  refine h.trans (SameCore.still ?_)
  cases d <;> rfl

theorem xorb {d : Reg8} {v : Machine DosState ι → Byte} : Still m (m₁.xorb d v) := by
  refine h.trans (SameCore.still ?_)
  cases d <;> rfl

theorem xorw {d : Reg} {v : Machine DosState ι → Word} : Still m (m₁.xorw d v) := by
  refine h.trans (SameCore.still ?_)
  cases d <;> rfl

theorem andb {d : Reg8} {v : Machine DosState ι → Byte} : Still m (m₁.andb d v) := by
  refine h.trans (SameCore.still ?_)
  cases d <;> rfl

theorem orw {d : Reg} {v : Machine DosState ι → Word} : Still m (m₁.orw d v) := by
  refine h.trans (SameCore.still ?_)
  cases d <;> rfl

theorem add {d : Reg} {v : Machine DosState ι → Word} : Still m (m₁.add d v) := by
  refine h.trans (SameCore.still ?_)
  cases d <;> simp only [SameCore, core, Machine.add, setReg]

theorem sub {d : Reg} {v : Machine DosState ι → Word} : Still m (m₁.sub d v) := by
  refine h.trans (SameCore.still ?_)
  cases d <;> simp only [SameCore, core, Machine.sub, setReg]

theorem cmp {v w : Machine DosState ι → Word} : Still m (m₁.cmp v w) := h.trans (SameCore.still rfl)

theorem cmpb {v w : Machine DosState ι → Byte} : Still m (m₁.cmpb v w) :=
  h.trans (SameCore.still rfl)

theorem testb {v w : Machine DosState ι → Byte} : Still m (m₁.testb v w) :=
  h.trans (SameCore.still rfl)

theorem stc : Still m m₁.stc := h.trans (SameCore.still rfl)

theorem clc : Still m m₁.clc := h.trans (SameCore.still rfl)

theorem putsMsg {msg : Word} : Still m (putsMsg msg m₁) := by
  rw [putsMsg_ok]
  exact h.trans ⟨rfl, rfl, rfl, rfl, rfl, rfl, rfl, _, m₁.dos.asked, rfl⟩

theorem printHex8 : Still m (printHex8 m₁) := h.trans (ofPrinted (printHex8_ok m₁))

theorem printHex16 : Still m (printHex16 m₁) := h.trans (ofPrinted (printHex16_ok m₁))

theorem printHex32 : Still m (printHex32 m₁) := h.trans (ofPrinted (printHex32_ok m₁))

theorem printDec16 : Still m (printDec16 m₁) := h.trans (ofPrinted (printDec16_ok m₁))

end Still

end VintageKvm.Stage1
