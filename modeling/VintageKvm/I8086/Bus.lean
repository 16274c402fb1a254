import VintageKvm.I8086.Machine
import Mathlib.Logic.Relation

/-!
# A bus with an unknown peer

The ports of a machine whose two interrupt controllers keep their mask
registers (21h and A1h) and of which nothing else is known: every other read
returns the next of a fixed sequence of bytes, every other write is recorded.
A statement for every such sequence is a statement for every behaviour of the
hardware and of the peer behind it. `Drives` is any number of accesses that
write to the ports of a set only.
-/

namespace VintageKvm.I8086

/-- One access to the ports: a read of any, or a write to one of `ps`. -/
inductive Access {ι : Type} [Ports ι] (ps : Word → Prop) : ι → ι → Prop
  | inp (p : Word) (io : ι) : Access ps io (Ports.inp p io).2
  | out {p : Word} (v : Byte) (io : ι) : ps p → Access ps io (Ports.out p v io)

/-- Accesses one after another. -/
abbrev Drives {ι : Type} [Ports ι] (ps : Word → Prop) : ι → ι → Prop :=
  Relation.ReflTransGen (Access ps)

theorem Drives.mono {ι : Type} [Ports ι] {ps ps' : Word → Prop} {io io' : ι} (h : Drives ps io io')
    (hp : ∀ p, ps p → ps' p) : Drives ps' io io' :=
  Relation.ReflTransGen.mono (fun _ _ ha => match ha with
    | .inp p io => .inp p io
    | .out v io h => .out v io (hp _ h)) _ _ h

structure Bus where
  pic1 : Byte
  pic2 : Byte
  /-- What the reads return, in order. -/
  reads : Nat → Byte
  /-- How many reads there were. -/
  polled : Nat
  /-- The writes, oldest first. -/
  outs : List (Word × Byte)

namespace Bus

abbrev PIC1_DATA : Word := 0x21
abbrev PIC2_DATA : Word := 0xA1

instance : Ports Bus where
  inp p b :=
    if p = PIC1_DATA then (b.pic1, b)
    else if p = PIC2_DATA then (b.pic2, b)
    else (b.reads b.polled, { b with polled := b.polled + 1 })
  out p v b :=
    if p = PIC1_DATA then { b with pic1 := v }
    else if p = PIC2_DATA then { b with pic2 := v }
    else { b with outs := b.outs ++ [(p, v)] }

theorem inp_pic1 (b : Bus) : Ports.inp PIC1_DATA b = (b.pic1, b) := rfl

theorem inp_pic2 (b : Bus) : Ports.inp PIC2_DATA b = (b.pic2, b) := rfl

theorem out_pic1 (v : Byte) (b : Bus) : Ports.out PIC1_DATA v b = { b with pic1 := v } := rfl

theorem out_pic2 (v : Byte) (b : Bus) : Ports.out PIC2_DATA v b = { b with pic2 := v } := rfl

/-- The mask registers are the same. -/
def SameMasks (b b' : Bus) : Prop := b'.pic1 = b.pic1 ∧ b'.pic2 = b.pic2

theorem SameMasks.refl (b : Bus) : SameMasks b b := ⟨rfl, rfl⟩

theorem SameMasks.trans {b₁ b₂ b₃ : Bus} (h₁ : SameMasks b₁ b₂) (h₂ : SameMasks b₂ b₃) :
    SameMasks b₁ b₃ := ⟨h₂.1.trans h₁.1, h₂.2.trans h₁.2⟩

theorem sameMasks_inp (p : Word) (b : Bus) : SameMasks b (Ports.inp p b).2 := by
  simp only [Ports.inp]
  split
  · exact .refl b
  · split <;> exact ⟨rfl, rfl⟩

theorem sameMasks_out {p : Word} (v : Byte) (b : Bus) (h₁ : p ≠ PIC1_DATA) (h₂ : p ≠ PIC2_DATA) :
    SameMasks b (Ports.out p v b) := by
  simp only [Ports.out, if_neg h₁, if_neg h₂]
  exact ⟨rfl, rfl⟩

/-- Accesses that write to neither mask register. -/
theorem SameMasks.of_drives {ps : Word → Prop} {b b' : Bus} (h : Drives ps b b')
    (h₁ : ¬ ps PIC1_DATA) (h₂ : ¬ ps PIC2_DATA) : SameMasks b b' := by
  induction h with
  | refl => exact .refl b
  | tail _ ha ih =>
    refine ih.trans ?_
    cases ha with
    | inp p => exact sameMasks_inp p _
    | out v _ hp => exact sameMasks_out v _ (fun e => h₁ (e ▸ hp)) fun e => h₂ (e ▸ hp)

/-! ## The writes -/

/-- `b'` was reached from `b` by reads and by writes of `ws`, none of them to
a mask register. -/
structure Puts (ws : Word × Byte → Prop) (b b' : Bus) : Prop where
  masks : SameMasks b b'
  outs : ∃ l, b'.outs = b.outs ++ l ∧ ∀ w ∈ l, ws w

namespace Puts

variable {ws ws' : Word × Byte → Prop} {b b' b₁ b₂ b₃ : Bus}

theorem refl (ws : Word × Byte → Prop) (b : Bus) : Puts ws b b :=
  ⟨.refl b, [], (List.append_nil _).symm, fun _ h => nomatch h⟩

theorem trans (h₁ : Puts ws b₁ b₂) (h₂ : Puts ws b₂ b₃) : Puts ws b₁ b₃ := by
  obtain ⟨l, e, hl⟩ := h₁.outs
  obtain ⟨l', e', hl'⟩ := h₂.outs
  refine ⟨h₁.masks.trans h₂.masks, l ++ l', by rw [e', e, List.append_assoc], fun w hw => ?_⟩
  exact (List.mem_append.mp hw).elim (hl w) (hl' w)

theorem mono (h : Puts ws b b') (hws : ∀ w, ws w → ws' w) : Puts ws' b b' := by
  obtain ⟨l, e, hl⟩ := h.outs
  exact ⟨h.masks, l, e, fun w hw => hws w (hl w hw)⟩

theorem inp (ws : Word × Byte → Prop) (p : Word) (b : Bus) : Puts ws b (Ports.inp p b).2 := by
  refine ⟨sameMasks_inp p b, [], ?_, fun _ h => nomatch h⟩
  simp only [Ports.inp, List.append_nil]
  split
  · rfl
  · split <;> rfl

theorem out {p : Word} {v : Byte} (b : Bus) (h₁ : p ≠ PIC1_DATA) (h₂ : p ≠ PIC2_DATA)
    (hw : ws (p, v)) : Puts ws b (Ports.out p v b) := by
  refine ⟨sameMasks_out v b h₁ h₂, [(p, v)], ?_, fun w h => List.mem_singleton.mp h ▸ hw⟩
  simp only [Ports.out, if_neg h₁, if_neg h₂]

theorem of_drives {ps : Word → Prop} (h : Drives ps b b') (h₁ : ¬ ps PIC1_DATA)
    (h₂ : ¬ ps PIC2_DATA) : Puts (fun w => ps w.1) b b' := by
  induction h with
  | refl => exact .refl _ b
  | tail _ ha ih =>
    refine ih.trans ?_
    cases ha with
    | inp p => exact .inp _ p _
    | out v _ hp => exact .out _ (fun e => h₁ (e ▸ hp)) (fun e => h₂ (e ▸ hp)) hp

/-- Reads only. -/
theorem of_reads (h : ∀ ps : Word → Prop, Drives ps b b') (ws : Word × Byte → Prop) :
    Puts ws b b' :=
  (of_drives (h fun _ => False) id id).mono fun _ h => h.elim

end Puts

end Bus

end VintageKvm.I8086
