import VintageKvm.I8086.Machine

/-!
# The stack in the segment

`Machine` keeps the words pushed in a list: so it is for code whose stack lies
apart from all that it reads and writes. Here the stack lies in the segment,
where `PUSH` and `CALL` write below SP. A program may be read either way where
its steps and its loops (`Stacked.loop_sim`) go along with each other.
-/

namespace VintageKvm.I8086

/-- A machine, and where its stack is. -/
structure Stacked (δ ι : Type) where
  machine : Machine δ ι
  sp : Word

namespace Stacked

variable {δ ι : Type} (s : Stacked δ ι)

/-- Instructions that leave the stack alone. -/
def step (f : Machine δ ι → Machine δ ι) : Stacked δ ι := { s with machine := f s.machine }

/-- `push v`. -/
def push (v : Machine δ ι → Word) : Stacked δ ι := ⟨s.machine.stw (imm (s.sp - 2)) v, s.sp - 2⟩

/-- `pop r`. -/
def pop (r : Reg) : Stacked δ ι := ⟨s.machine.mov r (·.word s.sp), s.sp + 2⟩

/-- `call`, from before the address `next`; `none` if `ret` finds another
address on the stack. -/
def call (next : Word) (f : Stacked δ ι → Stacked δ ι) : Option (Stacked δ ι) :=
  let s := f (s.push (imm next))
  if s.machine.word s.sp = next then some { s with sp := s.sp + 2 } else none

/-- `L: body; loop L`. -/
def loop (body : Stacked δ ι → Option (Stacked δ ι)) : Option (Stacked δ ι) :=
  iter (fun s => match body s with
    | none => .done none
    | some s =>
      let s := s.step fun m => { m with cx := m.cx - 1 }
      if s.machine.cx = 0 then .done (some s) else .next s) some 65536 s

/-- A loop goes along with that of a machine, if their bodies do. -/
theorem loop_sim {body : Stacked δ ι → Option (Stacked δ ι)} {body' : Machine δ ι → Machine δ ι}
    (R : Stacked δ ι → Machine δ ι → Prop)
    (hbody : ∀ s m, R s m → m.cx ≠ 0 → ∃ s', body s = some s' ∧ s'.machine.cx = (body' m).cx ∧
      R (s'.step fun m => { m with cx := m.cx - 1 }) { body' m with cx := (body' m).cx - 1 })
    {s : Stacked δ ι} {m : Machine δ ι} (h : R s m) (hcx : m.cx ≠ 0) :
    ∃ s', s.loop body = some s' ∧ R s' (m.loop body') := by
  let J : Stacked δ ι → Machine δ ι → Prop := fun s m => R s m ∧ m.cx ≠ 0
  let Q : Option (Stacked δ ι) → Machine δ ι → Prop := fun s m => ∃ s', s = some s' ∧ R s' m
  unfold Machine.loop Machine.loopE
  refine iter_sim J Q (fun s m ⟨h, hcx⟩ => ?_) (fun s m ⟨h, _⟩ => ⟨s, rfl, h⟩) 65536 s m ⟨h, hcx⟩
  obtain ⟨s', e, hcx', h'⟩ := hbody s m h hcx
  have hc : (s'.step fun m => { m with cx := m.cx - 1 }).machine.cx = (body' m).cx - 1 := by
    rw [← hcx']; rfl
  by_cases h0 : (body' m).cx - 1 = 0
  · exact .inr ⟨_, _, by rw [e]; exact if_pos (hc.trans h0), if_pos h0, _, rfl, h'⟩
  · exact .inl ⟨_, _, by rw [e]; exact if_neg fun h => h0 (hc.symm.trans h), if_neg h0, h', h0⟩

end Stacked

end VintageKvm.I8086
