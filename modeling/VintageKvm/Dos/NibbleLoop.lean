import VintageKvm.Dos.LptNibble

/-!
# The loop of the nibble receiver

`lpt_recv_nibble` once more as its labels lie: both loops count in CX, which is
pushed around the inner one, and `.candidate_phase` enters that again from
behind. One turn is from one `.wait_inner` to the next (`turn`).
`lptRecvNibble` is where these turns leave, within the budget
(`lptRecvNibble_leaves`), and what a call leaves (`Returned`) makes the phase
the parity of the nibbles accepted (`lptRecvNibble_contract`).
-/

namespace VintageKvm.Dos.LptNibble

open I8086 Machine

variable {δ ι : Type} [Ports ι] (v : LptNibble)

/-! ## The routine by its labels -/

/-- `.done`. -/
def done (m : Machine δ ι) : Machine δ ι := m |>.pop .dx |>.pop .cx |>.pop .bx

/-- `.wait_outer`, up to `.wait_inner`. -/
def toWaitInner (m : Machine δ ι) : Machine δ ι := m |>.push (·.cx) |>.mov .cx (imm TIMEOUT_INNER)

/-- `loop .wait_outer`, after the inner loop. -/
def loopOuter (m : Machine δ ι) : Flow (Machine δ ι) (Machine δ ι) :=
  m |>.pop .cx |>.loopTo (.next ∘ toWaitInner) fun m => .done (m |>.stc |> done)

/-- `loop .wait_inner`, and what is behind it. -/
def loopInner (m : Machine δ ι) : Flow (Machine δ ι) (Machine δ ι) := m.loopTo .next loopOuter

/-- `.candidate_phase`, with `.continue_waiting`. -/
def turnCandidate (m : Machine δ ι) : Flow (Machine δ ι) (Machine δ ι) :=
  m |>.movb .bh (·.reg8 .al) |> tinyDelayShort
    |>.inAl (·.dx) |>.movb .ah (·.reg8 .al) |>.andb .ah (imm STAT_PHASE)
    |>.cmpb (·.reg8 .ah) (·.reg8 .bl)
    |>.jz (fun m => m |>.movb .al (·.reg8 .bh) |> loopInner)
      fun m => .done (m |>.stb (imm v.lastPhase) (·.reg8 .ah) |>.pop .cx
        |>.andb .al (imm STAT_NIBBLE_MASK) |>.shrb .al 3 |>.andb .al (imm 0x0F) |>.clc |> done)

/-- From `.wait_inner` on. -/
def turn (m : Machine δ ι) : Flow (Machine δ ι) (Machine δ ι) :=
  m |>.inAl (·.dx) |>.movb .ah (·.reg8 .al) |>.andb .ah (imm STAT_PHASE)
    |>.cmpb (·.reg8 .ah) (·.reg8 .bl) |>.jnz v.turnCandidate loopInner

/-- `lpt_recv_nibble` up to `.wait_outer`. -/
def enterNibble (m : Machine δ ι) : Machine δ ι :=
  m |>.push (·.bx) |>.push (·.cx) |>.push (·.dx)
    |>.mov .dx (·.word v.lptBase) |>.add .dx (imm LPT_STATUS)
    |>.movb .bl (·.byte v.lastPhase) |>.mov .cx (imm TIMEOUT_OUTER)

/-! ## The turns are those of the two loops -/

/-- Behind the inner loop. -/
abbrev afterInner : Flow (Machine δ ι) (Machine δ ι) → Flow (Machine δ ι) (Machine δ ι) :=
  afterTurn toWaitInner (fun m => .done (m |>.stc |> done)) fun m => .done (done m)

/-- A turn of the inner loop that goes round counts CX down, and one that does
not leaves. -/
theorem turn_eq (m : Machine δ ι) :
    v.turn m = afterTurn id loopOuter afterInner (v.waitInner m) := by
  rw [turn, waitInner, jnz, jnz]
  split
  · rfl
  · rw [turnCandidate, candidatePhase, jz, jz]
    split <;> rfl

theorem waitInner_cx {m m' : Machine δ ι} (h : v.waitInner m = .next m') : m'.cx = m.cx := by
  rcases v.waitInner_ok m with ⟨a, b, z, c, io, e, -⟩ | ⟨s, b, z, io, e, -⟩
  · rw [e] at h
    obtain rfl := Flow.next.inj h
    rfl
  · rw [e] at h
    cases h

theorem waitOuter_cx {m m' : Machine δ ι} (h : v.waitOuter m = .next m') : m'.cx = m.cx := by
  rcases v.waitOuter_ok m with ⟨a, b, z, c, io, e, -⟩ | ⟨s, b, z, io, e, -⟩
  · rw [e] at h
    obtain rfl := Flow.next.inj h
    rfl
  · rw [e] at h
    cases h

/-- A turn of the outer loop is at most sixteen. -/
theorem waitOuter_takes (m : Machine δ ι) : ∃ i < 1 * 16, ∃ m', Takes v.turn i (toWaitInner m) m' ∧
    v.turn m' = afterInner (v.waitOuter m) := by
  have hturn : ∀ m₁ : Machine δ ι, ∃ i < 1, ∃ m', Takes v.turn i (id m₁) m' ∧
      v.turn m' = afterTurn id loopOuter afterInner (v.waitInner m₁) :=
    fun m₁ => ⟨0, Nat.one_pos, m₁, .refl _, v.turn_eq m₁⟩
  have hcx : (toWaitInner m).cx = BitVec.ofNat 16 16 := rfl
  exact loopE_takes (fun _ _ => v.waitInner_cx) hturn (fun _ => rfl) (by decide) (by decide) hcx

/-- The turns leave within the budget, with what `lptRecvNibble` leaves. -/
theorem lptRecvNibble_leaves (m : Machine δ ι) : ∃ n ≤ TIMEOUT_OUTER.toNat * TIMEOUT_INNER.toNat,
    LeavesAt v.turn n (toWaitInner (v.enterNibble m)) (v.lptRecvNibble m) := by
  have hcx : (v.enterNibble m).cx = BitVec.ofNat 16 0xFFFF := rfl
  obtain ⟨i, hi, m', ht, hs⟩ := loopE_takes (fun _ _ => v.waitOuter_cx) v.waitOuter_takes
    (fun _ => rfl) (by decide) (by decide) hcx
  exact ⟨i + 1, hi, i, m', rfl, ht, hs⟩

/-! ## What a call leaves -/

/-- The nibble is bits 3 to 6. -/
theorem nibbleOf_eq (s : Byte) : nibbleOf s = (s.extractLsb' 3 4).setWidth 8 := by
  revert s
  decide +kernel

/-- The bits of the phase alone. -/
def IsPhase (b : Byte) : Prop := b = 0 ∨ b = STAT_PHASE

theorem isPhase_and (s : Byte) : IsPhase (s &&& STAT_PHASE) := by
  unfold IsPhase
  revert s
  decide +kernel

/-- There is one other phase. -/
theorem IsPhase.eq_flip {a b : Byte} (ha : IsPhase a) (hb : IsPhase b) (hne : a ≠ b) :
    a = b ^^^ STAT_PHASE := by
  rcases ha with rfl | rfl <;> rcases hb with rfl | rfl
  · exact absurd rfl hne
  · decide
  · decide
  · exact absurd rfl hne

/-- After reads alone, two of them in a row show the phase `ph`, and `s` is
what the second one read. -/
def ReadTwice (p : Word) (ph : Byte) (io io' : ι) (s : Byte) : Prop :=
  ∃ io₁, Drives (fun _ => False) io io₁ ∧ (Ports.inp p io₁).1 &&& STAT_PHASE = ph ∧
    s &&& STAT_PHASE = ph ∧ Ports.inp p (Ports.inp p io₁).2 = (s, io')

/-- What is polled for has been read twice, with the other phase. -/
theorem pollNibble_some {p : Word} {ph s : Byte} {n : Nat} {io io' : ι} (hp : IsPhase ph)
    (h : pollNibble p ph n io = (some s, io')) : ReadTwice p (ph ^^^ STAT_PHASE) io io' s := by
  induction n generalizing io with
  | zero => cases h
  | succ n ih =>
    have h₁ : Drives (fun _ => False) io (Ports.inp p io).2 := .single (.inp p io)
    have h₂ : Drives (fun _ => False) io (Ports.inp p (Ports.inp p io).2).2 := h₁.tail (.inp p _)
    simp only [pollNibble] at h
    split at h
    · obtain ⟨io₁, hd, hrest⟩ := ih h
      exact ⟨io₁, h₁.trans hd, hrest⟩
    · rename_i hph
      split at h
      · obtain ⟨io₁, hd, hrest⟩ := ih h
        exact ⟨io₁, h₂.trans hd, hrest⟩
      · rename_i hph'
        obtain ⟨hs, hio⟩ := Prod.mk.inj h
        obtain rfl := Option.some.inj hs
        exact ⟨io, .refl, (isPhase_and _).eq_flip hp hph,
          (isPhase_and _).eq_flip hp hph', by rw [← hio]⟩

/-- What a call leaves: the stack and the registers it saves as they were, and,
with CF clear, the other phase, read twice in a row, and the nibble of the
second read. -/
structure Returned (m m' : Machine δ ι) : Prop where
  stk : m'.stk = m.stk
  bx : m'.bx = m.bx
  cx : m'.cx = m.cx
  dx : m'.dx = m.dx
  accepted : m'.cf = false → m'.mem v.lastPhase = m.mem v.lastPhase ^^^ STAT_PHASE ∧
    ∃ s, ReadTwice (m.mem.word v.lptBase + LPT_STATUS) (m'.mem v.lastPhase) m.io m'.io s ∧
      lo m'.ax = (s.extractLsb' 3 4).setWidth 8
  late : m'.cf = true → m'.mem v.lastPhase = m.mem v.lastPhase

variable {v}

theorem returned_ok {m : Machine δ ι} (hp : IsPhase (m.mem v.lastPhase)) :
    Returned v m (v.lptRecvNibble m) := by
  rcases v.lptRecvNibble_ok m with ⟨a, z, io, e, -⟩ | ⟨s, z, io, e, hpoll⟩ <;> rw [e]
  · exact ⟨rfl, rfl, rfl, rfl, fun h => (Bool.false_ne_true h.symm).elim, fun _ => rfl⟩
  · have htwice := pollNibble_some hp hpoll
    have hflip : s &&& STAT_PHASE = m.mem v.lastPhase ^^^ STAT_PHASE := by
      obtain ⟨-, -, -, hs, -⟩ := htwice
      exact hs
    have hmem : (m.mem.set v.lastPhase (s &&& STAT_PHASE)) v.lastPhase =
        m.mem v.lastPhase ^^^ STAT_PHASE :=
      (Mem.set_self _ _ _).trans hflip
    refine ⟨rfl, rfl, rfl, rfl, fun _ => ⟨hmem, s, ?_, ?_⟩, fun h => (Bool.false_ne_true h).elim⟩
    · show ReadTwice _ ((m.mem.set v.lastPhase (s &&& STAT_PHASE)) v.lastPhase) m.io io s
      rwa [hmem]
    · show lo (ofBytes (s &&& STAT_PHASE) (nibbleOf s)) = _
      rw [lo_ofBytes, nibbleOf_eq]

/-! ## Any number of calls -/

/-- `k` nibbles are accepted from `m` to `m'`, by calls that accept one or time
out; what is between them leaves `last_phase` alone. -/
inductive Receives (v : LptNibble) : Nat → Machine δ ι → Machine δ ι → Prop
  | nil (m : Machine δ ι) : Receives v 0 m m
  | other {k : Nat} {m m₁ m₂ : Machine δ ι} (h : Receives v k m m₁)
    (hm : m₂.mem v.lastPhase = m₁.mem v.lastPhase) : Receives v k m m₂
  | accepted {k : Nat} {m m₁ : Machine δ ι} (h : Receives v k m m₁)
    (hcf : (v.lptRecvNibble m₁).cf = false) : Receives v (k + 1) m (v.lptRecvNibble m₁)
  | late {k : Nat} {m m₁ : Machine δ ι} (h : Receives v k m m₁)
    (hcf : (v.lptRecvNibble m₁).cf = true) : Receives v k m (v.lptRecvNibble m₁)

/-- The states of a program that keeps `last_phase` by `init_lpt_control` and
`lpt_recv_nibble` alone, from the zero it is assembled with. -/
inductive Seeded (v : LptNibble) : Machine δ ι → Prop
  | assembled {m : Machine δ ι} (h : m.mem v.lastPhase = 0) : Seeded v m
  | init (m : Machine δ ι) : Seeded v (v.initLptControl m)
  | recv {k : Nat} {m m' : Machine δ ι} (h : Seeded v m) (hr : Receives v k m m') : Seeded v m'

section

variable {k : Nat} {m m' : Machine δ ι}

omit [Ports ι] in
theorem IsPhase.flip {ph : Byte} (h : IsPhase ph) :
    IsPhase (ph ^^^ STAT_PHASE) ∧ ph ^^^ STAT_PHASE ≠ ph ∧
    ph ^^^ STAT_PHASE ^^^ STAT_PHASE = ph := by
  rcases h with rfl | rfl
  · exact ⟨.inr rfl, by decide, rfl⟩
  · exact ⟨.inl rfl, by decide, rfl⟩

/-- The phase is the parity of the nibbles accepted. -/
theorem Receives.phase (h : Receives v k m m') (hp : IsPhase (m.mem v.lastPhase)) :
    m'.mem v.lastPhase =
      if k % 2 = 1 then m.mem v.lastPhase ^^^ STAT_PHASE else m.mem v.lastPhase := by
  obtain ⟨hp', -, hback⟩ := hp.flip
  have hphase : ∀ {k : Nat} {ph : Byte},
    ph = (if k % 2 = 1 then m.mem v.lastPhase ^^^ STAT_PHASE else m.mem v.lastPhase) →
      IsPhase ph := fun e => by
    rw [e]
    split
    · exact hp'
    · exact hp
  induction h with
  | nil => rfl
  | other _ hm ih => exact hm.trans (ih hp hp' hback hphase)
  | @accepted k m m₁ h hcf ih =>
    have hm₁ := ih hp hp' hback hphase
    rw [((returned_ok (hphase hm₁)).accepted hcf).1, hm₁]
    by_cases hk : k % 2 = 1
    · rw [if_pos hk, if_neg (by omega), hback]
    · rw [if_neg hk, if_pos (by omega)]
  | @late k m m₁ h hcf ih =>
    have hm₁ := ih hp hp' hback hphase
    rw [(returned_ok (hphase hm₁)).late hcf, hm₁]

theorem Receives.isPhase (h : Receives v k m m') (hp : IsPhase (m.mem v.lastPhase)) :
    IsPhase (m'.mem v.lastPhase) := by
  rw [h.phase hp]
  split
  · exact hp.flip.1
  · exact hp

theorem Seeded.isPhase (h : Seeded v m) : IsPhase (m.mem v.lastPhase) := by
  induction h with
  | assembled h => exact .inl h
  | init m =>
    obtain ⟨a, d, z, c, e⟩ := v.initLptControl_ok m
    rw [e]
    show IsPhase ((m.mem.set v.lastPhase _) v.lastPhase)
    rw [Mem.set_self]
    exact isPhase_and _
  | recv _ hr ih => exact hr.isPhase ih

/-- The calls of `lpt_recv_byte`: two nibbles, if it returns a byte. -/
theorem lptRecvByte_receives (m : Machine δ ι) :
    ∃ k, Receives v k m (v.lptRecvByte m) ∧ ((v.lptRecvByte m).cf = false → k = 2) := by
  let P : Machine δ ι → Prop := fun m' => ∃ k, Receives v k m m' ∧ (m'.cf = false → k = 2)
  have h₀ : Receives v 0 m (m.push (·.bx)) := (Receives.nil m).other rfl
  show P (v.lptRecvByte m)
  refine jc_cases (fun hcf => ?_) fun hcf => ?_
  · exact ⟨0, (h₀.late hcf).other rfl, fun h => (Bool.false_ne_true h.symm).elim⟩
  · have h₁ : Receives v 1 m ((v.lptRecvNibble (m.push (·.bx))).movb .bl (·.reg8 .al)) :=
      (h₀.accepted hcf).other rfl
    refine jc_cases (fun hcf => ?_) fun hcf => ?_
    · exact ⟨1, (h₁.late hcf).other rfl, fun h => (Bool.false_ne_true h.symm).elim⟩
    · exact ⟨2, (h₁.accepted hcf).other rfl, fun _ => rfl⟩

/-- `lpt_recv_nibble` leaves its loops within their budget with what it saved
restored, and the phase it keeps is the parity of the nibbles accepted. -/
theorem lptRecvNibble_contract (h : Seeded v m) :
    (∃ n ≤ TIMEOUT_OUTER.toNat * TIMEOUT_INNER.toNat,
      LeavesAt v.turn n (toWaitInner (v.enterNibble m)) (v.lptRecvNibble m)) ∧
    Returned v m (v.lptRecvNibble m) ∧
    ∀ k m', Receives v k m m' → (m'.mem v.lastPhase ≠ m.mem v.lastPhase ↔ k % 2 = 1) := by
  have hp := h.isPhase
  refine ⟨v.lptRecvNibble_leaves m, returned_ok hp, fun k m' hr => ?_⟩
  rw [hr.phase hp]
  split
  · exact iff_of_true hp.flip.2.1 ‹_›
  · exact iff_of_false (not_not_intro rfl) ‹_›

end

/-- The pump of S0_XT as it is assembled, on a status port that reads `reads`. -/
def assembled (reads : Nat → Byte) : Machine Unit Bus where
  ax := 0
  bx := 0
  cx := 0
  dx := 0
  si := 0
  di := 0
  cs := 0
  ds := 0
  es := 0
  cf := false
  zf := false
  stk := []
  mem := fun _ => 0
  got := []
  dos := ()
  io := ⟨0, 0, reads, 0, []⟩

theorem lptRecvNibble_contract_accepted : let v : LptNibble := ⟨0x0422, 200⟩
    let m := assembled fun i => if i < 3 then 0x00 else 0xB8
    (v.lptRecvNibble m).cf = false ∧ (v.lptRecvNibble m).mem v.lastPhase ≠ m.mem v.lastPhase := by
  intro v m
  have hcf : (v.lptRecvNibble m).cf = false := by decide +kernel
  obtain ⟨-, -, hparity⟩ := lptRecvNibble_contract (v := v) (.assembled (m := m) rfl)
  exact ⟨hcf, (hparity 1 _ (.accepted (.nil m) hcf)).mpr rfl⟩

end VintageKvm.Dos.LptNibble
