import VintageKvm.Dos.Stage0.Layout

/-!
# Stage 0: the keyboard controller

The routines of `s0_atps2_core.inc` on the ports of the i8042: its waits, its
command byte, and the bytes of the private channels to the keyboard and the
AUX device. Every wait is two nested loops over the status port, which are one
bounded loop (`pollFor`, `i8042Poll_ok`); `ENABLE_AUX` is the parameter `aux`.
-/

namespace VintageKvm.Stage0

open I8086 Machine Dos

variable {δ ι : Type} [Ports ι]

/-! ## The routines -/

/-- One turn of `.outer`, around the turns `.inner`. -/
def pollOuter (inner : Machine δ ι → Flow (Machine δ ι) (Flow (Machine δ ι) (Machine δ ι)))
    (m : Machine δ ι) : Flow (Machine δ ι) (Machine δ ι) :=
  m |>.push (·.cx) |>.mov .cx (imm TIMEOUT_INNER) |>.loopE inner (fun m => .next (m.pop .cx))

/-- The frame of the three waits. -/
def i8042Poll (inner : Machine δ ι → Flow (Machine δ ι) (Flow (Machine δ ι) (Machine δ ι)))
    (m : Machine δ ι) : Machine δ ι :=
  m |>.push (·.cx) |>.push (·.dx) |>.mov .cx (imm TIMEOUT_OUTER) |>.loopE (pollOuter inner) (·.stc)
    |>.pop .dx |>.pop .cx

/-- `i8042_wait_ibe`. -/
def i8042WaitIbe (m : Machine δ ι) : Machine δ ι := i8042Poll inner m
where
  /-- One turn of `.inner`. -/
  inner (m : Machine δ ι) : Flow (Machine δ ι) (Flow (Machine δ ι) (Machine δ ι)) :=
    m |>.inAl (imm KBC_STATUS) |>.testb (·.reg8 .al) (imm KBC_IBF)
      |>.jz (fun m => .done (.done (m |>.pop .cx |>.clc))) .next

/-- The byte waited for is in the output buffer. -/
def takeData (m : Machine δ ι) : Flow (Machine δ ι) (Flow (Machine δ ι) (Machine δ ι)) :=
  .done (.done (m |>.inAl (imm KBC_DATA) |>.pop .cx |>.clc))

/-- `.drain_or_wait`: the byte in the output buffer is the other device's. -/
def drainOrWait (m : Machine δ ι) : Flow (Machine δ ι) (Flow (Machine δ ι) (Machine δ ι)) :=
  .next (m.inAl (imm KBC_DATA))

/-- `i8042_recv_kbd_byte`. -/
def i8042RecvKbdByte (aux : Bool) (m : Machine δ ι) : Machine δ ι := i8042Poll inner m
where
  /-- One turn of `.inner`. -/
  inner (m : Machine δ ι) : Flow (Machine δ ι) (Flow (Machine δ ι) (Machine δ ι)) :=
    m |>.inAl (imm KBC_STATUS) |>.testb (·.reg8 .al) (imm KBC_OBF) |>.jz .next fun m =>
      if aux then m |>.testb (·.reg8 .al) (imm KBC_AUX_OBF) |>.jnz drainOrWait takeData
      else takeData m

/-- `i8042_recv_aux_byte`. -/
def i8042RecvAuxByte (aux : Bool) (m : Machine δ ι) : Machine δ ι :=
  if aux then i8042Poll inner m else m.stc
where
  /-- One turn of `.inner`. -/
  inner (m : Machine δ ι) : Flow (Machine δ ι) (Flow (Machine δ ι) (Machine δ ι)) :=
    m |>.inAl (imm KBC_STATUS) |>.testb (·.reg8 .al) (imm KBC_OBF) |>.jz .next fun m =>
      m |>.testb (·.reg8 .al) (imm KBC_AUX_OBF) |>.jz drainOrWait takeData

/-- `i8042_flush`. -/
def i8042Flush (m : Machine δ ι) : Machine δ ι := m |>.mov .cx (imm 256) |>.loopE turn id
where
  /-- One turn of `.loop`. -/
  turn (m : Machine δ ι) : Flow (Machine δ ι) (Machine δ ι) :=
    m |>.inAl (imm KBC_STATUS) |>.testb (·.reg8 .al) (imm KBC_OBF) |>.jz .done
      fun m => .next (m.inAl (imm KBC_DATA))

/-- `.fail_pop`. -/
def failPop (m : Machine δ ι) : Machine δ ι := m |>.pop .ax |>.stc

/-- The byte in AL, to the data port when the controller takes it. -/
def writeData (m : Machine δ ι) : Machine δ ι :=
  m |> i8042WaitIbe |>.jc failPop fun m => m |>.pop .ax |>.outAl (imm KBC_DATA) |>.clc

/-- A command of the controller, and the byte in AL as its data. -/
def writeCommand (cmd : Byte) (m : Machine δ ι) : Machine δ ι :=
  m |>.push (·.ax) |> i8042WaitIbe |>.jc failPop fun m =>
    m |>.movb .al (imm cmd) |>.outAl (imm KBC_CMD) |> writeData

/-- `i8042_read_ccb`. -/
def i8042ReadCcb (aux : Bool) (m : Machine δ ι) : Machine δ ι :=
  m |> i8042WaitIbe |>.jc (·.stc) fun m =>
    m |>.movb .al (imm KBC_READ_CCB) |>.outAl (imm KBC_CMD) |> i8042RecvKbdByte aux

/-- `i8042_write_ccb`. -/
def i8042WriteCcb (m : Machine δ ι) : Machine δ ι := writeCommand KBC_WRITE_CCB m

/-- `kbd_private_send_byte`. -/
def kbdPrivateSendByte (m : Machine δ ι) : Machine δ ι := m |>.push (·.ax) |> writeData

/-- `aux_private_send_byte`. -/
def auxPrivateSendByte (aux : Bool) (m : Machine δ ι) : Machine δ ι :=
  if aux then writeCommand KBC_WRITE_AUX m else m.stc

/-- The history of what a private channel has returned. -/
def returned (m : Machine δ ι) : Machine δ ι :=
  m.jc id fun m => { m with got := m.got ++ [lo m.ax] }

/-- `kbd_recv_private_byte`. -/
def kbdRecvPrivateByte (aux : Bool) (m : Machine δ ι) : Machine δ ι :=
  returned (i8042RecvKbdByte aux m)

/-- `aux_recv_private_byte`. -/
def auxRecvPrivateByte (aux : Bool) (m : Machine δ ι) : Machine δ ι :=
  returned (i8042RecvAuxByte aux m)

/-! ## Waiting -/

/-- At most `n` turns of a poll, up to the first that finds a byte. -/
def pollFor (poll : ι → Option Byte × ι) : Nat → ι → Option Byte × ι
  | 0, io => (none, io)
  | n + 1, io =>
    match poll io with
    | (none, io₁) => pollFor poll n io₁
    | (some b, io₁) => (some b, io₁)

/-- A turn `.inner` is a poll: it goes round when the poll finds nothing, and
leaves the loops with what it finds in AL. -/
def PollsBy (poll : ι → Option Byte × ι)
    (inner : Machine δ ι → Flow (Machine δ ι) (Flow (Machine δ ι) (Machine δ ι))) : Prop :=
  ∀ m : Machine δ ι,
    (∃ s c z io, inner m = .next { m with ax := ofBytes (hi m.ax) s, cf := c, zf := z, io := io } ∧
      poll m.io = (none, io)) ∨
    (∃ s z io, inner m = .done (.done { m with
        ax := ofBytes (hi m.ax) s, cx := m.stk.headD 0, cf := false, zf := z,
        stk := m.stk.tail, io := io }) ∧
      poll m.io = (some s, io))

variable {poll : ι → Option Byte × ι}
  {inner : Machine δ ι → Flow (Machine δ ι) (Flow (Machine δ ι) (Machine δ ι))}

omit [Ports ι] in
/-- A turn of the outer loop is sixteen polls. -/
theorem pollOuter_ok (h : PollsBy poll inner) (m : Machine δ ι) :
    (∃ s c z io,
      pollOuter inner m = .next { m with ax := ofBytes (hi m.ax) s, cf := c, zf := z, io := io } ∧
      ∀ n, pollFor poll (n + 16) m.io = pollFor poll n io) ∨
    (∃ s z io, pollOuter inner m =
      .done { m with ax := ofBytes (hi m.ax) s, cf := false, zf := z, io := io } ∧
      ∀ n, pollFor poll (n + 16) m.io = (some s, io)) := by
  let I : Nat → Machine δ ι → Prop := fun k m' => ∃ s c z io, m' = { m with
      ax := ofBytes (hi m.ax) s, cx := BitVec.ofNat 16 k, cf := c, zf := z,
      stk := m.cx :: m.stk, io := io } ∧
    ∀ n, pollFor poll (n + 16) m.io = pollFor poll (n + k) io
  let Q : Flow (Machine δ ι) (Machine δ ι) → Prop := fun f =>
    (∃ s c z io, f = .next { m with ax := ofBytes (hi m.ax) s, cf := c, zf := z, io := io } ∧
      ∀ n, pollFor poll (n + 16) m.io = pollFor poll n io) ∨
    (∃ s z io, f = .done { m with ax := ofBytes (hi m.ax) s, cf := false, zf := z, io := io } ∧
      ∀ n, pollFor poll (n + 16) m.io = (some s, io))
  have hbody : ∀ k m', I (k + 1) m' → m'.cx = BitVec.ofNat 16 (k + 1) →
      (inner m').Sat (fun m'' => m''.cx = m'.cx ∧ I k { m'' with cx := BitVec.ofNat 16 k }) Q := by
    rintro k m' ⟨s, c, z, io, hm, hpoll⟩ -
    rcases h m' with ⟨s', c', z', io', e, hp⟩ | ⟨s', z', io', e, hp⟩ <;> rw [e] <;> subst hm
    · refine ⟨rfl, s', c', z', io', by simp only [hi_ofBytes], fun n => ?_⟩
      rw [hpoll, ← Nat.add_assoc, pollFor, hp]
    · refine .inr ⟨s', z', io', by simp only [hi_ofBytes, List.headD_cons, List.tail_cons],
        fun n => ?_⟩
      rw [hpoll, ← Nat.add_assoc, pollFor, hp]
  have hfall : ∀ m', I 0 m' → m'.cx = 0 → Q (.next (m'.pop .cx)) := by
    rintro _ ⟨s, c, z, io, rfl, hpoll⟩ -
    exact .inl ⟨s, c, z, io, rfl, hpoll⟩
  have h0 : I 16 (m |>.push (·.cx) |>.mov .cx (imm TIMEOUT_INNER)) :=
    ⟨lo m.ax, m.cf, m.zf, m.io, by simp only [push, mov, setReg, imm, ofBytes_hi_lo]; rfl,
      fun _ => rfl⟩
  exact loopE_rule I Q hbody hfall (by decide) (by decide) h0 rfl

omit [Ports ι] in
/-- A wait: what the polls find, within their budget. AH and the other
registers stay. -/
theorem i8042Poll_ok (h : PollsBy poll inner) (m : Machine δ ι) {r : Option Byte} {io' : ι}
    (hr : pollFor poll LptNibble.POLLS m.io = (r, io')) :
    ∃ s z, i8042Poll inner m = { m with
      ax := ofBytes (hi m.ax) s, cf := r.isNone, zf := z, io := io' } ∧ ∀ b ∈ r, s = b := by
  let I : Nat → Machine δ ι → Prop := fun k m' => ∃ s c z io, m' = { m with
      ax := ofBytes (hi m.ax) s, cx := BitVec.ofNat 16 k, cf := c, zf := z,
      stk := m.dx :: m.cx :: m.stk, io := io } ∧
    pollFor poll (k * 16) io = (r, io')
  let Q : Machine δ ι → Prop := fun m' => ∃ s w z, m' = { m with
      ax := ofBytes (hi m.ax) s, cx := w, cf := r.isNone, zf := z, stk := m.dx :: m.cx :: m.stk,
      io := io' } ∧ ∀ b ∈ r, s = b
  have hbody : ∀ k m', I (k + 1) m' → m'.cx = BitVec.ofNat 16 (k + 1) →
      (pollOuter inner m').Sat
        (fun m'' => m''.cx = m'.cx ∧ I k { m'' with cx := BitVec.ofNat 16 k }) Q := by
    rintro k m' ⟨s, c, z, io, hm, hpoll⟩ -
    rw [Nat.succ_mul] at hpoll
    rcases pollOuter_ok h m' with ⟨s', c', z', io₁, e, hp⟩ | ⟨s', z', io₁, e, hp⟩ <;>
      rw [e] <;> subst hm
    · exact ⟨rfl, s', c', z', io₁, by simp only [hi_ofBytes], (hp _).symm.trans hpoll⟩
    · obtain ⟨rfl, rfl⟩ := Prod.mk.inj ((hp _).symm.trans hpoll)
      exact ⟨s', _, z', by simp only [hi_ofBytes]; rfl, fun b hb => Option.some.inj hb⟩
  have hfall : ∀ m', I 0 m' → m'.cx = 0 → Q m'.stc := by
    rintro _ ⟨s, c, z, io, rfl, hpoll⟩ -
    rw [Nat.zero_mul, pollFor] at hpoll
    obtain ⟨rfl, rfl⟩ := Prod.mk.inj hpoll
    exact ⟨s, _, z, rfl, fun b hb => by cases hb⟩
  have h0 : I 0xFFFF (m |>.push (·.cx) |>.push (·.dx) |>.mov .cx (imm TIMEOUT_OUTER)) :=
    ⟨lo m.ax, m.cf, m.zf, m.io, by simp only [push, mov, setReg, imm, ofBytes_hi_lo]; rfl, hr⟩
  obtain ⟨s, w, z, e, hs⟩ := loopE_rule I Q hbody hfall (by decide) (by decide) h0 rfl
  refine ⟨s, z, ?_, hs⟩
  rw [i8042Poll, e]
  rfl

/-! ## What each wait polls for -/

/-- A poll for an empty input buffer. -/
def pollIbe (io : ι) : Option Byte × ι :=
  let (s, io₁) := Ports.inp KBC_STATUS io
  if s &&& KBC_IBF = 0 then (some s, io₁) else (none, io₁)

/-- A poll for a byte of a device, which is its own if `mine` says so of the
status; one of the other device is dropped. -/
def pollData (mine : Byte → Bool) (io : ι) : Option Byte × ι :=
  let (s, io₁) := Ports.inp KBC_STATUS io
  if s &&& KBC_OBF = 0 then (none, io₁)
  else
    let (b, io₂) := Ports.inp KBC_DATA io₁
    if mine s then (some b, io₂) else (none, io₂)

/-- The keyboard's bytes. -/
def kbdData (aux : Bool) (s : Byte) : Bool := !aux || s &&& KBC_AUX_OBF = 0

/-- The AUX device's bytes. -/
def auxData (s : Byte) : Bool := s &&& KBC_AUX_OBF ≠ 0

theorem waitIbe_polls : PollsBy pollIbe (i8042WaitIbe.inner (δ := δ) (ι := ι)) := by
  intro m
  by_cases h : (Ports.inp KBC_STATUS m.io).1 &&& KBC_IBF = 0
  · right
    simp only [i8042WaitIbe.inner, pollIbe, inAl, testb, reg8, imm, lo_ofBytes, h, ↓jz,
      ↓reduceIte, decide_true, pop, top, clc, setReg]
    exact ⟨_, _, _, rfl, rfl⟩
  · left
    simp only [i8042WaitIbe.inner, pollIbe, inAl, testb, reg8, imm, lo_ofBytes, h, ↓jz,
      ↓reduceIte, decide_false, Bool.false_eq_true]
    exact ⟨_, _, _, _, rfl, rfl⟩

theorem i8042WaitIbe_ok (m : Machine δ ι) {r : Option Byte} {io' : ι}
    (hr : pollFor pollIbe LptNibble.POLLS m.io = (r, io')) :
    ∃ s z, i8042WaitIbe m =
      { m with ax := ofBytes (hi m.ax) s, cf := r.isNone, zf := z, io := io' } := by
  obtain ⟨s, z, e, -⟩ := i8042Poll_ok waitIbe_polls m hr
  exact ⟨s, z, e⟩

theorem recvKbdByte_polls (aux : Bool) :
    PollsBy (pollData (kbdData aux)) (i8042RecvKbdByte.inner (δ := δ) (ι := ι) aux) := by
  intro m
  by_cases h : (Ports.inp KBC_STATUS m.io).1 &&& KBC_OBF = 0
  · left
    simp only [i8042RecvKbdByte.inner, pollData, inAl, testb, reg8, imm, lo_ofBytes, h, ↓jz,
      ↓reduceIte, decide_true]
    exact ⟨_, _, _, _, rfl, rfl⟩
  cases aux with
  | false =>
    right
    simp only [i8042RecvKbdByte.inner, pollData, kbdData, inAl, testb, reg8, imm, lo_ofBytes,
      hi_ofBytes, h, ↓jz, ↓reduceIte, decide_false, Bool.false_eq_true, takeData, pop, top, clc,
      setReg, Bool.not_false, Bool.true_or]
    exact ⟨_, _, _, rfl, rfl⟩
  | true =>
    by_cases ha : (Ports.inp KBC_STATUS m.io).1 &&& KBC_AUX_OBF = 0
    · right
      simp only [i8042RecvKbdByte.inner, pollData, kbdData, inAl, testb, reg8, imm, lo_ofBytes,
        hi_ofBytes, h, ha, ↓jz, ↓jnz, ↓reduceIte, decide_false, decide_true, Bool.false_eq_true,
        takeData, pop, top, clc, setReg, Bool.not_true, Bool.false_or]
      exact ⟨_, _, _, rfl, rfl⟩
    · left
      simp only [i8042RecvKbdByte.inner, pollData, kbdData, inAl, testb, reg8, imm, lo_ofBytes,
        hi_ofBytes, h, ha, ↓jz, ↓jnz, ↓reduceIte, decide_false, Bool.false_eq_true, drainOrWait,
        Bool.not_true, Bool.false_or]
      exact ⟨_, _, _, _, rfl, rfl⟩

theorem recvAuxByte_polls :
    PollsBy (pollData auxData) (i8042RecvAuxByte.inner (δ := δ) (ι := ι)) := by
  intro m
  by_cases h : (Ports.inp KBC_STATUS m.io).1 &&& KBC_OBF = 0
  · left
    simp only [i8042RecvAuxByte.inner, pollData, inAl, testb, reg8, imm, lo_ofBytes, h, ↓jz,
      ↓reduceIte, decide_true]
    exact ⟨_, _, _, _, rfl, rfl⟩
  by_cases ha : (Ports.inp KBC_STATUS m.io).1 &&& KBC_AUX_OBF = 0
  · left
    simp only [i8042RecvAuxByte.inner, pollData, auxData, inAl, testb, reg8, imm, lo_ofBytes,
      hi_ofBytes, h, ha, ↓jz, ↓reduceIte, decide_false, decide_true, Bool.false_eq_true,
      drainOrWait, ne_eq, not_true]
    exact ⟨_, _, _, _, rfl, rfl⟩
  · right
    simp only [i8042RecvAuxByte.inner, pollData, auxData, inAl, testb, reg8, imm, lo_ofBytes,
      hi_ofBytes, h, ha, ↓jz, ↓reduceIte, decide_false, decide_true, Bool.false_eq_true, takeData,
      pop, top, clc, setReg, ne_eq, not_false_eq_true]
    exact ⟨_, _, _, rfl, rfl⟩

/-! ## Writing -/

/-- The writes `ws`, each once the input buffer is empty, up to the first for
which it does not become so in time; and whether all were made. -/
def writes : List (Word × Byte) → ι → Bool × ι
  | [], io => (true, io)
  | (p, b) :: ws, io =>
    match pollFor pollIbe LptNibble.POLLS io with
    | (none, io₁) => (false, io₁)
    | (some _, io₁) => writes ws (Ports.out p b io₁)

theorem writeData_ok (m : Machine δ ι) {a : Word} {ws : List Word} (hs : m.stk = a :: ws)
    {ok : Bool} {io' : ι} (hw : writes [(KBC_DATA, lo a)] m.io = (ok, io')) :
    ∃ z, writeData m = { m with ax := a, cf := !ok, zf := z, stk := ws, io := io' } := by
  cases hp : pollFor pollIbe LptNibble.POLLS m.io with
  | mk r io₁ =>
    obtain ⟨s, z, e⟩ := i8042WaitIbe_ok m hp
    rw [writeData, e]
    cases r with
    | none =>
      simp only [writes, hp, Prod.mk.injEq] at hw
      obtain ⟨rfl, rfl⟩ := hw
      refine ⟨z, ?_⟩
      simp only [jc, Option.isNone_none, ↓reduceIte, failPop, pop, top, setReg, stc, hs,
        List.headD_cons, List.tail_cons, Bool.not_false]
    | some b =>
      simp only [writes, hp, Prod.mk.injEq] at hw
      obtain ⟨rfl, rfl⟩ := hw
      refine ⟨z, ?_⟩
      simp only [jc, Option.isNone_some, Bool.false_eq_true, ↓reduceIte, pop, top, setReg, clc,
        outAl, imm, hs, List.headD_cons, List.tail_cons, Bool.not_true]

/-- A command and its data: AX stays. -/
theorem writeCommand_ok (cmd : Byte) (m : Machine δ ι) {ok : Bool} {io' : ι}
    (hw : writes [(KBC_CMD, cmd), (KBC_DATA, lo m.ax)] m.io = (ok, io')) :
    ∃ z, writeCommand cmd m = { m with cf := !ok, zf := z, io := io' } := by
  cases hp : pollFor pollIbe LptNibble.POLLS m.io with
  | mk r io₁ =>
    obtain ⟨s, z, e⟩ := i8042WaitIbe_ok (m.push (·.ax)) hp
    rw [writeCommand, e]
    rw [writes, hp] at hw
    cases r with
    | none =>
      obtain ⟨rfl, rfl⟩ := Prod.mk.inj hw
      exact ⟨z, rfl⟩
    | some b =>
      let m₁ : Machine δ ι := { m with
        ax := ofBytes (hi m.ax) cmd, cf := false, zf := z, stk := m.ax :: m.stk,
        io := Ports.out KBC_CMD cmd io₁ }
      obtain ⟨z', e'⟩ := writeData_ok m₁ rfl hw
      refine ⟨z', ?_⟩
      rw [jc_neg rfl]
      simp only [push, movb, setReg8, outAl, imm, lo_ofBytes, hi_ofBytes]
      exact e'

theorem kbdPrivateSendByte_ok (m : Machine δ ι) {ok : Bool} {io' : ι}
    (hw : writes [(KBC_DATA, lo m.ax)] m.io = (ok, io')) :
    ∃ z, kbdPrivateSendByte m = { m with cf := !ok, zf := z, io := io' } :=
  writeData_ok (m.push (·.ax)) rfl hw

/-! ## The bytes of the channels -/

/-- A byte of the keyboard, in AL, or a timeout. AH stays. -/
theorem i8042RecvKbdByte_ok (aux : Bool) (m : Machine δ ι) {r : Option Byte} {io' : ι}
    (hr : pollFor (pollData (kbdData aux)) LptNibble.POLLS m.io = (r, io')) :
    ∃ s z, i8042RecvKbdByte aux m =
      { m with ax := ofBytes (hi m.ax) s, cf := r.isNone, zf := z, io := io' } ∧
      ∀ b ∈ r, s = b := i8042Poll_ok (recvKbdByte_polls aux) m hr

/-- What the receivers of the private channels are to their caller: a byte in
AL, recorded, or carry. -/
structure Received (m m' : Machine δ ι) (r : Option Byte) (io' : ι) : Prop where
  eq : ∃ s z, m' = { m with
    ax := ofBytes (hi m.ax) s, cf := r.isNone, zf := z, got := m.got ++ r.toList,
    io := io' } ∧ ∀ b ∈ r, s = b

omit [Ports ι] in
theorem returned_ok {m : Machine δ ι} {r : Option Byte} {io' : ι} {s : Byte} {z : Bool}
    (hs : ∀ b ∈ r, s = b) :
    Received m (returned { m with ax := ofBytes (hi m.ax) s, cf := r.isNone, zf := z, io := io' }) r
      io' := by
  cases r with
  | none =>
    refine ⟨s, z, ?_, hs⟩
    simp only [returned, jc, Option.isNone_none, ↓reduceIte, id, Option.toList_none,
      List.append_nil]
  | some b =>
    refine ⟨s, z, ?_, hs⟩
    simp only [returned, jc, Option.isNone_some, Bool.false_eq_true, ↓reduceIte, lo_ofBytes,
      Option.toList_some, hs b rfl]

theorem kbdRecvPrivateByte_ok (aux : Bool) (m : Machine δ ι) {r : Option Byte} {io' : ι}
    (hr : pollFor (pollData (kbdData aux)) LptNibble.POLLS m.io = (r, io')) :
    Received m (kbdRecvPrivateByte aux m) r io' := by
  obtain ⟨s, z, e, hs⟩ := i8042RecvKbdByte_ok aux m hr
  rw [kbdRecvPrivateByte, e]
  exact returned_ok hs

theorem auxRecvPrivateByte_ok (m : Machine δ ι) {r : Option Byte} {io' : ι}
    (hr : pollFor (pollData auxData) LptNibble.POLLS m.io = (r, io')) :
    Received m (auxRecvPrivateByte true m) r io' := by
  obtain ⟨s, z, e, hs⟩ := i8042Poll_ok recvAuxByte_polls m hr
  rw [auxRecvPrivateByte, i8042RecvAuxByte, if_pos rfl, e]
  exact returned_ok hs

/-! ## The ports -/

/-- The ports of the controller. -/
def kbcPorts (p : Word) : Prop := p = KBC_DATA ∨ p = KBC_CMD

/-- The keyboard's: it takes no command of the controller. -/
def kbdPorts (p : Word) : Prop := p = KBC_DATA

omit [Ports ι] in
theorem pollFor_rule (I : ι → Prop) (hpoll : ∀ io, I io → I (poll io).2) (n : Nat)
    {io : ι} (h : I io) : I (pollFor poll n io).2 := by
  induction n generalizing io with
  | zero => exact h
  | succ n ih =>
    have h₁ := hpoll io h
    rw [pollFor]
    split
    · rename_i e
      rw [e] at h₁
      exact ih h₁
    · rename_i e
      rwa [e] at h₁

/-- A wait reads only. -/
theorem pollIbe_drives (ps : Word → Prop) (n : Nat) (io : ι) :
    Drives ps io (pollFor pollIbe n io).2 := by
  refine pollFor_rule (Drives ps io) (fun io' h => ?_) n .refl
  simp only [pollIbe]
  split <;> exact h.tail (.inp _ _)

theorem pollData_drives (ps : Word → Prop) (mine : Byte → Bool) (n : Nat) (io : ι) :
    Drives ps io (pollFor (pollData mine) n io).2 := by
  refine pollFor_rule (Drives ps io) (fun io' h => ?_) n .refl
  simp only [pollData]
  split
  · exact h.tail (.inp _ _)
  · split <;> exact (h.tail (.inp _ _)).tail (.inp _ _)

theorem writes_drives {ps : Word → Prop} {ws : List (Word × Byte)}
    (hws : ∀ w ∈ ws, ps w.1) (io : ι) : Drives ps io (writes ws io).2 := by
  induction ws generalizing io with
  | nil => exact .refl
  | cons w ws ih =>
    have h := pollIbe_drives ps LptNibble.POLLS io
    rw [writes]
    split
    · rename_i e
      rwa [e] at h
    · rename_i e
      rw [e] at h
      exact (h.tail (.out _ _ (hws w List.mem_cons_self))).trans
        (ih (fun w' hw' => hws w' (List.mem_cons_of_mem _ hw')) _)

theorem kbdPrivateSendByte_drives (m : Machine δ ι) : ∃ c z io,
    kbdPrivateSendByte m = { m with cf := c, zf := z, io := io } ∧ Drives kbdPorts m.io io := by
  have hd : Drives kbdPorts m.io (writes [(KBC_DATA, lo m.ax)] m.io).2 :=
    writes_drives (by simp [kbdPorts]) m.io
  cases hw : writes [(KBC_DATA, lo m.ax)] m.io with
  | mk ok io =>
    rw [hw] at hd
    obtain ⟨z, e⟩ := kbdPrivateSendByte_ok m hw
    exact ⟨_, z, io, e, hd⟩

theorem auxPrivateSendByte_drives (aux : Bool) (m : Machine δ ι) : ∃ c z io,
    auxPrivateSendByte aux m = { m with cf := c, zf := z, io := io } ∧ Drives kbcPorts m.io io := by
  cases aux with
  | false => exact ⟨true, m.zf, m.io, rfl, .refl⟩
  | true =>
    have hd :
        Drives kbcPorts m.io (writes [(KBC_CMD, KBC_WRITE_AUX), (KBC_DATA, lo m.ax)] m.io).2 :=
      writes_drives (by simp [kbcPorts]) m.io
    cases hw : writes [(KBC_CMD, KBC_WRITE_AUX), (KBC_DATA, lo m.ax)] m.io with
    | mk ok io =>
      rw [hw] at hd
      obtain ⟨z, e⟩ := writeCommand_ok KBC_WRITE_AUX m hw
      exact ⟨_, z, io, e, hd⟩

/-- A byte received from a device, over any ports (none is written to), or a
timeout. -/
def Heard (m m' : Machine δ ι) : Prop := ∃ a c z bs io,
  m' = { m with ax := a, cf := c, zf := z, got := m.got ++ bs, io := io } ∧
  bs = (if c then [] else [lo a]) ∧
  ∀ ps, Drives ps m.io io

theorem Received.heard {m m' : Machine δ ι} {r : Option Byte} {io' : ι} (h : Received m m' r io')
    (hd : ∀ ps, Drives ps m.io io') : Heard m m' := by
  obtain ⟨s, z, e, hs⟩ := h.eq
  refine ⟨_, _, z, _, io', e, ?_, hd⟩
  cases r with
  | none => rfl
  | some b => simp [hs b rfl]

theorem kbdRecvPrivateByte_heard (aux : Bool) (m : Machine δ ι) :
    Heard m (kbdRecvPrivateByte aux m) := by
  have hd := fun ps => pollData_drives ps (kbdData aux) LptNibble.POLLS m.io
  cases hp : pollFor (pollData (kbdData aux)) LptNibble.POLLS m.io with
  | mk r io =>
    rw [hp] at hd
    exact (kbdRecvPrivateByte_ok aux m hp).heard hd

theorem auxRecvPrivateByte_heard (aux : Bool) (m : Machine δ ι) :
    Heard m (auxRecvPrivateByte aux m) := by
  cases aux with
  | false =>
    exact ⟨m.ax, true, m.zf, [], m.io, by simp [auxRecvPrivateByte, i8042RecvAuxByte, returned],
      rfl, fun _ => .refl⟩
  | true =>
    have hd := fun ps => pollData_drives ps auxData LptNibble.POLLS m.io
    cases hp : pollFor (pollData auxData) LptNibble.POLLS m.io with
    | mk r io =>
      rw [hp] at hd
      exact (auxRecvPrivateByte_ok m hp).heard hd

end VintageKvm.Stage0
