import VintageKvm.Dos.Stage1.Layout

/-!
# Stage 1: IEEE 1284 negotiation

`ieee1284_negotiate`, and what it does to the ports one access after another
(`Negotiate.next`). `ieee1284Negotiate_ok`: the routine makes these accesses
and no others, and returns in CF what they come to.
-/

namespace VintageKvm.Stage1

open I8086 Machine Dos

/-! ## The routine -/

section

variable {δ ι : Type} [Ports ι]

/-- `ieee1284_negotiate`. -/
def ieee1284Negotiate (m : Machine δ ι) : Machine δ ι :=
  m |>.push (·.ax) |>.mov .dx (·.word lptBase) |>.add .dx (imm LPT_DATA) |>.outAl (·.dx)
    |> lpt.tinyDelay |> setControl CTRL_NEG_REQ
    |>.mov .dx (·.word lptBase) |>.add .dx (imm LPT_STATUS) |>.mov .cx (imm NEG_TIMEOUT_OUTER)
    |>.loopE waitAck reject
where
  /-- The control register. -/
  setControl (v : Byte) (m : Machine δ ι) : Machine δ ι :=
    m |>.mov .dx (·.word lptBase) |>.add .dx (imm LPT_CONTROL) |>.movb .al (imm v) |>.outAl (·.dx)
      |> lpt.tinyDelay
  /-- One turn of `.wait_ack`. -/
  waitAck (m : Machine δ ι) : Flow (Machine δ ι) (Machine δ ι) :=
    m |>.inAl (·.dx) |>.testb (·.reg8 .al) (imm STAT_NACK_BIT) |>.jz (.done ∘ ackReceived) .next
  /-- `.ack_received`. -/
  ackReceived (m : Machine δ ι) : Machine δ ι :=
    m |> setControl CTRL_NEG_STRB |>.movb .al (imm CTRL_NEG_REQ) |>.outAl (·.dx) |> lpt.tinyDelay
      |>.mov .dx (·.word lptBase) |>.add .dx (imm LPT_STATUS) |>.inAl (·.dx)
      |>.testb (·.reg8 .al) (imm STAT_SELECT_BIT) |>.jz reject fun m =>
    m |> setControl CTRL_NEG_ACK |>.pop .ax |>.clc
  /-- `.reject`. -/
  reject (m : Machine δ ι) : Machine δ ι := m |> setControl CTRL_BASE |>.pop .ax |>.stc

end

/-! ## Its accesses -/

/-- An access to the parallel port: a write to one of its registers, or a read
of the status register. -/
inductive LptAccess where
  | out (reg : Word) (v : Byte)
  | status
  deriving DecidableEq, Repr

/-- Which access the routine makes next. -/
inductive Negotiate where
  | data
  | request
  /-- At most so many reads more. -/
  | waitAck (turns : Nat)
  | strobe
  | strobeEnd
  | select
  | commit
  | reject
  | returned (accepted : Bool)
  deriving DecidableEq, Repr

namespace Negotiate

def access (xflag : Byte) : Negotiate → Option LptAccess
  | .data => some (.out LPT_DATA xflag)
  | .request => some (.out LPT_CONTROL CTRL_NEG_REQ)
  | .waitAck _ => some .status
  | .strobe => some (.out LPT_CONTROL CTRL_NEG_STRB)
  | .strobeEnd => some (.out LPT_CONTROL CTRL_NEG_REQ)
  | .select => some .status
  | .commit => some (.out LPT_CONTROL CTRL_NEG_ACK)
  | .reject => some (.out LPT_CONTROL CTRL_BASE)
  | .returned _ => none

/-- After the access, if it is a read of what it has read. -/
def next (status : Byte) : Negotiate → Negotiate
  | .data => .request
  | .request => .waitAck NEG_TIMEOUT_OUTER.toNat
  | .waitAck turns =>
    if status &&& STAT_NACK_BIT = 0 then .strobe
    else if turns ≤ 1 then .reject else .waitAck (turns - 1)
  | .strobe => .strobeEnd
  | .strobeEnd => .select
  | .select => if status &&& STAT_SELECT_BIT = 0 then .reject else .commit
  | .commit => .returned true
  | .reject => .returned false
  | .returned accepted => .returned accepted

variable {ι : Type} [Ports ι]

/-- One access, on the port at `base`. -/
def turn (base : Word) (xflag : Byte) (x : Negotiate × ι) : Negotiate × ι :=
  match x.1.access xflag with
  | some (.out reg v) => (x.1.next 0, Ports.out (base + reg) v x.2)
  | some .status =>
    (x.1.next (Ports.inp (base + LPT_STATUS) x.2).1, (Ports.inp (base + LPT_STATUS) x.2).2)
  | none => x

/-- Accesses one after another. -/
abbrev Accesses (base : Word) (xflag : Byte) : Negotiate × ι → Negotiate × ι → Prop :=
  Relation.ReflTransGen fun x y => turn base xflag x = y

end Negotiate

/-! ## The routine makes these accesses -/

section

open Negotiate

variable {δ ι : Type} [Ports ι]

/-- Within the routine, entered with `m`: AX is on the stack, and memory is
what it was. -/
def inside (m : Machine δ ι) (a c d : Word) (f z : Bool) (io : ι) : Machine δ ι :=
  { m with ax := a, cx := c, dx := d, cf := f, zf := z, stk := m.ax :: m.stk, io := io }

/-- It has returned: CF says whether the request was not accepted. -/
def Negotiated (m m' : Machine δ ι) (x : Negotiate × ι) : Prop :=
  ∃ c d z accepted, x.1 = .returned accepted ∧
    m' = { m with cx := c, dx := d, cf := !accepted, zf := z, io := x.2 }

theorem setControl_inside (v : Byte) (m : Machine δ ι) (a c d : Word) (f z : Bool) (io : ι) :
    ∃ a' f' z', ieee1284Negotiate.setControl v (inside m a c d f z io) =
    inside m a' c (m.mem.word lptBase + LPT_CONTROL) f' z'
      (Ports.out (m.mem.word lptBase + LPT_CONTROL) v io) := by
  simp only [ieee1284Negotiate.setControl, inside, LptNibble.tinyDelay_eq, mov, add, movb, outAl,
    setReg, setReg8, reg, word, imm, lo_ofBytes]
  exact ⟨_, _, _, rfl⟩

variable {m : Machine δ ι} {a c d : Word} {f z : Bool} {io : ι}

/-- What the accesses from a point of the routine come to. -/
def ComesTo (m : Machine δ ι) (xflag : Byte) (at_ : Negotiate) (io : ι) (m' : Machine δ ι) : Prop :=
  ∃ x, Accesses (m.mem.word lptBase) xflag (at_, io) x ∧ Negotiated m m' x

theorem ComesTo.trans {m' : Machine δ ι} {xflag : Byte} {at₁ at₂ : Negotiate} {io₁ io₂ : ι}
    (h : Accesses (m.mem.word lptBase) xflag (at₁, io₁) (at₂, io₂))
    (h' : ComesTo m xflag at₂ io₂ m') :
    ComesTo m xflag at₁ io₁ m' := by
  obtain ⟨r, hr, hm⟩ := h'
  exact ⟨r, h.trans hr, hm⟩

theorem reject_comesTo (xflag : Byte) :
    ComesTo m xflag .reject io (ieee1284Negotiate.reject (inside m a c d f z io)) := by
  obtain ⟨a', f', z', e⟩ := setControl_inside CTRL_BASE m a c d f z io
  refine ⟨(.returned false, _), .single rfl, c, m.mem.word lptBase + LPT_CONTROL, z',
    false, rfl, ?_⟩
  rw [ieee1284Negotiate.reject, e]
  rfl

/-- The end of the strobe, and Select. -/
theorem strobeEnd_inside (m : Machine δ ι) (a c : Word) (f z : Bool) (io : ι) :
    ∃ a', (inside m a c (m.mem.word lptBase + LPT_CONTROL) f z io |>.movb .al (imm CTRL_NEG_REQ)
      |>.outAl (·.dx) |> lpt.tinyDelay
      |>.mov .dx (·.word lptBase) |>.add .dx (imm LPT_STATUS) |>.inAl (·.dx)
      |>.testb (·.reg8 .al) (imm STAT_SELECT_BIT)) =
    inside m a' c (m.mem.word lptBase + LPT_STATUS) false
      ((Ports.inp (m.mem.word lptBase + LPT_STATUS)
        (Ports.out (m.mem.word lptBase + LPT_CONTROL) CTRL_NEG_REQ io)).1 &&& STAT_SELECT_BIT = 0)
      (Ports.inp (m.mem.word lptBase + LPT_STATUS)
        (Ports.out (m.mem.word lptBase + LPT_CONTROL) CTRL_NEG_REQ io)).2 := by
  simp only [inside, LptNibble.tinyDelay_eq, mov, add, movb, outAl, inAl, testb, setReg, setReg8,
    reg, reg8, word, imm, lo_ofBytes]
  exact ⟨_, rfl⟩

theorem ackReceived_comesTo (xflag : Byte) :
    ComesTo m xflag .strobe io (ieee1284Negotiate.ackReceived (inside m a c d f z io)) := by
  obtain ⟨a₁, f₁, z₁, h₁⟩ := setControl_inside CTRL_NEG_STRB m a c d f z io
  obtain ⟨a₂, h₂⟩ :=
    strobeEnd_inside m a₁ c f₁ z₁ (Ports.out (m.mem.word lptBase + LPT_CONTROL) CTRL_NEG_STRB io)
  unfold ieee1284Negotiate.ackReceived
  rw [h₁, h₂]
  refine jz_cases (fun hz => ?_) fun hz => ?_
  · exact .trans (.head rfl (.head rfl (.single (Prod.ext (if_pos (of_decide_eq_true hz)) rfl))))
      (reject_comesTo xflag)
  · obtain ⟨a₃, f₃, z₃, h₃⟩ :=
      setControl_inside CTRL_NEG_ACK m a₂ c (m.mem.word lptBase + LPT_STATUS) false _ _
    rw [h₃]
    refine .trans (.head rfl (.head rfl (.single (Prod.ext (if_neg (of_decide_eq_false hz)) rfl))))
      ?_
    exact ⟨(.returned true, _), .single rfl, c, m.mem.word lptBase + LPT_CONTROL, z₃,
      true, rfl, rfl⟩

/-- One read of the status register for nAck. -/
theorem waitAck_inside (m : Machine δ ι) (a c : Word) (f z : Bool) (io : ι) :
    ∃ a', (inside m a c (m.mem.word lptBase + LPT_STATUS) f z io |>.inAl (·.dx)
      |>.testb (·.reg8 .al) (imm STAT_NACK_BIT)) =
    inside m a' c (m.mem.word lptBase + LPT_STATUS) false
      ((Ports.inp (m.mem.word lptBase + LPT_STATUS) io).1 &&& STAT_NACK_BIT = 0)
        (Ports.inp (m.mem.word lptBase + LPT_STATUS) io).2 := by
  simp only [inside, inAl, testb, reg8, imm, lo_ofBytes]
  exact ⟨_, rfl⟩

/-- The routine: its accesses with the byte in AL, and what they come to. -/
theorem ieee1284Negotiate_ok (m : Machine δ ι) :
    ComesTo m (lo m.ax) .data m.io (ieee1284Negotiate m) := by
  let base : Word := m.mem.word lptBase
  let I : Nat → Machine δ ι → Prop :=
    fun k m' => ∃ a f z io, m' = inside m a (BitVec.ofNat 16 k) (base + LPT_STATUS) f z io ∧
    Accesses base (lo m.ax) (.data, m.io) (if k = 0 then .reject else .waitAck k, io)
  let Q : Machine δ ι → Prop := ComesTo m (lo m.ax) .data m.io
  have hbody : ∀ k m', I (k + 1) m' → m'.cx = BitVec.ofNat 16 (k + 1) →
      (ieee1284Negotiate.waitAck m').Sat
        (fun m'' => m''.cx = m'.cx ∧ I k { m'' with cx := BitVec.ofNat 16 k }) Q := by
    rintro k m' ⟨a, f, z, io, rfl, hacc⟩ -
    rw [if_neg (Nat.succ_ne_zero k)] at hacc
    obtain ⟨a', h⟩ := waitAck_inside m a (BitVec.ofNat 16 (k + 1)) f z io
    unfold ieee1284Negotiate.waitAck
    rw [h]
    refine jz_cases (fun hz => ?_) fun hz => ?_
    · have hturn : Accesses base (lo m.ax) (.waitAck (k + 1), io) (.strobe,
          (Ports.inp (base + LPT_STATUS) io).2) :=
        .single (Prod.ext (if_pos (of_decide_eq_true hz)) rfl)
      exact .trans (hacc.trans hturn) (ackReceived_comesTo _)
    · refine ⟨rfl, a', false, _, _, rfl,
        hacc.trans (.single (Prod.ext ((if_neg (of_decide_eq_false hz)).trans ?_) rfl))⟩
      by_cases hk : k = 0
      · rw [if_pos hk, if_pos (by omega)]
      · rw [if_neg hk, if_neg (by omega)]
        rfl
  have hfall : ∀ m', I 0 m' → m'.cx = 0 → Q (ieee1284Negotiate.reject m') := by
    rintro m' ⟨a, f, z, io, rfl, hacc⟩ -
    exact .trans hacc (reject_comesTo _)
  obtain ⟨a, f, z, h⟩ := setControl_inside CTRL_NEG_REQ m m.ax m.cx (base + LPT_DATA)
    (65536 ≤ base.toNat + LPT_DATA.toNat) (base + LPT_DATA = 0)
      (Ports.out (base + LPT_DATA) (lo m.ax) m.io)
  unfold ieee1284Negotiate
  rw [LptNibble.tinyDelay_eq]
  refine loopE_rule (n := 256) I Q hbody hfall (by decide) (by decide) ?_ rfl
  refine ⟨a, decide (65536 ≤ base.toNat + LPT_STATUS.toNat), decide (base + LPT_STATUS = 0), _, ?_,
    .head rfl (.single rfl)⟩
  exact congrArg (fun m => m |>.mov .dx (·.word lptBase) |>.add .dx (imm LPT_STATUS)
    |>.mov .cx (imm NEG_TIMEOUT_OUTER)) h

end

end VintageKvm.Stage1
