import VintageKvm.I8086.Bus
import VintageKvm.Dos.Stage0.Kbc

/-!
# Stage 0: the i8042 taken and given back

`i8042_mastery` masks the interrupts of the i8042 and turns off the scancode
translation; the two unlock sequences knock at the private channels, the AUX
one after it has enabled the AUX interface; `restore_i8042_and_pic` undoes
what was done. What a routine writes, to memory and to the ports, is
`Touches`.
-/

namespace VintageKvm.Stage0.AtPs2

open I8086 Machine Dos Bus

variable {δ ι : Type}

abbrev IRQ1_MASK : Byte := 0x02
abbrev IRQ12_MASK : Byte := 0x10

/-! ## Delays -/

/-- A delay of `n` turns. -/
def delay (n : Word) (m : Machine δ ι) : Machine δ ι :=
  m |>.push (·.cx) |>.mov .cx (imm n) |>.loop id |>.pop .cx

/-- `delay_1ms`. -/
def delay1ms (m : Machine δ ι) : Machine δ ι := delay 1500 m

/-- `delay_5ms`. -/
def delay5ms (m : Machine δ ι) : Machine δ ι := delay 7500 m

/-- `delay_100ms`. -/
def delay100ms (m : Machine δ ι) : Machine δ ι :=
  m |>.push (·.bx) |>.push (·.cx) |>.mov .bx (imm 50)
    |>.loopNz (fun m => m |>.mov .cx (imm 1500) |>.loop id |>.dec .bx) |>.pop .cx |>.pop .bx

section

variable [Ports ι] (aux : Bool)

/-! ## The unlock sequences -/

/-- A byte to a device, which acknowledges it. -/
def sendExpectAck (send recv : Machine δ ι → Machine δ ι) (m : Machine δ ι) : Machine δ ι :=
  m |> send |>.jc (·.stc) fun m => m |> recv |>.jc (·.stc) fun m =>
    m |>.cmpb (·.reg8 .al) (imm KBD_ACK) |>.jnz (·.stc) (·.clc)

/-- `kbd_send_expect_ack`. -/
def kbdSendExpectAck (m : Machine δ ι) : Machine δ ι :=
  sendExpectAck kbdPrivateSendByte (kbdRecvPrivateByte aux) m

/-- `aux_send_expect_ack`. -/
def auxSendExpectAck (m : Machine δ ι) : Machine δ ι :=
  if aux then sendExpectAck (auxPrivateSendByte aux) (auxRecvPrivateByte aux) m else m.stc

/-- One turn of an unlock sequence: a command of the device, and the next byte
of the pattern as its data. -/
def knock (cmd : Byte) (send pause pause' : Machine δ ι → Machine δ ι) (m : Machine δ ι) :
    Flow (Machine δ ι) (Machine δ ι) :=
  m |>.movb .al (imm cmd) |> send |>.jc (.done ∘ (·.stc)) fun m =>
    m |> pause |>.lodsb |> send |>.jc (.done ∘ (·.stc)) (.next ∘ pause')

/-- The two bytes with which a device answers the sequence. -/
def expectSignature (recv : Machine δ ι → Machine δ ι) (m : Machine δ ι) : Machine δ ι :=
  m |> recv |>.jc (·.stc) fun m => m |>.cmpb (·.reg8 .al) (imm 0xAA) |>.jnz (·.stc) fun m =>
  m |> recv |>.jc (·.stc) fun m => m |>.cmpb (·.reg8 .al) (imm 0x55) |>.jnz (·.stc) (·.clc)

/-- `kbd_unlock_attempt`. -/
def kbdUnlockAttempt (m : Machine δ ι) : Machine δ ι :=
  m |>.mov .si (imm (kbdLedPattern aux)) |>.mov .cx (imm 5)
    |>.loopE (knock KBD_CMD_SET_LEDS (kbdSendExpectAck aux) delay1ms delay1ms)
      (expectSignature (kbdRecvPrivateByte aux))

/-- `kbd_unlock_private`. -/
def kbdUnlockPrivate (m : Machine δ ι) : Machine δ ι :=
  m |> kbdUnlockAttempt aux |>.jnc id fun m => m |> delay100ms |> kbdUnlockAttempt aux

/-- `aux_unlock_private`. -/
def auxUnlockPrivate (m : Machine δ ι) : Machine δ ι :=
  if aux then m |> i8042WaitIbe |>.jc (·.stc) fun m =>
    m |>.movb .al (imm KBC_ENABLE_AUX) |>.outAl (imm KBC_CMD)
      |>.stb (imm (auxEnabled aux)) (imm 1) |> delay5ms
      |>.mov .si (imm (auxRatePattern aux)) |>.mov .cx (imm 3)
      |>.loopE (knock MOUSE_SET_RATE (auxSendExpectAck aux) id delay5ms)
        (expectSignature (auxRecvPrivateByte aux))
  else m.stc

/-! ## Mastery -/

/-- The masks saved, and IRQ1 and IRQ12 masked. -/
def maskIrqs (m : Machine δ ι) : Machine δ ι :=
  m |>.inAl (imm PIC1_DATA) |>.stb (imm (pic1MaskOrig aux)) (·.reg8 .al) |>.orb .al (imm IRQ1_MASK)
    |>.outAl (imm PIC1_DATA) |> fun m =>
      if aux then
        m |>.inAl (imm PIC2_DATA) |>.stb (imm (pic2MaskOrig aux)) (·.reg8 .al)
          |>.orb .al (imm IRQ12_MASK) |>.outAl (imm PIC2_DATA)
      else m

/-- `i8042_mastery` up to the command byte in AL, or carry. -/
def readCommandByte (m : Machine δ ι) : Machine δ ι :=
  m |> maskIrqs aux |> i8042Flush |> i8042ReadCcb aux

/-- `i8042_mastery`, with `fail` for its `.fail`. -/
def i8042Mastery {β : Type} (fail next : Machine δ ι → β) (m : Machine δ ι) : β :=
  m |> readCommandByte aux |>.jc fail fun m =>
    m |>.stb (imm (ccbOrig aux)) (·.reg8 .al) |>.stb (imm (ccbSaved aux)) (imm 1)
      |>.andb .al (imm 0xBF) |> i8042WriteCcb |>.jc fail (next ∘ (·.clc))

/-- `restore_i8042_and_pic`. -/
def restoreI8042AndPic (m : Machine δ ι) : Machine δ ι := m |> disableAux |> ccb |> restorePic
where
  /-- The AUX interface, if it was enabled. -/
  disableAux (m : Machine δ ι) : Machine δ ι :=
    if aux then m |>.cmpb (·.byte (auxEnabled aux)) (imm 0) |>.jz id fun m =>
      m |> i8042WaitIbe |>.jc auxDone fun m =>
        m |>.movb .al (imm KBC_DISABLE_AUX) |>.outAl (imm KBC_CMD) |> auxDone
    else m
  /-- `.aux_done`. -/
  auxDone (m : Machine δ ι) : Machine δ ι := m.stb (imm (auxEnabled aux)) (imm 0)
  /-- `.ccb`. -/
  ccb (m : Machine δ ι) : Machine δ ι :=
    m |>.cmpb (·.byte (ccbSaved aux)) (imm 0) |>.jz id fun m =>
      m |>.movb .al (·.byte (ccbOrig aux)) |> i8042WriteCcb |>.stb (imm (ccbSaved aux)) (imm 0)
  /-- `.restore_pic`. -/
  restorePic (m : Machine δ ι) : Machine δ ι :=
    m |>.movb .al (·.byte (pic1MaskOrig aux)) |>.outAl (imm PIC1_DATA)
      |> (fun m =>
        if aux then m |>.movb .al (·.byte (pic2MaskOrig aux)) |>.outAl (imm PIC2_DATA) else m)
      |>.stb (imm (i8042Active aux)) (imm 0)

end

/-! ## What a routine writes to -/

/-- `m'` differs from `m` in memory within `rs` only, and was reached by reads
and by writes of `ws`. -/
structure Touches (ws : Word × Byte → Prop) (rs : List Region) (m m' : Machine δ Bus) : Prop where
  mem : Frame rs m.mem m'.mem
  link : Puts ws m.io m'.io

/-- The writes to the controller's ports. -/
def kbcWrites (w : Word × Byte) : Prop := kbcPorts w.1

/-- The writes to its data port. -/
def dataWrites (w : Word × Byte) : Prop := w.1 = KBC_DATA

theorem data_kbc (w : Word × Byte) (h : dataWrites w) : kbcWrites w := .inl h

theorem kbcPorts_not_pic {p : Word} (h : kbcPorts p) : p ≠ PIC1_DATA ∧ p ≠ PIC2_DATA := by
  rcases h with rfl | rfl <;> decide

theorem kbc_not_pic {w : Word × Byte} (h : kbcWrites w) : w.1 ≠ PIC1_DATA ∧ w.1 ≠ PIC2_DATA :=
  kbcPorts_not_pic h

variable {ws ws' : Word × Byte → Prop} {rs rs' : List Region} {m m' m₁ m₂ m₃ : Machine δ Bus}

namespace Touches

theorem refl (ws : Word × Byte → Prop) (rs : List Region) (m : Machine δ Bus) : Touches ws rs m m :=
  ⟨.refl _ _, .refl _ _⟩

theorem trans (h₁ : Touches ws rs m₁ m₂) (h₂ : Touches ws rs m₂ m₃) : Touches ws rs m₁ m₃ :=
  ⟨h₁.mem.trans h₂.mem, h₁.link.trans h₂.link⟩

theorem mono (h : Touches ws rs m m₁) (hw : ∀ w, ws w → ws' w) (hr : ∀ r ∈ rs, r ∈ rs') :
    Touches ws' rs' m m₁ :=
  ⟨h.mem.mono hr, h.link.mono hw⟩

theorem stb (h : Touches ws rs m m') {a : Word} (v : Machine δ Bus → Byte) (ha : ⟨a, 1⟩ ∈ rs) :
    Touches ws rs m (m'.stb (imm a) v) := ⟨h.mem.setVar _ ha, h.link⟩

theorem outAl (h : Touches ws rs m m') {p : Word} (hp : kbcPorts p) (hw : ws (p, lo m'.ax)) :
    Touches ws rs m (m'.outAl (imm p)) :=
  ⟨h.mem, h.link.trans (.out _ (kbcPorts_not_pic hp).1 (kbcPorts_not_pic hp).2 hw)⟩

/-- `i8042_wait_ibe`. -/
theorem wait (h : Touches ws rs m m') : Touches ws rs m (i8042WaitIbe m') := by
  have hd := fun ps => pollIbe_drives ps LptNibble.POLLS m'.io
  cases hp : pollFor pollIbe LptNibble.POLLS m'.io with
  | mk r io =>
    rw [hp] at hd
    obtain ⟨s, z, e⟩ := i8042WaitIbe_ok m' hp
    rw [e]
    exact ⟨h.mem, h.link.trans (.of_reads hd _)⟩

/-- `i8042_flush`. -/
theorem flush (h : Touches ws rs m m') : Touches ws rs m (i8042Flush m') := by
  refine loopE_keeps (Touches ws rs m) (Touches ws rs m)
    (fun _ _ h => ⟨h.mem, h.link⟩) (fun m₁ h₁ => ?_) (fun _ h => h) ⟨h.mem, h.link⟩
  have h₂ : Touches ws rs m (m₁.inAl (imm KBC_STATUS)) := ⟨h₁.mem, h₁.link.trans (.inp _ _ _)⟩
  exact jz_cases (P := Flow.Sat _ _) (fun _ => ⟨h₂.mem, h₂.link⟩)
    fun _ => ⟨h₂.mem, h₂.link.trans (.inp _ _ _)⟩

end Touches

theorem delay_eq (n : Word) (m : Machine δ ι) : delay n m = m := by
  simp only [delay, loop_id, push, mov, setReg, pop, top, List.headD_cons, List.tail_cons]

/-- `delay_100ms` leaves a flag. -/
theorem delay100ms_ok (m : Machine δ ι) : ∃ z, delay100ms m = { m with zf := z } := by
  let body : Machine δ ι → Machine δ ι := fun m => m |>.mov .cx (imm 1500) |>.loop id |>.dec .bx
  have hbody : ∀ m', body m' = { m' with bx := m'.bx - 1, cx := 0, zf := m'.bx - 1 = 0 } :=
    fun m' => by
    show (loop id (m'.mov .cx (imm 1500))).dec .bx = _
    rw [loop_id]
    rfl
  let I : Nat → Machine δ ι → Prop := fun k m' => k ≤ 50 ∧ ∃ w z,
    m' = { m with bx := BitVec.ofNat 16 k, cx := w, zf := z, stk := m.cx :: m.bx :: m.stk }
  have hround : ∀ k m', I (k + 1) m' → I k (body m') ∧ ((body m').zf = true ↔ k = 0) := by
    rintro k _ ⟨hk, w, z, rfl⟩
    rw [hbody]
    simp only [ofNat_succ_sub_one]
    refine ⟨⟨Nat.le_of_succ_le hk, 0, _, rfl⟩, ?_⟩
    rw [decide_eq_true_iff, ← BitVec.toNat_inj, toNat_ofNat16 (by omega)]
    exact Iff.rfl
  have h0 : I 50 (m |>.push (·.bx) |>.push (·.cx) |>.mov .bx (imm 50)) := ⟨le_rfl, m.cx, m.zf, rfl⟩
  obtain ⟨-, w, z, e⟩ := loopNz_rule I hround (by decide) (by decide) h0
  refine ⟨z, ?_⟩
  rw [delay100ms, e]
  rfl

/-- Some of the writes, or all of them. -/
theorem writes_put {l : List (Word × Byte)} (hl : ∀ w ∈ l, ws w ∧ kbcWrites w) (b : Bus) :
    Puts ws b (writes l b).2 ∧ ((writes l b).1 = true → (writes l b).2.outs = b.outs ++ l) := by
  induction l generalizing b with
  | nil => exact ⟨.refl _ _, fun _ => (List.append_nil _).symm⟩
  | cons w l ih =>
    have hd := fun ps => pollIbe_drives ps LptNibble.POLLS b
    obtain ⟨hw, hk⟩ := hl w List.mem_cons_self
    rw [writes]
    split
    · rename_i e
      rw [e] at hd
      exact ⟨.of_reads hd _, fun h => (Bool.false_ne_true h).elim⟩
    · rename_i s b₁ e
      rw [e] at hd
      obtain ⟨hput, hall⟩ :=
        ih (fun w' h => hl w' (List.mem_cons_of_mem _ h)) (Ports.out w.1 w.2 b₁)
      have hout : Puts ws b₁ (Ports.out w.1 w.2 b₁) :=
        .out _ (kbc_not_pic hk).1 (kbc_not_pic hk).2 hw
      have hw' : (Ports.out w.1 w.2 b₁ : Bus).outs = b.outs ++ [w] := by
        obtain ⟨l', e', hno⟩ := (Puts.of_reads hd fun _ => False).outs
        obtain rfl : l' = [] := List.eq_nil_iff_forall_not_mem.mpr hno
        rw [List.append_nil] at e'
        rw [← e']
        simp only [Ports.out, if_neg (kbc_not_pic hk).1, if_neg (kbc_not_pic hk).2]
      refine ⟨(Puts.of_reads hd _).trans (hout.trans hput), fun h => ?_⟩
      rw [hall h, hw', List.append_assoc]
      rfl

/-- A routine that leaves memory alone and makes some of the writes `ws`. -/
def Tells (ws : Word × Byte → Prop) (f : Machine δ Bus → Machine δ Bus) : Prop :=
  ∀ m, ∃ a c z got io, f m = { m with ax := a, cf := c, zf := z, got := got, io := io } ∧
    Puts ws m.io io

namespace Tells

variable {f g : Machine δ Bus → Machine δ Bus}

theorem touches (hf : Tells ws f) (h : Touches ws rs m m') : Touches ws rs m (f m') := by
  obtain ⟨a, c, z, got, io, e, hp⟩ := hf m'
  rw [e]
  exact ⟨h.mem, h.link.trans hp⟩

theorem of_heard (hf : ∀ m, Heard m (f m)) : Tells ws f := fun m => by
  obtain ⟨a, c, z, bs, io, e, -, hd⟩ := hf m
  exact ⟨a, c, z, _, io, e, .of_reads hd _⟩

end Tells

theorem kbdPrivateSendByte_tells : Tells dataWrites (kbdPrivateSendByte (δ := δ)) := fun m => by
  obtain ⟨c, z, io, e, hd⟩ := kbdPrivateSendByte_drives m
  have hp : Puts dataWrites m.io io :=
    .of_drives hd (by unfold kbdPorts; decide) (by unfold kbdPorts; decide)
  exact ⟨m.ax, c, z, m.got, io, e, hp⟩

theorem auxPrivateSendByte_tells (aux : Bool) : Tells kbcWrites
    (auxPrivateSendByte (δ := δ) aux) := fun m => by
  obtain ⟨c, z, io, e, hd⟩ := auxPrivateSendByte_drives aux m
  have hp : Puts kbcWrites m.io io :=
    .of_drives hd (by unfold kbcPorts; decide) (by unfold kbcPorts; decide)
  exact ⟨m.ax, c, z, m.got, io, e, hp⟩

/-! ## The unlock sequences write -/

section

variable {send recv pause pause' : Machine δ Bus → Machine δ Bus}

theorem sendExpectAck_touches (hs : Tells ws send) (hr : Tells ws recv) (h : Touches ws rs m m') :
    Touches ws rs m (sendExpectAck send recv m') := by
  have h₁ := hs.touches h
  have h₂ := hr.touches h₁
  exact jc_cases (fun _ => ⟨h₁.mem, h₁.link⟩)
    fun _ => jc_cases (fun _ => ⟨h₂.mem, h₂.link⟩) fun _ =>
    jnz_cases (fun _ => ⟨h₂.mem, h₂.link⟩) fun _ => ⟨h₂.mem, h₂.link⟩

theorem expectSignature_touches (hr : Tells ws recv) (h : Touches ws rs m m') :
    Touches ws rs m (expectSignature recv m') := by
  have h₁ := hr.touches h
  refine jc_cases (fun _ => ⟨h₁.mem, h₁.link⟩)
    fun _ => jnz_cases (fun _ => ⟨h₁.mem, h₁.link⟩) fun _ => ?_
  have h₂ : Touches ws rs m (recv (recv m' |>.cmpb (·.reg8 .al) (imm 0xAA))) :=
    hr.touches ⟨h₁.mem, h₁.link⟩
  exact jc_cases (fun _ => ⟨h₂.mem, h₂.link⟩) fun _ => jnz_cases (fun _ => ⟨h₂.mem, h₂.link⟩)
    fun _ => ⟨h₂.mem, h₂.link⟩

/-- One turn of an unlock sequence. -/
theorem knock_touches (cmd : Byte) (hs : ∀ {m'}, Touches ws rs m m' → Touches ws rs m (send m'))
    (hp : ∀ m, pause m = m) (hp' : ∀ m, pause' m = m) (h : Touches ws rs m m') :
    (knock cmd send pause pause' m').Sat (Touches ws rs m) (Touches ws rs m) := by
  have h₁ : Touches ws rs m (send (m'.movb .al (imm cmd))) := hs ⟨h.mem, h.link⟩
  refine jc_cases (P := Flow.Sat _ _) (fun _ => ⟨h₁.mem, h₁.link⟩) fun _ => ?_
  rw [hp]
  have h₂ : Touches ws rs m (send (lodsb (send (m'.movb .al (imm cmd))))) := hs ⟨h₁.mem, h₁.link⟩
  refine jc_cases (P := Flow.Sat _ _) (fun _ => ⟨h₂.mem, h₂.link⟩) fun _ => ?_
  show Touches ws rs m (pause' _)
  rw [hp']
  exact h₂

end

variable (aux : Bool)

theorem kbdUnlockAttempt_touches (h : Touches dataWrites rs m m') :
    Touches dataWrites rs m (kbdUnlockAttempt aux m') := by
  have hrecv : Tells dataWrites (kbdRecvPrivateByte (δ := δ) aux) :=
    .of_heard (kbdRecvPrivateByte_heard aux)
  refine loopE_keeps (Touches dataWrites rs m) (Touches dataWrites rs m)
    (fun _ _ h => ⟨h.mem, h.link⟩) (fun m₁ h₁ => ?_)
    (fun m₁ h₁ => expectSignature_touches hrecv h₁) ⟨h.mem, h.link⟩
  exact knock_touches _ (sendExpectAck_touches kbdPrivateSendByte_tells hrecv) (delay_eq _)
    (delay_eq _) h₁

theorem kbdUnlockPrivate_touches (h : Touches dataWrites rs m m') :
    Touches dataWrites rs m (kbdUnlockPrivate aux m') := by
  have h₁ := kbdUnlockAttempt_touches aux h
  refine jnc_cases (fun _ => h₁) fun _ => kbdUnlockAttempt_touches aux ?_
  obtain ⟨z, e⟩ := delay100ms_ok (kbdUnlockAttempt aux m')
  rw [e]
  exact ⟨h₁.mem, h₁.link⟩

/-- The AUX interface is enabled, and that is noted, before anything else is
written; or nothing is. -/
theorem auxUnlockPrivate_touches (m : Machine δ Bus) :
    (auxUnlockPrivate aux m).cf = true ∧ Touches (fun _ => False) [] m (auxUnlockPrivate aux m) ∨
    aux = true ∧ Touches kbcWrites [⟨auxEnabled aux, 1⟩] m (auxUnlockPrivate aux m) ∧
      (auxUnlockPrivate aux m).mem (auxEnabled aux) = 1 := by
  let P : Machine δ Bus → Prop := fun m' => m'.cf = true ∧ Touches (fun _ => False) [] m m' ∨
    aux = true ∧ Touches kbcWrites [⟨auxEnabled aux, 1⟩] m m' ∧ m'.mem (auxEnabled aux) = 1
  show P (auxUnlockPrivate aux m)
  rw [auxUnlockPrivate]
  split
  · rename_i haux
    have h₀ : Touches (fun _ => False) [] m (i8042WaitIbe m) := (Touches.refl _ _ m).wait
    refine jc_cases (fun _ => .inl ⟨rfl, h₀.mem, h₀.link⟩) fun _ => .inr ⟨haux, ?_⟩
    have h₁ : Touches kbcWrites [⟨auxEnabled aux, 1⟩] m (i8042WaitIbe m) :=
      (Touches.refl _ _ m).wait
    let m₂ : Machine δ Bus := i8042WaitIbe m |>.movb .al (imm KBC_ENABLE_AUX) |>.outAl (imm KBC_CMD)
    have hcmd : Touches kbcWrites [⟨auxEnabled aux, 1⟩] m
        (i8042WaitIbe m |>.movb .al (imm KBC_ENABLE_AUX)) :=
      ⟨h₁.mem, h₁.link⟩
    have h₂ : Touches kbcWrites [⟨auxEnabled aux, 1⟩] m m₂ := hcmd.outAl (.inr rfl) (.inr rfl)
    let m₃ : Machine δ Bus := m₂.stb (imm (auxEnabled aux)) (imm 1)
    have h₃ : Touches kbcWrites [⟨auxEnabled aux, 1⟩] m m₃ :=
      h₂.stb _ (List.mem_singleton_self _)
    have hrecv : Tells kbcWrites (auxRecvPrivateByte (δ := δ) aux) :=
      .of_heard (auxRecvPrivateByte_heard aux)
    have hsend : ∀ {m'}, Touches kbcWrites [] m₃ m' →
        Touches kbcWrites [] m₃ (auxSendExpectAck aux m') := fun {m'} h => by
      rw [auxSendExpectAck, if_pos haux]
      exact sendExpectAck_touches (auxPrivateSendByte_tells aux) hrecv h
    let Q : Machine δ Bus → Prop := fun m' => Touches kbcWrites [⟨auxEnabled aux, 1⟩] m m' ∧
      m'.mem (auxEnabled aux) = 1
    show Q (loopE _ _ (delay5ms m₃ |>.mov .si (imm (auxRatePattern aux)) |>.mov .cx (imm 3)))
    rw [delay5ms, delay_eq]
    have hl :
      Touches kbcWrites [] m₃ (loopE (knock MOUSE_SET_RATE (auxSendExpectAck aux) id delay5ms)
        (expectSignature (auxRecvPrivateByte aux)) (m₃.mov .si (imm (auxRatePattern aux))
          |>.mov .cx (imm 3))) :=
      loopE_keeps (Touches kbcWrites [] m₃) _ (fun _ _ h => ⟨h.mem, h.link⟩)
        (fun _ h => knock_touches _ hsend (fun _ => rfl) (delay_eq _) h)
          (fun _ h => expectSignature_touches hrecv h)
        ⟨.refl _ _, .refl _ _⟩
    refine ⟨h₃.trans (hl.mono (fun _ h => h) fun _ h => nomatch h), ?_⟩
    exact (hl.mem (auxEnabled aux) fun _ h => nomatch h).trans (Mem.set_self _ _ _)
  · exact .inl ⟨rfl, .refl _ _, .refl _ _⟩

end VintageKvm.Stage0.AtPs2
