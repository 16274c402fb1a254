import VintageKvm.Dos.Stage1.Exchange

/-!
# Stage 1: the capability handshake

CAP_REQ goes out, CAP_RSP comes in, CAP_ACK goes out. `capHandshake_ok` says
what it leaves for every peer: the size and the checksum of Stage 2 are the
fields of the answer whenever it is a CAP_RSP of version 1 with enough
payload, whether or not the fields are then accepted; the carry flag is all
that says they were.
-/

namespace VintageKvm.Stage1

open I8086 Machine Dos Protocol

variable {ι : Type} [Pump ι]

/-! ## The routines -/

/-- `send_cap_req` and `send_cap_ack`: a packet without payload. -/
def sendCap (cmd : Byte) (m : Machine DosState ι) : Machine DosState ι :=
  m |>.movb .al (imm cmd) |>.xorw .cx (·.cx) |>.mov .si (imm TX_BUF_OFF) |> encodeDrain

/-- `send_cap_req`. -/
def sendCapReq (m : Machine DosState ι) : Machine DosState ι := sendCap CMD_CAP_REQ m

/-- `send_cap_ack`. -/
def sendCapAck (m : Machine DosState ι) : Machine DosState ι := sendCap CMD_CAP_ACK m

/-- `recv_cap_rsp`. -/
def recvCapRsp (m : Machine DosState ι) : Machine DosState ι :=
  m |> recvHeader fail fun m => m |> recvRest fail fun m =>
  m |>.cmpb (·.reg8 .al) (imm CMD_CAP_RSP) |>.jnz fail (·.clc)
where
  /-- `.fail`. -/
  fail (m : Machine DosState ι) : Machine DosState ι := m.stc

/-- The payload of the packet in the receive buffer. -/
abbrev rxPayload : Word := RX_BUF_OFF + PACKET_HEADER_LEN

/-- `mov al, [src]`, `mov [dst], al`. -/
def copyb (dst src : Word) (m : Machine DosState ι) : Machine DosState ι :=
  m |>.movb .al (·.byte src) |>.stb (imm dst) (·.reg8 .al)

/-- `parse_cap_rsp_fields`. -/
def parseCapRspFields (m : Machine DosState ι) : Machine DosState ι :=
  m |>.movb .bh (·.byte (RX_BUF_OFF + 3)) |>.movb .bl (·.byte (RX_BUF_OFF + 4))
    |>.cmp (·.bx) (imm CAP_RSP_MIN_PAYLOAD) |>.jc fail fun m =>
  m |> copyb picoVersionMajor (rxPayload + CAP_RSP_VER_MAJ_OFF)
    |>.cmpb (·.reg8 .al) (imm 1) |>.jnz fail fun m =>
  m |> copyb picoVersionMinor (rxPayload + CAP_RSP_VER_MIN_OFF)
    |> copyb picoActiveMode (rxPayload + CAP_RSP_ACTIVE_OFF)
    |> copyb (stage2ImageSize + 3) (rxPayload + CAP_RSP_STAGE2_SIZE)
    |> copyb (stage2ImageSize + 2) (rxPayload + CAP_RSP_STAGE2_SIZE + 1)
    |> copyb (stage2ImageSize + 1) (rxPayload + CAP_RSP_STAGE2_SIZE + 2)
    |> copyb stage2ImageSize (rxPayload + CAP_RSP_STAGE2_SIZE + 3)
    |> copyb (stage2ImageCrc32 + 3) (rxPayload + CAP_RSP_STAGE2_CRC)
    |> copyb (stage2ImageCrc32 + 2) (rxPayload + CAP_RSP_STAGE2_CRC + 1)
    |> copyb (stage2ImageCrc32 + 1) (rxPayload + CAP_RSP_STAGE2_CRC + 2)
    |> copyb stage2ImageCrc32 (rxPayload + CAP_RSP_STAGE2_CRC + 3)
    |>.mov .ax (·.word stage2ImageSize) |>.mov .dx (·.word (stage2ImageSize + 2))
    |>.mov .bx (·.ax) |>.orw .bx (·.dx) |>.jz fail fun m =>
  m |>.cmp (·.dx) (imm 3) |>.ja fail fun m => m.jc ok fun m =>
  m |>.cmp (·.ax) (imm 0x0D40) |>.ja fail ok
where
  /-- `.fail`. -/
  fail (m : Machine DosState ι) : Machine DosState ι := m.stc
  /-- `.ok`. -/
  ok (m : Machine DosState ι) : Machine DosState ι := m.clc

/-- `print_cap_summary`. -/
def printCapSummary (m : Machine DosState ι) : Machine DosState ι :=
  m |> putsMsg msgCapPico |>.xorb .ah (·.reg8 .ah)
    |>.movb .al (·.byte picoVersionMajor) |> printHex8
    |> putsMsg msgDot |>.movb .al (·.byte picoVersionMinor) |> printHex8
    |> putsMsg msgCapSizeLabel |>.mov .ax (·.word stage2ImageSize)
    |>.mov .dx (·.word (stage2ImageSize + 2)) |> printHex32
    |> putsMsg msgCapCrcLabel |>.mov .ax (·.word stage2ImageCrc32)
    |>.mov .dx (·.word (stage2ImageCrc32 + 2)) |> printHex32
    |> putsMsg msgCapModeLabel |>.movb .al (·.byte picoActiveMode) |> printHex8 |> putsMsg msgCrlf

/-- `cap_handshake`. -/
def capHandshake (m : Machine DosState ι) : Machine DosState ι :=
  m |>.cmpb (·.byte negotiatedMode) (imm NEG_MODE_NONE) |>.jz skipNoLpt fun m =>
  m |>.cmpb (·.byte negotiatedMode) (imm NEG_MODE_SPP) |>.jz proceed fun m =>
  m |> putsMsg msgCapSkippedPump |>.stc
where
  /-- `.skip_no_lpt`. -/
  skipNoLpt (m : Machine DosState ι) : Machine DosState ι := m |> putsMsg msgCapSkippedNoLpt |>.stc
  /-- `.proceed`. -/
  proceed (m : Machine DosState ι) : Machine DosState ι :=
    m |> sendCapReq |>.jc (fail msgCapFailReq) fun m =>
    m |> recvCapRsp |>.jc (fail msgCapFailRsp) fun m =>
    m |> parseCapRspFields |>.jc (fail msgCapFailParse) fun m =>
    m |> sendCapAck |>.jc (fail msgCapFailAck) fun m =>
    m |> putsMsg msgCapOk |> printCapSummary |>.clc
  /-- `.fail_req`, `.fail_rsp`, `.fail_parse`, `.fail_ack`. -/
  fail (msg : Word) (m : Machine DosState ι) : Machine DosState ι := m |> putsMsg msg |>.stc

/-! ## The fields -/

/-- A big-endian double word of a payload. -/
def beField (payload : List Byte) (off : Nat) : DWord :=
  ofWords (ofBytes (payload.getD off 0) (payload.getD (off + 1) 0))
    (ofBytes (payload.getD (off + 2) 0) (payload.getD (off + 3) 0))

/-- What a size must be. -/
def SizeOk (size : DWord) : Prop := 1 ≤ size.toNat ∧ size.toNat ≤ MAX_STAGE2_SIZE

instance (size : DWord) : Decidable (SizeOk size) := inferInstanceAs (Decidable (_ ∧ _))

/-- What the handshake's answer fills in. -/
abbrev capVars : List Region := [⟨picoVersionMajor, 1⟩, ⟨picoVersionMinor, 1⟩, ⟨picoActiveMode, 1⟩,
  ⟨stage2ImageSize, 4⟩, ⟨stage2ImageCrc32, 4⟩]

/-- The memory with the fields of the received payload copied to their
variables. -/
def capFields (mem : Mem) : Mem :=
  mem |>.set picoVersionMajor (mem (rxPayload + CAP_RSP_VER_MAJ_OFF))
    |>.set picoVersionMinor (mem (rxPayload + CAP_RSP_VER_MIN_OFF))
    |>.set picoActiveMode (mem (rxPayload + CAP_RSP_ACTIVE_OFF))
    |>.set (stage2ImageSize + 3) (mem (rxPayload + CAP_RSP_STAGE2_SIZE))
    |>.set (stage2ImageSize + 2) (mem (rxPayload + CAP_RSP_STAGE2_SIZE + 1))
    |>.set (stage2ImageSize + 1) (mem (rxPayload + CAP_RSP_STAGE2_SIZE + 2))
    |>.set stage2ImageSize (mem (rxPayload + CAP_RSP_STAGE2_SIZE + 3))
    |>.set (stage2ImageCrc32 + 3) (mem (rxPayload + CAP_RSP_STAGE2_CRC))
    |>.set (stage2ImageCrc32 + 2) (mem (rxPayload + CAP_RSP_STAGE2_CRC + 1))
    |>.set (stage2ImageCrc32 + 1) (mem (rxPayload + CAP_RSP_STAGE2_CRC + 2))
    |>.set stage2ImageCrc32 (mem (rxPayload + CAP_RSP_STAGE2_CRC + 3))

theorem capFields_size (mem : Mem) : (capFields mem).dword stage2ImageSize =
    ofWords (ofBytes (mem (rxPayload + 28)) (mem (rxPayload + 29)))
      (ofBytes (mem (rxPayload + 30)) (mem (rxPayload + 31))) := by
  simp only [Mem.dword, capFields, Mem.word]
  simp (disch := decide) only [Mem.set_of_ne, Mem.set_self]
  rfl

theorem capFields_crc (mem : Mem) : (capFields mem).dword stage2ImageCrc32 =
    ofWords (ofBytes (mem (rxPayload + 32)) (mem (rxPayload + 33)))
      (ofBytes (mem (rxPayload + 34)) (mem (rxPayload + 35))) := by
  simp only [Mem.dword, capFields, Mem.word]
  simp (disch := decide) only [Mem.set_of_ne, Mem.set_self]
  rfl

theorem capFields_major (mem : Mem) : capFields mem picoVersionMajor = mem rxPayload := by
  simp only [capFields]
  simp (disch := decide) only [Mem.set_of_ne, Mem.set_self]
  rfl

theorem capFields_minor (mem : Mem) : capFields mem picoVersionMinor = mem (rxPayload + 1) := by
  simp only [capFields]
  simp (disch := decide) only [Mem.set_of_ne, Mem.set_self]

theorem capFields_active (mem : Mem) : capFields mem picoActiveMode = mem (rxPayload + 23) := by
  simp only [capFields]
  simp (disch := decide) only [Mem.set_of_ne, Mem.set_self]

theorem capFields_frame (mem : Mem) : Frame capVars mem (capFields mem) := by
  simp only [capFields]
  exact ((Frame.refl _ _).set _ (by decide)).set _ (by decide) |>.set _ (by decide)
    |>.set _ (by decide)
    |>.set _ (by decide) |>.set _ (by decide) |>.set _ (by decide) |>.set _ (by decide)
    |>.set _ (by decide)
    |>.set _ (by decide) |>.set _ (by decide)

/-- The check of the size, on its two words. -/
theorem sizeOk_words (h l : Word) : SizeOk (ofWords h l) ↔
    ¬ (l ||| h = 0) ∧ (h.toNat < 3 ∨ h.toNat = 3 ∧ l.toNat ≤ 0x0D40) := by
  have hz : l ||| h = 0 ↔ l.toNat = 0 ∧ h.toNat = 0 := by
    rw [← BitVec.toNat_inj, BitVec.toNat_or]
    show l.toNat ||| h.toNat = 0 ↔ _
    exact Nat.or_eq_zero_iff
  have hl := l.isLt
  rw [SizeOk, toNat_ofWords, hz, MAX_STAGE2_SIZE]
  omega

omit [Pump ι] in
/-- The last part of `parse_cap_rsp_fields`: DX:AX is at most 200000. -/
theorem sizeCheck_ok (m : Machine DosState ι) (hz : m.zf = decide (m.ax ||| m.dx = 0)) :
    ∃ c z, (m.jz parseCapRspFields.fail fun m =>
      m |>.cmp (·.dx) (imm 3) |>.ja parseCapRspFields.fail
        fun m => m.jc parseCapRspFields.ok fun m =>
      m |>.cmp (·.ax) (imm 0x0D40) |>.ja parseCapRspFields.fail parseCapRspFields.ok) =
      { m with cf := c, zf := z } ∧
    (c = false ↔ ¬ (m.ax ||| m.dx = 0) ∧
      (m.dx.toNat < 3 ∨ m.dx.toNat = 3 ∧ m.ax.toNat ≤ 0x0D40)) := by
  by_cases h0 : m.ax ||| m.dx = 0
  · rw [jz_pos (hz.trans (decide_eq_true h0))]
    exact ⟨true, m.zf, rfl, (fun h => nomatch h), fun h => absurd h0 h.1⟩
  rw [jz_neg (hz.trans (decide_eq_false h0))]
  have h3 : m.dx = 3 ↔ m.dx.toNat = 3 := ⟨fun h => h ▸ rfl, fun h => BitVec.eq_of_toNat_eq h⟩
  have hd : m.ax = 0x0D40 ↔ m.ax.toNat = 0x0D40 :=
    ⟨fun h => h ▸ rfl, fun h => BitVec.eq_of_toNat_eq h⟩
  have e3 : (3 : Word).toNat = 3 := rfl
  have ed : (0x0D40 : Word).toNat = 0x0D40 := rfl
  rcases lt_trichotomy m.dx.toNat 3 with hu | hu | hu
  · refine ⟨false, false, ?_, fun _ => ⟨h0, .inl hu⟩, fun _ => rfl⟩
    have hne : ¬ m.dx = 3 := fun h => hu.ne (h3.mp h)
    simp only [parseCapRspFields.ok, ↓ja, ↓jc, ↓reduceIte, Machine.cmp, imm, e3, hu, hne,
      decide_true, decide_false, Bool.or_false, clc]
  · have hnl : ¬ m.dx.toNat < 3 := hu.not_lt
    have heq : m.dx = 3 := h3.mpr hu
    by_cases hl : m.ax.toNat ≤ 0x0D40
    · have hor : (decide (m.ax.toNat < 0x0D40) || decide (m.ax = 0x0D40)) = true := by
        rw [Bool.or_eq_true, decide_eq_true_iff, decide_eq_true_iff, hd]
        omega
      refine ⟨false, decide (m.ax = 0x0D40), ?_, fun _ => ⟨h0, .inr ⟨hu, hl⟩⟩, fun _ => rfl⟩
      simp only [parseCapRspFields.ok, ↓ja, ↓jc, ↓reduceIte, Machine.cmp, imm, e3, ed, heq, hor,
        lt_irrefl, decide_true, decide_false, Bool.or_true, Bool.false_eq_true, clc]
    · have hor : (decide (m.ax.toNat < 0x0D40) || decide (m.ax = 0x0D40)) = false := by
        rw [Bool.or_eq_false_iff, decide_eq_false_iff_not, decide_eq_false_iff_not, hd]
        omega
      refine ⟨true, decide (m.ax = 0x0D40), ?_, (fun h => nomatch h), fun h => ?_⟩
      · simp only [parseCapRspFields.fail, ↓ja, ↓jc, ↓reduceIte, Machine.cmp, imm, e3, ed, heq, hor,
          lt_irrefl, decide_true, decide_false, Bool.or_true, Bool.false_eq_true, stc]
      · omega
  · refine ⟨true, false, ?_, (fun h => nomatch h), fun h => ?_⟩
    · have hne : ¬ m.dx = 3 := fun h => hu.ne' (h3.mp h)
      have hnl : ¬ m.dx.toNat < 3 := hu.not_gt
      simp only [parseCapRspFields.fail, ↓ja, ↓reduceIte, Machine.cmp, imm, e3, hnl,
        hne, decide_false, Bool.or_false, stc, Bool.false_eq_true]
    · omega

omit [Pump ι] in
/-- `parse_cap_rsp_fields`: the fields are stored before the size is checked. -/
theorem parseCapRspFields_ok (m : Machine DosState ι) :
    let len := ofBytes (m.mem (RX_BUF_OFF + 3)) (m.mem (RX_BUF_OFF + 4))
    let major := m.mem (rxPayload + CAP_RSP_VER_MAJ_OFF)
    ∃ a b d c z mem',
      parseCapRspFields m = { m with ax := a, bx := b, dx := d, cf := c, zf := z, mem := mem' } ∧
      if len.toNat < 36 then c = true ∧ mem' = m.mem
      else if major ≠ 1 then c = true ∧ mem' = m.mem.set picoVersionMajor major
      else (c = false ↔ SizeOk ((capFields m.mem).dword stage2ImageSize)) ∧
      mem' = capFields m.mem := by
  intro len major
  by_cases hlen : len.toNat < 36
  · have h : (ofBytes (m.mem (RX_BUF_OFF + 3)) (m.mem (RX_BUF_OFF + 4))).toNat <
        CAP_RSP_MIN_PAYLOAD.toNat := hlen
    refine ⟨m.ax, len, m.dx, true, decide (len = CAP_RSP_MIN_PAYLOAD), m.mem, ?_,
      by rw [if_pos hlen]; exact ⟨rfl, rfl⟩⟩
    simp only [parseCapRspFields, parseCapRspFields.fail, ↓jc, ↓reduceIte, movb, setReg8, byte,
      imm, hi_ofBytes, Machine.cmp, h, decide_true, stc, len]
  have h : ¬ (ofBytes (m.mem (RX_BUF_OFF + 3)) (m.mem (RX_BUF_OFF + 4))).toNat <
      CAP_RSP_MIN_PAYLOAD.toNat := hlen
  simp only [if_neg hlen]
  by_cases hmaj : major = 1
  swap
  · have hmaj' : decide (m.mem (rxPayload + CAP_RSP_VER_MAJ_OFF) = 1) = false :=
      decide_eq_false hmaj
    refine ⟨ofBytes (hi m.ax) major, len, m.dx, true, false,
      m.mem.set picoVersionMajor major, ?_, by
      rw [if_pos hmaj]; exact ⟨rfl, rfl⟩⟩
    simp only [parseCapRspFields, parseCapRspFields.fail, ↓jc, ↓jnz, ↓reduceIte, movb, setReg8,
      reg8, byte, imm, hi_ofBytes, Machine.cmp, cmpb, h, decide_false, Bool.false_eq_true, copyb,
      stb, lo_ofBytes, hmaj', stc, len, major]
  have hmaj' : decide (m.mem (rxPayload + CAP_RSP_VER_MAJ_OFF) = 1) = true := decide_eq_true hmaj
  generalize hM : capFields m.mem = M
  generalize hl : M.word stage2ImageSize = l
  generalize hu : M.word (stage2ImageSize + 2) = u
  let m₁ : Machine DosState ι := { m with
    ax := l, bx := l ||| u, dx := u, cf := false, zf := decide (l ||| u = 0), mem := M }
  have e : parseCapRspFields m = (m₁.jz parseCapRspFields.fail fun m =>
      m |>.cmp (·.dx) (imm 3) |>.ja parseCapRspFields.fail
        fun m => m.jc parseCapRspFields.ok fun m =>
      m |>.cmp (·.ax) (imm 0x0D40) |>.ja parseCapRspFields.fail parseCapRspFields.ok) := by
    simp only [parseCapRspFields, ↓jc, ↓jnz, ↓reduceIte, movb, mov, orw, reg, setReg, setReg8, reg8,
      byte, word, imm, hi_ofBytes, Machine.cmp, cmpb, h, decide_false, Bool.false_eq_true, copyb,
      stb, lo_ofBytes, hmaj']
    simp (disch := decide) only [Mem.set_of_ne]
    simp only [← hu, ← hl, ← hM, m₁, capFields]
  have hsize : SizeOk (M.dword stage2ImageSize) ↔
      ¬ (l ||| u = 0) ∧ (u.toNat < 3 ∨ u.toNat = 3 ∧ l.toNat ≤ 0x0D40) := by
    rw [Mem.dword, hl, hu]
    exact sizeOk_words u l
  obtain ⟨c, z, ez, hc⟩ := sizeCheck_ok m₁ rfl
  refine ⟨l, l ||| u, u, c, z, M, e.trans ez, ?_⟩
  rw [if_neg fun h => h hmaj]
  exact ⟨hc.trans hsize.symm, rfl⟩

/-! ## The exchange -/

omit [Pump ι] in
theorem printCapSummary_still (m : Machine DosState ι) : Still m (printCapSummary m) :=
  .putsMsg <| .printHex8 <| .movb <| .putsMsg <| .printHex32 <| .mov <| .mov <| .putsMsg <|
    .printHex32 <| .mov <| .mov <|
    .putsMsg <| .printHex8 <| .movb <| .putsMsg <| .printHex8 <| .movb <| .xorb <|
    .putsMsg <| .refl m

variable [LawfulPump ι]

theorem sendCap_ok (cmd : Byte) (m : Machine DosState ι) :
    Sent (frame cmd (m.mem txSeq) []) m (sendCap cmd m) := by
  let m₁ : Machine DosState ι := { m with
    ax := ofBytes (hi m.ax) cmd, cx := 0, si := TX_BUF_OFF, cf := false, zf := true }
  have e : sendCap cmd m = encodeDrain m₁ := by
    simp only [sendCap, movb, mov, xorw, setReg, setReg8, reg, imm, BitVec.xor_self, m₁]
    rfl
  have h := encodeDrain_ok m₁ (show (0 : Word).toNat ≤ MAX_PAYLOAD by decide)
    (payloadApart_of_eq TX_BUF_OFF 0 rfl rfl
      (fun x hx => absurd hx (Nat.not_lt_zero _)) (by decide))
  rw [show lo m₁.ax = cmd from lo_ofBytes _ _,
    show m₁.mem.bytes m₁.si m₁.cx.toNat = [] from rfl] at h
  rw [e]
  exact ⟨h.keeps.congr rfl rfl, h.cf, h.got, h.seq, h.link⟩

/-- The string is a CAP_RSP. -/
def IsCapRsp (bs : List Byte) : Prop :=
  ∃ seq payload, payload.length ≤ MAX_PAYLOAD ∧ bs = frame CMD_CAP_RSP seq payload

/-- Where the reception of a packet stops: at a timeout before its end, after a
header that announces too much, or at its end. -/
def Stops (bs : List Byte) (late : Bool) : Prop :=
  (late = true ∧ (bs.length < 5 ∨ bs.length < announced bs + 8)) ∨
  (late = false ∧ (bs.length = 5 ∧ MAX_PAYLOAD < announced bs ∨ bs.length = announced bs + 8))

theorem frame_cmd {cmd cmd' seq seq' : Byte} {payload payload' : List Byte}
    (h : frame cmd seq payload = frame cmd' seq' payload') : cmd = cmd' := by
  simp only [frame, body, List.cons_append, List.cons.injEq, true_and] at h
  exact h.1

theorem frame_payload {cmd cmd' seq seq' : Byte} {payload payload' : List Byte}
    (h : frame cmd seq payload = frame cmd' seq' payload') : payload = payload' := by
  have hl := congrArg List.length h
  rw [length_frame, length_frame] at hl
  have hl' : payload.length = payload'.length := Nat.add_right_cancel hl
  rw [frame, frame, List.append_assoc, List.append_assoc] at h
  have hb := (List.append_inj h (by simp only [List.length_cons, length_body, hl'])).1
  simp only [body, List.cons_append, List.cons.injEq] at hb
  exact (List.append_inj hb.2.2.2 (by rw [length_be16, length_be16])).2

/-- `recv_cap_rsp` accepts exactly the CAP_RSP packets. -/
theorem recvCapRsp_ok (m : Machine DosState ι) (hp : m.mem currentPump = PUMP_LPT_SPP) :
    ∃ bs late, Heard bs late m (recvCapRsp m) ∧ Stops bs late ∧
      ((recvCapRsp m).cf = false ↔ IsCapRsp bs) ∧
      (IsCapRsp bs → (recvCapRsp m).mem.bytes RX_BUF_OFF bs.length = bs) := by
  have hshort : ∀ bs : List Byte, bs.length < announced bs + 8 ∨ bs.length < 8 → ¬ IsCapRsp bs := by
    rintro bs h ⟨seq, payload, hp', rfl⟩
    rw [announced_frame (lt_of_le_of_lt hp' (by decide)), length_frame,
      show OVERHEAD = 8 from rfl] at h
    omega
  have hfail : ∀ bs late m₁, recvCapRsp m = recvCapRsp.fail m₁ → Heard bs late m m₁ →
    Stops bs late → ¬ IsCapRsp bs →
      ∃ bs late, Heard bs late m (recvCapRsp m) ∧ Stops bs late ∧
        ((recvCapRsp m).cf = false ↔ IsCapRsp bs) ∧
        (IsCapRsp bs → (recvCapRsp m).mem.bytes RX_BUF_OFF bs.length = bs) := by
    intro bs late m₁ e hh hs hno
    rw [e]
    exact ⟨bs, late, hh.congr rfl rfl, hs, ⟨(fun hc => nomatch hc), fun hc => absurd hc hno⟩,
      fun hc => absurd hc hno⟩
  rcases recvHeader_ok m hp recvCapRsp.fail (fun m => m |> recvRest recvCapRsp.fail fun m =>
      m |>.cmpb (·.reg8 .al) (imm CMD_CAP_RSP) |>.jnz recvCapRsp.fail (·.clc)) with
    ⟨m₁, bs, e, hh, hl⟩ | ⟨m₁, h, e, hh, hl, hmem, hbx⟩
  · exact hfail bs true m₁ e hh (.inl ⟨rfl, .inl hl⟩) (hshort bs (.inr (by omega)))
  have hp₁ : m₁.mem currentPump = PUMP_LPT_SPP := (hh.keeps.mem.byte (by decide)).trans hp
  have hann : ∀ t, announced (h ++ t) = announced h := fun t => announced_append hl.ge
  have hlen : ∀ t : List Byte, (h ++ t).length = 5 + t.length :=
    fun t => by rw [List.length_append, hl]
  rcases recvRest_ok m₁ hp₁ hl hmem hbx recvCapRsp.fail (fun m =>
    m |>.cmpb (·.reg8 .al) (imm CMD_CAP_RSP) |>.jnz recvCapRsp.fail (·.clc)) with
    ⟨m₂, e', hcore, hlong⟩ | ⟨m₂, t, e', hh', hlt⟩ | ⟨m₂, t, e', hh', hlt, hbad⟩ |
    ⟨m₂, t, cmd, seq, payload, e', hh', hlt, hpl, hf, hbytes, hal⟩
  · exact hfail h false m₂ (e.trans e') (hh.congr rfl hcore)
      (.inr ⟨rfl, .inl ⟨hl, hlong⟩⟩) (hshort h (.inr (by omega)))
  · exact hfail (h ++ t) true m₂ (e.trans e') (hh.trans hh')
      (.inl ⟨rfl, .inr (by rw [hann, hlen]; omega)⟩) (hshort _ (.inl (by rw [hann, hlen]; omega)))
  · exact hfail (h ++ t) false m₂ (e.trans e') (hh.trans hh')
      (.inr ⟨rfl, .inr (by rw [hann, hlen]; omega)⟩) fun ⟨seq, payload, _, hf⟩ => hbad _ _ _ hf
  have hs : Stops (h ++ t) false := .inr ⟨rfl, .inr (by rw [hann, hlen]; omega)⟩
  by_cases hcmd : cmd = CMD_CAP_RSP
  · have e₂ : recvCapRsp m = (m₂.cmpb (·.reg8 .al) (imm CMD_CAP_RSP)).clc :=
      (e.trans e').trans (jnz_neg (decide_eq_true (hal.trans hcmd)))
    have his : IsCapRsp (h ++ t) := ⟨seq, payload, hpl, hcmd ▸ hf⟩
    refine ⟨h ++ t, false, ?_, hs, ?_, fun _ => ?_⟩ <;> rw [e₂]
    · exact (hh.trans hh').congr rfl rfl
    · exact ⟨fun _ => his, fun _ => rfl⟩
    · rw [hf, length_frame]
      exact hbytes
  · have e₂ : recvCapRsp m = recvCapRsp.fail (m₂.cmpb (·.reg8 .al) (imm CMD_CAP_RSP)) :=
      (e.trans e').trans (jnz_pos (decide_eq_false fun hc => hcmd (hal.symm.trans hc)))
    exact hfail (h ++ t) false _ e₂ ((hh.trans hh').congr rfl rfl) hs
      fun ⟨seq', payload', _, hf'⟩ =>
      hcmd (frame_cmd (hf.symm.trans hf'))

/-! ## The handshake -/

/-- The string is a CAP_RSP whose payload fills the fields: long enough, and
of version 1. -/
def Fills (bs payload : List Byte) : Prop :=
  ∃ seq, bs = frame CMD_CAP_RSP seq payload ∧ payload.length ≤ MAX_PAYLOAD ∧ 36 ≤ payload.length ∧
    payload.getD 0 0 = 1

theorem getD_frame (cmd seq : Byte) {payload : List Byte} {k : Nat} (hk : k < payload.length) :
    (frame cmd seq payload).getD (5 + k) 0 = payload.getD k 0 := by
  rw [Nat.add_comm]
  simp only [frame, body, be16, List.cons_append, List.nil_append, List.append_assoc,
    List.getD_cons_succ]
  rw [List.getD_eq_getElem?_getD, List.getElem?_append_left hk, ← List.getD_eq_getElem?_getD]

/-- The payload of the packet received, as the machine reads it. -/
theorem rxPayload_eq {mem : Mem} {cmd seq : Byte} {payload : List Byte} {n : Nat}
    (h : mem.bytes RX_BUF_OFF n = frame cmd seq payload) {k : Nat} (hk : k < payload.length) :
    mem (rxPayload + BitVec.ofNat 16 k) = payload.getD k 0 := by
  have hn : n = payload.length + 8 := by
    rw [← Mem.length_bytes mem RX_BUF_OFF n, h, length_frame]
    rfl
  rw [← getD_frame cmd seq hk, ← h, Mem.getD_bytes mem RX_BUF_OFF (by omega), BitVec.ofNat_add,
    ← BitVec.add_assoc]
  rfl

/-- `parse_cap_rsp_fields` on the packet received. -/
theorem parse_ok (m : Machine DosState ι) {seq : Byte} {payload : List Byte}
    (hp : payload.length ≤ MAX_PAYLOAD)
    (h : m.mem.bytes RX_BUF_OFF (payload.length + 8) = frame CMD_CAP_RSP seq payload) :
    (Keeps Link capVars m (parseCapRspFields m) ∧ (parseCapRspFields m).got = m.got ∧
      (parseCapRspFields m).io = m.io) ∧
    if 36 ≤ payload.length ∧ payload.getD 0 0 = 1 then
      (parseCapRspFields m).mem.dword stage2ImageSize = beField payload 28 ∧
      (parseCapRspFields m).mem.dword stage2ImageCrc32 = beField payload 32 ∧
      (parseCapRspFields m).mem picoVersionMajor = 1 ∧
      ((parseCapRspFields m).cf = false ↔ SizeOk (beField payload 28)) ∧
      (parseCapRspFields m).mem picoVersionMinor = payload.getD 1 0 ∧
      (parseCapRspFields m).mem picoActiveMode = payload.getD 23 0
    else (parseCapRspFields m).cf = true ∧
      (parseCapRspFields m).mem.dword stage2ImageSize = m.mem.dword stage2ImageSize := by
  have hlen : (ofBytes (m.mem (RX_BUF_OFF + 3)) (m.mem (RX_BUF_OFF + 4))).toNat =
      payload.length := by
    have hlt : payload.length < 65536 := lt_of_le_of_lt hp (by decide)
    rw [← announced_bytes m.mem RX_BUF_OFF (show 5 ≤ payload.length + 8 by omega), h,
      announced_frame hlt, toNat_ofNat16 hlt]
  obtain ⟨a, b, d, c, z, mem, e, hcase⟩ := parseCapRspFields_ok m
  have hframe : Frame capVars m.mem mem := by
    revert hcase
    split
    · exact fun hm => hm.2 ▸ .refl _ _
    · split
      · exact fun hm => hm.2 ▸ (Frame.refl _ _).set _ (by decide)
      · exact fun hm => hm.2 ▸ capFields_frame _
  have hk : Keeps Link capVars m (parseCapRspFields m) := by
    rw [e]
    exact ⟨⟨rfl, rfl, rfl, rfl, hframe, hframe.word (by decide) (by decide), List.prefix_rfl,
      .refl⟩, .refl _⟩
  refine ⟨⟨hk, by rw [e], by rw [e]⟩, ?_⟩
  rw [hlen] at hcase
  rw [e]
  by_cases h36 : payload.length < 36
  · rw [if_pos h36] at hcase
    rw [if_neg fun hc => by omega, hcase.2]
    exact ⟨hcase.1, rfl⟩
  have hmaj : m.mem (rxPayload + CAP_RSP_VER_MAJ_OFF) = payload.getD 0 0 :=
    rxPayload_eq h (k := 0) (by omega)
  rw [if_neg h36, hmaj] at hcase
  by_cases h1 : payload.getD 0 0 = 1
  swap
  · rw [if_pos h1] at hcase
    rw [if_neg fun hc => h1 hc.2, hcase.2]
    refine ⟨hcase.1, ?_⟩
    have hs : Frame [⟨picoVersionMajor, 1⟩] m.mem (m.mem.set picoVersionMajor (payload.getD 0 0)) :=
      (Frame.refl _ _).set _ (by decide)
    exact hs.dword (by decide)
  rw [if_neg fun hc => hc h1] at hcase
  have hbe : ∀ k, k + 3 < payload.length → ofWords (ofBytes (m.mem (rxPayload + BitVec.ofNat 16 k))
      (m.mem (rxPayload + BitVec.ofNat 16 (k + 1))))
        (ofBytes (m.mem (rxPayload + BitVec.ofNat 16 (k + 2)))
      (m.mem (rxPayload + BitVec.ofNat 16 (k + 3)))) = beField payload k := fun k hk => by
    rw [beField, rxPayload_eq h (by omega), rxPayload_eq h (by omega), rxPayload_eq h (by omega),
      rxPayload_eq h hk]
  have hsize : (capFields m.mem).dword stage2ImageSize = beField payload 28 :=
    (capFields_size m.mem).trans (hbe 28 (by omega))
  have hcrc : (capFields m.mem).dword stage2ImageCrc32 = beField payload 32 :=
    (capFields_crc m.mem).trans (hbe 32 (by omega))
  rw [if_pos ⟨by omega, h1⟩, hcase.2]
  exact ⟨hsize, hcrc, (capFields_major m.mem).trans (hmaj.trans h1), hsize ▸ hcase.1,
    (capFields_minor m.mem).trans (rxPayload_eq h (k := 1) (by omega)),
    (capFields_active m.mem).trans (rxPayload_eq h (k := 23) (by omega))⟩

/-- The handshake from the check of the fields on. -/
def capRest (m : Machine DosState ι) : Machine DosState ι :=
  m.jc (capHandshake.fail msgCapFailParse) fun m =>
    m |> sendCapAck |>.jc (capHandshake.fail msgCapFailAck) fun m =>
    m |> putsMsg msgCapOk |> printCapSummary |>.clc

/-- It sends CAP_ACK, or nothing. -/
theorem capRest_ok (m : Machine DosState ι) :
    Keeps Link txWire m (capRest m) ∧ (capRest m).got = m.got ∧
    ∃ ack, (ack = [] ∨ ack = frame CMD_CAP_ACK (m.mem txSeq) []) ∧
      (m.mem currentPump = PUMP_LPT_SPP →
        Steps (m.mem.word lptBase) (ack.map .sent) m.io (capRest m).io) := by
  have hfail : ∀ msg (m₁ : Machine DosState ι), Still m₁ (capHandshake.fail msg m₁) :=
  fun _ m₁ => (Still.refl m₁).putsMsg.stc
  cases hcf : m.cf with
  | true =>
    rw [capRest, jc_pos hcf]
    have hs := hfail msgCapFailParse m
    exact ⟨hs.keeps, hs.got, [], .inl rfl, fun _ => hs.io ▸ .nil _⟩
  | false =>
    have hs := sendCap_ok CMD_CAP_ACK m
    have hl : (frame CMD_CAP_ACK (m.mem txSeq) []).take 8 = frame CMD_CAP_ACK (m.mem txSeq) [] :=
      List.take_of_length_le (by rw [length_frame]; rfl)
    have hend : Still (sendCapAck m) (capRest m) := by
      rw [capRest, jc_neg hcf]
      exact jc_cases (fun _ => hfail _ _)
        fun _ => ((Still.refl _).putsMsg.trans (printCapSummary_still _)).clc
    exact ⟨hs.keeps.still hend, hend.got.trans hs.got, _, .inr rfl,
      fun hp => hend.io ▸ hl ▸ hs.link hp⟩

/-- The run of a handshake in which the bytes `bs` were received. -/
structure Shook (bs : List Byte) (m m' : Machine DosState ι) : Prop where
  keeps : Keeps Link (wire ++ capVars) m m'
  got : m'.got = m.got ++ bs
  pump : bs ≠ [] → m.mem currentPump = PUMP_LPT_SPP
  fills : ∀ payload, Fills bs payload → m'.mem.dword stage2ImageSize = beField payload 28 ∧
    m'.mem.dword stage2ImageCrc32 = beField payload 32 ∧ m'.mem picoVersionMajor = 1
  other : (∀ payload, ¬ Fills bs payload) →
    m'.mem.dword stage2ImageSize = m.mem.dword stage2ImageSize

/-- What a received packet is not: an answer that fills the fields. -/
theorem Shook.unfilled {bs : List Byte} {m m' : Machine DosState ι} (h : Keeps Link wire m m')
    (hgot : m'.got = m.got ++ bs) (hp : bs ≠ [] → m.mem currentPump = PUMP_LPT_SPP)
    (hno : ∀ payload, ¬ Fills bs payload) : Shook bs m m' where
  keeps := h.mono (by decide)
  got := hgot
  pump := hp
  fills payload hf := absurd hf (hno payload)
  other _ := h.mem.dword (by decide)

theorem not_fills_nil (payload : List Byte) : ¬ Fills [] payload := by
  rintro ⟨seq, h, -⟩
  cases h

/-- What `cap_handshake` leaves, for every peer; and what goes over the link
when it is tried. -/
theorem capHandshake_ok (m : Machine DosState ι) : ∃ bs, Shook bs m (capHandshake m) ∧
    (m.mem negotiatedMode = NEG_MODE_SPP → m.mem currentPump = PUMP_LPT_SPP → ∃ late ack,
      Stops bs late ∧ (ack = [] ∨ ack = frame CMD_CAP_ACK (m.mem txSeq + 1) []) ∧
      Steps (m.mem.word lptBase) ((frame CMD_CAP_REQ (m.mem txSeq) []).map .sent ++
        ((bs.map .got ++ if late then [.timeout] else []) ++ ack.map .sent)) m.io
          (capHandshake m).io) := by
  have hstill : ∀ {m' : Machine DosState ι}, Still m m' → Shook [] m m' := fun h =>
    .unfilled h.keeps (h.got.trans (List.append_nil _).symm) (absurd rfl) not_fills_nil
  by_cases hnone : m.mem negotiatedMode = NEG_MODE_NONE
  · refine ⟨[], ?_, fun h => absurd (h.symm.trans hnone) (by decide)⟩
    rw [capHandshake, jz_pos (decide_eq_true hnone)]
    exact hstill (.stc <| .putsMsg <| .cmpb <| .refl m)
  by_cases hspp : m.mem negotiatedMode = NEG_MODE_SPP
  swap
  · refine ⟨[], ?_, fun h => absurd h hspp⟩
    rw [capHandshake, jz_neg (decide_eq_false hnone), jz_neg (decide_eq_false hspp)]
    exact hstill (.stc <| .putsMsg <| .cmpb <| .cmpb <| .refl m)
  let m₀ : Machine DosState ι := m |>.cmpb (·.byte negotiatedMode) (imm NEG_MODE_NONE)
    |>.cmpb (·.byte negotiatedMode) (imm NEG_MODE_SPP)
  have e : capHandshake m = capHandshake.proceed m₀ := by
    rw [capHandshake, jz_neg (decide_eq_false hnone), jz_pos (decide_eq_true hspp)]
  have hsent : Sent (frame CMD_CAP_REQ (m.mem txSeq) []) m (sendCapReq m₀) := by
    have h := sendCap_ok CMD_CAP_REQ m₀
    exact ⟨h.keeps.congr rfl rfl, h.cf, h.got, h.seq, h.link⟩
  rw [e, capHandshake.proceed]
  generalize sendCapReq m₀ = m₁ at hsent
  by_cases hp : m.mem currentPump = PUMP_LPT_SPP
  swap
  · refine ⟨[], ?_, fun _ h => absurd h hp⟩
    rw [jc_pos (hsent.cf.trans (decide_eq_true hp))]
    have hs : Still m₁ (capHandshake.fail msgCapFailReq m₁) := (Still.refl m₁).putsMsg.stc
    exact .unfilled ((hsent.keeps.mono (by decide)).still hs)
      (hs.got.trans (hsent.got.trans (List.append_nil _).symm)) (absurd rfl) not_fills_nil
  rw [jc_neg (hsent.cf.trans (decide_eq_false (not_not.mpr hp)))]
  have hp₁ : m₁.mem currentPump = PUMP_LPT_SPP := (hsent.keeps.mem.byte (by decide)).trans hp
  obtain ⟨bs, late, hh, hstops, hacc, hmem⟩ := recvCapRsp_ok m₁ hp₁
  have hseq₂ : (recvCapRsp m₁).mem txSeq = m.mem txSeq + 1 :=
    (hh.keeps.mem.byte (by decide)).trans hsent.seq
  generalize recvCapRsp m₁ = m₂ at *
  have hk₂ : Keeps Link wire m m₂ :=
    (hsent.keeps.mono (by decide)).trans (hh.keeps.mono (by decide))
  have hgot₂ : m₂.got = m.got ++ bs := by rw [hh.got, hsent.got]
  have hreq : (frame CMD_CAP_REQ (m.mem txSeq) []).take 8 = frame CMD_CAP_REQ (m.mem txSeq) [] :=
    List.take_of_length_le (by rw [length_frame]; rfl)
  have hlink₂ : Steps (m.mem.word lptBase) ((frame CMD_CAP_REQ (m.mem txSeq) []).map .sent ++
      (bs.map .got ++ if late then [.timeout] else [])) m.io m₂.io :=
    (hreq ▸ hsent.link hp).append (hsent.keeps.base ▸ hh.link)
  have hfills : ∀ payload, Fills bs payload → IsCapRsp bs :=
    fun payload ⟨seq, hb, hl, _⟩ => ⟨seq, payload, hl, hb⟩
  cases hcf : m₂.cf with
  | true =>
    have hno : ∀ payload, ¬ Fills bs payload := fun payload hf => by
      rw [hacc.mpr (hfills payload hf)] at hcf
      cases hcf
    have hs : Still m₂ (capHandshake.fail msgCapFailRsp m₂) := .stc <| .putsMsg <| .refl m₂
    rw [jc_pos hcf]
    refine ⟨bs, .unfilled (hk₂.still hs) (hs.got.trans hgot₂) (fun _ => hp) hno,
      fun _ _ => ⟨late, [], hstops, .inl rfl, ?_⟩⟩
    rw [hs.io, List.map_nil, List.append_nil]
    exact hlink₂
  | false =>
    obtain ⟨seq, payload, hpl, rfl⟩ := hacc.mp hcf
    have hbytes := hmem ⟨seq, payload, hpl, rfl⟩
    rw [length_frame] at hbytes
    obtain ⟨⟨hk₃, hgot₃, hio₃⟩, hparse⟩ := parse_ok m₂ hpl hbytes
    obtain ⟨hk₄, hgot₄, ack, hack, hlink₄⟩ := capRest_ok (parseCapRspFields m₂)
    have hseq₃ : (parseCapRspFields m₂).mem txSeq = m.mem txSeq + 1 :=
      (hk₃.mem.byte (by decide)).trans hseq₂
    have hpump₃ : (parseCapRspFields m₂).mem currentPump = PUMP_LPT_SPP :=
      (hk₃.mem.byte (by decide)).trans ((hk₂.mem.byte (by decide)).trans hp)
    rw [jc_neg hcf]
    rw [show (parseCapRspFields m₂ |>.jc (capHandshake.fail msgCapFailParse) fun m =>
        m |> sendCapAck |>.jc (capHandshake.fail msgCapFailAck) fun m => m |> putsMsg msgCapOk
          |> printCapSummary |>.clc) =
      capRest (parseCapRspFields m₂) from rfl]
    have hsz (a : Word)
        (ha : ∀ r ∈ txWire, ¬ r.Has a ∧ ¬ r.Has (a + 1) ∧ ¬ r.Has (a + 2) ∧ ¬ r.Has (a + 2 + 1)) :
        (capRest (parseCapRspFields m₂)).mem.dword a = (parseCapRspFields m₂).mem.dword a :=
      hk₄.mem.dword ha
    refine ⟨frame CMD_CAP_RSP seq payload,
      ⟨?_, ?_, fun _ => hp, fun payload' hf => ?_, fun hno => ?_⟩,
      fun _ _ => ⟨late, ack, hstops, hseq₃ ▸ hack, ?_⟩⟩
    · exact (hk₂.mono (by decide)).trans ((hk₃.mono (by decide)).trans (hk₄.mono (by decide)))
    · rw [hgot₄, hgot₃, hgot₂]
    · obtain ⟨seq', hf', -, h36, h1⟩ := hf
      obtain rfl := frame_payload hf'
      rw [if_pos ⟨h36, h1⟩] at hparse
      obtain ⟨hsize, hcrc, hmaj, -⟩ := hparse
      exact ⟨(hsz _ (by decide)).trans hsize, (hsz _ (by decide)).trans hcrc,
        (hk₄.mem.byte (by decide)).trans hmaj⟩
    · rw [if_neg fun h => hno payload ⟨seq, rfl, hpl, h.1, h.2⟩] at hparse
      rw [hsz _ (by decide), hparse.2]
      exact hk₂.mem.dword (by decide)
    · rw [← List.append_assoc]
      refine hlink₂.append ?_
      have hl := hlink₄ hpump₃
      rwa [hk₃.base, hk₂.base, hio₃] at hl

end VintageKvm.Stage1
