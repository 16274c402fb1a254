import VintageKvm.Dos.Stage0.Kbc
import VintageKvm.Dos.Stage1.Packet

/-!
# Stage 0: the download of Stage 1

The byte channel of each program, and the routines that ask for Stage 1 block
by block. They read the same in `s0_xt.asm` and in `s0_atps2_core.inc` but for
one thing: the core tests CF after a byte is sent (`sent`).
-/

namespace VintageKvm.Stage0

open I8086 Machine Dos

variable {δ ι : Type} [Ports ι]

/-! ## The byte channel -/

namespace AtPs2

variable (aux : Bool)

/-- `send_byte`. -/
def sendByte (m : Machine δ ι) : Machine δ ι :=
  m |>.cmpb (·.byte (currentChannel aux)) (imm CHAN_LPT) |>.jnz tryKbd fun m =>
    m |> (lpt (.s0AtPs2 aux)).lptSendByte |>.clc
where
  /-- `.try_kbd`. -/
  tryKbd (m : Machine δ ι) : Machine δ ι :=
    m |>.cmpb (·.byte (currentChannel aux)) (imm CHAN_KBD) |>.jnz tryAux kbdPrivateSendByte
  /-- `.try_aux`. -/
  tryAux (m : Machine δ ι) : Machine δ ι :=
    if aux then
      m |>.cmpb (·.byte (currentChannel aux)) (imm CHAN_AUX)
        |>.jnz (·.stc) (auxPrivateSendByte aux)
    else m.stc

/-- `recv_byte`. -/
def recvByte (m : Machine δ ι) : Machine δ ι :=
  m |>.cmpb (·.byte (currentChannel aux)) (imm CHAN_LPT)
    |>.jnz tryKbd (lpt (.s0AtPs2 aux)).lptRecvByte
where
  /-- `.try_kbd`. -/
  tryKbd (m : Machine δ ι) : Machine δ ι :=
    m |>.cmpb (·.byte (currentChannel aux)) (imm CHAN_KBD) |>.jnz tryAux (kbdRecvPrivateByte aux)
  /-- `.try_aux`. -/
  tryAux (m : Machine δ ι) : Machine δ ι :=
    if aux then
      m |>.cmpb (·.byte (currentChannel aux)) (imm CHAN_AUX)
        |>.jnz (·.stc) (auxRecvPrivateByte aux)
    else m.stc

end AtPs2

/-- A byte sent: `lpt_send_byte` in S0_XT, `send_byte` in the core. -/
def sendByte : Image → Machine δ ι → Machine δ ι
  | .s0Xt => (lpt .s0Xt).lptSendByte
  | .s0AtPs2 aux => AtPs2.sendByte aux

/-- A byte received: `lpt_recv_byte` in S0_XT, `recv_byte` in the core. -/
def recvByte : Image → Machine δ ι → Machine δ ι
  | .s0Xt => (lpt .s0Xt).lptRecvByte
  | .s0AtPs2 aux => AtPs2.recvByte aux

/-- After a byte is sent: the core goes to `fail` on carry. -/
def sent {β : Type} (img : Image) (fail next : Machine δ ι → β) (m : Machine δ ι) : β :=
  match img with
  | .s0Xt => next m
  | .s0AtPs2 _ => m.jc fail next

variable (img : Image)

/-- `send_u16`. -/
def sendU16 (m : Machine δ ι) : Machine δ ι :=
  m |>.push (·.ax) |> sendByte img |> sent img failPop fun m =>
    m |>.pop .ax |>.movb .al (·.reg8 .ah) |> sendByte img

/-- `recv_u16`. -/
def recvU16 (m : Machine δ ι) : Machine δ ι :=
  m |> recvByte img |>.jc (·.stc) fun m =>
    m |>.movb .ah (·.reg8 .al) |> recvByte img |>.jc (·.stc) fun m => m |>.xchgAlAh |>.clc

/-! ## Metadata -/

/-- `get_stage1_meta`. -/
def getStage1Meta (m : Machine δ ι) : Machine δ ι :=
  m |>.movb .al (imm CMD_GET_META) |> sendByte img |> sent img fail fun m =>
    m |> recvU16 img |>.jc fail fun m => m |>.stw (imm (stage1Size img)) (·.ax) |>
      recvU16 img |>.jc fail fun m => m |>.stw (imm (stage1Blocks img)) (·.ax) |>
        recvU16 img |>.jc fail fun m => m |>.stw (imm (stage1Sum16 img)) (·.ax) |>.clc
where
  /-- `.fail`. -/
  fail (m : Machine δ ι) : Machine δ ι := m.stc

omit [Ports ι] in
/-- `check_stage1_size`. -/
def checkStage1Size (m : Machine δ ι) : Machine δ ι :=
  m |>.mov .ax (·.word (stage1Size img)) |>.orw .ax (·.ax) |>.jz bad fun m =>
    m |>.cmp (·.ax) (imm MAX_STAGE1_SIZE) |>.ja bad fun m =>
      m |>.add .ax (imm (BLOCK_SIZE - 1)) |>.jc bad fun m =>
        m |>.mov .cx (imm 6) |>.loop (·.shr1 .ax) |>.cmp (·.ax) (·.word (stage1Blocks img))
          |>.jnz bad (·.clc)
where
  /-- `.bad`. -/
  bad (m : Machine δ ι) : Machine δ ι := m.stc

/-! ## Blocks -/

/-- `request_current_block`. -/
def requestCurrentBlock (m : Machine δ ι) : Machine δ ι :=
  m |>.movb .al (imm CMD_GET_BLOCK) |> sendByte img |> sent img (·.stc) fun m =>
    m |>.mov .ax (·.word (currentBlock img)) |> sendU16 img |> ret
where
  /-- S0_XT ends with `clc`. -/
  ret (m : Machine δ ι) : Machine δ ι :=
    match img with
    | .s0Xt => m.clc
    | .s0AtPs2 _ => m

/-- `receive_current_block`, with `stosb` for what stores a byte. -/
def receiveCurrentBlockWith (stosb : Machine δ ι → Machine δ ι) (m : Machine δ ι) : Machine δ ι :=
  m |> recvByte img |>.jc fail fun m =>
    m |>.stb (imm (blockLen img)) (·.reg8 .al) |>.cmpb (·.reg8 .al) (imm BLOCK_SIZE)
      |>.ja fail fun m =>
      m |>.mov .ax (·.word (currentBlock img)) |>.mov .bx (imm BLOCK_SIZE) |>.mul .bx
        |>.orw .dx (·.dx) |>.jnz fail fun m =>
        m |>.mov .bx (·.ax) |>.xorb .ah (·.reg8 .ah) |>.movb .al (·.byte (blockLen img))
          |>.add .bx (·.ax) |>.jc fail fun m =>
          m |>.cmp (·.bx) (·.word (stage1Size img)) |>.ja fail fun m =>
            m |>.mov .ax (·.word (currentBlock img)) |>.mov .bx (imm BLOCK_SIZE) |>.mul .bx
              |>.add .ax (imm STAGE1_LOAD_OFF) |>.mov .di (·.ax)
              |>.xorw .cx (·.cx) |>.movb .cl (·.byte (blockLen img))
              |>.jcxz recvCrc (·.loopE recvLoop recvCrc)
where
  /-- One turn of `.recv_loop`. -/
  recvLoop (m : Machine δ ι) : Flow (Machine δ ι) (Machine δ ι) :=
    m |> recvByte img |>.jc (.done ∘ fail) (.next ∘ stosb)
  /-- `.recv_crc`. -/
  recvCrc (m : Machine δ ι) : Machine δ ι :=
    m |> recvU16 img |>.jc fail fun m => m |>.stw (imm (blockCrcRecv img)) (·.ax) |>.clc
  /-- `.fail`. -/
  fail (m : Machine δ ι) : Machine δ ι := m.stc

/-- `receive_current_block`. -/
def receiveCurrentBlock (m : Machine δ ι) : Machine δ ι := receiveCurrentBlockWith img (·.stosb) m

omit [Ports ι] in
/-- `crc16_ccitt_buf`, which Stage 1 has from here. -/
def crc16CcittBuf (m : Machine δ ι) : Machine δ ι := Stage1.crc16Ccitt m

omit [Ports ι] in
/-- `verify_block_crc`. -/
def verifyBlockCrc (m : Machine δ ι) : Machine δ ι :=
  m |>.mov .ax (·.word (currentBlock img)) |>.mov .bx (imm BLOCK_SIZE) |>.mul .bx
    |>.add .ax (imm STAGE1_LOAD_OFF) |>.mov .si (·.ax) |>.xorw .cx (·.cx)
    |>.movb .cl (·.byte (blockLen img))
    |> crc16CcittBuf |>.cmp (·.ax) (·.word (blockCrcRecv img)) |>.jnz (·.stc) (·.clc)

/-- The labels of `download_stage1` a turn begins at. -/
inductive Label where
  | blockLoop
  | retryBlock
  deriving DecidableEq

/-- From one label of `download_stage1` to the next, with `receive` and
`verify` for what it calls. -/
def turnWith (receive verify : Machine δ ι → Machine δ ι) :
    Label × Machine δ ι → Flow (Label × Machine δ ι) (Machine δ ι)
  | (.blockLoop, m) =>
    m |>.mov .ax (·.word (currentBlock img)) |>.cmp (·.ax) (·.word (stage1Blocks img))
      |>.jnc (.done ∘ (·.clc)) fun m =>
      .next (.retryBlock, m.stb (imm (retryCount img)) (imm BLOCK_RETRIES))
  | (.retryBlock, m) =>
    m |> requestCurrentBlock img |>.jc blockFailed fun m =>
      m |> receive |>.jc sendNak fun m =>
        m |> verify |>.jc sendNak fun m =>
          m |>.movb .al (imm CMD_ACK) |> sendByte img |> sent img blockFailed fun m =>
            .next (.blockLoop, m.incMem (currentBlock img))
where
  /-- `.send_nak`. -/
  sendNak (m : Machine δ ι) : Flow (Label × Machine δ ι) (Machine δ ι) :=
    m |>.movb .al (imm CMD_NAK) |> sendByte img |>.decMemb (retryCount img)
      |>.jnz (fun m => .next (.retryBlock, m)) blockFailed
  /-- `.block_failed`. -/
  blockFailed (m : Machine δ ι) : Flow (Label × Machine δ ι) (Machine δ ι) := .done m.stc

/-- `download_stage1`, with `receive` and `verify` for what it calls. -/
def downloadStage1With (receive verify : Machine δ ι → Machine δ ι) (m : Machine δ ι) :
    Machine δ ι :=
  m |>.xorw .ax (·.ax) |>.stw (imm (currentBlock img)) (·.ax) |> fun m =>
    iter (turnWith img receive verify) Prod.snd 524288 (.blockLoop, m)

/-- From one label of `download_stage1` to the next. -/
def turn (s : Label × Machine δ ι) : Flow (Label × Machine δ ι) (Machine δ ι) :=
  turnWith img (receiveCurrentBlock img) (verifyBlockCrc img) s

/-- `download_stage1`. -/
def downloadStage1 (m : Machine δ ι) : Machine δ ι :=
  downloadStage1With img (receiveCurrentBlock img) (verifyBlockCrc img) m

omit [Ports ι] in
/-- `verify_image_checksum`. -/
def verifyImageChecksum (m : Machine δ ι) : Machine δ ι :=
  m |>.mov .si (imm STAGE1_LOAD_OFF) |>.mov .cx (·.word (stage1Size img)) |>.xorw .bx (·.bx)
    |>.whileCx (fun m => m |>.lodsb |>.xorb .ah (·.reg8 .ah) |>.add .bx (·.ax))
    |>.cmp (·.bx) (·.word (stage1Sum16 img)) |>.jnz (·.stc) (·.clc)

/-! ## What the channel does -/

/-- The ports a byte on the link is written to. -/
def linkPorts (mem : Mem) : Word → Prop :=
  match img with
  | .s0Xt => LptNibble.pumpPorts (mem.word (lptBase .s0Xt))
  | .s0AtPs2 aux =>
    if mem (currentChannel aux) = CHAN_LPT then
      LptNibble.pumpPorts (mem.word (lptBase (.s0AtPs2 aux)))
    else if mem (currentChannel aux) = CHAN_KBD then kbdPorts else kbcPorts

omit [Ports ι] in
/-- The channel is chosen by comparisons; the flags they leave are of no account. -/
theorem channel_cases {P : Machine δ ι → Prop} (aux : Bool) (m : Machine δ ι)
    (onLpt onKbd onAux : Machine δ ι → Machine δ ι)
    (hlpt : m.mem (currentChannel aux) = CHAN_LPT → ∀ c z, P (onLpt { m with cf := c, zf := z }))
    (hkbd : m.mem (currentChannel aux) ≠ CHAN_LPT → m.mem (currentChannel aux) = CHAN_KBD →
      ∀ c z, P (onKbd { m with cf := c, zf := z }))
    (haux : m.mem (currentChannel aux) ≠ CHAN_LPT → m.mem (currentChannel aux) ≠ CHAN_KBD →
      ∀ c z, P (onAux { m with cf := c, zf := z }) ∧ P { m with cf := true, zf := z }) :
    P (m |>.cmpb (·.byte (currentChannel aux)) (imm CHAN_LPT) |>.jnz (fun m =>
      m |>.cmpb (·.byte (currentChannel aux)) (imm CHAN_KBD) |>.jnz (fun m =>
        if aux then m |>.cmpb (·.byte (currentChannel aux)) (imm CHAN_AUX)
          |>.jnz (·.stc) onAux else m.stc) onKbd) onLpt) := by
  have hcmp : ∀ c z b, ∃ c' z', ({ m with cf := c, zf := z } : Machine δ ι).cmpb
      (·.byte (currentChannel aux)) (imm b) =
      { m with cf := c', zf := z' } := fun c z b => ⟨_, _, rfl⟩
  obtain ⟨c₁, z₁, e₁⟩ := hcmp m.cf m.zf CHAN_LPT
  refine jnz_cases (fun hz => ?_) fun hz => e₁ ▸ hlpt (of_decide_eq_true hz) c₁ z₁
  have hl : m.mem (currentChannel aux) ≠ CHAN_LPT := of_decide_eq_false hz
  rw [show m.cmpb _ _ = _ from e₁]
  obtain ⟨c₂, z₂, e₂⟩ := hcmp c₁ z₁ CHAN_KBD
  refine jnz_cases (fun hz => ?_) fun hz => e₂ ▸ hkbd hl (of_decide_eq_true hz) c₂ z₂
  have hk : m.mem (currentChannel aux) ≠ CHAN_KBD := of_decide_eq_false hz
  rw [e₂]
  split
  · obtain ⟨c₃, z₃, e₃⟩ := hcmp c₂ z₂ CHAN_AUX
    rw [e₃]
    exact jnz_cases (fun _ => (haux hl hk c₃ z₃).2) fun _ => (haux hl hk c₃ z₃).1
  · exact (haux hl hk c₂ z₂).2

theorem sendByte_ok (m : Machine δ ι) :
    ∃ c z io, sendByte img m = { m with cf := c, zf := z, io := io } ∧
    Drives (linkPorts img m.mem) m.io io := by
  cases img with
  | s0Xt => exact (lpt .s0Xt).lptSendByte_drives m
  | s0AtPs2 aux =>
    let P : Machine δ ι → Prop := fun m' => ∃ c z io, m' = { m with cf := c, zf := z, io := io } ∧
      Drives (linkPorts (.s0AtPs2 aux) m.mem) m.io io
    show P (AtPs2.sendByte aux m)
    refine channel_cases aux m (fun m => (lpt (.s0AtPs2 aux)).lptSendByte m
      |>.clc) kbdPrivateSendByte
      (auxPrivateSendByte aux) (fun hl c₁ z₁ => ?_) (fun hl hk c₁ z₁ => ?_) fun hl hk c₁ z₁ => ?_
    · obtain ⟨c, z, io, e, hd⟩ :=
        (lpt (.s0AtPs2 aux)).lptSendByte_drives { m with cf := c₁, zf := z₁ }
      unfold P
      rw [linkPorts, if_pos hl, e]
      exact ⟨false, z, io, rfl, hd⟩
    · unfold P
      rw [linkPorts, if_neg hl, if_pos hk]
      exact kbdPrivateSendByte_drives { m with cf := c₁, zf := z₁ }
    · unfold P
      rw [linkPorts, if_neg hl, if_neg hk]
      exact ⟨auxPrivateSendByte_drives aux { m with cf := c₁, zf := z₁ }, true, z₁,
        m.io, rfl, .refl⟩

theorem lptRecvByte_drives (m : Machine δ ι) : ∃ a c z ph bs io, (lpt img).lptRecvByte m = { m with
      ax := a, cf := c, zf := z, mem := m.mem.set (lastPhase img) ph,
      got := m.got ++ bs, io := io } ∧
    bs = (if c then [] else [lo a]) ∧
    Drives (LptNibble.pumpPorts (m.mem.word (lptBase img))) m.io io := by
  have hd := LptNibble.pollByte_drives (LptNibble.pumpPorts (m.mem.word (lptBase img)))
    (m.mem.word (lptBase img) + LPT_STATUS) (m.mem (lastPhase img)) m.io
  generalize h : LptNibble.pollByte (m.mem.word (lptBase img) + LPT_STATUS) (m.mem (lastPhase img))
    m.io = p at hd
  obtain ⟨r, ph, io⟩ := p
  rw [← lpt_lastPhase] at h
  obtain ⟨a, z, e, ha⟩ := (lpt img).lptRecvByte_ok m h
  rw [lpt_lastPhase] at e
  refine ⟨a, _, z, ph, _, io, e, ?_, hd⟩
  cases r with
  | none => rfl
  | some b => simp [ha b rfl]

theorem recvByte_ok (m : Machine δ ι) : ∃ a c z ph bs io, recvByte img m = { m with
      ax := a, cf := c, zf := z, mem := m.mem.set (lastPhase img) ph,
      got := m.got ++ bs, io := io } ∧
    bs = (if c then [] else [lo a]) ∧ Drives (linkPorts img m.mem) m.io io := by
  cases img with
  | s0Xt => exact lptRecvByte_drives .s0Xt m
  | s0AtPs2 aux =>
    let P : Machine δ ι → Prop := fun m' => ∃ a c z ph bs io, m' = { m with
        ax := a, cf := c, zf := z, mem := m.mem.set (lastPhase (.s0AtPs2 aux)) ph,
        got := m.got ++ bs, io := io } ∧
      bs = (if c then [] else [lo a]) ∧ Drives (linkPorts (.s0AtPs2 aux) m.mem) m.io io
    -- the private channels leave `last_phase` alone
    have hheard : ∀ c₁ z₁ m', Heard { m with cf := c₁, zf := z₁ } m' → P m' := by
      rintro c₁ z₁ _ ⟨a, c, z, bs, io, rfl, hbs, hd⟩
      exact ⟨a, c, z, m.mem (lastPhase (.s0AtPs2 aux)), bs, io, by rw [Mem.set_eq_self], hbs, hd _⟩
    show P (AtPs2.recvByte aux m)
    refine channel_cases aux m (lpt (.s0AtPs2 aux)).lptRecvByte (kbdRecvPrivateByte aux)
      (auxRecvPrivateByte aux) (fun hl c₁ z₁ => ?_) (fun hl hk c₁ z₁ => ?_)
        fun hl hk c₁ z₁ => ⟨?_, ?_⟩
    · unfold P
      rw [linkPorts, if_pos hl]
      exact lptRecvByte_drives (.s0AtPs2 aux) { m with cf := c₁, zf := z₁ }
    · exact hheard c₁ z₁ _ (kbdRecvPrivateByte_heard aux _)
    · exact hheard c₁ z₁ _ (auxRecvPrivateByte_heard aux _)
    · exact hheard c₁ z₁ _ ⟨m.ax, true, z₁, [], m.io, by rw [List.append_nil], rfl, fun _ => .refl⟩

end VintageKvm.Stage0
