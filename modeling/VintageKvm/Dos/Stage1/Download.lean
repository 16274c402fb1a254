import VintageKvm.Dos.Stage1.Handshake
import VintageKvm.Dos.Stage1.Crc32
import VintageKvm.Protocol.BlockServer

/-!
# Stage 1: the download of Stage 2

`download_stage2` asks for the image block by block, keeps its CRC-32 while
it writes the file, and undoes the file on every failure after its creation.
-/

namespace VintageKvm.Stage1

open I8086 Machine Dos Protocol

variable {ι : Type} [Pump ι]

/-! ## The routines -/

/-- `request_one_block`. -/
def requestOneBlock (m : Machine DosState ι) : Machine DosState ι :=
  m |>.stb (imm sendBlockPayload) (imm 0) |>.stb (imm (sendBlockPayload + 1)) (imm 0)
    |>.mov .ax (·.word currentBlock)
    |>.stb (imm (sendBlockPayload + 2)) (·.reg8 .ah)
    |>.stb (imm (sendBlockPayload + 3)) (·.reg8 .al)
    |>.movb .al (imm CMD_SEND_BLOCK) |>.mov .si (imm sendBlockPayload) |>.mov .cx (imm 4)
    |> encodeDrain
    |>.jc fail fun m =>
  m |> recvHeader fail fun m =>
  m |>.movb .al (·.byte expectedByteCount) |>.xorb .ah (·.reg8 .ah)
    |>.add .ax (imm RECV_BLOCK_HDR_LEN) |>.cmp (·.bx) (·.ax) |>.jnz fail fun m =>
  m |> recvRest fail fun m =>
  m |>.cmpb (·.reg8 .al) (imm CMD_RECV_BLOCK) |>.jnz fail checkBlock
where
  /-- The fields of the packet received. -/
  checkBlock (m : Machine DosState ι) : Machine DosState ι :=
    m |>.cmpb (·.byte rxPayload) (imm 0) |>.jnz fail fun m =>
    m |>.cmpb (·.byte (rxPayload + 1)) (imm 0) |>.jnz fail fun m =>
    m |>.movb .al (·.byte (rxPayload + 2)) |>.cmpb (·.reg8 .al) (·.byte (currentBlock + 1))
      |>.jnz fail fun m =>
    m |>.movb .al (·.byte (rxPayload + 3)) |>.cmpb (·.reg8 .al) (·.byte currentBlock)
      |>.jnz fail fun m =>
    m |>.movb .al (·.byte (rxPayload + 4)) |>.cmpb (·.reg8 .al) (·.byte expectedByteCount)
      |>.jnz fail (·.clc)
  /-- `.fail`. -/
  fail (m : Machine DosState ι) : Machine DosState ι := m.stc

/-- A packet whose payload is the block number sent before: BLOCK_ACK or
BLOCK_NAK. -/
def sendBlockCmd (cmd : Byte) (m : Machine DosState ι) : Machine DosState ι :=
  m |>.movb .al (imm cmd) |>.mov .si (imm sendBlockPayload) |>.mov .cx (imm 4) |> encodeDrain

/-- `send_block_nak`. -/
def sendBlockNak (m : Machine DosState ι) : Machine DosState ι := sendBlockCmd CMD_BLOCK_NAK m

/-- `commit_one_block`. -/
def commitOneBlock (m : Machine DosState ι) : Machine DosState ι :=
  m |>.mov .si (imm (rxPayload + RECV_BLOCK_HDR_LEN)) |>.movb .cl (·.byte expectedByteCount)
    |>.xorb .ch (·.reg8 .ch) |> crc32Buf
    |>.movb .ah (imm DOS_WRITE) |>.mov .bx (·.word stage2FileHandle)
    |>.movb .cl (·.byte expectedByteCount)
    |>.xorb .ch (·.reg8 .ch) |>.mov .dx (imm (rxPayload + RECV_BLOCK_HDR_LEN)) |> int21
    |>.jc fail fun m =>
  m |>.movb .bl (·.byte expectedByteCount) |>.xorb .bh (·.reg8 .bh) |>.cmp (·.ax) (·.bx) |>.jnz fail
    (sendBlockCmd CMD_BLOCK_ACK)
where
  /-- `.fail`. -/
  fail (m : Machine DosState ι) : Machine DosState ι := m.stc

/-- `abort_download`. -/
def abortDownload (m : Machine DosState ι) : Machine DosState ι :=
  m |>.push (·.ax) |>.push (·.bx) |>.push (·.dx) |>.cmp (·.word stage2FileHandle) (imm 0)
    |>.jz skipClose fun m =>
  m |>.movb .ah (imm DOS_CLOSE) |>.mov .bx (·.word stage2FileHandle) |> int21
    |>.stw (imm stage2FileHandle) (imm 0) |> skipClose
where
  /-- `.skip_close`. -/
  skipClose (m : Machine DosState ι) : Machine DosState ι :=
    m |>.movb .ah (imm DOS_DELETE) |>.mov .dx (imm stage2Filename) |> int21 |>.pop .dx
      |>.pop .bx |>.pop .ax

/-- `download_stage2`. -/
def downloadStage2 (m : Machine DosState ι) : Machine DosState ι :=
  m |>.cmpb (·.byte currentPump) (imm PUMP_NONE) |>.jnz havePump (skip msgDlSkippedPump)
where
  /-- A message, and CF set. -/
  skip (msg : Word) (m : Machine DosState ι) : Machine DosState ι := m |> putsMsg msg |>.stc
  /-- `.have_pump`. -/
  havePump (m : Machine DosState ι) : Machine DosState ι :=
    m |>.mov .ax (·.word stage2ImageSize) |>.orw .ax (·.word (stage2ImageSize + 2))
      |>.jnz haveSize (skip msgDlSkippedNosize)
  /-- `.have_size`. -/
  haveSize (m : Machine DosState ι) : Machine DosState ι :=
    m |>.mov .ax (·.word stage2ImageSize) |>.mov .dx (·.word (stage2ImageSize + 2))
      |>.add .ax (imm (DOWNLOAD_BLOCK_SIZE - 1)) |>.adc .dx (imm 0)
      |>.mov .cx (imm 6) |>.loop (fun m => m |>.shr1 .dx |>.rcr1 .ax)
      |>.orw .dx (·.dx) |>.jnz (skip msgDlFailSize) fun m =>
    m |>.stw (imm totalBlocks) (·.ax) |> putsMsg msgDlStart |> createFile
  /-- The file is created. -/
  createFile (m : Machine DosState ι) : Machine DosState ι :=
    m |>.movb .ah (imm DOS_CREATE) |>.xorw .cx (·.cx) |>.mov .dx (imm stage2Filename) |> int21
      |>.jc (skip msgDlFailCreate) fun m =>
    m |>.stw (imm stage2FileHandle) (·.ax) |> crc32Init
      |>.stw (imm currentBlock) (imm 0) |>.stw (imm blocksReceived) (imm 0) |> blocks
  /-- `.block_loop`: all its turns, and what follows. -/
  blocks (m : Machine DosState ι) : Machine DosState ι := iter blockLoop id 65536 m
  /-- `.block_loop`: one turn. -/
  blockLoop (m : Machine DosState ι) : Flow (Machine DosState ι) (Machine DosState ι) :=
    m |>.mov .ax (·.word currentBlock) |>.cmp (·.ax) (·.word totalBlocks)
      |>.jnc (.done ∘ blocksDone) fun m =>
    m |> expectCount |>.stb (imm retryCount) (imm DL_BLOCK_RETRIES) |> iter retry .done 256
  /-- How many bytes the block has. -/
  expectCount (m : Machine DosState ι) : Machine DosState ι :=
    m |>.mov .ax (·.word currentBlock) |>.mov .cx (imm 6) |>.xorw .dx (·.dx)
      |>.loop (fun m => m |>.shl1 .ax |>.rcl1 .dx)
      |>.mov .bx (·.word stage2ImageSize) |>.mov .cx (·.word (stage2ImageSize + 2))
      |>.sub .bx (·.ax) |>.sbb .cx (·.dx)
      |>.orw .cx (·.cx) |>.jnz fullBlock fun m =>
    m |>.cmp (·.bx) (imm DOWNLOAD_BLOCK_SIZE) |>.jbe partialBlock fullBlock
  /-- `.full_block`. -/
  fullBlock (m : Machine DosState ι) : Machine DosState ι :=
    m |>.mov .bx (imm DOWNLOAD_BLOCK_SIZE) |> partialBlock
  /-- `.partial_block`. -/
  partialBlock (m : Machine DosState ι) : Machine DosState ι :=
    m.stb (imm expectedByteCount) (·.reg8 .bl)
  /-- `.retry`: one turn. It ends in the next turn of the blocks or in a
  failure. -/
  retry (m : Machine DosState ι) :
    Flow (Machine DosState ι) (Flow (Machine DosState ι) (Machine DosState ι)) :=
    m |> requestOneBlock |>.jnc (.done ∘ gotBlock) fun m =>
    m |>.decMemb retryCount |>.jz (.done ∘ .done ∘ failDownload msgDlFailBlock)
      (.next ∘ sendBlockNak)
  /-- `.got_block`. -/
  gotBlock (m : Machine DosState ι) : Flow (Machine DosState ι) (Machine DosState ι) :=
    m |> commitOneBlock |>.jc (.done ∘ failDownload msgDlFailBlock) fun m =>
    m |>.incMem currentBlock |>.incMem blocksReceived |>.mov .ax (·.word currentBlock)
      |>.andw .ax (imm DL_PROGRESS_MASK) |>.jnz .next (.next ∘ putsMsg msgDlDot)
  /-- `.blocks_done`. -/
  blocksDone (m : Machine DosState ι) : Machine DosState ι :=
    m |>.movb .ah (imm DOS_CLOSE) |>.mov .bx (·.word stage2FileHandle) |> int21
      |>.stw (imm stage2FileHandle) (imm 0) |>.jc (failDownload msgDlFailClose) fun m =>
    m |> crc32Finalize |>.cmp (·.ax) (·.word stage2ImageCrc32) |>.jnz failCrc fun m =>
    m |>.cmp (·.dx) (·.word (stage2ImageCrc32 + 2)) |>.jnz failCrc fun m =>
    m |> putsMsg msgDlOk |>.clc
  /-- `.fail_download`, `.fail_close`. -/
  failDownload (msg : Word) (m : Machine DosState ι) : Machine DosState ι :=
    m |> putsMsg msg |> abortDownload |>.stc
  /-- `.fail_crc`. -/
  failCrc (m : Machine DosState ι) : Machine DosState ι :=
    m |> putsMsg msgDlFailCrc |>.movb .ah (imm DOS_DELETE) |>.mov .dx (imm stage2Filename)
      |> int21 |>.stc

/-! ## A block requested -/

/-- The payload of the block packets: a block number of 32 bits, of which the
upper half is zero. -/
def blockNo (w : Word) : List Byte := [0, 0, hi w, lo w]

/-- A RECV_BLOCK packet for a block: its number, the number of bytes, the
bytes. -/
def recvBlock (seq : Byte) (no : Word) (count : Byte) (data : List Byte) : List Byte :=
  frame CMD_RECV_BLOCK seq (blockNo no ++ count :: data)

/-- The memory with the number of the current block as the payload of the
next packet. -/
def blockPayload (mem : Mem) : Mem :=
  mem |>.set sendBlockPayload 0 |>.set (sendBlockPayload + 1) 0
    |>.set (sendBlockPayload + 2) (hi (mem.word currentBlock))
    |>.set (sendBlockPayload + 3) (lo (mem.word currentBlock))

theorem blockPayload_bytes (mem : Mem) :
    (blockPayload mem).bytes sendBlockPayload 4 = blockNo (mem.word currentBlock) := by
  simp only [blockPayload, Mem.bytes, blockNo]
  simp (disch := decide) only [Mem.set_of_ne, Mem.set_self]
  rfl

/-- What a request writes to. -/
abbrev requestVars : List Region := ⟨sendBlockPayload, 4⟩ :: wire

theorem blockPayload_frame (mem : Mem) : Frame requestVars mem (blockPayload mem) :=
  ((Frame.refl _ _).set _ (by decide)).set _ (by decide) |>.set _ (by decide) |>.set _ (by decide)

variable [LawfulPump ι]

/-- Where the receiving of a block of `count` bytes stops: at a timeout within
the packet, after a header that announces another packet or one too long, or
after the packet. -/
def BlockStops (count : Byte) (bs : List Byte) (late : Bool) : Prop :=
  (late = true ∧ (bs.length < 5 ∨ announced bs = count.toNat + 5 ∧ bs.length < count.toNat + 13)) ∨
  (late = false ∧ (bs.length = 5 ∧ (announced bs ≠ count.toNat + 5 ∨ MAX_PAYLOAD < announced bs) ∨
    announced bs = count.toNat + 5 ∧ bs.length = count.toNat + 13))

/-- What a request leaves: the bytes received, and whether the link timed out
after them. -/
structure Requested (bs : List Byte) (late : Bool) (m m' : Machine DosState ι) : Prop where
  keeps : Keeps Link requestVars m m'
  got : m'.got = m.got ++ bs
  payload : m'.mem.bytes sendBlockPayload 4 = blockNo (m.mem.word currentBlock)
  link : m.mem currentPump = PUMP_LPT_SPP → m'.mem txSeq = m.mem txSeq + 1 ∧
    BlockStops (m.mem expectedByteCount) bs late ∧
    Steps (m.mem.word lptBase)
      (((frame CMD_SEND_BLOCK (m.mem txSeq)
        (blockNo (m.mem.word currentBlock))).take 8).map .sent ++
      (bs.map .got ++ if late then [.timeout] else [])) m.io m'.io
  accepted : m'.cf = false → m.mem currentPump = PUMP_LPT_SPP ∧ ∃ seq data,
    data.length = (m.mem expectedByteCount).toNat ∧
    bs = recvBlock seq (m.mem.word currentBlock) (m.mem expectedByteCount) data ∧
    m'.mem.bytes (rxPayload + RECV_BLOCK_HDR_LEN) data.length = data
  accepts : ∀ seq data, data.length = (m.mem expectedByteCount).toNat →
    bs = recvBlock seq (m.mem.word currentBlock) (m.mem expectedByteCount) data → m'.cf = false

omit [Pump ι] [LawfulPump ι] in
theorem length_recvBlock (seq : Byte) (no : Word) (count : Byte) (data : List Byte) :
    (recvBlock seq no count data).length = data.length + 13 := by
  rw [recvBlock, length_frame, List.length_append, List.length_cons]
  show 4 + (data.length + 1) + 8 = data.length + 13
  omega

/-- The fields of the packet received say that it is the block asked for. -/
def FieldsRight (mem : Mem) : Prop := mem rxPayload = 0 ∧ mem (rxPayload + 1) = 0 ∧
  mem (rxPayload + 2) = mem (currentBlock + 1) ∧ mem (rxPayload + 3) = mem currentBlock ∧
  mem (rxPayload + 4) = mem expectedByteCount

omit [Pump ι] [LawfulPump ι] in
theorem checkBlock_ok (m : Machine DosState ι) : SameCore m (requestOneBlock.checkBlock m) ∧
    ((requestOneBlock.checkBlock m).cf = false ↔ FieldsRight m.mem) := by
  let P : Machine DosState ι → Prop := fun m' => SameCore m m' ∧ (m'.cf = false ↔ FieldsRight m.mem)
  have hfail : ∀ m', SameCore m m' → ¬ FieldsRight m.mem →
      P (requestOneBlock.fail m') := fun m' h hno =>
    ⟨h, (fun hc => nomatch hc), fun hr => absurd hr hno⟩
  have h : P (requestOneBlock.checkBlock m) := by
    refine jnz_cases (fun h₀ => hfail _ rfl fun hr => of_decide_eq_false h₀ hr.1) fun h₀ =>
      jnz_cases (fun h₁ => hfail _ rfl fun hr => of_decide_eq_false h₁ hr.2.1) fun h₁ =>
      jnz_cases (fun h₂ => hfail _ rfl fun hr => ?_) fun h₂ =>
      jnz_cases (fun h₃ => hfail _ rfl fun hr => ?_) fun h₃ =>
      jnz_cases (fun h₄ => hfail _ rfl fun hr => ?_) fun h₄ => ⟨rfl, fun _ => ?_, fun _ => rfl⟩
    all_goals simp only [cmpb, byte, imm, movb, setReg8, reg8, lo_ofBytes] at h₀ h₁ h₂
    · exact of_decide_eq_false h₂ hr.2.2.1
    · simp only [cmpb, byte, imm, movb, setReg8, reg8, lo_ofBytes] at h₃
      exact of_decide_eq_false h₃ hr.2.2.2.1
    · simp only [cmpb, byte, imm, movb, setReg8, reg8, lo_ofBytes] at h₃ h₄
      exact of_decide_eq_false h₄ hr.2.2.2.2
    · simp only [cmpb, byte, imm, movb, setReg8, reg8, lo_ofBytes] at h₃ h₄
      exact ⟨of_decide_eq_true h₀, of_decide_eq_true h₁, of_decide_eq_true h₂, of_decide_eq_true h₃,
        of_decide_eq_true h₄⟩
  exact h

/-- The payload of a packet received is the block asked for. -/
theorem blockPayload_eq {mem : Mem} {cmd seq : Byte} {payload : List Byte} {no : Word}
    {count : Byte} (h : mem.bytes RX_BUF_OFF (payload.length + 8) = frame cmd seq payload)
    (hl : payload.length = count.toNat + 5)
    (h₀ : mem rxPayload = 0) (h₁ : mem (rxPayload + 1) = 0) (h₂ : mem (rxPayload + 2) = hi no)
    (h₃ : mem (rxPayload + 3) = lo no) (h₄ : mem (rxPayload + 4) = count) :
    payload = blockNo no ++ count :: mem.bytes (rxPayload + RECV_BLOCK_HDR_LEN) count.toNat := by
  have hall : mem.bytes rxPayload (5 + count.toNat) = payload := by
    refine List.ext_getElem (by rw [Mem.length_bytes]; omega) fun i hi hi' => ?_
    rw [Mem.getElem_bytes, rxPayload_eq h hi', List.getD_eq_getElem?_getD,
      List.getElem?_eq_getElem hi', Option.getD_some]
  rw [← hall, Mem.bytes_add]
  have h₂' : mem (rxPayload + 1 + 1) = hi no := h₂
  have h₃' : mem (rxPayload + 1 + 1 + 1) = lo no := h₃
  have h₄' : mem (rxPayload + 1 + 1 + 1 + 1) = count := h₄
  simp only [Mem.bytes, blockNo, h₀, h₁, h₂', h₃', h₄', List.cons_append, List.nil_append]
  rfl

/-- What the sending of a request leaves. -/
structure BlockAsked (m m' : Machine DosState ι) : Prop where
  keeps : Keeps Link requestVars m m'
  cf : m'.cf = decide (m.mem currentPump ≠ PUMP_LPT_SPP)
  got : m'.got = m.got
  seq : m'.mem txSeq = m.mem txSeq + 1
  payload : m'.mem.bytes sendBlockPayload 4 = blockNo (m.mem.word currentBlock)
  link : m.mem currentPump = PUMP_LPT_SPP →
    Steps (m.mem.word lptBase) (((frame CMD_SEND_BLOCK (m.mem txSeq)
      (blockNo (m.mem.word currentBlock))).take 8).map .sent) m.io m'.io

theorem requestOneBlock_asks (m : Machine DosState ι) : ∃ m₁, BlockAsked m m₁ ∧
    requestOneBlock m = (m₁ |>.jc requestOneBlock.fail fun m => m
      |> recvHeader requestOneBlock.fail fun m =>
        m |>.movb .al (·.byte expectedByteCount) |>.xorb .ah (·.reg8 .ah)
          |>.add .ax (imm RECV_BLOCK_HDR_LEN)
          |>.cmp (·.bx) (·.ax) |>.jnz requestOneBlock.fail fun m =>
        m |> recvRest requestOneBlock.fail fun m =>
        m |>.cmpb (·.reg8 .al) (imm CMD_RECV_BLOCK)
          |>.jnz requestOneBlock.fail requestOneBlock.checkBlock) := by
  generalize hno : m.mem.word currentBlock = no
  let m₀ : Machine DosState ι := { m with
    ax := ofBytes (hi no) CMD_SEND_BLOCK, si := sendBlockPayload, cx := 4,
    mem := blockPayload m.mem }
  have hpay : m₀.mem.bytes sendBlockPayload 4 = blockNo no := hno ▸ blockPayload_bytes m.mem
  have hf₀ : Frame requestVars m.mem m₀.mem := blockPayload_frame m.mem
  have hsent := encodeDrain_ok m₀ (show (4 : Word).toNat ≤ MAX_PAYLOAD by decide)
    (payloadApart_of_eq sendBlockPayload 4 rfl rfl
      (Region.apart_of_le (by decide) (by decide)) (by decide))
  have hk₀ : Keeps Link requestVars m m₀ :=
    (Keeps.setMem hf₀ (hf₀.word (by decide) (by decide))).congr rfl rfl
  have hpump : m₀.mem currentPump = m.mem currentPump := hf₀.byte (by decide)
  have hseq : m₀.mem txSeq = m.mem txSeq := by
    simp only [m₀, blockPayload]
    simp (disch := decide) only [Mem.set_of_ne]
  rw [show lo m₀.ax = CMD_SEND_BLOCK from lo_ofBytes _ _, hseq,
    show m₀.mem.bytes m₀.si m₀.cx.toNat = blockNo no from hpay] at hsent
  refine ⟨encodeDrain m₀, ⟨hk₀.trans (hsent.keeps.mono (by decide)), hpump ▸ hsent.cf, hsent.got,
    hsent.seq.trans (congrArg (· + 1) hseq), ?_, fun hp => ?_⟩, ?_⟩
  · rw [hno, ← hpay]
    refine hsent.keeps.mem.bytes (by decide) fun r hr => ?_
    simp only [List.mem_cons, List.not_mem_nil, or_false] at hr
    rcases hr with rfl | rfl <;> exact Region.apart_of_le (by decide) (by decide)
  · rw [hno, ← hk₀.base]
    exact hsent.link (hpump.trans hp)
  · have hw :
        ((m.mem.set sendBlockPayload 0).set (sendBlockPayload + 1) 0).word currentBlock = no :=
      (Mem.word_set_of_ne _ _ (by decide) (by decide)).trans
        ((Mem.word_set_of_ne _ _ (by decide) (by decide)).trans hno)
    simp only [requestOneBlock, stb, mov, movb, setReg, setReg8, reg8, imm, word, hw, m₀,
      blockPayload, hno]

omit [Pump ι] [LawfulPump ι] in
/-- The length announced is compared with that of the packet asked for. -/
theorem cmpExpected_ok (m : Machine DosState ι) {h : List Byte}
    (hbx : m.bx = BitVec.ofNat 16 (announced h)) :
    let m' := m |>.movb .al (·.byte expectedByteCount) |>.xorb .ah (·.reg8 .ah)
      |>.add .ax (imm RECV_BLOCK_HDR_LEN)
    m'.bx = m'.ax ↔ announced h = (m.mem expectedByteCount).toNat + 5 := by
  intro m'
  have hc := (m.mem expectedByteCount).isLt
  have hax : m'.ax = ofBytes 0 (m.mem expectedByteCount) + 5 := by
    simp only [m', movb, xorb, add, reg, setReg, reg8, setReg8, byte, imm, hi_ofBytes, lo_ofBytes,
      BitVec.xor_self]
    rfl
  rw [show m'.bx = BitVec.ofNat 16 (announced h) from hbx, hax, ← BitVec.toNat_inj,
    toNat_ofNat16 (announced_lt h), BitVec.toNat_add, toNat_byteWord,
    show (5 : Word).toNat = 5 from rfl]
  omega

namespace BlockAsked

variable {m m₁ m' : Machine DosState ι} {bs : List Byte} {late : Bool}

/-- Without the LPT nothing is asked. -/
theorem refused (h : BlockAsked m m₁) (hp : m.mem currentPump ≠ PUMP_LPT_SPP) :
    Requested [] false m (requestOneBlock.fail m₁) := by
  refine ⟨h.keeps.congr rfl rfl, h.got.trans (List.append_nil _).symm, h.payload,
    fun hp' => absurd hp' hp, (Bool.noConfusion ·), fun seq data _ hb => ?_⟩
  have := congrArg List.length hb
  rw [length_recvBlock, List.length_nil] at this
  omega

/-- What is heard after a request. -/
theorem requested (h : BlockAsked m m₁) (hp : m.mem currentPump = PUMP_LPT_SPP)
    (hh : Heard bs late m₁ m') (hs : BlockStops (m.mem expectedByteCount) bs late)
    (hacc : m'.cf = false → ∃ seq data, data.length = (m.mem expectedByteCount).toNat ∧
      bs = recvBlock seq (m.mem.word currentBlock) (m.mem expectedByteCount) data ∧
      m'.mem.bytes (rxPayload + RECV_BLOCK_HDR_LEN) data.length = data)
    (hall : ∀ seq data, data.length = (m.mem expectedByteCount).toNat →
      bs = recvBlock seq (m.mem.word currentBlock) (m.mem expectedByteCount) data →
      m'.cf = false) : Requested bs late m m' := by
  refine ⟨h.keeps.trans (hh.keeps.mono (by decide)), by rw [hh.got, h.got], ?_,
    fun _ => ⟨?_, hs, (h.link hp).append (h.keeps.base ▸ hh.link)⟩, fun hcf => ⟨hp, hacc hcf⟩, hall⟩
  · rw [← h.payload]
    refine hh.keeps.mem.bytes (by decide) fun r hr => ?_
    simp only [List.mem_cons, List.not_mem_nil, or_false] at hr
    rcases hr with rfl | rfl <;> exact Region.apart_of_le (by decide) (by decide)
  · rw [hh.keeps.mem.byte (by decide), h.seq]

/-- Something else than the block is heard. -/
theorem other (h : BlockAsked m m₁) (hp : m.mem currentPump = PUMP_LPT_SPP)
    (hh : Heard bs late m₁ m') (hs : BlockStops (m.mem expectedByteCount) bs late)
    (hne : ∀ seq data, data.length = (m.mem expectedByteCount).toNat →
      bs ≠ recvBlock seq (m.mem.word currentBlock) (m.mem expectedByteCount) data) :
    Requested bs late m (requestOneBlock.fail m') :=
  h.requested hp (hh.congr rfl rfl) hs (Bool.noConfusion ·)
    fun seq data hd hb => absurd hb (hne seq data hd)

/-- A packet as long as the block's is heard. -/
theorem packet (h : BlockAsked m m₁) (hp : m.mem currentPump = PUMP_LPT_SPP)
    (hh : Heard bs false m₁ m') (hs : BlockStops (m.mem expectedByteCount) bs false)
    {cmd seq : Byte} {payload : List Byte} (hf : bs = frame cmd seq payload)
    (hlen : payload.length = (m.mem expectedByteCount).toNat + 5)
    (hbytes : m'.mem.bytes RX_BUF_OFF (payload.length + 8) = frame cmd seq payload)
    (hal : lo m'.ax = cmd) :
    Requested bs false m (m' |>.cmpb (·.reg8 .al) (imm CMD_RECV_BLOCK)
      |>.jnz requestOneBlock.fail requestOneBlock.checkBlock) := by
  refine jnz_cases (P := Requested bs false m) (fun hz => h.other hp (hh.congr rfl rfl) hs ?_)
    fun hz => ?_
  · exact fun seq' data _ hb =>
      of_decide_eq_false hz (hal.trans (frame_cmd (hf.symm.trans hb)))
  have hcmd : cmd = CMD_RECV_BLOCK := hal.symm.trans (of_decide_eq_true hz)
  obtain ⟨hsame, hok⟩ := checkBlock_ok (m'.cmpb (·.reg8 .al) (imm CMD_RECV_BLOCK))
  have hframe : Frame requestVars m.mem m'.mem :=
    h.keeps.mem.trans (hh.keeps.mem.mono (by decide))
  have hhi : m'.mem (currentBlock + 1) = hi (m.mem.word currentBlock) := by
    rw [hframe.byte (by decide), Mem.word, hi_ofBytes]
  have hlo : m'.mem currentBlock = lo (m.mem.word currentBlock) := by
    rw [hframe.byte (by decide), Mem.word, lo_ofBytes]
  have hcount : m'.mem expectedByteCount = m.mem expectedByteCount := hframe.byte (by decide)
  refine h.requested hp (hh.congr rfl hsame) hs (fun hc => ?_) fun seq' data hd hb => ?_
  · obtain ⟨h₀, h₁, h₂, h₃, h₄⟩ := hok.mp hc
    have he := blockPayload_eq hbytes hlen h₀ h₁ (h₂.trans hhi) (h₃.trans hlo) (h₄.trans hcount)
    refine ⟨seq, m'.mem.bytes (rxPayload + RECV_BLOCK_HDR_LEN) (m.mem expectedByteCount).toNat,
      Mem.length_bytes _ _ _, ?_, ?_⟩
    · rw [hf, hcmd, recvBlock, ← he]
    · rw [hsame.still.mem, Mem.length_bytes]
      rfl
  · have hpay : payload = blockNo (m.mem.word currentBlock) ++ m.mem expectedByteCount :: data :=
      frame_payload (hf.symm.trans hb)
    have hfield : ∀ k < 5, m'.mem (rxPayload + BitVec.ofNat 16 k) =
        (blockNo (m.mem.word currentBlock) ++ m.mem expectedByteCount :: data).getD k 0 :=
      fun k hk => by rw [rxPayload_eq hbytes (by omega), hpay]
    exact hok.mpr ⟨hfield 0 (by decide), hfield 1 (by decide),
      (hfield 2 (by decide)).trans hhi.symm, (hfield 3 (by decide)).trans hlo.symm,
      (hfield 4 (by decide)).trans hcount.symm⟩

end BlockAsked

theorem requestOneBlock_ok (m : Machine DosState ι) :
    ∃ bs late, Requested bs late m (requestOneBlock m) := by
  obtain ⟨m₁, h₁, e⟩ := requestOneBlock_asks m
  rw [e]
  by_cases hp : m.mem currentPump = PUMP_LPT_SPP
  swap
  · rw [jc_pos (h₁.cf.trans (decide_eq_true hp))]
    exact ⟨_, _, h₁.refused hp⟩
  rw [jc_neg (h₁.cf.trans (decide_eq_false (not_not.mpr hp)))]
  let P : Machine DosState ι → Prop := fun m' => ∃ bs late, Requested bs late m m'
  have hp₁ : m₁.mem currentPump = PUMP_LPT_SPP := (h₁.keeps.mem.byte (by decide)).trans hp
  -- a packet with a block is longer than its header
  have hshort : ∀ bs : List Byte, bs.length ≤ 5 → ∀ seq data,
      data.length = (m.mem expectedByteCount).toNat →
      bs ≠ recvBlock seq (m.mem.word currentBlock) (m.mem expectedByteCount) data := by
    intro bs hl seq data _ hb
    rw [hb, length_recvBlock] at hl
    omega
  refine recvHeader_cases (P := P) hp₁
    (fun m₂ bs hh hl => ⟨_, _, h₁.other hp hh (.inl ⟨rfl, .inl hl⟩) (hshort bs hl.le)⟩)
    fun m₂ h hh hl hmem hbx => ?_
  have hm₂ : m₂.mem expectedByteCount = m.mem expectedByteCount :=
    (hh.keeps.mem.byte (by decide)).trans (h₁.keeps.mem.byte (by decide))
  have hcmp := cmpExpected_ok m₂ hbx
  rw [hm₂] at hcmp
  refine jnz_cases (P := P) (fun hz => ?_) fun hz => ?_
  · have hne := fun he => of_decide_eq_false hz (hcmp.mpr he)
    exact ⟨_, _, h₁.other hp (hh.congr rfl rfl) (.inr ⟨rfl, .inl ⟨hl, .inl hne⟩⟩)
      (hshort h hl.le)⟩
  have hlen := hcmp.mp (of_decide_eq_true hz)
  have hann : ∀ t, announced (h ++ t) = (m.mem expectedByteCount).toNat + 5 :=
    fun t => (announced_append hl.ge).trans hlen
  have hsum : ∀ t : List Byte, (h ++ t).length = 5 + t.length :=
    fun t => by rw [List.length_append, hl]
  let m₃ : Machine DosState ι := m₂ |>.movb .al (·.byte expectedByteCount) |>.xorb .ah (·.reg8 .ah)
    |>.add .ax (imm RECV_BLOCK_HDR_LEN) |>.cmp (·.bx) (·.ax)
  have hh₃ : Heard h false m₁ m₃ := hh.congr rfl rfl
  have hp₃ : m₃.mem currentPump = PUMP_LPT_SPP := (hh.keeps.mem.byte (by decide)).trans hp₁
  show P (recvRest _ _ m₃)
  rcases recvRest_ok m₃ hp₃ hl hmem hbx requestOneBlock.fail
    (fun m => m |>.cmpb (·.reg8 .al) (imm CMD_RECV_BLOCK)
      |>.jnz requestOneBlock.fail requestOneBlock.checkBlock) with
    ⟨m₄, e', hcore, hlong⟩ | ⟨m₄, t, e', hh', ht⟩ | ⟨m₄, t, e', hh', ht, hbad⟩ |
    ⟨m₄, t, cmd, seq, payload, e', hh', ht, hpl, hf, hbytes, hal⟩ <;> rw [e']
  · exact ⟨_, _, h₁.other hp (hh₃.congr rfl hcore) (.inr ⟨rfl, .inl ⟨hl, .inr hlong⟩⟩)
      (hshort h hl.le)⟩
  · refine ⟨_, _, h₁.other hp (hh₃.trans hh') (.inl ⟨rfl, .inr ⟨hann t, by rw [hsum]; omega⟩⟩)
      fun seq data _ hb => ?_⟩
    have := congrArg List.length hb
    rw [length_recvBlock, hsum] at this
    omega
  · exact ⟨_, _, h₁.other hp (hh₃.trans hh') (.inr ⟨rfl, .inr ⟨hann t, by rw [hsum]; omega⟩⟩)
      fun seq data _ => hbad _ _ _⟩
  · have hpay : payload.length = (m.mem expectedByteCount).toNat + 5 := by
      have hn := congrArg List.length hf
      rw [hsum, length_frame, show OVERHEAD = 8 from rfl] at hn
      omega
    exact ⟨_, _, h₁.packet hp (hh₃.trans hh') (.inr ⟨rfl, .inr ⟨hann t, by rw [hsum]; omega⟩⟩)
      hf hpay hbytes hal⟩

/-! ## A block committed -/

theorem sendBlockCmd_ok (cmd : Byte) (m : Machine DosState ι) :
    Sent (frame cmd (m.mem txSeq) (m.mem.bytes sendBlockPayload 4)) m (sendBlockCmd cmd m) := by
  let m₀ : Machine DosState ι :=
    { m with ax := ofBytes (hi m.ax) cmd, si := sendBlockPayload, cx := 4 }
  have h := encodeDrain_ok m₀ (show (4 : Word).toNat ≤ MAX_PAYLOAD by decide)
    (payloadApart_of_eq sendBlockPayload 4 rfl rfl
      (Region.apart_of_le (by decide) (by decide)) (by decide))
  rw [show lo m₀.ax = cmd from lo_ofBytes _ _] at h
  exact ⟨h.keeps.congr rfl rfl, h.cf, h.got, h.seq, h.link⟩

/-- What a commit writes to. -/
abbrev commitVars : List Region := ⟨crc32State, 4⟩ :: txWire

/-- The data of a block committed: folded into the checksum and, if there was
no failure, appended to the file. -/
structure Committed (data : List Byte) (m m' : Machine DosState ι) : Prop where
  within : Within Link commitVars m m'
  got : m'.got = m.got
  dos : DosState.Filing m.dos m'.dos
  crc : m'.mem.dword crc32State = data.foldl Crc32.byteStep (m.mem.dword crc32State)
  handles : m'.dos.handles = m.dos.handles
  file : m'.cf = false → ∀ name content, m.dos.handles (m.mem.word stage2FileHandle) = some name →
    m.dos.files name = some content → m'.dos.files name = some (content ++ data)

omit [Pump ι] [LawfulPump ι] in
/-- The checksum lies apart from the bytes of a block. -/
theorem crc32State_apart {n : Nat} (h : n ≤ 255) :
    Region.Apart ⟨crc32State, 4⟩ ⟨rxPayload + RECV_BLOCK_HDR_LEN, n⟩ :=
  Region.apart_of_le (show 4 ≤ (rxPayload + RECV_BLOCK_HDR_LEN - crc32State).toNat by decide)
    (h.trans (show 255 ≤ (crc32State - (rxPayload + RECV_BLOCK_HDR_LEN)).toNat by decide))

omit [LawfulPump ι] in
/-- The bytes of the block are folded into the checksum, and DOS is asked to
write them. -/
theorem commitOneBlock_writes (m : Machine DosState ι) : ∃ (a : Byte) (s : Word) (mem : Mem),
    Frame [⟨crc32State, 4⟩] m.mem mem ∧
    mem.dword crc32State = (m.mem.bytes (rxPayload + RECV_BLOCK_HDR_LEN)
      (m.mem expectedByteCount).toNat).foldl Crc32.byteStep (m.mem.dword crc32State) ∧
    commitOneBlock m = (int21Write { m with
        ax := ofBytes DOS_WRITE a, bx := m.mem.word stage2FileHandle,
        cx := ofBytes 0 (m.mem expectedByteCount), dx := rxPayload + RECV_BLOCK_HDR_LEN, si := s,
        cf := false, zf := true, mem := mem }
      |>.jc commitOneBlock.fail fun m =>
      m |>.movb .bl (·.byte expectedByteCount) |>.xorb .bh (·.reg8 .bh) |>.cmp (·.ax) (·.bx)
        |>.jnz commitOneBlock.fail (sendBlockCmd CMD_BLOCK_ACK)) := by
  generalize hcount : m.mem expectedByteCount = count
  have hcn : (ofBytes 0 count).toNat = count.toNat := toNat_byteWord count
  let m₀ : Machine DosState ι := { m with
    si := rxPayload + RECV_BLOCK_HDR_LEN, cx := ofBytes 0 count, cf := false,
    zf := decide (hi m.cx ^^^ hi m.cx = 0) }
  obtain ⟨a, b, d, c, z, s, mem, e, hf, hcrc⟩ :=
    crc32Buf_ok m₀ (hcn.symm ▸ crc32State_apart (Nat.le_of_lt_succ count.isLt))
  rw [show m₀.cx.toNat = count.toNat from hcn] at hcrc
  have hcount' : mem expectedByteCount = count := (hf.byte (by decide)).trans hcount
  have hhandle : mem.word stage2FileHandle = m.mem.word stage2FileHandle :=
    hf.word (by decide) (by decide)
  let m₁ : Machine DosState ι := { m with
    ax := ofBytes DOS_WRITE (lo a), bx := m.mem.word stage2FileHandle, cx := ofBytes 0 count
    dx := rxPayload + RECV_BLOCK_HDR_LEN, si := s, cf := false, zf := true, mem := mem }
  have h₀ :
    (m |>.mov .si (imm (rxPayload + RECV_BLOCK_HDR_LEN)) |>.movb .cl (·.byte expectedByteCount)
      |>.xorb .ch (·.reg8 .ch)) = m₀ := by
    simp only [mov, movb, xorb, setReg, setReg8, reg8, byte, imm, hcount, hi_ofBytes, lo_ofBytes,
      BitVec.xor_self, m₀]
    rfl
  have h₁ : (crc32Buf m₀ |>.movb .ah (imm DOS_WRITE) |>.mov .bx (·.word stage2FileHandle)
      |>.movb .cl (·.byte expectedByteCount) |>.xorb .ch (·.reg8 .ch)
      |>.mov .dx (imm (rxPayload + RECV_BLOCK_HDR_LEN))) = m₁ := by
    rw [e]
    simp only [mov, movb, xorb, setReg, setReg8, reg8, byte, word, imm, hcount', hhandle,
      hi_ofBytes, lo_ofBytes, BitVec.xor_self, m₁, m₀]
    rfl
  have h₂ : int21 m₁ = int21Write m₁ := int21_write (hi_ofBytes DOS_WRITE (lo a))
  refine ⟨lo a, s, mem, hf, hcrc, ?_⟩
  rw [commitOneBlock, h₀, h₁, h₂]

theorem commitOneBlock_ok (m : Machine DosState ι) :
    Committed (m.mem.bytes (rxPayload + RECV_BLOCK_HDR_LEN) (m.mem expectedByteCount).toNat) m
      (commitOneBlock m) := by
  obtain ⟨a, s, mem, hf, hcrc, e⟩ := commitOneBlock_writes m
  generalize hcount : m.mem expectedByteCount = count at hcrc e
  have hcn : (ofBytes 0 count).toNat = count.toNat := toNat_byteWord count
  have hlt : count.toNat ≤ 255 := Nat.le_of_lt_succ count.isLt
  have hcount' : mem expectedByteCount = count := (hf.byte (by decide)).trans hcount
  have hdata : mem.bytes (rxPayload + RECV_BLOCK_HDR_LEN) count.toNat =
      m.mem.bytes (rxPayload + RECV_BLOCK_HDR_LEN) count.toNat :=
    hf.bytes (by omega) fun r hr => List.mem_singleton.mp hr ▸ (crc32State_apart hlt).symm
  generalize m.mem.bytes (rxPayload + RECV_BLOCK_HDR_LEN) count.toNat = data at hcrc hdata
  let m₁ : Machine DosState ι := { m with
    ax := ofBytes DOS_WRITE a, bx := m.mem.word stage2FileHandle, cx := ofBytes 0 count
    dx := rxPayload + RECV_BLOCK_HDR_LEN, si := s, cf := false, zf := true, mem := mem }
  have hfiling : DosState.Filing m.dos (int21Write m₁).dos := int21Write_filing m₁
  have hfile : ∀ name content, (int21Write m₁).cf = false → (int21Write m₁).ax = ofBytes 0 count →
      m.dos.handles (m.mem.word stage2FileHandle) = some name → m.dos.files name = some content →
      (int21Write m₁).dos.files name = some (content ++ data) := by
    intro name content hcf hax hh hc
    have h := int21Write_ok m₁ hcf hax hh hc
    rwa [show m₁.mem.bytes m₁.dx m₁.cx.toNat = data from hcn.symm ▸ hdata] at h
  obtain ⟨a', c', d', ew⟩ : ∃ a c d, int21Write m₁ = { m₁ with ax := a, cf := c, dos := d } :=
    ⟨_, _, _, rfl⟩
  have hhandles : d'.handles = m.dos.handles := by
    have hd : (int21Write m₁).dos.handles = m.dos.handles := rfl
    rwa [ew] at hd
  rw [show int21Write _ = _ from ew] at e
  rw [ew] at hfiling hfile
  let m₂ : Machine DosState ι := { m₁ with ax := a', cf := c', dos := d' }
  have hw : Within Link commitVars m m₂ :=
    ⟨rfl, rfl, rfl, rfl, hf.mono (by decide), hf.word (by decide) (by decide),
      List.prefix_rfl, .refl⟩
  have hfail : ∀ m', SameCore m₂ m' → m'.cf = true → Committed data m m' := by
    intro m' hs hcf
    have hst := hs.still
    refine ⟨hw.still hst, hst.got, hfiling.trans (.ofQuiet hst.dos), ?_, ?_, fun h => ?_⟩
    · rw [hst.mem]
      exact hcrc
    · obtain ⟨con, asked, ed⟩ := hst.dos
      rw [ed]
      exact hhandles
    · rw [hcf] at h
      cases h
  rw [e]
  refine jc_cases (P := Committed data m) (fun hcf => hfail _ rfl rfl) fun hcf =>
    jnz_cases (P := Committed data m) (fun _ => hfail _ rfl rfl) fun hz => ?_
  let m₃ : Machine DosState ι := m₂ |>.movb .bl (·.byte expectedByteCount) |>.xorb .bh (·.reg8 .bh)
    |>.cmp (·.ax) (·.bx)
  have hax : a' = ofBytes 0 count := by
    have hz' : m₃.ax = m₃.bx := of_decide_eq_true hz
    have hbx : m₃.bx = ofBytes 0 count := by
      simp only [m₃, m₂, m₁, movb, xorb, Machine.cmp, setReg8, reg8, byte, hi_ofBytes, lo_ofBytes,
        BitVec.xor_self, hcount']
      rfl
    exact hz'.trans hbx
  have hs := sendBlockCmd_ok CMD_BLOCK_ACK m₃
  have hk : Keeps Link txWire m₂ (sendBlockCmd CMD_BLOCK_ACK m₃) := hs.keeps.congr rfl rfl
  obtain ⟨con, asked, ed⟩ := hk.dos
  refine ⟨hw.trans (hk.toWithin.mono (by decide)), hs.got, hfiling.trans (.ofQuiet hk.dos), ?_, ?_,
    fun _ name content hh hc => ?_⟩
  · rw [hk.mem.dword (by decide)]
    exact hcrc
  · rw [ed]
    exact hhandles
  · rw [ed]
    exact hfile name content hcf hax hh hc

/-! ## The number of blocks, and the bytes of one -/

/-- How many blocks an image of a size has: all there is of `(size + 63) >> 6`
in 32 bits. -/
def blockCount (size : DWord) : DWord := (size + 63) >>> 6

omit [Pump ι] [LawfulPump ι] in
theorem toNat_blockCount (size : DWord) :
    (blockCount size).toNat = (size.toNat + 63) % 2 ^ 32 / 64 := by
  rw [blockCount, BitVec.toNat_ushiftRight, Nat.shiftRight_eq_div_pow, BitVec.toNat_add]
  rfl

omit [LawfulPump ι] in
/-- The number of blocks is counted: one too big for a word ends the download,
any other is kept in `total_blocks`. -/
theorem haveSize_ok (m : Machine DosState ι) :
    (hiW (blockCount (m.mem.dword stage2ImageSize)) ≠ 0 ∧ ∃ m₁, SameCore m m₁ ∧
      downloadStage2.haveSize m = downloadStage2.skip msgDlFailSize m₁) ∨
    (hiW (blockCount (m.mem.dword stage2ImageSize)) = 0 ∧ ∃ m₁,
      Still { m with
        mem := m.mem.setWord totalBlocks (loW (blockCount (m.mem.dword stage2ImageSize))) } m₁ ∧
      downloadStage2.haveSize m = downloadStage2.createFile m₁) := by
  generalize hsz : m.mem.dword stage2ImageSize = size
  let l := m.mem.word stage2ImageSize
  let h := m.mem.word (stage2ImageSize + 2)
  let m₀ : Machine DosState ι :=
    m |>.mov .ax (·.word stage2ImageSize) |>.mov .dx (·.word (stage2ImageSize + 2))
    |>.add .ax (imm (DOWNLOAD_BLOCK_SIZE - 1)) |>.adc .dx (imm 0) |>.mov .cx (imm 6)
  have hs₀ : SameCore m m₀ := rfl
  have hsum : ofWords m₀.dx m₀.ax = size + 63 := by
    have hw := ofWords_add_word h l 63
    rw [show ofWords h l = size from hsz] at hw
    show ofWords (h + 0 + BitVec.ofNat 16 (decide (65536 ≤ l.toNat + (63 : Word).toNat)).toNat) (l +
      63) = _
    rw [show h + 0 = h from BitVec.add_zero h, hw]
    rfl
  obtain ⟨c, z, e⟩ := shiftLoop_ok (fun x : DWord => x >>> 1) shrBody_ok m₀ (n := 6) (by decide)
    (by decide) rfl
  have hshift : (fun x : DWord => x >>> 1)^[6] (ofWords m₀.dx m₀.ax) = blockCount size := by
    rw [hsum, blockCount]
    show (size + 63) >>> 1 >>> 1 >>> 1 >>> 1 >>> 1 >>> 1 = _
    simp only [← BitVec.shiftRight_add]
  rw [hshift] at e
  generalize blockCount size = n at e
  let m₁ : Machine DosState ι := { m₀ with ax := loW n, dx := hiW n, cx := 0, cf := c, zf := z }
  let m₂ : Machine DosState ι := m₁.orw .dx (·.dx)
  have hs₂ : SameCore m m₂ := rfl
  have hz : m₂.zf = decide (hiW n = 0) := by
    show decide (hiW n ||| hiW n = 0) = _
    rw [BitVec.or_self]
  have he : downloadStage2.haveSize m = m₂.jnz (downloadStage2.skip msgDlFailSize) fun m =>
      m |>.stw (imm totalBlocks) (·.ax) |> putsMsg msgDlStart |> downloadStage2.createFile :=
    congrArg (fun m : Machine DosState ι => m |>.orw .dx (·.dx)
      |>.jnz (downloadStage2.skip msgDlFailSize) fun m =>
      m |>.stw (imm totalBlocks) (·.ax) |> putsMsg msgDlStart |> downloadStage2.createFile) e
  rw [he]
  by_cases h0 : hiW n = 0
  · rw [jnz_neg (hz.trans (decide_eq_true h0))]
    let m₃ : Machine DosState ι := m₂.stw (imm totalBlocks) (·.ax)
    have hs₃ : SameCore { m with mem := m.mem.setWord totalBlocks (loW n) } m₃ := rfl
    exact .inr ⟨h0, putsMsg msgDlStart m₃, hs₃.still.putsMsg, rfl⟩
  · rw [jnz_pos (hz.trans (decide_eq_false h0))]
    exact .inl ⟨h0, m₂, hs₂, rfl⟩

omit [Pump ι] [LawfulPump ι] in
/-- What is left of the image from the current block on. -/
theorem expectCount_left (m : Machine DosState ι)
    (h : 64 * (m.mem.word currentBlock).toNat ≤ (m.mem.dword stage2ImageSize).toNat) :
    ∃ (a d : Word) (rem : DWord),
      rem.toNat =
        (m.mem.dword stage2ImageSize).toNat - 64 * (m.mem.word currentBlock).toNat ∧
      downloadStage2.expectCount m =
        (({ m with
          ax := a, bx := loW rem, cx := hiW rem, dx := d, cf := false,
          zf := decide (hiW rem = 0) } : Machine DosState ι).jnz downloadStage2.fullBlock fun m =>
        m |>.cmp (·.bx) (imm DOWNLOAD_BLOCK_SIZE)
          |>.jbe downloadStage2.partialBlock downloadStage2.fullBlock) := by
  generalize hcur : m.mem.word currentBlock = cur at h
  generalize hsz : m.mem.dword stage2ImageSize = size at h
  let m₀ : Machine DosState ι := { m with ax := cur, cx := 6, dx := 0, cf := false, zf := true }
  obtain ⟨c₁, z₁, e₁⟩ := shiftLoop_ok (fun x : DWord => x <<< 1) shlBody_ok m₀ (n := 6) (by decide)
    (by decide) rfl
  rw [show ofWords m₀.dx m₀.ax = ofWords 0 cur from rfl] at e₁
  generalize hoff : (fun x : DWord => x <<< 1)^[6] (ofWords 0 cur) = off at e₁
  have hoffn : off.toNat = 64 * cur.toNat := by
    have hc := cur.isLt
    rw [← hoff]
    show (ofWords 0 cur <<< 1 <<< 1 <<< 1 <<< 1 <<< 1 <<< 1).toNat = _
    simp only [BitVec.toNat_shiftLeft, Nat.shiftLeft_eq, toNat_ofWords,
      show (0 : Word).toNat = 0 from rfl]
    omega
  generalize hrem : size - off = rem
  refine ⟨loW off, hiW off, rem, ?_, ?_⟩
  · have := size.isLt
    rw [← hrem, BitVec.toNat_sub, hoffn]
    omega
  have h₀ : (m |>.mov .ax (·.word currentBlock) |>.mov .cx (imm 6) |>.xorw .dx (·.dx)) = m₀ := by
    simp only [mov, xorw, reg, setReg, word, imm, hcur, BitVec.xor_self, m₀]
    rfl
  -- SUB and SBB subtract the words with the borrow between them
  have hd := ofWords_sub (m.mem.word (stage2ImageSize + 2)) (m.mem.word stage2ImageSize)
    (hiW off) (loW off)
  rw [show ofWords (m.mem.word (stage2ImageSize + 2)) (m.mem.word stage2ImageSize) = size from
    hsz, ofWords_hiW_loW, hrem] at hd
  have hlo := congrArg loW hd
  have hhi := congrArg hiW hd
  rw [loW_ofWords] at hlo
  rw [hiW_ofWords] at hhi
  generalize hX : m.mem.word (stage2ImageSize + 2) - hiW off -
    BitVec.ofNat 16 (decide ((m.mem.word stage2ImageSize).toNat < (loW off).toNat)).toNat = X at hhi
  have h₁ :
    (({ m₀ with ax := loW off, cx := 0, dx := hiW off, cf := c₁, zf := z₁ } : Machine DosState ι)
      |>.mov .bx (·.word stage2ImageSize) |>.mov .cx (·.word (stage2ImageSize + 2))
      |>.sub .bx (·.ax) |>.sbb .cx (·.dx)
      |>.orw .cx (·.cx)) = { m with
        ax := loW off, bx := m.mem.word stage2ImageSize - loW off, cx := X ||| X,
        dx := hiW off, cf := false
        zf := decide (X ||| X = 0) } := by
    rw [← hX]
    rfl
  rw [downloadStage2.expectCount, h₀, e₁]
  show ((({ m₀ with
    ax := loW off, cx := 0, dx := hiW off, cf := c₁, zf := z₁ } : Machine DosState ι)
      |>.mov .bx (·.word stage2ImageSize) |>.mov .cx (·.word (stage2ImageSize + 2))
      |>.sub .bx (·.ax) |>.sbb .cx (·.dx)
      |>.orw .cx (·.cx)).jnz _ _) = _
  rw [h₁, hlo, hhi, BitVec.or_self]

omit [Pump ι] [LawfulPump ι] in
/-- `.full_block` if 64 bytes or more are left, `.partial_block` with what is
left otherwise. -/
theorem fullOrPartial_ok (m : Machine DosState ι) (rem : DWord) (hbx : m.bx = loW rem)
    (hzf : m.zf = decide (hiW rem = 0)) :
    ∃ b f z, (m.jnz downloadStage2.fullBlock fun m =>
      m |>.cmp (·.bx) (imm DOWNLOAD_BLOCK_SIZE)
        |>.jbe downloadStage2.partialBlock downloadStage2.fullBlock) = { m with
      bx := b, cf := f, zf := z
      mem := m.mem.set expectedByteCount (BitVec.ofNat 8 (min 64 rem.toNat)) } := by
  have hhi : (hiW rem).toNat = rem.toNat / 65536 := toNat_hiW rem
  have hlo : (loW rem).toNat = rem.toNat % 65536 := toNat_loW rem
  by_cases h0 : hiW rem = 0
  swap
  · have hpos : rem.toNat / 65536 ≠ 0 := fun h => h0 (BitVec.eq_of_toNat_eq (hhi.trans h))
    rw [jnz_pos (hzf.trans (decide_eq_false h0)), show min 64 rem.toNat = 64 by omega]
    exact ⟨64, m.cf, m.zf, rfl⟩
  have hsmall : rem.toNat / 65536 = 0 := hhi.symm.trans (congrArg BitVec.toNat h0)
  rw [jnz_neg (hzf.trans (decide_eq_true h0))]
  let m₁ : Machine DosState ι := m.cmp (·.bx) (imm DOWNLOAD_BLOCK_SIZE)
  have hjbe : (m₁.cf || m₁.zf) = true ↔ rem.toNat ≤ 64 := by
    have h64 : loW rem = DOWNLOAD_BLOCK_SIZE ↔ rem.toNat % 65536 = 64 := by
      rw [← hlo]
      exact ⟨fun h => h ▸ rfl, fun h => BitVec.eq_of_toNat_eq h⟩
    rw [Bool.or_eq_true]
    show decide (m.bx.toNat < 64) = true ∨ decide (m.bx = DOWNLOAD_BLOCK_SIZE) = true ↔ _
    rw [decide_eq_true_iff, decide_eq_true_iff, hbx, h64]
    omega
  show ∃ b f z, m₁.jbe _ _ = _
  by_cases hle : rem.toNat ≤ 64
  · have hb : lo m.bx = BitVec.ofNat 8 (min 64 rem.toNat) := by
      apply BitVec.eq_of_toNat_eq
      rw [toNat_lo, hbx, hlo, BitVec.toNat_ofNat]
      omega
    rw [jbe, if_pos (hjbe.mpr hle), ← hb]
    exact ⟨m.bx, m₁.cf, m₁.zf, rfl⟩
  · rw [jbe, if_neg (mt hjbe.mp hle), show min 64 rem.toNat = 64 by omega]
    exact ⟨64, m₁.cf, m₁.zf, rfl⟩

omit [Pump ι] [LawfulPump ι] in
theorem expectCount_ok (m : Machine DosState ι)
    (h : 64 * (m.mem.word currentBlock).toNat ≤ (m.mem.dword stage2ImageSize).toNat) :
    ∃ a b c d f z, downloadStage2.expectCount m = { m with
      ax := a, bx := b, cx := c, dx := d, cf := f, zf := z
      mem := m.mem.set expectedByteCount
        (BitVec.ofNat 8
          (blockLen (m.mem.dword stage2ImageSize).toNat (m.mem.word currentBlock).toNat)) } := by
  obtain ⟨a, d, rem, hrem, e⟩ := expectCount_left m h
  obtain ⟨b, f, z, e'⟩ := fullOrPartial_ok { m with
    ax := a, bx := loW rem, cx := hiW rem, dx := d, cf := false, zf := decide (hiW rem = 0) }
    rem rfl rfl
  rw [e, e', blockLen, ← hrem]
  exact ⟨a, b, hiW rem, d, f, z, rfl⟩

end VintageKvm.Stage1
