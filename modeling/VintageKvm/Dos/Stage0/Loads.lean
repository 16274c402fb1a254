import VintageKvm.Dos.Stage0.Coverage
import VintageKvm.Dos.Stage0.Words

/-!
# Stage 0: an image that is loaded

What a peer has to send over the LPT for Stage 0 to load an image, whatever is
written to the port meanwhile: the metadata and the blocks, each with its CRC,
with the phase for the low byte of every word (`Loadable`). Then every routine
goes on, and the window ends with the image (`fetch_loads`).
-/

namespace VintageKvm.Stage0

open I8086 Machine Dos Dos.LptNibble

variable {δ ι : Type} [Ports ι]

/-! ## A peer that sends -/

/-- Writes to the registers of the pump. -/
abbrev Writes (base : Word) : ι → ι → Prop :=
  Relation.ReflTransGen fun io io' => ∃ p v, pumpPorts base p ∧ io' = Ports.out p v io

/-- Whatever is written before each of them, the pump has these bytes. -/
def Feeds (base : Word) (ph : Byte) : ι → List Byte → Prop
  | _, [] => True
  | io, b :: bs => ∀ io₁, Writes base io io₁ →
    ∃ io₂, pollByte (base + LPT_STATUS) ph io₁ = (some b, ph, io₂) ∧ Feeds base ph io₂ bs

section

variable {base : Word} {ph : Byte} {io io' : ι} {bs : List Byte}

theorem Feeds.writes (h : Feeds base ph io bs) (hw : Writes base io io') :
    Feeds base ph io' bs := by
  cases bs with
  | nil => exact trivial
  | cons b bs => exact fun io₁ hw₁ => h io₁ (hw.trans hw₁)

theorem streams_feeds : Streams (base + LPT_STATUS) ph (Feeds (ι := ι) base ph) :=
  fun _ _ _ h => h _ .refl

end

/-! ## Bytes sent and received -/

/-- The memory is `mem`, DOS is at `d`, and the pump has the bytes `bs`. -/
structure Fed (base : Word) (ph : Byte) (mem : Mem) (d : δ) (bs : List Byte) (m : Machine δ ι) :
    Prop where
  mem : m.mem = mem
  dos : m.dos = d
  feeds : Feeds base ph m.io bs

section

variable {img : Image} {base : Word} {ph : Byte} {mem : Mem} {d : δ} {bs : List Byte}
  {m m' : Machine δ ι}

theorem Linked.base_eq (hl : Linked img mem (base + LPT_STATUS) ph) :
    mem.word (lptBase img) = base :=
  (BitVec.add_left_inj _).mp hl.port

namespace Fed

/-- Other registers. -/
theorem same (h : Fed base ph mem d bs m) (hm : m'.mem = m.mem) (hd : m'.dos = m.dos)
    (hio : m'.io = m.io) : Fed base ph mem d bs m' :=
  ⟨hm.trans h.mem, hd.trans h.dos, hio ▸ h.feeds⟩

/-- A byte sent, with which nothing fails. -/
theorem send (hl : Linked img mem (base + LPT_STATUS) ph) (h : Fed base ph mem d bs m) :
    Fed base ph mem d bs (sendByte img m) ∧
    ∀ {β : Type} (fail next : Machine δ ι → β), sent img fail next (sendByte img m) =
      next (sendByte img m) := by
  have hw : ∀ m' : Machine δ ι, m'.mem = m.mem → m'.dos = m.dos → m'.io = m.io →
      Fed base ph mem d bs ((lpt img).lptSendByte m') := by
    intro m' hm hd hio
    obtain ⟨c, z, e⟩ := (lpt img).lptSendByte_ok m'
    have hb : m'.mem.word (lpt img).lptBase = base := by
      rw [hm, h.mem]
      exact hl.base_eq
    rw [e, hb, hio]
    refine ⟨hm.trans h.mem, hd.trans h.dos, h.feeds.writes ?_⟩
    exact .tail (.tail (.single ⟨_, _, .inl rfl, rfl⟩) ⟨_, _, .inr rfl, rfl⟩) ⟨_, _, .inr rfl, rfl⟩
  cases img with
  | s0Xt => exact ⟨hw m rfl rfl rfl, fun _ _ => rfl⟩
  | s0AtPs2 aux =>
    have hch : m.mem (currentChannel aux) = CHAN_LPT := (congrFun h.mem _).trans hl.channel
    have e : sendByte (.s0AtPs2 aux) m =
        ((lpt (.s0AtPs2 aux)).lptSendByte
          (m.cmpb (·.byte (currentChannel aux)) (imm CHAN_LPT))).clc := by
      rw [sendByte, AtPs2.sendByte, jnz_neg (decide_eq_true hch)]
    rw [e]
    exact ⟨(hw (m.cmpb (·.byte (currentChannel aux)) (imm CHAN_LPT)) rfl rfl rfl).same rfl rfl rfl,
      fun _ _ => jc_neg rfl⟩

/-- A byte received. -/
theorem recv (hl : Linked img mem (base + LPT_STATUS) ph) {b : Byte}
    (h : Fed base ph mem d (b :: bs) m) : Fed base ph mem d bs (recvByte img m) ∧
      (recvByte img m).cf = false ∧ (recvByte img m).ax = ofBytes ph b := by
  obtain ⟨z, got, io, e, hrest⟩ := recvByte_lpt streams_feeds (h.mem.symm ▸ hl) h.feeds
  rw [e]
  exact ⟨⟨h.mem, h.dos, hrest⟩, rfl, rfl⟩

end Fed

/-! ## One block -/

variable (img) in
/-- The memory with a block received: its length, its bytes and its CRC. -/
def blockMem (mem : Mem) (k : Nat) (data : List Byte) (crc : Word) : Mem :=
  ((mem.set (blockLen img) (BitVec.ofNat 8 data.length)).store (offset k) data).setWord
    (blockCrcRecv img) crc

/-- `request_current_block`. -/
theorem Fed.requestCurrentBlock (hl : Linked img mem (base + LPT_STATUS) ph)
    (h : Fed base ph mem d bs m) : Fed base ph mem d bs (requestCurrentBlock img m) ∧
      (Stage0.requestCurrentBlock img m).cf = false := by
  obtain ⟨h₁, hsent₁⟩ :=
    (show Fed base ph mem d bs (m.movb .al (imm CMD_GET_BLOCK)) from h.same rfl rfl rfl).send hl
  rw [Stage0.requestCurrentBlock, hsent₁]
  generalize sendByte img (m.movb .al (imm CMD_GET_BLOCK)) = m₁ at h₁
  let m₂ : Machine δ ι := m₁ |>.mov .ax (·.word (currentBlock img)) |>.push (·.ax)
  obtain ⟨h₃, hsent₃⟩ := (show Fed base ph mem d bs m₂ from h₁.same rfl rfl rfl).send hl
  let m₄ : Machine δ ι := sendByte img m₂ |>.pop .ax |>.movb .al (·.reg8 .ah)
  obtain ⟨h₅, hsent₅⟩ := (show Fed base ph mem d bs m₄ from h₃.same rfl rfl rfl).send hl
  have e : sendU16 img (m₁.mov .ax (·.word (currentBlock img))) = sendByte img m₄ :=
    hsent₃ failPop _
  rw [e]
  generalize sendByte img m₄ = m₅ at h₅ hsent₅
  cases img with
  | s0Xt => exact ⟨h₅.same rfl rfl rfl, rfl⟩
  | s0AtPs2 aux =>
    refine ⟨h₅, Bool.eq_false_iff.mpr fun hcf => ?_⟩
    have hcf' : m₅.cf = true := hcf
    have hb := hsent₅ (fun _ => true) fun _ => false
    rw [sent, jc_pos hcf'] at hb
    cases hb

theorem block_above {k L : Nat} (hn : 64 * k + L ≤ 50000) : Above ⟨offset k, L⟩ := by
  refine (window_above hn).sub (Region.sub_of_le ?_)
  show (STAGE1_LOAD_OFF + BitVec.ofNat 16 (64 * k) - STAGE1_LOAD_OFF).toNat + L ≤ 64 * k + L
  rw [Region.sub_toNat _ (by omega)]

/-- Stores to the image leave what the pump reads. -/
theorem Linked.store (hl : Linked img mem (base + LPT_STATUS) ph) {k : Nat} {data : List Byte}
    (hn : 64 * k + data.length ≤ 50000) :
    Linked img (mem.store (offset k) data) (base + LPT_STATUS) ph :=
  hl.congr fun x hx => Mem.store_of_not_has _ (by omega)
    (low_not_has (block_above hn) (pumped_apart img x hx).1)

theorem Linked.setLen (hl : Linked img mem (base + LPT_STATUS) ph) (len : Byte) :
    Linked img (mem.set (blockLen img) len) (base + LPT_STATUS) ph :=
  hl.congr fun x hx => Mem.set_of_ne _ _ (pumped_apart img x hx).2.2.1

/-- `receive_current_block` up to the bytes of the block: its length is read,
and the block fits. -/
theorem Fed.opens (hl : Linked img mem (base + LPT_STATUS) ph) {k n : Nat}
    (hk : (mem.word (currentBlock img)).toNat = k)
    (hsize : (mem.word (stage1Size img)).toNat = n) (hle : n ≤ 50000) {len : Byte}
    (hlen : len.toNat ≤ 64) (hfit : 64 * k + len.toNat ≤ n) (h : Fed base ph mem d (len :: bs) m) :
    ∃ o : Machine δ ι, receiveCurrentBlock img m = o.jcxz (receiveCurrentBlockWith.recvCrc img)
        (·.loopE (receiveCurrentBlockWith.recvLoop img (·.stosb))
          (receiveCurrentBlockWith.recvCrc img)) ∧
      Fed base ph (mem.set (blockLen img) len) d bs o ∧ o.di = offset k ∧
      o.cx.toNat = len.toNat := by
  obtain ⟨rfl, rfl, hfeeds⟩ := h
  obtain ⟨z, got, io, e, hrest⟩ := recvByte_lpt streams_feeds hl hfeeds
  rcases receive_open img m hk hsize (by omega) with
    ⟨m', -, -, -, -, -, hno⟩ | ⟨len', ph', c, io', hrun, -, -, -, a, z', e', hlen'⟩
  · rw [e] at hno
    have := hno rfl
    rw [lo_ofBytes] at this
    omega
  have hopen := e.symm.trans e'
  have hax : ofBytes ph len = a := congrArg Machine.ax hopen
  obtain rfl : len = len' := by rw [← hlen', ← hax, lo_ofBytes]
  obtain rfl : io = io' := congrArg Machine.io hopen
  have hmem : m.mem = m.mem.set (lastPhase img) ph' := congrArg Machine.mem hopen
  exact ⟨_, hrun _, ⟨congrArg (Mem.set · _ _) hmem.symm, rfl, hrest⟩, rfl, toNat_byteWord _⟩

/-- `.recv_loop`: the bytes come to their place. -/
theorem Fed.recvLoop (hl : Linked img mem (base + LPT_STATUS) ph) {k : Nat} {data : List Byte}
    (hn : 64 * k + data.length ≤ 50000) (h : Fed base ph mem d (data ++ bs) m)
    (hdi : m.di = offset k) (hcx : m.cx.toNat = data.length) (next : Machine δ ι → Machine δ ι) :
    ∃ m', m.jcxz next (·.loopE (receiveCurrentBlockWith.recvLoop img (·.stosb)) next) = next m' ∧
      Fed base ph (mem.store (offset k) data) d bs m' := by
  by_cases h0 : m.cx = 0
  · rw [jcxz_pos h0]
    obtain rfl : data = [] := List.length_eq_zero_iff.mp (hcx.symm.trans (congrArg BitVec.toNat h0))
    exact ⟨m, rfl, h⟩
  rw [jcxz_neg h0]
  -- some of the bytes are in their place, the others on the link
  let I : Nat → Machine δ ι → Prop := fun j m' => ∃ taken left, data = taken ++ left ∧
    left.length = j ∧ m'.di = offset k + BitVec.ofNat 16 taken.length ∧
    Fed base ph (mem.store (offset k) taken) d (left ++ bs) m'
  let Q : Machine δ ι → Prop := fun r =>
    ∃ m', r = next m' ∧ Fed base ph (mem.store (offset k) data) d bs m'
  have hstart : I data.length m := ⟨[], data, rfl, rfl, hdi.trans (BitVec.add_zero _).symm, h⟩
  refine loopE_rule I Q (fun j m' hI _ => ?_) (fun m' hI _ => ?_) (hcx ▸ toNat_pos_of_ne h0)
    (by omega) hstart (BitVec.eq_of_toNat_eq (hcx.trans (toNat_ofNat16 (by omega)).symm))
  · obtain ⟨taken, left, hdata, hj, hdi, hfed⟩ := hI
    obtain ⟨b, left, rfl⟩ := List.exists_cons_of_length_eq_add_one hj
    have hl' : Linked img m'.mem (base + LPT_STATUS) ph := by
      rw [hfed.mem]
      exact hl.store (by rw [hdata, List.length_append] at hn; omega)
    obtain ⟨z, got, io', e, hbs⟩ := recvByte_lpt streams_feeds hl' hfed.feeds
    rw [receiveCurrentBlockWith.recvLoop, e, jc_neg rfl]
    refine ⟨rfl, taken ++ [b], left, ?_, Nat.succ.inj hj, ?_, ?_, hfed.dos, hbs⟩
    · rw [hdata, List.append_assoc, List.singleton_append]
    · show m'.di + 1 = _
      rw [hdi, List.length_append, List.length_singleton, add_ofNat_add_one]
    · show m'.mem.set m'.di (lo (ofBytes ph b)) = _
      rw [hfed.mem, lo_ofBytes, Mem.set_store _ _ hdi.symm]
  · obtain ⟨taken, left, rfl, hj, -, hfed⟩ := hI
    obtain rfl := List.length_eq_zero_iff.mp hj
    exact ⟨m', rfl, by rwa [List.append_nil]⟩

/-- `.recv_crc`. -/
theorem Fed.recvCrc (hl : Linked img mem (base + LPT_STATUS) ph) {c c' : Byte}
    (h : Fed base ph mem d ([c, c'] ++ bs) m) :
    Fed base ph (mem.setWord (blockCrcRecv img) (ofBytes c' ph)) d bs
      (receiveCurrentBlockWith.recvCrc img m) ∧
    (receiveCurrentBlockWith.recvCrc img m).cf = false := by
  obtain ⟨z, got, io, e, -, hbs⟩ :=
    recvU16_store streams_feeds (h.mem.symm ▸ hl) h.feeds (a := blockCrcRecv img)
      (by simp [wordVars]) receiveCurrentBlockWith.fail (·.clc)
  rw [receiveCurrentBlockWith.recvCrc, e]
  exact ⟨⟨congrArg (Mem.setWord · _ _) h.mem, h.dos, hbs⟩, rfl⟩

/-- `receive_current_block`. -/
theorem Fed.receiveCurrentBlock (hl : Linked img mem (base + LPT_STATUS) ph) {k n : Nat}
    {data : List Byte} {c c' : Byte} (hk : (mem.word (currentBlock img)).toNat = k)
    (hsize : (mem.word (stage1Size img)).toNat = n) (hle : n ≤ 50000)
    (hlen : data.length ≤ 64) (hfit : 64 * k + data.length ≤ n)
    (h : Fed base ph mem d (BitVec.ofNat 8 data.length :: (data ++ [c, c']) ++ bs) m) :
    Fed base ph (blockMem img mem k data (ofBytes c' ph)) d bs (receiveCurrentBlock img m) ∧
      (Stage0.receiveCurrentBlock img m).cf = false := by
  have hlv : (BitVec.ofNat 8 data.length).toNat = data.length := by
    rw [BitVec.toNat_ofNat]
    exact Nat.mod_eq_of_lt (by omega)
  rw [List.cons_append, List.append_assoc] at h
  obtain ⟨o, hopen, hfed, hdi, hcx⟩ := h.opens hl hk hsize hle (by rwa [hlv]) (by rwa [hlv])
  have hlo := hl.setLen (BitVec.ofNat 8 data.length)
  obtain ⟨m', hloop, hfed'⟩ := hfed.recvLoop hlo (by omega) hdi (hcx.trans hlv)
    (receiveCurrentBlockWith.recvCrc img)
  rw [hopen, hloop]
  exact hfed'.recvCrc (hlo.store (by omega))

section

variable {k n : Nat} {data : List Byte} {crc : Word}

theorem blockMem_frame (hlen : data.length ≤ 64) (hfit : 64 * k + data.length ≤ n) :
    Frame (piece n k :: temps img) mem (blockMem img mem k data crc) := by
  have hf : Frame (piece n k :: temps img) (mem.set (blockLen img) (BitVec.ofNat 8 data.length))
      ((mem.set (blockLen img) (BitVec.ofNat 8 data.length)).store (offset k) data) := by
    refine (Frame.store _ _ _ (by omega)).widen fun r hr => ?_
    rw [List.mem_singleton.mp hr]
    exact ⟨_, List.mem_cons_self, sub_piece hlen hfit⟩
  exact temps_set img (temps_set img ((temps_set img (.refl _ _) _ (by simp)).trans hf) _
    (by simp)) _ (by simp)

theorem blockMem_linked (hl : Linked img mem (base + LPT_STATUS) ph)
    (hn : 64 * k + data.length ≤ 50000) :
    Linked img (blockMem img mem k data crc) (base + LPT_STATUS) ph :=
  ((hl.setLen _).store hn).setWord (by simp [wordVars]) _

theorem blockMem_len (hlen : data.length ≤ 64) (hn : 64 * k + data.length ≤ 50000) :
    (blockMem img mem k data crc (blockLen img)).toNat = data.length := by
  obtain ⟨hlow, hne⟩ := temps_apart img
  rw [blockMem, Mem.setWord, Mem.set_of_ne _ _ (hne _ (by simp)),
    Mem.set_of_ne _ _ (hne _ (by simp)), Mem.store_of_not_has _ (by omega)
    (low_not_has (block_above hn) (hlow _ (by simp))), Mem.set_self, BitVec.toNat_ofNat]
  exact Nat.mod_eq_of_lt (by omega)

theorem blockMem_bytes (hn : 64 * k + data.length ≤ 50000) :
    (blockMem img mem k data crc).bytes (offset k) data.length = data := by
  obtain ⟨hlow, -⟩ := temps_apart img
  have ha : Above ⟨offset k, data.length⟩ := block_above hn
  rw [blockMem, Mem.setWord, bytes_set_low ha (by omega) (hlow _ (by simp)),
    bytes_set_low ha (by omega) (hlow _ (by simp))]
  exact Mem.bytes_store _ _ _ (by omega)

end

/-- The bytes of a block on the link. -/
def blockWire (data : List Byte) : List Byte :=
  BitVec.ofNat 8 data.length :: (data ++ [lo (Protocol.crc16 data), hi (Protocol.crc16 data)])

variable (img) in
/-- The memory after a block is accepted. -/
def acceptMem (mem : Mem) (k : Nat) (data : List Byte) : Mem :=
  (blockMem img mem k data (Protocol.crc16 data)).setWord (currentBlock img)
    (mem.word (currentBlock img) + 1)

/-- A turn at `.retry_block` accepts the block on the link. -/
theorem Fed.turn (hl : Linked img mem (base + LPT_STATUS) ph) {k n : Nat} {data : List Byte}
    (hk : (mem.word (currentBlock img)).toNat = k) (hsize : (mem.word (stage1Size img)).toNat = n)
    (hle : n ≤ 50000)
    (hlen : data.length ≤ 64) (hfit : 64 * k + data.length ≤ n)
    (hcrc : lo (Protocol.crc16 data) = ph)
    (h : Fed base ph mem d (blockWire data ++ bs) m) :
    ∃ m', turn img (.retryBlock, m) = .next (.blockLoop, m') ∧
      Fed base ph (acceptMem img mem k data) d bs m' := by
  have hword : ofBytes (hi (Protocol.crc16 data)) ph = Protocol.crc16 data := by
    rw [← hcrc, ofBytes_hi_lo]
  obtain ⟨h₁, hcf₁⟩ := h.requestCurrentBlock hl
  obtain ⟨h₂, hcf₂⟩ := h₁.receiveCurrentBlock hl hk hsize hle hlen hfit
  rw [hword] at h₂
  rw [Stage0.turn, turnWith, jc_neg hcf₁, jc_neg hcf₂]
  generalize Stage0.receiveCurrentBlock img (Stage0.requestCurrentBlock img m) = m₂ at h₂
  have hf : Frame (piece n k :: temps img) mem (blockMem img mem k data (Protocol.crc16 data)) :=
    blockMem_frame hlen hfit
  have hcur := (counters_temps img ((window_above hle).sub (piece_sub_window hle)) hf).1
  obtain ⟨a, b, dx, s, c, z, e, hok⟩ :=
    verifyBlockCrc_ok img m₂ (k := k) (by rw [h₂.mem, hcur, hk]) (by omega)
  rw [h₂.mem, blockMem_len hlen (by omega), blockMem_bytes (by omega)] at hok
  obtain rfl : c = false := hok.mpr (Mem.word_setWord ..).symm
  let m₃ : Machine δ ι :=
    { m₂ with ax := a, bx := b, cx := 0, dx := dx, si := s, cf := false, zf := z }
  have h₃ : Fed base ph (blockMem img mem k data (Protocol.crc16 data)) d bs
      (m₃.movb .al (imm CMD_ACK)) := h₂.same rfl rfl rfl
  obtain ⟨h₄, hsent⟩ := h₃.send (blockMem_linked hl (by omega))
  rw [e, jc_neg rfl]
  refine ⟨_, hsent turnWith.blockFailed fun m => .next (.blockLoop, m.incMem (currentBlock img)),
    ?_, h₄.dos, h₄.feeds⟩
  show (sendByte img (m₃.movb .al (imm CMD_ACK))).mem.setWord _ _ = _
  rw [h₄.mem, hcur, acceptMem]

/-! ## All the blocks -/

section

variable {k n : Nat} {data : List Byte}

theorem acceptMem_frame (hlen : data.length ≤ 64) (hfit : 64 * k + data.length ≤ n) :
    Frame (piece n k :: vars img) mem (acceptMem img mem k data) := by
  obtain ⟨⟨r, hr, hh⟩, ⟨r', hr', hh'⟩, -⟩ := counters_has img
  refine ((blockMem_frame hlen hfit).widen fun r hr => ?_).setWord _
    ⟨r, List.mem_cons_of_mem _ hr, hh⟩ ⟨r', List.mem_cons_of_mem _ hr', hh'⟩
  rcases List.mem_cons.mp hr with rfl | hr
  · exact ⟨_, List.mem_cons_self, .refl _⟩
  · exact ⟨r, List.mem_cons_of_mem _ (temps_sub img hr), .refl r⟩

/-- The bytes of the image up to a block accepted. -/
theorem acceptMem_bytes (hn : n ≤ 50000) (hfit : 64 * k + 64 ≤ n) (hlen : data.length = 64) :
    (acceptMem img mem k data).bytes STAGE1_LOAD_OFF (64 * (k + 1)) =
      mem.bytes STAGE1_LOAD_OFF (64 * k) ++ data := by
  obtain ⟨-, hcur, -⟩ := counters_apart img
  have hcur' : (currentBlock img + 1).toNat < 0x800 := by
    rw [BitVec.toNat_add]
    show ((currentBlock img).toNat + 1) % 65536 < _
    omega
  have ha : Above ⟨offset k, 64⟩ := block_above (by omega)
  rw [Nat.mul_succ, Mem.bytes_add]
  congr 1
  · refine Mem.bytes_congr fun i hi => ?_
    have hx : (STAGE1_LOAD_OFF + BitVec.ofNat 16 i).toNat = 0x800 + i := by
      rw [BitVec.toNat_add, toNat_ofNat16 (by omega)]
      show (0x800 + i) % 65536 = _
      omega
    have hf : Frame (piece n k :: vars img) mem (acceptMem img mem k data) :=
      acceptMem_frame (by omega) (by omega)
    exact byte_before hn (by omega) (by omega) (by omega) hf
  · show (acceptMem img mem k data).bytes (offset k) 64 = data
    rw [acceptMem, Mem.setWord, bytes_set_low ha (by omega) hcur',
      bytes_set_low ha (by omega) (by omega), ← hlen]
    exact blockMem_bytes (by omega)

end

variable (img base ph d) in
/-- The blocks `done` are in their place, and `rest` are on the link. -/
structure Staged (done rest : List (List Byte)) (m : Machine δ ι) : Prop where
  dos : m.dos = d
  linked : Linked img m.mem (base + LPT_STATUS) ph
  current : (m.mem.word (currentBlock img)).toNat = done.length
  bytes : m.mem.bytes STAGE1_LOAD_OFF (64 * done.length) = done.flatten
  feeds : Feeds base ph m.io (rest.flatMap blockWire)

section

variable {n : Nat} {done rest : List (List Byte)}

/-- Other registers, and the tries of a block. -/
theorem Staged.retries (h : Staged img base ph d done rest m) (hn : 64 * done.length ≤ 50000)
    (a : Word) (c z : Bool) (b : Byte) :
    Staged img base ph d done rest
      { m with ax := a, cf := c, zf := z, mem := m.mem.set (retryCount img) b } := by
  obtain ⟨-, -, hlow, ⟨hrc, hrc'⟩, -⟩ := counters_apart img
  refine ⟨h.dos, h.linked.congr fun x hx => Mem.set_of_ne _ _ (pumped_apart img x hx).2.2.2,
    ?_, ?_, h.feeds⟩
  · show ((m.mem.set (retryCount img) b).word (currentBlock img)).toNat = _
    rw [Mem.word_set_of_ne _ _ hrc.symm hrc'.symm]
    exact h.current
  · exact (bytes_set_low (window_above hn) (by omega) hlow b).trans h.bytes

/-- A block accepted. -/
theorem Staged.accept {data : List Byte} (h : Staged img base ph d done (data :: rest) m)
    (hsize : (m.mem.word (stage1Size img)).toNat = n) (hle : n ≤ 50000)
    (hfit : 64 * done.length + 64 ≤ n)
    (hlen : data.length = 64) (hcrc : lo (Protocol.crc16 data) = ph) :
    ∃ m', turn img (.retryBlock, m) = .next (.blockLoop, m') ∧
      Staged img base ph d (done ++ [data]) rest m' := by
  have hfed : Fed base ph m.mem m.dos (blockWire data ++ rest.flatMap blockWire) m :=
    ⟨rfl, rfl, h.feeds⟩
  obtain ⟨m', e, hmem, hdos, hfeeds⟩ :=
    hfed.turn h.linked h.current hsize hle (by omega) (by omega) hcrc
  refine ⟨m', e, hdos.trans h.dos, ?_, ?_, ?_, hfeeds⟩
  · rw [hmem]
    exact (blockMem_linked h.linked (by omega)).setWord (by simp [wordVars]) _
  · rw [hmem, acceptMem, Mem.word_setWord, BitVec.toNat_add, h.current, List.length_append,
      List.length_singleton]
    show (_ + 1) % 65536 = _
    omega
  · rw [hmem, List.length_append, List.length_singleton, acceptMem_bytes hle hfit hlen, h.bytes,
      List.flatten_append, List.flatten_singleton]

end

/-- The download goes on to the end of the image. -/
theorem downloadStage1_loads {mc : Machine δ ι} {blocks : List (List Byte)}
    (hc : Checked img (begun img mc).mem)
    (hn : ((begun img mc).mem.word (stage1Size img)).toNat = 64 * blocks.length)
    (hfull : ∀ data ∈ blocks, data.length = 64 ∧ lo (Protocol.crc16 data) = ph)
    (h : Staged img base ph d [] blocks (begun img mc)) :
    (downloadStage1 img mc).cf = false ∧ (downloadStage1 img mc).dos = d ∧
      (downloadStage1 img mc).mem.bytes STAGE1_LOAD_OFF (64 * blocks.length) = blocks.flatten := by
  have hle : 64 * blocks.length ≤ 50000 := hn ▸ hc.le
  let I : Label × Machine δ ι → Prop :=
    fun s => Underway img (64 * blocks.length) (begun img mc) s ∧
    ∃ done rest, blocks = done ++ rest ∧ Staged img base ph d done rest s.2 ∧
      (s.1 = .retryBlock → rest ≠ [])
  let Q : Machine δ ι → Prop := fun m' => m'.cf = false ∧ m'.dos = d ∧
    m'.mem.bytes STAGE1_LOAD_OFF (64 * blocks.length) = blocks.flatten
  have hstart : I (.blockLoop, begun img mc) :=
    ⟨.start _ _, [], blocks, rfl, h, (Label.noConfusion ·)⟩
  refine iter_rule I Q (rank img (64 * blocks.length)) (fun s ⟨hu, done, rest, hsplit, hs, hmore⟩ =>
    ?_) _ _ hstart ?_
  · have hstep := hu.step hc hn
    obtain ⟨hsize, hblocks⟩ := hu.checked hc hn
    have hlen : blocks.length = done.length + rest.length := by rw [hsplit, List.length_append]
    show (turn img s).Sat _ Q
    obtain ⟨l, m⟩ := s
    cases l with
    | blockLoop =>
      rcases turn_blockLoop img m with ⟨hge, a, z, e⟩ | ⟨hlt, a, c, z, e⟩
      · rw [e]
        rw [show (m.mem.word (stage1Blocks img)).toNat = _ from hblocks, hs.current] at hge
        obtain rfl : rest = [] := List.length_eq_zero_iff.mp (by omega)
        rw [List.append_nil] at hsplit
        subst hsplit
        exact ⟨rfl, hs.dos, hs.bytes⟩
      · rw [e] at hstep ⊢
        refine ⟨⟨hstep.1, done, rest, hsplit, hs.retries (by omega) a c z _, fun _ hnil => ?_⟩,
          hstep.2⟩
        rw [show (m.mem.word (stage1Blocks img)).toNat = _ from hblocks, hs.current, hlen, hnil,
          List.length_nil] at hlt
        omega
    | retryBlock =>
      obtain ⟨data, rest, rfl⟩ := List.exists_cons_of_ne_nil (hmore rfl)
      obtain ⟨hdata, hcrc⟩ := hfull data (hsplit ▸ List.mem_append_right _ List.mem_cons_self)
      rw [List.length_cons] at hlen
      obtain ⟨m', e, hs'⟩ := hs.accept hsize hle (by omega) hdata hcrc
      rw [e] at hstep ⊢
      exact ⟨⟨hstep.1, done ++ [data], rest,
        by rw [hsplit, List.append_assoc, List.singleton_append], hs',
        (Label.noConfusion ·)⟩, hstep.2⟩
  · show 7 * ((64 * blocks.length + 63) / 64 - _) < 524288
    omega

/-! ## The whole image -/

/-- The sum of the bytes that `verify_image_checksum` takes. -/
def sum16 (bs : List Byte) : Word := bs.foldl (fun s b => s + ofBytes 0 b) 0

theorem foldl_sum16 (bs : List Byte) (s : Word) :
    bs.foldl (fun s b => s + ofBytes 0 b) s = s + sum16 bs := by
  induction bs generalizing s with
  | nil => exact (BitVec.add_zero s).symm
  | cons b bs ih =>
    have h0 : 0 + ofBytes 0 b = ofBytes 0 b := BitVec.zero_add _
    rw [sum16, List.foldl_cons, List.foldl_cons, ih, ih (0 + ofBytes 0 b), h0, BitVec.add_assoc]

theorem sum16_append (bs bs' : List Byte) : sum16 (bs ++ bs') = sum16 bs + sum16 bs' := by
  rw [sum16, List.foldl_append, foldl_sum16 bs']
  rfl

theorem sum16_replicate (n : Nat) (bs : List Byte) :
    sum16 (List.replicate n bs).flatten = BitVec.ofNat 16 n * sum16 bs := by
  induction n with
  | zero => exact BitVec.zero_mul.symm
  | succ n ih =>
    have hsucc : BitVec.ofNat 16 (n + 1) * sum16 bs = BitVec.ofNat 16 n * sum16 bs + sum16 bs := by
      rw [BitVec.ofNat_add, BitVec.add_mul]
      exact congrArg _ (BitVec.one_mul _)
    rw [List.replicate_succ, List.flatten_cons, sum16_append, ih, hsucc, BitVec.add_comm]

omit [Ports ι] in
/-- `verify_image_checksum`. -/
theorem verifyImageChecksum_iff (m : Machine δ ι) : (verifyImageChecksum img m).cf = false ↔
    sum16 (m.mem.bytes STAGE1_LOAD_OFF (m.mem.word (stage1Size img)).toNat) =
      m.mem.word (stage1Sum16 img) := by
  generalize hn : (m.mem.word (stage1Size img)).toNat = n
  let body : Machine δ ι → Machine δ ι := fun m => m |>.lodsb |>.xorb .ah (·.reg8 .ah)
    |>.add .bx (·.ax)
  let m₁ : Machine δ ι := m |>.mov .si (imm STAGE1_LOAD_OFF) |>.mov .cx (·.word (stage1Size img))
    |>.xorw .bx (·.bx)
  let I : Nat → Machine δ ι → Prop :=
    fun k m' => k ≤ n ∧ m'.si = STAGE1_LOAD_OFF + BitVec.ofNat 16 (n - k) ∧
    m'.bx = sum16 (m.mem.bytes STAGE1_LOAD_OFF (n - k)) ∧ m'.mem = m.mem
  have hbody : ∀ k m', I (k + 1) m' → m'.cx = BitVec.ofNat 16 (k + 1) → (body m').cx = m'.cx ∧
      I k ((body m').dec .cx) := by
    rintro k m' ⟨hk, hsi, hbx, hmem⟩ -
    have hsucc : n - k = n - (k + 1) + 1 := by omega
    refine ⟨rfl, by omega, ?_, ?_, hmem⟩
    · show m'.si + 1 = _
      rw [hsi, hsucc, add_ofNat_add_one]
    · show m'.bx +
        ofBytes (hi (ofBytes (hi m'.ax) (m'.mem m'.si)) ^^^ hi (ofBytes (hi m'.ax) (m'.mem m'.si)))
        (lo (ofBytes (hi m'.ax) (m'.mem m'.si))) = _
      rw [BitVec.xor_self, lo_ofBytes, hbx, hmem, hsi, hsucc, Mem.bytes_succ, sum16, sum16,
        List.foldl_append]
      rfl
  have h₁ : I n m₁ := by
    refine ⟨le_rfl, ?_, ?_, rfl⟩
    · rw [Nat.sub_self]
      exact (BitVec.add_zero _).symm
    · rw [Nat.sub_self]
      exact BitVec.xor_self
  have hcx : m₁.cx = BitVec.ofNat 16 n :=
    BitVec.eq_of_toNat_eq (hn.trans (toNat_ofNat16 (by omega)).symm)
  obtain ⟨⟨-, -, hbx, hmem⟩, -⟩ := whileCx_rule I hbody (by omega) h₁ hcx
  show (jnz (cmp (m₁.whileCx body) (·.bx) (·.word (stage1Sum16 img))) (·.stc) (·.clc)).cf = false ↔
    _
  generalize m₁.whileCx body = m₂ at hbx hmem
  rw [Nat.sub_zero] at hbx
  let P : Machine δ ι → Prop := fun m' => m'.cf = false ↔
    sum16 (m.mem.bytes STAGE1_LOAD_OFF n) = m.mem.word (stage1Sum16 img)
  have hz : (m₂.cmp (·.bx) (·.word (stage1Sum16 img))).zf =
      decide (sum16 (m.mem.bytes STAGE1_LOAD_OFF n) = m.mem.word (stage1Sum16 img)) := by
    rw [← hbx, ← hmem]
    rfl
  refine jnz_cases (P := P) (fun hne => ?_) fun heq => ?_
  · exact iff_of_false Bool.noConfusion (of_decide_eq_false (hz.symm.trans hne))
  · exact iff_of_true rfl (of_decide_eq_true (hz.symm.trans heq))

/-- An image that can be loaded over the LPT with the last phase `ph`: the low
byte of every word that the peer sends is the phase. -/
structure Loadable (ph : Byte) (blocks : List (List Byte)) : Prop where
  pos : blocks ≠ []
  le : 64 * blocks.length ≤ 50000
  full : ∀ data ∈ blocks, data.length = 64 ∧ lo (Protocol.crc16 data) = ph
  size : lo (BitVec.ofNat 16 (64 * blocks.length)) = ph
  count : lo (BitVec.ofNat 16 blocks.length) = ph
  sum : lo (sum16 blocks.flatten) = ph

/-- The metadata and the blocks of an image on the link. -/
def imageWire (blocks : List (List Byte)) : List Byte :=
  let size : Word := BitVec.ofNat 16 (64 * blocks.length)
  let count : Word := BitVec.ofNat 16 blocks.length
  let sum := sum16 blocks.flatten
  [lo size, hi size, lo count, hi count, lo sum, hi sum] ++ blocks.flatMap blockWire

/-- The metadata of an image comes with its blocks to follow. -/
theorem getStage1Meta_loads {blocks : List (List Byte)}
    (hl : Linked img m.mem (base + LPT_STATUS) ph) (hb : Loadable ph blocks)
    (h : Feeds base ph m.io (imageWire blocks)) :
    let m₁ := getStage1Meta img m
    m₁.cf = false ∧ Fed base ph m₁.mem m.dos (blocks.flatMap blockWire) m₁ ∧
      Linked img m₁.mem (base + LPT_STATUS) ph ∧ Checked img m₁.mem ∧
      (m₁.mem.word (stage1Size img)).toNat = 64 * blocks.length ∧
      m₁.mem.word (stage1Sum16 img) = sum16 blocks.flatten := by
  intro m₁
  have hword : ∀ w : Word, lo w = ph → ofBytes (hi w) ph = w := fun w hw => hw ▸ ofBytes_hi_lo w
  obtain ⟨hfed, -⟩ :=
    (show Fed base ph m.mem m.dos (imageWire blocks) (m.movb .al (imm CMD_GET_META)) from
      ⟨rfl, rfl, h⟩).send hl
  obtain ⟨z, got, io, e, hl₁, hfeeds⟩ := getStage1Meta_lpt streams_feeds hl hfed.feeds
  rw [hword _ hb.size, hword _ hb.count, hword _ hb.sum] at e hl₁
  obtain ⟨hsize, hcount, hsum⟩ := metaMem_words img m.mem (BitVec.ofNat 16 (64 * blocks.length))
    (BitVec.ofNat 16 blocks.length) (sum16 blocks.flatten)
  generalize metaMem img m.mem (BitVec.ofNat 16 (64 * blocks.length))
    (BitVec.ofNat 16 blocks.length) (sum16 blocks.flatten) = mem₁ at e hl₁ hsize hcount hsum
  have hle := hb.le
  have hpos := List.length_pos_iff.mpr hb.pos
  have hn : (mem₁.word (stage1Size img)).toNat = 64 * blocks.length := by
    rw [hsize, toNat_ofNat16 (by omega)]
  have hchecked : Checked img mem₁ := by
    refine ⟨by omega, by omega, ?_⟩
    rw [hn, hcount, toNat_ofNat16 (by omega)]
    omega
  rw [show m₁ = _ from e]
  exact ⟨rfl, ⟨rfl, rfl, hfeeds⟩, hl₁, hchecked, hn, hsum⟩

/-- From the metadata to the checksum, and the image is in its place. -/
theorem fetch_loads {blocks : List (List Byte)} (hl : Linked img m.mem (base + LPT_STATUS) ph)
    (hb : Loadable ph blocks) (h : Feeds base ph m.io (imageWire blocks)) :
    let m₁ := getStage1Meta img m
    let m₂ := checkStage1Size img m₁
    let m₃ := downloadStage1 img m₂
    m₁.cf = false ∧ m₂.cf = false ∧ m₃.cf = false ∧ (verifyImageChecksum img m₃).cf = false ∧
      m₃.dos = m.dos ∧ m₃.mem.bytes STAGE1_LOAD_OFF (64 * blocks.length) = blocks.flatten := by
  intro m₁ m₂ m₃
  obtain ⟨hcf₁, hfed, hl₁, hchecked, hn, hsum⟩ := getStage1Meta_loads hl hb h
  obtain ⟨a, w, c, z, e₂, hok⟩ := checkStage1Size_ok img m₁
  have hcf₂ : m₂.cf = false := (congrArg Machine.cf e₂).trans (hok.mpr hchecked)
  obtain ⟨-, hc₀, hs₀, hcur₀, hf₀⟩ := begun_ok img m₁ hcf₂
  have hn₀ : ((begun img m₂).mem.word (stage1Size img)).toNat = 64 * blocks.length :=
    (congrArg BitVec.toNat hs₀).trans hn
  have hstaged : Staged img base ph m.dos [] blocks (begun img m₂) := by
    refine ⟨?_, ?_, congrArg BitVec.toNat hcur₀, rfl, ?_⟩
    · exact (congrArg Machine.dos e₂).trans hfed.dos
    · have hmem : (begun img m₂).mem = m₁.mem.setWord (currentBlock img) 0 := by
        simp only [m₂, e₂, begun, xorw, stw, reg, setReg, imm, BitVec.xor_self]
        rfl
      rw [hmem]
      exact hl₁.setWord (by simp [wordVars]) _
    · have hio : m₂.io = m₁.io := by rw [show m₂ = _ from e₂]
      exact hio ▸ hfed.feeds
  obtain ⟨hcf₃, hdos₃, hbytes⟩ := downloadStage1_loads hc₀ hn₀ hb.full hstaged
  have hk := downloadStage1_kept img hc₀ hn₀
  have hfixed : ∀ a ∈ [stage1Size img, stage1Sum16 img], m₃.mem.word a = m₁.mem.word a := by
    intro a ha
    have hfix :=
      fixed_words img a (by simp only [List.mem_cons, List.not_mem_nil, or_false] at ha ⊢; tauto)
    rw [Fixed.word hfix (window_above hb.le) hk.mem,
      Fixed.word hfix (window_above (Nat.zero_le _)) hf₀]
  refine ⟨hcf₁, hcf₂, hcf₃, (verifyImageChecksum_iff m₃).mpr ?_, hdos₃, hbytes⟩
  rw [hfixed _ (by simp), hfixed _ (by simp), hn, hbytes, hsum]

end

/-! ## On a bus -/

/-- The status reads with which a byte is taken: each nibble twice, with the
phase up and then down. -/
def statuses (b : Byte) : List Byte :=
  List.replicate 2 (STAT_PHASE ||| (b &&& 0x0F) <<< 3) ++ List.replicate 2 ((b &&& 0xF0) >>> 1)

theorem nibbleOf_statuses :
    ∀ b : Byte, (STAT_PHASE ||| (b &&& 0x0F) <<< 3) &&& STAT_PHASE = STAT_PHASE ∧
    ((b &&& 0xF0) >>> 1) &&& STAT_PHASE = 0 ∧
    nibbleOf ((b &&& 0xF0) >>> 1) <<< 4 ||| nibbleOf (STAT_PHASE ||| (b &&& 0x0F) <<< 3) = b := by
  decide +kernel

section

variable {base : Word} {b b' : Bus}

/-- The reads from the next on are these. -/
def Reads (b : Bus) (ss : List Byte) : Prop :=
  ∀ i, (h : i < ss.length) → b.reads (b.polled + i) = ss.get ⟨i, h⟩

theorem reads_getD {ss : List Byte} (hr : b.reads = fun i => ss.getD i 0) (hp : b.polled = 0) :
    Reads b ss := by
  intro i hi
  rw [hr, hp, Nat.zero_add]
  show ss.getD i 0 = ss.get ⟨i, hi⟩
  rw [List.getD_eq_getElem?_getD, List.getElem?_eq_getElem hi]
  rfl

theorem Reads.cons {s : Byte} {ss : List Byte} (h : Reads b (s :: ss)) {p : Word}
    (h₁ : p ≠ Bus.PIC1_DATA) (h₂ : p ≠ Bus.PIC2_DATA) :
    (Ports.inp p b).1 = s ∧ Reads (Ports.inp p b).2 ss := by
  simp only [Ports.inp, if_neg h₁, if_neg h₂]
  refine ⟨h 0 (Nat.succ_pos _), fun i hi => ?_⟩
  rw [Nat.add_assoc, Nat.add_comm 1 i]
  exact h (i + 1) (Nat.succ_lt_succ hi)

/-- A nibble is taken with two reads of the other phase. -/
theorem pollNibble_reads (ph : Byte) {s : Byte} {ss : List Byte} (h : Reads b (s :: s :: ss))
    (hs : s &&& STAT_PHASE ≠ ph) {p : Word} (h₁ : p ≠ Bus.PIC1_DATA)
    (h₂ : p ≠ Bus.PIC2_DATA) (n : Nat) :
    ∃ b', pollNibble p ph (n + 1) b = (some s, b') ∧ Reads b' ss := by
  obtain ⟨hs₁, hr₁⟩ := h.cons h₁ h₂
  obtain ⟨hs₂, hr₂⟩ := hr₁.cons h₁ h₂
  exact ⟨_, by simp only [pollNibble, hs₁, hs₂, hs, if_false], hr₂⟩

theorem writes_reads (h : Writes base b b') : b'.reads = b.reads ∧ b'.polled = b.polled := by
  induction h with
  | refl => exact ⟨rfl, rfl⟩
  | tail _ hw ih =>
    obtain ⟨p, v, -, rfl⟩ := hw
    simp only [Ports.out]
    split
    · exact ih
    · split <;> exact ih

theorem feeds_of_reads (h₁ : base + LPT_STATUS ≠ Bus.PIC1_DATA)
    (h₂ : base + LPT_STATUS ≠ Bus.PIC2_DATA) {bs : List Byte}
    (h : Reads b (bs.flatMap statuses)) : Feeds base 0 b bs := by
  induction bs generalizing b with
  | nil => exact trivial
  | cons x bs ih =>
    intro b₁ hw
    obtain ⟨hreads, hpolled⟩ := writes_reads hw
    have h' : Reads b₁ (statuses x ++ bs.flatMap statuses) := by
      rw [Reads, hreads, hpolled]
      exact h
    obtain ⟨hup, hdown, hx⟩ := nibbleOf_statuses x
    obtain ⟨b₂, e₂, hr₂⟩ := pollNibble_reads 0 h' (by rw [hup]; decide) h₁ h₂ (POLLS - 1)
    obtain ⟨b₃, e₃, hr₃⟩ :=
      pollNibble_reads STAT_PHASE hr₂ (by rw [hdown]; decide) h₁ h₂ (POLLS - 1)
    refine ⟨b₃, ?_, ih hr₃⟩
    rw [pollByte_some e₂ (hup.symm ▸ e₃), hx, hdown]

end

end VintageKvm.Stage0
