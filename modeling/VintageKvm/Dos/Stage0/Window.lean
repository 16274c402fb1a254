import VintageKvm.Dos.Stage0.Receive

/-!
# Stage 0: what the download writes

After `check_stage1_size` every store of a block's bytes lies in the window
that the size announces, no product or sum of the block arithmetic overflows,
and of Stage 0 itself the download changes its own variables only.
-/

namespace VintageKvm.Stage0

open I8086 Machine Dos

variable {δ ι : Type} [Ports ι] (img : Image)

/-! ## The routines around a block -/

/-- `m'` differs from `m` in AX and flags, and was reached by bytes sent. -/
def Sends (m m' : Machine δ ι) : Prop :=
  ∃ a c z io, m' = { m with ax := a, cf := c, zf := z, io := io } ∧
    Drives (linkPorts img m.mem) m.io io

section

variable {img}

theorem Sends.trans {m₁ m₂ m₃ : Machine δ ι} (h₁ : Sends img m₁ m₂) (h₂ : Sends img m₂ m₃) :
    Sends img m₁ m₃ := by
  obtain ⟨a, c, z, io, rfl, hd⟩ := h₁
  obtain ⟨a', c', z', io', rfl, hd'⟩ := h₂
  exact ⟨a', c', z', io', rfl, hd.trans hd'⟩

theorem Sends.kept {m m' : Machine δ ι} (h : Sends img m m') (w : Region) (vs : List Region) :
    Kept img w vs m m' := by
  obtain ⟨a, c, z, io, rfl, hd⟩ := h
  exact ⟨rfl, rfl, rfl, rfl, rfl, .refl _ _, hd⟩

omit [Ports ι] in
theorem sent_cases {β : Type} {P : β → Prop} {m : Machine δ ι} {fail next : Machine δ ι → β}
    (hf : P (fail m)) (hn : P (next m)) : P (sent img fail next m) := by
  cases img with
  | s0Xt => exact hn
  | s0AtPs2 _ => exact jc_cases (fun _ => hf) fun _ => hn

end

theorem sendByte_sends (m : Machine δ ι) : Sends img m (sendByte img m) := by
  obtain ⟨c, z, io, e, hd⟩ := sendByte_ok img m
  exact ⟨m.ax, c, z, io, e, hd⟩

theorem sendU16_sends (m : Machine δ ι) : Sends img m (sendU16 img m) := by
  obtain ⟨c, z, io, e, hd⟩ := sendByte_ok img (m.push (·.ax))
  rw [sendU16, e]
  refine sent_cases (P := Sends img m) ⟨m.ax, true, z, io, rfl, hd⟩ ?_
  let m₁ : Machine δ ι := { m with ax := ofBytes (hi m.ax) (hi m.ax), cf := c, zf := z, io := io }
  have h₁ : Sends img m m₁ := ⟨_, c, z, io, rfl, hd⟩
  exact h₁.trans (sendByte_sends img m₁)

theorem requestCurrentBlock_sends (m : Machine δ ι) : Sends img m (requestCurrentBlock img m) := by
  obtain ⟨c, z, io, e, hd⟩ := sendByte_ok img (m.movb .al (imm CMD_GET_BLOCK))
  rw [requestCurrentBlock, e]
  refine sent_cases (P := Sends img m) ⟨_, true, z, io, rfl, hd⟩ ?_
  let m₁ : Machine δ ι := { m with ax := m.mem.word (currentBlock img), cf := c, zf := z, io := io }
  have h₁ : Sends img m m₁ := ⟨_, c, z, io, rfl, hd⟩
  obtain ⟨a', c', z', io', e', hd'⟩ := h₁.trans (sendU16_sends img m₁)
  show Sends img m (requestCurrentBlock.ret img (sendU16 img m₁))
  rw [e']
  cases img with
  | s0Xt => exact ⟨a', false, z', io', rfl, hd'⟩
  | s0AtPs2 _ => exact ⟨a', c', z', io', rfl, hd'⟩

omit [Ports ι] in
/-- `verify_block_crc`: the CRC of the block's bytes against the word that
came with it. -/
theorem verifyBlockCrc_ok (m : Machine δ ι) {k : Nat}
    (hk : (m.mem.word (currentBlock img)).toNat = k) (h : 64 * k < 65536) :
    ∃ a b d s c z, verifyBlockCrc img m =
      { m with ax := a, bx := b, cx := 0, dx := d, si := s, cf := c, zf := z } ∧
      (c = false ↔ Protocol.crc16 (m.mem.bytes (offset k) (m.mem (blockLen img)).toNat) =
        m.mem.word (blockCrcRecv img)) := by
  generalize hlen : m.mem (blockLen img) = len
  obtain ⟨hlo, hhi⟩ := mul_block hk h
  have ho : offset k = BitVec.ofNat 16 (64 * k) + STAGE1_LOAD_OFF := BitVec.add_comm _ _
  have h0 : hi (0 : Word) = 0 := rfl
  obtain ⟨c₀, hstart⟩ :
    ∃ c, (m |>.mov .ax (·.word (currentBlock img)) |>.mov .bx (imm BLOCK_SIZE) |>.mul .bx
      |>.add .ax (imm STAGE1_LOAD_OFF) |>.mov .si (·.ax) |>.xorw .cx (·.cx)
      |>.movb .cl (·.byte (blockLen img))) =
      { m with
      ax := offset k, bx := BLOCK_SIZE, cx := ofBytes 0 len, dx := 0, si := offset k, cf := c,
      zf := true } := by
    simp only [mov, mul, add, xorw, movb, setReg, reg, setReg8, word, byte, imm,
      BitVec.xor_self, hlo, hhi, ho, hlen]
    exact ⟨_, rfl⟩
  obtain ⟨b, s, c, z, e⟩ := Stage1.crc16Ccitt_bytes { m with
    ax := offset k, bx := BLOCK_SIZE, cx := ofBytes 0 len, dx := 0, si := offset k,
    cf := c₀, zf := true }
  simp only [toNat_byteWord] at e
  generalize Protocol.crc16 (m.mem.bytes (offset k) len.toNat) = crc at e ⊢
  let P : Machine δ ι → Prop := fun m' => ∃ a b d s c z,
    m' = { m with ax := a, bx := b, cx := 0, dx := d, si := s, cf := c, zf := z } ∧
      (c = false ↔ crc = m.mem.word (blockCrcRecv img))
  show P (verifyBlockCrc img m)
  rw [verifyBlockCrc, hstart, crc16CcittBuf, e]
  refine jnz_cases (fun hz => ?_) fun hz => ?_
  · refine ⟨crc, b, crc, s, true, decide (crc = m.mem.word (blockCrcRecv img)), rfl,
      fun h => ?_, fun h => ?_⟩
    · cases h
    · exact absurd h (of_decide_eq_false hz)
  · exact ⟨crc, b, crc, s, false, decide (crc = m.mem.word (blockCrcRecv img)), rfl,
      fun _ => of_decide_eq_true hz, fun _ => rfl⟩

/-! ## A turn -/

/-- Block `k` of an image of `n` bytes was received and its CRC verified: the
bytes the peer sent for it are in their place. -/
structure Accepted (n k : Nat) (data : List Byte) (m m' : Machine δ ι) : Prop where
  length_le : data.length ≤ 64
  fits : 64 * k + data.length ≤ n
  got : ∃ crc, crc.length = 2 ∧ m'.got = m.got ++ (BitVec.ofNat 8 data.length :: data ++ crc)
  crc : Protocol.crc16 data = m'.mem.word (blockCrcRecv img)
  stored : m'.mem.bytes (offset k) data.length = data

/-- What a turn at `.retry_block` comes to: the download fails, the block is
asked for again, or it is accepted. -/
inductive Retried (n k : Nat) (m : Machine δ ι) : Flow (Label × Machine δ ι) (Machine δ ι) → Prop
  | failed {m' : Machine δ ι} : m'.cf = true → Kept img (piece n k) (vars img) m m' →
    Retried n k m (.done m')
  | rejected {m' : Machine δ ι} : Kept img (piece n k) (vars img) m m' →
      m'.mem.word (currentBlock img) = m.mem.word (currentBlock img) →
      m'.mem (retryCount img) = m.mem (retryCount img) - 1 → m'.mem (retryCount img) ≠ 0 →
      Retried n k m (.next (.retryBlock, m'))
  | accepted {m' : Machine δ ι} {data : List Byte} : Kept img (piece n k) (vars img) m m' →
      m'.mem.word (currentBlock img) = m.mem.word (currentBlock img) + 1 →
      Accepted img n k data m m' →
      Retried n k m (.next (.blockLoop, m'))

/-- The counters of the download are none of the variables of
`receive_current_block`, and lie apart. -/
theorem counters_apart :
      (∀ r ∈ temps img, ¬ r.Has (currentBlock img) ∧ ¬ r.Has (currentBlock img + 1) ∧
      ¬ r.Has (retryCount img)) ∧
    (currentBlock img).toNat < 0x7FF ∧ (retryCount img).toNat < 0x800 ∧
    (retryCount img ≠ currentBlock img ∧ retryCount img ≠ currentBlock img + 1) ∧
    blockCrcRecv img ≠ currentBlock img ∧ blockCrcRecv img + 1 ≠ currentBlock img ∧
    blockCrcRecv img ≠ currentBlock img + 1 ∧ blockCrcRecv img + 1 ≠ currentBlock img + 1 := by
  cases img with
  | s0Xt => decide +kernel
  | s0AtPs2 aux => cases aux <;> decide +kernel

theorem counters_temps {w : Region} (hw : Above w) {mem mem' : Mem}
    (h : Frame (w :: temps img) mem mem') :
    mem'.word (currentBlock img) = mem.word (currentBlock img) ∧
      mem' (retryCount img) = mem (retryCount img) := by
  obtain ⟨htemps, hc, hr, -⟩ := counters_apart img
  have hlow : ∀ a : Word, a.toNat < 0x800 → (∀ r ∈ temps img, ¬ r.Has a) → ∀ r ∈ w :: temps img,
      ¬ r.Has a := fun a ha hno r hr =>
    (List.mem_cons.mp hr).elim (fun e => e ▸ low_not_has hw ha) (hno r)
  have hc₁ : (currentBlock img + 1).toNat < 0x800 := by
    rw [BitVec.toNat_add]
    show ((currentBlock img).toNat + 1) % 65536 < _
    omega
  exact ⟨h.word (hlow _ (by omega) fun r h => (htemps r h).1)
    (hlow _ hc₁ fun r h => (htemps r h).2.1), h.byte (hlow _ hr fun r h => (htemps r h).2.2)⟩

theorem counters_has :
    (∃ r ∈ vars img, r.Has (currentBlock img)) ∧ (∃ r ∈ vars img, r.Has (currentBlock img + 1)) ∧
    ∃ r ∈ vars img, r.Has (retryCount img) := by
  cases img with
  | s0Xt => decide +kernel
  | s0AtPs2 aux => cases aux <;> decide +kernel

theorem turn_retried (m : Machine δ ι) {k n : Nat} (hk : (m.mem.word (currentBlock img)).toNat = k)
    (hn : (m.mem.word (stage1Size img)).toNat = n) (hle : n ≤ 50000) (hlt : 64 * k < n) :
    Retried img n k m (turn img (.retryBlock, m)) := by
  let P : Flow (Label × Machine δ ι) (Machine δ ι) → Prop := Retried img n k m
  have ha : Above (piece n k) := (window_above hle).sub (piece_sub_window hle)
  have hall : vars img ⊆ vars img := fun _ h => h
  obtain ⟨-, hlow, hrlow, ⟨hrc, hrc'⟩, hbc, hbc₁, hbc', hbc₁'⟩ := counters_apart img
  obtain ⟨hhas, hhas', hrhas⟩ := counters_has img
  have hin : ∀ {a : Word}, (∃ r ∈ vars img, r.Has a) → ∃ r ∈ piece n k :: vars img,
      r.Has a := fun ⟨r, hr, h⟩ =>
    ⟨r, List.mem_cons_of_mem _ hr, h⟩
  have hfailed : ∀ m', Kept img (piece n k) (vars img) m m' →
      P (turnWith.blockFailed m') := fun m' h =>
    .failed rfl ⟨h.cs, h.ds, h.es, h.stk, h.dos, h.mem, h.link⟩
  -- a byte sent after what `receive_current_block` keeps
  have hsend : ∀ m' m₁, Kept img (piece n k) (temps img) m m' → Sends img m' m₁ →
      Kept img (piece n k) (vars img) m m₁ :=
    fun m' m₁ h hs => (h.widen (.refl _) (temps_sub img)).trans ha hall (hs.kept _ _)
  have hnak : ∀ m', Kept img (piece n k) (temps img) m m' → P (turnWith.sendNak img m') := by
    intro m' hkept
    obtain ⟨hcur, hretry⟩ := counters_temps img ha hkept.mem
    obtain ⟨c, z, io, e, hd⟩ := sendByte_ok img (m'.movb .al (imm CMD_NAK))
    let m₁ : Machine δ ι := { m'.movb .al (imm CMD_NAK) with cf := c, zf := z, io := io }
    have h₁ : Kept img (piece n k) (vars img) m m₁ := hsend m' m₁ hkept ⟨_, c, z, io, rfl, hd⟩
    let m₂ : Machine δ ι := m₁.decMemb (retryCount img)
    have h₂ : Kept img (piece n k) (vars img) m m₂ :=
      ⟨h₁.cs, h₁.ds, h₁.es, h₁.stk, h₁.dos, h₁.mem.set _ (hin hrhas), h₁.link⟩
    have hval : m₂.mem (retryCount img) = m.mem (retryCount img) - 1 := by
      show (m'.mem.set (retryCount img) (m'.mem (retryCount img) - 1)) (retryCount img) = _
      rw [Mem.set_self, hretry]
    rw [turnWith.sendNak, e]
    show P (m₂.jnz _ _)
    refine jnz_cases (fun hz => .rejected h₂ ?_ hval ?_) fun _ => hfailed m₂ h₂
    · show (m'.mem.set (retryCount img) _).word (currentBlock img) = _
      rw [Mem.word_set_of_ne _ _ hrc.symm hrc'.symm, hcur]
    · have hne : ¬ m'.mem (retryCount img) - 1 = 0 := of_decide_eq_false hz
      rw [hval, ← hretry]
      exact hne
  show P (turnWith img (receiveCurrentBlock img) (verifyBlockCrc img) (.retryBlock, m))
  rw [turnWith]
  have hreq := requestCurrentBlock_sends img m
  generalize requestCurrentBlock img m = m₁ at hreq
  have hk₁ : Kept img (piece n k) (temps img) m m₁ := hreq.kept _ _
  have hmem₁ : m₁.mem = m.mem ∧ m₁.got = m.got := by
    obtain ⟨a, c, z, io, rfl, -⟩ := hreq
    exact ⟨rfl, rfl⟩
  refine jc_cases (fun _ => hfailed m₁ (hk₁.widen (.refl _) (temps_sub img))) fun _ => ?_
  have hrec := receive_ok img m₁ (hmem₁.1 ▸ hk) (hmem₁.1 ▸ hn) hle hlt
  generalize receiveCurrentBlock img m₁ = m₂ at hrec
  have hk₂ : Kept img (piece n k) (temps img) m m₂ := hk₁.trans ha (temps_sub img) hrec.kept
  refine jc_cases (fun _ => hnak m₂ hk₂) fun hcf => ?_
  obtain ⟨len, data, crc, hl, hlen, hfit, hcrc, hgot, hbytes, hlv⟩ := hrec.ok hcf
  obtain ⟨hcur, -⟩ := counters_temps img ha hk₂.mem
  obtain ⟨a, b, d, s, c, z, e, hok⟩ := verifyBlockCrc_ok img m₂ (hcur ▸ hk) (by omega)
  rw [e]
  let m₃ : Machine δ ι := { m₂ with ax := a, bx := b, cx := 0, dx := d, si := s, cf := c, zf := z }
  have hk₃ : Kept img (piece n k) (temps img) m m₃ :=
    ⟨hk₂.cs, hk₂.ds, hk₂.es, hk₂.stk, hk₂.dos, hk₂.mem, hk₂.link⟩
  show P (m₃.jc _ _)
  refine jc_cases (fun _ => hnak m₃ hk₃) fun hcf₃ => ?_
  obtain ⟨c', z', io', e', hd'⟩ := sendByte_ok img (m₃.movb .al (imm CMD_ACK))
  let m₄ : Machine δ ι := { m₃.movb .al (imm CMD_ACK) with cf := c', zf := z', io := io' }
  have hk₄ : Kept img (piece n k) (vars img) m m₄ := hsend m₃ m₄ hk₃ ⟨_, c', z', io', rfl, hd'⟩
  rw [e']
  show P (sent img _ _ m₄)
  refine sent_cases (hfailed m₄ hk₄) (Retried.accepted ?_ ?_ (?_ : Accepted img n k data m _))
  · exact ⟨hk₄.cs, hk₄.ds, hk₄.es, hk₄.stk, hk₄.dos, hk₄.mem.setWord _ (hin hhas)
      (hin hhas'), hk₄.link⟩
  · show (m₂.mem.setWord (currentBlock img)
      (m₂.mem.word (currentBlock img) + 1)).word (currentBlock img) = _
    rw [Mem.word_setWord, hcur]
  · have hlow₁ : (currentBlock img + 1).toNat < 0x800 := by
      rw [BitVec.toNat_add]
      show ((currentBlock img).toNat + 1) % 65536 < _
      omega
    have hb : Above ⟨offset k, data.length⟩ := ha.sub (sub_piece (hl ▸ hlen) (hl ▸ hfit))
    refine ⟨hl ▸ hlen, hl ▸ hfit, ⟨crc, hcrc, ?_⟩, ?_, ?_⟩
    · show m₂.got = _
      rw [hgot, hmem₁.2, hl, BitVec.ofNat_toNat, BitVec.setWidth_eq]
    · show _ = (m₂.mem.setWord (currentBlock img) _).word (blockCrcRecv img)
      rw [Mem.word_setWord_of_ne _ _ hbc hbc₁ hbc' hbc₁', ← hok.mp hcf₃, hlv, hbytes]
    · show ((m₂.mem.set (currentBlock img) _).set (currentBlock img + 1) _).bytes
        (offset k) data.length = data
      rw [bytes_set_low hb (by omega) hlow₁, bytes_set_low hb (by omega) (by omega), hl, hbytes]

/-! ## The loop -/

/-- Where `download_stage1`, begun in `m₀` with an image of `n` bytes, comes
by: at `.retry_block` there is a block and a try left. -/
structure Underway (n : Nat) (m₀ : Machine δ ι) (s : Label × Machine δ ι) : Prop where
  kept : Kept img (window n) (vars img) m₀ s.2
  more : s.1 = .retryBlock → 64 * (s.2.mem.word (currentBlock img)).toNat < n ∧
    s.2.mem (retryCount img) ≠ 0

/-- Blocks to come, and tries: what every turn lowers. -/
def rank (n : Nat) : Label × Machine δ ι → Nat
  | (.blockLoop, m) => 7 * ((n + 63) / 64 - (m.mem.word (currentBlock img)).toNat)
  | (.retryBlock, m) =>
    7 * ((n + 63) / 64 - ((m.mem.word (currentBlock img)).toNat + 1)) +
      (m.mem (retryCount img)).toNat

section

variable {img} {n : Nat} {m₀ : Machine δ ι}

theorem Checked.word {mem mem' : Mem} {w : Region} (hw : Above w)
    (h : Frame (w :: vars img) mem mem') : mem'.word (stage1Size img) = mem.word (stage1Size img) ∧
      mem'.word (stage1Blocks img) = mem.word (stage1Blocks img) :=
  ⟨Fixed.word (fixed_words img _ (by simp)) hw h, Fixed.word (fixed_words img _ (by simp)) hw h⟩

/-- The metadata stays while the download is under way. -/
theorem Underway.checked {s : Label × Machine δ ι} (hu : Underway img n m₀ s)
    (h : Checked img m₀.mem) (hn : (m₀.mem.word (stage1Size img)).toNat = n) :
    (s.2.mem.word (stage1Size img)).toNat = n ∧
      (s.2.mem.word (stage1Blocks img)).toNat = (n + 63) / 64 := by
  obtain ⟨hs, hb⟩ := Checked.word (window_above (hn ▸ h.le)) hu.kept.mem
  rw [hs, hb, h.blocks, hn]
  exact ⟨rfl, rfl⟩

/-- A turn at `.block_loop`. -/
theorem turn_blockLoop (img : Image) (m : Machine δ ι) :
    ((m.mem.word (stage1Blocks img)).toNat ≤ (m.mem.word (currentBlock img)).toNat ∧
      ∃ a z, turn img (.blockLoop, m) = .done { m with ax := a, cf := false, zf := z }) ∨
    ((m.mem.word (currentBlock img)).toNat < (m.mem.word (stage1Blocks img)).toNat ∧
      ∃ a c z, turn img (.blockLoop, m) =
        .next
          (.retryBlock,
            { m with
              ax := a, cf := c, zf := z, mem := m.mem.set (retryCount img) BLOCK_RETRIES })) := by
  let P : Flow (Label × Machine δ ι) (Machine δ ι) → Prop := fun f =>
    ((m.mem.word (stage1Blocks img)).toNat ≤ (m.mem.word (currentBlock img)).toNat ∧
      ∃ a z, f = .done { m with ax := a, cf := false, zf := z }) ∨
    ((m.mem.word (currentBlock img)).toNat < (m.mem.word (stage1Blocks img)).toNat ∧
      ∃ a c z, f = .next (.retryBlock,
        { m with ax := a, cf := c, zf := z, mem := m.mem.set (retryCount img) BLOCK_RETRIES }))
  show P (turn img (.blockLoop, m))
  rw [turn, turnWith]
  refine jnc_cases (fun hc => .inl ⟨?_, _, _, rfl⟩) fun hc => .inr ⟨?_, _, _, _, rfl⟩
  · exact not_lt.mp (of_decide_eq_false hc)
  · exact of_decide_eq_true hc

/-- One turn keeps `Underway` and lowers the rank; it leaves having kept the
same. -/
theorem Underway.step (h : Checked img m₀.mem) (hn : (m₀.mem.word (stage1Size img)).toNat = n)
    {s : Label × Machine δ ι} (hu : Underway img n m₀ s) :
    (turn img s).Sat (fun s' => Underway img n m₀ s' ∧ rank img n s' < rank img n s)
      (Kept img (window n) (vars img) m₀) := by
  obtain ⟨hsize, hblocks⟩ := hu.checked h hn
  have hle : n ≤ 50000 := hn ▸ h.le
  have ha : Above (window n) := window_above hle
  have htrans : ∀ {m m' : Machine δ ι} {k : Nat}, Kept img (window n) (vars img) m₀ m →
      Kept img (piece n k) (vars img) m m' → Kept img (window n) (vars img) m₀ m' := fun h₁ h₂ =>
    h₁.trans ha (fun _ h => h) (h₂.widen (piece_sub_window hle) fun _ h => h)
  obtain ⟨hhas, -, hrhas⟩ := counters_has img
  obtain ⟨-, -, -, ⟨hrc, hrc'⟩, -⟩ := counters_apart img
  obtain ⟨l, m⟩ := s
  cases l with
  | blockLoop =>
    have hset : ∀ a c z mem', Frame (window n :: vars img) m.mem mem' →
        Kept img (window n) (vars img) m₀ { m with ax := a, cf := c, zf := z, mem := mem' } :=
        fun a c z mem' hf =>
      hu.kept.trans ha (fun _ h => h) ⟨rfl, rfl, rfl, rfl, rfl, hf, .refl⟩
    rcases turn_blockLoop img m with ⟨-, a, z, e⟩ | ⟨hlt, a, c, z, e⟩
    · rw [e]
      exact hset a false z m.mem (.refl _ _)
    · rw [e]
      have hcur : (m.mem.set (retryCount img) BLOCK_RETRIES).word (currentBlock img) =
          m.mem.word (currentBlock img) :=
        Mem.word_set_of_ne _ _ hrc.symm hrc'.symm
      have hretry : (m.mem.set (retryCount img) BLOCK_RETRIES) (retryCount img) = BLOCK_RETRIES :=
        Mem.set_self _ _ _
      obtain ⟨r, hr, hh⟩ := hrhas
      rw [show (m.mem.word (stage1Blocks img)).toNat = (n + 63) / 64 from hblocks] at hlt
      refine ⟨⟨hset a c z _ ((Frame.refl _ _).set _ ⟨r, List.mem_cons_of_mem _ hr, hh⟩),
        fun _ => ⟨?_, ?_⟩⟩, ?_⟩
      · show 64 * ((m.mem.set (retryCount img) BLOCK_RETRIES).word (currentBlock img)).toNat < n
        rw [hcur]
        omega
      · show (m.mem.set (retryCount img) BLOCK_RETRIES) (retryCount img) ≠ 0
        rw [hretry]
        decide
      · show 7 *
          (_ - (((m.mem.set (retryCount img) BLOCK_RETRIES).word (currentBlock img)).toNat + 1)) +
          ((m.mem.set (retryCount img) BLOCK_RETRIES) (retryCount img)).toNat < 7 * _
        rw [hcur, hretry, show (BLOCK_RETRIES : Byte).toNat = 5 from rfl]
        omega
  | retryBlock =>
    obtain ⟨hlt, hne⟩ := hu.more rfl
    have hpos : 0 < (m.mem (retryCount img)).toNat :=
      Nat.pos_of_ne_zero fun h0 => hne (BitVec.eq_of_toNat_eq h0)
    have ht := turn_retried img m rfl hsize hle hlt
    generalize turn img (.retryBlock, m) = f at ht
    cases ht with
    | failed _ hk => exact htrans hu.kept hk
    | rejected hk hcur hretry hne' =>
      refine ⟨⟨htrans hu.kept hk, fun _ => ⟨?_, hne'⟩⟩, ?_⟩
      · rwa [hcur]
      · rw [rank, rank, hcur, hretry]
        have : (m.mem (retryCount img) - 1).toNat + 1 = (m.mem (retryCount img)).toNat := by
          bv_omega
        omega
    | accepted hk hcur hacc =>
      refine ⟨⟨htrans hu.kept hk, (Label.noConfusion ·)⟩, ?_⟩
      have hnext : (m.mem.word (currentBlock img) + 1).toNat =
          (m.mem.word (currentBlock img)).toNat + 1 := by
        have hlt' : 64 * (m.mem.word (currentBlock img)).toNat < n := hlt
        rw [BitVec.toNat_add]
        show (_ + 1) % 65536 = _
        omega
      rw [rank, rank, hcur, hnext]
      omega

end

/-! ## Stores and arithmetic -/

/-- No product or sum of the block arithmetic leaves 16 bits. -/
def NoWrap (mem : Mem) : Prop :=
  STAGE1_LOAD_OFF.toNat + 64 * (mem.word (currentBlock img)).toNat + 64 < 65536

instance (mem : Mem) : Decidable (NoWrap img mem) := inferInstanceAs (Decidable (_ < _))

/-- `receive_current_block`; `trap` where a byte goes outside an image of `n`
bytes or the arithmetic wraps. -/
def guardedReceive (n : Nat) (trap : Machine δ ι → Machine δ ι) (m : Machine δ ι) : Machine δ ι :=
  if NoWrap img m.mem then receiveCurrentBlockWith img (guardedStosb n trap) m else trap m

omit [Ports ι] in
/-- `verify_block_crc`; `trap` where the arithmetic wraps. -/
def guardedVerify (trap : Machine δ ι → Machine δ ι) (m : Machine δ ι) : Machine δ ι :=
  if NoWrap img m.mem then verifyBlockCrc img m else trap m

variable {img} {n : Nat} {m₀ : Machine δ ι}

/-- No trap is taken while the download is under way. -/
theorem Underway.guarded (h : Checked img m₀.mem) (hn : (m₀.mem.word (stage1Size img)).toNat = n)
    (trap : Machine δ ι → Machine δ ι) {s : Label × Machine δ ι} (hu : Underway img n m₀ s) :
    turnWith img (guardedReceive img n trap) (guardedVerify img trap) s = turn img s := by
  obtain ⟨hsize, -⟩ := hu.checked h hn
  have hle : n ≤ 50000 := hn ▸ h.le
  obtain ⟨l, m⟩ := s
  cases l with
  | blockLoop => rfl
  | retryBlock =>
    have hlt : 64 * (m.mem.word (currentBlock img)).toNat < n := (hu.more rfl).1
    have hwrap : ∀ mem : Mem, mem.word (currentBlock img) = m.mem.word (currentBlock img) →
        NoWrap img mem := by
      intro mem hcur
      rw [NoWrap, hcur]
      show 0x800 + _ + 64 < 65536
      omega
    rw [turn, turnWith, turnWith]
    have hreq := requestCurrentBlock_sends img m
    generalize requestCurrentBlock img m = m₁ at hreq
    have hmem : m₁.mem = m.mem := by
      obtain ⟨a, c, z, io, rfl, -⟩ := hreq
      rfl
    show m₁.jc _ _ = m₁.jc _ _
    cases hc : m₁.cf with
    | true => rw [jc_pos hc, jc_pos hc]
    | false =>
      have hguard : guardedReceive img n trap m₁ = receiveCurrentBlock img m₁ := by
        rw [guardedReceive, if_pos (hwrap m₁.mem (by rw [hmem]))]
        exact receive_guarded img trap m₁ rfl (hmem ▸ hsize) hle (hmem ▸ hlt)
      have hkept := (receive_ok img m₁ rfl (hmem ▸ hsize) hle (hmem ▸ hlt)).kept
      rw [jc_neg hc, jc_neg hc, hguard]
      generalize receiveCurrentBlock img m₁ = m₂ at hkept
      have hcur := (counters_temps img ((window_above hle).sub (piece_sub_window hle)) hkept.mem).1
      rw [hmem] at hcur
      show m₂.jc _ _ = m₂.jc _ _
      cases hc₂ : m₂.cf with
      | true => rw [jc_pos hc₂, jc_pos hc₂]
      | false => rw [jc_neg hc₂, jc_neg hc₂, guardedVerify, if_pos (hwrap _ hcur)]

theorem Underway.start (n : Nat) (m₀ : Machine δ ι) : Underway img n m₀ (.blockLoop, m₀) :=
  ⟨.refl _ _ _, (Label.noConfusion ·)⟩

variable (img)

omit [Ports ι] in
/-- The state in which `download_stage1` comes to `.block_loop` first. -/
def begun (m : Machine δ ι) : Machine δ ι :=
  m |>.xorw .ax (·.ax) |>.stw (imm (currentBlock img)) (·.ax)

omit [Ports ι] in
theorem begun_ok (m : Machine δ ι) (h : (checkStage1Size img m).cf = false) :
    let m₀ := begun img (checkStage1Size img m)
    Checked img m.mem ∧ Checked img m₀.mem ∧
      m₀.mem.word (stage1Size img) = m.mem.word (stage1Size img) ∧
      m₀.mem.word (currentBlock img) = 0 ∧ Frame (window 0 :: vars img) m.mem m₀.mem := by
  intro m₀
  obtain ⟨a, w, c, z, e, hok⟩ := checkStage1Size_ok img m
  have hc : Checked img m.mem := hok.mp (by rw [e] at h; exact h)
  have hmem : m₀.mem = m.mem.setWord (currentBlock img) 0 := by
    simp only [m₀, e, begun, xorw, stw, reg, setReg, imm, BitVec.xor_self]
    rfl
  obtain ⟨⟨r, hr, hh⟩, ⟨r', hr', hh'⟩, -⟩ := counters_has img
  have hf : Frame (window 0 :: vars img) m.mem m₀.mem := by
    rw [hmem]
    exact (Frame.refl _ _).setWord _ ⟨r, List.mem_cons_of_mem _ hr, hh⟩ ⟨r',
      List.mem_cons_of_mem _ hr', hh'⟩
  obtain ⟨hs, hb⟩ := Checked.word (window_above (Nat.zero_le _)) hf
  refine ⟨hc, ⟨?_, ?_, ?_⟩, hs, ?_, hf⟩
  · rw [hs]
    exact hc.pos
  · rw [hs]
    exact hc.le
  · rw [hs, hb]
    exact hc.blocks
  · rw [hmem, Mem.word_setWord]

/-- `download_stage1` keeps what its turns keep. -/
theorem downloadStage1_kept {mc : Machine δ ι} (hc₀ : Checked img (begun img mc).mem)
    (hn : ((begun img mc).mem.word (stage1Size img)).toNat = n) :
    Kept img (window n) (vars img) (begun img mc) (downloadStage1 img mc) := by
  refine iter_rule (Underway img n (begun img mc)) _ (rank img n) (fun s hu => hu.step hc₀ hn) _ _
    (.start n _) ?_
  have hle : n ≤ 50000 := hn ▸ hc₀.le
  show 7 * ((n + 63) / 64 - _) < 524288
  omega

/-- Whatever the peer sends, the download of an image of `n` bytes takes no
trap, and writes to the window of `n` bytes and its own variables only. -/
theorem downloadStage1_in_window (m : Machine δ ι) (h : (checkStage1Size img m).cf = false) :
    let n := (m.mem.word (stage1Size img)).toNat
    (1 ≤ n ∧ n ≤ 50000) ∧
    (∀ trap, downloadStage1With img (guardedReceive img n trap) (guardedVerify img trap)
      (checkStage1Size img m) = downloadStage1 img (checkStage1Size img m)) ∧
    Frame (window n :: vars img) m.mem (downloadStage1 img (checkStage1Size img m)).mem := by
  intro n
  obtain ⟨hc, hc₀, hs₀, -, hf₀⟩ := begun_ok img m h
  generalize hm : checkStage1Size img m = mc at hc₀ hs₀ hf₀ ⊢
  have hn : ((begun img mc).mem.word (stage1Size img)).toNat = n := congrArg BitVec.toNat hs₀
  have hstart : Underway img n (begun img mc) (.blockLoop, begun img mc) := .start n _
  refine ⟨⟨hc.pos, hc.le⟩, fun trap => ?_, ?_⟩
  · refine iter_congr (Underway img n (begun img mc)) (fun s hu => hu.guarded hc₀ hn trap)
      (fun s s' hu hs => ?_) _ _ hstart
    have hstep := hu.step hc₀ hn
    rw [show turn img s = .next s' from hs] at hstep
    exact hstep.1
  · refine Frame.trans (hf₀.widen fun r hr => ?_) (downloadStage1_kept img hc₀ hn).mem
    rcases List.mem_cons.mp hr with rfl | hr
    · exact ⟨window n, List.mem_cons_self,
        Region.sub_of_le (by rw [BitVec.sub_self]; exact Nat.zero_le _)⟩
    · exact ⟨r, List.mem_cons_of_mem _ hr, .refl r⟩

/-- Stage 0 with this metadata, on ports that read `reads`. -/
def announced (size blocks : Word) (reads : Nat → Byte) : Machine Unit Bus where
  ax := 0
  bx := 0
  cx := 0
  dx := 0
  si := 0
  di := 0
  cs := 0
  ds := 0
  es := 0
  cf := false
  zf := false
  stk := []
  mem := (Mem.setWord (fun _ => 0) (stage1Size img) size).setWord (stage1Blocks img) blocks
  got := []
  dos := ()
  io := ⟨0, 0, reads, 0, []⟩

/-- What a peer on the keyboard channel has for one block. -/
def heard (block crc : List Byte) : List Byte :=
  [0x00, 0x00, 0x00] ++ (BitVec.ofNat 8 block.length :: block ++ crc).flatMap ([0x01, ·]) ++ [0x00]

/-- S0_AT on the keyboard channel, with the metadata of an image of 66 bytes and
a peer that sends its two blocks. -/
def twoBlocks : Machine Unit Bus :=
  let m : Machine Unit Bus := announced (.s0AtPs2 false) 66 2
    ((heard (List.replicate 64 0x61) [0x07, 0xA8] ++ heard [0x62, 0x63] [0x82, 0x2C]).getD · 0)
  { m with mem := m.mem.set (currentChannel false) CHAN_KBD }

theorem downloadStage1_in_window_twoBlocks : let m := checkStage1Size (.s0AtPs2 false) twoBlocks
    (downloadStage1 (.s0AtPs2 false) m).cf = false ∧
    downloadStage1With (.s0AtPs2 false) (guardedReceive (.s0AtPs2 false) 66 (·.stc))
      (guardedVerify (.s0AtPs2 false) (·.stc)) m = downloadStage1 (.s0AtPs2 false) m ∧
    Frame (window 66 :: vars (.s0AtPs2 false)) twoBlocks.mem
    (downloadStage1 (.s0AtPs2 false) m).mem :=
  ⟨by decide +kernel,
    (downloadStage1_in_window (.s0AtPs2 false) twoBlocks (by decide +kernel)).2.imp
      (fun h => h (·.stc)) id⟩

end VintageKvm.Stage0
