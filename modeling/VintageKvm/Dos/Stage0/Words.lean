import VintageKvm.Dos.Stage0.Window

/-!
# Stage 0: sixteen-bit words over the nibble pump

`recv_u16` keeps the low byte in AH while it receives the high one, and
`lpt_recv_nibble` uses AH for the phase: over the LPT the low byte of a word
comes out as the phase bit (`recvU16_lpt`). `words_iff` says when that is the
byte that was sent, for a word, for the metadata and for the CRC of a block.
-/

namespace VintageKvm.Stage0

open I8086 Machine Dos Dos.LptNibble

variable {δ ι : Type} [Ports ι]

/-! ## What the pump delivers -/

/-- What so many bytes polled for one after another come to. -/
def pollBytes (p : Word) : Nat → Byte → ι → List (Option Byte)
  | 0, _, _ => []
  | n + 1, ph, io =>
    let (b, ph', io') := pollByte p ph io
    b :: pollBytes p n ph' io'

/-- The pump has these bytes, after any number of polls before each nibble. -/
def Delivers (p : Word) (ph : Byte) (io : ι) (bs : List Byte) : Prop :=
  pollBytes p bs.length ph io = bs.map some

theorem Delivers.cons {p : Word} {ph b : Byte} {io : ι} {bs : List Byte}
    (h : Delivers p ph io (b :: bs)) :
    ∃ ph' io', pollByte p ph io = (some b, ph', io') ∧ Delivers p ph' io' bs := by
  generalize hpoll : pollByte p ph io = r
  obtain ⟨b', ph', io'⟩ := r
  simp only [Delivers, List.length_cons, pollBytes, hpoll, List.map_cons, List.cons.injEq] at h
  exact ⟨ph', io', by rw [h.1], h.2⟩

/-- One of the two phases. -/
def IsPhase (ph : Byte) : Prop := ph = 0 ∨ ph = STAT_PHASE

theorem isPhase_and (s : Byte) : IsPhase (s &&& STAT_PHASE) := by
  revert s
  show ∀ s : Byte, s &&& STAT_PHASE = 0 ∨ s &&& STAT_PHASE = STAT_PHASE
  decide +kernel

/-- What is polled for differs from the phase. -/
theorem pollNibble_phase {p : Word} {ph s : Byte} {n : Nat} {io io' : ι}
    (h : pollNibble p ph n io = (some s, io')) : s &&& STAT_PHASE ≠ ph := by
  induction n generalizing io with
  | zero => cases h
  | succ n ih =>
    simp only [pollNibble] at h
    split at h
    · exact ih h
    · split at h
      · exact ih h
      · cases h
        assumption

/-- Two nibbles bring the phase back. -/
theorem pollByte_phase {p : Word} {ph b ph' : Byte} {io io' : ι} (hph : IsPhase ph)
    (h : pollByte p ph io = (some b, ph', io')) : ph' = ph := by
  rw [pollByte] at h
  split at h
  · cases h
  · rename_i s io₁ h₁
    split at h
    · cases h
    · rename_i s' io₂ h₂
      cases h
      have hne := pollNibble_phase h₁
      have hne' := pollNibble_phase h₂
      rcases hph with rfl | rfl <;> rcases isPhase_and s with hs | hs <;>
        rcases isPhase_and s' with hs' | hs' <;>
        simp_all

/-- On ports of which `D io bs` holds the pump has the bytes `bs`, and each
poll leaves such ports. -/
def Streams (p : Word) (ph : Byte) (D : ι → List Byte → Prop) : Prop :=
  ∀ ⦃io b bs⦄, D io (b :: bs) → ∃ io', pollByte p ph io = (some b, ph, io') ∧ D io' bs

theorem streams_delivers {p : Word} {ph : Byte} (hph : IsPhase ph) :
    Streams p ph (Delivers (ι := ι) p ph) := by
  intro io b bs h
  obtain ⟨ph', io', hpoll, hrest⟩ := h.cons
  obtain rfl := pollByte_phase hph hpoll
  exact ⟨io', hpoll, hrest⟩

/-! ## The routines over the LPT -/

section Lpt

variable (img : Image)

/-- The bytes go over the LPT. -/
def OnLpt (mem : Mem) : Prop :=
  match img with
  | .s0Xt => True
  | .s0AtPs2 aux => mem (currentChannel aux) = CHAN_LPT

/-- The bytes go over the LPT at the status port `p`, and the last phase is
`ph`. -/
structure Linked (mem : Mem) (p : Word) (ph : Byte) : Prop where
  channel : OnLpt img mem
  port : mem.word (lptBase img) + LPT_STATUS = p
  phase : mem (lastPhase img) = ph
  isPhase : IsPhase ph

/-- The bytes that this is told of. -/
def pumped : List Word :=
  match img with
  | .s0Xt => [lptBase .s0Xt, lptBase .s0Xt + 1, lastPhase .s0Xt]
  | .s0AtPs2 aux =>
    [lptBase (.s0AtPs2 aux), lptBase (.s0AtPs2 aux) + 1, lastPhase (.s0AtPs2 aux),
      currentChannel aux]

theorem mem_pumped :
    lptBase img ∈ pumped img ∧ lptBase img + 1 ∈ pumped img ∧ lastPhase img ∈ pumped img := by
  cases img <;> simp [pumped]

/-- The words that the download stores. -/
def wordVars : List Word :=
  [stage1Size img, stage1Blocks img, stage1Sum16 img, blockCrcRecv img, currentBlock img]

/-- What the download stores is none of what the pump reads. -/
theorem pumped_apart : ∀ x ∈ pumped img, x.toNat < 0x800 ∧ (∀ a ∈ wordVars img, x ≠ a ∧ x ≠ a + 1) ∧
    x ≠ blockLen img ∧ x ≠ retryCount img := by
  simp only [← List.forall_iff_forall_mem]
  cases img with
  | s0Xt => decide +kernel
  | s0AtPs2 aux => cases aux <;> decide +kernel

/-- Two words with no byte in common. -/
def Apart (a x : Word) : Prop := a ≠ x ∧ a + 1 ≠ x ∧ a ≠ x + 1 ∧ a + 1 ≠ x + 1

theorem base_apart {a : Word} (ha : a ∈ wordVars img) : Apart (lptBase img) a := by
  obtain ⟨-, h, -⟩ := pumped_apart img _ (mem_pumped img).1
  obtain ⟨-, h', -⟩ := pumped_apart img _ (mem_pumped img).2.1
  exact ⟨(h a ha).1, (h' a ha).1, (h a ha).2, (h' a ha).2⟩

theorem meta_apart :
    Apart (stage1Size img) (stage1Blocks img) ∧ Apart (stage1Size img) (stage1Sum16 img) ∧
    Apart (stage1Blocks img) (stage1Sum16 img) := by
  unfold Apart
  cases img with
  | s0Xt => decide
  | s0AtPs2 aux => cases aux <;> decide

/-- The memory with these words for the metadata. -/
def metaMem (mem : Mem) (size blocks sum : Word) : Mem :=
  mem |>.setWord (stage1Size img) size |>.setWord (stage1Blocks img) blocks
    |>.setWord (stage1Sum16 img) sum

theorem metaMem_words (mem : Mem) (size blocks sum : Word) :
    (metaMem img mem size blocks sum).word (stage1Size img) = size ∧
    (metaMem img mem size blocks sum).word (stage1Blocks img) = blocks ∧
    (metaMem img mem size blocks sum).word (stage1Sum16 img) = sum := by
  obtain ⟨⟨hs₁, hs₂, hs₃, hs₄⟩, ⟨ht₁, ht₂, ht₃, ht₄⟩, hb₁, hb₂, hb₃, hb₄⟩ := meta_apart img
  unfold metaMem
  refine ⟨?_, ?_, Mem.word_setWord ..⟩
  · rw [Mem.word_setWord_of_ne _ _ ht₁ ht₂ ht₃ ht₄, Mem.word_setWord_of_ne _ _ hs₁ hs₂ hs₃ hs₄,
      Mem.word_setWord]
  · rw [Mem.word_setWord_of_ne _ _ hb₁ hb₂ hb₃ hb₄, Mem.word_setWord]

variable {img} {p : Word} {ph : Byte} {D : ι → List Byte → Prop}

theorem Linked.congr {mem mem' : Mem} (hl : Linked img mem p ph)
    (h : ∀ x ∈ pumped img, mem' x = mem x) : Linked img mem' p ph := by
  obtain ⟨hb, hb', hph⟩ := mem_pumped img
  refine ⟨?_, ?_, (h _ hph).trans hl.phase, hl.isPhase⟩
  · cases img with
    | s0Xt => exact trivial
    | s0AtPs2 aux => exact (h (currentChannel aux) (by simp [pumped])).trans hl.channel
  · rw [Mem.word, h _ hb, h _ hb']
    exact hl.port

theorem Linked.setWord {mem : Mem} (hl : Linked img mem p ph) {a : Word}
    (ha : a ∈ wordVars img) (w : Word) : Linked img (mem.setWord a w) p ph := by
  refine hl.congr fun x hx => ?_
  obtain ⟨h, h'⟩ := (pumped_apart img x hx).2.1 a ha
  exact (Mem.set_of_ne _ _ h').trans (Mem.set_of_ne _ _ h)

/-- `recv_byte` over the LPT: the byte in AL, the phase in AH. -/
theorem recvByte_lpt (hD : Streams p ph D) {m : Machine δ ι} {b : Byte} {bs : List Byte}
    (hl : Linked img m.mem p ph) (h : D m.io (b :: bs)) :
    ∃ z got io, recvByte img m = { m with
      ax := ofBytes ph b, zf := z, cf := false, got := got, io := io } ∧ D io bs := by
  obtain ⟨io', hpoll, hrest⟩ := hD h
  rw [← hl.port, ← hl.phase, ← lpt_lastPhase] at hpoll
  have hrecv (c z : Bool) : ∃ z' got io,
    (lpt img).lptRecvByte { m with cf := c, zf := z } = { m with
      ax := ofBytes ph b, zf := z', cf := false, got := got, io := io } ∧ io = io' := by
    obtain ⟨a, z', e, ha⟩ := (lpt img).lptRecvByte_ok { m with cf := c, zf := z } hpoll
    rw [e, ha b rfl, Mem.set_eq_self, lpt_lastPhase, hl.phase]
    exact ⟨z', _, io', rfl, rfl⟩
  cases img with
  | s0Xt =>
    obtain ⟨z, got, io, e, rfl⟩ := hrecv m.cf m.zf
    exact ⟨z, got, io, e, hrest⟩
  | s0AtPs2 aux =>
    have hch : m.mem (currentChannel aux) = CHAN_LPT := hl.channel
    obtain ⟨z, got, io, e, rfl⟩ :=
      hrecv (decide ((m.mem (currentChannel aux)).toNat < CHAN_LPT.toNat))
      (decide (m.mem (currentChannel aux) = CHAN_LPT))
    refine ⟨z, got, io, ?_, hrest⟩
    rw [recvByte, AtPs2.recvByte, jnz_neg (decide_eq_true hch)]
    exact e

/-- `recv_u16` over the LPT: the high byte, and the phase for the low one. -/
theorem recvU16_lpt (hD : Streams p ph D) {m : Machine δ ι} {b b' : Byte} {bs : List Byte}
    (hl : Linked img m.mem p ph) (h : D m.io (b :: b' :: bs)) :
    ∃ z got io, recvU16 img m = { m with
      ax := ofBytes b' ph, zf := z, cf := false, got := got, io := io } ∧ D io bs := by
  obtain ⟨z, got, io, e, h₁⟩ := recvByte_lpt hD hl h
  let m₁ : Machine δ ι := { m with ax := ofBytes b b, zf := z, cf := false, got := got, io := io }
  obtain ⟨z', got', io', e', h₂⟩ := recvByte_lpt (m := m₁) hD hl h₁
  refine ⟨z', got', io', ?_, h₂⟩
  have hm₁ : movb { m with ax := ofBytes ph b, zf := z, cf := false, got := got, io := io } .ah
      (·.reg8 .al) = m₁ := by
    simp only [movb, setReg8, reg8, lo_ofBytes, m₁]
  rw [recvU16, e, jc_neg rfl]
  simp only [hm₁]
  rw [e', jc_neg rfl]
  simp only [xchgAlAh, clc, hi_ofBytes, lo_ofBytes, m₁]

/-- `recv_u16` and a store. -/
theorem recvU16_store (hD : Streams p ph D) {m : Machine δ ι} {b b' : Byte} {bs : List Byte}
    (hl : Linked img m.mem p ph) (h : D m.io (b :: b' :: bs)) {a : Word}
    (ha : a ∈ wordVars img) (fail next : Machine δ ι → Machine δ ι) :
    ∃ z got io, (recvU16 img m).jc fail (fun m => m |>.stw (imm a) (·.ax) |> next) = next { m with
        ax := ofBytes b' ph, zf := z, cf := false, mem := m.mem.setWord a (ofBytes b' ph),
        got := got, io := io } ∧
      Linked img (m.mem.setWord a (ofBytes b' ph)) p ph ∧ D io bs := by
  obtain ⟨z, got, io, e, hrest⟩ := recvU16_lpt hD hl h
  refine ⟨z, got, io, ?_, hl.setWord ha _, hrest⟩
  rw [e, jc_neg rfl]
  rfl

/-- A byte sent over the LPT does not fail. -/
theorem sent_lpt {m : Machine δ ι} (hl : Linked img m.mem p ph)
    (fail next : Machine δ ι → Machine δ ι) :
    ∃ c z, sent img fail next (sendByte img m) =
      next { m with cf := c, zf := z, io := (sendByte img m).io } := by
  cases img with
  | s0Xt =>
    obtain ⟨c, z, e⟩ := (lpt .s0Xt).lptSendByte_ok m
    refine ⟨c, z, ?_⟩
    rw [sendByte, sent, e]
  | s0AtPs2 aux =>
    have hch : m.mem (currentChannel aux) = CHAN_LPT := hl.channel
    obtain ⟨c, z, e⟩ :=
      (lpt (.s0AtPs2 aux)).lptSendByte_ok (m.cmpb (·.byte (currentChannel aux)) (imm CHAN_LPT))
    refine ⟨false, z, ?_⟩
    rw [sendByte, sent, AtPs2.sendByte, jnz_neg (decide_eq_true hch), e]
    rfl

/-- `get_stage1_meta` over the LPT. -/
theorem getStage1Meta_lpt (hD : Streams p ph D) {m : Machine δ ι} {a a' b b' c c' : Byte}
    {bs : List Byte} (hl : Linked img m.mem p ph)
    (h : D (sendByte img (m.movb .al (imm CMD_GET_META))).io ([a, a', b, b', c, c'] ++ bs)) :
    ∃ z got io, getStage1Meta img m = { m with
        ax := ofBytes c' ph, zf := z, cf := false,
        mem := metaMem img m.mem (ofBytes a' ph) (ofBytes b' ph) (ofBytes c' ph)
        got := got, io := io } ∧
      Linked img (metaMem img m.mem (ofBytes a' ph) (ofBytes b' ph) (ofBytes c' ph)) p ph ∧
      D io bs := by
  obtain ⟨c₀, z₀, e₀⟩ := sent_lpt (m := m.movb .al (imm CMD_GET_META)) hl (getStage1Meta.fail)
    (fun m => m |> recvU16 img |>.jc getStage1Meta.fail fun m => m
      |>.stw (imm (stage1Size img)) (·.ax) |>
      recvU16 img |>.jc getStage1Meta.fail fun m => m |>.stw (imm (stage1Blocks img)) (·.ax) |>
        recvU16 img |>.jc getStage1Meta.fail fun m => m |>.stw (imm (stage1Sum16 img))
        (·.ax) |>.clc)
  let m₀ : Machine δ ι := { m.movb .al (imm CMD_GET_META) with
    cf := c₀, zf := z₀, io := (sendByte img (m.movb .al (imm CMD_GET_META))).io }
  obtain ⟨z₁, got₁, io₁, e₁, hl₁, h₁⟩ :=
    recvU16_store (m := m₀) hD hl h (a := stage1Size img) (by simp [wordVars]) getStage1Meta.fail
    (fun m => m |> recvU16 img |>.jc getStage1Meta.fail fun m => m
      |>.stw (imm (stage1Blocks img)) (·.ax) |>
      recvU16 img |>.jc getStage1Meta.fail fun m => m |>.stw (imm (stage1Sum16 img)) (·.ax) |>.clc)
  let m₁ : Machine δ ι := { m₀ with
    ax := ofBytes a' ph, zf := z₁, cf := false,
    mem := m₀.mem.setWord (stage1Size img) (ofBytes a' ph), got := got₁, io := io₁ }
  obtain ⟨z₂, got₂, io₂, e₂, hl₂, h₂⟩ :=
    recvU16_store (m := m₁) hD hl₁ h₁ (a := stage1Blocks img) (by simp [wordVars])
    getStage1Meta.fail
    (fun m => m |> recvU16 img |>.jc getStage1Meta.fail fun m => m |>.stw (imm (stage1Sum16 img))
      (·.ax) |>.clc)
  let m₂ : Machine δ ι := { m₁ with
    ax := ofBytes b' ph, zf := z₂, cf := false,
    mem := m₁.mem.setWord (stage1Blocks img) (ofBytes b' ph), got := got₂, io := io₂ }
  obtain ⟨z₃, got₃, io₃, e₃, hl₃, h₃⟩ :=
    recvU16_store (m := m₂) hD hl₂ h₂ (a := stage1Sum16 img) (by simp [wordVars])
    getStage1Meta.fail (·.clc)
  refine ⟨z₃, got₃, io₃, ?_, hl₃, h₃⟩
  rw [getStage1Meta, e₀]
  exact e₁.trans (e₂.trans e₃)

/-- Over the LPT a word of the protocol arrives as it was sent if and only if
its low byte is the phase: the word that `recv_u16` returns, each word of the
metadata, and the CRC that a block is checked against. -/
theorem words_iff (m : Machine δ ι) (hl : Linked img m.mem p ph) :
    (∀ w, Delivers p ph m.io [lo w, hi w] → (recvU16 img m).cf = false ∧
      ((recvU16 img m).ax = w ↔ lo w = ph)) ∧
    (∀ size blocks sum, Delivers p ph (sendByte img (m.movb .al (imm CMD_GET_META))).io
        [lo size, hi size, lo blocks, hi blocks, lo sum, hi sum] →
      (getStage1Meta img m).cf = false ∧
      (((getStage1Meta img m).mem.word (stage1Size img) = size ∧
        (getStage1Meta img m).mem.word (stage1Blocks img) = blocks ∧
        (getStage1Meta img m).mem.word (stage1Sum16 img) = sum) ↔ lo size = ph ∧ lo blocks = ph ∧
          lo sum = ph)) ∧
    (∀ crc, Delivers p ph m.io [lo crc, hi crc] →
      (receiveCurrentBlockWith.recvCrc img m).cf = false ∧
      ((receiveCurrentBlockWith.recvCrc img m).mem.word (blockCrcRecv img) = crc ↔
        lo crc = ph)) := by
  have hword (w : Word) : ofBytes (hi w) ph = w ↔ lo w = ph := by
    constructor
    · intro e
      rw [← e, lo_ofBytes]
    · rintro rfl
      exact ofBytes_hi_lo w
  have hD : Streams p ph (Delivers (ι := ι) p ph) := streams_delivers hl.isPhase
  refine ⟨fun w h => ?_, fun size blocks sum h => ?_, fun crc h => ?_⟩
  · obtain ⟨z, got, io, e, -⟩ := recvU16_lpt hD hl h
    rw [e]
    exact ⟨rfl, hword w⟩
  · obtain ⟨z, got, io, e, -, -⟩ :=
      getStage1Meta_lpt hD hl (show Delivers p ph _ ([_, _, _, _, _, _] ++ []) from h)
    obtain ⟨hsize, hblocks, hsum⟩ :=
      metaMem_words img m.mem (ofBytes (hi size) ph) (ofBytes (hi blocks) ph) (ofBytes (hi sum) ph)
    rw [e, hsize, hblocks, hsum, hword, hword, hword]
    exact ⟨rfl, Iff.rfl⟩
  · obtain ⟨z, got, io, e, -, -⟩ :=
      recvU16_store hD hl h (a := blockCrcRecv img) (by simp [wordVars])
      receiveCurrentBlockWith.fail (·.clc)
    rw [receiveCurrentBlockWith.recvCrc, e]
    exact ⟨rfl, by rw [← hword crc]; exact iff_of_eq (congrArg (· = crc) (Mem.word_setWord ..))⟩

end Lpt

/-- S0_XT with the bytes 34h and 12h on the line. -/
def lowHigh : Machine Unit Bus :=
  announced .s0Xt 0 0 ([0xA0, 0xA0, 0x18, 0x18, 0x90, 0x90, 0x08, 0x08].getD · 0)

theorem lowHigh_linked : Linked .s0Xt lowHigh.mem 1 0 where
  channel := trivial
  port := by decide
  phase := by decide
  isPhase := .inl rfl

theorem words_iff_lowHigh :
    (∀ w, Delivers 1 0 lowHigh.io [lo w, hi w] → (recvU16 .s0Xt lowHigh).cf = false ∧
      ((recvU16 .s0Xt lowHigh).ax = w ↔ lo w = 0)) ∧
    (∀ size blocks sum, Delivers 1 0 (sendByte .s0Xt (lowHigh.movb .al (imm CMD_GET_META))).io
        [lo size, hi size, lo blocks, hi blocks, lo sum, hi sum] →
      (getStage1Meta .s0Xt lowHigh).cf = false ∧
      (((getStage1Meta .s0Xt lowHigh).mem.word (stage1Size .s0Xt) = size ∧
        (getStage1Meta .s0Xt lowHigh).mem.word (stage1Blocks .s0Xt) = blocks ∧
        (getStage1Meta .s0Xt lowHigh).mem.word (stage1Sum16 .s0Xt) = sum) ↔ lo size = 0 ∧
          lo blocks = 0 ∧ lo sum = 0)) ∧
    (∀ crc, Delivers 1 0 lowHigh.io [lo crc, hi crc] →
      (receiveCurrentBlockWith.recvCrc .s0Xt lowHigh).cf = false ∧
      ((receiveCurrentBlockWith.recvCrc .s0Xt lowHigh).mem.word (blockCrcRecv .s0Xt) = crc ↔
        lo crc = 0)) :=
  words_iff lowHigh lowHigh_linked

/-- The low byte is lost. -/
theorem recvU16_lowHigh : Delivers 1 0 lowHigh.io [0x34, 0x12] ∧
    (recvU16 .s0Xt lowHigh).cf = false ∧ (recvU16 .s0Xt lowHigh).ax = 0x1200 := by
  refine ⟨?_, ?_⟩
  · show pollBytes 1 2 0 lowHigh.io = [some 0x34, some 0x12]
    decide +kernel
  · decide +kernel

end VintageKvm.Stage0
