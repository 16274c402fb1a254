import Mathlib.Data.BitVec

/-!
# Bytes, 16-bit words and 32-bit words

A word is its high and its low byte (`ofBytes`), a double word its high and
its low word (`ofWords`); `be16`, `be32` are the big-endian bytes of both.
-/

namespace VintageKvm

abbrev Byte := BitVec 8
abbrev Word := BitVec 16
abbrev DWord := BitVec 32

/-! ## Halves of a word -/

/-- The low byte. -/
def lo (w : Word) : Byte := w.setWidth 8

/-- The high byte. -/
def hi (w : Word) : Byte := (w >>> 8).setWidth 8

/-- The word with high byte `h` and low byte `l`. -/
def ofBytes (h l : Byte) : Word := h.setWidth 16 <<< 8 ||| l.setWidth 16

theorem toNat_lo (w : Word) : (lo w).toNat = w.toNat % 256 := BitVec.toNat_setWidth ..

theorem toNat_hi (w : Word) : (hi w).toNat = w.toNat / 256 := by
  have := w.isLt
  simp only [hi, BitVec.toNat_setWidth, BitVec.toNat_ushiftRight, Nat.shiftRight_eq_div_pow]
  omega

theorem toNat_ofBytes (h l : Byte) : (ofBytes h l).toNat = h.toNat * 256 + l.toNat := by
  have hh := h.isLt
  have hl := l.isLt
  simp only [ofBytes, BitVec.toNat_or, BitVec.toNat_shiftLeft, BitVec.toNat_setWidth]
  rw [Nat.mod_eq_of_lt (a := h.toNat) (by omega), Nat.mod_eq_of_lt (a := l.toNat) (by omega),
    Nat.shiftLeft_eq, Nat.mod_eq_of_lt (by omega), Nat.mul_comm, ← Nat.two_pow_add_eq_or_of_lt hl]

theorem toNat_byteWord (b : Byte) : (ofBytes 0 b).toNat = b.toNat := by
  rw [toNat_ofBytes]
  exact Nat.zero_add _

@[simp] theorem lo_ofBytes (h l : Byte) : lo (ofBytes h l) = l := by
  apply BitVec.eq_of_toNat_eq
  rw [toNat_lo, toNat_ofBytes]
  omega

@[simp] theorem hi_ofBytes (h l : Byte) : hi (ofBytes h l) = h := by
  apply BitVec.eq_of_toNat_eq
  rw [toNat_hi, toNat_ofBytes]
  omega

@[simp] theorem ofBytes_hi_lo (w : Word) : ofBytes (hi w) (lo w) = w := by
  apply BitVec.eq_of_toNat_eq
  rw [toNat_ofBytes, toNat_hi, toNat_lo]
  omega

/-- Two words with the same halves are equal. -/
theorem word_ext {v w : Word} (h : hi v = hi w) (l : lo v = lo w) : v = w := by
  rw [← ofBytes_hi_lo v, ← ofBytes_hi_lo w, h, l]

theorem getLsbD_lo (w : Word) (i : Nat) : (lo w).getLsbD i = (decide (i < 8) && w.getLsbD i) :=
  BitVec.getLsbD_setWidth ..

theorem getLsbD_hi (w : Word) (i : Nat) :
    (hi w).getLsbD i = (decide (i < 8) && w.getLsbD (8 + i)) := by
  simp only [hi, BitVec.getLsbD_setWidth, BitVec.getLsbD_ushiftRight]

/-- `xor` into the high byte is `xor` with the byte shifted up. -/
theorem ofBytes_xor_hi (w : Word) (b : Byte) :
    ofBytes (hi w ^^^ b) (lo w) = w ^^^ (b.setWidth 16 <<< 8) := by
  apply word_ext <;> apply BitVec.eq_of_getLsbD_eq <;> intro i hi
  · rw [hi_ofBytes]
    simp only [BitVec.getLsbD_xor, getLsbD_hi, BitVec.getLsbD_shiftLeft, BitVec.getLsbD_setWidth,
      hi, show 8 + i < 16 by omega, show ¬ 8 + i < 8 by omega, show 8 + i - 8 = i by omega,
      show i < 16 by omega, decide_true, decide_false, Bool.true_and, Bool.not_false]
  · rw [lo_ofBytes]
    simp only [BitVec.getLsbD_xor, getLsbD_lo, BitVec.getLsbD_shiftLeft, hi, decide_true,
      Bool.true_and, Bool.not_true, Bool.and_false, Bool.false_and, Bool.xor_false]

/-- `xor` into the low byte. -/
theorem ofBytes_xor_lo (w : Word) (b : Byte) :
    ofBytes (hi w) (lo w ^^^ b) = w ^^^ b.setWidth 16 := by
  apply word_ext <;> apply BitVec.eq_of_getLsbD_eq <;> intro i hi
  · rw [hi_ofBytes]
    simp only [BitVec.getLsbD_xor, getLsbD_hi, BitVec.getLsbD_setWidth, hi,
      show 8 + i < 16 by omega, BitVec.getLsbD_of_ge b (8 + i) (by omega), decide_true,
      Bool.true_and, Bool.and_false, Bool.xor_false]
  · rw [lo_ofBytes]
    simp only [BitVec.getLsbD_xor, getLsbD_lo, BitVec.getLsbD_setWidth, hi,
      show i < 16 by omega, decide_true, Bool.true_and]

/-! ## Halves of a double word -/

/-- The low word. -/
def loW (d : DWord) : Word := d.setWidth 16

/-- The high word. -/
def hiW (d : DWord) : Word := (d >>> 16).setWidth 16

/-- The double word with high word `h` and low word `l` (`DX:AX`). -/
def ofWords (h l : Word) : DWord := h.setWidth 32 <<< 16 ||| l.setWidth 32

theorem toNat_loW (d : DWord) : (loW d).toNat = d.toNat % 65536 := BitVec.toNat_setWidth ..

theorem toNat_hiW (d : DWord) : (hiW d).toNat = d.toNat / 65536 := by
  have := d.isLt
  simp only [hiW, BitVec.toNat_setWidth, BitVec.toNat_ushiftRight, Nat.shiftRight_eq_div_pow]
  omega

theorem toNat_ofWords (h l : Word) : (ofWords h l).toNat = h.toNat * 65536 + l.toNat := by
  have hh := h.isLt
  have hl := l.isLt
  simp only [ofWords, BitVec.toNat_or, BitVec.toNat_shiftLeft, BitVec.toNat_setWidth]
  rw [Nat.mod_eq_of_lt (a := h.toNat) (by omega), Nat.mod_eq_of_lt (a := l.toNat) (by omega),
    Nat.shiftLeft_eq, Nat.mod_eq_of_lt (by omega), Nat.mul_comm, ← Nat.two_pow_add_eq_or_of_lt hl]

@[simp] theorem loW_ofWords (h l : Word) : loW (ofWords h l) = l := by
  apply BitVec.eq_of_toNat_eq
  rw [toNat_loW, toNat_ofWords]
  omega

@[simp] theorem hiW_ofWords (h l : Word) : hiW (ofWords h l) = h := by
  apply BitVec.eq_of_toNat_eq
  rw [toNat_hiW, toNat_ofWords]
  omega

@[simp] theorem ofWords_hiW_loW (d : DWord) : ofWords (hiW d) (loW d) = d := by
  apply BitVec.eq_of_toNat_eq
  rw [toNat_ofWords, toNat_hiW, toNat_loW]
  omega

/-- Two double words with the same halves are equal. -/
theorem dword_ext {d e : DWord} (h : hiW d = hiW e) (l : loW d = loW e) : d = e := by
  rw [← ofWords_hiW_loW d, ← ofWords_hiW_loW e, h, l]

theorem hiW_xor (d e : DWord) : hiW (d ^^^ e) = hiW d ^^^ hiW e := by
  simp only [hiW, BitVec.ushiftRight_xor_distrib, BitVec.setWidth_xor]

theorem loW_xor (d e : DWord) : loW (d ^^^ e) = loW d ^^^ loW e := BitVec.setWidth_xor

theorem ofWords_xor (h l h' l' : Word) :
    ofWords h l ^^^ ofWords h' l' = ofWords (h ^^^ h') (l ^^^ l') := by
  apply dword_ext
  · rw [hiW_xor, hiW_ofWords, hiW_ofWords, hiW_ofWords]
  · rw [loW_xor, loW_ofWords, loW_ofWords, loW_ofWords]

/-- A byte as a double word. -/
theorem setWidth_byte (b : Byte) : b.setWidth 32 = ofWords 0 (b.setWidth 16) := by
  apply BitVec.eq_of_toNat_eq
  have := b.isLt
  rw [toNat_ofWords, BitVec.toNat_setWidth, BitVec.toNat_setWidth,
    show (0 : Word).toNat = 0 from rfl]
  omega

/-- A shift to the right carries from the high word into the low one. -/
theorem ofWords_shr1 (h l : Word) : ofWords h l >>> 1 =
    ofWords (h >>> 1) (l >>> 1 ||| BitVec.ofNat 16 (h.getLsbD 0).toNat <<< 15) := by
  apply BitVec.eq_of_toNat_eq
  have hl := l.isLt
  have hb : (BitVec.ofNat 16 (h.getLsbD 0).toNat <<< 15).toNat = h.toNat % 2 * 2 ^ 15 := by
    rw [← BitVec.testBit_toNat, Nat.testBit_zero]
    rcases Nat.mod_two_eq_zero_or_one h.toNat with h2 | h2 <;> rw [h2] <;> rfl
  have hor : (l >>> 1 ||| BitVec.ofNat 16 (h.getLsbD 0).toNat <<< 15).toNat =
      l.toNat / 2 + h.toNat % 2 * 2 ^ 15 := by
    rw [BitVec.toNat_or, hb, BitVec.toNat_ushiftRight, Nat.shiftRight_eq_div_pow, Nat.or_comm,
      Nat.mul_comm, ← Nat.two_pow_add_eq_or_of_lt (show l.toNat / 2 ^ 1 < 2 ^ 15 by omega)]
    omega
  rw [toNat_ofWords, hor, BitVec.toNat_ushiftRight, BitVec.toNat_ushiftRight, toNat_ofWords,
    Nat.shiftRight_eq_div_pow, Nat.shiftRight_eq_div_pow]
  omega

/-- A shift to the left carries from the low word into the high one. -/
theorem ofWords_shl1 (h l : Word) :
    ofWords h l <<< 1 = ofWords (h <<< 1 ||| BitVec.ofNat 16 l.msb.toNat) (l <<< 1) := by
  apply BitVec.eq_of_toNat_eq
  have hl := l.isLt
  have hh := h.isLt
  have hb : (BitVec.ofNat 16 l.msb.toNat).toNat = l.toNat / 2 ^ 15 := by
    rw [BitVec.msb_eq_decide]
    by_cases hm : 2 ^ 15 ≤ l.toNat
    · rw [decide_eq_true hm]
      show 1 = _
      omega
    · rw [decide_eq_false hm]
      show 0 = _
      omega
  have hs : (h <<< 1).toNat = 2 ^ 1 * (h.toNat % 2 ^ 15) := by
    rw [BitVec.toNat_shiftLeft, Nat.shiftLeft_eq]
    omega
  have hor : (h <<< 1 ||| BitVec.ofNat 16 l.msb.toNat).toNat = 2 ^ 1 * (h.toNat % 2 ^ 15) +
      l.toNat / 2 ^ 15 := by
    rw [BitVec.toNat_or, hb, hs,
      ← Nat.two_pow_add_eq_or_of_lt (show l.toNat / 2 ^ 15 < 2 ^ 1 by omega)]
  rw [toNat_ofWords, hor, BitVec.toNat_shiftLeft, BitVec.toNat_shiftLeft, toNat_ofWords,
    Nat.shiftLeft_eq, Nat.shiftLeft_eq]
  omega

/-- A word added, with the carry. -/
theorem ofWords_add_word (h l w : Word) :
    ofWords (h + BitVec.ofNat 16 (decide (65536 ≤ l.toNat + w.toNat)).toNat) (l + w) =
      ofWords h l + w.setWidth 32 := by
  apply BitVec.eq_of_toNat_eq
  have hl := l.isLt
  have hw := w.isLt
  have hh := h.isLt
  rw [toNat_ofWords, BitVec.toNat_add, BitVec.toNat_add, BitVec.toNat_add, toNat_ofWords,
    BitVec.toNat_setWidth]
  by_cases hc : 65536 ≤ l.toNat + w.toNat
  · rw [decide_eq_true hc, show (BitVec.ofNat 16 true.toNat).toNat = 1 from rfl]
    omega
  · rw [decide_eq_false hc, show (BitVec.ofNat 16 false.toNat).toNat = 0 from rfl]
    omega

/-- A difference, with the borrow. -/
theorem ofWords_sub (h l h' l' : Word) :
    ofWords (h - h' - BitVec.ofNat 16 (decide (l.toNat < l'.toNat)).toNat) (l - l') =
      ofWords h l - ofWords h' l' := by
  apply BitVec.eq_of_toNat_eq
  have := l.isLt
  have := l'.isLt
  have := h.isLt
  have := h'.isLt
  rw [toNat_ofWords, BitVec.toNat_sub, BitVec.toNat_sub, BitVec.toNat_sub, BitVec.toNat_sub,
    toNat_ofWords, toNat_ofWords]
  by_cases hc : l.toNat < l'.toNat
  · rw [decide_eq_true hc, show (BitVec.ofNat 16 true.toNat).toNat = 1 from rfl]
    omega
  · rw [decide_eq_false hc, show (BitVec.ofNat 16 false.toNat).toNat = 0 from rfl]
    omega

/-! ## Big-endian bytes -/

/-- The two bytes of a word, most significant first. -/
def be16 (w : Word) : List Byte := [hi w, lo w]

/-- The four bytes of a double word, most significant first. -/
def be32 (d : DWord) : List Byte := be16 (hiW d) ++ be16 (loW d)

@[simp] theorem length_be16 (w : Word) : (be16 w).length = 2 := rfl
@[simp] theorem length_be32 (d : DWord) : (be32 d).length = 4 := rfl

theorem be32_inj {d e : DWord} : be32 d = be32 e ↔ d = e := by
  refine ⟨fun h => ?_, fun h => h ▸ rfl⟩
  simp only [be32, be16, List.cons_append, List.nil_append, List.cons.injEq] at h
  obtain ⟨h₀, h₁, h₂, h₃, -⟩ := h
  exact dword_ext (word_ext h₀ h₁) (word_ext h₂ h₃)


/-- The word of a natural number below `2 ^ 16`, by its bytes. -/
theorem toNat_ofNat16 {n : Nat} (h : n < 65536) : (BitVec.ofNat 16 n).toNat = n := by
  rw [BitVec.toNat_ofNat]
  omega

theorem ofNat_toNat16 (w : Word) : BitVec.ofNat 16 w.toNat = w := by
  rw [BitVec.ofNat_toNat, BitVec.setWidth_eq]

theorem toNat_pos_of_ne {w : Word} (h : w ≠ 0) : 0 < w.toNat :=
  Nat.pos_of_ne_zero fun h0 => h (BitVec.eq_of_toNat_eq h0)

/-- A counter of `k + 1`, counted down. -/
theorem ofNat_succ_sub_one (k : Nat) : BitVec.ofNat 16 (k + 1) - 1 = BitVec.ofNat 16 k := by
  rw [BitVec.ofNat_add]
  exact BitVec.add_sub_cancel _ _

/-- A pointer after `k` bytes, moved on. -/
theorem add_ofNat_add_one (a : Word) (k : Nat) :
    a + BitVec.ofNat 16 k + 1 = a + BitVec.ofNat 16 (k + 1) := by
  rw [BitVec.ofNat_add, ← BitVec.add_assoc]
  rfl

end VintageKvm
