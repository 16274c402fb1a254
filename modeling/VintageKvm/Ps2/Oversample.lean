import VintageKvm.Lib.ShiftIn

/-!
# Oversampled wires

A PIO program shifts samples of a wire's pins into words; `run` takes them
apart and feeds the framer. The program leaves a word's samples at its top,
`run` looks for them at its bottom: what it takes for a sample has bits of two
samples, or of the one before (`Kbd.extracted_eq`, `Aux.extracted_eq`), and
only wires that are all low are read as they were sampled (`extracted_iff`).
-/

namespace VintageKvm.Ps2

open ShiftIn

/-- A bit of a double word, by its mask. -/
theorem and_mask_bne_zero (x : DWord) {k : Nat} (hk : k < 32) :
    (x &&& BitVec.twoPow 32 k != 0) = x.getLsbD k := by
  rw [BitVec.and_twoPow]
  cases x.getLsbD k
  · rfl
  · have hne : BitVec.twoPow 32 k ≠ 0 := by
      intro e
      have h := congrArg (·.getLsbD k) e
      simp [hk] at h
    simpa using hne

theorem and_low_getLsbD (x : DWord) {k n : Nat} (hk : k < n) (hn : n < 32) :
    (x &&& BitVec.ofNat 32 (2 ^ n - 1)).getLsbD k = x.getLsbD k := by
  rw [BitVec.getLsbD_and, BitVec.getLsbD_ofNat, Nat.testBit_two_pow_sub_one, decide_eq_true hk,
    decide_eq_true (Nat.lt_trans hk hn), Bool.and_true, Bool.and_true]

/-! ## The keyboard -/

namespace Kbd

/-- `in pins, 3`: CLK, CLK_PULL and DATA, in this order. -/
abbrev IN_WIDTH : Nat := 3
abbrev THRESHOLD : Nat := 30
abbrev SAMPLES_PER_WORD : Nat := 10

structure Sample where
  clk : Bool
  clkPull : Bool
  data : Bool
  deriving DecidableEq, Repr

/-- The sample that `run` takes from a word. -/
def sampleAt (word : DWord) (i : Nat) : Sample :=
  let sample := (word >>> (i * 3)) &&& 0b111
  ⟨sample &&& 0b001 != 0, sample &&& 0b010 != 0, sample &&& 0b100 != 0⟩

/-- The pins as sampled. -/
def pins (x : BitVec IN_WIDTH) : Sample := ⟨x.getLsbD 0, x.getLsbD 1, x.getLsbD 2⟩

/-- The samples that `run` takes from the words of some samples. -/
def extracted (xs : List (BitVec IN_WIDTH)) : List Sample :=
  (pushed THRESHOLD .empty xs).flatMap fun word => (List.range SAMPLES_PER_WORD).map (sampleAt word)

theorem sampleAt_eq (word : DWord) (i : Nat) :
    sampleAt word i = ⟨word.getLsbD (3 * i), word.getLsbD (3 * i + 1),
      word.getLsbD (3 * i + 2)⟩ := by
  have bit : ∀ k < 3, ((word >>> (i * 3)) &&& 0b111 &&& BitVec.twoPow 32 k != 0) =
    word.getLsbD (3 * i + k) := by
    intro k hk
    rw [and_mask_bne_zero _ (by omega), show (0b111 : DWord) = BitVec.ofNat 32 (2 ^ 3 - 1) from rfl,
      and_low_getLsbD _ hk (by decide), BitVec.getLsbD_ushiftRight, Nat.mul_comm]
  rw [sampleAt, Sample.mk.injEq]
  exact ⟨bit 0 (by decide), bit 1 (by decide), bit 2 (by decide)⟩

/-- What `run` takes for sample `t`: two bits of the sample before it in the
word, if there is one, and CLK for DATA. -/
def misread (s : Nat → BitVec IN_WIDTH) (t : Nat) : Sample :=
  if t % SAMPLES_PER_WORD = 0 then ⟨false, false, (s t).getLsbD 0⟩
  else ⟨(s (t - 1)).getLsbD 1, (s (t - 1)).getLsbD 2, (s t).getLsbD 0⟩

theorem sampleAt_word (s : Nat → BitVec IN_WIDTH) (w : Nat) {i : Nat} (hi : i < SAMPLES_PER_WORD) :
    sampleAt (packed (wordSamples SAMPLES_PER_WORD s w)) i =
      misread s (SAMPLES_PER_WORD * w + i) := by
  have bit : ∀ b < 32, (packed (wordSamples SAMPLES_PER_WORD s w)).getLsbD b =
      (decide (2 ≤ b) && (s (10 * w + (b - 2) / 3)).getLsbD ((b - 2) % 3)) := fun b =>
    getLsbD_word (by decide) (by decide) s w
  have hi10 : i < 10 := hi
  rw [sampleAt_eq, bit _ (by omega), bit _ (by omega), bit _ (by omega), misread]
  obtain rfl | h := Nat.eq_zero_or_pos i
  · simp [Nat.mul_mod_right]
  · have hin : (10 * w + i) % 10 ≠ 0 := by omega
    rw [if_neg hin, Sample.mk.injEq, Nat.add_sub_assoc h]
    refine ⟨?_, ?_, ?_⟩
    · rw [decide_eq_true (by omega), Bool.true_and, show (3 * i - 2) / 3 = i - 1 by omega,
        show (3 * i - 2) % 3 = 1 by omega]
    · rw [decide_eq_true (by omega), Bool.true_and, show (3 * i + 1 - 2) / 3 = i - 1 by omega,
        show (3 * i + 1 - 2) % 3 = 2 by omega]
    · rw [decide_eq_true (by omega), Bool.true_and, show (3 * i + 2 - 2) / 3 = i by omega,
        show (3 * i + 2 - 2) % 3 = 0 by omega]

/-- What `run` takes from the words of a stream. -/
theorem extracted_eq (s : Nat → BitVec IN_WIDTH) (words : Nat) :
    extracted ((List.range (SAMPLES_PER_WORD * words)).map s) =
      (List.range (SAMPLES_PER_WORD * words)).map (misread s) :=
  flatMap_pushed_stream (by decide) (by decide) (by decide) s
    (fun w _ hi => sampleAt_word s w hi) words

/-- Only pins that are low throughout are read as they were sampled. -/
theorem misread_iff (s : Nat → BitVec IN_WIDTH) :
    (∀ t, misread s t = pins (s t)) ↔ ∀ t, s t = 0 := by
  constructor
  · intro h
    -- a sample with no bits of one before it: CLK and CLK_PULL are read low, and DATA is CLK
    have low : ∀ t, misread s t = ⟨false, false, (s t).getLsbD 0⟩ → s t = 0 := by
      intro t ht
      obtain ⟨hclk, hpull, hdata⟩ := (Sample.mk.injEq ..).mp (ht.symm.trans (h t))
      refine BitVec.eq_of_getLsbD_eq fun i hi => ?_
      rw [show (0 : BitVec IN_WIDTH).getLsbD i = false from BitVec.getLsbD_zero]
      match i, hi with
      | 0, _ => exact hclk.symm
      | 1, _ => exact hpull.symm
      | 2, _ => exact hdata.symm.trans hclk.symm
    intro t
    induction t with
    | zero => exact low 0 rfl
    | succ t ih =>
      refine low (t + 1) ?_
      rw [misread, Nat.add_sub_cancel, ih]
      split <;> rfl
  · intro h t
    rw [misread, h t, h (t - 1)]
    split <;> rfl

/-- Every sample is read as it was, for any number of words. -/
def Faithful (s : Nat → BitVec IN_WIDTH) : Prop :=
  ∀ words, extracted ((List.range (SAMPLES_PER_WORD * words)).map s) =
    ((List.range (SAMPLES_PER_WORD * words)).map s).map pins

theorem faithful_iff (s : Nat → BitVec IN_WIDTH) : Faithful s ↔ ∀ t, s t = 0 := by
  rw [← misread_iff, ← map_words_eq_iff (m := SAMPLES_PER_WORD) (by decide), Faithful]
  simp only [extracted_eq, List.map_map]
  rfl

end Kbd

/-! ## The mouse -/

namespace Aux

/-- `in pins, 4`: CLK, two pins that are not the wire's, and DATA. -/
abbrev IN_WIDTH : Nat := 4
abbrev THRESHOLD : Nat := 28
abbrev SAMPLES_PER_WORD : Nat := 7
abbrev SAMPLE_BIT_CLK : DWord := 0b0001
abbrev SAMPLE_BIT_DATA : DWord := 0b1000

structure Sample where
  clk : Bool
  data : Bool
  deriving DecidableEq, Repr

/-- The sample that `run` takes from a word. -/
def sampleAt (word : DWord) (i : Nat) : Sample :=
  let sample := (word >>> (i * 4)) &&& 0xF
  ⟨sample &&& SAMPLE_BIT_CLK != 0, sample &&& SAMPLE_BIT_DATA != 0⟩

/-- The pins as sampled. -/
def pins (x : BitVec IN_WIDTH) : Sample := ⟨x.getLsbD 0, x.getLsbD 3⟩

/-- The samples that `run` takes from the words of some samples. -/
def extracted (xs : List (BitVec IN_WIDTH)) : List Sample :=
  (pushed THRESHOLD .empty xs).flatMap fun word => (List.range SAMPLES_PER_WORD).map (sampleAt word)

theorem sampleAt_eq (word : DWord) (i : Nat) :
    sampleAt word i = ⟨word.getLsbD (4 * i), word.getLsbD (4 * i + 3)⟩ := by
  have bit : ∀ k < 4, ((word >>> (i * 4)) &&& 0xF &&& BitVec.twoPow 32 k != 0) =
      word.getLsbD (4 * i + k) := by
    intro k hk
    rw [and_mask_bne_zero _ (by omega), show (0xF : DWord) = BitVec.ofNat 32 (2 ^ 4 - 1) from rfl,
      and_low_getLsbD _ hk (by decide), BitVec.getLsbD_ushiftRight, Nat.mul_comm]
  rw [sampleAt, Sample.mk.injEq]
  exact ⟨bit 0 (by decide), bit 3 (by decide)⟩

/-- What `run` takes for sample `t`: the one before it in the word, if there
is one. -/
def misread (s : Nat → BitVec IN_WIDTH) (t : Nat) : Sample :=
  if t % SAMPLES_PER_WORD = 0 then ⟨false, false⟩ else pins (s (t - 1))

theorem sampleAt_word (s : Nat → BitVec IN_WIDTH) (w : Nat) {i : Nat} (hi : i < SAMPLES_PER_WORD) :
    sampleAt (packed (wordSamples SAMPLES_PER_WORD s w)) i =
      misread s (SAMPLES_PER_WORD * w + i) := by
  have bit : ∀ b < 32, (packed (wordSamples SAMPLES_PER_WORD s w)).getLsbD b =
      (decide (4 ≤ b) && (s (7 * w + (b - 4) / 4)).getLsbD ((b - 4) % 4)) := fun b =>
    getLsbD_word (by decide) (by decide) s w
  have hi7 : i < 7 := hi
  rw [sampleAt_eq, bit _ (by omega), bit _ (by omega), misread]
  obtain rfl | h := Nat.eq_zero_or_pos i
  · simp [Nat.mul_mod_right]
  · have hin : (7 * w + i) % 7 ≠ 0 := by omega
    rw [if_neg hin, pins, Sample.mk.injEq, Nat.add_sub_assoc h]
    refine ⟨?_, ?_⟩
    · rw [decide_eq_true (by omega), Bool.true_and, show (4 * i - 4) / 4 = i - 1 by omega,
        show (4 * i - 4) % 4 = 0 by omega]
    · rw [decide_eq_true (by omega), Bool.true_and, show (4 * i + 3 - 4) / 4 = i - 1 by omega,
        show (4 * i + 3 - 4) % 4 = 3 by omega]

/-- What `run` takes from the words of a stream. -/
theorem extracted_eq (s : Nat → BitVec IN_WIDTH) (words : Nat) :
    extracted ((List.range (SAMPLES_PER_WORD * words)).map s) =
      (List.range (SAMPLES_PER_WORD * words)).map (misread s) :=
  flatMap_pushed_stream (by decide) (by decide) (by decide) s
    (fun w _ hi => sampleAt_word s w hi) words

/-- Only a wire that is low throughout is read as it was sampled. -/
theorem misread_iff (s : Nat → BitVec IN_WIDTH) :
    (∀ t, misread s t = pins (s t)) ↔ ∀ t, pins (s t) = ⟨false, false⟩ := by
  constructor
  · intro h t
    induction t with
    | zero => exact (h 0).symm
    | succ t ih =>
      rw [← h, misread, Nat.add_sub_cancel, ih]
      split <;> rfl
  · intro h t
    rw [misread, h t, h (t - 1)]
    split <;> rfl

/-- Every sample is read as it was, for any number of words. -/
def Faithful (s : Nat → BitVec IN_WIDTH) : Prop :=
  ∀ words, extracted ((List.range (SAMPLES_PER_WORD * words)).map s) =
    ((List.range (SAMPLES_PER_WORD * words)).map s).map pins

theorem faithful_iff (s : Nat → BitVec IN_WIDTH) :
    Faithful s ↔ ∀ t, pins (s t) = ⟨false, false⟩ := by
  rw [← misread_iff, ← map_words_eq_iff (m := SAMPLES_PER_WORD) (by decide), Faithful]
  simp only [extracted_eq, List.map_map]
  rfl

end Aux

/-- The words are read as they were sampled only where the lines are low all
the time: both wires of the mouse, and all three pins of the keyboard. -/
theorem oversampled_iff (kbd : Nat → BitVec Kbd.IN_WIDTH) (aux : Nat → BitVec Aux.IN_WIDTH) :
    (Kbd.Faithful kbd ↔ ∀ t, kbd t = 0) ∧
      (Aux.Faithful aux ↔ ∀ t, Aux.pins (aux t) = ⟨false, false⟩) :=
  ⟨Kbd.faithful_iff kbd, Aux.faithful_iff aux⟩

/-- Idle wires, all lines high: the first sample of a word is read with CLK
low. -/
theorem idle_misread : ¬ Kbd.Faithful (fun _ => 0b111) ∧ ¬ Aux.Faithful (fun _ => 0b1111) := by
  constructor
  · intro h
    exact absurd ((Kbd.faithful_iff _).mp h 0) (by decide)
  · intro h
    exact absurd ((Aux.faithful_iff _).mp h 0) (by decide)

end VintageKvm.Ps2
