import VintageKvm.Lib.Word
import Mathlib.Data.List.GetD

/-!
# Input shift registers

A 32-bit register that samples of `n` bits are shifted into from the top, and
that is pushed and cleared once `threshold` bits are in. A stream of samples is
pushed as words of equally many (`pushed_stream`). A pushed word has its
samples at the top, the oldest lowest (`getLsbD_word`): with fewer than 32
bits a gap is left below them.
-/

namespace VintageKvm.ShiftIn

/-- The register, and how many bits are in. -/
structure Isr where
  isr : DWord
  count : Nat

def Isr.empty : Isr := ⟨0, 0⟩

variable {n : Nat}

/-- A sample shifted in from the top. -/
def shift (isr : DWord) (x : BitVec n) : DWord := isr >>> n ||| x.setWidth 32 <<< (32 - n)

variable (threshold : Nat)

/-- A sample taken in, and the word that this pushes. -/
def take (r : Isr) (x : BitVec n) : Isr × Option DWord :=
  if threshold ≤ r.count + n then (.empty, some (shift r.isr x))
  else (⟨shift r.isr x, r.count + n⟩, none)

/-- The words that samples push. -/
def pushed (r : Isr) : List (BitVec n) → List DWord
  | [] => []
  | x :: xs =>
    let (r, w) := take threshold r x
    w.toList ++ pushed r xs

/-- The word of some samples. -/
def packed (xs : List (BitVec n)) : DWord := xs.foldl shift 0

theorem packed_concat (xs : List (BitVec n)) (x : BitVec n) :
    packed (xs ++ [x]) = shift (packed xs) x := by
  rw [packed, List.foldl_append]
  rfl

variable {threshold}

theorem pushed_append (hn : 0 < n) {isr : DWord} {c : Nat} {xs : List (BitVec n)}
    (rest : List (BitVec n)) (hne : xs ≠ []) (h : c + n * xs.length = threshold) :
    pushed threshold ⟨isr, c⟩ (xs ++ rest) = xs.foldl shift isr ::
      pushed threshold .empty rest := by
  induction xs generalizing isr c with
  | nil => exact absurd rfl hne
  | cons x xs ih =>
    rw [List.length_cons, Nat.mul_succ] at h
    cases xs with
    | nil =>
      have hfull : threshold ≤ c + n := by rw [List.length_nil] at h; omega
      simp only [List.cons_append, List.nil_append, pushed, take, hfull, if_true,
        Option.toList_some, List.foldl_cons, List.foldl_nil]
    | cons y ys =>
      have hpos : 0 < n * (y :: ys).length := Nat.mul_pos hn (Nat.succ_pos _)
      have hmore : ¬ threshold ≤ c + n := by omega
      rw [List.cons_append, pushed]
      simp only [take, hmore, if_false, Option.toList_none, List.nil_append]
      exact ih (List.cons_ne_nil y ys) (by omega)

/-- As many samples as make a word push it, and the next word starts afresh. -/
theorem pushed_word (hn : 0 < n) {xs : List (BitVec n)} (rest : List (BitVec n)) (hne : xs ≠ [])
    (h : n * xs.length = threshold) :
    pushed threshold .empty (xs ++ rest) = packed xs :: pushed threshold .empty rest :=
  pushed_append hn rest hne (by rwa [Nat.zero_add])

/-- The samples of word `w`, `m` samples a word. -/
def wordSamples (m : Nat) (s : Nat → BitVec n) (w : Nat) : List (BitVec n) :=
  (List.range m).map fun i => s (m * w + i)

theorem length_wordSamples (m : Nat) (s : Nat → BitVec n) (w : Nat) :
    (wordSamples m s w).length = m := by
  rw [wordSamples, List.length_map, List.length_range]

theorem getD_wordSamples {m i : Nat} (h : i < m) (s : Nat → BitVec n) (w : Nat) :
    (wordSamples m s w).getD i 0 = s (m * w + i) := by
  rw [wordSamples, List.getD_eq_getElem?_getD, List.getElem?_map, List.getElem?_range h,
    Option.map_some, Option.getD_some]

/-- The words of a stream, `m` samples each. -/
theorem pushed_stream {m : Nat} (hn : 0 < n) (hm : 0 < m) (h : n * m = threshold)
    (s : Nat → BitVec n) (words : Nat) : pushed threshold .empty ((List.range (m * words)).map s) =
      (List.range words).map fun w => packed (wordSamples m s w) := by
  induction words generalizing s with
  | zero => rfl
  | succ words ih =>
    have hne : wordSamples m s 0 ≠ [] := by
      intro e
      have hlen := length_wordSamples m s 0
      rw [e, List.length_nil] at hlen
      omega
    have hfirst : (List.range (m * (words + 1))).map s =
        wordSamples m s 0 ++ (List.range (m * words)).map fun t => s (m + t) := by
      rw [Nat.mul_succ, Nat.add_comm, List.range_add, List.map_append, List.map_map, wordSamples]
      simp only [Nat.mul_zero, Nat.zero_add]
      rfl
    rw [hfirst, pushed_word hn _ hne (by rw [length_wordSamples, h]), ih, List.range_succ_eq_map,
      List.map_cons, List.map_map]
    refine congrArg _ (List.map_congr_left fun w _ => ?_)
    simp only [Function.comp_apply, wordSamples, Nat.mul_succ, Nat.add_comm _ m, Nat.add_assoc]

/-- What is read from words, `m` items from each, in one count. -/
theorem flatMap_words {m : Nat} (hm : 0 < m) {α : Type} (f : Nat → Nat → α) (words : Nat) :
    ((List.range words).flatMap fun w => (List.range m).map (f w)) =
      (List.range (m * words)).map fun t => f (t / m) (t % m) := by
  induction words with
  | zero => rfl
  | succ words ih =>
    rw [List.range_succ, List.flatMap_append, ih, Nat.mul_succ, List.range_add,
      List.map_append, List.map_map, List.flatMap_cons, List.flatMap_nil, List.append_nil]
    refine congrArg _ (List.map_congr_left fun i hi => ?_)
    have hlt := List.mem_range.mp hi
    rw [Function.comp_apply, Nat.mul_add_div hm, Nat.div_eq_of_lt hlt, Nat.mul_add_mod,
      Nat.mod_eq_of_lt hlt, Nat.add_zero]

/-- What is read from the words of a stream, `m` items from each. -/
theorem flatMap_pushed_stream {m : Nat} (hn : 0 < n) (hm : 0 < m) (h : n * m = threshold)
    (s : Nat → BitVec n) {α : Type} {itemAt : DWord → Nat → α} {f : Nat → α}
    (hitem : ∀ w, ∀ i < m, itemAt (packed (wordSamples m s w)) i = f (m * w + i)) (words : Nat) :
    ((pushed threshold .empty ((List.range (m * words)).map s)).flatMap
      fun word => (List.range m).map (itemAt word)) = (List.range (m * words)).map f := by
  rw [pushed_stream hn hm h, List.flatMap_map]
  calc (List.range words).flatMap
        (fun w => (List.range m).map (itemAt (packed (wordSamples m s w))))
      = (List.range words).flatMap (fun w => (List.range m).map fun i => f (m * w + i)) :=
        List.flatMap_congr fun w _ => List.map_congr_left fun i hi => hitem w i
          (List.mem_range.mp hi)
    _ = (List.range (m * words)).map fun t => f (m * (t / m) + t % m) := flatMap_words hm _ words
    _ = (List.range (m * words)).map f := List.map_congr_left fun t _ => by rw [Nat.div_add_mod]

/-- Two streams agree if they do after any number of words. -/
theorem map_words_eq_iff {m : Nat} (hm : 0 < m) {α : Type} {f g : Nat → α} :
    (∀ words, (List.range (m * words)).map f = (List.range (m * words)).map g) ↔ ∀ t,
      f t = g t := by
  constructor
  · intro h t
    exact List.map_inj_left.mp (h (t + 1)) t
      (List.mem_range.mpr (Nat.lt_of_lt_of_le (Nat.lt_succ_self t) (Nat.le_mul_of_pos_left _ hm)))
  · exact fun h words => List.map_congr_left fun t _ => h t

/-- The bits of a word: those of the oldest sample right above the gap. -/
theorem getLsbD_packed (hn : 0 < n) (xs : List (BitVec n)) (hlen : n * xs.length ≤ 32) {b : Nat}
    (hb : b < 32) : (packed xs).getLsbD b = (decide (32 - n * xs.length ≤ b) &&
      (xs.getD ((b - (32 - n * xs.length)) / n) 0).getLsbD ((b - (32 - n * xs.length)) % n)) := by
  induction xs using List.reverseRecOn generalizing b with
  | nil =>
    have : ¬ 32 - n * ([] : List (BitVec n)).length ≤ b := by simp; omega
    rw [decide_eq_false this, Bool.false_and]
    exact BitVec.getLsbD_zero
  | append_singleton xs x ih =>
    rw [List.length_append, List.length_singleton, Nat.mul_succ] at hlen ⊢
    rw [packed_concat, shift, BitVec.getLsbD_or, BitVec.getLsbD_ushiftRight,
      BitVec.getLsbD_shiftLeft, BitVec.getLsbD_setWidth, decide_eq_true hb, Bool.true_and]
    obtain hold | hnew := Nat.lt_or_ge b (32 - n)
    · -- the older samples, one place lower than they were
      rw [decide_eq_true hold, Bool.not_true, Bool.false_and, Bool.or_false,
        ih (by omega) (by omega),
        show n + b - (32 - n * xs.length) = b - (32 - (n * xs.length + n)) by omega,
        decide_eq_decide.mpr
          (show 32 - n * xs.length ≤ n + b ↔ 32 - (n * xs.length + n) ≤ b by omega)]
      by_cases hgap : 32 - (n * xs.length + n) ≤ b
      · have hat : (b - (32 - (n * xs.length + n))) / n < xs.length :=
          Nat.div_lt_of_lt_mul (by omega)
        rw [List.getD_append _ _ _ _ hat]
      · rw [decide_eq_false hgap, Bool.false_and, Bool.false_and]
    · -- the sample just taken in
      have hge : 32 ≤ n + b := by omega
      have hpos : b - (32 - (n * xs.length + n)) = (b - (32 - n)) + n * xs.length := by omega
      have hlow : b - (32 - n) < n := by omega
      have hlow' : b - (32 - n) < 32 := by omega
      have hgap : 32 - (n * xs.length + n) ≤ b := by omega
      rw [BitVec.getLsbD_of_ge _ _ hge, decide_eq_false (Nat.not_lt.mpr hnew), decide_eq_true hlow',
        hpos, decide_eq_true hgap, Nat.add_mul_div_left _ _ hn, Nat.div_eq_of_lt hlow,
        Nat.add_mul_mod_self_left, Nat.mod_eq_of_lt hlow, Nat.zero_add,
        List.getD_append_right _ _ _ _ (Nat.le_refl _), Nat.sub_self]
      simp only [Bool.false_or, Bool.not_false, Bool.true_and, List.getD_cons_zero]

/-- The bits of a word of a stream. -/
theorem getLsbD_word {m : Nat} (hn : 0 < n) (hlen : n * m ≤ 32) (s : Nat → BitVec n) (w : Nat)
    {b : Nat} (hb : b < 32) : (packed (wordSamples m s w)).getLsbD b = (decide (32 - n * m ≤ b) &&
      (s (m * w + (b - (32 - n * m)) / n)).getLsbD ((b - (32 - n * m)) % n)) := by
  rw [getLsbD_packed hn _ (by rwa [length_wordSamples]) hb, length_wordSamples]
  by_cases hgap : 32 - n * m ≤ b
  · rw [getD_wordSamples (Nat.div_lt_of_lt_mul (by omega))]
  · rw [decide_eq_false hgap, Bool.false_and, Bool.false_and]

end VintageKvm.ShiftIn
