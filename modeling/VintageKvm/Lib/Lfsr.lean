import Mathlib.Logic.Function.Iterate
import Mathlib.Data.List.Basic
import Mathlib.Tactic.TypeStar

/-!
# Feedback shift registers

A register of `w` bits takes a bit string in, most significant bit of the
register out, and adds the polynomial `p` where the two differ: the division
of the string by `x ^ w + p`. It is linear (`run_xor`), so that two strings
that leave the same register differ by a string that leaves zero. Such a
string is not

* a burst, its ones within `w` bits (`eq_falses_of_burst`);
* one with an odd number of ones, where `p` has such (`even_of_run_zero`);
* two ones closer than the order of the register (`run_two`).
-/

namespace VintageKvm.Lfsr

variable {w : Nat} (p : BitVec w)

/-- One bit taken in. -/
def step (s : BitVec w) (b : Bool) : BitVec w := if s.msb ^^ b then s <<< 1 ^^^ p else s <<< 1

/-- A string taken in. -/
def run (s : BitVec w) (bs : List Bool) : BitVec w := bs.foldl (step p) s

/-- The bits of a word, most significant first. -/
def bits (s : BitVec w) : List Bool := (List.range w).map s.getMsbD

theorem length_bits (s : BitVec w) : (bits s).length = w := by
  rw [bits, List.length_map, List.length_range]

theorem run_cons (s : BitVec w) (b : Bool) (bs : List Bool) :
    run p s (b :: bs) = run p (step p s b) bs := rfl

theorem run_append (s : BitVec w) (bs cs : List Bool) :
    run p s (bs ++ cs) = run p (run p s bs) cs :=
  List.foldl_append

/-! ## Linearity -/

/-- The polynomial, or nothing. -/
theorem step_eq (s : BitVec w) (b : Bool) :
    step p s b = s <<< 1 ^^^ if s.msb ^^ b then p else 0 := by
  rw [step]
  split
  · rfl
  · exact BitVec.xor_zero.symm

theorem step_xor (s t : BitVec w) (b c : Bool) :
    step p (s ^^^ t) (b ^^ c) = step p s b ^^^ step p t c := by
  have hadd : ∀ x y : Bool, (if x ^^ y then p else 0) = (if x then p else 0) ^^^
      if y then p else 0 := by
    rintro (_ | _) (_ | _) <;> simp
  have hmsb : ((s ^^^ t).msb ^^ (b ^^ c)) = ((s.msb ^^ b) ^^ (t.msb ^^ c)) := by
    rw [BitVec.msb_xor, Bool.xor_assoc, Bool.xor_assoc, Bool.xor_left_comm t.msb]
  rw [step_eq, step_eq, step_eq, hmsb, hadd, BitVec.shiftLeft_xor_distrib]
  ac_rfl

theorem run_xor {bs cs : List Bool} (h : bs.length = cs.length) (s t : BitVec w) :
    run p (s ^^^ t) (List.zipWith xor bs cs) = run p s bs ^^^ run p t cs := by
  induction bs generalizing s t cs with
  | nil =>
    obtain rfl := List.length_eq_zero_iff.mp h.symm
    rfl
  | cons b bs ih =>
    obtain ⟨c, cs, rfl⟩ := List.exists_cons_of_length_eq_add_one h.symm
    rw [List.zipWith_cons_cons, run_cons, step_xor, ih (Nat.succ.inj h)]
    rfl

theorem zipWith_falses (bs : List Bool) :
    List.zipWith xor (List.replicate bs.length false) bs = bs := by
  induction bs with
  | nil => rfl
  | cons b bs ih =>
    rw [List.length_cons, List.replicate_succ, List.zipWith_cons_cons, ih, Bool.false_xor]

theorem zipWith_self (bs : List Bool) :
    List.zipWith xor bs bs = List.replicate bs.length false := by
  induction bs with
  | nil => rfl
  | cons b bs ih =>
    rw [List.zipWith_cons_cons, Bool.xor_self, ih, List.length_cons, List.replicate_succ]

theorem step_zero (b : Bool) : step p 0 b = if b then p else 0 := by
  have hmsb : (0 : BitVec w).msb = false := BitVec.msb_zero
  rw [step_eq, hmsb, Bool.false_xor, show (0 : BitVec w) <<< 1 = 0 from BitVec.zero_shiftLeft 1]
  exact BitVec.zero_xor

theorem run_falses (s : BitVec w) (n : Nat) :
    run p s (List.replicate n false) = (step p · false)^[n] s := by
  induction n generalizing s with
  | zero => rfl
  | succ n ih => exact ih _

theorem run_zero_falses (n : Nat) : run p 0 (List.replicate n false) = 0 := by
  induction n with
  | zero => rfl
  | succ n ih => rwa [List.replicate_succ, run_cons, step_zero]

/-- A register takes its own bits out. -/
theorem run_own (s : BitVec w) {k : Nat} (hk : k ≤ w) :
    run p s ((List.range k).map s.getMsbD) = s <<< k := by
  induction k with
  | zero => exact (BitVec.shiftLeft_zero s).symm
  | succ k ih =>
    have hmsb : (s <<< k).msb = s.getMsbD k := by
      rw [BitVec.msb, BitVec.getMsbD_shiftLeft, Nat.zero_add]
    rw [List.range_succ, List.map_append, run_append, ih (Nat.le_of_succ_le hk)]
    show step p (s <<< k) (s.getMsbD k) = _
    rw [step, hmsb, Bool.xor_self, if_neg Bool.false_ne_true, ← BitVec.shiftLeft_add]

theorem run_bits (s : BitVec w) : run p s (bits s) = 0 :=
  (run_own p s (Nat.le_refl w)).trans (BitVec.shiftLeft_eq_zero (Nat.le_refl w))

/-- Adding at the top of the register and shifting on is taking in. -/
theorem run_top (s v : BitVec w) {k : Nat} (hk : k ≤ w) (hv : v <<< k = 0) :
    (step p · false)^[k] (s ^^^ v) = run p s ((List.range k).map v.getMsbD) := by
  have hown : run p v ((List.range k).map v.getMsbD) = 0 := (run_own p v hk).trans hv
  have hlen : (List.replicate k false).length = ((List.range k).map v.getMsbD).length := by
    rw [List.length_replicate, List.length_map, List.length_range]
  have hxor := run_xor p hlen (s ^^^ v) v
  have hfalse : List.zipWith xor (List.replicate k false) ((List.range k).map v.getMsbD) =
      (List.range k).map v.getMsbD := by
    have h := zipWith_falses ((List.range k).map v.getMsbD)
    rwa [← hlen, List.length_replicate] at h
  rw [hfalse, hown, BitVec.xor_assoc, BitVec.xor_self, BitVec.xor_zero, run_falses] at hxor
  rw [hxor]
  exact BitVec.xor_zero.symm

/-! ## The register mirrored -/

theorem reverse_xor (s t : BitVec w) : (s ^^^ t).reverse = s.reverse ^^^ t.reverse := by
  refine BitVec.eq_of_getLsbD_eq fun i _ => ?_
  rw [BitVec.getLsbD_reverse, BitVec.getMsbD_xor, BitVec.getLsbD_xor, BitVec.getLsbD_reverse,
    BitVec.getLsbD_reverse]

theorem reverse_ushiftRight (s : BitVec w) : (s >>> 1).reverse = s.reverse <<< 1 := by
  refine BitVec.eq_of_getMsbD_eq fun i _ => ?_
  rw [BitVec.getMsbD_reverse, BitVec.getLsbD_ushiftRight, BitVec.getMsbD_shiftLeft,
    BitVec.getMsbD_reverse, Nat.add_comm]

/-- A register that shifts down, its lowest bit out. -/
theorem step_reverse (s : BitVec w) :
    step p s.reverse false = (if s.getLsbD 0 then s >>> 1 ^^^ p.reverse else s >>> 1).reverse := by
  rw [step, BitVec.msb_reverse, Bool.xor_false]
  split
  · rw [reverse_xor, reverse_ushiftRight, BitVec.reverse_reverse_eq]
  · rw [reverse_ushiftRight]

/-! ## Bursts -/

variable {p}

/-- What leaves the lowest bit clear shifts only. -/
theorem step_of_even (hp : p.getLsbD 0 = true) {s : BitVec w} {b : Bool}
    (h : (step p s b).getLsbD 0 = false) : s.msb = b ∧ step p s b = s <<< 1 := by
  by_cases hb : s.msb = b
  · refine ⟨hb, ?_⟩
    rw [step, hb, Bool.xor_self]
    rfl
  · have hne : (s.msb ^^ b) = true := by rwa [bne_iff_ne]
    rw [step, if_pos hne, BitVec.getLsbD_xor, hp] at h
    simp at h

/-- A string that empties the register is what the register holds. -/
theorem eq_of_run_zero (hp : p.getLsbD 0 = true) {s : BitVec w} {bs : List Bool}
    (hl : bs.length ≤ w) (h : run p s bs = 0) (i : Nat) : s.getMsbD i = bs.getD i false := by
  induction bs generalizing s i with
  | nil =>
    obtain rfl : s = 0 := h
    simp
  | cons b bs ih =>
    have hnext := ih (Nat.le_of_succ_le hl) h
    have hlast : (step p s b).getLsbD 0 = false := by
      have hlen : bs.length ≤ w - 1 := Nat.le_sub_one_of_lt hl
      have hw := hnext (w - 1)
      rw [BitVec.getMsbD_eq_getLsbD, List.getD_eq_getElem?_getD, List.getElem?_eq_none hlen] at hw
      have hlt : w - 1 < w := Nat.sub_one_lt_of_lt hl
      simpa [hlt] using hw
    obtain ⟨hmsb, hstep⟩ := step_of_even hp hlast
    cases i with
    | zero => exact hmsb
    | succ i => rw [List.getD_cons_succ, ← hnext i, hstep, BitVec.getMsbD_shiftLeft]

theorem eq_zero_of_run_falses (hp : p.getLsbD 0 = true) {s : BitVec w} {n : Nat}
    (h : run p s (List.replicate n false) = 0) : s = 0 := by
  induction n generalizing s with
  | zero => exact h
  | succ n ih =>
    have hstep : step p s false = 0 := ih h
    have hw : 1 ≤ w := by
      by_contra hw
      rw [BitVec.getLsbD_of_ge _ _ (by omega)] at hp
      cases hp
    refine BitVec.eq_of_getMsbD_eq fun i _ => ?_
    rw [eq_of_run_zero hp (show [false].length ≤ w from hw) hstep i]
    cases i <;> simp

theorem eq_falses {bs : List Bool} (h : ∀ i, bs.getD i false = false) :
    bs = List.replicate bs.length false := by
  refine List.eq_replicate_iff.mpr ⟨rfl, fun b hb => ?_⟩
  obtain ⟨i, hi, rfl⟩ := List.mem_iff_getElem.mp hb
  have hi' := h i
  rwa [List.getD_eq_getElem?_getD, List.getElem?_eq_getElem hi, Option.getD_some] at hi'

/-- The ones of a string lie within `n` bits. -/
def Burst (n : Nat) (bs : List Bool) : Prop := ∃ a, ∀ i, bs.getD i false = true → a ≤ i ∧ i < a + n

/-- A burst as wide as the register leaves it zero only where there is none. -/
theorem eq_falses_of_burst (hp : p.getLsbD 0 = true) {bs : List Bool} (hb : Burst w bs)
    (h : run p 0 bs = 0) : bs = List.replicate bs.length false := by
  obtain ⟨a, ha⟩ := hb
  have hout : ∀ i, (i < a ∨ a + w ≤ i) → bs.getD i false = false := fun i hi => by
    cases hv : bs.getD i false with
    | false => rfl
    | true =>
      have := ha i hv
      omega
  have hpre : bs.take a = List.replicate (bs.take a).length false := eq_falses fun i => by
    by_cases hi : i < a
    · rw [List.getD_eq_getElem?_getD, List.getElem?_take_of_lt hi, ← List.getD_eq_getElem?_getD,
        hout i (.inl hi)]
    · rw [List.getD_eq_getElem?_getD, List.getElem?_eq_none (by rw [List.length_take]; omega)]
      rfl
  have hpost : bs.drop (a + w) = List.replicate (bs.drop (a + w)).length false := eq_falses
    fun i => by
    rw [List.getD_eq_getElem?_getD, List.getElem?_drop, ← List.getD_eq_getElem?_getD]
    exact hout _ (.inr (Nat.le_add_right _ _))
  have hsplit : bs = bs.take a ++ ((bs.drop a).take w ++ bs.drop (a + w)) := by
    rw [← List.drop_drop, List.take_append_drop, List.take_append_drop]
  rw [hsplit, run_append, hpre, run_zero_falses, run_append, hpost] at h
  have hmid := eq_of_run_zero hp (List.length_take_le w _) (eq_zero_of_run_falses hp h)
  refine eq_falses fun i => ?_
  by_cases hi : i < a ∨ a + w ≤ i
  · exact hout i hi
  · have hm := hmid (i - a)
    rw [List.getD_eq_getElem?_getD, List.getElem?_take_of_lt (by omega), List.getElem?_drop,
      show a + (i - a) = i by omega, ← List.getD_eq_getElem?_getD] at hm
    rw [← hm]
    simp

/-! ## Parity -/

/-- Whether the number of ones is odd. -/
def parity (bs : List Bool) : Bool := bs.foldr xor false

@[simp] theorem parity_nil : parity [] = false := rfl

@[simp] theorem parity_cons (b : Bool) (bs : List Bool) : parity (b :: bs) = (b ^^ parity bs) := rfl

theorem parity_append (bs cs : List Bool) : parity (bs ++ cs) = (parity bs ^^ parity cs) := by
  induction bs with
  | nil => exact (Bool.false_xor _).symm
  | cons b bs ih => rw [List.cons_append, parity_cons, ih, parity_cons, Bool.xor_assoc]

theorem parity_eq (bs : List Bool) : parity bs = decide (bs.count true % 2 = 1) := by
  induction bs with
  | nil => rfl
  | cons b bs ih =>
    rw [parity_cons, ih, List.count_cons]
    cases b with
    | false => simp
    | true =>
      rw [Bool.true_xor, ← decide_not]
      refine decide_eq_decide.mpr ?_
      show ¬ bs.count true % 2 = 1 ↔ (bs.count true + 1) % 2 = 1
      omega

theorem parity_map_xor (f g : Nat → Bool) (n : Nat) :
    parity ((List.range n).map fun i => f i ^^ g i) =
      (parity ((List.range n).map f) ^^ parity ((List.range n).map g)) := by
  induction n with
  | zero => rfl
  | succ n ih =>
    simp only [List.range_succ, List.map_append, parity_append, ih, List.map_cons, List.map_nil,
      parity_cons, parity_nil, Bool.xor_false]
    rw [Bool.xor_assoc, Bool.xor_assoc, Bool.xor_left_comm (f n)]

theorem parity_bits_xor (s t : BitVec w) :
    parity (bits (s ^^^ t)) = (parity (bits s) ^^ parity (bits t)) := by
  rw [bits, bits, bits, ← parity_map_xor]
  exact congrArg parity (List.map_congr_left fun i _ => BitVec.getMsbD_xor)

theorem parity_bits_shift (s : BitVec w) :
    parity (bits (s <<< 1)) = (parity (bits s) ^^ s.msb) := by
  cases w with
  | zero => rw [BitVec.eq_nil s]; rfl
  | succ w =>
    have hshift : bits (s <<< 1) = (List.range w).map (fun i => s.getMsbD (i + 1)) ++ [false] := by
      rw [bits, List.range_succ, List.map_append, List.map_singleton, BitVec.getMsbD_shiftLeft,
        BitVec.getMsbD_of_ge _ _ (Nat.le_refl _)]
      exact congrArg (· ++ [false]) (List.map_congr_left fun i _ => BitVec.getMsbD_shiftLeft s 1)
    have hbits : bits s = s.msb :: (List.range w).map (fun i => s.getMsbD (i + 1)) := by
      rw [bits, List.range_succ_eq_map, List.map_cons, List.map_map]
      rfl
    rw [hshift, hbits, parity_append, parity_cons s.msb, Bool.xor_comm s.msb, Bool.xor_assoc,
      Bool.xor_self]
    rfl

/-- A step adds the bit to the parity of the register. -/
theorem parity_step (hp : parity (bits p) = true) (s : BitVec w) (b : Bool) :
    parity (bits (step p s b)) = (parity (bits s) ^^ b) := by
  rw [step]
  split
  · rename_i h
    rw [parity_bits_xor, parity_bits_shift, hp, Bool.xor_assoc, ← h, ← Bool.xor_assoc s.msb,
      Bool.xor_self, Bool.false_xor]
  · rename_i h
    have h' : s.msb = b := by simpa using h
    rw [parity_bits_shift, h']

theorem parity_run (hp : parity (bits p) = true) (s : BitVec w) (bs : List Bool) :
    parity (bits (run p s bs)) = (parity (bits s) ^^ parity bs) := by
  induction bs generalizing s with
  | nil => exact (Bool.xor_false _).symm
  | cons b bs ih =>
    rw [run_cons, ih, parity_step hp, Bool.xor_assoc, parity_cons]

/-- What leaves the register zero has an even number of ones. -/
theorem even_of_run_zero (hp : parity (bits p) = true) {bs : List Bool} (h : run p 0 bs = 0) :
    bs.count true % 2 = 0 := by
  have hpar := parity_run hp 0 bs
  rw [h, parity_eq bs] at hpar
  by_contra hodd
  have h1 : bs.count true % 2 = 1 := by omega
  rw [decide_eq_true h1, Bool.xor_true] at hpar
  exact (Bool.eq_not_self _).mp hpar

/-! ## Two ones -/

/-- None of the next `n` registers is emptied by a one. -/
def apart (p : BitVec w) : Nat → BitVec w → Bool
  | 0, _ => true
  | n + 1, s => step p s true != 0 && apart p n (step p s false)

theorem apart_spec {n k : Nat} {s : BitVec w} (h : apart p n s = true) (hk : k < n) :
    step p ((step p · false)^[k] s) true ≠ 0 := by
  induction k generalizing n s with
  | zero =>
    obtain ⟨n, rfl⟩ := Nat.exists_eq_add_one.mpr hk
    rw [apart, Bool.and_eq_true] at h
    exact bne_iff_ne.mp h.1
  | succ k ih =>
    obtain ⟨n, rfl⟩ := Nat.exists_eq_add_one.mpr (Nat.zero_lt_of_lt hk)
    rw [apart, Bool.and_eq_true] at h
    exact ih h.2 (Nat.lt_of_succ_lt_succ hk)

theorem exists_first_one {bs : List Bool} (h : 0 < bs.count true) :
    ∃ n rest, bs = List.replicate n false ++ true :: rest := by
  induction bs with
  | nil => cases h
  | cons b bs ih =>
    cases b with
    | true => exact ⟨0, bs, rfl⟩
    | false =>
      obtain ⟨n, rest, rfl⟩ := ih (by simpa using h)
      exact ⟨n + 1, rest, rfl⟩

theorem count_first_one (n : Nat) (rest : List Bool) :
    (List.replicate n false ++ true :: rest).count true = rest.count true + 1 := by
  simp [List.count_replicate]

/-- Two ones leave something behind, when they are not too far apart. -/
theorem run_two {n : Nat} (hp : p.getLsbD 0 = true) (hn : apart p n p = true) {bs : List Bool}
    (hl : bs.length ≤ n) (h2 : bs.count true = 2) : run p 0 bs ≠ 0 := by
  obtain ⟨i, rest, rfl⟩ := exists_first_one (show 0 < bs.count true by omega)
  rw [count_first_one] at h2
  obtain ⟨j, tail, rfl⟩ := exists_first_one (show 0 < rest.count true by omega)
  rw [count_first_one] at h2
  have htail : tail = List.replicate tail.length false := List.eq_replicate_iff.mpr ⟨rfl,
    fun b hb => by
    cases b with
    | false => rfl
    | true => exact absurd (List.count_pos_iff.mpr hb) (by omega)⟩
  intro h
  rw [run_append, run_zero_falses, run_cons, step_zero, if_pos rfl, run_append, run_falses,
    run_cons, htail] at h
  refine apart_spec hn ?_ (eq_zero_of_run_falses hp h)
  simp only [List.length_append, List.length_replicate, List.length_cons] at hl
  omega

/-- A string that leaves the register zero and is a burst, or has at most three
ones, has none. -/
theorem undetected {n : Nat} (hp : p.getLsbD 0 = true) (hodd : parity (bits p) = true)
    (hn : apart p n p = true) {bs : List Bool} (hl : bs.length ≤ n) (h : run p 0 bs = 0)
    (hb : Burst w bs ∨ bs.count true ≤ 3) :
    bs = List.replicate bs.length false := by
  rcases hb with hb | hb
  · exact eq_falses_of_burst hp hb h
  · have heven := even_of_run_zero hodd h
    have h2 : bs.count true ≠ 2 := fun h2 => run_two hp hn hl h2 h
    have h0 : bs.count true = 0 := by omega
    refine List.eq_replicate_iff.mpr ⟨rfl, fun b hb => ?_⟩
    cases b with
    | false => rfl
    | true => exact absurd (List.count_pos_iff.mpr hb) (by omega)

end VintageKvm.Lfsr
