import VintageKvm.Lib.Lfsr
import Mathlib.Algebra.CharP.Two
import Mathlib.Algebra.Polynomial.Div
import Mathlib.Data.List.GetD
import Mathlib.Algebra.Field.ZMod

/-!
# Remainders of bit strings

A bit string is a polynomial over GF(2), its first bit the leading coefficient
(`poly`). A feedback shift register divides it: what the register holds is the
remainder of its contents and of what it takes in (`poly_run`). Started with
ones it is the remainder of the string with as many of its first bits
complemented, followed by as many zeros (`run_allOnes`).
-/

namespace VintageKvm.Lfsr

open Polynomial

/-! ## Bit strings as polynomials -/

/-- A bit as a coefficient. -/
def ofBit (b : Bool) : ZMod 2 := if b then 1 else 0

theorem ofBit_xor (a b : Bool) : ofBit (a ^^ b) = ofBit a + ofBit b := by
  revert a b
  decide

/-- A bit string as a polynomial, the first bit leading. -/
noncomputable def poly (bs : List Bool) : (ZMod 2)[X] := bs.foldl (fun f b => f * X + C (ofBit b)) 0

theorem poly_concat (bs : List Bool) (b : Bool) : poly (bs ++ [b]) = poly bs * X + C (ofBit b) :=
  List.foldl_concat ..

theorem poly_append (bs cs : List Bool) : poly (bs ++ cs) = poly bs * X ^ cs.length + poly cs := by
  induction cs using List.reverseRecOn with
  | nil => simp [poly]
  | append_singleton cs c ih =>
    rw [← List.append_assoc, poly_concat, ih, poly_concat, List.length_append,
      List.length_singleton]
    ring

theorem poly_cons (b : Bool) (bs : List Bool) :
    poly (b :: bs) = C (ofBit b) * X ^ bs.length + poly bs := by
  have h := poly_append [b] bs
  rwa [show poly [b] = C (ofBit b) by simp [poly]] at h

theorem coeff_poly (bs : List Bool) (i : Nat) :
    (poly bs).coeff i = ofBit (bs.reverse.getD i false) := by
  induction bs using List.reverseRecOn generalizing i with
  | nil => simp [poly, ofBit]
  | append_singleton bs b ih =>
    rw [poly_concat, List.reverse_concat, coeff_add]
    cases i with
    | zero => simp
    | succ i => rw [coeff_mul_X, ih, coeff_C_succ, add_zero, List.getD_cons_succ]

theorem degree_poly (bs : List Bool) : degree (poly bs) < bs.length := by
  rw [degree_lt_iff_coeff_zero]
  intro i hi
  rw [coeff_poly, List.getD_eq_default _ _ (by rwa [List.length_reverse])]
  rfl

theorem poly_falses (n : Nat) : poly (List.replicate n false) = 0 := by
  induction n with
  | zero => simp [poly]
  | succ n ih =>
    rw [List.replicate_succ, poly_cons, ih, add_zero, show ofBit false = 0 from rfl, C_0, zero_mul]

/-- Every bit complemented. -/
theorem poly_not (bs : List Bool) :
    poly (bs.map not) = poly bs + poly (List.replicate bs.length true) := by
  induction bs with
  | nil => simp [poly]
  | cons b bs ih =>
    have hnot : ofBit (!b) = ofBit b + ofBit true := by rw [← ofBit_xor, Bool.xor_true]
    rw [List.map_cons, List.length_cons, List.replicate_succ, poly_cons, poly_cons, poly_cons, ih,
      List.length_map, List.length_replicate, hnot, C_add]
    ring

/-- The first `n` bits complemented. -/
def flipFirst (n : Nat) (bs : List Bool) : List Bool := (bs.take n).map not ++ bs.drop n

theorem poly_flipFirst {n : Nat} {bs : List Bool} (h : n ≤ bs.length) :
    poly (flipFirst n bs) = poly bs + poly (List.replicate n true) * X ^ (bs.length - n) := by
  have hsplit := poly_append (bs.take n) (bs.drop n)
  rw [List.take_append_drop, List.length_drop] at hsplit
  rw [flipFirst, poly_append, poly_not, List.length_take_of_le h, List.length_drop, hsplit]
  ring

/-! ## Words -/

variable {w : Nat}

theorem coeff_poly_bits (s : BitVec w) (i : Nat) :
    (poly (bits s)).coeff i = ofBit (s.getLsbD i) := by
  rw [coeff_poly]
  by_cases hi : i < w
  · have hlen : i < (bits s).length := by rwa [length_bits]
    have hlast : w - 1 - i < w := by omega
    rw [List.getD_eq_getElem?_getD, List.getElem?_reverse hlen, length_bits, bits,
      List.getElem?_map, List.getElem?_range hlast, Option.map_some, Option.getD_some,
      BitVec.getMsbD_eq_getLsbD, decide_eq_true hlast,
      Bool.true_and, show w - 1 - (w - 1 - i) = i by omega]
  · rw [List.getD_eq_default _ _ (by rw [List.length_reverse, length_bits]; omega),
      BitVec.getLsbD_of_ge _ _ (by omega)]

theorem degree_poly_bits (s : BitVec w) : degree (poly (bits s)) < w := by
  have h := degree_poly (bits s)
  rwa [length_bits] at h

theorem poly_bits_xor (s t : BitVec w) : poly (bits (s ^^^ t)) = poly (bits s) + poly (bits t) := by
  ext i
  rw [coeff_add, coeff_poly_bits, coeff_poly_bits, coeff_poly_bits, BitVec.getLsbD_xor, ofBit_xor]

theorem poly_bits_zero : poly (bits (0 : BitVec w)) = 0 := by
  ext i
  rw [coeff_poly_bits, coeff_zero, show (0 : BitVec w).getLsbD i = false from BitVec.getLsbD_zero]
  rfl

/-- What is shifted out is the leading coefficient. -/
theorem poly_bits_shift (s : BitVec w) :
    poly (bits (s <<< 1)) + C (ofBit s.msb) * X ^ w = poly (bits s) * X := by
  ext i
  rw [coeff_add, coeff_poly_bits, coeff_C_mul, coeff_X_pow, BitVec.getLsbD_shiftLeft]
  cases i with
  | zero =>
    rw [coeff_mul_X_zero, decide_eq_true Nat.one_pos, Bool.not_true, Bool.and_false, Bool.false_and]
    cases w with
    | zero => rw [BitVec.eq_nil s]; rfl
    | succ w => rw [if_neg (Nat.zero_ne_add_one w), mul_zero, add_zero]; rfl
  | succ i =>
    rw [coeff_mul_X, coeff_poly_bits, decide_eq_false (Nat.not_lt.mpr (Nat.le_add_left 1 i)),
      Bool.not_false, Bool.and_true, Nat.add_sub_cancel]
    by_cases hlt : i + 1 < w
    · rw [decide_eq_true hlt, Bool.true_and, if_neg (Nat.ne_of_lt hlt), mul_zero, add_zero]
    · rw [decide_eq_false hlt, Bool.false_and, show ofBit false = 0 from rfl, zero_add]
      by_cases heq : i + 1 = w
      · rw [if_pos heq, mul_one, BitVec.msb_eq_getLsbD_last, show w - 1 = i by omega]
      · rw [if_neg heq, mul_zero, BitVec.getLsbD_of_ge _ _ (by omega)]
        rfl

/-- The coefficients below `w`, as a word. -/
noncomputable def coeffs : (w : Nat) → (ZMod 2)[X] → BitVec w
  | 0, _ => BitVec.nil
  | w + 1, f => (coeffs w f).cons (decide (f.coeff w = 1))

theorem getLsbD_coeffs (f : (ZMod 2)[X]) {w i : Nat} (hi : i < w) :
    (coeffs w f).getLsbD i = decide (f.coeff i = 1) := by
  induction w with
  | zero => cases hi
  | succ w ih =>
    rw [coeffs, BitVec.getLsbD_cons]
    by_cases heq : i = w
    · rw [if_pos heq, heq]
    · rw [if_neg heq, ih (by omega)]

theorem coeffs_poly_bits (s : BitVec w) : coeffs w (poly (bits s)) = s := by
  refine BitVec.eq_of_getLsbD_eq fun i hi => ?_
  rw [getLsbD_coeffs _ hi, coeff_poly_bits]
  cases s.getLsbD i <;> decide

theorem bits_allOnes (n : Nat) : bits (BitVec.allOnes n) = List.replicate n true := by
  refine List.eq_replicate_iff.mpr ⟨length_bits _, fun b hb => ?_⟩
  obtain ⟨i, hi, rfl⟩ := List.mem_map.mp hb
  rw [BitVec.getMsbD_allOnes, decide_eq_true (List.mem_range.mp hi)]

/-! ## The register divides -/

variable (p : BitVec w)

/-- The divisor of the register with the polynomial `p`. -/
noncomputable def divisor : (ZMod 2)[X] := X ^ w + poly (bits p)

theorem divisor_monic : (divisor p).Monic := monic_X_pow_add (degree_poly_bits p)

theorem degree_divisor : degree (divisor p) = w := by
  rw [divisor, degree_add_eq_left_of_degree_lt (by rw [degree_X_pow]; exact degree_poly_bits p),
    degree_X_pow]

/-- A step subtracts the divisor, or nothing. -/
theorem poly_step (s : BitVec w) (b : Bool) :
    poly (bits (step p s b)) + divisor p * C (ofBit (s.msb ^^ b)) = poly (bits s) * X +
      C (ofBit b) * X ^ w := by
  have hsub : poly (bits (if s.msb ^^ b then p else 0)) =
      poly (bits p) * C (ofBit (s.msb ^^ b)) := by
    cases s.msb ^^ b with
    | false =>
      rw [if_neg Bool.false_ne_true, poly_bits_zero, show ofBit false = 0 from rfl, C_0, mul_zero]
    | true => rw [if_pos rfl, show ofBit true = 1 from rfl, C_1, mul_one]
  have htwice :
      poly (bits p) * C (ofBit (s.msb ^^ b)) + poly (bits p) * C (ofBit (s.msb ^^ b)) = 0 :=
    CharTwo.add_self_eq_zero _
  have hout : C (ofBit (s.msb ^^ b)) = C (ofBit s.msb) + C (ofBit b) := by rw [ofBit_xor, C_add]
  rw [step_eq, poly_bits_xor, hsub, divisor, ← poly_bits_shift]
  calc poly (bits (s <<< 1)) + poly (bits p) * C (ofBit (s.msb ^^ b)) +
          (X ^ w + poly (bits p)) * C (ofBit (s.msb ^^ b))
      = poly (bits (s <<< 1)) + X ^ w * C (ofBit (s.msb ^^ b)) +
          (poly (bits p) * C (ofBit (s.msb ^^ b)) + poly (bits p) * C (ofBit (s.msb ^^ b))) := by
            ring
    _ = poly (bits (s <<< 1)) + C (ofBit s.msb) * X ^ w + C (ofBit b) * X ^ w := by
      rw [htwice, hout]
      ring

/-- What the register holds is congruent to its contents, shifted, and what was
taken in. -/
theorem poly_run (s : BitVec w) (bs : List Bool) : ∃ q, poly (bits (run p s bs)) + divisor p * q =
    poly (bits s) * X ^ bs.length + poly bs * X ^ w := by
  induction bs generalizing s with
  | nil => exact ⟨0, by simp [run, poly]⟩
  | cons b bs ih =>
    obtain ⟨q, hq⟩ := ih (step p s b)
    refine ⟨q + C (ofBit (s.msb ^^ b)) * X ^ bs.length, ?_⟩
    have hstep := poly_step p s b
    rw [run_cons, poly_cons, List.length_cons]
    calc poly (bits (run p (step p s b) bs)) +
      divisor p * (q + C (ofBit (s.msb ^^ b)) * X ^ bs.length)
        = (poly (bits (run p (step p s b) bs)) + divisor p * q) +
        divisor p * C (ofBit (s.msb ^^ b)) * X ^ bs.length := by ring
      _ = (poly (bits (step p s b)) + divisor p * C (ofBit (s.msb ^^ b))) * X ^ bs.length +
      poly bs * X ^ w := by
        rw [hq]
        ring
      _ = poly (bits s) * X ^ (bs.length + 1) +
        (C (ofBit b) * X ^ bs.length + poly bs) * X ^ w := by
        rw [hstep]
        ring

/-- The register holds the remainder. -/
theorem poly_run_eq (s : BitVec w) (bs : List Bool) :
    poly (bits (run p s bs)) = (poly (bits s) * X ^ bs.length + poly bs * X ^ w) %ₘ divisor p := by
  obtain ⟨q, hq⟩ := poly_run p s bs
  have hdeg : degree (poly (bits (run p s bs))) < degree (divisor p) := by
    rw [degree_divisor]
    exact degree_poly_bits _
  exact (div_modByMonic_unique q _ (divisor_monic p) ⟨hq, hdeg⟩).2.symm

/-- The remainder of a string with its first `w` bits complemented, as if `w`
zeros followed it. -/
noncomputable def remainder (w : Nat) (g : (ZMod 2)[X]) (bs : List Bool) : BitVec w :=
  coeffs w (poly (flipFirst w (bs ++ List.replicate w false)) %ₘ g)

/-- A register of ones leaves that remainder. -/
theorem run_allOnes (bs : List Bool) :
    run p (BitVec.allOnes w) bs = remainder w (divisor p) bs := by
  have hlen : (bs ++ List.replicate w false).length = bs.length + w := by
    rw [List.length_append, List.length_replicate]
  have hflip : poly (flipFirst w (bs ++ List.replicate w false)) =
      poly (bits (BitVec.allOnes w)) * X ^ bs.length + poly bs * X ^ w := by
    rw [poly_flipFirst (by rw [hlen]; exact Nat.le_add_left _ _), hlen, Nat.add_sub_cancel,
      poly_append, poly_falses, List.length_replicate, bits_allOnes]
    ring
  rw [remainder, hflip, ← poly_run_eq, coeffs_poly_bits]

end VintageKvm.Lfsr
