import VintageKvm.Lib.Remainder
import VintageKvm.Protocol.Crc

/-!
# The CRCs as shift registers

The CRC-16 is a feedback shift register over the bits of the buffer, and the
CRC-32 one that is mirrored, and takes the bits of each byte from the lowest
on. So both are the remainders of polynomial division that define them
(`crc16_eq`, `crc32_eq`).
-/

namespace VintageKvm.Protocol

/-! ## CRC-16 -/

/-- The bits of a string in the order of transmission. -/
def bitsOf (bs : List Byte) : List Bool := bs.flatMap Lfsr.bits

theorem bitsOf_append (bs cs : List Byte) : bitsOf (bs ++ cs) = bitsOf bs ++ bitsOf cs :=
  List.flatMap_append

theorem length_bitsOf (bs : List Byte) : (bitsOf bs).length = 8 * bs.length := by
  induction bs with
  | nil => rfl
  | cons b bs ih =>
    show (Lfsr.bits b ++ bitsOf bs).length = _
    rw [List.length_append, Lfsr.length_bits, ih, List.length_cons]
    omega

theorem bitStep_eq (s : Word) : Crc16.bitStep s = Lfsr.step Crc16.POLY s false := by
  have hmsb : s &&& 0x8000 ≠ 0 ↔ s.msb = true := by
    rw [show (0x8000 : Word) = BitVec.twoPow 16 15 by decide, BitVec.and_twoPow,
      BitVec.msb_eq_getLsbD_last]
    cases s.getLsbD 15 <;> decide
  rw [Crc16.bitStep, Lfsr.step, Bool.xor_false]
  exact if_congr hmsb rfl rfl

theorem byteStep_eq (s : Word) (b : Byte) :
    Crc16.byteStep s b = Lfsr.run Crc16.POLY s (Lfsr.bits b) := by
  generalize hv : b.setWidth 16 <<< 8 = v
  have hbits : Lfsr.bits b = (List.range 8).map v.getMsbD := by
    refine List.map_congr_left fun i hi => ?_
    have hi := List.mem_range.mp hi
    rw [← hv, BitVec.getMsbD_shiftLeft, BitVec.getMsbD_setWidth, decide_eq_true (by omega),
      Bool.true_and, show i + 8 + 8 - 16 = i by omega]
  have hzero : v <<< 8 = 0 := by
    rw [← hv, ← BitVec.shiftLeft_add]
    exact BitVec.shiftLeft_eq_zero le_rfl
  have hstep : Crc16.bitStep = (Lfsr.step Crc16.POLY · false) := funext bitStep_eq
  rw [Crc16.byteStep, hv, hstep, Lfsr.run_top _ _ _ (by decide) hzero, hbits]

theorem foldl_byteStep (s : Word) (bs : List Byte) :
    bs.foldl Crc16.byteStep s = Lfsr.run Crc16.POLY s (bitsOf bs) := by
  induction bs generalizing s with
  | nil => rfl
  | cons b bs ih =>
    rw [List.foldl_cons, ih, byteStep_eq]
    exact (Lfsr.run_append Crc16.POLY s (Lfsr.bits b) (bitsOf bs)).symm

/-- CRC-16 is the remainder of the message, the first 16 bits complemented. -/
theorem crc16_eq (buf : List Byte) :
    crc16 buf = Lfsr.remainder 16 (Lfsr.divisor Crc16.POLY) (bitsOf buf) := by
  have hinit : Crc16.INIT = BitVec.allOnes 16 := by decide
  rw [crc16, foldl_byteStep, hinit, Lfsr.run_allOnes]

/-! ## CRC-32 -/

namespace Crc32

/-- The IEEE polynomial, of which `POLY` is the mirror image. -/
def IEEE : DWord := 0x04C11DB7

end Crc32

/-- The bits of a string, each byte from its lowest bit on. -/
def reflectedBits (bs : List Byte) : List Bool := bs.flatMap fun b => (List.range 8).map b.getLsbD

theorem reverse_bitStep (s : DWord) :
    (Crc32.bitStep s).reverse = Lfsr.step Crc32.IEEE s.reverse false := by
  have hlow : s &&& 1 ≠ 0 ↔ s.getLsbD 0 = true := by
    rw [show (1 : DWord) = BitVec.twoPow 32 0 by decide, BitVec.and_twoPow]
    cases s.getLsbD 0 <;> decide
  have hpoly : Crc32.POLY = Crc32.IEEE.reverse := by decide +kernel
  rw [Lfsr.step_reverse, Crc32.bitStep, hpoly]
  exact congrArg _ (if_congr hlow rfl rfl)

theorem reverse_iterate (n : Nat) (s : DWord) :
    (Crc32.bitStep^[n] s).reverse = (Lfsr.step Crc32.IEEE · false)^[n] s.reverse := by
  induction n generalizing s with
  | zero => rfl
  | succ n ih => rw [Function.iterate_succ_apply, ih, reverse_bitStep, Function.iterate_succ_apply]

theorem reverse_byteStep (s : DWord) (b : Byte) :
    (Crc32.byteStep s b).reverse =
      Lfsr.run Crc32.IEEE s.reverse ((List.range 8).map b.getLsbD) := by
  have hbits : (List.range 8).map (b.setWidth 32).reverse.getMsbD =
      (List.range 8).map b.getLsbD := by
    refine List.map_congr_left fun i hi => ?_
    have hi := List.mem_range.mp hi
    rw [BitVec.getMsbD_reverse, BitVec.getLsbD_setWidth, decide_eq_true (by omega), Bool.true_and]
  have hzero : (b.setWidth 32).reverse <<< 8 = 0 := by
    refine BitVec.eq_of_getMsbD_eq fun i _ => ?_
    rw [BitVec.getMsbD_shiftLeft, BitVec.getMsbD_reverse, BitVec.getLsbD_setWidth,
      BitVec.getLsbD_of_ge b _ (by omega), Bool.and_false]
    exact (BitVec.getMsbD_zero).symm
  rw [Crc32.byteStep, reverse_iterate, Lfsr.reverse_xor,
    Lfsr.run_top _ _ _ (by decide) hzero, hbits]

theorem reverse_foldl (s : DWord) (bs : List Byte) :
    (bs.foldl Crc32.byteStep s).reverse = Lfsr.run Crc32.IEEE s.reverse (reflectedBits bs) := by
  induction bs generalizing s with
  | nil => rfl
  | cons b bs ih =>
    rw [List.foldl_cons, ih, reverse_byteStep]
    exact (Lfsr.run_append Crc32.IEEE s.reverse ((List.range 8).map b.getLsbD)
      (reflectedBits bs)).symm

/-- CRC-32 is the remainder of the message with its bits reflected in each byte,
the first 32 complemented; reflected and complemented itself. -/
theorem crc32_eq (buf : List Byte) :
    crc32 buf = ~~~(Lfsr.remainder 32 (Lfsr.divisor Crc32.IEEE) (reflectedBits buf)).reverse := by
  have hinit : Crc32.INIT.reverse = BitVec.allOnes 32 := by decide +kernel
  have hfold := reverse_foldl Crc32.INIT buf
  rw [hinit, Lfsr.run_allOnes] at hfold
  rw [crc32, ← hfold, BitVec.reverse_reverse_eq]
  exact BitVec.xor_allOnes

/-! ## The polynomials -/

section

open Polynomial

theorem divisor_crc16 : Lfsr.divisor Crc16.POLY = X ^ 16 + X ^ 12 + X ^ 5 + 1 := by
  have hbits : Lfsr.bits Crc16.POLY = [false, false, false, true, false, false, false, false, false,
    false, true, false, false, false, false, true] := by decide
  rw [Lfsr.divisor, hbits]
  simp only [Lfsr.poly, Lfsr.ofBit, List.foldl_cons, List.foldl_nil, Bool.false_eq_true, if_true,
    if_false, C_0, C_1]
  ring

theorem divisor_crc32 : Lfsr.divisor Crc32.IEEE = X ^ 32 + X ^ 26 + X ^ 23 + X ^ 22 + X ^ 16 +
    X ^ 12 + X ^ 11 + X ^ 10 + X ^ 8 + X ^ 7 + X ^ 5 + X ^ 4 + X ^ 2 + X + 1 := by
  have hbits : Lfsr.bits Crc32.IEEE = [false, false, false, false, false, true, false, false, true,
    true, false, false, false, false, false, true, false, false, false, true, true, true, false,
    true, true, false, true, true, false, true,
    true, true] := by decide
  rw [Lfsr.divisor, hbits]
  simp only [Lfsr.poly, Lfsr.ofBit, List.foldl_cons, List.foldl_nil, Bool.false_eq_true, if_true,
    if_false, C_0, C_1]
  ring

end

end VintageKvm.Protocol
