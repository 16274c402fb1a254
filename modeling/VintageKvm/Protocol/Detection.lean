import VintageKvm.Protocol.CrcRegister
import VintageKvm.Protocol.Packet

/-!
# The errors a packet's check detects

The CRC of a packet is a shift register over its bits, and its two bytes empty
the register. What `decode` accepts of the length of a frame differs from it by
a string of bits that leaves the register zero: it is no burst of 16 bits and
has more than three ones (`decode_detects`).
-/

namespace VintageKvm.Protocol

/-- Where two strings of one length differ. -/
def diff (bs cs : List Byte) : List Bool := List.zipWith xor (bitsOf bs) (bitsOf cs)

theorem diff_append {bs bs' : List Byte} (hl : bs.length = bs'.length) (cs cs' : List Byte) :
    diff (bs ++ cs) (bs' ++ cs') = diff bs bs' ++ diff cs cs' := by
  rw [diff, bitsOf_append, bitsOf_append,
    List.zipWith_append (by rw [length_bitsOf, length_bitsOf, hl]), ← diff, ← diff]

theorem diff_self (bs : List Byte) : diff bs bs = List.replicate (bitsOf bs).length false :=
  Lfsr.zipWith_self _

theorem eq_of_bits {b c : Byte} (h : Lfsr.bits b = Lfsr.bits c) : b = c := by
  refine BitVec.eq_of_getMsbD_eq fun i hi => ?_
  exact List.map_inj_left.mp h i (List.mem_range.mpr hi)

/-- Strings that differ nowhere are equal. -/
theorem eq_of_diff {bs cs : List Byte} (hl : bs.length = cs.length)
    (h : ∀ b ∈ diff bs cs, b = false) : bs = cs := by
  induction bs generalizing cs with
  | nil => exact (List.length_eq_zero_iff.mp hl.symm).symm
  | cons b bs ih =>
    obtain ⟨c, cs, rfl⟩ := List.exists_cons_of_length_eq_add_one hl.symm
    have hlen : (Lfsr.bits b).length = (Lfsr.bits c).length := by
      rw [Lfsr.length_bits, Lfsr.length_bits]
    have hsplit :
        diff (b :: bs) (c :: cs) = List.zipWith xor (Lfsr.bits b) (Lfsr.bits c) ++ diff bs cs :=
      List.zipWith_append hlen
    rw [hsplit] at h
    have hbits : Lfsr.bits b = Lfsr.bits c := by
      refine List.ext_getElem hlen fun i h₁ h₂ => ?_
      have hi :=
        h ((Lfsr.bits b)[i] ^^ (Lfsr.bits c)[i]) (List.mem_append_left _ (List.mem_iff_getElem.mpr
        ⟨i, by rw [List.length_zipWith]; omega, List.getElem_zipWith⟩))
      exact bne_eq_false_iff_eq.mp hi
    rw [eq_of_bits hbits, ih (Nat.succ.inj hl) fun x hx => h x (List.mem_append_right _ hx)]

/-! ## The bits of a packet -/

theorem bitsOf_be16 (w : Word) : bitsOf (be16 w) = Lfsr.bits w := by
  have hhi : Lfsr.bits (hi w) = (List.range 8).map w.getMsbD := List.map_congr_left fun i hi => by
    have hi := List.mem_range.mp hi
    rw [VintageKvm.hi, BitVec.getMsbD_setWidth, BitVec.getMsbD_ushiftRight,
      decide_eq_true (by omega), Bool.true_and,
      decide_eq_true (by omega), decide_eq_false (by omega), show i + 16 - 8 - 8 = i by omega]
    rfl
  have hlo : Lfsr.bits (lo w) = (List.range 8).map fun i => w.getMsbD (8 + i) := List.map_congr_left
    fun i hi => by
    rw [lo, BitVec.getMsbD_setWidth, decide_eq_true (by omega), Bool.true_and,
      show i + 16 - 8 = 8 + i by omega]
  have hrange : List.range 16 = List.range 8 ++ (List.range 8).map (8 + ·) := by decide
  show Lfsr.bits (hi w) ++ (Lfsr.bits (lo w) ++ []) = _
  rw [List.append_nil, hhi, hlo, Lfsr.bits, hrange, List.map_append, List.map_map]
  rfl

/-- What the CRC of a packet is over, and the CRC. -/
def covered (cmd seq : Byte) (payload : List Byte) : List Byte :=
  body cmd seq payload ++ be16 (crc16 (body cmd seq payload))

theorem frame_eq (cmd seq : Byte) (payload : List Byte) :
    frame cmd seq payload = [SOH] ++ covered cmd seq payload ++ [ETX] := by
  rw [frame, covered, ← List.append_assoc]
  rfl

/-- The CRC empties the register. -/
theorem run_covered (cmd seq : Byte) (payload : List Byte) :
    Lfsr.run Crc16.POLY Crc16.INIT (bitsOf (covered cmd seq payload)) = 0 := by
  have hbody : Lfsr.run Crc16.POLY Crc16.INIT (bitsOf (body cmd seq payload)) =
      crc16 (body cmd seq payload) :=
    (foldl_byteStep _ _).symm
  rw [covered, bitsOf_append, Lfsr.run_append, hbody, bitsOf_be16, Lfsr.run_bits]

/-- The difference of two frames of one length leaves the register zero. -/
theorem run_diff (cmd seq cmd' seq' : Byte) {payload payload' : List Byte}
    (hl : payload.length = payload'.length) :
    Lfsr.run Crc16.POLY 0 (diff (frame cmd seq payload) (frame cmd' seq' payload')) = 0 := by
  have hlen : (covered cmd seq payload).length = (covered cmd' seq' payload').length := by
    rw [covered, covered, List.length_append, List.length_append, length_body, length_body, hl]
    rfl
  have hcov := Lfsr.run_xor Crc16.POLY (by rw [length_bitsOf, length_bitsOf, hlen] :
    (bitsOf (covered cmd seq payload)).length = (bitsOf (covered cmd' seq' payload')).length)
      Crc16.INIT Crc16.INIT
  rw [run_covered, run_covered] at hcov
  replace hcov :
    Lfsr.run Crc16.POLY 0 (diff (covered cmd seq payload) (covered cmd' seq' payload')) = 0 := hcov
  rw [frame_eq, frame_eq, diff_append (by rw [List.length_append, List.length_append, hlen]),
    diff_append rfl, diff_self, diff_self, Lfsr.run_append, Lfsr.run_append, Lfsr.run_zero_falses,
    hcov, Lfsr.run_zero_falses]

/-! ## What `decode` detects -/

/-- The register's polynomial, and how far apart two ones may be in a frame. -/
theorem poly_ok : Crc16.POLY.getLsbD 0 = true ∧ Lfsr.parity (Lfsr.bits Crc16.POLY) = true ∧
    Lfsr.apart Crc16.POLY (8 * MAX_PACKET) Crc16.POLY = true := by
  decide +kernel

/-- A string of the length of a frame that differs from it by a burst of at most
16 bits, or in at most three bits, is not accepted. -/
theorem decode_detects (cmd seq : Byte) {payload g : List Byte} (hp : payload.length ≤ MAX_PAYLOAD)
    (hl : g.length = (frame cmd seq payload).length) (hne : g ≠ frame cmd seq payload)
    (herr : Lfsr.Burst 16 (diff (frame cmd seq payload) g) ∨
      (diff (frame cmd seq payload) g).count true ≤ 3) :
    ∃ e, decode g = .error e := by
  cases hd : decode g with
  | error e => exact ⟨e, rfl⟩
  | ok p =>
    have hg := (decode_eq_ok_iff g p).mp hd
    have hlen : payload.length = p.payload.bytes.length := by
      rw [hg, length_frame, length_frame] at hl
      exact (Nat.add_right_cancel hl).symm
    have hrun := run_diff cmd seq p.cmd p.seq hlen
    rw [← hg] at hrun
    have hdl : (diff (frame cmd seq payload) g).length ≤ 8 * MAX_PACKET := by
      rw [diff, List.length_zipWith, length_bitsOf, length_bitsOf, hl, Nat.min_self, length_frame]
      exact Nat.mul_le_mul_left 8 (Nat.add_le_add_right hp OVERHEAD)
    obtain ⟨hlow, hodd, hfar⟩ := poly_ok
    have hnone := Lfsr.undetected hlow hodd hfar hdl hrun herr
    refine absurd (eq_of_diff hl.symm fun b hb => ?_).symm hne
    rw [hnone] at hb
    exact List.eq_of_mem_replicate hb

/-- An empty packet with a bit changed in each of its command, its length and its
CRC. -/
theorem decode_detects_three :
    ∃ e, decode [0x01, 0x41, 0x00, 0x00, 0x02, 0xEB, 0x5C, 0x03] = .error e :=
  decode_detects 0x40 0 (show ([] : List Byte).length ≤ MAX_PAYLOAD by decide) (by decide +kernel)
    (by decide +kernel) (.inr (by decide +kernel))

end VintageKvm.Protocol
