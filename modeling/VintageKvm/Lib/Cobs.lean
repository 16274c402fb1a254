import Mathlib.Data.List.Basic
import VintageKvm.Lib.Word

/-!
# Frames without a zero

A `Framing` writes a string of bytes as a frame that a zero byte ends and that
has no other, so that a stream of frames can be cut at the zeros. COBS is one
(`cobs`): the string and a zero after it are cut at the zeros and after every
254 bytes, and a block's length stands before it instead of the zero after it.
-/

namespace VintageKvm

/-- What writes frames, and what reads them. -/
structure Framing where
  frame : List Byte → List Byte
  unframe : List Byte → Option (List Byte)
  /-- A frame is not empty, and the zero is its last byte. -/
  ended : ∀ bs, ∃ body, body ≠ [] ∧ (0 : Byte) ∉ body ∧ frame bs = body ++ [0]
  unframe_frame : ∀ bs, unframe (frame bs) = some bs
  length_frame : ∀ bs, (frame bs).length ≤ bs.length + bs.length / 254 + 2

namespace Cobs

/-- The bytes of a block before its end. -/
abbrev RUN_LEN : Nat := 254

/-- The frame of `bs` after the bytes `run` of a block. -/
def encodeFrom (run : List Byte) : List Byte → List Byte
  | [] => BitVec.ofNat 8 (run.length + 1) :: run ++ [0]
  | b :: bs =>
    if b = 0 then BitVec.ofNat 8 (run.length + 1) :: run ++ encodeFrom [] bs
    else if run.length + 1 = RUN_LEN then 0xFF :: (run ++ [b]) ++ encodeFrom [] bs
    else encodeFrom (run ++ [b]) bs

def encode (bs : List Byte) : List Byte := encodeFrom [] bs

/-- `left` bytes of a block are to come, and it stands for a zero after it if
`zero`. -/
def decodeFrom (left : Nat) (zero : Bool) : List Byte → Option (List Byte)
  | [] => none
  | b :: bs =>
    match left with
    | 0 =>
      if b = 0 then some []
      else (decodeFrom (b.toNat - 1) (b ≠ 0xFF) bs).map fun rest => if zero then 0 :: rest else rest
    | left + 1 => if b = 0 then none else (decodeFrom left zero bs).map (b :: ·)

def decode (bs : List Byte) : Option (List Byte) := decodeFrom 0 false bs

variable {run : List Byte}

theorem code_ok {n : Nat} (h : n < RUN_LEN) :
    (BitVec.ofNat 8 (n + 1)).toNat = n + 1 ∧ BitVec.ofNat 8 (n + 1) ≠ (0 : Byte) ∧
    BitVec.ofNat 8 (n + 1) ≠ (0xFF : Byte) := by
  have hlt : n < 254 := h
  have e : (BitVec.ofNat 8 (n + 1)).toNat = n + 1 := by
    rw [BitVec.toNat_ofNat]
    omega
  refine ⟨e, fun h0 => ?_, fun h0 => ?_⟩ <;>
    rw [h0] at e <;> simp only [BitVec.reduceToNat] at e <;> omega

theorem not_mem_snoc {b : Byte} (h : (0 : Byte) ∉ run) (hb : b ≠ 0) : (0 : Byte) ∉ run ++ [b] := by
  rw [List.mem_append, List.mem_singleton]
  exact fun h' => h'.elim h fun h0 => hb h0.symm

theorem length_snoc_lt {b : Byte} (hl : run.length < RUN_LEN) (hlen : run.length + 1 ≠ RUN_LEN) :
    (run ++ [b]).length < RUN_LEN := by
  rw [List.length_append]
  exact Nat.lt_of_le_of_ne hl hlen

/-- The bytes of a block. -/
theorem decodeFrom_run (h : (0 : Byte) ∉ run) (zero : Bool) (bs : List Byte) :
    decodeFrom run.length zero (run ++ bs) = (decodeFrom 0 zero bs).map (run ++ ·) := by
  induction run with
  | nil => exact Option.map_id'.symm
  | cons b run ih =>
    have hb : b ≠ 0 := fun hb => h (hb ▸ List.mem_cons_self)
    rw [List.length_cons, List.cons_append, decodeFrom, if_neg hb,
      ih fun h0 => h (List.mem_cons_of_mem _ h0), Option.map_map]
    rfl

/-- A block of fewer bytes than the largest. -/
theorem decodeFrom_block (h : (0 : Byte) ∉ run) (hl : run.length < RUN_LEN) (zero : Bool)
    (bs : List Byte) : decodeFrom 0 zero (BitVec.ofNat 8 (run.length + 1) :: run ++ bs) =
      (decodeFrom 0 true bs).map fun rest => if zero then 0 :: (run ++ rest) else run ++ rest := by
  obtain ⟨e, h0, hff⟩ := code_ok hl
  rw [List.cons_append, decodeFrom, if_neg h0, e, decide_eq_true hff, Nat.add_sub_cancel,
    decodeFrom_run h, Option.map_map]
  rfl

theorem decodeFrom_encodeFrom (bs : List Byte) :
    ∀ (run : List Byte), (0 : Byte) ∉ run → run.length < RUN_LEN → ∀ zero : Bool,
    decodeFrom 0 zero (encodeFrom run bs) =
      some (if zero then 0 :: (run ++ bs) else run ++ bs) := by
  induction bs with
  | nil =>
    intro run h hl zero
    rw [encodeFrom, decodeFrom_block h hl]
    rfl
  | cons b bs ih =>
    intro run h hl zero
    by_cases hb : b = 0
    · rw [encodeFrom, if_pos hb, decodeFrom_block h hl, ih [] List.not_mem_nil (by decide), hb]
      rfl
    · have hrun := not_mem_snoc h hb
      rw [encodeFrom, if_neg hb, List.append_cons run b bs]
      by_cases hlen : run.length + 1 = RUN_LEN
      · -- a block of the largest size stands for no zero
        have hlast : (run ++ [b]).length = RUN_LEN := by rw [List.length_append]; exact hlen
        rw [if_pos hlen, List.cons_append, decodeFrom, if_neg (by decide)]
        have hrest := decodeFrom_run hrun false (encodeFrom [] bs)
        rw [hlast, ih [] List.not_mem_nil (by decide)] at hrest
        rw [show ((0xFF : Byte).toNat - 1) = RUN_LEN from rfl,
          decide_eq_false (not_not.mpr rfl), hrest]
        rfl
      · rw [if_neg hlen, ih _ hrun (length_snoc_lt hl hlen)]

theorem encodeFrom_ended (bs : List Byte) :
    ∀ run : List Byte, (0 : Byte) ∉ run → run.length < RUN_LEN →
    ∃ body, body ≠ [] ∧ (0 : Byte) ∉ body ∧ encodeFrom run bs = body ++ [0] := by
  induction bs with
  | nil =>
    intro run h hl
    refine ⟨_, List.cons_ne_nil _ _, fun h0 => ?_, rfl⟩
    exact (List.mem_cons.mp h0).elim (fun e => (code_ok hl).2.1 e.symm) h
  | cons b bs ih =>
    intro run h hl
    by_cases hb : b = 0
    · obtain ⟨body, -, h0, e⟩ := ih [] List.not_mem_nil (by decide)
      refine ⟨BitVec.ofNat 8 (run.length + 1) :: run ++ body, List.cons_ne_nil _ _,
        fun hm => ?_, ?_⟩
      · rcases List.mem_append.mp hm with hm | hm
        · exact (List.mem_cons.mp hm).elim (fun e => (code_ok hl).2.1 e.symm) h
        · exact h0 hm
      · rw [encodeFrom, if_pos hb, e, List.append_assoc]
    · have hrun := not_mem_snoc h hb
      rw [encodeFrom, if_neg hb]
      by_cases hlen : run.length + 1 = RUN_LEN
      · obtain ⟨body, -, h0, e⟩ := ih [] List.not_mem_nil (by decide)
        refine ⟨0xFF :: (run ++ [b]) ++ body, List.cons_ne_nil _ _, fun hm => ?_, ?_⟩
        · rcases List.mem_append.mp hm with hm | hm
          · exact (List.mem_cons.mp hm).elim (fun e => absurd e (by decide)) hrun
          · exact h0 hm
        · rw [if_pos hlen, e, List.append_assoc]
      · rw [if_neg hlen]
        exact ih _ hrun (length_snoc_lt hl hlen)

theorem length_encodeFrom (bs : List Byte) : ∀ run : List Byte, run.length < RUN_LEN →
    (encodeFrom run bs).length ≤ run.length + bs.length + (run.length + bs.length) / 254 + 2 := by
  induction bs with
  | nil =>
    intro run _
    simp only [encodeFrom, List.length_append, List.length_cons, List.length_nil]
    omega
  | cons b bs ih =>
    intro run hl
    have h := ih [] (by decide)
    rw [List.length_nil] at h
    rw [encodeFrom]
    split
    · simp only [List.length_append, List.length_cons]
      omega
    · split
      next hlen =>
        have hlen : run.length = 253 := Nat.succ.inj hlen
        simp only [List.length_append, List.length_cons, List.length_nil]
        omega
      next hlen =>
        have h := ih (run ++ [b]) (length_snoc_lt hl hlen)
        simp only [List.length_append, List.length_cons, List.length_nil] at h ⊢
        omega

end Cobs

open Cobs in
def cobs : Framing where
  frame := encode
  unframe := decode
  ended bs := encodeFrom_ended bs [] List.not_mem_nil (by decide)
  unframe_frame bs := decodeFrom_encodeFrom bs [] List.not_mem_nil (by decide) false
  length_frame bs := by
    have h := length_encodeFrom bs [] (by decide)
    rw [List.length_nil, Nat.zero_add] at h
    exact h

end VintageKvm
