import Mathlib.Data.Nat.ModEq
import Mathlib.Logic.Function.Basic

/-!
# A ring that a DMA channel writes

`DmaRing n α`: `n` slots of four bytes, the write address of the channel, which
wraps at their end, and the index that the reader is at. The reader knows the
words to be read by a difference modulo `n` only. As long as they are fewer
than the slots the ring is a queue (`Holds`): a word written goes to its end
(`Holds.dma`), the reader takes the first (`Holds.advance`), and sees how many
there are (`Holds.pending_eq`).
-/

namespace VintageKvm

structure DmaRing (n : Nat) (α : Type*) where
  baseAddr : Nat
  writeAddr : Nat
  lastTail : Nat
  words : Nat → α

namespace DmaRing

variable {n : Nat} {α : Type*} (r : DmaRing n α)

/-- The slot that the channel writes next. -/
def writeSlot : Nat := (r.writeAddr - r.baseAddr) / 4

/-- The channel writes a word. -/
def dma (word : α) : DmaRing n α :=
  { r with
    words := Function.update r.words r.writeSlot word
    writeAddr := r.baseAddr + (r.writeAddr - r.baseAddr + 4) % (4 * n) }

def head : Nat := r.writeSlot % n

def pending : Nat := (r.head + n - r.lastTail) % n

/-- The word at the reader's index. -/
def tail : α := r.words r.lastTail

/-- The reader goes on. -/
def advance : DmaRing n α := { r with lastTail := (r.lastTail + 1) % n }

/-- The words to be read. -/
structure Holds (q : List α) : Prop where
  few : q.length < n
  tail : r.lastTail < n
  write : r.writeAddr = r.baseAddr + 4 * ((r.lastTail + q.length) % n)
  words : ∀ i (h : i < q.length), r.words ((r.lastTail + i) % n) = q[i]

variable {r} {q : List α} {w : α}

theorem Holds.empty (hn : 0 < n) (baseAddr : Nat) (words : Nat → α) :
    Holds ⟨baseAddr, baseAddr, 0, words⟩ ([] : List α) (n := n) where
  few := hn
  tail := hn
  write := by
    rw [List.length_nil, Nat.add_zero, Nat.zero_mod]
    rfl
  words _ h := nomatch h

theorem Holds.head_eq (h : r.Holds q) :
    r.writeSlot = (r.lastTail + q.length) % n ∧ r.head = (r.lastTail + q.length) % n := by
  have hslot : r.writeSlot = (r.lastTail + q.length) % n := by
    rw [writeSlot, h.write, Nat.add_sub_cancel_left, Nat.mul_div_cancel_left _ (by decide)]
  exact ⟨hslot, by rw [head, hslot, Nat.mod_mod]⟩

/-- The head is ahead of the tail, or a lap further. -/
theorem Holds.head_cases (h : r.Holds q) :
    r.head = r.lastTail + q.length ∨ r.head + n = r.lastTail + q.length ∧ r.head < r.lastTail := by
  have hfew := h.few
  have htail := h.tail
  rw [h.head_eq.2]
  rcases Nat.lt_or_ge (r.lastTail + q.length) n with hlt | hge
  · exact .inl (Nat.mod_eq_of_lt hlt)
  · have hwrap : (r.lastTail + q.length) % n = r.lastTail + q.length - n := by
      rw [Nat.mod_eq_sub_mod hge]
      exact Nat.mod_eq_of_lt (by omega)
    rw [hwrap]
    exact .inr (by omega)

theorem Holds.pending_eq (h : r.Holds q) : r.pending = q.length := by
  have hfew := h.few
  have htail := h.tail
  rw [pending]
  rcases h.head_cases with he | ⟨he, -⟩
  · rw [he, show r.lastTail + q.length + n - r.lastTail = q.length + n by omega,
      Nat.add_mod_right, Nat.mod_eq_of_lt hfew]
  · rw [he, Nat.add_sub_cancel_left, Nat.mod_eq_of_lt hfew]

theorem Holds.empty_iff (h : r.Holds q) : r.lastTail = r.head ↔ q = [] := by
  rw [← List.length_eq_zero_iff]
  rcases h.head_cases with he | ⟨he, hlt⟩
  · omega
  · have htail := h.tail
    omega

/-- Different places among the next `n` are different slots. -/
theorem slot_ne {t i j : Nat} (hij : i < j) (hj : j < n) : (t + i) % n ≠ (t + j) % n := fun he => by
  have hmod : i ≡ j [MOD n] := Nat.ModEq.add_left_cancel' t he
  exact Nat.ne_of_lt hij (hmod.eq_of_lt_of_lt (Nat.lt_trans hij hj) hj)

theorem Holds.dma (h : r.Holds q) (hroom : q.length + 1 < n) (w : α) :
    (r.dma w).Holds (q ++ [w]) where
  few := by rwa [List.length_append, List.length_singleton]
  tail := h.tail
  write := by
    show r.baseAddr + (r.writeAddr - r.baseAddr + 4) % (4 * n) =
      r.baseAddr + 4 * ((r.lastTail + (q ++ [w]).length) % n)
    rw [h.write, Nat.add_sub_cancel_left, ← Nat.mul_succ, Nat.mul_mod_mul_left, Nat.succ_eq_add_one,
      Nat.mod_add_mod, List.length_append, List.length_singleton, Nat.add_assoc]
  words i hi := by
    show Function.update r.words r.writeSlot w ((r.lastTail + i) % n) = (q ++ [w])[i]
    rw [h.head_eq.1]
    rw [List.length_append, List.length_singleton] at hi
    obtain rfl | hlt := Nat.eq_or_lt_of_le (Nat.le_of_lt_succ hi)
    · rw [Function.update_self, List.getElem_concat_length rfl]
    · rw [Function.update_of_ne (slot_ne hlt (Nat.lt_of_succ_lt hroom)),
        List.getElem_append_left hlt]
      exact h.words i hlt

theorem Holds.tail_eq (h : r.Holds (w :: q)) : r.tail = w := by
  have hword := h.words 0 (Nat.succ_pos _)
  rwa [Nat.add_zero, Nat.mod_eq_of_lt h.tail] at hword

theorem Holds.advance (h : r.Holds (w :: q)) : r.advance.Holds q where
  few := Nat.lt_of_succ_lt h.few
  tail := Nat.mod_lt _ (Nat.lt_of_le_of_lt (Nat.zero_le _) h.tail)
  write := by
    show r.writeAddr = r.baseAddr + 4 * (((r.lastTail + 1) % n + q.length) % n)
    rw [h.write, Nat.mod_add_mod, List.length_cons, Nat.add_assoc, Nat.add_comm 1]
  words i hi := by
    have hword := h.words (i + 1) (Nat.succ_lt_succ hi)
    show r.words (((r.lastTail + 1) % n + i) % n) = q[i]
    rwa [Nat.mod_add_mod, Nat.add_assoc, Nat.add_comm 1]

/-- A word can come while the reader goes on. -/
theorem dma_advance (r : DmaRing n α) (w : α) : (r.dma w).advance = r.advance.dma w := rfl

end DmaRing

end VintageKvm
