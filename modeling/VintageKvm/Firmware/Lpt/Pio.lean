import Mathlib.Data.Finset.Card
import Mathlib.Data.Fin.Basic
import Mathlib.Data.List.FinRange
import Mathlib.Data.ZMod.Defs
import Mathlib.Order.Interval.Finset.Nat

/-!
# A block of PIO state machines

The instructions that the LPT programs are made of, the 32 instruction slots
of a block, and the loader that takes slots for a program. Loading and freeing
are the driver's, not the firmware's: `Loads` says what the firmware relies
on, and `firstFit` is a loader that does so.
-/

namespace VintageKvm.Firmware.Lpt

/-! ## Programs -/

inductive InSource where
  | pins
  deriving DecidableEq

inductive OutDestination where
  | pins | x | null
  deriving DecidableEq

inductive WaitSource where
  | pin | gpio
  deriving DecidableEq

inductive JmpCondition where
  | always | xIsZero
  deriving DecidableEq

inductive Op where
  | pull (ifEmpty block : Bool)
  | push (ifFull block : Bool)
  | in_ (source : InSource) (bits : Nat)
  | out (dest : OutDestination) (bits : Nat)
  | wait (polarity : Bool) (source : WaitSource) (index : Nat) (relative : Bool)
  /-- To an instruction of the program. -/
  | jmp (cond : JmpCondition) (target : Nat)
  /-- `mov pins, pins`. -/
  | movPins
  | nop
  deriving DecidableEq

/-- An instruction, with the cycles it waits after and the level it side-sets. -/
structure Instr where
  op : Op
  delay : Nat := 0
  side : Option Bool := none
  deriving DecidableEq

/-- An assembled program: it wraps from its end to its start. -/
abbrev Program := List Instr

/-! ## Instruction slots -/

/-- The `n` slots from `o` on, around the end of the memory. -/
def slots (o : Fin 32) (n : Nat) : Finset (Fin 32) :=
  (Finset.range n).image fun i => o + Fin.ofNat 32 i

theorem add_ofNat_inj (o : Fin 32) {i j : Nat} (hi : i < 32) (hj : j < 32)
    (h : o + Fin.ofNat 32 i = o + Fin.ofNat 32 j) : i = j := by
  have hv := congrArg Fin.val (add_left_cancel h)
  rwa [Fin.val_ofNat, Fin.val_ofNat, Nat.mod_eq_of_lt hi, Nat.mod_eq_of_lt hj] at hv

theorem card_slots (o : Fin 32) {n : Nat} (hn : n ≤ 32) : (slots o n).card = n := by
  rw [slots, Finset.card_image_of_injOn, Finset.card_range]
  intro i hi j hj h
  exact add_ofNat_inj o (by simp at hi; omega) (by simp at hj; omega) h

/-- What comes after a program's slots is free of them. -/
theorem disjoint_slots (o : Fin 32) {n k : Nat} (h : n + k ≤ 32) :
    Disjoint (slots (o + Fin.ofNat 32 n) k) (slots o n) := by
  rw [Finset.disjoint_left]
  intro a ha hb
  obtain ⟨i, hi, rfl⟩ := Finset.mem_image.mp ha
  obtain ⟨j, hj, e⟩ := Finset.mem_image.mp hb
  have hi := Finset.mem_range.mp hi
  have hj := Finset.mem_range.mp hj
  have hadd : Fin.ofNat 32 n + Fin.ofNat 32 i = Fin.ofNat 32 (n + i) := by
    apply Fin.ext
    simp only [Fin.val_add, Fin.val_ofNat]
    omega
  rw [add_assoc, hadd] at e
  have := add_ofNat_inj o (by omega) (by omega) e
  omega

/-! ## The loader -/

/-- A loader: the slots it takes for a program of a length, given those in use. -/
abbrev Loader := Finset (Fin 32) → Nat → Option (Finset (Fin 32))

/-- What the driver says of `load_program`: the slots are consecutive ones that
were free, and where there are such, it finds some. -/
structure Loads (load : Loader) : Prop where
  free : ∀ used n s, load used n = some s → Disjoint s used ∧ ∃ o, s = slots o n
  finds : ∀ used n o, n ≤ 32 → Disjoint (slots o n) used → (load used n).isSome

/-- Into an empty memory any program goes. -/
theorem Loads.first {load : Loader} (hl : Loads load) {n : Nat} (hn : n ≤ 32) :
    ∃ o, load ∅ n = some (slots o n) := by
  obtain ⟨s, hs⟩ := Option.isSome_iff_exists.mp (hl.finds ∅ n 0 hn (Finset.disjoint_empty_right _))
  obtain ⟨-, o, rfl⟩ := hl.free ∅ n s hs
  exact ⟨o, hs⟩

/-- Beside one program a second goes where both have room: right after it, if
nowhere else. -/
theorem Loads.second {load : Loader} (hl : Loads load) (o : Fin 32) {n k : Nat} (h : n + k ≤ 32) :
    ∃ o', load (slots o n) k = some (slots o' k) ∧ Disjoint (slots o n) (slots o' k) := by
  obtain ⟨s, hs⟩ := Option.isSome_iff_exists.mp (hl.finds (slots o n) k (o + Fin.ofNat 32 n)
    (by omega) (disjoint_slots o h))
  obtain ⟨hfree, o', rfl⟩ := hl.free (slots o n) k s hs
  exact ⟨o', hs, hfree.symm⟩

theorem Loads.pair {load : Loader} (hl : Loads load) {n k : Nat} (h : n + k ≤ 32) :
    ∃ o o', load ∅ n = some (slots o n) ∧ load (slots o n) k = some (slots o' k) ∧
      Disjoint (slots o n) (slots o' k) := by
  obtain ⟨o, ho⟩ := hl.first (n := n) (by omega)
  obtain ⟨o', ho'⟩ := hl.second o h
  exact ⟨o, o', ho, ho'⟩

/-- The driver's search: the first origin with room. -/
def firstFit : Loader := fun used n =>
  ((List.finRange 32).find? fun o => Disjoint (slots o n) used).map (slots · n)

theorem firstFit_loads : Loads firstFit where
  free used n s h := by
    obtain ⟨o, ho, rfl⟩ := Option.map_eq_some_iff.mp h
    have hfound := List.find?_some ho
    exact ⟨of_decide_eq_true hfound, o, rfl⟩
  finds used n o _ h := by
    rw [firstFit, Option.isSome_map, List.find?_isSome]
    exact ⟨o, List.mem_finRange o, decide_eq_true h⟩

end VintageKvm.Firmware.Lpt
