import Mathlib.Data.List.Basic

/-!
# A list in chunks

`chunks n xs`: the list in pieces of `n`, the last of which may be shorter.
The pieces make up the list again (`chunks_flatten`), and the last is full
only where `n` divides the length (`chunks_last`).
-/

namespace VintageKvm

variable {α : Type*}

/-- `<[T]>::chunks` -/
def chunks (n : Nat) (xs : List α) : List (List α) :=
  (List.range ((xs.length + (n - 1)) / n)).map fun i => (xs.drop (n * i)).take n

variable {n : Nat} {xs : List α}

theorem chunks_nil (hn : 0 < n) : chunks n ([] : List α) = [] := by
  rw [chunks, List.length_nil, Nat.div_eq_of_lt (by omega)]
  rfl

theorem chunks_count (hn : 0 < n) (h : xs ≠ []) :
    (xs.length + (n - 1)) / n = ((xs.drop n).length + (n - 1)) / n + 1 := by
  have hpos := List.length_pos_iff.mpr h
  rw [List.length_drop, ← Nat.add_div_right _ hn]
  rcases Nat.lt_or_ge n xs.length with hlt | hle
  · congr 1
    omega
  · rw [Nat.sub_eq_zero_of_le hle, Nat.zero_add]
    rw [Nat.div_eq_of_lt_le (k := 1) (by omega) (by omega),
      Nat.div_eq_of_lt_le (k := 1) (by omega) (by omega)]

theorem chunks_cons (hn : 0 < n) (h : xs ≠ []) :
    chunks n xs = xs.take n :: chunks n (xs.drop n) := by
  rw [chunks, chunks_count hn h, List.range_succ_eq_map, List.map_cons, List.map_map, Nat.mul_zero,
    List.drop_zero]
  congr 1
  refine List.map_congr_left fun i _ => ?_
  rw [Function.comp, List.drop_drop, Nat.mul_succ, Nat.add_comm]

/-- Induction by chunks. -/
theorem chunks_induction {motive : List α → Prop} (hn : 0 < n) (nil : motive [])
    (cons : ∀ xs, xs ≠ [] → motive (xs.drop n) → motive xs) (xs : List α) : motive xs := by
  induction h : xs.length using Nat.strongRecOn generalizing xs with
  | _ k ih =>
    by_cases hne : xs = []
    · rw [hne]
      exact nil
    · have hpos := List.length_pos_iff.mpr hne
      exact cons xs hne (ih _ (by rw [List.length_drop]; omega) _ rfl)

theorem chunks_flatten (hn : 0 < n) (xs : List α) : (chunks n xs).flatten = xs := by
  induction xs using chunks_induction hn with
  | nil => rw [chunks_nil hn, List.flatten_nil]
  | cons xs h ih => rw [chunks_cons hn h, List.flatten_cons, ih, List.take_append_drop]

theorem length_of_mem_chunks {c : List α} (h : c ∈ chunks n xs) : c.length ≤ n := by
  obtain ⟨i, -, rfl⟩ := List.mem_map.mp h
  exact List.length_take_le ..

theorem mem_of_mem_chunks {c : List α} (h : c ∈ chunks n xs) {a : α} (ha : a ∈ c) : a ∈ xs := by
  obtain ⟨i, -, rfl⟩ := List.mem_map.mp h
  exact List.mem_of_mem_drop (List.mem_of_mem_take ha)

/-- Every chunk is full where `n` divides the length. -/
theorem length_of_mem_chunks_of_dvd (hn : 0 < n) (hdvd : n ∣ xs.length) {c : List α}
    (h : c ∈ chunks n xs) : c.length = n := by
  induction xs using chunks_induction hn with
  | nil =>
    rw [chunks_nil hn] at h
    cases h
  | cons xs hne ih =>
    have hle := Nat.le_of_dvd (List.length_pos_iff.mpr hne) hdvd
    rw [chunks_cons hn hne] at h
    obtain rfl | h := List.mem_cons.mp h
    · exact List.length_take_of_le hle
    · refine ih ?_ h
      rw [List.length_drop]
      exact Nat.dvd_sub hdvd (Nat.dvd_refl n)

/-- The last chunk. -/
theorem chunks_last (hn : 0 < n) (h : xs ≠ []) :
    ∃ cs c, chunks n xs = cs ++ [c] ∧
      c.length = if xs.length % n = 0 then n else xs.length % n := by
  induction xs using chunks_induction hn with
  | nil => cases h rfl
  | cons xs h ih =>
    rw [chunks_cons hn h]
    by_cases hdrop : xs.drop n = []
    · have hle := List.drop_eq_nil_iff.mp hdrop
      have hpos := List.length_pos_iff.mpr h
      refine ⟨[], xs.take n, by rw [hdrop, chunks_nil hn]; rfl, ?_⟩
      rw [List.length_take, Nat.min_eq_right hle]
      rcases Nat.lt_or_eq_of_le hle with hlt | heq
      · rw [Nat.mod_eq_of_lt hlt, if_neg (by omega)]
      · rw [heq, Nat.mod_self, if_pos rfl]
    · obtain ⟨cs, c, hcs, hc⟩ := ih hdrop
      have hlt : n < xs.length := Nat.lt_of_not_le fun hle => hdrop (List.drop_eq_nil_of_le hle)
      refine ⟨xs.take n :: cs, c, by rw [hcs]; rfl, ?_⟩
      rw [hc, List.length_drop, ← Nat.mod_eq_sub_mod (Nat.le_of_lt hlt)]

end VintageKvm
