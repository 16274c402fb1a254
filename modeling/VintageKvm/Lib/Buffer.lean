import Mathlib.Data.List.Basic

/-!
# Writing into a buffer

`splice out i bs` is the buffer `out` with the string `bs` written from
index `i` on. A write of one element is a splice (`set_eq_splice`), and
adjacent splices join (`splice_splice`), so a routine that fills a buffer
field by field writes one string.
-/

namespace VintageKvm

variable {α : Type}

/-- `out` with `bs` written over the elements from `i` on. -/
def splice (out : List α) (i : Nat) (bs : List α) : List α :=
  out.take i ++ bs ++ out.drop (i + bs.length)

@[simp] theorem length_splice {out : List α} {i : Nat} {bs : List α}
    (h : i + bs.length ≤ out.length) : (splice out i bs).length = out.length := by
  simp only [splice, List.length_append, List.length_take, List.length_drop]
  omega

/-- Writing one element. -/
theorem set_eq_splice (out : List α) {i : Nat} (b : α) (h : i < out.length) :
    out.set i b = splice out i [b] := by
  rw [List.set_eq_take_append_cons_drop, if_pos h, splice, List.append_assoc]
  rfl

/-- Two adjacent writes are one. -/
theorem splice_splice {out : List α} {i j : Nat} {as bs : List α} (hj : i + as.length = j)
    (h : j + bs.length ≤ out.length) :
    splice (splice out i as) j bs = splice out i (as ++ bs) := by
  subst hj
  have ht : (out.take i ++ as).length = i + as.length := by
    rw [List.length_append, List.length_take]
    omega
  have hd : (splice out i as).drop (i + as.length + bs.length) =
      out.drop (i + (as ++ bs).length) := by
    rw [splice, ← ht, ← List.drop_drop, List.drop_left, List.drop_drop, ht, List.length_append,
      Nat.add_assoc]
  rw [splice, hd, splice, List.take_left' ht, splice]
  simp only [List.append_assoc]

/-- Writing the element after a splice extends it. -/
theorem set_splice {out bs : List α} {i j : Nat} (b : α) (hj : i + bs.length = j)
    (h : j < out.length) : (splice out i bs).set j b = splice out i (bs ++ [b]) := by
  rw [set_eq_splice _ _ (by rw [length_splice (by omega)]; exact h)]
  exact splice_splice hj h

/-- A buffer written from its start. -/
theorem splice_zero (out bs : List α) : splice out 0 bs = bs ++ out.drop bs.length := by
  rw [splice, List.take_zero, List.nil_append, Nat.zero_add]

end VintageKvm
