import Mathlib.Data.List.Basic

/-!
# The runs of a stream

`runs p xs`: the parts of `xs` that an element of `p` ends, without it;
`unended p xs`: what follows the last of them.
-/

namespace VintageKvm

variable {α : Type*}

def runs (p : α → Bool) (xs : List α) : List (List α) := (xs.splitOnP p).dropLast

def unended (p : α → Bool) (xs : List α) : List α :=
  (xs.splitOnP p).getLast (List.splitOnP_ne_nil p xs)

variable {p : α → Bool} {run xs : List α} {t : α}

theorem runs_of_forall (h : ∀ x ∈ xs, p x = false) : runs p xs = [] := by
  rw [runs, List.splitOnP_eq_singleton h, List.dropLast_singleton]

theorem unended_of_forall (h : ∀ x ∈ xs, p x = false) : unended p xs = xs := by
  have hsplit := List.splitOnP_eq_singleton h
  simp only [unended, hsplit, List.getLast_singleton]

theorem splitOnP_run (h : ∀ x ∈ run, p x = false) (ht : p t) (xs : List α) :
    (run ++ t :: xs).splitOnP p = run :: xs.splitOnP p :=
  List.splitOnP_append_cons_of_forall_mem h t ht xs

theorem runs_cons (h : ∀ x ∈ run, p x = false) (ht : p t) (xs : List α) :
    runs p (run ++ t :: xs) = run :: runs p xs := by
  rw [runs, splitOnP_run h ht, List.dropLast_cons_of_ne_nil (List.splitOnP_ne_nil p xs), runs]

theorem unended_cons (h : ∀ x ∈ run, p x = false) (ht : p t) (xs : List α) :
    unended p (run ++ t :: xs) = unended p xs := by
  have hsplit := splitOnP_run h ht xs
  simp only [unended, hsplit, List.getLast_cons (List.splitOnP_ne_nil p xs)]

/-- Induction by runs. -/
theorem runs_induction {motive : List α → Prop}
    (unended : ∀ xs, (∀ x ∈ xs, p x = false) → motive xs)
    (run : ∀ run t xs, (∀ x ∈ run, p x = false) → p t → motive xs → motive (run ++ t :: xs))
    (xs : List α) :
    motive xs := by
  suffices h : ∀ r, (∀ x ∈ r, p x = false) → motive (r ++ xs) from h [] fun _ hx => nomatch hx
  induction xs with
  | nil =>
    intro r hr
    rw [List.append_nil]
    exact unended r hr
  | cons x xs ih =>
    intro r hr
    cases hx : p x with
    | true => exact run r x xs hr hx (ih [] fun _ hy => nomatch hy)
    | false =>
      rw [← List.singleton_append, ← List.append_assoc]
      refine ih (r ++ [x]) fun y hy => (List.mem_append.mp hy).elim (hr y) fun hy => ?_
      rw [List.mem_singleton.mp hy, hx]

theorem of_mem_unended (p : α → Bool) (xs : List α) : ∀ x ∈ unended p xs, p x = false := by
  induction xs using runs_induction (p := p) with
  | unended xs hxs => rwa [unended_of_forall hxs]
  | run r t xs hr ht ih => rwa [unended_cons hr ht]

/-- What follows goes on with the unended part. -/
theorem runs_append (p : α → Bool) (xs ys : List α) :
    runs p (xs ++ ys) = runs p xs ++ runs p (unended p xs ++ ys) := by
  induction xs using runs_induction (p := p) with
  | unended xs hxs => rw [runs_of_forall hxs, unended_of_forall hxs, List.nil_append]
  | run r t xs hr ht ih =>
    rw [List.append_assoc, List.cons_append, runs_cons hr ht, runs_cons hr ht, unended_cons hr ht,
      ih, List.cons_append]

theorem unended_append (p : α → Bool) (xs ys : List α) :
    unended p (xs ++ ys) = unended p (unended p xs ++ ys) := by
  induction xs using runs_induction (p := p) with
  | unended xs hxs => rw [unended_of_forall hxs]
  | run r t xs hr ht ih =>
    rw [List.append_assoc, List.cons_append, unended_cons hr ht, unended_cons hr ht, ih]

end VintageKvm
