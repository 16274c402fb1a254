import VintageKvm.Lib.Buffer

/-!
# Checked operations on a buffer

Indexing, slicing and copying as a language with bounds checks has them:
`none` where the check fails. Where it does not, each is the plain operation.
-/

namespace VintageKvm

variable {α : Type}

/-- `xs[i] = a`. -/
def set? (xs : List α) (i : Nat) (a : α) : Option (List α) :=
  if i < xs.length then some (xs.set i a) else none

/-- `xs[i..j]`. -/
def slice? (xs : List α) (i j : Nat) : Option (List α) :=
  if i ≤ j ∧ j ≤ xs.length then some ((xs.take j).drop i) else none

/-- `xs[i..j]` overwritten with a slice, which must have as many elements. -/
def copy? (xs : List α) (i j : Nat) (src : List α) : Option (List α) :=
  if i ≤ j ∧ j ≤ xs.length ∧ src.length = j - i then some (splice xs i src) else none

/-- Elements written one by one from `i` on. -/
def fill? (xs : List α) (i : Nat) : List α → Option (List α)
  | [] => some xs
  | a :: as => do fill? (← set? xs i a) (i + 1) as

/-- An assertion. -/
def assert? (p : Prop) [Decidable p] : Option Unit := if p then some () else none

variable {xs : List α} {i j : Nat}

theorem set?_eq (h : i < xs.length) (a : α) : set? xs i a = some (xs.set i a) := if_pos h

theorem slice?_eq (hij : i ≤ j) (hj : j ≤ xs.length) : slice? xs i j = some ((xs.take j).drop i) :=
  if_pos ⟨hij, hj⟩

theorem slice?_zero (hj : j ≤ xs.length) : slice? xs 0 j = some (xs.take j) :=
  slice?_eq (Nat.zero_le _) hj

theorem copy?_eq {src : List α} (h : i + src.length = j) (hj : j ≤ xs.length) :
    copy? xs i j src = some (splice xs i src) :=
  if_pos ⟨by omega, hj, by omega⟩

theorem assert?_eq {p : Prop} [Decidable p] (h : p) : assert? p = some () := if_pos h

/-- What is written is one string. -/
theorem fill?_eq {as : List α} (h : i + as.length ≤ xs.length) :
    fill? xs i as = some (splice xs i as) := by
  induction as generalizing xs i with
  | nil => rw [fill?, splice, List.append_nil, List.length_nil, Nat.add_zero, List.take_append_drop]
  | cons a as ih =>
    rw [List.length_cons] at h
    have hi : i < xs.length := by omega
    rw [fill?, set?_eq hi, Option.bind_eq_bind, Option.bind_some,
      ih (by rw [List.length_set]; omega), set_eq_splice _ _ hi,
      splice_splice (show i + [a].length = i + 1 from rfl) (by omega)]
    rfl

end VintageKvm
