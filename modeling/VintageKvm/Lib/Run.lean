import Mathlib.Tactic.TypeStar

/-!
# Runs of a step function, and what tasks share

A run is a fold of a step function over the list of its actions. `Along`
says that every step of a run meets a condition on the state before it:
`Along.invariant` carries an invariant over such a run, and `exists_first`
finds the step of another one that does not.

`Channel` and `Signal` are the two ways for tasks to hand values over: a
queue of bounded depth, and a cell that keeps the latest value only.
-/

namespace VintageKvm

variable {σ α : Type*}

namespace Run

/-- Every step of the run from a state meets `P`. -/
def Along (step : σ → α → σ) (P : σ → α → Prop) : σ → List α → Prop
  | _, [] => True
  | s, a :: as => P s a ∧ Along step P (step s a) as

instance Along.decidable (step : σ → α → σ) (P : σ → α → Prop) [∀ s a, Decidable (P s a)] :
    (s : σ) → (as : List α) → Decidable (Along step P s as)
  | _, [] => isTrue trivial
  | s, a :: as =>
    have := Along.decidable step P (step s a) as
    inferInstanceAs (Decidable (_ ∧ _))

variable {step : σ → α → σ} {P Q : σ → α → Prop} {s : σ} {as bs : List α}

theorem Along.append (h : Along step P s as) (h' : Along step P (as.foldl step s) bs) :
    Along step P s (as ++ bs) := by
  induction as generalizing s with
  | nil => exact h'
  | cons a as ih => exact ⟨h.1, ih h.2 h'⟩

theorem Along.of_forall (h : ∀ a ∈ as, ∀ s, P s a) : Along step P s as := by
  induction as generalizing s with
  | nil => trivial
  | cons a as ih =>
    exact ⟨h a (List.mem_cons_self ..) s, ih fun b hb => h b (List.mem_cons_of_mem _ hb)⟩

theorem Along.take (h : Along step P s as) (n : Nat) : Along step P s (as.take n) := by
  induction as generalizing s n with
  | nil => rwa [List.take_nil]
  | cons a as ih =>
    cases n with
    | zero => exact trivial
    | succ n => exact ⟨h.1, ih h.2 n⟩

/-- An invariant that the steps keep under the condition. -/
theorem Along.invariant {Inv : σ → Prop} (h : Along step P s as) (hs : Inv s)
    (keeps : ∀ s a, Inv s → P s a → Inv (step s a)) : Inv (as.foldl step s) := by
  induction as generalizing s with
  | nil => exact hs
  | cons a as ih => exact ih h.2 (keeps s a hs h.1)

/-- Two conditions that are the same under an invariant that they keep. -/
theorem Along.congr {Inv : σ → Prop} (hs : Inv s) (same : ∀ s a, Inv s → (P s a ↔ Q s a))
    (keeps : ∀ s a, Inv s → Q s a → Inv (step s a)) : Along step P s as ↔ Along step Q s as := by
  induction as generalizing s with
  | nil => exact Iff.rfl
  | cons a as ih =>
    rw [Along, Along, same s a hs]
    exact and_congr_right fun hq => ih (keeps s a hs hq)

/-- A run that does not meet the condition has a first step that does not. -/
theorem exists_first (h : ¬ Along step P s as) :
    ∃ n, ∃ a, as[n]? = some a ∧ Along step P s (as.take n) ∧ ¬ P ((as.take n).foldl step s) a := by
  induction as generalizing s with
  | nil => exact absurd trivial h
  | cons a as ih =>
    by_cases ha : P s a
    · obtain ⟨n, b, hb, hn, hP⟩ := ih fun h' => h ⟨ha, h'⟩
      exact ⟨n + 1, b, hb, ⟨ha, hn⟩, hP⟩
    · exact ⟨0, a, rfl, trivial, ha⟩

end Run

/-! ## Channels and signals -/

/-- A queue of at most `depth` values. -/
structure Channel (α : Type*) (depth : Nat) where
  queue : List α
  fits : queue.length ≤ depth

namespace Channel

variable {depth : Nat}

def new : Channel α depth := ⟨[], Nat.zero_le _⟩

/-- A full channel drops the value. -/
def trySend (ch : Channel α depth) (x : α) : Channel α depth :=
  if h : ch.queue.length < depth then ⟨ch.queue ++ [x], by rw [List.length_append]; exact h⟩ else ch

/-- The oldest value, and what is left. -/
def receive (ch : Channel α depth) : Option (α × Channel α depth) :=
  match ch with
  | ⟨[], _⟩ => none
  | ⟨x :: xs, h⟩ => some (x, ⟨xs, Nat.le_of_succ_le h⟩)

end Channel

/-- A cell that keeps the latest value nobody has taken yet. -/
structure Signal (α : Type*) where
  latest : Option α

namespace Signal

def new : Signal α := ⟨none⟩

def signal (_ : Signal α) (x : α) : Signal α := ⟨some x⟩

def reset (_ : Signal α) : Signal α := ⟨none⟩

/-- Taking a value empties the cell. -/
def wait (sig : Signal α) : Option (α × Signal α) := sig.latest.map (·, ⟨none⟩)

end Signal

end VintageKvm
