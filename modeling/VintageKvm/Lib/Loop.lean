import Mathlib.Logic.Relation

/-!
# Bounded loops

A loop body either goes round again or leaves (`Flow`). `iter` runs it with
a bound on the number of turns; `iter_rule` proves a loop by an invariant
and a rank that every turn lowers, so that the bound is never what ends it.
`Turns` are the states a loop goes through and `Takes` counts them.
`iter_congr` runs another body in its place where both do the same, and
`iter_sim` a loop over other states that goes along with it.
-/

namespace VintageKvm

/-- What one turn of a loop does: go round again, or leave with a result. -/
inductive Flow (σ τ : Type) where
  | next (s : σ)
  | done (t : τ)

namespace Flow

variable {σ τ : Type}

/-- The turn goes round in a state satisfying `I`, or leaves with a result
satisfying `Q`. -/
def Sat (I : σ → Prop) (Q : τ → Prop) : Flow σ τ → Prop
  | next s => I s
  | done t => Q t

@[simp] theorem sat_next (I : σ → Prop) (Q : τ → Prop) (s : σ) :
    (next s : Flow σ τ).Sat I Q = I s := rfl
@[simp] theorem sat_done (I : σ → Prop) (Q : τ → Prop) (t : τ) :
    (done t : Flow σ τ).Sat I Q = Q t := rfl

theorem Sat.imp {I I' : σ → Prop} {Q Q' : τ → Prop} {f : Flow σ τ} (h : f.Sat I Q)
    (hI : ∀ s, I s → I' s) (hQ : ∀ t, Q t → Q' t) : f.Sat I' Q' := by
  cases f with
  | next s => exact hI s h
  | done t => exact hQ t h

end Flow

variable {σ τ : Type}

/-- At most `n` turns of `step`; a loop still going round then ends in
`stuck`. -/
def iter (step : σ → Flow σ τ) (stuck : σ → τ) : Nat → σ → τ
  | 0, s => stuck s
  | n + 1, s =>
    match step s with
    | .next s' => iter step stuck n s'
    | .done t => t

theorem iter_next {step : σ → Flow σ τ} {stuck : σ → τ} {n : Nat} {s s' : σ}
    (h : step s = .next s') : iter step stuck (n + 1) s = iter step stuck n s' := by
  rw [iter, h]

theorem iter_done {step : σ → Flow σ τ} {stuck : σ → τ} {n : Nat} {s : σ} {t : τ}
    (h : step s = .done t) : iter step stuck (n + 1) s = t := by
  rw [iter, h]

/-- A loop whose every turn keeps `I` and lowers `rank`, and leaves only with
results satisfying `Q`, ends with such a result. -/
theorem iter_rule {step : σ → Flow σ τ} {stuck : σ → τ} (I : σ → Prop) (Q : τ → Prop)
    (rank : σ → Nat) (hstep : ∀ s, I s → (step s).Sat (fun s' => I s' ∧ rank s' < rank s) Q) :
    ∀ (n : Nat) (s : σ), I s → rank s < n → Q (iter step stuck n s) := by
  intro n
  induction n with
  | zero => intro s _ h; exact absurd h (Nat.not_lt_zero _)
  | succ n ih =>
    intro s hI hr
    have h := hstep s hI
    cases hs : step s with
    | next s' =>
      rw [hs] at h
      rw [iter_next hs]
      exact ih s' h.1 (Nat.lt_of_lt_of_le h.2 (Nat.le_of_lt_succ hr))
    | done t =>
      rw [hs] at h
      rw [iter_done hs]
      exact h

/-- What every turn keeps holds where the loop ends, also if the bound ends it. -/
theorem iter_keeps {step : σ → Flow σ τ} {stuck : σ → τ} (I : σ → Prop) (Q : τ → Prop)
    (hstep : ∀ s, I s → (step s).Sat I Q) (hstuck : ∀ s, I s → Q (stuck s)) :
    ∀ (n : Nat) (s : σ), I s → Q (iter step stuck n s) := by
  intro n
  induction n with
  | zero => exact hstuck
  | succ n ih =>
    intro s hI
    have h := hstep s hI
    cases hs : step s with
    | next s' =>
      rw [hs] at h
      rw [iter_next hs]
      exact ih s' h
    | done t =>
      rw [hs] at h
      rw [iter_done hs]
      exact h

/-- Two bodies that agree where the loop comes by make the same loop. -/
theorem iter_congr {step step' : σ → Flow σ τ} {stuck : σ → τ} (I : σ → Prop)
    (heq : ∀ s, I s → step' s = step s) (hI : ∀ s s', I s → step s = .next s' → I s') :
    ∀ (n : Nat) (s : σ), I s → iter step' stuck n s = iter step stuck n s := by
  intro n
  induction n with
  | zero => intro s _; rfl
  | succ n ih =>
    intro s h
    have hs' := heq s h
    cases hs : step s with
    | next s' =>
      rw [iter_next hs, iter_next (hs'.trans hs)]
      exact ih s' (hI s s' h hs)
    | done t => rw [iter_done hs, iter_done (hs'.trans hs)]

/-- Two loops whose turns go along with each other. -/
theorem iter_sim {σ' τ' : Type} {step : σ → Flow σ τ} {step' : σ' → Flow σ' τ'} {stuck : σ → τ}
    {stuck' : σ' → τ'} (R : σ → σ' → Prop) (Q : τ → τ' → Prop)
    (hstep : ∀ s s', R s s' → (∃ t t', step s = .next t ∧ step' s' = .next t' ∧ R t t') ∨
      ∃ t t', step s = .done t ∧ step' s' = .done t' ∧ Q t t')
    (hstuck : ∀ s s', R s s' → Q (stuck s) (stuck' s')) :
    ∀ (n : Nat) (s : σ) (s' : σ'), R s s' → Q (iter step stuck n s) (iter step' stuck' n s') := by
  intro n
  induction n with
  | zero => exact hstuck
  | succ n ih =>
    intro s s' h
    obtain ⟨t, t', e, e', ht⟩ | ⟨t, t', e, e', ht⟩ := hstep s s' h
    · rw [iter_next e, iter_next e']
      exact ih t t' ht
    · rw [iter_done e, iter_done e']
      exact ht

/-! ## The states of a run -/

/-- Turns of the loop lead from a state to another. -/
abbrev Turns (step : σ → Flow σ τ) : σ → σ → Prop :=
  Relation.ReflTransGen fun s s' => step s = .next s'

namespace Turns

variable {step : σ → Flow σ τ} {s s₁ s₂ s' : σ}

/-- What every turn keeps holds along a run. -/
theorem keeps (h : Turns step s s') (I : σ → Prop) (hI : ∀ s s', I s → step s = .next s' → I s')
    (h0 : I s) : I s' := by
  induction h with
  | refl => exact h0
  | tail _ hs ih => exact hI _ _ ih hs

/-- Of two states of a run one comes first. -/
theorem total (h₁ : Turns step s s₁) (h₂ : Turns step s s₂) : Turns step s₁ s₂ ∨ Turns step s₂ s₁ :=
  Relation.ReflTransGen.total_of_right_unique
    (fun _ _ _ h h' => Flow.next.inj (h.symm.trans h')) h₁ h₂

end Turns

/-- So many turns of the loop lead from a state to another. -/
inductive Takes (step : σ → Flow σ τ) : Nat → σ → σ → Prop
  | refl (s : σ) : Takes step 0 s s
  | tail {n : Nat} {s s' s'' : σ} (h : Takes step n s s') (hs : step s' = .next s'') :
    Takes step (n + 1) s s''

theorem Takes.trans {step : σ → Flow σ τ} {n k : Nat} {s s' s'' : σ} (h₁ : Takes step n s s')
    (h₂ : Takes step k s' s'') : Takes step (n + k) s s'' := by
  induction h₂ with
  | refl => exact h₁
  | tail _ hs ih => exact (ih h₁).tail hs

/-- The loop leaves at turn `n`. -/
def LeavesAt (step : σ → Flow σ τ) (n : Nat) (s : σ) (t : τ) : Prop :=
  ∃ k s', n = k + 1 ∧ Takes step k s s' ∧ step s' = .done t

/-- `iter_rule` for what only the states the loop comes to need keep. -/
theorem iter_turns {step : σ → Flow σ τ} {stuck : σ → τ} (I : σ → Prop) (Q : τ → Prop)
    (rank : σ → Nat) {n : Nat} {s : σ} (hstep : ∀ s', Turns step s s' → I s' →
      (step s').Sat (fun s'' => I s'' ∧ rank s'' < rank s') Q) (h : I s)
    (hr : rank s < n) : Q (iter step stuck n s) := by
  refine iter_rule (fun s' => Turns step s s' ∧ I s') Q rank
    (fun s' ⟨ht, hI⟩ => ?_) n s ⟨.refl, h⟩ hr
  have hs := hstep s' ht hI
  cases e : step s' with
  | next s'' =>
    rw [e] at hs
    exact ⟨⟨ht.tail e, hs.1⟩, hs.2⟩
  | done t =>
    rw [e] at hs
    exact hs

end VintageKvm
