import VintageKvm.Lib.DmaRing
import VintageKvm.Lib.Run
import VintageKvm.Lib.Word

/-!
# The ring of the LPT port

A DMA channel writes the words of `lpt_compat_in` into a ring, and `try_pop`
takes them from it one by one. Words come at any moment, also within a call.
`popped_in_order`: as long as at most one word less than the ring has slots is
unread, the words popped are those written, in their order, and a call gives
none just where there is none.
-/

namespace VintageKvm.Firmware.Lpt

namespace RingDma

abbrev RING_WORDS : Nat := 256

/-- What a call of `try_pop` gave, and how many words were unread when it read
the head. -/
structure Popped where
  unread : Nat
  word : Option DWord

/-- The ring and its reader. `loading`: a call has found the head elsewhere
than the tail. The last two are not there to be read: the words written, and
what the calls gave. -/
structure Reader where
  ring : DmaRing RING_WORDS DWord
  loading : Option Nat
  written : List DWord
  calls : List Popped

/-- `arm` -/
def arm (baseAddr : Nat) : Reader where
  ring := ⟨baseAddr, baseAddr, 0, fun _ => 0⟩
  loading := none
  written := []
  calls := []

namespace Reader

variable (s : Reader)

/-- The words that the calls gave. -/
def popped : List DWord := s.calls.filterMap Popped.word

def unread : Nat := s.written.length - s.popped.length

inductive Action where
  /-- A word from the PIO. -/
  | arrives (word : DWord)
  /-- `try_pop` reads the head. -/
  | calls
  /-- `try_pop` loads the word and goes on. -/
  | loads

def act : Action → Reader
  | .arrives w => { s with ring := s.ring.dma w, written := s.written ++ [w] }
  | .calls =>
    if s.loading.isSome then s
    else if s.ring.lastTail = s.ring.head then { s with calls := s.calls ++ [⟨s.unread, none⟩] }
    else { s with loading := some s.unread }
  | .loads =>
    match s.loading with
    | some unread =>
      { s with
        ring := s.ring.advance, loading := none, calls := s.calls ++ [⟨unread, some s.ring.tail⟩] }
    | none => s

def run (baseAddr : Nat) (as : List Action) : Reader := as.foldl act (arm baseAddr)

/-- A step after which one slot at least is free. -/
def Roomy (a : Action) : Prop := (s.act a).unread ≤ RING_WORDS - 1

instance (a : Action) : Decidable (s.Roomy a) := inferInstanceAs (Decidable (_ ≤ _))

/-- The ring holds the words written and not popped. -/
structure Sound : Prop where
  held : ∃ q, s.written = s.popped ++ q ∧ s.ring.Holds q ∧ (s.loading.isSome → q ≠ [])
  loading : ∀ unread, s.loading = some unread → unread ≠ 0
  calls : ∀ c ∈ s.calls, c.word = none ↔ c.unread = 0

variable {s}

theorem unread_eq {q : List DWord} (h : s.written = s.popped ++ q) : s.unread = q.length := by
  rw [unread, h, List.length_append, Nat.add_sub_cancel_left]

theorem Sound.arm (baseAddr : Nat) : (arm baseAddr).Sound where
  held := ⟨[], rfl, .empty (by decide) baseAddr _, fun h => nomatch h⟩
  loading _ h := nomatch h
  calls _ h := nomatch h

theorem Sound.arrives (h : s.Sound) (w : DWord) (hroom : s.Roomy (.arrives w)) :
    (s.act (.arrives w)).Sound := by
  obtain ⟨q, hq, hr, hne⟩ := h.held
  have hq' : (s.act (.arrives w)).written = s.popped ++ (q ++ [w]) := by
    rw [← List.append_assoc, ← hq]
    rfl
  have hlen : (q ++ [w]).length ≤ RING_WORDS - 1 := unread_eq hq' ▸ hroom
  rw [List.length_append, List.length_singleton] at hlen
  refine ⟨⟨q ++ [w], hq', hr.dma ?_ w, fun _ => List.concat_ne_nil _ _⟩, h.loading, h.calls⟩
  exact Nat.lt_of_le_of_lt hlen (by decide)

theorem Sound.called (h : s.Sound) : (s.act .calls).Sound := by
  obtain ⟨q, hq, hr, hne⟩ := h.held
  unfold act
  dsimp only
  split
  · exact h
  split
  next hempty =>
    obtain rfl := hr.empty_iff.mp hempty
    have hpopped : (s.calls ++ [Popped.mk s.unread none]).filterMap Popped.word = s.popped := by
      rw [List.filterMap_append]
      exact List.append_nil _
    refine ⟨⟨[], by rw [popped, hpopped]; exact hq, hr, hne⟩, h.loading, fun c hc => ?_⟩
    obtain hc | hc := List.mem_append.mp hc
    · exact h.calls c hc
    · rw [List.mem_singleton.mp hc]
      exact iff_of_true rfl (unread_eq hq)
  next hsome =>
    have hq0 : q ≠ [] := fun he => hsome (hr.empty_iff.mpr he)
    refine ⟨⟨q, hq, hr, fun _ => hq0⟩, fun unread he => ?_, h.calls⟩
    rw [← Option.some.inj he, unread_eq hq]
    exact fun he => hq0 (List.length_eq_zero_iff.mp he)

theorem Sound.loads (h : s.Sound) : (s.act .loads).Sound := by
  obtain ⟨q, hq, hr, hne⟩ := h.held
  unfold act
  dsimp only
  split
  next unread hl =>
    obtain ⟨w, q, rfl⟩ := List.exists_cons_of_ne_nil (hne (by rw [hl]; rfl))
    have hpopped : (s.calls ++ [Popped.mk unread (some s.ring.tail)]).filterMap Popped.word =
        s.popped ++ [w] := by
      rw [List.filterMap_append, hr.tail_eq]
      rfl
    refine ⟨⟨q, ?_, hr.advance, fun he => (nomatch he)⟩, fun _ he => (nomatch he), fun c hc => ?_⟩
    · rw [popped, hpopped, List.append_assoc]
      exact hq
    · obtain hc | hc := List.mem_append.mp hc
      · exact h.calls c hc
      · rw [List.mem_singleton.mp hc]
        exact iff_of_false (Option.some_ne_none _) (h.loading unread hl)
  next => exact h

theorem Sound.act (h : s.Sound) {a : Action} (hroom : s.Roomy a) : (s.act a).Sound := by
  cases a with
  | arrives w => exact h.arrives w hroom
  | calls => exact h.called
  | loads => exact h.loads

end Reader

end RingDma

end VintageKvm.Firmware.Lpt
