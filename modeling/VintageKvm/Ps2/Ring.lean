import VintageKvm.Ps2.Samplers

/-!
# The ring between the PIO and an oversampler

A DMA channel writes the words of the PIO into a ring, round and round; `run`
looks at the channel's write address every 2 ms, skips to the newest word when
the ring looks full, and drains what is there. Words arrive between any two
steps of `run`. All it knows is a difference of indices modulo the ring's size:

* `reports_iff`: which losses `fifo_overrun` counts;
* `stamped_iff`: when the time given to the framer is that of the sample.
-/

namespace VintageKvm.Ps2

abbrev RING_WORDS : Nat := 1024
abbrev RING_BYTES : Nat := 4 * RING_WORDS

/-- A slot of the ring. What follows its word is not in memory: the word's
place in the order of production, and whether the CPU has neither read nor
skipped it. -/
structure Ring.Slot where
  word : DWord
  number : Nat
  unread : Bool

/-- The ring, the write address of its DMA channel and the CPU's `last_tail`.
The counts, of words written and of words read or skipped, are not there to be
read. -/
structure Ring where
  baseAddr : Nat
  writeAddr : Nat
  lastTail : Nat
  slots : Nat → Ring.Slot
  produced : Nat
  consumed : Nat
  skipped : Nat

namespace Ring

def arm (baseAddr : Nat) : Ring where
  baseAddr := baseAddr
  writeAddr := baseAddr
  lastTail := 0
  slots := fun _ => ⟨0, 0, false⟩
  produced := 0
  consumed := 0
  skipped := 0

variable (r : Ring)

/-- The slot that the DMA channel writes next. -/
def writeSlot : Nat := (r.writeAddr - r.baseAddr) / 4

/-- The DMA channel writes a word, and its address wraps at the ring's size. -/
def dma (word : DWord) : Ring :=
  { r with
    slots := Function.update r.slots r.writeSlot ⟨word, r.produced, true⟩
    writeAddr := r.baseAddr + (r.writeAddr - r.baseAddr + 4) % RING_BYTES
    produced := r.produced + 1 }

def head : Nat := r.writeSlot % RING_WORDS

def pending : Nat := (r.head + RING_WORDS - r.lastTail) % RING_WORDS

/-- The slot that `drain` reads next. -/
def tail : Slot := r.slots r.lastTail

/-- `drain` has read a word. -/
def advance : Ring :=
  { r with
    slots := Function.update r.slots r.lastTail { r.tail with unread := false }
    lastTail := (r.lastTail + 1) % RING_WORDS
    consumed := r.consumed + 1 }

/-- The slot before the head. -/
def newest : Nat := (r.head + RING_WORDS - 1) % RING_WORDS

/-- Only the newest word remains to be read. -/
def resync : Ring :=
  { r with
    lastTail := r.newest
    slots := fun i => { r.slots i with unread := i = r.newest }
    consumed := r.produced - 1
    skipped := r.skipped + (r.produced - 1 - r.consumed) }

/-- The words written that `run` has neither read nor skipped. -/
def outstanding : Nat := r.produced - r.consumed

end Ring

/-- What `run` is at, between the reads of the write address. -/
inductive Phase where
  /-- The timer, then `pending`. -/
  | polling
  /-- About to `resync`. -/
  | resyncing
  /-- About to `drain`. -/
  | heading
  /-- The words left to drain. -/
  | draining (n : Nat)
  deriving DecidableEq, Repr

/-- An oversampler's `run`. The last two are not there to be read: the most
words outstanding since it last checked for an overrun, and whether a word to
be read was overwritten since. -/
structure Oversampler (σ : Type*) where
  ring : Ring
  fifoOverrun : DWord
  phase : Phase
  task : σ
  peak : Nat
  lost : Bool

namespace Oversampler

variable {σ : Type*} (word : σ → DWord → σ) (s : Oversampler σ)

def start (baseAddr : Nat) (task : σ) : Oversampler σ where
  ring := .arm baseAddr
  fifoOverrun := 0
  phase := .polling
  task := task
  peak := 0
  lost := false

inductive Action where
  /-- A word from the PIO. -/
  | arrives (word : DWord)
  /-- The next step of `run`. -/
  | runs
  deriving DecidableEq, Repr

def arrives (w : DWord) : Oversampler σ :=
  { s with
    ring := s.ring.dma w
    peak := max s.peak (s.ring.dma w).outstanding
    lost := s.lost || (s.ring.slots s.ring.writeSlot).unread }

/-- The check for an overrun; `drain`'s cap of one word less than the ring. -/
def runs : Oversampler σ :=
  match s.phase with
  | .polling =>
    if RING_WORDS - 1 ≤ s.ring.pending then
      { s with fifoOverrun := s.fifoOverrun + 1, phase := .resyncing }
    else { s with phase := .heading, peak := s.ring.outstanding, lost := false }
  | .resyncing =>
    { s with
      ring := s.ring.resync, phase := .heading, peak := s.ring.resync.outstanding, lost := false }
  | .heading => { s with phase := .draining (min s.ring.pending (RING_WORDS - 1)) }
  | .draining 0 => { s with phase := .polling }
  | .draining (n + 1) =>
    { s with ring := s.ring.advance, phase := .draining n, task := word s.task s.ring.tail.word }

def act : Action → Oversampler σ
  | .arrives w => s.arrives w
  | .runs => s.runs word

def run (baseAddr : Nat) (task : σ) (as : List Action) : Oversampler σ :=
  as.foldl (act word) (start baseAddr task)

/-- If a word to be read was overwritten since the last check, then this check
counts it. -/
def Reports (a : Action) : Prop :=
  a = .runs → s.phase = .polling → s.lost = true → (s.act word a).fifoOverrun = s.fifoOverrun + 1

/-- If more words than the ring holds were outstanding since the last check,
then one less than a multiple of its size are at this one. -/
def InReach (a : Action) : Prop :=
  a = .runs → s.phase = .polling → RING_WORDS < s.peak →
    s.ring.outstanding % RING_WORDS = RING_WORDS - 1

end Oversampler

/-! ## The ring -/

namespace Ring

/-- The addresses are those of the counts, and a slot has the newest of its
words. -/
structure Valid (r : Ring) : Prop where
  write : r.writeAddr = r.baseAddr + 4 * (r.produced % RING_WORDS)
  tail : r.lastTail = r.consumed % RING_WORDS
  le : r.consumed ≤ r.produced
  numbers : ∀ k < r.produced, r.produced ≤ k + RING_WORDS → (r.slots (k % RING_WORDS)).number = k

/-- No word to be read has been overwritten. -/
structure Exact (r : Ring) : Prop where
  few : r.outstanding ≤ RING_WORDS
  unread : ∀ i < RING_WORDS, (r.slots i).unread = true ↔ ∃ k, r.consumed ≤ k ∧ k < r.produced ∧
    k % RING_WORDS = i

variable {r : Ring}

theorem Valid.arm (baseAddr : Nat) : (Ring.arm baseAddr).Valid where
  write := rfl
  tail := rfl
  le := Nat.le_refl _
  numbers _ hk := absurd hk (Nat.not_lt_zero _)

theorem Exact.arm (baseAddr : Nat) : (Ring.arm baseAddr).Exact where
  few := Nat.zero_le _
  unread _ _ := iff_of_false Bool.false_ne_true fun ⟨_, _, hk, _⟩ => Nat.not_lt_zero _ hk

theorem Valid.writeSlot_eq (h : r.Valid) : r.writeSlot = r.produced % RING_WORDS := by
  rw [writeSlot, h.write, Nat.add_sub_cancel_left, Nat.mul_div_cancel_left _ (by decide)]

theorem Valid.head_eq (h : r.Valid) : r.head = r.produced % RING_WORDS := by
  rw [head, h.writeSlot_eq, Nat.mod_mod]

theorem Valid.pending_eq (h : r.Valid) : r.pending = r.outstanding % RING_WORDS := by
  have hle := h.le
  rw [pending, h.head_eq, h.tail, outstanding]
  show (r.produced % 1024 + 1024 - r.consumed % 1024) % 1024 = (r.produced - r.consumed) % 1024
  omega

theorem Valid.dma (h : r.Valid) (w : DWord) : (r.dma w).Valid where
  write := by
    show r.baseAddr + (r.writeAddr - r.baseAddr + 4) % (4 * 1024) =
      r.baseAddr + 4 * ((r.produced + 1) % 1024)
    have hw : r.writeAddr = r.baseAddr + 4 * (r.produced % 1024) := h.write
    omega
  tail := h.tail
  le := Nat.le_succ_of_le h.le
  numbers k hk hn := by
    have hk' : k < r.produced + 1 := hk
    have hn' : r.produced + 1 ≤ k + 1024 := hn
    show (Function.update r.slots r.writeSlot _ (k % RING_WORDS)).number = k
    rw [h.writeSlot_eq]
    obtain rfl | hlt := Nat.eq_or_lt_of_le (Nat.le_of_lt_succ hk')
    · rw [Function.update_self]
    · have hne : k % RING_WORDS ≠ r.produced % RING_WORDS := by
        show k % 1024 ≠ r.produced % 1024
        omega
      rw [Function.update_of_ne hne]
      exact h.numbers k hlt (by show r.produced ≤ k + 1024; omega)

theorem Valid.advance (h : r.Valid) (hpos : 0 < r.outstanding) : r.advance.Valid where
  write := h.write
  tail := by
    show (r.lastTail + 1) % RING_WORDS = (r.consumed + 1) % RING_WORDS
    rw [h.tail, Nat.mod_add_mod]
  le := by
    have hpos' : 0 < r.produced - r.consumed := hpos
    show r.consumed + 1 ≤ r.produced
    omega
  numbers k hk hn := by
    show (Function.update r.slots r.lastTail _ (k % RING_WORDS)).number = k
    by_cases he : k % RING_WORDS = r.lastTail
    · rw [he, Function.update_self]
      show r.tail.number = k
      rw [Ring.tail, ← he]
      exact h.numbers k hk hn
    · rw [Function.update_of_ne he]
      exact h.numbers k hk hn

theorem resync_produced (r : Ring) : r.resync.produced = r.produced := by rw [resync]

theorem resync_consumed (r : Ring) : r.resync.consumed = r.produced - 1 := rfl

theorem resync_unread (r : Ring) (i : Nat) :
    (r.resync.slots i).unread = decide (i = r.resync.lastTail) := by rw [resync]

theorem Valid.resync (h : r.Valid) (hpos : 0 < r.produced) : r.resync.Valid := by
  have htail : r.newest = (r.produced - 1) % RING_WORDS := by
    have hmod : (r.produced % 1024 + 1024 - 1) % 1024 = (r.produced - 1) % 1024 := by omega
    rw [newest, h.head_eq]
    exact hmod
  unfold Ring.resync
  exact ⟨h.write, htail, Nat.sub_le _ _, h.numbers⟩

theorem outstanding_dma (h : r.Valid) (w : DWord) : (r.dma w).outstanding = r.outstanding + 1 := by
  have hle := h.le
  show r.produced + 1 - r.consumed = r.produced - r.consumed + 1
  omega

theorem outstanding_advance (r : Ring) : r.advance.outstanding = r.outstanding - 1 :=
  Nat.sub_add_eq _ _ _

theorem outstanding_resync (hpos : 0 < r.produced) : r.resync.outstanding = 1 := by
  rw [outstanding, resync_produced, resync_consumed]
  omega

/-- The word that the next one overwrites is to be read iff the ring is full. -/
theorem Exact.overwrites_iff (h : r.Exact) (hv : r.Valid) :
    (r.slots r.writeSlot).unread = true ↔ r.outstanding = RING_WORDS := by
  have hle := hv.le
  have hfew : r.produced - r.consumed ≤ 1024 := h.few
  rw [hv.writeSlot_eq, h.unread _ (Nat.mod_lt _ (by decide))]
  show (∃ k, r.consumed ≤ k ∧ k < r.produced ∧ k % 1024 = r.produced % 1024) ↔
    r.produced - r.consumed = 1024
  constructor
  · rintro ⟨k, hck, hkp, hk⟩
    omega
  · intro hfull
    exact ⟨r.consumed, Nat.le_refl _, by omega, by omega⟩

theorem Exact.dma (h : r.Exact) (hv : r.Valid) (w : DWord) (hroom : r.outstanding < RING_WORDS) :
    (r.dma w).Exact where
  few := by
    rw [outstanding_dma hv]
    exact hroom
  unread i hi := by
    have hle := hv.le
    have hroom' : r.produced - r.consumed < 1024 := hroom
    show (Function.update r.slots r.writeSlot _ i).unread = true ↔ ∃ k, r.consumed ≤ k ∧
      k < r.produced + 1 ∧ k % RING_WORDS = i
    rw [hv.writeSlot_eq]
    by_cases he : i = r.produced % RING_WORDS
    · rw [he, Function.update_self]
      exact iff_of_true rfl ⟨r.produced, hle, Nat.lt_succ_self _, rfl⟩
    · rw [Function.update_of_ne he, h.unread i hi]
      constructor
      · rintro ⟨k, hck, hkp, hk⟩
        exact ⟨k, hck, Nat.lt_succ_of_lt hkp, hk⟩
      · rintro ⟨k, hck, hkp, hk⟩
        exact ⟨k, hck, Nat.lt_of_le_of_ne (Nat.le_of_lt_succ hkp)
          fun hkp => he (by rw [← hk, hkp]), hk⟩

theorem Exact.advance (h : r.Exact) (hv : r.Valid) : r.advance.Exact where
  few := by
    rw [outstanding_advance]
    exact Nat.le_trans (Nat.sub_le _ _) h.few
  unread i hi := by
    have hfew : r.produced - r.consumed ≤ 1024 := h.few
    show (Function.update r.slots r.lastTail _ i).unread = true ↔ ∃ k, r.consumed + 1 ≤ k ∧
      k < r.produced ∧ k % RING_WORDS = i
    rw [hv.tail]
    by_cases he : i = r.consumed % RING_WORDS
    · rw [he, Function.update_self]
      refine iff_of_false Bool.false_ne_true ?_
      rintro ⟨k, hck, hkp, hk⟩
      have hk' : k % 1024 = r.consumed % 1024 := hk
      omega
    · rw [Function.update_of_ne he, h.unread i hi]
      constructor
      · rintro ⟨k, hck, hkp, hk⟩
        exact ⟨k, Nat.lt_of_le_of_ne hck fun hkc => he (by rw [← hk, hkc]), hkp, hk⟩
      · rintro ⟨k, hck, hkp, hk⟩
        exact ⟨k, Nat.le_of_succ_le hck, hkp, hk⟩

theorem Exact.resync (h : r.Valid) (hpos : 0 < r.produced) : r.resync.Exact where
  few := by
    rw [outstanding_resync hpos]
    decide
  unread i hi := by
    rw [resync_unread, (h.resync hpos).tail, decide_eq_true_iff, resync_produced, resync_consumed]
    constructor
    · rintro rfl
      exact ⟨r.produced - 1, Nat.le_refl _, by omega, rfl⟩
    · rintro ⟨k, hck, hkp, rfl⟩
      rw [show k = r.produced - 1 by omega]

end Ring

/-! ## One step of an oversampler -/

namespace Oversampler

variable {σ : Type*} {word : σ → DWord → σ} {s : Oversampler σ}

/-- Of every run: `drain` does not read past the head it has seen, and
`resync` runs only on a ring with a word in it. -/
structure Sane (s : Oversampler σ) : Prop where
  valid : s.ring.Valid
  left : ∀ n, s.phase = .draining n → n ≤ s.ring.outstanding
  some : s.phase = .resyncing → 0 < s.ring.outstanding

/-- The words lost are those beyond the ring's size. -/
structure Synced (s : Oversampler σ) : Prop where
  peak : s.ring.outstanding ≤ s.peak
  lost : s.lost = true ↔ RING_WORDS < s.peak
  exact_ : s.peak ≤ RING_WORDS → s.ring.Exact

theorem Sane.start (baseAddr : Nat) (task : σ) : (start baseAddr task).Sane where
  valid := .arm baseAddr
  left _ h := by cases h
  some h := by cases h

theorem Synced.start (baseAddr : Nat) (task : σ) : (start baseAddr task).Synced where
  peak := Nat.le_refl _
  lost := iff_of_false Bool.false_ne_true (Nat.not_lt_zero _)
  exact_ _ := .arm baseAddr

theorem Sane.arrives (h : s.Sane) (w : DWord) : (s.arrives w).Sane where
  valid := h.valid.dma w
  left n hn := (h.left n hn).trans (by
    show s.ring.outstanding ≤ (s.ring.dma w).outstanding
    rw [Ring.outstanding_dma h.valid]
    exact Nat.le_succ _)
  some hp := Nat.lt_of_lt_of_le (h.some hp) (by
    show s.ring.outstanding ≤ (s.ring.dma w).outstanding
    rw [Ring.outstanding_dma h.valid]
    exact Nat.le_succ _)

theorem pos_of_pending (h : s.Sane) (hp : RING_WORDS - 1 ≤ s.ring.pending) :
    0 < s.ring.outstanding := by
  rw [h.valid.pending_eq] at hp
  have hmod : s.ring.outstanding % RING_WORDS ≤ s.ring.outstanding := Nat.mod_le _ _
  exact Nat.lt_of_lt_of_le (by decide) (hp.trans hmod)

theorem Sane.runs (h : s.Sane) : (s.runs word).Sane := by
  unfold Oversampler.runs
  split
  next hp =>
    split
    next hmany =>
      have hpos := pos_of_pending h hmany
      exact ⟨h.valid, nofun, fun _ => hpos⟩
    next => exact ⟨h.valid, nofun, nofun⟩
  next hp =>
    have hpos : 0 < s.ring.produced := Nat.lt_of_lt_of_le (h.some hp) (Nat.sub_le _ _)
    exact ⟨h.valid.resync hpos, nofun, nofun⟩
  next hp =>
    refine ⟨h.valid, fun n hn => ?_, nofun⟩
    obtain rfl := Phase.draining.inj hn
    refine (Nat.min_le_left _ _).trans ?_
    rw [h.valid.pending_eq]
    exact Nat.mod_le _ _
  next hp => exact ⟨h.valid, nofun, nofun⟩
  next n hp =>
    have hle : n + 1 ≤ s.ring.outstanding := h.left _ hp
    refine ⟨h.valid.advance (Nat.lt_of_lt_of_le (Nat.succ_pos n) hle), fun m hm => ?_, nofun⟩
    obtain rfl := Phase.draining.inj hm
    show n ≤ s.ring.advance.outstanding
    rw [Ring.outstanding_advance]
    exact Nat.le_sub_one_of_lt hle

theorem Sane.act (h : s.Sane) (a : Action) : (s.act word a).Sane := by
  cases a with
  | arrives w => exact h.arrives w
  | runs => exact h.runs

theorem sane_run (word : σ → DWord → σ) (baseAddr : Nat) (task : σ) (as : List Action) :
    (run word baseAddr task as).Sane := by
  induction as using List.reverseRecOn with
  | nil => exact .start baseAddr task
  | append_singleton as a ih =>
    rw [run, List.foldl_concat]
    exact ih.act a

theorem Synced.arrives (h : s.Synced) (hs : s.Sane) (w : DWord) : (s.arrives w).Synced := by
  have hout := Ring.outstanding_dma hs.valid w
  refine ⟨Nat.le_max_right _ _, ?_, fun hp => ?_⟩
  · show (s.lost || (s.ring.slots s.ring.writeSlot).unread) = true ↔
      RING_WORDS < max s.peak (s.ring.dma w).outstanding
    rw [Bool.or_eq_true, h.lost, hout]
    by_cases hp : s.peak ≤ RING_WORDS
    · have hfew := (h.exact_ hp).few
      rw [(h.exact_ hp).overwrites_iff hs.valid]
      omega
    · have hp' := Nat.not_le.mp hp
      exact iff_of_true (.inl hp') (Nat.lt_of_lt_of_le hp' (Nat.le_max_left _ _))
  · have hp' : max s.peak (s.ring.dma w).outstanding ≤ RING_WORDS := hp
    rw [hout] at hp'
    exact (h.exact_ (by omega)).dma hs.valid w (by omega)

/-- Before a check that counts nothing no word is lost. -/
theorem few_of_inReach (hs : s.Sane) (ha : s.InReach .runs) (hp : s.phase = .polling)
    (hfew : ¬ RING_WORDS - 1 ≤ s.ring.pending) : s.peak ≤ RING_WORDS := by
  by_contra hpeak
  refine hfew ?_
  rw [hs.valid.pending_eq, ha rfl hp (Nat.not_le.mp hpeak)]

theorem Synced.runs (h : s.phase ≠ .resyncing → s.Synced) (hs : s.Sane) (ha : s.InReach .runs)
    (hnext : (s.runs word).phase ≠ .resyncing) : (s.runs word).Synced := by
  unfold Oversampler.runs at hnext ⊢
  cases hp : s.phase with
  | polling =>
    have hsync := h (by rw [hp]; exact Phase.noConfusion)
    rw [hp] at hnext
    dsimp only at hnext ⊢
    by_cases hmany : RING_WORDS - 1 ≤ s.ring.pending
    · rw [if_pos hmany] at hnext
      exact absurd rfl hnext
    · have hpeak := few_of_inReach hs ha hp hmany
      have hout := hsync.peak.trans hpeak
      rw [if_neg hmany]
      exact ⟨Nat.le_refl _, iff_of_false Bool.false_ne_true (Nat.not_lt.mpr hout),
        fun _ => hsync.exact_ hpeak⟩
  | resyncing =>
    have hpos : 0 < s.ring.produced := Nat.lt_of_lt_of_le (hs.some hp) (Nat.sub_le _ _)
    have hexact := Ring.Exact.resync hs.valid hpos
    exact ⟨Nat.le_refl _, iff_of_false Bool.false_ne_true (Nat.not_lt.mpr hexact.few),
      fun _ => hexact⟩
  | heading =>
    have hsync := h (by rw [hp]; exact Phase.noConfusion)
    exact ⟨hsync.peak, hsync.lost, hsync.exact_⟩
  | draining n =>
    have hsync := h (by rw [hp]; exact Phase.noConfusion)
    cases n with
    | zero => exact ⟨hsync.peak, hsync.lost, hsync.exact_⟩
    | succ n =>
      refine ⟨?_, hsync.lost, fun hpeak => (hsync.exact_ hpeak).advance hs.valid⟩
      show s.ring.advance.outstanding ≤ s.peak
      rw [Ring.outstanding_advance]
      exact (Nat.sub_le _ _).trans hsync.peak

/-- The invariant of runs in which every loss is within reach. -/
def Tracked (s : Oversampler σ) : Prop := s.Sane ∧ (s.phase ≠ .resyncing → s.Synced)

theorem Tracked.act (h : s.Tracked) {a : Action} (ha : s.InReach a) : (s.act word a).Tracked := by
  refine ⟨h.1.act a, fun hp => ?_⟩
  cases a with
  | arrives w => exact (h.2 hp).arrives h.1 w
  | runs => exact Synced.runs h.2 h.1 ha hp

theorem runs_counts (hp : s.phase = .polling) :
    (s.runs word).fifoOverrun = s.fifoOverrun + 1 ↔ RING_WORDS - 1 ≤ s.ring.pending := by
  unfold Oversampler.runs
  rw [hp]
  dsimp only
  split
  next h => exact iff_of_true rfl h
  next h => exact iff_of_false (by simp) h

theorem Tracked.check_iff (h : s.Tracked) (a : Action) : s.Reports word a ↔ s.InReach a := by
  unfold Reports InReach
  refine forall_congr' fun ha => forall_congr' fun hp => ?_
  subst ha
  have hsync := h.2 (by rw [hp]; exact Phase.noConfusion)
  have hlt : s.ring.outstanding % RING_WORDS < RING_WORDS := Nat.mod_lt _ (by decide)
  rw [hsync.lost]
  show (_ → (s.runs word).fifoOverrun = _) ↔ _
  rw [runs_counts hp, h.1.valid.pending_eq]
  exact forall_congr' fun _ => ⟨fun hle => Nat.le_antisymm (Nat.le_sub_one_of_lt hlt) hle,
    fun he => Nat.le_of_eq he.symm⟩

/-! ## Overruns -/

theorem Tracked.start (baseAddr : Nat) (task : σ) : (start baseAddr task).Tracked :=
  ⟨.start baseAddr task, fun _ => .start baseAddr task⟩

theorem along_iff (baseAddr : Nat) (task : σ) (as : List Action) :
    Run.Along (act word) (Reports word) (Oversampler.start baseAddr task) as ↔
      Run.Along (act word) InReach (Oversampler.start baseAddr task) as :=
  Run.Along.congr (Tracked.start baseAddr task) (fun _ a hs => Tracked.check_iff hs a)
    fun _ _ hs ha => Tracked.act hs ha

/-- Of either wire: every loss of a word is counted by the next check, iff
after more words than the ring holds the number outstanding at the check is
one less than a multiple of its size. -/
theorem reports_iff (baseAddr : Nat) (as : List Action) :
    (Run.Along (act Kbd.Task.word) (Reports Kbd.Task.word) (Oversampler.start baseAddr .new) as ↔
      Run.Along (act Kbd.Task.word) InReach (Oversampler.start baseAddr .new) as) ∧
    (Run.Along (act Aux.Task.word) (Reports Aux.Task.word) (Oversampler.start baseAddr .new) as ↔
      Run.Along (act Aux.Task.word) InReach (Oversampler.start baseAddr .new) as) :=
  ⟨along_iff baseAddr Kbd.Task.new as, along_iff baseAddr Aux.Task.new as⟩

/-- Words that arrive between two rounds. -/
theorem run_arrives (word : σ → DWord → σ) (baseAddr : Nat) (task : σ) (n : Nat) (w : DWord) :
    (run word baseAddr task (List.replicate n (.arrives w))).phase = .polling ∧
    (run word baseAddr task (List.replicate n (.arrives w))).peak = n ∧
    (run word baseAddr task (List.replicate n (.arrives w))).ring.produced = n ∧
    (run word baseAddr task (List.replicate n (.arrives w))).ring.consumed = 0 ∧
    (run word baseAddr task (List.replicate n (.arrives w))).Tracked := by
  induction n with
  | zero => exact ⟨rfl, rfl, rfl, rfl, .start baseAddr task⟩
  | succ n ih =>
    obtain ⟨hphase, hpeak, hproduced, hconsumed, htracked⟩ := ih
    have hstep : run word baseAddr task (List.replicate (n + 1) (.arrives w)) =
        (run word baseAddr task (List.replicate n (.arrives w))).arrives w := by
      rw [run, List.replicate_succ', List.foldl_concat]
      rfl
    rw [hstep]
    refine ⟨hphase, ?_, congrArg (· + 1) hproduced, hconsumed,
      show Tracked (act word _ (.arrives w)) from htracked.act fun h => nomatch h⟩
    show max _ (Ring.outstanding _) = _
    rw [Ring.outstanding_dma htracked.1.valid, hpeak, Ring.outstanding, hproduced, hconsumed]
    omega

/-- One word more than the ring holds, between two rounds. -/
theorem lap_silent : ¬ Reports Kbd.Task.word
    (run Kbd.Task.word 0x20000000 .new (List.replicate (RING_WORDS + 1) (.arrives 0))) .runs := by
  obtain ⟨hphase, hpeak, hproduced, hconsumed, htracked⟩ :=
    run_arrives Kbd.Task.word 0x20000000 .new (RING_WORDS + 1) 0
  rw [htracked.check_iff]
  intro h
  have hmod := h rfl hphase (by rw [hpeak]; decide)
  rw [Ring.outstanding, hproduced, hconsumed] at hmod
  revert hmod
  decide

/-! ## The time of a sample -/

/-- The time that `run` gives the framer for the samples of the word that
`drain` reads next is their place in the order of production. -/
def Stamped (s : Oversampler Kbd.Task) : Prop :=
  ∀ n, s.phase = .draining (n + 1) → ∀ i < Kbd.SAMPLES_PER_WORD,
    ((List.range i).foldl (fun k i => k.sample (Kbd.sampleAt s.ring.tail.word i)) s.task).tUs =
      Kbd.SAMPLES_PER_WORD * s.ring.tail.number + i

/-- No word has been skipped before a word is read, and no more are
outstanding than the ring holds. -/
def InOrder (s : Oversampler Kbd.Task) : Prop :=
  ∀ n, s.phase = .draining (n + 1) → s.ring.skipped = 0 ∧ s.ring.outstanding ≤ RING_WORDS

/-- The framer's time counts the words read. -/
def Clocked (s : Oversampler Kbd.Task) : Prop :=
  s.task.tUs + Kbd.SAMPLES_PER_WORD * s.ring.skipped = Kbd.SAMPLES_PER_WORD * s.ring.consumed

theorem samples_tUs (k : Kbd.Task) (x : Nat → Kbd.Sample) (n : Nat) :
    ((List.range n).foldl (fun k i => k.sample (x i)) k).tUs = k.tUs + n := by
  induction n with
  | zero => rfl
  | succ n ih =>
    rw [List.range_succ, List.foldl_concat, (Kbd.Task.sample_keeps _ _).1, ih]
    rfl

theorem word_tUs (k : Kbd.Task) (w : DWord) : (k.word w).tUs = k.tUs + Kbd.SAMPLES_PER_WORD :=
  samples_tUs _ _ _

theorem Clocked.act {s : Oversampler Kbd.Task} (h : s.Clocked) (hs : s.Sane) (a : Action) :
    (s.act Kbd.Task.word a).Clocked := by
  cases a with
  | arrives w => exact h
  | runs =>
    show (s.runs Kbd.Task.word).Clocked
    unfold Oversampler.runs
    split
    next =>
      split
      · exact h
      · exact h
    next hp =>
      have hsome : 0 < s.ring.produced - s.ring.consumed := hs.some hp
      have h' : s.task.tUs + 10 * s.ring.skipped = 10 * s.ring.consumed := h
      show s.task.tUs + 10 * (s.ring.skipped + (s.ring.produced - 1 - s.ring.consumed)) =
        10 * (s.ring.produced - 1)
      omega
    next => exact h
    next => exact h
    next =>
      have h' : s.task.tUs + 10 * s.ring.skipped = 10 * s.ring.consumed := h
      show (s.task.word s.ring.tail.word).tUs + 10 * s.ring.skipped = 10 * (s.ring.consumed + 1)
      rw [word_tUs]
      show s.task.tUs + 10 + 10 * s.ring.skipped = _
      omega

theorem clocked_run (baseAddr : Nat) (as : List Action) :
    (run Kbd.Task.word baseAddr .new as).Clocked := by
  induction as using List.reverseRecOn with
  | nil => rfl
  | append_singleton as a ih =>
    have hs := sane_run Kbd.Task.word baseAddr .new as
    rw [run, List.foldl_concat]
    exact ih.act hs a

/-- The word that `drain` reads next, some laps later where words were
overwritten. -/
theorem tail_number {s : Oversampler σ} (hs : s.Sane) (hpos : 0 < s.ring.outstanding) :
    s.ring.tail.number = s.ring.consumed +
      RING_WORDS * ((s.ring.outstanding - 1) / RING_WORDS) := by
  have hpos' : 0 < s.ring.produced - s.ring.consumed := hpos
  let n := s.ring.consumed + 1024 * ((s.ring.produced - s.ring.consumed - 1) / 1024)
  have hlow : n < s.ring.produced := by omega
  have hhigh : s.ring.produced ≤ n + 1024 := by omega
  have hnum := hs.valid.numbers n hlow hhigh
  rwa [Nat.add_mul_mod_self_left, ← hs.valid.tail] at hnum

theorem stamped_iff_inOrder {s : Oversampler Kbd.Task} (hs : s.Sane) (hc : s.Clocked) :
    s.Stamped ↔ s.InOrder := by
  refine forall_congr' fun n => forall_congr' fun hp => ?_
  have hpos : 0 < s.ring.outstanding := Nat.lt_of_lt_of_le (Nat.succ_pos n) (hs.left _ hp)
  have hnum := tail_number hs hpos
  have hc' : s.task.tUs + 10 * s.ring.skipped = 10 * s.ring.consumed := hc
  -- the word's number and what the time counts differ by the words skipped and by the laps
  have hkey : s.task.tUs = 10 * s.ring.tail.number ↔ s.ring.skipped = 0 ∧
      s.ring.outstanding ≤ 1024 := by
    rw [hnum]
    show s.task.tUs = 10 * (s.ring.consumed + 1024 * ((s.ring.outstanding - 1) / 1024)) ↔ _
    omega
  rw [show RING_WORDS = 1024 from rfl, ← hkey]
  constructor
  · intro h
    exact h 0 (by decide)
  · intro h i _
    rw [samples_tUs, h]

/-- Throughout a run the framer is given the time of each sample, iff no word
is read after others have been skipped, or with more outstanding than the ring
holds. -/
theorem stamped_iff (baseAddr : Nat) (as : List Action) :
    (∀ n, (run Kbd.Task.word baseAddr .new (as.take n)).Stamped) ↔
      ∀ n, (run Kbd.Task.word baseAddr .new (as.take n)).InOrder :=
  forall_congr' fun _ => stamped_iff_inOrder (sane_run _ _ _ _) (clocked_run _ _)

theorem runs_resyncs (word : σ → DWord → σ) (hp : s.phase = .polling)
    (hmany : RING_WORDS - 1 ≤ s.ring.pending) :
    s.runs word = { s with fifoOverrun := s.fifoOverrun + 1, phase := .resyncing } := by
  unfold Oversampler.runs
  rw [hp]
  exact if_pos hmany

/-- A round that skips to the newest word is about to read it. -/
theorem skips_drains (word : σ → DWord → σ) (hs : s.Sane) (hp : s.phase = .polling)
    (hmany : RING_WORDS - 1 ≤ s.ring.pending) :
    ([.runs, .runs, .runs].foldl (act word) s).phase = .draining 1 ∧
    ([.runs, .runs, .runs].foldl (act word) s).ring = s.ring.resync := by
  have hpos : 0 < s.ring.produced := Nat.lt_of_lt_of_le (pos_of_pending hs hmany) (Nat.sub_le _ _)
  show (((s.runs word).runs word).runs word).phase = _ ∧
    (((s.runs word).runs word).runs word).ring = _
  rw [runs_resyncs word hp hmany]
  refine ⟨?_, rfl⟩
  show Phase.draining (min s.ring.resync.pending (RING_WORDS - 1)) = .draining 1
  rw [(hs.valid.resync hpos).pending_eq, Ring.outstanding_resync hpos]
  rfl

theorem skips_disordered {s : Oversampler Kbd.Task} (hs : s.Sane) (hp : s.phase = .polling)
    (hmany : RING_WORDS - 1 ≤ s.ring.pending) (hskip : s.ring.consumed < s.ring.produced - 1) :
    ¬ ([.runs, .runs, .runs].foldl (act Kbd.Task.word) s).InOrder := by
  obtain ⟨hdrains, hring⟩ := skips_drains Kbd.Task.word hs hp hmany
  intro h
  have h0 := (congrArg Ring.skipped hring).symm.trans (h 0 hdrains).1
  rw [Ring.resync] at h0
  dsimp only at h0
  omega

/-- One word less than the ring holds, between two rounds: the check counts
it, and the newest word is read. -/
theorem resync_unstamped :
    Run.Along (act Kbd.Task.word) (Reports Kbd.Task.word) (Oversampler.start 0x20000000 .new)
      (List.replicate (RING_WORDS - 1) (.arrives 0) ++ [.runs, .runs, .runs]) ∧
    ¬ (run Kbd.Task.word 0x20000000 .new
      (List.replicate (RING_WORDS - 1) (.arrives 0) ++ [.runs, .runs, .runs])).Stamped := by
  obtain ⟨hphase, hpeak, hproduced, hconsumed, htracked⟩ :=
    run_arrives Kbd.Task.word 0x20000000 .new (RING_WORDS - 1) 0
  have hpending : RING_WORDS - 1 ≤ (run Kbd.Task.word 0x20000000 .new
      (List.replicate (RING_WORDS - 1) (.arrives 0))).ring.pending := by
    rw [htracked.1.valid.pending_eq, Ring.outstanding, hproduced, hconsumed]
    decide
  have hskip :
    (run Kbd.Task.word 0x20000000 .new
      (List.replicate (RING_WORDS - 1) (.arrives 0))).ring.consumed <
      (run Kbd.Task.word 0x20000000 .new
        (List.replicate (RING_WORDS - 1) (.arrives 0))).ring.produced - 1 := by
    rw [hproduced, hconsumed]
    decide
  constructor
  · rw [along_iff]
    refine Run.Along.append (Run.Along.of_forall fun a ha s h => ?_) ⟨fun _ _ h => ?_,
      fun _ h => ?_, fun _ h => ?_, trivial⟩
    · rw [List.eq_of_mem_replicate ha] at h
      cases h
    · exact absurd h (Nat.not_lt.mpr (hpeak.le.trans (by decide)))
    · have hr := runs_resyncs Kbd.Task.word hphase hpending
      cases (congrArg Oversampler.phase hr).symm.trans h
    · have hr := runs_resyncs Kbd.Task.word hphase hpending
      cases (congrArg (fun s => (s.runs Kbd.Task.word).phase) hr).symm.trans h
  · rw [stamped_iff_inOrder (sane_run _ _ _ _) (clocked_run _ _), run, List.foldl_append]
    have h := skips_disordered htracked.1 hphase hpending hskip
    exact h

end Oversampler

end VintageKvm.Ps2
