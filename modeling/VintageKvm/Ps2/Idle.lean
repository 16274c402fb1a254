import VintageKvm.Ps2.Edges

/-!
# Idle time between frames

Frames and the time that CLK stays high after each of them, with samples at any
times. The framer cuts the time since an edge to 32 bits, so that it takes the
first edge after some idle times for a glitch, and may see a frame time out too
late or never; nor does it note the rising edge in a sample that a frame times out
with. `Heard`: every edge and timeout that counts is seen. `reads_iff`: then and
only then the framer emits what was sent, and `sameFrames_iff` for two streams
that differ in the idle times.
-/

namespace VintageKvm.Ps2

/-! ## Pulses on CLK -/

/-- What the samples of a frame come to: the bits at the falling edges of CLK,
the times between these, and the level of CLK. Times count from the first
falling edge. -/
structure Train where
  bits : List Bool
  widths : List Nat
  fall : Nat
  edge : Nat
  clk : Bool
  deriving DecidableEq, Repr

namespace Train

def first (start : Bool) : Train := ⟨[start], [], 0, 0, false⟩

/-- One more sample: phases last 4 us at least, and a frame with bits to come
goes on within 200 us. -/
def next (p : Train) (s : Sample) : Option Train :=
  if p.bits.length < AT_BIT_COUNT ∧ p.fall + IDLE_TIMEOUT_US ≤ s.tUs then none
  else if s.clk = p.clk then some p
  else if s.tUs < p.edge + GLITCH_THRESHOLD_US then none
  else if s.clk then some { p with clk := true, edge := s.tUs }
  else some ⟨p.bits ++ [s.data], p.widths ++ [s.tUs - p.fall], s.tUs, s.tUs, false⟩

end Train

def Sent.isXt : Sent → Bool
  | .at_ .. => false
  | .xt _ => true

/-- A frame on the wire: its samples after the first falling edge, up to the
last; then DATA while CLK stays low, and in the sample of the rising edge. -/
structure Burst where
  sent : Sent
  start : Bool
  samples : List Sample
  last : Train
  runs : samples.foldlM Train.next (Train.first start) = some last
  whole : last.bits = sent.bits ∧ last.clk = false
  low : List (Nat × Bool)
  rise : Nat × Bool
  phase : last.fall + GLITCH_THRESHOLD_US ≤ rise.1
  within : ∀ s ∈ low, last.fall ≤ s.1 ∧ s.1 ≤ rise.1

/-- A frame and the idle time after it: samples of DATA with CLK high, and how
long after the last rising edge CLK falls again. The timeout of an XT frame is
sampled. -/
structure Spell where
  burst : Burst
  high : List (Nat × Bool)
  us : Nat
  long : 250 ≤ us
  within : ∀ s ∈ high, s.1 < burst.rise.1 + us
  sampled : burst.sent.isXt →
    ∃ s ∈ burst.low ++ burst.rise :: high, burst.last.fall + IDLE_TIMEOUT_US ≤ s.1

/-- CLK high from the start on, and frames from the time `first` on. -/
structure Traffic where
  lead : List (Nat × Bool)
  first : Nat
  spells : List Spell
  sampled : lead ≠ []

namespace Sample

def shift (t : Nat) (s : Sample) : Sample := { s with tUs := t + s.tUs }

/-- A sample of DATA with CLK at a level. -/
def level (clk : Bool) (t : Nat) (s : Nat × Bool) : Sample := ⟨clk, s.2, t + s.1⟩

end Sample

def Burst.wire (b : Burst) (t : Nat) : List Sample :=
  ⟨false, b.start, t⟩ :: b.samples.map (.shift t)

/-- What follows its last falling edge. -/
def Spell.rest (x : Spell) (t : Nat) : List Sample :=
  x.burst.low.map (.level false t) ++ .level true t x.burst.rise :: x.high.map (.level true t)

def Spell.wire (x : Spell) (t : Nat) : List Sample := x.burst.wire t ++ x.rest t

/-- From the first falling edge of a frame to that of the next. -/
def Spell.duration (x : Spell) : Nat := x.burst.rise.1 + x.us

def wires (t : Nat) : List Spell → List Sample
  | [] => []
  | x :: xs => x.wire t ++ wires (t + x.duration) xs

def Traffic.samples (x : Traffic) : List Sample :=
  x.lead.map (.level true 0) ++ wires x.first x.spells

/-! ## Frames -/

/-- A frame but for its time and the skew. -/
def Ps2Frame.timeless (f : Ps2Frame) : Ps2Frame :=
  { f with startTimestampUs := 0, timing := { f.timing with clkDataSkewUs := 0 } }

/-- The frame of so many bits, with these times between falling edges. -/
def frameOf (bits : List Bool) (widths : List Nat) : Ps2Frame :=
  { Framer.new with
    assembled := (BitVec.ofBoolListLE bits).setWidth 16
    periodsUs := widths.map (BitVec.ofNat 16) ++
      List.replicate (11 - widths.length) 0 : Framer }.buildFrame bits.length

def Burst.frame (b : Burst) : Ps2Frame := frameOf b.last.bits b.last.widths

/-- The framer on samples. -/
def Framer.feed (f : Framer) : List Sample → Framer × List Ps2Frame
  | [] => (f, [])
  | s :: ss =>
    (((f.ingestSample s).1.feed ss).1,
      (f.ingestSample s).2.toList ++ ((f.ingestSample s).1.feed ss).2)

/-- The frames on the wire. -/
def Traffic.bursts (x : Traffic) : List Burst := x.spells.map Spell.burst

/-- The frames emitted. -/
def Traffic.frames (x : Traffic) : List Ps2Frame :=
  (Framer.new.feed x.samples).2.map Ps2Frame.timeless

/-- The same kind, data, parity, framing, periods and number of glitches of
every frame. -/
def SameFrames (x y : Traffic) : Prop := y.frames = x.frames

namespace Burst

variable (b : Burst)

/-- As cut to 32 bits, a sample is late enough for the timeout. -/
def Late (s : Nat × Bool) : Prop := IDLE_TIMEOUT_US ≤ (s.1 - b.last.fall) % 2 ^ 32

instance (s : Nat × Bool) : Decidable (b.Late s) := inferInstanceAs (Decidable (_ ≤ _))

/-- A frame that waits for its timeout has it before the rising edge. -/
def Over : Prop := ∃ s ∈ b.low, b.Late s

instance : Decidable b.Over := inferInstanceAs (Decidable (∃ s ∈ b.low, _))

/-- The rising edge of an XT frame is no glitch in it. -/
def Clean : Prop := b.sent.isXt → b.Over ∨ GLITCH_THRESHOLD_US ≤ (b.rise.1 - b.last.fall) % 2 ^ 32

/-- The last edge that the framer notes: the rising one, but for an XT frame that
times out with it. -/
def noted : Nat := if b.sent.isXt ∧ ¬ b.Over ∧ b.Late b.rise then b.last.fall else b.rise.1

end Burst

/-- An XT frame times out. -/
def Spell.TimesOut (x : Spell) : Prop :=
  x.burst.sent.isXt → ∃ s ∈ x.burst.low ++ x.burst.rise :: x.high, x.burst.Late s

/-- And the time from an edge to the first falling edge of a frame, `us` here,
is no glitch's. -/
def Heard (us : Nat) : List Spell → Prop
  | [] => True
  | x :: xs => GLITCH_THRESHOLD_US ≤ us % 2 ^ 32 ∧ (x.burst.Clean ∧ x.TimesOut) ∧
    Heard (x.us + (x.burst.rise.1 - x.burst.noted)) xs

def Traffic.Heard (x : Traffic) : Prop := Ps2.Heard x.first x.spells

/-- The bits that a frame is made of. -/
def Ps2Frame.bitCount (f : Ps2Frame) : Nat :=
  match f.kind with
  | .at_ => AT_BIT_COUNT
  | .xt => XT_BIT_COUNT
  | .invalid => 0

theorem Burst.frame_kind (b : Burst) : b.frame.kind = match b.sent with
    | .at_ .. => .at_
    | .xt _ => .xt := by
  rw [Burst.frame, b.whole.1]
  cases b.sent <;> rfl

theorem Burst.frame_bitCount (b : Burst) : b.frame.bitCount = b.sent.bits.length := by
  rw [Ps2Frame.bitCount, b.frame_kind]
  cases b.sent <;> rfl

theorem Burst.frame_glitches (b : Burst) : b.frame.timing.glitchCount = 0 := by
  rw [Burst.frame, frameOf, Framer.buildFrame]
  split <;> rfl

theorem Burst.noted_le (b : Burst) : b.noted ≤ b.rise.1 := by
  rw [noted]
  split
  · exact (Nat.le_add_right _ _).trans b.phase
  · exact Nat.le_refl _

/-! ## A frame's samples -/

namespace Train

variable {p p' : Train} {s : Sample}

/-- All that a sample can do. -/
theorem next_cases (h : p.next s = some p') :
    (p.bits.length < AT_BIT_COUNT → s.tUs < p.fall + IDLE_TIMEOUT_US) ∧
      (s.clk = p.clk ∧ p' = p ∨
        p.clk = false ∧ s.clk = true ∧ p.edge + GLITCH_THRESHOLD_US ≤ s.tUs ∧
          p' = { p with clk := true, edge := s.tUs } ∨
        p.clk = true ∧ s.clk = false ∧ p.edge + GLITCH_THRESHOLD_US ≤ s.tUs ∧
          p' = ⟨p.bits ++ [s.data], p.widths ++ [s.tUs - p.fall], s.tUs, s.tUs, false⟩) := by
  unfold next at h
  split at h
  next => cases h
  next hlate =>
    refine ⟨fun hlt => Nat.not_le.mp fun hle => hlate ⟨hlt, hle⟩, ?_⟩
    split at h
    next hsame => exact .inl ⟨hsame, (Option.some.inj h).symm⟩
    next hedge =>
      split at h
      next => cases h
      next hphase =>
        have hphase' := Nat.not_lt.mp hphase
        split at h
        next hclk =>
          have hlow : p.clk = false := by
            rw [hclk] at hedge
            exact Bool.eq_false_iff.mpr (Ne.symm hedge)
          exact .inr (.inl ⟨hlow, hclk, hphase', (Option.some.inj h).symm⟩)
        next hclk =>
          have hlow : s.clk = false := Bool.eq_false_iff.mpr hclk
          have hhigh : p.clk = true := by
            rw [hlow] at hedge
            exact Bool.eq_true_of_not_eq_false (Ne.symm hedge)
          exact .inr (.inr ⟨hhigh, hlow, hphase', (Option.some.inj h).symm⟩)

theorem next_length (h : p.next s = some p') : p.bits.length ≤ p'.bits.length := by
  obtain ⟨-, ⟨-, rfl⟩ | ⟨-, -, -, rfl⟩ | ⟨-, -, -, rfl⟩⟩ := next_cases h
  · exact Nat.le_refl _
  · exact Nat.le_refl _
  · rw [List.length_append]
    exact Nat.le_add_right _ _

/-- The first sample of those that make `p'` of `p`. -/
theorem run_cons {ss : List Sample} (h : (s :: ss).foldlM next p = some p') :
    ∃ q, p.next s = some q ∧ ss.foldlM next q = some p' := by
  rw [List.foldlM_cons] at h
  exact Option.bind_eq_some_iff.mp h

theorem run_length {ss : List Sample} (h : ss.foldlM next p = some p') :
    p.bits.length ≤ p'.bits.length := by
  induction ss generalizing p with
  | nil => rw [Option.some.inj h]
  | cons s ss ih =>
    obtain ⟨q, hq, h⟩ := run_cons h
    exact (next_length hq).trans (ih h)

end Train

namespace Framer

variable {f f₁ f₂ g : Framer} {s : Sample} {ss : List Sample} {fs fs₁ fs₂ : List Ps2Frame}
  {t start last edge : Nat} {clk data : Bool} {bits : List Bool} {widths : List Nat}

theorem feed_cons (f : Framer) (s : Sample) (ss : List Sample) : f.feed (s :: ss) =
    (((f.ingestSample s).1.feed ss).1,
      (f.ingestSample s).2.toList ++ ((f.ingestSample s).1.feed ss).2) := rfl

theorem feed_append (f : Framer) (s₁ s₂ : List Sample) : f.feed (s₁ ++ s₂) =
    (((f.feed s₁).1.feed s₂).1, (f.feed s₁).2 ++ ((f.feed s₁).1.feed s₂).2) := by
  induction s₁ generalizing f with
  | nil => rfl
  | cons s s₁ ih => rw [List.cons_append, feed_cons, ih, feed_cons, List.append_assoc]

theorem feed_trans {s₁ s₂ : List Sample} (h₁ : f.feed s₁ = (f₁, fs₁))
    (h₂ : f₁.feed s₂ = (f₂, fs₂)) : f.feed (s₁ ++ s₂) = (f₂, fs₁ ++ fs₂) := by
  rw [feed_append, h₁, h₂]

/-- A frame shows the bits and the periods held, and no glitches. -/
theorem InFrame.frame (h : InFrame f start last edge clk bits widths) :
    (f.buildFrame bits.length).timeless = frameOf bits widths := by
  have hasm : f.assembled = (BitVec.ofBoolListLE bits).setWidth 16 := by
    refine BitVec.eq_of_getLsbD_eq fun i hi => ?_
    rw [h.assembled, BitVec.getLsbD_setWidth, BitVec.getLsbD_ofBoolListLE, decide_eq_true hi,
      Bool.true_and]
  unfold frameOf buildFrame
  split
  · simp only [Ps2Frame.timeless, Framer.timing, Framer.dataBits, hasm, h.periods, h.glitches]
    rfl
  · simp only [Ps2Frame.timeless, Framer.timing, Framer.dataBits, hasm, h.periods, h.glitches]
    rfl

/-- The framer, and what it has emitted, after the samples of a frame that
begins at `t`. -/
def Tracks (t : Nat) (p : Train) (x : Framer × List Ps2Frame) : Prop :=
  if p.bits.length < AT_BIT_COUNT then
    x.2 = [] ∧ p.fall ≤ p.edge ∧ x.1.InFrame t (t + p.fall) (t + p.edge) p.clk p.bits p.widths
  else x.2.map Ps2Frame.timeless = [frameOf p.bits p.widths] ∧ x.1.Listening p.clk (t + p.edge)

theorem ingestSample_shift (f : Framer) (s : Sample) (t : Nat) :
    f.ingestSample (s.shift t) = f.ingest s.clk s.data (t + s.tUs) := rfl

theorem Tracks.sample {p p' : Train} (h : Tracks t p (f, fs)) (hn : p.next s = some p')
    (hlen : p'.bits.length ≤ AT_BIT_COUNT) :
    Tracks t p' ((f.ingestSample (s.shift t)).1, fs ++ (f.ingestSample (s.shift t)).2.toList) := by
  obtain ⟨hsoon, hcases⟩ := Train.next_cases hn
  unfold Tracks at h ⊢
  rw [ingestSample_shift]
  by_cases hshort : p.bits.length < AT_BIT_COUNT
  · rw [if_pos hshort] at h
    obtain ⟨rfl, horder, hf⟩ := h
    have hlt : t + s.tUs < t + p.fall + IDLE_TIMEOUT_US := by
      have := hsoon hshort
      omega
    obtain ⟨hsame, rfl⟩ | ⟨hlow, hclk, hphase, rfl⟩ | ⟨hhigh, hclk, hphase, rfl⟩ := hcases
    · obtain ⟨f', e, hf'⟩ := hf.hold hlt s.data
      rw [if_pos hshort, hsame, e]
      exact ⟨rfl, horder, hf'⟩
    · rw [hlow] at hf
      obtain ⟨f', e, hf'⟩ := hf.rise (Nat.add_le_add_left horder t) (by omega) hlt s.data
      rw [if_pos hshort, hclk, e]
      exact ⟨rfl, by dsimp only; omega, hf'⟩
    · rw [hhigh] at hf
      obtain ⟨g, hg, e⟩ :=
        hf.fall (Nat.add_le_add_left horder t) (by omega) hlt (Nat.le_of_lt_succ hshort) s.data
      rw [show t + s.tUs - (t + p.fall) = s.tUs - p.fall by omega] at hg
      have hlen' : (p.bits ++ [s.data]).length = p.bits.length + 1 := by
        rw [List.length_append, List.length_singleton]
      rw [hclk, e]
      dsimp only at hlen ⊢
      rw [hlen'] at hlen ⊢
      by_cases hdone : AT_BIT_COUNT ≤ p.bits.length + 1
      · rw [if_pos hdone, if_neg (Nat.not_lt.mpr hdone)]
        have hframe := hg.frame
        rw [hlen', Nat.le_antisymm hlen hdone] at hframe
        exact ⟨congrArg (fun x => [x]) hframe, rfl, hg.clk, hg.edge⟩
      · rw [if_neg hdone, if_pos (Nat.not_le.mp hdone)]
        exact ⟨rfl, Nat.le_refl _, hg⟩
  · rw [if_neg hshort] at h
    obtain ⟨hfs, hf⟩ := h
    obtain ⟨hsame, rfl⟩ | ⟨hlow, hclk, hphase, rfl⟩ | ⟨hhigh, hclk, hphase, rfl⟩ := hcases
    · obtain ⟨f', e, hf'⟩ := hf.hold s.data (t + s.tUs)
      rw [if_neg hshort, hsame, e]
      exact ⟨by rw [Option.toList_none, List.append_nil]; exact hfs, hf'⟩
    · rw [hlow] at hf
      obtain ⟨f', e, hf'⟩ := hf.rise s.data (t + s.tUs)
      rw [if_neg hshort, hclk, e]
      exact ⟨by rw [Option.toList_none, List.append_nil]; exact hfs, hf'⟩
    · rw [List.length_append, List.length_singleton] at hlen
      exact absurd hlen (by omega)

theorem Tracks.run {p p' : Train} (h : Tracks t p (f, fs)) (hrun : ss.foldlM Train.next p = some p')
    (hlen : p'.bits.length ≤ AT_BIT_COUNT) :
    Tracks t p' ((f.feed (ss.map (.shift t))).1, fs ++ (f.feed (ss.map (.shift t))).2) := by
  induction ss generalizing f fs p with
  | nil =>
    obtain rfl := Option.some.inj hrun
    rw [List.map_nil, feed, List.append_nil]
    exact h
  | cons s ss ih =>
    obtain ⟨q, hq, hrun⟩ := Train.run_cons hrun
    have hstep := h.sample hq ((Train.run_length hrun).trans hlen)
    rw [List.map_cons, feed_cons, ← List.append_assoc]
    exact ih hstep hrun

/-- The samples of a frame whose first falling edge is taken for a bit. -/
theorem Listening.burst (h : Listening f true edge)
    (hd : GLITCH_THRESHOLD_US ≤ (t - edge) % 2 ^ 32) (b : Burst) :
    Tracks t b.last (f.feed (b.wire t)) := by
  obtain ⟨f₁, e₁, h₁⟩ := h.fall hd b.start
  have hlen : b.last.bits.length ≤ AT_BIT_COUNT := by
    rw [b.whole.1]
    exact (length_bits_le b.sent).2
  have hfirst : Tracks t (.first b.start) (f₁, []) := ⟨rfl, Nat.le_refl 0, h₁⟩
  have hrun := hfirst.run b.runs hlen
  rw [Burst.wire, feed_cons, show f.ingestSample ⟨false, b.start, t⟩ = (f₁, none) from e₁]
  exact hrun

/-! ## Idle time -/

theorem Listening.levels (hs : List (Nat × Bool)) (h : Listening f clk edge) :
    ∃ f', f.feed (hs.map (.level clk t)) = (f', []) ∧ Listening f' clk edge := by
  induction hs generalizing f with
  | nil => exact ⟨f, rfl, h⟩
  | cons s hs ih =>
    obtain ⟨f₁, e₁, h₁⟩ := h.hold s.2 (t + s.1)
    obtain ⟨f₂, e₂, h₂⟩ := ih h₁
    refine ⟨f₂, ?_, h₂⟩
    rw [List.map_cons, feed_cons, show f.ingestSample (.level clk t s) = (f₁, none) from e₁, e₂]
    rfl

/-- No sample late enough: the frame waits on. -/
theorem InFrame.levels_wait (hs : List (Nat × Bool)) (h : InFrame f start last edge clk bits widths)
    (hsoon : ∀ s ∈ hs, (t + s.1 - last) % 2 ^ 32 < IDLE_TIMEOUT_US) :
    ∃ f', f.feed (hs.map (.level clk t)) = (f', []) ∧
      InFrame f' start last edge clk bits widths := by
  induction hs generalizing f with
  | nil => exact ⟨f, rfl, h⟩
  | cons s hs ih =>
    obtain ⟨f₁, e₁, h₁⟩ := h.still (hsoon s List.mem_cons_self) s.2
    obtain ⟨f₂, e₂, h₂⟩ := ih h₁ fun s' h' => hsoon s' (List.mem_cons_of_mem _ h')
    refine ⟨f₂, ?_, h₂⟩
    rw [List.map_cons, feed_cons, show f.ingestSample (.level clk t s) = (f₁, none) from e₁, e₂]
    rfl

/-- The first sample that is late enough ends the frame. -/
theorem InFrame.levels_late (hs : List (Nat × Bool)) (h : InFrame f start last edge clk bits widths)
    (hlate : ∃ s ∈ hs, IDLE_TIMEOUT_US ≤ (t + s.1 - last) % 2 ^ 32) :
    ∃ f' g, f.feed (hs.map (.level clk t)) = (f', (g.emitOnTimeout bits.length).toList) ∧
      Listening f' clk edge ∧ InFrame g start last edge clk bits widths := by
  induction hs generalizing f with
  | nil =>
    obtain ⟨s, hs, -⟩ := hlate
    cases hs
  | cons s hs ih =>
    by_cases hs' : IDLE_TIMEOUT_US ≤ (t + s.1 - last) % 2 ^ 32
    · obtain ⟨f₁, e₁, h₁⟩ := h.late hs' clk s.2
      obtain ⟨f₂, e₂, h₂⟩ := h₁.levels (t := t) hs
      refine ⟨f₂, f, ?_, h₂, h⟩
      rw [List.map_cons, feed_cons, show f.ingestSample (.level clk t s) = (f₁, _) from e₁, e₂,
        List.append_nil]
    · obtain ⟨f₁, e₁, h₁⟩ := h.still (Nat.not_le.mp hs') s.2
      have hrest : ∃ s ∈ hs, IDLE_TIMEOUT_US ≤ (t + s.1 - last) % 2 ^ 32 := by
        obtain ⟨s', hmem, hl⟩ := hlate
        obtain rfl | hmem := List.mem_cons.mp hmem
        · exact absurd hl hs'
        · exact ⟨s', hmem, hl⟩
      obtain ⟨f₂, g, e₂, h₂, hg⟩ := ih h₁ hrest
      refine ⟨f₂, g, ?_, h₂, hg⟩
      rw [List.map_cons, feed_cons, show f.ingestSample (.level clk t s) = (f₁, none) from e₁, e₂]
      rfl

/-- The rising edge after the last bit, and idle time. -/
theorem Listening.rises (hs : List (Nat × Bool)) (h : Listening f false edge) (r : Nat × Bool) :
    ∃ f', f.feed (.level true t r :: hs.map (.level true t)) = (f', []) ∧
      Listening f' true (t + r.1) := by
  obtain ⟨f₁, e₁, h₁⟩ := h.rise r.2 (t + r.1)
  obtain ⟨f₂, e₂, h₂⟩ := h₁.levels (t := t) hs
  refine ⟨f₂, ?_, h₂⟩
  rw [feed_cons, show f.ingestSample (.level true t r) = (f₁, none) from e₁, e₂]
  rfl

/-- A rising edge within a frame, as 32 bits count. -/
theorem InFrame.rise_seen (h : InFrame f start last edge false bits widths)
    (hd : GLITCH_THRESHOLD_US ≤ (t - edge) % 2 ^ 32) (hsoon : (t - last) % 2 ^ 32 < IDLE_TIMEOUT_US)
    (data : Bool) :
    ∃ f', f.ingest true data t = (f', none) ∧ InFrame f' start last t true bits widths := by
  obtain ⟨d, l, e⟩ := onSample_rise h.clk (h.edge ▸ hd) data
  exact ⟨_, (h.waits hsoon _ _).trans e, h.state, rfl, rfl, h.start, h.last, h.assembled, h.periods,
    h.count, h.glitches⟩

/-- A frame with CLK high and a glitch counted. -/
structure Marred (f : Framer) (n last : Nat) : Prop where
  state : f.state = .receiving n
  clk : f.lastClk = some true
  last : f.lastFallingUs = last
  glitches : f.glitchCount ≠ 0

theorem InFrame.rise_glitch (h : InFrame f start last edge false bits widths)
    (hd : (t - edge) % 2 ^ 32 < GLITCH_THRESHOLD_US) (hsoon : (t - last) % 2 ^ 32 < IDLE_TIMEOUT_US)
    (data : Bool) :
    ∃ f', f.ingest true data t = (f', none) ∧ Marred f' bits.length last := by
  obtain ⟨d, l, e⟩ := f.noteData_eq data t
  rw [h.waits hsoon]
  simp only [onSample, e, h.clk, h.edge, h.state, hd, Bool.false_eq_true, ↓reduceIte]
  refine ⟨_, rfl, rfl, rfl, h.last, ?_⟩
  show min 255 (f.glitchCount + 1) ≠ 0
  omega

/-- It shows the glitch if it times out. -/
theorem Marred.levels {n : Nat} (hs : List (Nat × Bool)) (h : Marred f n last)
    (hn : 0 < n ∧ n < AT_BIT_COUNT) :
      ∃ f' fs, f.feed (hs.map (.level true t)) = (f', fs) ∧ (fs = [] ∧ f'.state = .receiving n ∨
      ∃ frame fs', fs = frame :: fs' ∧ frame.timing.glitchCount ≠ 0) := by
  induction hs generalizing f with
  | nil => exact ⟨f, [], rfl, .inl ⟨rfl, h.state⟩⟩
  | cons s hs ih =>
    rw [List.map_cons, feed_cons]
    by_cases hlate : IDLE_TIMEOUT_US ≤ (t + s.1 - last) % 2 ^ 32
    · obtain ⟨frame, hframe⟩ :=
  Option.isSome_iff_exists.mp (emitOnTimeout_isSome (f := f) hn.1 hn.2)
      have he : (f.ingestSample (.level true t s)).2 = some frame := by
        simp only [ingestSample, Sample.level, ingest, h.state, h.last, if_pos hlate, hframe]
      refine ⟨_, _, rfl, .inr ⟨frame, _, by rw [he]; rfl, ?_⟩⟩
      rw [(emitOnTimeout_noted hframe).2]
      exact h.glitches
    · obtain ⟨d, l, e⟩ := onSample_hold h.clk s.2 (t + s.1)
      have he : f.ingestSample (.level true t s) =
          ({ f with lastDataChangeUs := d, lastData := l }, none) := by
        rw [← e]
        simp only [ingestSample, Sample.level, ingest, h.state, h.last, if_neg hlate]
      obtain ⟨f', fs, e', hfs⟩ := ih (f := { f with lastDataChangeUs := d, lastData := l })
        ⟨h.state, h.clk, h.last, h.glitches⟩
      rw [he, e']
      exact ⟨f', fs, rfl, hfs⟩

/-- A sample of the stream, from the last falling edge of its frame. -/
theorem late_iff (b : Burst) (t : Nat) (s : Nat × Bool) :
    IDLE_TIMEOUT_US ≤ (t + s.1 - (t + b.last.fall)) % 2 ^ 32 ↔ b.Late s := by
  rw [Nat.add_sub_add_left, Burst.Late]

section

variable {x : Spell} (h : InFrame f start
  (t + x.burst.last.fall) (t + x.burst.last.fall) false bits widths)

include h

/-- What follows the last bit of a frame that waits for its timeout. -/
theorem InFrame.closes (hx : x.burst.sent.isXt) (hc : x.burst.Clean) (ht : x.TimesOut) :
    ∃ f' g e c, f.feed (x.rest t) = (f', (g.emitOnTimeout bits.length).toList) ∧
      Listening f' true (t + x.burst.noted) ∧
      InFrame g start (t + x.burst.last.fall) e c bits widths := by
  have hlate := late_iff x.burst t
  by_cases hover : x.burst.Over
  · -- before the rising edge
    obtain ⟨s, hs, hl⟩ := hover
    obtain ⟨f₁, g, e₁, h₁, hg⟩ := h.levels_late (t := t) x.burst.low ⟨s, hs, (hlate s).mpr hl⟩
    obtain ⟨f₂, e₂, h₂⟩ := h₁.rises (t := t) x.high x.burst.rise
    have hnoted : x.burst.noted = x.burst.rise.1 := if_neg fun hn => hn.2.1 ⟨s, hs, hl⟩
    rw [← hnoted] at h₂
    exact ⟨f₂, g, _, _, (feed_trans e₁ e₂).trans (by rw [List.append_nil]), h₂, hg⟩
  obtain ⟨f₁, e₁, h₁⟩ := h.levels_wait (t := t) x.burst.low fun s hs =>
    Nat.not_le.mp fun hl => hover ⟨s, hs, (hlate s).mp hl⟩
  by_cases hrise : x.burst.Late x.burst.rise
  · -- with the rising edge, which is not noted
    obtain ⟨f₂, e₂, h₂⟩ := h₁.late ((hlate _).mpr hrise) true x.burst.rise.2
    obtain ⟨f₃, e₃, h₃⟩ := h₂.levels (t := t) x.high
    have hnoted : x.burst.noted = x.burst.last.fall := if_pos ⟨hx, hover, hrise⟩
    rw [← hnoted] at h₃
    refine ⟨f₃, f₁, _, _, ?_, h₃, h₁⟩
    rw [Spell.rest, feed_append, e₁, feed_cons,
      show f₁.ingestSample (.level true t x.burst.rise) = (f₂, _) from e₂, e₃,
      List.nil_append, List.append_nil]
  · -- after it
    have hd : GLITCH_THRESHOLD_US ≤ (t + x.burst.rise.1 - (t + x.burst.last.fall)) % 2 ^ 32 := by
      rw [Nat.add_sub_add_left]
      exact (hc hx).resolve_left hover
    obtain ⟨f₂, e₂, h₂⟩ := h₁.rise_seen hd (Nat.not_le.mp (mt (hlate _).mp hrise)) x.burst.rise.2
    have hhigh : ∃ s ∈ x.high, IDLE_TIMEOUT_US ≤ (t + s.1 - (t + x.burst.last.fall)) % 2 ^ 32 := by
      obtain ⟨s, hs, hl⟩ := ht hx
      rcases List.mem_append.mp hs with hs | hs
      · exact absurd ⟨s, hs, hl⟩ hover
      rcases List.mem_cons.mp hs with rfl | hs
      · exact absurd hl hrise
      · exact ⟨s, hs, (hlate s).mpr hl⟩
    obtain ⟨f₃, g, e₃, h₃, hg⟩ := h₂.levels_late (t := t) x.high hhigh
    have hnoted : x.burst.noted = x.burst.rise.1 := if_neg fun hn => hrise hn.2.2
    rw [← hnoted] at h₃
    refine ⟨f₃, g, _, _, ?_, h₃, hg⟩
    rw [Spell.rest, feed_append, e₁, feed_cons,
      show f₁.ingestSample (.level true t x.burst.rise) = (f₂, none) from e₂, e₃]
    rfl

/-- Where its timeout is not seen, or its rising edge is a glitch in it. -/
theorem InFrame.lost (hn : 0 < bits.length ∧ bits.length < AT_BIT_COUNT)
    (hlost : ¬ (x.burst.Clean ∧ x.TimesOut)) :
    ∃ f' fs, f.feed (x.rest t) = (f', fs) ∧ (fs = [] ∧ f'.state = .receiving bits.length ∨
      ∃ frame fs', fs = frame :: fs' ∧ frame.timing.glitchCount ≠ 0) := by
  have hlate := late_iff x.burst t
  have hover : ¬ x.burst.Over := fun ⟨s, hs, hl⟩ =>
    hlost ⟨fun _ => .inl ⟨s, hs, hl⟩, fun _ => ⟨s, List.mem_append_left _ hs, hl⟩⟩
  have hrise : ¬ x.burst.Late x.burst.rise := fun hl =>
    hlost ⟨fun _ => .inr (Nat.le_trans (by decide) hl),
      fun _ => ⟨_, List.mem_append_right _ List.mem_cons_self, hl⟩⟩
  have hsoon := Nat.not_le.mp (mt (hlate _).mp hrise)
  obtain ⟨f₁, e₁, h₁⟩ := h.levels_wait (t := t) x.burst.low fun s hs =>
    Nat.not_le.mp fun hl => hover ⟨s, hs, (hlate s).mp hl⟩
  by_cases hd : GLITCH_THRESHOLD_US ≤ (t + x.burst.rise.1 - (t + x.burst.last.fall)) % 2 ^ 32
  · obtain ⟨f₂, e₂, h₂⟩ := h₁.rise_seen hd hsoon x.burst.rise.2
    have hclean : x.burst.Clean := fun _ => .inr (by rwa [Nat.add_sub_add_left] at hd)
    obtain ⟨f₃, e₃, h₃⟩ := h₂.levels_wait (t := t) x.high fun s hs => Nat.not_le.mp fun hl =>
      hlost
        ⟨hclean, fun _ => ⟨s, List.mem_append_right _ (List.mem_cons_of_mem _ hs), (hlate s).mp hl⟩⟩
    refine ⟨f₃, [], ?_, .inl ⟨rfl, h₃.state⟩⟩
    rw [Spell.rest, feed_append, e₁, feed_cons,
      show f₁.ingestSample (.level true t x.burst.rise) = (f₂, none) from e₂, e₃]
    rfl
  · obtain ⟨f₂, e₂, h₂⟩ := h₁.rise_glitch (Nat.not_le.mp hd) hsoon x.burst.rise.2
    obtain ⟨f₃, fs, e₃, hfs⟩ := h₂.levels (t := t) x.high hn
    refine ⟨f₃, fs, ?_, hfs⟩
    rw [Spell.rest, feed_append, e₁, feed_cons,
      show f₁.ingestSample (.level true t x.burst.rise) = (f₂, none) from e₂, e₃]
    rfl

end

/-- The last sample of a frame is its falling edge. -/
theorem run_edge {p p' : Train} (hrun : ss.foldlM Train.next p = some p')
    (hp : p.clk = false → p.edge = p.fall) : p'.clk = false → p'.edge = p'.fall := by
  induction ss generalizing p with
  | nil =>
    obtain rfl := Option.some.inj hrun
    exact hp
  | cons s ss ih =>
    obtain ⟨q, hq, hrun⟩ := Train.run_cons hrun
    refine ih hrun ?_
    obtain ⟨-, ⟨-, rfl⟩ | ⟨-, -, -, rfl⟩ | ⟨-, -, -, rfl⟩⟩ := Train.next_cases hq
    · exact hp
    · exact fun hclk => by cases hclk
    · exact fun _ => rfl

theorem isXt_iff (sent : Sent) : sent.isXt = true ↔ sent.bits.length = XT_BIT_COUNT := by
  cases sent with
  | at_ start data parity stop => exact iff_of_false Bool.false_ne_true (show ¬ 11 = 9 by decide)
  | xt data => exact iff_of_true rfl rfl

/-- A frame whose start is seen. -/
theorem Listening.wire (h : Listening f true edge)
    (hd : GLITCH_THRESHOLD_US ≤ (t - edge) % 2 ^ 32) (b : Burst) :
    ∃ f' fs, f.feed (b.wire t) = (f', fs) ∧
      (b.sent.isXt = false ∧ fs.map Ps2Frame.timeless = [b.frame] ∧
        Listening f' false (t + b.last.fall) ∨
      b.sent.isXt = true ∧ fs = [] ∧ b.sent.bits.getD 0 false = true ∧
        InFrame f' t (t + b.last.fall) (t + b.last.fall) false b.sent.bits b.last.widths) := by
  have hb := h.burst hd b
  obtain ⟨hbits, hclk⟩ := b.whole
  have hedge : b.last.edge = b.last.fall := run_edge b.runs (fun _ => rfl) hclk
  refine ⟨_, _, rfl, ?_⟩
  rw [Tracks, hbits, hclk, hedge] at hb
  obtain ⟨h11, _, _, _, _, hsent⟩ | ⟨h9, h1, data, hsent⟩ := bits_cases b.sent
  · rw [h11, if_neg (by decide)] at hb
    exact .inl ⟨by rw [hsent]; rfl, by rw [Burst.frame, hbits]; exact hb.1, hb.2⟩
  · rw [h9, if_pos (by decide)] at hb
    exact .inr ⟨by rw [hsent]; rfl, hb.1, h1, hb.2.2⟩

/-- A frame whose start is seen, and whose end is. -/
theorem Listening.spell {x : Spell} (h : Listening f true edge)
    (hd : GLITCH_THRESHOLD_US ≤ (t - edge) % 2 ^ 32)
    (hc : x.burst.Clean) (ht : x.TimesOut) : ∃ f' fs, f.feed (x.wire t) = (f', fs) ∧
      fs.map Ps2Frame.timeless = [x.burst.frame] ∧ Listening f' true (t + x.burst.noted) := by
  obtain ⟨f₁, fs, e₁, ⟨hat, hfs, h₁⟩ | ⟨hxt, rfl, h1, h₁⟩⟩ := h.wire hd x.burst
  · obtain ⟨f₂, e₂, h₂⟩ := h₁.levels (t := t) x.burst.low
    obtain ⟨f₃, e₃, h₃⟩ := h₂.rises (t := t) x.high x.burst.rise
    have hnoted : x.burst.noted = x.burst.rise.1 :=
      if_neg fun hn => by rw [hat] at hn; exact Bool.false_ne_true hn.1
    rw [← hnoted] at h₃
    exact ⟨f₃, _,
      feed_trans e₁ (feed_trans e₂ e₃), by rw [List.append_nil, List.append_nil, hfs], h₃⟩
  · obtain ⟨f₂, g, e, c, e₂, h₂, hg⟩ := h₁.closes hxt hc ht
    have hframe := hg.frame
    rw [(isXt_iff _).mp hxt] at e₂ hframe
    rw [hg.emitOnTimeout_xt h1] at e₂
    refine ⟨f₂, _, feed_trans e₁ e₂, ?_, h₂⟩
    rw [List.nil_append, Burst.frame, x.burst.whole.1]
    exact congrArg (fun x => [x]) hframe

/-- An XT frame whose end is not seen as it should be. -/
theorem Listening.spell_lost {x : Spell} (h : Listening f true edge)
    (hd : GLITCH_THRESHOLD_US ≤ (t - edge) % 2 ^ 32)
    (hlost : ¬ (x.burst.Clean ∧ x.TimesOut)) :
      ∃ f' fs, f.feed (x.wire t) = (f', fs) ∧ x.burst.frame.kind = .xt ∧
      (fs = [] ∧ f'.state = .receiving XT_BIT_COUNT ∨ ∃ frame fs', fs = frame :: fs' ∧
        frame.timing.glitchCount ≠ 0) := by
  obtain ⟨f₁, fs, e₁, ⟨hat, -, -⟩ | ⟨hxt, rfl, -, h₁⟩⟩ := h.wire hd x.burst
  · exact absurd ⟨fun hx => absurd hx (by rw [hat]; decide),
      fun hx => absurd hx (by rw [hat]; decide)⟩ hlost
  · have h9 := (isXt_iff _).mp hxt
    obtain ⟨f₂, fs, e₂, hfs⟩ := h₁.lost (by rw [h9]; decide) hlost
    rw [h9] at hfs
    refine ⟨f₂, fs, feed_trans e₁ e₂, ?_, hfs⟩
    rw [x.burst.frame_kind]
    cases hs : x.burst.sent with
    | at_ start data parity stop =>
      rw [hs] at hxt
      cases hxt
    | xt data => rfl

/-! ## Bits that are lost -/

/-- The bits of the frame being received. -/
def pending (f : Framer) : Nat :=
  match f.state with
  | .idle => 0
  | .receiving bits => bits

/-- The falling edges of CLK, after a sample of it. -/
def falls (clk : Bool) : List Sample → Nat
  | [] => 0
  | s :: ss => (if clk = true ∧ s.clk = false then 1 else 0) + falls s.clk ss

def bitSum (fs : List Ps2Frame) : Nat := (fs.map Ps2Frame.bitCount).sum

theorem bitSum_append (fs₁ fs₂ : List Ps2Frame) :
    bitSum (fs₁ ++ fs₂) = bitSum fs₁ + bitSum fs₂ := by
  rw [bitSum, List.map_append, List.sum_append]
  rfl

theorem bitSum_emitOnTimeout (f : Framer) (n : Nat) : bitSum (f.emitOnTimeout n).toList ≤ n := by
  unfold emitOnTimeout
  split
  · exact Nat.zero_le _
  · split
    next hx =>
      rw [hx.1]
      exact Nat.le_refl _
    next =>
      split
      · exact Nat.zero_le _
      · exact Nat.zero_le _

theorem bitSum_onClkFall (f : Framer) (data : Bool) (t : Nat) :
    bitSum (f.onClkFall data t).2.toList + (f.onClkFall data t).1.pending ≤ f.pending + 1 := by
  cases hs : f.state with
  | idle =>
    simp only [onClkFall, pending, hs]
    exact Nat.le_refl _
  | receiving bits =>
    simp only [onClkFall, pending, hs]
    split
    next h11 => exact h11
    next => exact Nat.le_of_eq (Nat.zero_add _)

/-- A frame has no more bits than the falling edges taken for one. -/
theorem bitSum_sample (f : Framer) (s : Sample) :
    bitSum (f.ingestSample s).2.toList + (f.ingestSample s).1.pending ≤
    f.pending + if f.Falls s then 1 else 0 := by
  have hi := f.ingested s
  generalize f.ingestSample s = r at hi ⊢
  cases hi with
  | timeout late state =>
    have hsum := f.bitSum_emitOnTimeout
    rw [if_neg fun hfall => hfall.1 late, pending, pending, state]
    exact hsum _
  | fall change falls =>
    rw [if_pos falls]
    exact bitSum_onClkFall _ s.data s.tUs
  | rest change waits stays edge_eq =>
    rw [if_neg stays, Nat.add_zero]
    exact Nat.le_of_eq (Nat.zero_add _)

theorem bitSum_feed (ss : List Sample) {f : Framer} (h : f.lastClk = some clk) :
    bitSum (f.feed ss).2 ≤ f.pending + falls clk ss := by
  induction ss generalizing f clk with
  | nil => exact Nat.zero_le _
  | cons s ss ih =>
    have hstep := f.bitSum_sample s
    have hrest := ih (f.ingest_lastClk s.clk s.data s.tUs)
    have hfalls : (if f.Falls s then 1 else 0) ≤ if clk = true ∧ s.clk = false then 1 else 0 := by
      split
      next hf =>
        rw [if_pos ⟨Option.some.inj (h.symm.trans hf.2.1), hf.2.2.1⟩]
      next => exact Nat.zero_le _
    rw [feed_cons, bitSum_append, falls]
    rw [← ingestSample] at hrest
    omega

/-- A falling edge that is not taken for a bit leaves too few for the frames. -/
theorem bitSum_lt (f : Framer) (hs : s.clk = false) (hlost : ¬ f.Falls s) (ss : List Sample) :
    bitSum (f.feed (s :: ss)).2 < f.pending + falls true (s :: ss) := by
  have hstep := f.bitSum_sample s
  have hrest := bitSum_feed ss (f.ingest_lastClk s.clk s.data s.tUs)
  rw [if_neg hlost] at hstep
  rw [← ingestSample] at hrest
  rw [feed_cons, bitSum_append, falls, if_pos ⟨rfl, hs⟩]
  omega

/-- The falling edges of a frame's samples are its bits. -/
theorem falls_run {p p' : Train} (hrun : ss.foldlM Train.next p = some p') (rest : List Sample) :
    p.bits.length + falls p.clk (ss.map (.shift t) ++ rest) = p'.bits.length +
      falls p'.clk rest := by
  induction ss generalizing p with
  | nil =>
    obtain rfl := Option.some.inj hrun
    rfl
  | cons s ss ih =>
    obtain ⟨q, hq, hrun⟩ := Train.run_cons hrun
    have hclk : (s.shift t).clk = s.clk := rfl
    rw [← ih hrun, List.map_cons, List.cons_append, falls, hclk]
    obtain ⟨-, ⟨hsame, rfl⟩ | ⟨hlow, hclk, -, rfl⟩ | ⟨hhigh, hclk, -, rfl⟩⟩ := Train.next_cases hq
    · rw [hsame, if_neg fun h => Bool.false_ne_true (h.2.symm.trans h.1), Nat.zero_add]
    · rw [hlow, hclk, if_neg fun h => Bool.false_ne_true h.1, Nat.zero_add]
    · rw [hhigh, hclk, if_pos ⟨rfl, rfl⟩, List.length_append, List.length_singleton, Nat.add_assoc]

theorem falls_levels (hs : List (Nat × Bool)) (rest : List Sample) :
    falls clk (hs.map (.level clk t) ++ rest) = falls clk rest := by
  induction hs with
  | nil => rfl
  | cons s hs ih =>
    have hlevel : (Sample.level clk t s).clk = clk := rfl
    rw [List.map_cons, List.cons_append, falls, hlevel,
      if_neg fun h => Bool.false_ne_true (h.2.symm.trans h.1), Nat.zero_add]
    exact ih

/-- None comes after the last bit. -/
theorem falls_rest (x : Spell) (t : Nat) (rest : List Sample) :
    falls false (x.rest t ++ rest) = falls true rest := by
  rw [Spell.rest, List.append_assoc, falls_levels, List.cons_append, falls,
    if_neg fun h => Bool.false_ne_true h.1, Nat.zero_add]
  exact falls_levels _ _

theorem falls_wires (t : Nat) (xs : List Spell) :
    falls true (wires t xs) = bitSum (xs.map fun x => x.burst.frame) := by
  induction xs generalizing t with
  | nil => rfl
  | cons x xs ih =>
    have hrun := falls_run (t := t) x.burst.runs (x.rest t ++ wires (t + x.duration) xs)
    have hone : (Train.first x.burst.start).bits.length = 1 := rfl
    rw [x.burst.whole.1, x.burst.whole.2, falls_rest, ih, hone] at hrun
    rw [wires, Spell.wire, Burst.wire, List.append_assoc, List.cons_append, falls,
      if_pos ⟨rfl, rfl⟩]
    rw [List.map_cons, bitSum, List.map_cons, List.sum_cons, x.burst.frame_bitCount]
    exact hrun

theorem bitSum_timeless (fs : List Ps2Frame) : bitSum (fs.map Ps2Frame.timeless) = bitSum fs := by
  rw [bitSum, List.map_map]
  rfl

/-! ## Frames that are lost -/

/-- Ten bits are held as the samples of another frame go on. -/
structure Tenth (f : Framer) (t : Nat) (p : Train) : Prop where
  state : f.state = .receiving 10
  clk : f.lastClk = some p.clk
  edge : f.lastEdgeUs = t + p.edge
  last : f.lastFallingUs = t + p.fall
  order : p.fall ≤ p.edge

theorem Tenth.soon {p p' : Train} (h : Tenth f t p) (hn : p.next s = some p')
    (hp : p.bits.length < AT_BIT_COUNT) : ¬ f.TimesOut (t + s.tUs) := fun hlate => by
  have hlt : t + s.tUs < t + p.fall + IDLE_TIMEOUT_US := by
    have := (Train.next_cases hn).1 hp
    omega
  have hmod := soon_of_lt hlt
  rw [← h.last] at hmod
  exact absurd hlate.2 (Nat.not_le.mpr hmod)

/-- A sample with no falling edge. -/
theorem Tenth.sample {p p' : Train} (h : Tenth f t p) (hn : p.next s = some p')
    (hp : p.bits.length < AT_BIT_COUNT) (hrest : ¬ (p.clk = true ∧ s.clk = false)) :
    ∃ f', f.ingestSample (s.shift t) = (f', none) ∧ Tenth f' t p' ∧ p'.bits = p.bits := by
  have hwait := h.soon hn hp
  have hi := f.ingested (s.shift t)
  generalize f.ingestSample (s.shift t) = r at hi ⊢
  cases hi with
  | timeout late _ => exact absurd late hwait
  | fall _ falls => exact absurd ⟨Option.some.inj (h.clk.symm.trans falls.2.1), falls.2.2.1⟩ hrest
  | rest _ _ _ edge_eq =>
    have hclk : (s.shift t).clk = s.clk := rfl
    rw [h.clk, hclk] at edge_eq
    obtain ⟨-, ⟨hsame, rfl⟩ | ⟨hlow, hclk, hphase, rfl⟩ | ⟨hhigh, hclk, -, -⟩⟩ :=
      Train.next_cases hn
    · have hne : some p'.clk ≠ some !s.clk := by
        rw [hsame]
        cases p'.clk <;> decide
      exact ⟨_, rfl, ⟨h.state, congrArg some hsame, edge_eq.trans ((if_neg hne).trans h.edge),
        h.last, h.order⟩, rfl⟩
    · rw [hlow, hclk, if_pos (show some false = some !true from rfl)] at edge_eq
      have horder := h.order
      exact ⟨_, rfl, ⟨h.state, congrArg some hclk, edge_eq, h.last, by dsimp only; omega⟩, rfl⟩
    · exact absurd ⟨hhigh, hclk⟩ hrest

/-- The next falling edge gives an AT frame. -/
theorem Tenth.fall {p p' : Train} (h : Tenth f t p) (hn : p.next s = some p')
    (hp : p.bits.length < AT_BIT_COUNT) (hfall : p.clk = true ∧ s.clk = false) :
    ∃ frame, (f.ingestSample (s.shift t)).2 = some frame ∧ frame.kind = .at_ := by
  have hwait := h.soon hn hp
  have horder := h.order
  obtain ⟨hsoon, ⟨hsame, -⟩ | ⟨hlow, -⟩ | ⟨-, -, hphase, -⟩⟩ := Train.next_cases hn
  · rw [hfall.1, hfall.2] at hsame
    cases hsame
  · rw [hfall.1] at hlow
    cases hlow
  have hd : GLITCH_THRESHOLD_US ≤ (t + s.tUs - f.lastEdgeUs) % 2 ^ 32 := by
    rw [h.edge]
    have hlt := hsoon hp
    exact no_glitch (show t + p.fall ≤ _ by omega) (by omega) (by omega)
  have hfalls : f.Falls (s.shift t) := ⟨hwait, hfall.1 ▸ h.clk, hfall.2, hd⟩
  have hi := f.ingested (s.shift t)
  generalize f.ingestSample (s.shift t) = r at hi ⊢
  cases hi with
  | timeout late _ => exact absurd late hwait
  | rest _ _ stays _ => exact absurd hfalls stays
  | fall _ _ =>
    simp only [onClkFall, h.state]
    exact ⟨_, rfl, rfl⟩

theorem Tenth.run {p p' : Train} (h : Tenth f t p) (hrun : ss.foldlM Train.next p = some p')
    (hp : p.bits.length < p'.bits.length) (hp' : p'.bits.length ≤ AT_BIT_COUNT)
    (rest : List Sample) :
    ∃ frame fs, (f.feed (ss.map (.shift t) ++ rest)).2 = frame :: fs ∧ frame.kind = .at_ := by
  induction ss generalizing f p with
  | nil =>
    obtain rfl := Option.some.inj hrun
    exact absurd hp (Nat.lt_irrefl _)
  | cons s ss ih =>
    obtain ⟨q, hq, hrun⟩ := Train.run_cons hrun
    have hlt := Nat.lt_of_lt_of_le hp hp'
    rw [List.map_cons, List.cons_append, feed_cons]
    by_cases hfall : p.clk = true ∧ s.clk = false
    · obtain ⟨frame, he, hkind⟩ := h.fall hq hlt hfall
      rw [he]
      exact ⟨frame, _, rfl, hkind⟩
    · obtain ⟨f', he, h', hbits⟩ := h.sample hq hlt hfall
      rw [he]
      exact ih h' hrun (by rw [hbits]; exact hp)

/-- The tenth bit. -/
theorem Tenth.first (h : f.state = .receiving XT_BIT_COUNT) (hf : f.Falls ⟨false, data, t⟩)
    (start : Bool) :
    ∃ f', f.ingestSample ⟨false, data, t⟩ = (f', none) ∧ Tenth f' t (.first start) := by
  have hi := f.ingested ⟨false, data, t⟩
  generalize f.ingestSample ⟨false, data, t⟩ = r at hi ⊢
  cases hi with
  | timeout late _ => exact absurd late hf.1
  | rest _ _ stays _ => exact absurd hf stays
  | fall _ _ =>
    simp only [onClkFall, h]
    exact ⟨_, rfl, rfl, rfl, rfl, rfl, Nat.le_refl 0⟩

/-- The nine bits of an XT frame, when the next frame comes: they are lost, or
taken for the first of an AT frame. -/
theorem not_reads_pending {x : Spell} {xs : List Spell} (hstate : f.state = .receiving XT_BIT_COUNT)
    (hkind : x.burst.frame.kind = .xt) :
    (f.feed (wires t xs)).2.map Ps2Frame.timeless ≠ (x :: xs).map fun x => x.burst.frame := by
  intro hreads
  cases xs with
  | nil => cases hreads
  | cons y ys =>
    have hbits : x.burst.frame.bitCount = XT_BIT_COUNT := by rw [Ps2Frame.bitCount, hkind]
    have hsum := congrArg bitSum hreads
    have hfalls := falls_wires t (y :: ys)
    rw [bitSum_timeless, List.map_cons, bitSum, bitSum, List.map_cons, List.sum_cons, hbits] at hsum
    rw [bitSum] at hfalls
    rw [wires, Spell.wire, Burst.wire, List.append_assoc, List.cons_append] at hsum hfalls hreads
    by_cases hf : f.Falls ⟨false, y.burst.start, t⟩
    · obtain ⟨f', e, h'⟩ := Tenth.first hstate hf y.burst.start
      have hlen := length_bits_le y.burst.sent
      rw [← y.burst.whole.1] at hlen
      obtain ⟨frame, fs, he, hat⟩ :=
        h'.run y.burst.runs (Nat.lt_of_lt_of_le (show 1 < 9 by decide) hlen.1) hlen.2
        (y.rest t ++ wires (t + y.duration) ys)
      rw [feed_cons, e, he, List.map_append, List.map_cons, List.map_cons] at hreads
      have hhead : frame.timeless = x.burst.frame := (List.cons.inj hreads).1
      rw [← hhead, show frame.timeless.kind = frame.kind from rfl, hat] at hkind
      cases hkind
    · have hlost := bitSum_lt f rfl hf
        (y.burst.samples.map (.shift t) ++ (y.rest t ++ wires (t + y.duration) ys))
      rw [hfalls, pending, hstate, bitSum] at hlost
      dsimp only at hlost
      omega

/-! ## All frames -/

/-- From between frames on, the framer gives the frames on the wire iff every
start and every timeout is seen. -/
theorem Listening.reads_iff (xs : List Spell) (h : Listening f true edge) :
    (f.feed (wires t xs)).2.map Ps2Frame.timeless = xs.map (fun x => x.burst.frame) ↔
      Heard (t - edge) xs := by
  induction xs generalizing f t edge with
  | nil => exact iff_of_true rfl trivial
  | cons x xs ih =>
    by_cases hd : GLITCH_THRESHOLD_US ≤ (t - edge) % 2 ^ 32
    · by_cases hends : x.burst.Clean ∧ x.TimesOut
      · obtain ⟨f₁, fs, e, hfs, h₁⟩ := h.spell hd hends.1 hends.2
        have hus :
            t + x.duration - (t + x.burst.noted) = x.us + (x.burst.rise.1 - x.burst.noted) := by
          have hle := x.burst.noted_le
          rw [Spell.duration]
          omega
        have hrest := ih (t := t + x.duration) h₁
        rw [wires, feed_append, e, List.map_append, hfs, List.map_cons, List.singleton_append,
          List.cons_inj_right, hrest, hus, Heard]
        exact ⟨fun hxs => ⟨hd, hends, hxs⟩, fun hxs => hxs.2.2⟩
      · refine iff_of_false (fun hreads => ?_) fun hh => hends hh.2.1
        obtain ⟨f₁, fs, e, hkind, ⟨rfl, hstate⟩ | ⟨frame, fs', rfl, hglitch⟩⟩ :=
          h.spell_lost hd hends
        · rw [wires, feed_append, e, List.nil_append] at hreads
          exact not_reads_pending hstate hkind hreads
        · -- it shows a glitch that was not sent
          rw [wires, feed_append, e, List.cons_append, List.map_cons, List.map_cons] at hreads
          have hhead : frame.timeless = x.burst.frame := (List.cons.inj hreads).1
          exact hglitch
            ((congrArg (fun f => f.timing.glitchCount) hhead).trans x.burst.frame_glitches)
    · -- the start is taken for a glitch, and the frames have a bit more than is left
      refine iff_of_false (fun hreads => ?_) fun hh => hd hh.1
      have hfalls := falls_wires t (x :: xs)
      have hsum := congrArg bitSum hreads
      rw [bitSum_timeless, ← hfalls] at hsum
      have hlost : ¬ f.Falls ⟨false, x.burst.start, t⟩ := fun hf => by
        have hus := hf.2.2.2
        rw [h.edge] at hus
        exact hd hus
      have hlt := f.bitSum_lt rfl hlost
        (x.burst.samples.map (.shift t) ++ (x.rest t ++ wires (t + x.duration) xs))
      rw [wires, Spell.wire, Burst.wire, List.append_assoc, List.cons_append] at hsum
      rw [pending, h.state, hsum] at hlt
      dsimp only at hlt
      omega

end Framer

namespace Traffic

/-- The framer emits the frames on the wire iff every start and every timeout
is seen. -/
theorem reads_iff (x : Traffic) : x.frames = x.bursts.map Burst.frame ↔ x.Heard := by
  obtain ⟨s, lead, hlead⟩ := List.exists_cons_of_ne_nil x.sampled
  -- the first sample sets the level of CLK
  have h₀ : (Framer.new.ingestSample (.level true 0 s)).2 = none ∧
      (Framer.new.ingestSample (.level true 0 s)).1.Listening true 0 := by
    obtain ⟨t, data⟩ := s
    cases data with
    | false => exact ⟨rfl, rfl, rfl, rfl⟩
    | true => exact ⟨rfl, rfl, rfl, rfl⟩
  obtain ⟨f₁, e₁, h₁⟩ := h₀.2.levels (t := 0) lead
  have hxs := h₁.reads_iff (t := x.first) x.spells
  rw [Nat.sub_zero] at hxs
  rw [frames, samples, hlead, List.map_cons, List.cons_append, Framer.feed_cons, Framer.feed_append,
    h₀.1, e₁, bursts, List.map_map]
  exact hxs

end Traffic

/-- Two streams of the same frames, one of them heard: the framer gives the
same frames of both iff the other one is heard too. -/
theorem sameFrames_iff (x y : Traffic) (hsent : y.bursts = x.bursts) (h : x.Heard ∨ y.Heard) :
    SameFrames x y ↔ x.Heard ∧ y.Heard := by
  have hx := x.reads_iff
  have hy := y.reads_iff
  rw [hsent] at hy
  rw [SameFrames]
  constructor
  · intro hsame
    obtain h | h := h
    · exact ⟨h, hy.mp (hsame.trans (hx.mpr h))⟩
    · exact ⟨hx.mp (hsame.symm.trans (hy.mpr h)), h⟩
  · rintro ⟨h₁, h₂⟩
    exact (hy.mpr h₂).trans (hx.mpr h₁).symm

/-! ## Two frames -/

/-- The frame of 1Ch with phases of 25 us, a sample every microsecond. -/
def sent1C : Sent := .at_ false 0x1C false true

def burst1C : Burst where
  sent := sent1C
  start := false
  samples := (List.range 500).map
    fun k => ⟨25 ≤ (k + 1) % 50, sent1C.bits.getD ((k + 1) / 50) true, k + 1⟩
  last := ⟨sent1C.bits, List.replicate 10 50, 500, 500, false⟩
  runs := by decide +kernel
  whole := ⟨rfl, rfl⟩
  low := (List.range 24).map fun k => (501 + k, true)
  rise := (525, true)
  phase := by decide
  within := by decide

/-- And CLK high for so long after it. -/
def spell1C (us : Nat) (h : 250 ≤ us) : Spell where
  burst := burst1C
  high := (List.range (us - 1)).map fun k => (526 + k, true)
  us := us
  long := h
  within s hs := by
    obtain ⟨k, hk, rfl⟩ := List.mem_map.mp hs
    have hlt := List.mem_range.mp hk
    show 526 + k < 525 + us
    omega
  sampled h := by cases h

/-- Two such frames, with this idle time between them. -/
def twice1C (us : Nat) (h : 250 ≤ us) : Traffic where
  lead := (List.range 100).map (·, true)
  first := 100
  spells := [spell1C us h, spell1C 250 (Nat.le_refl _)]
  sampled := List.cons_ne_nil _ _

theorem twice1C_bursts (us : Nat) (h : 250 ≤ us) : (twice1C us h).bursts = [burst1C, burst1C] := rfl

theorem twice1C_heard (us : Nat) (h : 250 ≤ us) :
    (twice1C us h).Heard ↔ GLITCH_THRESHOLD_US ≤ us % 2 ^ 32 := by
  have hends : ∀ us h, (spell1C us h).burst.Clean ∧ (spell1C us h).TimesOut := fun _ _ =>
    ⟨fun hx => absurd hx Bool.false_ne_true, fun hx => absurd hx Bool.false_ne_true⟩
  have hnoted : burst1C.rise.1 - burst1C.noted = 0 := by
    rw [Burst.noted, if_neg fun hx => absurd hx.1 Bool.false_ne_true, Nat.sub_self]
  rw [Traffic.Heard, twice1C, Heard, Heard, Heard]
  change _ ∧ _ ∧ GLITCH_THRESHOLD_US ≤ (us + (burst1C.rise.1 - burst1C.noted)) % 2 ^ 32 ∧ _ ↔ _
  rw [hnoted, Nat.add_zero]
  exact ⟨fun hh => hh.2.2.1,
    fun hd => ⟨show 4 ≤ 100 % 2 ^ 32 by decide, hends _ _, hd, hends _ _, trivial⟩⟩

theorem sameFrames_iff_hours :
    SameFrames (twice1C 250 (by omega)) (twice1C 10000000000 (by omega)) :=
  have hquick := (twice1C_heard 250 (by omega)).mpr (by decide)
  have hslow := (twice1C_heard 10000000000 (by omega)).mpr (by decide)
  (sameFrames_iff _ _ ((twice1C_bursts _ _).trans (twice1C_bursts _ _).symm) (.inl hquick)).mpr
    ⟨hquick, hslow⟩

/-- After 2^32 us the start of the second frame is lost. -/
theorem wrap_differs : (twice1C 4294967296 (by omega)).bursts = (twice1C 250 (by omega)).bursts ∧
    ¬ SameFrames (twice1C 250 (by omega)) (twice1C 4294967296 (by omega)) := by
  have hbursts := (twice1C_bursts 4294967296 (by omega)).trans (twice1C_bursts 250 (by omega)).symm
  refine ⟨hbursts, fun hsame => ?_⟩
  have hquick := (twice1C 250 (by omega)).reads_iff.mpr ((twice1C_heard _ _).mpr (by decide))
  rw [← hbursts] at hquick
  have hslow := (twice1C 4294967296 (by omega)).reads_iff.mp (Eq.trans hsame hquick)
  exact absurd ((twice1C_heard _ _).mp hslow) (by decide)

end VintageKvm.Ps2
