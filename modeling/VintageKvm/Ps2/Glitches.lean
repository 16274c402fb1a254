import VintageKvm.Ps2.History

/-!
# Glitches on CLK

A stream of samples and the same stream with pulses on CLK of less than
`GLITCH_THRESHOLD_US`. The framer knows a pulse only by its second edge, so
that a low pulse has been taken for a bit by then. `undisturbed_iff`: the
pulses that do not matter are the high ones, and the low one that begins as
the idle timeout fires, where a high one matters. Times of 2^32 us and more
are cut, and what is cut to less than 4 us is taken for a glitch.
-/

namespace VintageKvm.Ps2

/-- A sample of CLK without the pulses, of DATA, and whether a pulse inverts
CLK. -/
structure Pulsed where
  clk : Bool
  data : Bool
  pulse : Bool
  deriving DecidableEq, Repr

namespace Pulsed

def clean (s : Pulsed) : Bool × Bool := (s.clk, s.data)
def disturbed (s : Pulsed) : Bool × Bool := (s.clk ^^ s.pulse, s.data)

end Pulsed

/-- What a frame says, its timing left aside. -/
def Ps2Frame.content (f : Ps2Frame) : FrameKind × Byte × Bool × Bool :=
  (f.kind, f.data, f.parityOk, f.framingOk)

/-- The same bits of a frame being received, and frames that say the same. -/
def SameSoFar (x y : Framer × List Ps2Frame) : Prop :=
  y.1.state = x.1.state ∧ y.2.map Ps2Frame.content = x.2.map Ps2Frame.content

/-- The pulses change no frame, and no number of bits at any time. -/
def Undisturbed (ss : List Pulsed) : Prop :=
  ∀ n, SameSoFar (Framer.new.ingestAll 0 ((ss.take n).map Pulsed.clean))
    (Framer.new.ingestAll 0 ((ss.take n).map Pulsed.disturbed))

/-! ## Where pulses may be -/

/-- The line after a sample. -/
inductive Line where
  | start
  /-- CLK at its level since its last transition, a pulse's or its own. -/
  | level (clk : Bool) (since : Nat)
  /-- A pulse since then, where CLK would be at the level. -/
  | pulse (clk : Bool) (since : Nat)

/-- Pulses of less than `GLITCH_THRESHOLD_US`, and every transition that does
not end a pulse as long after the one before at least. -/
def Spaced : Line → Nat → List Pulsed → Prop
  | .pulse _ _, _, [] => False
  | _, _, [] => True
  | .start, t, s :: ss => s.pulse = false ∧ Spaced (.level s.clk t) (t + 1) ss
  | .level clk since, t, s :: ss =>
    if s.clk = clk ∧ s.pulse = false then Spaced (.level clk since) (t + 1) ss
    else (since = 0 ∨ since + GLITCH_THRESHOLD_US ≤ t) ∧
      if s.pulse then s.clk = clk ∧ Spaced (.pulse clk t) (t + 1) ss
      else Spaced (.level s.clk t) (t + 1) ss
  | .pulse clk since, t, s :: ss =>
    s.clk = clk ∧
      if s.pulse then t + 1 < since + GLITCH_THRESHOLD_US ∧ Spaced (.pulse clk since) (t + 1) ss
      else Spaced (.level clk t) (t + 1) ss

instance Spaced.decidable : (l : Line) → (t : Nat) → (ss : List Pulsed) → Decidable (Spaced l t ss)
  | .pulse _ _, _, [] => isFalse id
  | .start, _, [] => isTrue trivial
  | .level _ _, _, [] => isTrue trivial
  | .start, t, s :: ss =>
    have := Spaced.decidable (.level s.clk t) (t + 1) ss
    inferInstanceAs (Decidable (_ ∧ _))
  | .level clk since, t, s :: ss =>
    have := Spaced.decidable (.level clk since) (t + 1) ss
    have := Spaced.decidable (.pulse clk t) (t + 1) ss
    have := Spaced.decidable (.level s.clk t) (t + 1) ss
    inferInstanceAs (Decidable (ite _ _ _))
  | .pulse clk since, t, _ :: ss =>
    have := Spaced.decidable (.pulse clk since) (t + 1) ss
    have := Spaced.decidable (.level clk t) (t + 1) ss
    inferInstanceAs (Decidable (_ ∧ _))

def Line.inPulse : Line → Bool
  | .pulse _ _ => true
  | _ => false

namespace Framer

/-- So long since the last edge noted that the cast to 32 bits makes a glitch
of it. -/
def Wraps (f : Framer) (tUs : Nat) : Prop :=
  2 ^ 32 ≤ tUs - f.lastEdgeUs ∧ (tUs - f.lastEdgeUs) % 2 ^ 32 < GLITCH_THRESHOLD_US

instance (f : Framer) (tUs : Nat) : Decidable (f.Wraps tUs) := inferInstanceAs (Decidable (_ ∧ _))

end Framer

/-- A low pulse begins as the frame being received times out, or before the
framer has seen 4 us; a high pulse does not begin as a frame times out. Where
the time since an edge wraps, a low pulse may begin, and a bit wraps with the
pulses and without. `f` is the framer without the pulses and `g` with them,
before the sample. -/
def HarmlessAt (f g : Framer) (t : Nat) (inPulse : Bool) (s : Pulsed) : Prop :=
  if s.pulse then
    inPulse = false →
      if s.clk then t < GLITCH_THRESHOLD_US ∨ f.TimesOut t ∨ g.Wraps t else ¬ f.TimesOut t
  else f.lastClk = some true → s.clk = false → f.TimesOut t ∨ (g.Wraps t ↔ f.Wraps t)

instance (f g : Framer) (t : Nat) (inPulse : Bool) (s : Pulsed) :
    Decidable (HarmlessAt f g t inPulse s) :=
  inferInstanceAs (Decidable (ite _ _ _))

def Harmless (f g : Framer) (t : Nat) (inPulse : Bool) : List Pulsed → Prop
  | [] => True
  | s :: ss => HarmlessAt f g t inPulse s ∧
      Harmless (f.ingest s.clk s.data t).1 (g.ingest (s.clk ^^ s.pulse) s.data t).1
        (t + 1) s.pulse ss

instance Harmless.decidable : (f g : Framer) → (t : Nat) → (inPulse : Bool) → (ss : List Pulsed) →
    Decidable (Harmless f g t inPulse ss)
  | _, _, _, _, [] => isTrue trivial
  | f, g, t, _, s :: ss =>
    have := Harmless.decidable (f.ingest s.clk s.data t).1
      (g.ingest (s.clk ^^ s.pulse) s.data t).1 (t + 1) s.pulse ss
    inferInstanceAs (Decidable (_ ∧ _))

/-! ## One sample on both lines -/

namespace Framer

variable {f g : Framer} {clk clk' data : Bool} {t : Nat}

/-- The same bits. -/
structure Sim (f g : Framer) : Prop where
  state : g.state = f.state
  assembled : g.assembled = f.assembled
  falling : g.lastFallingUs = f.lastFallingUs

theorem Sim.symm (h : Sim f g) : Sim g f := ⟨h.state.symm, h.assembled.symm, h.falling.symm⟩

theorem Sim.timesOut (h : Sim f g) : g.TimesOut t ↔ f.TimesOut t := by
  rw [TimesOut, TimesOut, h.state, h.falling]

theorem Sim.buildFrame (h : Sim f g) (n : Nat) :
    (g.buildFrame n).content = (f.buildFrame n).content := by
  unfold Framer.buildFrame
  split
  · simp only [Ps2Frame.content, dataBits, h.assembled]
    rfl
  · simp only [Ps2Frame.content, dataBits, h.assembled]

theorem Sim.emitOnTimeout (h : Sim f g) (n : Nat) :
    (g.emitOnTimeout n).map Ps2Frame.content = (f.emitOnTimeout n).map Ps2Frame.content := by
  unfold Framer.emitOnTimeout
  rw [h.assembled]
  split
  · rfl
  split
  · exact congrArg some (h.buildFrame _)
  split
  · simp only [Option.map_some, Ps2Frame.content, buildFrameInvalid, dataBits, h.assembled]
  · rfl

theorem Sim.onClkFall (h : Sim f g) (data : Bool) (t : Nat) :
    Sim (f.onClkFall data t).1 (g.onClkFall data t).1 ∧
    (g.onClkFall data t).2.map Ps2Frame.content = (f.onClkFall data t).2.map Ps2Frame.content := by
  unfold Framer.onClkFall
  rw [h.state]
  split
  · exact ⟨⟨rfl, rfl, rfl⟩, rfl⟩
  · dsimp only
    split
    · refine ⟨⟨rfl, rfl, rfl⟩, congrArg some (Sim.buildFrame ?_ _)⟩
      exact ⟨rfl, by rw [h.assembled], rfl⟩
    · exact ⟨⟨rfl, by rw [h.assembled], rfl⟩, rfl⟩

/-- What shows of a sample is the same. -/
def Agree (x y : Framer × Option Ps2Frame) : Prop :=
  y.1.state = x.1.state ∧ y.2.map Ps2Frame.content = x.2.map Ps2Frame.content

theorem Agree.symm {x y : Framer × Option Ps2Frame} (h : Agree x y) : Agree y x :=
  ⟨h.1.symm, h.2.symm⟩

/-- The samples are both taken for a bit or both not. -/
theorem Sim.ingest (h : Sim f g) (hfalls : g.Falls ⟨clk', data, t⟩ ↔ f.Falls ⟨clk, data, t⟩) :
    Sim (f.ingest clk data t).1 (g.ingest clk' data t).1 ∧
      Agree (f.ingest clk data t) (g.ingest clk' data t) := by
  suffices h : Sim (f.ingest clk data t).1 (g.ingest clk' data t).1 ∧
      (g.ingest clk' data t).2.map Ps2Frame.content =
        (f.ingest clk data t).2.map Ps2Frame.content from
    ⟨h.1, h.1.state, h.2⟩
  have hf := ingested f ⟨clk, data, t⟩
  have hg := ingested g ⟨clk', data, t⟩
  rw [ingestSample] at hf hg
  generalize f.ingest clk data t = x at hf ⊢
  generalize g.ingest clk' data t = y at hg ⊢
  cases hf with
  | timeout late state =>
    cases hg with
    | timeout _ state' =>
      have hbits := State.receiving.inj (state'.symm.trans (h.state.trans state))
      exact ⟨⟨rfl, rfl, rfl⟩, by rw [hbits]; exact h.emitOnTimeout _⟩
    | fall _ falls => exact absurd (h.timesOut.mpr late) falls.1
    | rest _ waits _ _ => exact absurd (h.timesOut.mpr late) waits
  | fall _ falls =>
    cases hg with
    | timeout late _ => exact absurd (h.timesOut.mp late) falls.1
    | fall _ _ =>
      refine Sim.onClkFall ?_ data t
      exact ⟨h.state, h.assembled, h.falling⟩
    | rest _ _ stays _ => exact absurd (hfalls.mpr falls) stays
  | rest _ waits stays _ =>
    cases hg with
    | timeout late _ => exact absurd (h.timesOut.mp late) waits
    | fall _ falls => exact absurd (hfalls.mp falls) stays
    | rest _ _ _ _ => exact ⟨⟨h.state, h.assembled, h.falling⟩, rfl⟩

/-- A bit on one line only shows. -/
theorem Sim.disagree (h : Sim f g) (hg : g.Falls ⟨clk', data, t⟩) (hf : ¬ f.Falls ⟨clk, data, t⟩) :
    ¬ Agree (f.ingest clk data t) (g.ingest clk' data t) := by
  unfold Agree
  have hfi := ingested f ⟨clk, data, t⟩
  have hgi := ingested g ⟨clk', data, t⟩
  rw [ingestSample] at hfi hgi
  generalize f.ingest clk data t = x at hfi ⊢
  generalize g.ingest clk' data t = y at hgi ⊢
  cases hfi with
  | timeout late _ => exact absurd (h.timesOut.mpr late) hg.1
  | fall _ falls => exact absurd falls hf
  | rest _ _ _ _ =>
    cases hgi with
    | timeout late _ => exact absurd late hg.1
    | rest _ _ stays _ => exact absurd hg stays
    | fall _ _ =>
      rintro ⟨hstate, hout⟩
      cases hs : g.state with
      | idle =>
        simp only [Framer.onClkFall, hs] at hstate
        rw [← h.state, hs] at hstate
        cases hstate
      | receiving bits =>
        simp only [Framer.onClkFall, hs] at hstate hout
        split at hout
        · cases hout
        next hlt =>
          rw [if_neg hlt, ← h.state, hs] at hstate
          exact Nat.succ_ne_self bits (State.receiving.inj hstate)

/-! ## What the framer knows of one line -/

/-- An edge is noted, but for one that comes with a timeout. -/
theorem ingest_lastEdgeUs (f : Framer) (clk data : Bool) (t : Nat) :
    (f.ingest clk data t).1.lastEdgeUs =
    if ¬ f.TimesOut t ∧ f.lastClk = some !clk then t else f.lastEdgeUs := by
  have hf := ingested f ⟨clk, data, t⟩
  rw [ingestSample] at hf
  generalize f.ingest clk data t = x at hf ⊢
  cases hf with
  | timeout late _ => exact (if_neg fun h => h.1 late).symm
  | fall _ falls =>
    refine (onClkFall_keeps _ _ _).2.1.trans (if_pos ⟨falls.1, ?_⟩).symm
    rw [falls.2.1, show clk = false from falls.2.2.1]
    rfl
  | rest _ waits _ edge =>
    rw [edge]
    exact if_congr ⟨fun h => ⟨waits, h⟩, And.right⟩ rfl rfl

/-- A timeout leaves it idle. -/
theorem ingest_timesOut (h : f.TimesOut t) (clk data : Bool) :
    (f.ingest clk data t).1.state = .idle := by
  have hf := ingested f ⟨clk, data, t⟩
  rw [ingestSample] at hf
  generalize f.ingest clk data t = x at hf ⊢
  cases hf with
  | timeout _ _ => rfl
  | fall _ falls => exact absurd h falls.1
  | rest _ waits _ _ => exact absurd h waits

/-- Without a bit it stays idle. -/
theorem ingest_idle_state (h : f.state = .idle) (hf : ¬ f.Falls ⟨clk, data, t⟩) :
    (f.ingest clk data t).1.state = .idle := by
  have hi := ingested f ⟨clk, data, t⟩
  rw [ingestSample] at hi
  generalize f.ingest clk data t = x at hi ⊢
  cases hi with
  | timeout late _ => exact absurd h late.1
  | fall _ falls => exact absurd falls hf
  | rest _ _ _ _ => exact h

theorem not_falls_hold (h : f.lastClk = some clk) : ¬ f.Falls ⟨clk, data, t⟩ := fun hf => by
  have h1 : clk = true := Option.some.inj (h.symm.trans hf.2.1)
  exact Bool.false_ne_true (hf.2.2.1.symm.trans h1)

theorem not_falls_rise : ¬ f.Falls ⟨true, data, t⟩ := fun hf => Bool.false_ne_true hf.2.2.1.symm

theorem not_timesOut_idle (h : f.state = .idle) : ¬ f.TimesOut t := fun ht => ht.1 h

/-- A framer that has had a sample every microsecond before `t`. -/
structure Timed (f : Framer) (t : Nat) : Prop where
  edge : f.lastEdgeUs ≤ t
  frame : f.state ≠ .idle → f.lastFallingUs ≤ f.lastEdgeUs ∧ t ≤ f.lastFallingUs + IDLE_TIMEOUT_US

theorem onClkFall_lastFallingUs (f : Framer) (data : Bool) (t : Nat)
    (h : (f.onClkFall data t).1.state ≠ .idle) : (f.onClkFall data t).1.lastFallingUs = t := by
  unfold Framer.onClkFall at h ⊢
  split
  · rfl
  next hs =>
    rw [hs] at h
    dsimp only at h ⊢
    split
    next hge =>
      rw [if_pos hge] at h
      exact absurd rfl h
    next => rfl

theorem Timed.step (h : Timed f t) (clk data : Bool) : Timed (f.ingest clk data t).1 (t + 1) := by
  have hedge := h.edge
  have hi := ingested f ⟨clk, data, t⟩
  rw [ingestSample] at hi
  generalize f.ingest clk data t = x at hi ⊢
  cases hi with
  | timeout _ _ => exact ⟨Nat.le_succ_of_le hedge, fun hs => absurd rfl hs⟩
  | fall _ _ =>
    refine ⟨?_, fun hs => ?_⟩
    · rw [(onClkFall_keeps _ _ _).2.1]
      exact Nat.le_succ t
    · rw [(onClkFall_keeps _ _ _).2.1, onClkFall_lastFallingUs _ _ _ hs]
      exact ⟨Nat.le_refl t, Nat.add_le_add_left (by decide) t⟩
  | rest _ waits _ edge =>
    have he : f.lastEdgeUs ≤ (if f.lastClk = some !clk then t else f.lastEdgeUs) ∧
        (if f.lastClk = some !clk then t else f.lastEdgeUs) ≤ t := by
      split
      · exact ⟨hedge, Nat.le_refl t⟩
      · exact ⟨Nat.le_refl _, hedge⟩
    refine ⟨?_, fun hs => ?_⟩
    · rw [edge]
      exact Nat.le_succ_of_le he.2
    · obtain ⟨hle, hlt⟩ := h.frame hs
      have hwait : (t - f.lastFallingUs) % 2 ^ 32 < 200 :=
        Nat.not_le.mp fun hlate => waits ⟨hs, hlate⟩
      have hlt' : t ≤ f.lastFallingUs + 200 := hlt
      refine ⟨?_, ?_⟩
      · rw [edge]
        exact hle.trans he.1
      · show t + 1 ≤ f.lastFallingUs + 200
        omega

theorem Timed.timesOut (h : Timed f t) (ht : f.TimesOut t) : t ≤ f.lastEdgeUs + 200 := by
  obtain ⟨hle, hlt⟩ := h.frame ht.1
  have : t ≤ f.lastFallingUs + 200 := hlt
  omega

/-! ## Both lines -/

/-- The framer without the pulses and with them, before the sample at `t`. -/
structure Both (f g : Framer) (t : Nat) : Prop where
  sim : Sim f g
  timed : Timed g t

theorem Both.step (h : Both f g t) (hfalls : g.Falls ⟨clk', data, t⟩ ↔ f.Falls ⟨clk, data, t⟩) :
    Both (f.ingest clk data t).1 (g.ingest clk' data t).1 (t + 1) :=
  ⟨(h.sim.ingest hfalls).1, h.timed.step clk' data⟩

/-- CLK at its level since its last transition. -/
structure AtLevel (f g : Framer) (t : Nat) (clk : Bool) (since : Nat) : Prop where
  both : Both f g t
  clean_clk : f.lastClk = some clk
  disturbed_clk : g.lastClk = some clk
  since_lt : since < t
  clean_edge : f.lastEdgeUs ≤ since
  edge : g.lastEdgeUs ≤ since
  first : since = 0 → f.state = .idle

/-- Within a pulse since `since` that has not mattered. -/
structure InPulse (f g : Framer) (t : Nat) (clk : Bool) (since : Nat) : Prop where
  both : Both f g t
  clean_clk : f.lastClk = some clk
  disturbed_clk : g.lastClk = some !clk
  since_lt : since < t
  short : t < since + GLITCH_THRESHOLD_US
  clean_edge : f.lastEdgeUs ≤ since
  edge : g.lastEdgeUs ≤ since
  high : clk = false → g.lastEdgeUs = since

/-- Within a high pulse that began with a timeout. -/
structure Doomed (f g : Framer) (t since : Nat) : Prop where
  both : Both f g t
  clean_clk : f.lastClk = some false
  disturbed_clk : g.lastClk = some true
  state : g.state = .idle
  since_lt : since < t
  short : t < since + GLITCH_THRESHOLD_US
  edge : g.lastEdgeUs + GLITCH_THRESHOLD_US ≤ since ∧ since ≤ g.lastEdgeUs + 200

section

variable {since : Nat}

/-- A sample like the last. -/
theorem ingest_hold (h : f.lastClk = some clk) (data : Bool) (t : Nat) :
    (f.ingest clk data t).1.lastEdgeUs = f.lastEdgeUs := by
  rw [ingest_lastEdgeUs, if_neg]
  rintro ⟨-, h'⟩
  rw [h, Option.some_inj] at h'
  exact Bool.not_ne_self clk h'.symm

/-- An edge. -/
theorem ingest_edge (h : f.lastClk = some clk) (data : Bool) (t : Nat) :
    (f.ingest (!clk) data t).1.lastEdgeUs = if f.TimesOut t then f.lastEdgeUs else t := by
  rw [ingest_lastEdgeUs, Bool.not_not]
  by_cases ht : f.TimesOut t
  · rw [if_pos ht, if_neg fun h' => h'.1 ht]
  · rw [if_neg ht, if_pos ⟨ht, h⟩]

/-- A falling edge where CLK has been high for long enough. -/
theorem falls_iff_wraps (hclk : f.lastClk = some true) (data : Bool) (hedge : f.lastEdgeUs ≤ since)
    (hgap : since = 0 ∨ since + GLITCH_THRESHOLD_US ≤ t) :
    f.Falls ⟨false, data, t⟩ ↔ ¬ f.TimesOut t ∧ GLITCH_THRESHOLD_US ≤ t ∧ ¬ f.Wraps t := by
  have hgap' : since = 0 ∨ since + 4 ≤ t := hgap
  have hdur : GLITCH_THRESHOLD_US ≤ (t - f.lastEdgeUs) % 2 ^ 32 ↔ GLITCH_THRESHOLD_US ≤ t ∧
      ¬ f.Wraps t := by
    show 4 ≤ (t - f.lastEdgeUs) % 2 ^ 32 ↔ 4 ≤ t ∧
      ¬ (2 ^ 32 ≤ t - f.lastEdgeUs ∧ (t - f.lastEdgeUs) % 2 ^ 32 < 4)
    omega
  rw [← hdur]
  exact ⟨fun h => ⟨h.1, h.2.2.2⟩, fun h => ⟨h.1, hclk, rfl, h.2⟩⟩

theorem AtLevel.hold (h : AtLevel f g t clk since) (data : Bool) :
    AtLevel (f.ingest clk data t).1 (g.ingest clk data t).1 (t + 1) clk since ∧
      Agree (f.ingest clk data t) (g.ingest clk data t) := by
  have hf : ¬ f.Falls ⟨clk, data, t⟩ := not_falls_hold h.clean_clk
  have hfalls : g.Falls ⟨clk, data, t⟩ ↔ f.Falls ⟨clk, data, t⟩ :=
    iff_of_false (not_falls_hold h.disturbed_clk) hf
  refine ⟨⟨h.both.step hfalls, ingest_lastClk _ _ _ _, ingest_lastClk _ _ _ _,
    Nat.lt_succ_of_lt h.since_lt, ?_, ?_, fun h0 => ingest_idle_state (h.first h0) hf⟩,
    (h.both.sim.ingest hfalls).2⟩
  · rw [ingest_hold h.clean_clk]
    exact h.clean_edge
  · rw [ingest_hold h.disturbed_clk]
    exact h.edge

/-- A transition of CLK itself is taken for a bit on both lines or on none. -/
theorem AtLevel.falls_iff (h : AtLevel f g t clk since) (data : Bool)
    (hgap : since = 0 ∨ since + GLITCH_THRESHOLD_US ≤ t)
    (hwraps : clk = true → f.TimesOut t ∨ (g.Wraps t ↔ f.Wraps t)) :
    g.Falls ⟨!clk, data, t⟩ ↔ f.Falls ⟨!clk, data, t⟩ := by
  cases clk with
  | false => exact iff_of_false not_falls_rise not_falls_rise
  | true =>
    rw [Bool.not_true, falls_iff_wraps h.disturbed_clk data h.edge hgap,
      falls_iff_wraps h.clean_clk data h.clean_edge hgap, h.both.sim.timesOut]
    rcases hwraps rfl with hlate | hw
    · exact iff_of_false (fun hf => hf.1 hlate) fun hf => hf.1 hlate
    · rw [hw]

/-- A bit that wraps on one line only. -/
theorem AtLevel.wraps_disagree (h : AtLevel f g t true since) (data : Bool)
    (hgap : since = 0 ∨ since + GLITCH_THRESHOLD_US ≤ t)
    (hw : ¬ (f.TimesOut t ∨ (g.Wraps t ↔ f.Wraps t))) :
    ¬ Agree (f.ingest false data t) (g.ingest false data t) := by
  obtain ⟨hwaits, hne⟩ := not_or.mp hw
  have hlate {e : Framer} (he : e.Wraps t) : GLITCH_THRESHOLD_US ≤ t := by
    have h32 : 2 ^ 32 ≤ t - e.lastEdgeUs := he.1
    show 4 ≤ t
    omega
  have hg := falls_iff_wraps h.disturbed_clk data h.edge hgap
  have hf := falls_iff_wraps h.clean_clk data h.clean_edge hgap
  rw [h.both.sim.timesOut] at hg
  by_cases hgw : g.Wraps t
  · have hfw : ¬ f.Wraps t := fun hfw => hne (iff_of_true hgw hfw)
    exact fun ha => h.both.sim.symm.disagree (hf.mpr ⟨hwaits, hlate hgw, hfw⟩)
      (fun hfall => (hg.mp hfall).2.2 hgw) ha.symm
  · have hfw : f.Wraps t := by_contra fun hfw => hne (iff_of_false hgw hfw)
    exact h.both.sim.disagree (hg.mpr ⟨hwaits, hlate hfw, hgw⟩) fun hfall => (hf.mp hfall).2.2 hfw

theorem AtLevel.transition (h : AtLevel f g t clk since) (data : Bool)
    (hgap : since = 0 ∨ since + GLITCH_THRESHOLD_US ≤ t)
    (hwraps : clk = true → f.TimesOut t ∨ (g.Wraps t ↔ f.Wraps t)) :
    AtLevel (f.ingest (!clk) data t).1 (g.ingest (!clk) data t).1 (t + 1) (!clk) t ∧
      Agree (f.ingest (!clk) data t) (g.ingest (!clk) data t) := by
  have hfalls := h.falls_iff data hgap hwraps
  have hlt := h.since_lt
  have hf := h.clean_edge
  have hg := h.edge
  refine ⟨⟨h.both.step hfalls, ingest_lastClk _ _ _ _, ingest_lastClk _ _ _ _,
    Nat.lt_succ_self t, ?_, ?_, fun h0 => absurd hlt (by omega)⟩, (h.both.sim.ingest hfalls).2⟩
  · rw [ingest_edge h.clean_clk]
    split <;> omega
  · rw [ingest_edge h.disturbed_clk]
    split <;> omega

/-- A pulse whose first edge is not taken for a bit. -/
theorem AtLevel.pulse (h : AtLevel f g t clk since) (data : Bool)
    (hstays : ¬ g.Falls ⟨!clk, data, t⟩) (hhigh : clk = false → ¬ f.TimesOut t) :
    InPulse (f.ingest clk data t).1 (g.ingest (!clk) data t).1 (t + 1) clk t ∧
      Agree (f.ingest clk data t) (g.ingest (!clk) data t) := by
  have hlt := h.since_lt
  have hf := h.clean_edge
  have hg := h.edge
  have hfalls : g.Falls ⟨!clk, data, t⟩ ↔ f.Falls ⟨clk, data, t⟩ :=
    iff_of_false hstays (not_falls_hold h.clean_clk)
  refine ⟨⟨h.both.step hfalls, ingest_lastClk _ _ _ _, ingest_lastClk _ _ _ _, Nat.lt_succ_self t,
    Nat.add_lt_add_left (by decide) t, ?_, ?_, fun hc => ?_⟩, (h.both.sim.ingest hfalls).2⟩
  · rw [ingest_hold h.clean_clk]
    omega
  · rw [ingest_edge h.disturbed_clk]
    split <;> omega
  · rw [ingest_edge h.disturbed_clk]
    exact if_neg (h.both.sim.timesOut.not.mpr (hhigh hc))

/-- A low pulse is taken for a bit at once, or not at all. -/
theorem AtLevel.low_falls (h : AtLevel f g t true since) (data : Bool)
    (hgap : since = 0 ∨ since + GLITCH_THRESHOLD_US ≤ t) :
    g.Falls ⟨false, data, t⟩ ↔ ¬ (t < GLITCH_THRESHOLD_US ∨ f.TimesOut t ∨ g.Wraps t) := by
  rw [falls_iff_wraps h.disturbed_clk data h.edge hgap, h.both.sim.timesOut, not_or, not_or,
    Nat.not_lt, and_left_comm]

/-- A high pulse as a frame times out: its first edge is not noted. -/
theorem AtLevel.high_dooms (h : AtLevel f g t false since) (data : Bool)
    (hgap : since = 0 ∨ since + GLITCH_THRESHOLD_US ≤ t) (hlate : f.TimesOut t) :
    Doomed (f.ingest false data t).1 (g.ingest true data t).1 (t + 1) t := by
  have htimes := h.both.sim.timesOut.mpr hlate
  have hg := h.edge
  have hge : since + 4 ≤ t := hgap.resolve_left fun h0 => hlate.1 (h.first h0)
  refine ⟨h.both.step (iff_of_false not_falls_rise (not_falls_hold h.clean_clk)),
    ingest_lastClk _ _ _ _, ingest_lastClk _ _ _ _, ingest_timesOut htimes _ _, Nat.lt_succ_self t,
    Nat.add_lt_add_left (by decide) t, ?_⟩
  have hedge : (g.ingest true data t).1.lastEdgeUs = g.lastEdgeUs :=
    (ingest_edge h.disturbed_clk data t).trans (if_pos htimes)
  rw [hedge]
  exact ⟨show g.lastEdgeUs + 4 ≤ t by omega, h.both.timed.timesOut htimes⟩

theorem InPulse.hold (h : InPulse f g t clk since) (data : Bool)
    (hshort : t + 1 < since + GLITCH_THRESHOLD_US) :
    InPulse (f.ingest clk data t).1 (g.ingest (!clk) data t).1 (t + 1) clk since ∧
      Agree (f.ingest clk data t) (g.ingest (!clk) data t) := by
  have hfalls : g.Falls ⟨!clk, data, t⟩ ↔ f.Falls ⟨clk, data, t⟩ :=
    iff_of_false (not_falls_hold h.disturbed_clk) (not_falls_hold h.clean_clk)
  refine ⟨⟨h.both.step hfalls, ingest_lastClk _ _ _ _, ingest_lastClk _ _ _ _,
    Nat.lt_succ_of_lt h.since_lt, hshort, ?_, ?_, ?_⟩, (h.both.sim.ingest hfalls).2⟩
  · rw [ingest_hold h.clean_clk]
    exact h.clean_edge
  · rw [ingest_hold h.disturbed_clk]
    exact h.edge
  · rw [ingest_hold h.disturbed_clk]
    exact h.high

/-- The second edge of a pulse is known for a glitch's. -/
theorem InPulse.not_falls (h : InPulse f g t clk since) (data : Bool) :
    ¬ g.Falls ⟨clk, data, t⟩ := by
  cases clk with
  | true => exact not_falls_rise
  | false =>
    intro hfall
    have hdur : 4 ≤ (t - g.lastEdgeUs) % 2 ^ 32 := hfall.2.2.2
    have hshort : t < since + 4 := h.short
    have hedge := h.high rfl
    omega

theorem InPulse.ends (h : InPulse f g t clk since) (data : Bool) :
    AtLevel (f.ingest clk data t).1 (g.ingest clk data t).1 (t + 1) clk t ∧
      Agree (f.ingest clk data t) (g.ingest clk data t) := by
  have hfalls : g.Falls ⟨clk, data, t⟩ ↔ f.Falls ⟨clk, data, t⟩ :=
    iff_of_false (h.not_falls data) (not_falls_hold h.clean_clk)
  have hlt := h.since_lt
  have hf := h.clean_edge
  have hg := h.edge
  refine ⟨⟨h.both.step hfalls, ingest_lastClk _ _ _ _, ingest_lastClk _ _ _ _,
    Nat.lt_succ_self t, ?_, ?_, fun h0 => absurd hlt (by omega)⟩, (h.both.sim.ingest hfalls).2⟩
  · rw [ingest_hold h.clean_clk]
    omega
  · have hedge := ingest_edge h.disturbed_clk data t
    rw [Bool.not_not] at hedge
    rw [hedge]
    split <;> omega

theorem Doomed.hold (h : Doomed f g t since) (data : Bool)
    (hshort : t + 1 < since + GLITCH_THRESHOLD_US) :
    Doomed (f.ingest false data t).1 (g.ingest true data t).1 (t + 1) since := by
  refine ⟨h.both.step (iff_of_false (not_falls_hold h.disturbed_clk) (not_falls_hold h.clean_clk)),
    ingest_lastClk _ _ _ _, ingest_lastClk _ _ _ _, ingest_idle_state h.state
    (not_falls_hold h.disturbed_clk), Nat.lt_succ_of_lt h.since_lt, hshort, ?_⟩
  rw [ingest_hold h.disturbed_clk]
  exact h.edge

/-- The second edge is taken for a bit. -/
theorem Doomed.ends (h : Doomed f g t since) (data : Bool) :
    ¬ Agree (f.ingest false data t) (g.ingest false data t) := by
  have hlt := h.since_lt
  have hshort : t < since + 4 := h.short
  have hedge : g.lastEdgeUs + 4 ≤ since := h.edge.1
  have hrecent := h.edge.2
  have hdur : 4 ≤ (t - g.lastEdgeUs) % 2 ^ 32 := by omega
  exact h.both.sim.disagree ⟨not_timesOut_idle h.state, h.disturbed_clk, rfl,
    hdur⟩ (not_falls_hold h.clean_clk)

/-! ## All samples -/

/-- What shows of every sample is the same. -/
def Agrees (f g : Framer) (t : Nat) : List Pulsed → Prop
  | [] => True
  | s :: ss => Agree (f.ingest s.clk s.data t) (g.ingest (s.clk ^^ s.pulse) s.data t) ∧
      Agrees (f.ingest s.clk s.data t).1 (g.ingest (s.clk ^^ s.pulse) s.data t).1 (t + 1) ss

/-- A pulse that will matter. -/
theorem Doomed.not_agrees (h : Doomed f g t since) {ss : List Pulsed}
    (hs : Spaced (.pulse false since) t ss) : ¬ Agrees f g t ss := by
  induction ss generalizing f g t with
  | nil => exact hs.elim
  | cons s ss ih =>
    obtain ⟨c, data, pulse⟩ := s
    obtain ⟨rfl, hs⟩ := hs
    cases pulse with
    | true => exact fun ha => ih (h.hold data hs.1) hs.2 ha.2
    | false => exact fun ha => h.ends data ha.1

/-- What holds of the framers when the line is so. -/
def Follows (f g : Framer) (t : Nat) : Line → Prop
  | .start => f = .new ∧ g = .new ∧ t = 0
  | .level clk since => AtLevel f g t clk since
  | .pulse clk since => InPulse f g t clk since

/-- Nothing shows of the sample, and the line is followed. -/
def Follows.Hidden (f g : Framer) (t : Nat) (s : Pulsed) (ss : List Pulsed) : Prop :=
  Agree (f.ingest s.clk s.data t) (g.ingest (s.clk ^^ s.pulse) s.data t) ∧
    ∃ l : Line, l.inPulse = s.pulse ∧ Spaced l (t + 1) ss ∧
      Follows (f.ingest s.clk s.data t).1 (g.ingest (s.clk ^^ s.pulse) s.data t).1 (t + 1) l

variable {ss : List Pulsed} {pulse : Bool}

theorem follows_first (clk data : Bool) :
    Follows (Framer.new.ingest clk data 0).1 (Framer.new.ingest clk data 0).1 1 (.level clk 0) := by
  have hstays : ¬ Framer.new.Falls ⟨clk, data, 0⟩ := fun hf => nomatch hf.2.1
  have hedge : (Framer.new.ingest clk data 0).1.lastEdgeUs = 0 := by
    rw [ingest_lastEdgeUs]
    exact if_neg fun h => nomatch h.2
  have hidle := ingest_idle_state (rfl : Framer.new.state = .idle) hstays
  have htimed : Timed .new 0 := ⟨Nat.le_refl 0, fun h => absurd rfl h⟩
  exact ⟨⟨⟨rfl, rfl, rfl⟩, htimed.step clk data⟩, ingest_lastClk _ _ _ _, ingest_lastClk _ _ _ _,
    Nat.zero_lt_one, hedge.le, hedge.le, fun _ => hidle⟩

/-- The line at a level: a pulse begins, CLK changes, or neither. -/
theorem AtLevel.sample (h : AtLevel f g t clk since) {s : Pulsed}
    (hs : Spaced (.level clk since) t (s :: ss)) :
    HarmlessAt f g t false s ∧ Follows.Hidden f g t s ss ∨ ¬ HarmlessAt f g t false s ∧
      ¬ Agrees f g t (s :: ss) := by
  obtain ⟨c, data, pulse⟩ := s
  rw [Spaced] at hs
  split at hs
  next hsame =>
    obtain ⟨rfl, rfl⟩ := hsame
    have hstep := h.hold data
    rw [Follows.Hidden, Bool.xor_false]
    refine .inl ⟨fun hclk hlow => ?_, hstep.2, .level c since, rfl, hs, hstep.1⟩
    rw [h.clean_clk, hlow] at hclk
    cases hclk
  next hother =>
    obtain ⟨hgap, hs⟩ := hs
    cases pulse with
    | true =>
      obtain ⟨rfl, hs⟩ := hs
      have hhidden (hstays : ¬ g.Falls ⟨!c, data, t⟩) (hhigh : c = false → ¬ f.TimesOut t) :
          Follows.Hidden f g t ⟨c, data, true⟩ ss := by
        rw [Follows.Hidden, Bool.xor_true]
        have hstep := h.pulse data hstays hhigh
        exact ⟨hstep.2, .pulse c t, rfl, hs, hstep.1⟩
      cases c with
      | true =>
        have hfalls := h.low_falls data hgap
        by_cases hharmless : t < GLITCH_THRESHOLD_US ∨ f.TimesOut t ∨ g.Wraps t
        · exact .inl ⟨fun _ => hharmless, hhidden (hfalls.not.mpr (not_not.mpr hharmless))
            fun hc => nomatch hc⟩
        · refine .inr ⟨fun hh => hharmless (hh rfl), fun ha => ?_⟩
          exact h.both.sim.disagree (hfalls.mpr hharmless) (not_falls_hold h.clean_clk) ha.1
      | false =>
        by_cases hlate : f.TimesOut t
        · exact .inr ⟨fun hh => hh rfl hlate,
            fun ha => (h.high_dooms data hgap hlate).not_agrees hs ha.2⟩
        · exact .inl ⟨fun _ => hlate, hhidden not_falls_rise fun _ => hlate⟩
    | false =>
      have hc : c = !clk := Bool.eq_not.mpr fun hc => hother ⟨hc, rfl⟩
      subst hc
      by_cases hwraps : clk = true → f.TimesOut t ∨ (g.Wraps t ↔ f.Wraps t)
      · have hstep := h.transition data hgap hwraps
        rw [Follows.Hidden, Bool.xor_false]
        refine .inl ⟨fun hclk _ => hwraps ?_, hstep.2, .level (!clk) t, rfl, hs, hstep.1⟩
        exact Option.some.inj (h.clean_clk.symm.trans hclk)
      · obtain ⟨rfl, hw⟩ := Classical.not_imp.mp hwraps
        exact .inr ⟨fun hh => hw (hh h.clean_clk rfl), fun ha => h.wraps_disagree data hgap hw ha.1⟩

/-- A pulse goes on or ends. -/
theorem InPulse.sample (h : InPulse f g t clk since) {s : Pulsed}
    (hs : Spaced (.pulse clk since) t (s :: ss)) :
    HarmlessAt f g t true s ∧ Follows.Hidden f g t s ss := by
  obtain ⟨c, data, pulse⟩ := s
  obtain ⟨rfl, hs⟩ := hs
  cases pulse with
  | true =>
    have hstep := h.hold data hs.1
    rw [Follows.Hidden, Bool.xor_true]
    exact ⟨fun hp => (nomatch hp), hstep.2, .pulse c since, rfl, hs.2, hstep.1⟩
  | false =>
    have hstep := h.ends data
    rw [Follows.Hidden, Bool.xor_false]
    refine ⟨fun hclk hlow => ?_, hstep.2, .level c t, rfl, hs, hstep.1⟩
    rw [h.clean_clk, show c = false from hlow] at hclk
    cases hclk

theorem Follows.sample {l : Line} (h : Follows f g t l) {s : Pulsed} (hs : Spaced l t (s :: ss)) :
    HarmlessAt f g t l.inPulse s ∧ Follows.Hidden f g t s ss ∨
      ¬ HarmlessAt f g t l.inPulse s ∧ ¬ Agrees f g t (s :: ss) := by
  cases l with
  | level clk since => exact AtLevel.sample h hs
  | pulse clk since => exact .inl (InPulse.sample h hs)
  | start =>
    obtain ⟨c, data, pulse⟩ := s
    obtain ⟨rfl, rfl, rfl⟩ := h
    obtain ⟨rfl, hs⟩ := hs
    rw [Follows.Hidden, Bool.xor_false]
    exact .inl ⟨fun hclk _ => (nomatch hclk), ⟨rfl, rfl⟩, .level c 0, rfl, hs, follows_first c data⟩

/-- Pulses where they may be, from any time on. -/
theorem Follows.agrees_iff {l : Line} (h : Follows f g t l) (hs : Spaced l t ss) :
    Agrees f g t ss ↔ Harmless f g t l.inPulse ss := by
  induction ss generalizing f g t l with
  | nil => exact Iff.rfl
  | cons s ss ih =>
    rcases h.sample hs with ⟨hat, hagree, l', hpulse, hs', h'⟩ | ⟨hat, hnot⟩
    · have hrest := ih h' hs'
      rw [hpulse] at hrest
      exact and_congr (iff_of_true hagree hat) hrest
    · exact iff_of_false hnot fun hh => hat hh.1

end

end Framer

/-! ## Frames -/

open Framer

theorem ingestAll_sample (f : Framer) (t : Nat) (clk data : Bool) (samples : List (Bool × Bool)) :
    f.ingestAll t ((clk, data) :: samples) = (((f.ingest clk data t).1.ingestAll (t + 1) samples).1,
      (f.ingest clk data t).2.toList ++ ((f.ingest clk data t).1.ingestAll (t + 1) samples).2) :=
  rfl

/-- After a sample that agrees it is on the rest. -/
theorem sameSoFar_cons {f g : Framer} {t : Nat} {s : Pulsed}
    (ha : Agree (f.ingest s.clk s.data t) (g.ingest (s.clk ^^ s.pulse) s.data t))
    (ss : List Pulsed) : SameSoFar (f.ingestAll t ((s :: ss).map Pulsed.clean))
      (g.ingestAll t ((s :: ss).map Pulsed.disturbed)) ↔
      SameSoFar ((f.ingest s.clk s.data t).1.ingestAll (t + 1) (ss.map Pulsed.clean))
        ((g.ingest (s.clk ^^ s.pulse) s.data t).1.ingestAll (t + 1) (ss.map Pulsed.disturbed)) := by
  rw [List.map_cons, List.map_cons, Pulsed.clean, Pulsed.disturbed, ingestAll_sample,
    ingestAll_sample, SameSoFar, SameSoFar, List.map_append, List.map_append, ← Option.toList_map,
    ← Option.toList_map, ha.2, List.append_right_inj]

/-- After the first sample it is what shows of it. -/
theorem sameSoFar_one (f g : Framer) (t : Nat) (s : Pulsed) :
    SameSoFar (f.ingestAll t [s.clean]) (g.ingestAll t [s.disturbed]) ↔
      Agree (f.ingest s.clk s.data t) (g.ingest (s.clk ^^ s.pulse) s.data t) := by
  rw [Pulsed.clean, Pulsed.disturbed, ingestAll_sample, ingestAll_sample, SameSoFar, Agree,
    List.map_append, List.map_append, ← Option.toList_map, ← Option.toList_map]
  have hinj :
      Function.Injective (Option.toList : Option (FrameKind × Byte × Bool × Bool) → List _) :=
    Function.LeftInverse.injective fun _ => Option.head?_toList
  exact and_congr_right fun _ => (List.append_left_inj []).trans hinj.eq_iff

/-- It is the same after any number of samples iff every sample agrees. -/
theorem agrees_iff_prefixes (f g : Framer) (t : Nat) (hstate : g.state = f.state)
    (ss : List Pulsed) :
    Agrees f g t ss ↔ ∀ n, SameSoFar (f.ingestAll t ((ss.take n).map Pulsed.clean))
      (g.ingestAll t ((ss.take n).map Pulsed.disturbed)) := by
  induction ss generalizing f g t with
  | nil => exact iff_of_true trivial fun n => by rw [List.take_nil]; exact ⟨hstate, rfl⟩
  | cons s ss ih =>
    refine ⟨fun ⟨ha, hrest⟩ n => ?_, fun h => ?_⟩
    · cases n with
      | zero => exact ⟨hstate, rfl⟩
      | succ n => exact (sameSoFar_cons ha _).mpr ((ih _ _ _ ha.1).mp hrest n)
    · have ha := (sameSoFar_one f g t s).mp (h 1)
      exact ⟨ha, (ih _ _ _ ha.1).mpr fun n => (sameSoFar_cons ha _).mp (h (n + 1))⟩

/-- For pulses of less than 4 us, each as far from every other transition,
they change no frame and no number of bits iff all are harmless. -/
theorem undisturbed_iff (ss : List Pulsed) (h : Spaced .start 0 ss) :
    Undisturbed ss ↔ Harmless .new .new 0 false ss :=
  (agrees_iff_prefixes .new .new 0 rfl ss).symm.trans
    (Follows.agrees_iff (l := .start) ⟨rfl, rfl, rfl⟩ h)

/-- A high pulse of 2 us in a low phase. -/
def bitPulse : List Pulsed :=
  List.replicate 8 ⟨true, true, false⟩ ++ List.replicate 5 ⟨false, false, false⟩ ++
    List.replicate 2 ⟨false, false, true⟩ ++
    List.replicate 5 ⟨false, false, false⟩ ++ List.replicate 5 ⟨true, true, false⟩

theorem undisturbed_bitPulse : Undisturbed bitPulse :=
  (undisturbed_iff bitPulse (by decide)).mpr (by decide)

/-! ## A low pulse before a frame -/

/-- A bit with phases of 25 us. -/
def slot (bit : Bool) : Slot := ⟨bit, List.replicate 24 bit, List.replicate 25 true⟩

def frame55 : Wave :=
  ⟨.at_ false 0x55 true true, ([false] ++ byteBits 0x55 ++ [true]).map slot, slot true⟩

def idlePulse : List Pulsed :=
  List.replicate 10 ⟨true, true, false⟩ ++ List.replicate 2 ⟨true, true, true⟩ ++
    List.replicate 18 ⟨true, true, false⟩ ++ frame55.samples.map fun s => ⟨s.1, s.2, false⟩

theorem idlePulse_disturbs : Spaced .start 0 idlePulse ∧
    idlePulse.map Pulsed.clean = List.replicate 30 (true, true) ++ frame55.samples ∧
    frame55.WellTimed ∧
    (∀ s ∈ frame55.slots, 25 ≤ s.lowUs ∧ 25 ≤ s.highUs) ∧
    (Framer.new.ingestAll 0 (idlePulse.map Pulsed.clean)).2.map Ps2Frame.content =
      [(.at_, 0x55, true, true)] ∧
    (Framer.new.ingestAll 0 (idlePulse.map Pulsed.disturbed)).2.map Ps2Frame.content =
      [(.at_, 0xaa, false, false)] := by
  refine ⟨by decide +kernel, by decide +kernel, ⟨by decide, by decide, by decide, by decide, ?_⟩,
    by decide, by decide +kernel, by decide +kernel⟩
  rintro data ⟨⟩

end VintageKvm.Ps2
