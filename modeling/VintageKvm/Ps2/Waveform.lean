import VintageKvm.Ps2.Framer
import Mathlib.Data.List.GetD

/-!
# Waveforms that the framer reads

Frames on the wire, sample by sample: a bit is a low phase of CLK, with DATA
the bit at the falling edge, and a high phase. Between samples of a frame the
framer is in a state that holds the bits so far (`InFrame`), between frames it
waits for a falling edge (`Listening`); what one sample does to either gives
what a bit, a frame and a list of frames do (`ingestAll_waves`).
-/

namespace VintageKvm.Ps2

/-! ## Frames on the wire -/

/-- A frame as sent: an AT frame has any eleven bits, an XT frame its start
bit 1 and eight bits of data. -/
inductive Sent where
  | at_ (start : Bool) (data : Byte) (parity stop : Bool)
  | xt (data : Byte)
  deriving DecidableEq, Repr

/-- The bits of a byte, the lowest first. -/
def byteBits (b : Byte) : List Bool := (List.range 8).map b.getLsbD

def Sent.bits : Sent → List Bool
  | at_ start data parity stop => start :: byteBits data ++ [parity, stop]
  | xt data => true :: byteBits data

/-- A bit on the wire: DATA is the bit at the falling edge of CLK, and
anything in the other samples of the low phase and in the high phase. -/
structure Slot where
  bit : Bool
  low : List Bool
  high : List Bool

namespace Slot

def lowUs (s : Slot) : Nat := s.low.length + 1
def highUs (s : Slot) : Nat := s.high.length

/-- From the falling edge to the next. -/
def periodUs (s : Slot) : Nat := s.lowUs + s.highUs

def samples (s : Slot) : List (Bool × Bool) :=
  ((false, s.bit) :: s.low.map (false, ·)) ++ s.high.map (true, ·)

theorem length_samples (s : Slot) : s.samples.length = s.periodUs := by
  simp only [samples, List.length_append, List.length_cons, List.length_map, periodUs,
    lowUs, highUs]

end Slot

/-- A frame on the wire, with the idle time after it. -/
structure Wave where
  sent : Sent
  init : List Slot
  last : Slot

namespace Wave

def slots (w : Wave) : List Slot := w.init ++ [w.last]

def samples (w : Wave) : List (Bool × Bool) := w.slots.flatMap Slot.samples

theorem exists_samples (w : Wave) : ∃ b ss, w.samples = (false, b) :: ss := by
  cases hi : w.init with
  | nil => exact ⟨_, _, by rw [samples, slots, hi]; rfl⟩
  | cons s init => exact ⟨_, _, by rw [samples, slots, hi]; rfl⟩

/-- Phases of 4 us at least and falling edges less than 200 us apart. The
idle time is shorter than 2^32 us, and an XT frame is alone for more than
200 us. -/
structure WellTimed (w : Wave) : Prop where
  bits : w.slots.map Slot.bit = w.sent.bits
  phases : ∀ s ∈ w.slots, GLITCH_THRESHOLD_US ≤ s.lowUs ∧ GLITCH_THRESHOLD_US ≤ s.highUs
  periods : ∀ s ∈ w.init, s.periodUs < IDLE_TIMEOUT_US
  idle : w.last.highUs < 2 ^ 32
  alone : ∀ data, w.sent = .xt data → IDLE_TIMEOUT_US < w.last.periodUs

/-- The falling edge after the frame is no glitch to the framer. It measures
from the edge before, and does not see the rising edge of an XT frame that comes
with the timeout. -/
def Separated (w : Wave) : Prop := ∀ data, w.sent = .xt data → w.last.lowUs = IDLE_TIMEOUT_US →
  GLITCH_THRESHOLD_US ≤ w.last.periodUs % 2 ^ 32

/-- The frame that `ingest` should give for a wave whose first falling edge
is at `t`. -/
structure Reads (w : Wave) (t : Nat) (f : Ps2Frame) : Prop where
  sent : match w.sent with
    | .at_ start data parity stop => f.kind = .at_ ∧ f.data = data ∧
        (f.parityOk ↔ (countOnes data + parity.toNat) % 2 = 1) ∧
          (f.framingOk ↔ start = false ∧ stop = true)
    | .xt data => f.kind = .xt ∧ f.data = data ∧ f.parityOk ∧ f.framingOk
  start : f.startTimestampUs = t
  periods : ∀ k s, w.init[k]? = some s → (f.timing.bitPeriodsUs.getD k 0).toNat = s.periodUs
  glitches : f.timing.glitchCount = 0

/-- The frames that waves from `t` on should give, in order. -/
def Decodes : Nat → List Wave → List Ps2Frame → Prop
  | _, [], fs => fs = []
  | t, w :: ws, fs => ∃ f fs', fs = f :: fs' ∧ Reads w t f ∧ Decodes (t + w.samples.length) ws fs'

end Wave

/-! ## One sample -/

namespace Framer

variable {f : Framer} {clk data : Bool} {t : Nat}

theorem noteData_eq (f : Framer) (data : Bool) (t : Nat) :
    ∃ d l, f.noteData data t = { f with lastDataChangeUs := d, lastData := l } := by
  rw [noteData]
  split
  · exact ⟨_, _, rfl⟩
  · exact ⟨f.lastDataChangeUs, f.lastData, rfl⟩

/-- A sample without an edge. -/
theorem onSample_hold (h : f.lastClk = some clk) (data : Bool) (t : Nat) :
    ∃ d l, f.onSample clk data t = ({ f with lastDataChangeUs := d, lastData := l }, none) := by
  obtain ⟨d, l, e⟩ := f.noteData_eq data t
  refine ⟨d, l, ?_⟩
  simp only [onSample, e, h, ↓reduceIte]

/-- A rising edge after a phase that is no glitch. -/
theorem onSample_rise (h : f.lastClk = some false)
    (hd : GLITCH_THRESHOLD_US ≤ (t - f.lastEdgeUs) % 2 ^ 32) (data : Bool) :
    ∃ d l, f.onSample true data t =
      ({ f with lastDataChangeUs := d, lastData := l, lastClk := some true, lastEdgeUs := t },
        none) := by
  obtain ⟨d, l, e⟩ := f.noteData_eq data t
  refine ⟨d, l, ?_⟩
  simp only [onSample, e, h, Bool.false_eq_true, ↓reduceIte, Nat.not_lt.mpr hd, Bool.false_and]

/-- A rising edge between frames, glitch or not. -/
theorem onSample_rise_idle (h : f.lastClk = some false) (hs : f.state = .idle)
    (data : Bool) (t : Nat) : ∃ d l, f.onSample true data t =
      ({ f with lastDataChangeUs := d, lastData := l, lastClk := some true, lastEdgeUs := t },
        none) := by
  by_cases hd : GLITCH_THRESHOLD_US ≤ (t - f.lastEdgeUs) % 2 ^ 32
  · exact onSample_rise h hd data
  · obtain ⟨d, l, e⟩ := f.noteData_eq data t
    refine ⟨d, l, ?_⟩
    simp only [onSample, e, h, hs, Bool.false_eq_true, ↓reduceIte, Nat.not_le.mp hd]

/-- A falling edge after a phase that is no glitch. -/
theorem onSample_fall (h : f.lastClk = some true)
    (hd : GLITCH_THRESHOLD_US ≤ (t - f.lastEdgeUs) % 2 ^ 32) (data : Bool) :
    ∃ d l, f.onSample false data t = { f with
      lastDataChangeUs := d, lastData := l, lastClk := some false,
      lastEdgeUs := t : Framer }.onClkFall data t := by
  obtain ⟨d, l, e⟩ := f.noteData_eq data t
  refine ⟨d, l, ?_⟩
  simp only [onSample, e, h, Bool.true_eq_false, ↓reduceIte, Nat.not_lt.mpr hd, Bool.true_and,
    Bool.not_false]

/-- Between frames: the level of CLK, and when it last changed. -/
structure Listening (f : Framer) (clk : Bool) (edge : Nat) : Prop where
  state : f.state = .idle
  clk : f.lastClk = some clk
  edge : f.lastEdgeUs = edge

/-- Within a frame whose falling edges were from `start` to `last`. -/
structure InFrame (f : Framer) (start last edge : Nat) (clk : Bool) (bits : List Bool)
    (widths : List Nat) : Prop where
  state : f.state = .receiving bits.length
  clk : f.lastClk = some clk
  edge : f.lastEdgeUs = edge
  start : f.frameStartUs = start
  last : f.lastFallingUs = last
  assembled : ∀ i, f.assembled.getLsbD i = bits.getD i false
  periods : f.periodsUs = widths.map (BitVec.ofNat 16) ++ List.replicate (11 - widths.length) 0
  count : widths.length + 1 = bits.length
  glitches : f.glitchCount = 0

section

variable {edge start last : Nat} {bits : List Bool} {widths : List Nat}

theorem ingest_idle (h : f.state = .idle) (clk data : Bool) (t : Nat) :
    f.ingest clk data t = f.onSample clk data t := by
  rw [ingest, h]

theorem Listening.hold (h : Listening f clk edge) (data : Bool) (t : Nat) :
    ∃ f', f.ingest clk data t = (f', none) ∧ Listening f' clk edge := by
  obtain ⟨d, l, e⟩ := onSample_hold h.clk data t
  exact ⟨_, (ingest_idle h.state _ _ _).trans e, h.state, h.clk, h.edge⟩

theorem Listening.rise (h : Listening f false edge) (data : Bool) (t : Nat) :
    ∃ f', f.ingest true data t = (f', none) ∧ Listening f' true t := by
  obtain ⟨d, l, e⟩ := onSample_rise_idle h.clk h.state data t
  exact ⟨_, (ingest_idle h.state _ _ _).trans e, h.state, rfl, rfl⟩

theorem getLsbD_ofBool (b : Bool) (i : Nat) :
    (BitVec.ofNat 16 b.toNat).getLsbD i = (decide (i = 0) && b) := by
  cases b with
  | false => simp
  | true =>
    show (1#16).getLsbD i = _
    rw [BitVec.getLsbD_one]
    simp

theorem Listening.fall (h : Listening f true edge) (hd : GLITCH_THRESHOLD_US ≤ (t - edge) % 2 ^ 32)
    (data : Bool) :
    ∃ f', f.ingest false data t = (f', none) ∧ InFrame f' t t t false [data] [] := by
  obtain ⟨d, l, e⟩ := onSample_fall h.clk (h.edge ▸ hd) data
  rw [ingest_idle h.state, e]
  simp only [onClkFall, h.state]
  refine ⟨_, rfl, rfl, rfl, rfl, rfl, rfl, fun i => ?_, rfl, rfl, rfl⟩
  rw [getLsbD_ofBool]
  cases i with
  | zero => rfl
  | succ i => rfl

/-- A falling edge between frames that is taken for a glitch. -/
theorem Listening.missed (h : Listening f true edge)
    (hd : (t - edge) % 2 ^ 32 < GLITCH_THRESHOLD_US) (data : Bool) :
    ∃ f', f.ingest false data t = (f', none) ∧ Listening f' false t := by
  obtain ⟨d, l, e⟩ := f.noteData_eq data t
  rw [ingest_idle h.state]
  simp only [onSample, e, h.clk, Bool.true_eq_false, h.edge, hd, ↓reduceIte, h.state]
  exact ⟨_, rfl, rfl, rfl, rfl⟩

/-- No timeout: less than 200 us have passed, as cut to 32 bits. -/
theorem InFrame.waits (h : InFrame f start last edge clk bits widths)
    (ht : (t - last) % 2 ^ 32 < IDLE_TIMEOUT_US)
    (c data : Bool) : f.ingest c data t = f.onSample c data t := by
  simp only [ingest, h.state, h.last, Nat.not_le.mpr ht, ↓reduceIte]

theorem InFrame.still (h : InFrame f start last edge clk bits widths)
    (ht : (t - last) % 2 ^ 32 < IDLE_TIMEOUT_US)
    (data : Bool) :
    ∃ f', f.ingest clk data t = (f', none) ∧ InFrame f' start last edge clk bits widths := by
  obtain ⟨d, l, e⟩ := onSample_hold h.clk data t
  exact ⟨_, (h.waits ht _ _).trans e, h.state, h.clk, h.edge, h.start, h.last, h.assembled,
    h.periods, h.count, h.glitches⟩

theorem soon_of_lt (ht : t < last + IDLE_TIMEOUT_US) : (t - last) % 2 ^ 32 < IDLE_TIMEOUT_US := by
  show _ < 200
  have : t < last + 200 := ht
  omega

theorem InFrame.ingest_eq (h : InFrame f start last edge clk bits widths)
    (ht : t < last + IDLE_TIMEOUT_US) (c data : Bool) : f.ingest c data t = f.onSample c data t :=
  h.waits (soon_of_lt ht) c data

theorem InFrame.hold (h : InFrame f start last edge clk bits widths)
    (ht : t < last + IDLE_TIMEOUT_US) (data : Bool) :
    ∃ f', f.ingest clk data t = (f', none) ∧ InFrame f' start last edge clk bits widths :=
  h.still (soon_of_lt ht) data

/-- A phase within a frame that is no glitch. -/
theorem no_glitch (he : last ≤ edge) (hd : edge + GLITCH_THRESHOLD_US ≤ t)
    (ht : t < last + IDLE_TIMEOUT_US) : GLITCH_THRESHOLD_US ≤ (t - edge) % 2 ^ 32 := by
  have : edge + 4 ≤ t := hd
  have : t < last + 200 := ht
  show 4 ≤ _
  omega

theorem InFrame.rise (h : InFrame f start last edge false bits widths) (he : last ≤ edge)
    (hd : edge + GLITCH_THRESHOLD_US ≤ t) (ht : t < last + IDLE_TIMEOUT_US) (data : Bool) :
    ∃ f', f.ingest true data t = (f', none) ∧ InFrame f' start last t true bits widths := by
  obtain ⟨d, l, e⟩ := onSample_rise h.clk (h.edge ▸ no_glitch he hd ht) data
  exact ⟨_, (h.ingest_eq ht _ _).trans e, h.state, rfl, rfl, h.start, h.last, h.assembled,
    h.periods, h.count, h.glitches⟩

/-- A period noted in the first free place. -/
theorem set_periods (widths : List Nat) (p : Nat) (h : widths.length < 11) :
    (widths.map (BitVec.ofNat 16) ++ List.replicate (11 - widths.length) 0).set widths.length
      (BitVec.ofNat 16 p) =
      (widths ++ [p]).map (BitVec.ofNat 16) ++
        List.replicate (11 - (widths ++ [p]).length) (0 : Word) := by
  obtain ⟨n, hn⟩ : ∃ n, 11 - widths.length = n + 1 := ⟨10 - widths.length, by omega⟩
  have hn' : 11 - (widths ++ [p]).length = n := by
    rw [List.length_append, List.length_singleton]
    omega
  rw [List.set_append_right _ _ (by rw [List.length_map]), List.length_map, Nat.sub_self, hn, hn',
    List.replicate_succ, List.set_cons_zero, List.map_append, List.append_assoc]
  rfl

theorem getD_concat (bits : List Bool) (b : Bool) (i : Nat) :
    (bits ++ [b]).getD i false = (bits.getD i false || decide (i = bits.length) && b) := by
  simp only [List.getD_eq_getElem?_getD, List.getElem?_append]
  by_cases hi : i < bits.length
  · have hne : i ≠ bits.length := by omega
    rw [if_pos hi]
    simp [hne]
  · rw [if_neg hi, List.getElem?_eq_none (not_lt.mp hi)]
    by_cases he : i = bits.length
    · simp [he]
    · have hs : i - bits.length ≠ 0 := by omega
      obtain ⟨k, hk⟩ := Nat.exists_eq_succ_of_ne_zero hs
      simp [he, hk]

/-- One more bit over those assembled. -/
theorem getLsbD_or_bit {a : Word} (h : ∀ i, a.getLsbD i = bits.getD i false)
    (hlen : bits.length < 16) (b : Bool) (i : Nat) :
    (a ||| BitVec.ofNat 16 b.toNat <<< bits.length).getLsbD i = (bits ++ [b]).getD i false := by
  rw [BitVec.getLsbD_or, h, BitVec.getLsbD_shiftLeft, getLsbD_ofBool, getD_concat]
  by_cases hi : i < bits.length
  · have hne : i ≠ bits.length := by omega
    simp [hi, hne]
  · by_cases hei : i = bits.length
    · subst hei
      simp [hlen]
    · have hs : i - bits.length ≠ 0 := by omega
      simp [hei, hs]

/-- A falling edge within a frame: one more bit. -/
theorem InFrame.fall (h : InFrame f start last edge true bits widths) (he : last ≤ edge)
    (hd : edge + GLITCH_THRESHOLD_US ≤ t) (ht : t < last + IDLE_TIMEOUT_US)
    (hlen : bits.length ≤ 10) (data : Bool) :
    ∃ g, InFrame g start t t false (bits ++ [data]) (widths ++ [t - last]) ∧
      f.ingest false data t = if AT_BIT_COUNT ≤ bits.length + 1 then
        (g.resetIdle, some (g.buildFrame AT_BIT_COUNT)) else (g, none) := by
  obtain ⟨d, l, e⟩ := onSample_fall h.clk (h.edge ▸ no_glitch he hd ht) data
  have hcount := h.count
  have hle : bits.length ≤ f.periodsUs.length := by
    rw [h.periods, List.length_append, List.length_map, List.length_replicate]
    omega
  rw [h.ingest_eq ht, e]
  simp only [onClkFall, h.state, if_pos hle]
  refine ⟨_, ?_, rfl⟩
  refine ⟨?_, rfl, rfl, h.start, rfl, fun i => ?_, ?_, ?_, h.glitches⟩
  · rw [List.length_append, List.length_singleton]
  · exact getLsbD_or_bit h.assembled (by omega) data i
  · show f.periodsUs.set (bits.length - 1) (BitVec.ofNat 16 (t - f.lastFallingUs)) = _
    rw [h.periods, h.last,
      show bits.length - 1 = widths.length by omega, set_periods _ _ (by omega)]
  · rw [List.length_append, List.length_append, List.length_singleton,
      List.length_singleton, hcount]

/-- 200 us after the last falling edge or later, as cut to 32 bits. -/
theorem InFrame.late (h : InFrame f start last edge clk bits widths)
    (ht : IDLE_TIMEOUT_US ≤ (t - last) % 2 ^ 32)
    (c data : Bool) :
    ∃ f', f.ingest c data t = (f', f.emitOnTimeout bits.length) ∧ Listening f' c edge := by
  simp only [ingest, h.state, h.last, if_pos ht]
  exact ⟨_, rfl, rfl, rfl, h.edge⟩

theorem InFrame.timeout (h : InFrame f start last edge clk bits widths)
    (ht : t = last + IDLE_TIMEOUT_US) (c data : Bool) :
    ∃ f', f.ingest c data t = (f', f.emitOnTimeout bits.length) ∧ Listening f' c edge := by
  refine h.late ?_ c data
  rw [ht, Nat.add_sub_cancel_left]
  decide

/-- Nine bits that start with 1 are an XT frame. -/
theorem InFrame.emitOnTimeout_xt (h : InFrame f start last edge clk bits widths)
    (h1 : bits.getD 0 false = true) :
    f.emitOnTimeout XT_BIT_COUNT = some (f.buildFrame XT_BIT_COUNT) := by
  have h0 : f.assembled.getLsbD 0 = true := (h.assembled 0).trans h1
  rw [emitOnTimeout, if_neg (by decide), if_pos ⟨rfl, h0⟩]

/-! ## A level held -/

theorem ingestAll_cons {f₁ f₂ : Framer} {fr : Option Ps2Frame} {frs : List Ps2Frame} {c d : Bool}
    {ss : List (Bool × Bool)} (h₁ : f.ingest c d t = (f₁, fr))
    (h₂ : f₁.ingestAll (t + 1) ss = (f₂, frs)) :
    f.ingestAll t ((c, d) :: ss) = (f₂, fr.toList ++ frs) := by
  simp only [ingestAll, h₁, h₂]

theorem Listening.holds (ds : List Bool) (h : Listening f clk edge) :
    ∃ f', f.ingestAll t (ds.map (clk, ·)) = (f', []) ∧ Listening f' clk edge := by
  induction ds generalizing f t with
  | nil => exact ⟨f, rfl, h⟩
  | cons d ds ih =>
    obtain ⟨f₁, e₁, h₁⟩ := h.hold d t
    obtain ⟨f₂, e₂, h₂⟩ := ih (t := t + 1) h₁
    exact ⟨f₂, ingestAll_cons e₁ e₂, h₂⟩

theorem InFrame.holds (ds : List Bool) (h : InFrame f start last edge clk bits widths)
    (ht : t + ds.length ≤ last + IDLE_TIMEOUT_US) :
    ∃ f', f.ingestAll t (ds.map (clk, ·)) = (f', []) ∧
      InFrame f' start last edge clk bits widths := by
  induction ds generalizing f t with
  | nil => exact ⟨f, rfl, h⟩
  | cons d ds ih =>
    rw [List.length_cons] at ht
    have hlt : t < last + IDLE_TIMEOUT_US := by omega
    obtain ⟨f₁, e₁, h₁⟩ := h.hold hlt d
    obtain ⟨f₂, e₂, h₂⟩ := ih (t := t + 1) h₁ (by omega)
    exact ⟨f₂, ingestAll_cons e₁ e₂, h₂⟩

/-- A level held past the timeout. It may begin on the very sample of the
timeout, where the framer does not see the edge. -/
theorem InFrame.expires {c : Bool} (ds : List Bool) (h : InFrame f start last edge clk bits widths)
    (ht : t ≤ last + IDLE_TIMEOUT_US) (hc : c = clk ∨ t = last + IDLE_TIMEOUT_US)
    (hds : last + IDLE_TIMEOUT_US < t + ds.length) :
    ∃ f' g, f.ingestAll t (ds.map (c, ·)) = (f', (g.emitOnTimeout bits.length).toList) ∧
      Listening f' c edge ∧ InFrame g start last edge clk bits widths := by
  induction ds generalizing f t with
  | nil =>
    rw [List.length_nil] at hds
    omega
  | cons d ds ih =>
    rw [List.length_cons] at hds
    rcases Nat.lt_or_eq_of_le ht with ht | ht
    · obtain rfl : c = clk := hc.resolve_right (by omega)
      obtain ⟨f₁, e₁, h₁⟩ := h.hold ht d
      obtain ⟨f₂, g, e₂, h₂, hg⟩ := ih (t := t + 1) h₁ ht (.inl rfl) (by omega)
      exact ⟨f₂, g, ingestAll_cons e₁ e₂, h₂, hg⟩
    · obtain ⟨f₁, e₁, h₁⟩ := h.timeout ht c d
      obtain ⟨f₂, e₂, h₂⟩ := h₁.holds (t := t + 1) ds
      exact ⟨f₂, f, (ingestAll_cons e₁ e₂).trans (by rw [List.append_nil]), h₂, h⟩

/-! ## One bit -/

theorem ingestAll_trans {f₁ f₂ : Framer} {fs₁ fs₂ : List Ps2Frame}
    {s₁ s₂ : List (Bool × Bool)} {t' : Nat} (h₁ : f.ingestAll t s₁ = (f₁, fs₁))
    (ht : t + s₁.length = t') (h₂ : f₁.ingestAll t' s₂ = (f₂, fs₂)) :
    f.ingestAll t (s₁ ++ s₂) = (f₂, fs₁ ++ fs₂) := by
  rw [ingestAll_append, h₁, ht, h₂]

/-- The high phase that a bit goes on with. -/
theorem Slot.exists_high {s : Slot} (h : GLITCH_THRESHOLD_US ≤ s.highUs) :
    ∃ d ds, s.high = d :: ds := by
  cases hs : s.high with
  | nil =>
    rw [Slot.highUs, hs] at h
    exact absurd h (by decide)
  | cons d ds => exact ⟨d, ds, rfl⟩

/-- The rest of a bit that another bit follows. -/
theorem InFrame.rest {s : Slot} (h : InFrame f start t t false bits widths)
    (hp : s.periodUs < IDLE_TIMEOUT_US) (hl : GLITCH_THRESHOLD_US ≤ s.lowUs)
    (hh : GLITCH_THRESHOLD_US ≤ s.highUs) :
    ∃ f', f.ingestAll (t + 1) (s.low.map (false, ·) ++ s.high.map (true, ·)) = (f', []) ∧
      InFrame f' start t (t + s.lowUs) true bits widths := by
  obtain ⟨d, ds, hds⟩ := Slot.exists_high hh
  have hp' : s.low.length + 1 + (ds.length + 1) < IDLE_TIMEOUT_US := by
    rwa [Slot.periodUs, Slot.lowUs, Slot.highUs, hds] at hp
  rw [hds]
  obtain ⟨f₁, e₁, h₁⟩ := h.holds (t := t + 1) s.low (by omega)
  obtain ⟨f₂, e₂, h₂⟩ := h₁.rise (t := t + s.lowUs) (Nat.le_refl t) (Nat.add_le_add_left hl t)
    (by rw [Slot.lowUs]; omega) d
  obtain ⟨f₃, e₃, h₃⟩ := h₂.holds (t := t + s.lowUs + 1) ds (by rw [Slot.lowUs]; omega)
  have hlen : t + 1 + (s.low.map (false, ·)).length = t + s.lowUs := by
    rw [List.length_map, Slot.lowUs]
    omega
  exact ⟨f₃, ingestAll_trans e₁ hlen (ingestAll_cons e₂ e₃), h₃⟩

/-- The rest of the last bit of an AT frame. -/
theorem Listening.rest {s : Slot} (h : Listening f false edge)
    (hh : GLITCH_THRESHOLD_US ≤ s.highUs) :
      ∃ f', f.ingestAll (t + 1) (s.low.map (false, ·) ++ s.high.map (true, ·)) = (f', []) ∧
      Listening f' true (t + s.lowUs) := by
  obtain ⟨d, ds, hds⟩ := Slot.exists_high hh
  rw [hds]
  obtain ⟨f₁, e₁, h₁⟩ := h.holds (t := t + 1) s.low
  obtain ⟨f₂, e₂, h₂⟩ := h₁.rise d (t + s.lowUs)
  obtain ⟨f₃, e₃, h₃⟩ := h₂.holds (t := t + s.lowUs + 1) ds
  have hlen : t + 1 + (s.low.map (false, ·)).length = t + s.lowUs := by
    rw [List.length_map, Slot.lowUs]
    omega
  exact ⟨f₃, ingestAll_trans e₁ hlen (ingestAll_cons e₂ e₃), h₃⟩

/-- The rest of the last bit of a frame that ends with the idle time after
it: the timeout comes in the low phase, on the rising edge or in the high
phase. -/
theorem InFrame.rest_idle {s : Slot} (h : InFrame f start t t false bits widths)
    (hp : IDLE_TIMEOUT_US < s.periodUs) (hl : GLITCH_THRESHOLD_US ≤ s.lowUs)
    (hh : GLITCH_THRESHOLD_US ≤ s.highUs) :
    ∃ f' g e, f.ingestAll (t + 1) (s.low.map (false, ·) ++ s.high.map (true, ·)) =
        (f', (g.emitOnTimeout bits.length).toList) ∧
      Listening f' true e ∧
      (e = t + s.lowUs ∧ s.lowUs ≠ IDLE_TIMEOUT_US ∨ e = t ∧ s.lowUs = IDLE_TIMEOUT_US) ∧
      ∃ edge clk, InFrame g start t edge clk bits widths := by
  obtain ⟨d, ds, hds⟩ := Slot.exists_high hh
  have hp' : IDLE_TIMEOUT_US < s.low.length + 1 + (ds.length + 1) := by
    rwa [Slot.periodUs, Slot.lowUs, Slot.highUs, hds] at hp
  have hmid : t + 1 + (s.low.map (false, ·)).length = t + s.lowUs := by
    rw [List.length_map, Slot.lowUs]
    omega
  have hlow : s.lowUs = s.low.length + 1 := rfl
  rcases Nat.lt_trichotomy s.lowUs IDLE_TIMEOUT_US with hlt | heq | hgt
  · obtain ⟨f₁, e₁, h₁⟩ := h.holds (t := t + 1) s.low (by omega)
    obtain ⟨f₂, e₂, h₂⟩ :=
      h₁.rise (t := t + s.lowUs) (Nat.le_refl t) (Nat.add_le_add_left hl t) (by omega) d
    obtain ⟨f₃, g, e₃, h₃, hg⟩ :=
      h₂.expires (t := t + s.lowUs + 1) ds (by omega) (.inl rfl) (by omega)
    rw [hds]
    exact ⟨f₃, g, _, ingestAll_trans e₁ hmid (ingestAll_cons e₂ e₃), h₃,
      .inl ⟨rfl, hlt.ne⟩, _, _, hg⟩
  · obtain ⟨f₁, e₁, h₁⟩ := h.holds (t := t + 1) s.low (by omega)
    obtain ⟨f₂, g, e₂, h₂, hg⟩ :=
      h₁.expires (t := t + s.lowUs) s.high (by omega) (.inr (by rw [heq]))
      (by rw [hds, List.length_cons]; omega)
    exact ⟨f₂, g, _, ingestAll_trans e₁ hmid e₂, h₂, .inr ⟨rfl, heq⟩, _, _, hg⟩
  · obtain ⟨f₁, g, e₁, h₁, hg⟩ :=
      h.expires (t := t + 1) s.low (Nat.add_le_add_left (by decide) t) (.inl rfl) (by omega)
    obtain ⟨f₂, e₂, h₂⟩ := h₁.rise d (t + s.lowUs)
    obtain ⟨f₃, e₃, h₃⟩ := h₂.holds (t := t + s.lowUs + 1) ds
    rw [hds]
    have hrun := ingestAll_trans e₁ hmid (ingestAll_cons e₂ e₃)
    rw [Option.toList_none, List.nil_append, List.append_nil] at hrun
    exact ⟨f₃, g, _, hrun, h₃, .inl ⟨rfl, hgt.ne'⟩, _, _, hg⟩

/-! ## A frame -/

/-- Before the falling edge of another bit of a frame, after these. -/
structure Between (f : Framer) (start t : Nat) (ss : List Slot) (last edge : Nat)
    (widths : List Nat) : Prop where
  frame : InFrame f start last edge true (ss.map Slot.bit) widths
  widths : widths ++ [t - last] = ss.map Slot.periodUs
  order : last ≤ edge ∧ edge + GLITCH_THRESHOLD_US ≤ t ∧ t < last + IDLE_TIMEOUT_US

theorem Between.first {s : Slot} (h : Listening f true edge)
    (hd : GLITCH_THRESHOLD_US ≤ (t - edge) % 2 ^ 32)
    (hp : s.periodUs < IDLE_TIMEOUT_US)
    (hs : GLITCH_THRESHOLD_US ≤ s.lowUs ∧ GLITCH_THRESHOLD_US ≤ s.highUs) :
    ∃ f', f.ingestAll t s.samples = (f', []) ∧
      Between f' t (t + s.periodUs) [s] t (t + s.lowUs) [] := by
  obtain ⟨f₁, e₁, h₁⟩ := h.fall hd s.bit
  obtain ⟨f₂, e₂, h₂⟩ := h₁.rest hp hs.1 hs.2
  refine ⟨f₂, ingestAll_cons e₁ e₂, h₂, ?_, Nat.le_add_right _ _, ?_, Nat.add_lt_add_left hp t⟩
  · rw [Nat.add_sub_cancel_left]
    rfl
  · rw [Slot.periodUs, ← Nat.add_assoc]
    exact Nat.add_le_add_left hs.2 _

/-- One more bit that is not the last. -/
theorem Between.step {s : Slot} {ss : List Slot} (h : Between f start t ss last edge widths)
    (hlen : ss.length < 10) (hp : s.periodUs < IDLE_TIMEOUT_US)
    (hs : GLITCH_THRESHOLD_US ≤ s.lowUs ∧ GLITCH_THRESHOLD_US ≤ s.highUs) :
    ∃ f', f.ingestAll t s.samples = (f', []) ∧
      Between f' start (t + s.periodUs) (ss ++ [s]) t (t + s.lowUs) (ss.map Slot.periodUs) := by
  have hbits : (ss.map Slot.bit).length = ss.length := List.length_map ..
  obtain ⟨g, hg, e₁⟩ := h.frame.fall h.order.1 h.order.2.1 h.order.2.2 (by omega) s.bit
  have hno : ¬ AT_BIT_COUNT ≤ (ss.map Slot.bit).length + 1 := by
    show ¬ 11 ≤ _
    omega
  rw [if_neg hno] at e₁
  rw [h.widths] at hg
  obtain ⟨f₂, e₂, h₂⟩ := hg.rest hp hs.1 hs.2
  refine ⟨f₂, ingestAll_cons e₁ e₂, ?_, ?_, Nat.le_add_right _ _, ?_, Nat.add_lt_add_left hp t⟩
  · rw [List.map_append]
    exact h₂
  · rw [Nat.add_sub_cancel_left, List.map_append]
    rfl
  · rw [Slot.periodUs, ← Nat.add_assoc]
    exact Nat.add_le_add_left hs.2 _

theorem Between.steps (ss' : List Slot) {ss : List Slot} (h : Between f start t ss last edge widths)
    (hlen : ss.length + ss'.length ≤ 10) (hp : ∀ s ∈ ss', s.periodUs < IDLE_TIMEOUT_US)
    (hs : ∀ s ∈ ss', GLITCH_THRESHOLD_US ≤ s.lowUs ∧ GLITCH_THRESHOLD_US ≤ s.highUs) :
    ∃ f' last' edge' widths', f.ingestAll t (ss'.flatMap Slot.samples) = (f', []) ∧
      Between f' start (t + (ss'.flatMap Slot.samples).length) (ss ++ ss') last' edge' widths' := by
  induction ss' generalizing f t ss last edge widths with
  | nil => exact ⟨f, last, edge, widths, rfl, by rwa [List.append_nil]⟩
  | cons s ss' ih =>
    rw [List.length_cons] at hlen
    obtain ⟨f₁, e₁, h₁⟩ := h.step (by omega) (hp s List.mem_cons_self) (hs s List.mem_cons_self)
    have hlen' : (ss ++ [s]).length + ss'.length ≤ 10 := by
      rw [List.length_append, List.length_singleton]
      omega
    obtain ⟨f₂, l, e, ws, e₂, h₂⟩ := ih h₁ hlen' (fun s' h => hp s' (List.mem_cons_of_mem _ h))
      fun s' h => hs s' (List.mem_cons_of_mem _ h)
    have ht : t + s.samples.length = t + s.periodUs := by rw [Slot.length_samples]
    refine ⟨f₂, l, e, ws, ingestAll_trans e₁ ht e₂, ?_⟩
    rw [List.flatMap_cons, List.length_append, ← Nat.add_assoc, ht, List.append_cons]
    exact h₂

/-- The bits of a frame up to the last. -/
theorem Listening.inits {ss : List Slot} (h : Listening f true edge)
    (hd : GLITCH_THRESHOLD_US ≤ (t - edge) % 2 ^ 32)
    (hne : ss ≠ []) (hlen : ss.length ≤ 10) (hp : ∀ s ∈ ss, s.periodUs < IDLE_TIMEOUT_US)
    (hs : ∀ s ∈ ss, GLITCH_THRESHOLD_US ≤ s.lowUs ∧ GLITCH_THRESHOLD_US ≤ s.highUs) :
    ∃ f' last' edge' widths', f.ingestAll t (ss.flatMap Slot.samples) = (f', []) ∧
      Between f' t (t + (ss.flatMap Slot.samples).length) ss last' edge' widths' := by
  obtain ⟨s, ss, rfl⟩ := List.exists_cons_of_ne_nil hne
  obtain ⟨f₁, e₁, h₁⟩ := Between.first h hd (hp s List.mem_cons_self) (hs s List.mem_cons_self)
  have hlen' : [s].length + ss.length ≤ 10 := by
    rw [List.length_cons] at hlen
    rw [List.length_singleton]
    omega
  obtain ⟨f₂, l, e, ws, e₂, h₂⟩ := h₁.steps ss hlen' (fun s' h => hp s' (List.mem_cons_of_mem _ h))
    fun s' h => hs s' (List.mem_cons_of_mem _ h)
  have ht : t + s.samples.length = t + s.periodUs := by rw [Slot.length_samples]
  refine ⟨f₂, l, e, ws, ingestAll_trans e₁ ht e₂, ?_⟩
  rw [List.flatMap_cons, List.length_append, ← Nat.add_assoc, ht]
  exact h₂

theorem bits_cases (sent : Sent) :
    (sent.bits.length = 11 ∧ ∃ start data parity stop, sent = .at_ start data parity stop) ∨
    (sent.bits.length = 9 ∧ sent.bits.getD 0 false = true ∧ ∃ data, sent = .xt data) := by
  cases sent with
  | at_ start data parity stop => exact .inl ⟨rfl, _, _, _, _, rfl⟩
  | xt data => exact .inr ⟨rfl, rfl, data, rfl⟩

theorem length_bits_le (sent : Sent) : 9 ≤ sent.bits.length ∧ sent.bits.length ≤ 11 := by
  rcases bits_cases sent with ⟨h, -⟩ | ⟨h, -⟩ <;> omega

theorem getD_byteBits (b : Byte) (l : List Bool) {i : Nat} (h : i < 8) :
    (byteBits b ++ l).getD i false = b.getLsbD i := by
  have hl : i < (byteBits b).length := by
    rw [byteBits, List.length_map, List.length_range]
    exact h
  rw [List.getD_append _ _ _ _ hl, List.getD_eq_getElem _ _ hl]
  simp only [byteBits, List.getElem_map, List.getElem_range]

/-- The data bits come after the start bit. -/
theorem InFrame.dataBits {b : Byte} {l : List Bool} {start₀ : Bool}
    (h : InFrame f start last edge clk (start₀ :: (byteBits b ++ l)) widths) : f.dataBits = b := by
  refine BitVec.eq_of_getLsbD_eq fun i hi => ?_
  rw [Framer.dataBits, BitVec.getLsbD_setWidth, BitVec.getLsbD_ushiftRight, Nat.add_comm,
    h.assembled, List.getD_cons_succ, getD_byteBits _ _ hi]
  simp [hi]

/-- The frame built from a wave's bits and periods. -/
theorem InFrame.reads {w : Wave} (hw : w.WellTimed)
    (h : InFrame f start last edge clk w.sent.bits (w.init.map Slot.periodUs)) :
    w.Reads start (f.buildFrame w.sent.bits.length) := by
  have hperiods : ∀ k s, w.init[k]? = some s → (f.periodsUs.getD k 0).toNat = s.periodUs := by
    intro k s hk
    obtain ⟨hlt, hs⟩ := List.getElem?_eq_some_iff.mp hk
    have hp : s.periodUs < 200 := hw.periods s (hs ▸ List.getElem_mem hlt)
    have hk' : k < ((w.init.map Slot.periodUs).map (BitVec.ofNat 16)).length := by
      rwa [List.length_map, List.length_map]
    rw [h.periods, List.getD_append _ _ _ _ hk', List.getD_eq_getElem _ _ hk']
    simp only [List.getElem_map, hs, BitVec.toNat_ofNat]
    omega
  cases hsent : w.sent with
  | at_ start₀ data parity stop =>
    rw [hsent] at h
    have hd : f.dataBits = data := InFrame.dataBits (l := [parity, stop]) h
    have hb : ∀ i, f.assembled.getLsbD i =
        (start₀ :: (byteBits data ++ [parity, stop])).getD i false := h.assembled
    refine ⟨?_, h.start, hperiods, h.glitches⟩
    rw [hsent]
    refine ⟨rfl, hd, ?_, ?_⟩
    · show decide ((countOnes f.dataBits + (f.assembled.getLsbD 9).toNat) % 2 = 1) = true ↔ _
      rw [decide_eq_true_eq, hd, hb]
      rfl
    · show (!f.assembled.getLsbD 0 && f.assembled.getLsbD 10) = true ↔ _
      rw [hb, hb]
      show (!start₀ && stop) = true ↔ _
      simp
  | xt data =>
    rw [hsent] at h
    have hd : f.dataBits = data := InFrame.dataBits (l := []) (by rw [List.append_nil]; exact h)
    refine ⟨?_, h.start, hperiods, h.glitches⟩
    rw [hsent]
    exact ⟨rfl, hd, rfl, h.assembled 0⟩

/-- The eleventh bit, and the high phase after it. -/
theorem Between.last_at {s : Slot} {ss : List Slot} (h : Between f start t ss last edge widths)
    (hlen : ss.length = 10) (hh : GLITCH_THRESHOLD_US ≤ s.highUs) :
    ∃ f' g, f.ingestAll t s.samples = (f', [g.buildFrame AT_BIT_COUNT]) ∧
      Listening f' true (t + s.lowUs) ∧
      InFrame g start t t false (ss.map Slot.bit ++ [s.bit]) (ss.map Slot.periodUs) := by
  have hbits : (ss.map Slot.bit).length = 10 := by rw [List.length_map, hlen]
  obtain ⟨g, hg, e₁⟩ := h.frame.fall h.order.1 h.order.2.1 h.order.2.2 hbits.le s.bit
  rw [h.widths] at hg
  rw [hbits, if_pos (Nat.le_refl _)] at e₁
  have hidle : Listening g.resetIdle false t := ⟨rfl, hg.clk, hg.edge⟩
  obtain ⟨f₂, e₂, h₂⟩ := hidle.rest hh
  exact ⟨f₂, g, ingestAll_cons e₁ e₂, h₂, hg⟩

/-- The ninth bit, and the idle time after it. -/
theorem Between.last_xt {s : Slot} {ss : List Slot} (h : Between f start t ss last edge widths)
    (hlen : ss.length = 8) (hp : IDLE_TIMEOUT_US < s.periodUs)
    (hs : GLITCH_THRESHOLD_US ≤ s.lowUs ∧ GLITCH_THRESHOLD_US ≤ s.highUs) :
    ∃ f' g e, f.ingestAll t s.samples = (f', (g.emitOnTimeout XT_BIT_COUNT).toList) ∧
      Listening f' true e ∧
      (e = t + s.lowUs ∧ s.lowUs ≠ IDLE_TIMEOUT_US ∨ e = t ∧ s.lowUs = IDLE_TIMEOUT_US) ∧
      ∃ edge clk,
        InFrame g start t edge clk (ss.map Slot.bit ++ [s.bit]) (ss.map Slot.periodUs) := by
  have hbits : (ss.map Slot.bit).length = 8 := by rw [List.length_map, hlen]
  have h9 : (ss.map Slot.bit ++ [s.bit]).length = XT_BIT_COUNT := by
    rw [List.length_append, hbits, List.length_singleton]
  obtain ⟨g, hg, e₁⟩ := h.frame.fall h.order.1 h.order.2.1 h.order.2.2 (by omega) s.bit
  rw [h.widths] at hg
  rw [hbits, if_neg (by decide)] at e₁
  obtain ⟨f₂, g', e, e₂, h₂, he, hg'⟩ := hg.rest_idle hp hs.1 hs.2
  rw [h9] at e₂
  exact ⟨f₂, g', e, ingestAll_cons e₁ e₂, h₂, he, hg'⟩

/-- The last bit of a frame, and the idle time after it. -/
theorem Between.last_bit {w : Wave} (hw : w.WellTimed)
    (h : Between f start t w.init last edge widths) :
    ∃ f' fr e, f.ingestAll t w.last.samples = (f', [fr]) ∧ w.Reads start fr ∧ Listening f' true e ∧
      (GLITCH_THRESHOLD_US ≤ (t + w.last.periodUs - e) % 2 ^ 32 ↔ w.Separated) := by
  have hbits : w.init.map Slot.bit ++ [w.last.bit] = w.sent.bits := by
    rw [← hw.bits, Wave.slots, List.map_append]
    rfl
  have hs := hw.phases w.last (List.mem_append_right _ (List.mem_singleton_self _))
  have hlen : w.init.length + 1 = w.sent.bits.length := by
    rw [← hbits, List.length_append, List.length_singleton, List.length_map]
  -- the high phase is what is measured, where the rising edge is seen
  have hhigh : GLITCH_THRESHOLD_US ≤ (t + w.last.periodUs - (t + w.last.lowUs)) % 2 ^ 32 := by
    rw [Slot.periodUs, Nat.add_sub_add_left, Nat.add_sub_cancel_left, Nat.mod_eq_of_lt hw.idle]
    exact hs.2
  rcases bits_cases w.sent with ⟨h11, _, _, _, _, hsent⟩ | ⟨h9, h1, data, hsent⟩
  · obtain ⟨f₂, g, e, h₂, hg⟩ := h.last_at (by omega) hs.2
    rw [hbits] at hg
    have hreads := hg.reads hw
    rw [h11] at hreads
    refine ⟨f₂, _, _, e, hreads, h₂, iff_of_true hhigh fun data hxt => ?_⟩
    cases hsent.symm.trans hxt
  · obtain ⟨f₂, g, e, e₂, h₂, he, edge', clk', hg⟩ := h.last_xt (by omega) (hw.alone data hsent) hs
    rw [hbits] at hg
    rw [hg.emitOnTimeout_xt h1] at e₂
    have hreads := hg.reads hw
    rw [h9] at hreads
    refine ⟨f₂, _, e, e₂, hreads, h₂, ?_⟩
    obtain ⟨rfl, hne⟩ | ⟨rfl, h200⟩ := he
    · exact iff_of_true hhigh fun _ _ h200 => absurd h200 hne
    · rw [Nat.add_sub_cancel_left]
      exact ⟨fun h _ _ _ => h, fun h => h data hsent h200⟩

/-- A frame between idle times. -/
theorem Listening.wave {w : Wave} (hw : w.WellTimed) (h : Listening f true edge)
    (hd : GLITCH_THRESHOLD_US ≤ (t - edge) % 2 ^ 32) :
    ∃ f' fr e, f.ingestAll t w.samples = (f', [fr]) ∧ w.Reads t fr ∧ Listening f' true e ∧
      (GLITCH_THRESHOLD_US ≤ (t + w.samples.length - e) % 2 ^ 32 ↔ w.Separated) := by
  have hs := hw.phases
  have hlen : w.init.length + 1 = w.sent.bits.length := by
    rw [← hw.bits, List.length_map, Wave.slots, List.length_append, List.length_singleton]
  have hbound := length_bits_le w.sent
  have hne : w.init ≠ [] := List.ne_nil_of_length_pos (by omega)
  have hmem : ∀ s ∈ w.init, s ∈ w.slots := fun s h => List.mem_append_left _ h
  obtain ⟨f₂, l, e, ws, e₂, h₂⟩ := h.inits hd hne (by omega) hw.periods fun s hm => hs s (hmem s hm)
  obtain ⟨f₃, fr, e', e₃, hr, h₃, he⟩ := h₂.last_bit hw
  have hsamples : w.samples = w.init.flatMap Slot.samples ++ w.last.samples := by
    rw [Wave.samples, Wave.slots, List.flatMap_append, List.flatMap_singleton]
  have hrun := ingestAll_trans e₂ rfl e₃
  rw [← hsamples] at hrun
  rw [← w.last.length_samples, Nat.add_assoc, ← List.length_append, ← hsamples] at he
  exact ⟨f₃, fr, e', hrun, hr, h₃, he⟩

/-! ## A frame whose start is missed -/

/-- No frame that began by time `s` is being received. -/
def Past (f : Framer) (s : Nat) : Prop := f.state = .idle ∨ s < f.frameStartUs

/-- A frame that times out has the start and the timing that were noted. -/
theorem emitOnTimeout_noted {n : Nat} {fr : Ps2Frame} (h : f.emitOnTimeout n = some fr) :
    fr.startTimestampUs = f.frameStartUs ∧ fr.timing = f.timing := by
  rw [emitOnTimeout] at h
  split at h
  · cases h
  split at h
  · cases h
    rw [buildFrame]
    split <;> exact ⟨rfl, rfl⟩
  split at h
  · cases h
    exact ⟨rfl, rfl⟩
  · cases h

/-- Nor does one that began by then end: what a step leaves and gives. -/
def PastStep (s : Nat) (r : Framer × Option Ps2Frame) : Prop :=
  r.1.Past s ∧ ∀ fr ∈ r.2, s < fr.startTimestampUs

theorem Past.quiet {s : Nat} {f' : Framer} (h : f'.Past s) : PastStep s (f', none) :=
  ⟨h, fun _ hfr => by cases hfr⟩

theorem Past.onClkFall {s : Nat} (h : f.Past s) (ht : s < t) (data : Bool) :
    PastStep s (f.onClkFall data t) := by
  rw [Framer.onClkFall]
  split
  · exact Past.quiet (.inr ht)
  · rename_i bits hst
    have hs : s < f.frameStartUs := h.resolve_left (by rw [hst]; exact State.noConfusion)
    dsimp only
    split
    · refine ⟨.inl rfl, fun fr hfr => ?_⟩
      obtain rfl := Option.mem_some_iff.mp hfr
      exact hs
    · exact Past.quiet (.inr hs)

theorem Past.onSample {s : Nat} (h : f.Past s) (ht : s < t) (c data : Bool) :
    PastStep s (f.onSample c data t) := by
  obtain ⟨d, l, e⟩ := f.noteData_eq data t
  simp only [Framer.onSample, e]
  split
  · exact Past.quiet h
  split
  · exact Past.quiet h
  split
  · split <;> exact Past.quiet h
  split
  · exact Past.onClkFall (f :=
      { f with lastDataChangeUs := d, lastData := l, lastClk := some c, lastEdgeUs := t }) h ht data
  · exact Past.quiet h

theorem Past.ingest {s : Nat} (h : f.Past s) (ht : s < t) (c data : Bool) :
    PastStep s (f.ingest c data t) := by
  rw [Framer.ingest]
  split
  · rename_i bits hst
    have hs : s < f.frameStartUs := h.resolve_left (by rw [hst]; exact State.noConfusion)
    split
    · exact ⟨.inl rfl, fun fr hfr => by rwa [(emitOnTimeout_noted hfr).1]⟩
    · exact h.onSample ht c data
  · exact h.onSample ht c data

theorem Past.ingestAll {s : Nat} (ss : List (Bool × Bool)) (h : f.Past s) (ht : s < t) :
    ∀ fr ∈ (f.ingestAll t ss).2, s < fr.startTimestampUs := by
  induction ss generalizing f t with
  | nil => exact fun _ h => absurd h List.not_mem_nil
  | cons x ss ih =>
    obtain ⟨h₁, h₂⟩ := h.ingest ht x.1 x.2
    intro fr hfr
    rw [Framer.ingestAll] at hfr
    rcases List.mem_append.mp hfr with hfr | hfr
    · exact h₂ fr (Option.mem_toList.mp hfr)
    · exact ih h₁ (Nat.lt_succ_of_lt ht) fr hfr

end

end Framer

/-! ## A list of frames -/

open Framer in
/-- The frames that follow are given, and then no others while CLK stays high,
if the framer sees each of them start. -/
theorem Framer.Listening.waves_iff (ws : List Wave) (hw : ∀ w ∈ ws, w.WellTimed) (tail : List Bool)
    {f : Framer} {t edge : Nat} (h : Listening f true edge)
    (hd : GLITCH_THRESHOLD_US ≤ (t - edge) % 2 ^ 32) :
    Wave.Decodes t ws (f.ingestAll t (ws.flatMap Wave.samples ++ tail.map (true, ·))).2 ↔
      ∀ w ∈ ws.dropLast, w.Separated := by
  induction ws generalizing f t edge with
  | nil =>
    obtain ⟨f₁, e₁, -⟩ := h.holds (t := t) tail
    rw [List.flatMap_nil, List.nil_append, e₁]
    exact iff_of_true rfl fun _ hm => absurd hm List.not_mem_nil
  | cons w ws ih =>
    obtain ⟨f₁, fr, e₁, r₁, hr, h₁, hd₁⟩ := h.wave (hw w List.mem_cons_self) hd
    have hws : ∀ w ∈ ws, w.WellTimed := fun w' h => hw w' (List.mem_cons_of_mem _ h)
    have hrun : (f.ingestAll t ((w :: ws).flatMap Wave.samples ++ tail.map (true, ·))).2 =
        fr :: (f₁.ingestAll (t + w.samples.length)
        (ws.flatMap Wave.samples ++ tail.map (true, ·))).2 := by
      rw [List.flatMap_cons, List.append_assoc, ingestAll_append, r₁]
      rfl
    have htail : ∀ fs, Wave.Decodes t (w :: ws) (fr :: fs) ↔
        Wave.Decodes (t + w.samples.length) ws fs := fun fs =>
      ⟨fun ⟨_, _, e, _, hfs⟩ => (List.cons.inj e).2 ▸ hfs, fun hfs => ⟨fr, fs, rfl, hr, hfs⟩⟩
    rw [hrun, htail]
    by_cases hsep : w.Separated
    · rw [ih hws h₁ (hd₁.mpr hsep)]
      cases ws with
      | nil =>
        exact iff_of_true (fun _ hm => absurd hm List.not_mem_nil)
          fun _ hm => absurd hm List.not_mem_nil
      | cons w' ws =>
        rw [List.dropLast_cons_cons, List.forall_mem_cons]
        exact (and_iff_right hsep).symm
    · cases ws with
      | nil =>
        obtain ⟨f₂, e₂, -⟩ := h₁.holds (t := t + w.samples.length) tail
        rw [List.flatMap_nil, List.nil_append, e₂]
        exact iff_of_true rfl fun _ hm => absurd hm List.not_mem_nil
      | cons w' ws =>
        refine iff_of_false ?_
          fun hall => hsep (hall w (by rw [List.dropLast_cons_cons]; exact List.mem_cons_self))
        -- the falling edge that starts the next frame is a glitch, and none starts with it
        obtain ⟨b, ss, hss⟩ := w'.exists_samples
        obtain ⟨f₂, e₂, h₂⟩ := h₁.missed (not_le.mp (mt hd₁.mp hsep)) b
        have hpast :=
          Past.ingestAll (ss ++ (ws.flatMap Wave.samples ++ tail.map (true, ·))) (.inl h₂.state)
          (Nat.lt_succ_self (t + w.samples.length))
        rintro ⟨fr', fs, e, hr', -⟩
        rw [List.flatMap_cons, hss, List.append_assoc, List.cons_append,
          Framer.ingestAll_cons e₂ rfl] at e
        have hmem :
            fr' ∈ (f₂.ingestAll (t + w.samples.length + 1)
            (ss ++ (ws.flatMap Wave.samples ++ tail.map (true, ·)))).2 := by
          have e' : _ = fr' :: fs := e
          rw [Option.toList_none, List.nil_append] at e'
          rw [e']
          exact List.mem_cons_self
        exact Nat.lt_irrefl _ (hr'.start ▸ hpast fr' hmem)

/-- CLK high from the start on. -/
theorem listening_idle {idle : List Bool} (h : idle ≠ []) :
    ∃ f, Framer.new.ingestAll 0 (idle.map (true, ·)) = (f, []) ∧ f.Listening true 0 := by
  obtain ⟨d, ds, rfl⟩ := List.exists_cons_of_ne_nil h
  -- the first sample sets the level of CLK
  obtain ⟨f₀, e₀, h₀⟩ : ∃ f₀, Framer.new.ingest true d 0 = (f₀, none) ∧ f₀.Listening true 0 := by
    cases d with
    | false => exact ⟨_, rfl, rfl, rfl, rfl⟩
    | true => exact ⟨_, rfl, rfl, rfl, rfl⟩
  obtain ⟨f₁, e₁, h₁⟩ := h₀.holds (t := 0 + 1) ds
  exact ⟨f₁, Framer.ingestAll_cons e₀ e₁, h₁⟩

theorem ingestAll_idle {idle : List Bool} (h : idle ≠ []) (ss : List (Bool × Bool)) :
    ∃ f : Framer, f.Listening true 0 ∧
      (Framer.new.ingestAll 0 (idle.map (true, ·) ++ ss)).2 = (f.ingestAll idle.length ss).2 := by
  obtain ⟨f, e, hf⟩ := listening_idle h
  refine ⟨f, hf, ?_⟩
  rw [Framer.ingestAll_append, e, List.length_map, Nat.zero_add, List.nil_append]

/-- The framer gives exactly the frames of a waveform, in which CLK is high for
4 us at least, then the frames follow, then CLK stays high, if and only if no
frame starts with what it takes for a glitch. -/
theorem decodes_iff (idle : List Bool) (hidle : GLITCH_THRESHOLD_US ≤ idle.length)
    (hlt : idle.length < 2 ^ 32) (ws : List Wave) (hw : ∀ w ∈ ws, w.WellTimed) (tail : List Bool) :
    Wave.Decodes idle.length ws
      (Framer.new.ingestAll 0
        (idle.map (true, ·) ++ (ws.flatMap Wave.samples ++ tail.map (true, ·)))).2 ↔
    ∀ w ∈ ws.dropLast, w.Separated := by
  obtain ⟨f, hf, e⟩ :=
    ingestAll_idle (List.ne_nil_of_length_pos (Nat.lt_of_lt_of_le (by decide) hidle))
    (ws.flatMap Wave.samples ++ tail.map (true, ·))
  rw [e]
  refine hf.waves_iff ws hw tail ?_
  rwa [Nat.sub_zero, Nat.mod_eq_of_lt hlt]

/-- A bit with phases of 40 us. -/
def evenSlot (b : Bool) : Slot := ⟨b, List.replicate 39 b, List.replicate 40 b⟩

/-- A frame with such bits, and idle time after it. -/
def evenWave (sent : Sent) (idle : Nat) : Wave where
  sent := sent
  init := sent.bits.dropLast.map evenSlot
  last := ⟨sent.bits.getLastD false, List.replicate 39 true, List.replicate idle true⟩

theorem evenWave_wellTimed (sent : Sent) {idle : Nat} (h : 161 ≤ idle) (hlt : idle < 2 ^ 32) :
    (evenWave sent idle).WellTimed where
  bits := by
    have hne : sent.bits ≠ [] := by
      cases sent <;> exact List.cons_ne_nil _ _
    rw [Wave.slots, List.map_append, evenWave, List.map_map]
    show sent.bits.dropLast.map id ++ [sent.bits.getLastD false] = _
    rw [List.map_id, List.getLastD_eq_getLast?, List.getLast?_eq_some_getLast hne]
    exact List.dropLast_append_getLast hne
  phases s hs := by
    rcases List.mem_append.mp hs with hs | hs
    · obtain ⟨b, -, rfl⟩ := List.mem_map.mp hs
      simp [evenSlot, Slot.lowUs, Slot.highUs, GLITCH_THRESHOLD_US]
    · rw [List.mem_singleton.mp hs]
      simp only [evenWave, Slot.lowUs, Slot.highUs, List.length_replicate, GLITCH_THRESHOLD_US]
      omega
  periods s hs := by
    obtain ⟨b, -, rfl⟩ := List.mem_map.mp hs
    simp [evenSlot, Slot.periodUs, Slot.lowUs, Slot.highUs, IDLE_TIMEOUT_US]
  idle := by
    rwa [evenWave, Slot.highUs, List.length_replicate]
  alone _ _ := by
    simp only [evenWave, Slot.periodUs, Slot.lowUs, Slot.highUs, List.length_replicate,
      IDLE_TIMEOUT_US]
    omega

theorem evenWave_separated (sent : Sent)
    (idle : Nat) : (evenWave sent idle).Separated := fun _ _ h200 =>
  absurd h200 (by simp only [evenWave, Slot.lowUs, List.length_replicate, IDLE_TIMEOUT_US]; decide)

theorem decodes_iff_reply :
    Wave.Decodes 100 [evenWave (.at_ false 0xFA true true) 250, evenWave (.xt 0x1C) 250]
    (Framer.new.ingestAll 0 ((List.replicate 100 true).map (true, ·) ++
      ([evenWave (.at_ false 0xFA true true) 250, evenWave (.xt 0x1C) 250].flatMap Wave.samples ++
        [].map (true, ·)))).2 :=
  (decodes_iff (List.replicate 100 true) (by decide) (by decide) _
    (List.forall_mem_cons.mpr ⟨evenWave_wellTimed _ (by decide) (by decide),
      List.forall_mem_singleton.mpr (evenWave_wellTimed _ (by decide) (by decide))⟩) []).mpr
    (List.forall_mem_singleton.mpr (evenWave_separated _ _))

/-- An XT frame whose last low phase ends with the timeout. -/
def edgeMissed (idle : Nat) : Wave :=
  { evenWave (.xt 0x1C) 0 with last := ⟨false, List.replicate 199 true, List.replicate idle true⟩ }

theorem edgeMissed_wellTimed {idle : Nat} (h : GLITCH_THRESHOLD_US ≤ idle) (hlt : idle < 2 ^ 32) :
    (edgeMissed idle).WellTimed where
  bits := rfl
  phases s hs := by
    rcases List.mem_append.mp hs with hs | hs
    · exact (evenWave_wellTimed (.xt 0x1C) (show 161 ≤ 161 by decide) (by decide)).phases s
        (List.mem_append_left _ hs)
    · rw [List.mem_singleton.mp hs]
      refine ⟨?_, ?_⟩
      · rw [edgeMissed, Slot.lowUs, List.length_replicate]
        decide
      · rwa [edgeMissed, Slot.highUs, List.length_replicate]
  periods := (evenWave_wellTimed (.xt 0x1C) (show 161 ≤ 161 by decide) (by decide)).periods
  idle := by rwa [edgeMissed, Slot.highUs, List.length_replicate]
  alone _ _ := by
    rw [edgeMissed, Slot.periodUs, Slot.lowUs, Slot.highUs, List.length_replicate,
      List.length_replicate]
    exact Nat.lt_add_of_pos_right (Nat.lt_of_lt_of_le (by decide) h)

theorem edgeMissed_periodUs (idle : Nat) : (edgeMissed idle).last.periodUs = 200 + idle := by
  rw [edgeMissed, Slot.periodUs, Slot.lowUs, Slot.highUs, List.length_replicate,
    List.length_replicate]

/-- The frame after it is lost where the next falling edge comes 2^32 us after
its last. -/
theorem edgeMissed_loses : ¬ ∀ (idle : List Bool) (ws : List Wave) (tail : List Bool),
    GLITCH_THRESHOLD_US ≤ idle.length → idle.length < 2 ^ 32 → (∀ w ∈ ws, w.WellTimed) →
      Wave.Decodes idle.length ws
      (Framer.new.ingestAll 0
        (idle.map (true, ·) ++ (ws.flatMap Wave.samples ++ tail.map (true, ·)))).2 := by
  intro h
  obtain ⟨gap, hgap⟩ : ∃ gap, gap = 2 ^ 32 - 200 := ⟨_, rfl⟩
  have hw : ∀ w ∈ [edgeMissed gap, evenWave (.xt 0x1C) 250], w.WellTimed := List.forall_mem_cons.mpr
    ⟨edgeMissed_wellTimed (hgap ▸ by decide) (hgap ▸ by decide),
      List.forall_mem_singleton.mpr (evenWave_wellTimed _ (by decide) (by decide))⟩
  have hdec := h (List.replicate 100 true) _ [] (by decide) (by decide) hw
  obtain ⟨f, hf, e⟩ := ingestAll_idle (show List.replicate 100 true ≠ [] by decide)
    ([edgeMissed gap, evenWave (.xt 0x1C) 250].flatMap Wave.samples ++ [].map (true, ·))
  rw [e, hf.waves_iff _ hw [] (by decide)] at hdec
  have hsep := hdec (edgeMissed gap) List.mem_cons_self 0x1C rfl
    (by rw [edgeMissed, Slot.lowUs, List.length_replicate])
  rw [edgeMissed_periodUs, hgap] at hsep
  exact absurd hsep (by decide)

end VintageKvm.Ps2
