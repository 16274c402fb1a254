import VintageKvm.Ps2.Waveform

/-!
# The framer on any samples

Samples here have any levels and any timestamps, in order or not. What one
sample does is one of three things (`ingested`): a timeout, a falling edge
used as a bit, or neither. `Holds` is the invariant: the bits of the frame
being received, none between frames. From it:

* `ingests_safe`: no operation of `ingest` overflows, and what is true of
  every state and of every frame emitted;
* `uses_iff`: which falling edges of CLK are used as a bit.
-/

namespace VintageKvm.Ps2

/-- A sample of CLK and DATA, and its timestamp. -/
structure Sample where
  clk : Bool
  data : Bool
  tUs : Nat
  deriving DecidableEq, Repr

namespace Framer

def ingestSample (f : Framer) (s : Sample) : Framer × Option Ps2Frame := f.ingest s.clk s.data s.tUs

/-- The framer after samples. -/
def ingests (ss : List Sample) : Framer := ss.foldl (fun f s => (f.ingestSample s).1) .new

/-! ## What one sample does -/

/-- The frame being received has timed out. -/
def TimesOut (f : Framer) (tUs : Nat) : Prop :=
  f.state ≠ .idle ∧ IDLE_TIMEOUT_US ≤ (tUs - f.lastFallingUs) % 2 ^ 32

instance (f : Framer) (tUs : Nat) : Decidable (f.TimesOut tUs) :=
  inferInstanceAs (Decidable (_ ∧ _))

/-- A falling edge that the framer takes for a bit. -/
def Falls (f : Framer) (s : Sample) : Prop :=
  ¬ f.TimesOut s.tUs ∧ f.lastClk = some true ∧ s.clk = false ∧
    GLITCH_THRESHOLD_US ≤ (s.tUs - f.lastEdgeUs) % 2 ^ 32

instance (f : Framer) (s : Sample) : Decidable (f.Falls s) := inferInstanceAs (Decidable (_ ∧ _))

/-- What `ingest` can do with a sample. `d` and `l` are what it notes of
DATA. -/
inductive Ingested (f : Framer) (s : Sample) : Framer × Option Ps2Frame → Prop where
  | timeout {bits : Nat} (late : f.TimesOut s.tUs) (state : f.state = .receiving bits) :
    Ingested f s ({ f.resetIdle with lastClk := some s.clk, lastData := some s.data },
      f.emitOnTimeout bits)
  | fall {d : Nat} {l : Option Bool} (change : d = f.lastDataChangeUs ∨ d = s.tUs)
    (falls : f.Falls s) : Ingested f s (onClkFall { f with
      lastDataChangeUs := d, lastData := l, lastClk := some s.clk,
      lastEdgeUs := s.tUs } s.data s.tUs)
  | rest {d : Nat} {l : Option Bool}
    {edge glitches : Nat} (change : d = f.lastDataChangeUs ∨ d = s.tUs)
      (waits : ¬ f.TimesOut s.tUs) (stays : ¬ f.Falls s)
      (edge_eq : edge = if f.lastClk = some !s.clk then s.tUs else f.lastEdgeUs) :
    Ingested f s ({ f with
      lastDataChangeUs := d, lastData := l, lastClk := some s.clk, lastEdgeUs := edge,
      glitchCount := glitches }, none)

variable {f : Framer} {s : Sample} {bits : List Bool}

theorem noteData_change (f : Framer) (data : Bool) (t : Nat) :
    ∃ d l, (d = f.lastDataChangeUs ∨ d = t) ∧
      f.noteData data t = { f with lastDataChangeUs := d, lastData := l } := by
  rw [noteData]
  split
  · exact ⟨_, _, .inr rfl, rfl⟩
  · exact ⟨f.lastDataChangeUs, f.lastData, .inl rfl, rfl⟩

theorem onSample_ingested (hw : ¬ f.TimesOut s.tUs) :
    Ingested f s (f.onSample s.clk s.data s.tUs) := by
  obtain ⟨d, l, hd, hnote⟩ := f.noteData_change s.data s.tUs
  -- without an edge nothing but DATA is noted
  have hsame (hne : f.lastClk ≠ some !s.clk) :
      Ingested f s ({ f with lastDataChangeUs := d, lastData := l, lastClk := some s.clk }, none) :=
    .rest hd hw (fun h => hne (by rw [h.2.1, h.2.2.1]; rfl)) (if_neg hne).symm
  have hedge (he : f.lastClk = some !s.clk) (hs : ¬ f.Falls s) (glitches : Nat) :
    Ingested f s ({ f with
      lastDataChangeUs := d, lastData := l, lastClk := some s.clk, lastEdgeUs := s.tUs,
      glitchCount := glitches }, none) :=
    .rest hd hw hs (if_pos he).symm
  simp only [onSample, hnote]
  cases h : f.lastClk with
  | none => exact hsame (by rw [h]; exact (Option.some_ne_none _).symm)
  | some prev =>
    by_cases he : prev = s.clk
    · simp only [if_pos he]
      exact hsame (by rw [h, he]; cases s.clk <;> decide)
    · have hprev : f.lastClk = some !s.clk := by
        rw [h, Bool.eq_not.mpr he]
      simp only [if_neg he]
      by_cases hshort : (s.tUs - f.lastEdgeUs) % 2 ^ 32 < GLITCH_THRESHOLD_US
      · rw [if_pos hshort]
        have hstays : ¬ f.Falls s := fun h => absurd h.2.2.2 (Nat.not_le.mpr hshort)
        split
        · exact hedge hprev hstays _
        · exact hedge hprev hstays _
      · rw [if_neg hshort]
        by_cases hfall : (prev && !s.clk) = true
        · rw [if_pos hfall]
          obtain ⟨hp, hc⟩ := Bool.and_eq_true_iff.mp hfall
          exact .fall hd ⟨hw, h.trans (by rw [hp]), by simpa using hc, Nat.not_lt.mp hshort⟩
        · rw [if_neg hfall]
          refine hedge hprev (fun hf => hfall ?_) _
          rw [Option.some.inj (h.symm.trans hf.2.1), hf.2.2.1]
          rfl

theorem ingested (f : Framer) (s : Sample) : Ingested f s (f.ingestSample s) := by
  rw [ingestSample, ingest]
  split
  next bits hs =>
    split
    next hlate => exact .timeout ⟨by rw [hs]; exact State.noConfusion, hlate⟩ hs
    next hw => exact onSample_ingested fun h => hw h.2
  next hs => exact onSample_ingested fun h => h.1 hs

/-- A sample like the last, before a timeout. -/
theorem ingest_still {clk data : Bool} {t : Nat} (hclk : f.lastClk = some clk)
    (hdata : f.lastData = some data) (hw : ¬ f.TimesOut t) : f.ingest clk data t = (f, none) := by
  have hsample : f.onSample clk data t = (f, none) := by
    simp only [onSample, noteData, hdata, ne_eq, not_true_eq_false, ↓reduceIte, hclk]
    rw [← hclk, ← hdata]
  unfold ingest
  split
  next bits hs => rw [if_neg fun hlate => hw ⟨by rw [hs]; exact State.noConfusion, hlate⟩, hsample]
  next => exact hsample

/-- A bit leaves alone what the framer knows of the lines. -/
theorem onClkFall_keeps (f : Framer) (data : Bool) (t : Nat) :
    (f.onClkFall data t).1.lastClk = f.lastClk ∧
    (f.onClkFall data t).1.lastEdgeUs = f.lastEdgeUs ∧
      (f.onClkFall data t).1.lastDataChangeUs = f.lastDataChangeUs := by
  unfold onClkFall
  split
  · exact ⟨rfl, rfl, rfl⟩
  · dsimp only
    split <;> exact ⟨rfl, rfl, rfl⟩

theorem ingest_lastClk (f : Framer) (clk data : Bool) (t : Nat) :
    (f.ingest clk data t).1.lastClk = some clk := by
  have hf := ingested f ⟨clk, data, t⟩
  rw [ingestSample] at hf
  generalize f.ingest clk data t = x at hf ⊢
  cases hf with
  | timeout _ _ => rfl
  | fall _ _ => exact (onClkFall_keeps _ _ _).1
  | rest _ _ _ _ => rfl

/-! ## The bits of the frame being received -/

/-- The framer holds the bits of a frame, none between frames. -/
structure Holds (f : Framer) (bits : List Bool) : Prop where
  state : f.state = if bits = [] then .idle else .receiving bits.length
  short : bits.length ≤ 10
  assembled : ∀ i, f.assembled.getLsbD i = bits.getD i false
  periods : f.periodsUs.length = 11 ∧ (bits = [] → f.periodsUs = List.replicate 11 0)

/-- The bits held with those of a sample. -/
def collect (f : Framer) (bits : List Bool) (s : Sample) : List Bool :=
  if f.Falls s then bits ++ [s.data] else bits

theorem Holds.idle (h : Holds f bits) : f.state = .idle ↔ bits = [] := by
  rw [h.state]
  split
  next hb => exact iff_of_true rfl hb
  next hb => exact iff_of_false State.noConfusion hb

theorem Holds.receiving (h : Holds f bits) {n : Nat} (hs : f.state = .receiving n) :
    n = bits.length ∧ bits ≠ [] := by
  rw [h.state] at hs
  split at hs
  next => cases hs
  next hb => exact ⟨(State.receiving.inj hs).symm, hb⟩

theorem holds_new : Holds .new [] :=
  ⟨rfl, Nat.zero_le _, fun _ => BitVec.getLsbD_zero, rfl, fun _ => rfl⟩

theorem holds_resetIdle (f : Framer) : Holds f.resetIdle [] :=
  ⟨rfl, Nat.zero_le _, fun _ => BitVec.getLsbD_zero, rfl, fun _ => rfl⟩

theorem Holds.assembled_lt (h : Holds f bits) : f.assembled.toNat < 2 ^ bits.length := by
  refine Nat.lt_pow_two_of_testBit _ fun i hi => ?_
  rw [BitVec.testBit_toNat, h.assembled, List.getD_eq_default _ _ hi]

/-- What a bit does to the bits held. -/
theorem Holds.fall (h : Holds f bits) (data : Bool) (t : Nat) :
    ∃ g, g.state = .receiving (bits.length + 1) ∧ g.lastFallingUs = t ∧
      (∀ i, g.assembled.getLsbD i = (bits ++ [data]).getD i false) ∧ g.periodsUs.length = 11 ∧
      f.onClkFall data t = if AT_BIT_COUNT ≤ bits.length + 1 then
        (g.resetIdle, some (g.buildFrame AT_BIT_COUNT)) else (g, none) := by
  unfold Framer.onClkFall
  split
  next hs =>
    obtain rfl := h.idle.mp hs
    refine ⟨_, rfl, rfl, fun i => ?_, List.length_replicate, rfl⟩
    rw [getLsbD_ofBool]
    cases i with
    | zero => rfl
    | succ i => rfl
  next n hs =>
    obtain ⟨rfl, hb⟩ := h.receiving hs
    have hlen : f.periodsUs.length = 11 := h.periods.1
    have hshort := h.short
    have hn : 0 < bits.length := List.length_pos_iff.mpr hb
    refine ⟨_, rfl, rfl, fun i => ?_, ?_, rfl⟩
    · exact getLsbD_or_bit h.assembled (by omega) data i
    · show (if bits.length ≤ f.periodsUs.length then f.periodsUs.set _ _
        else f.periodsUs).length = 11
      split
      · rw [List.length_set, hlen]
      · exact hlen

/-- The bits held after a sample. -/
def kept (f : Framer) (bits : List Bool) (s : Sample) : List Bool :=
  if (f.ingestSample s).1.state = .idle then [] else f.collect bits s

/-- A frame emitted: what it says about the bits collected. -/
structure Emits (bits : List Bool) (frame : Ps2Frame) : Prop where
  xt : frame.kind = .xt → bits.head? = some true ∧ bits.length = XT_BIT_COUNT
  at_ : frame.kind = .at_ → bits.length = AT_BIT_COUNT
  invalid : frame.kind = .invalid → frame.parityOk = false ∧ frame.framingOk = false

theorem Holds.expired (h : Holds f bits) {n : Nat} {frame : Ps2Frame} (hn : n = bits.length)
    (he : f.emitOnTimeout n = some frame) : Emits bits frame ∧ frame.kind ≠ .at_ := by
  unfold Framer.emitOnTimeout at he
  split at he
  next => cases he
  next =>
    split at he
    next hx =>
      obtain rfl := Option.some.inj he
      refine ⟨⟨fun _ => ⟨?_, hn ▸ hx.1⟩, nofun, nofun⟩, nofun⟩
      have h0 := (h.assembled 0).symm.trans hx.2
      cases bits with
      | nil => cases h0
      | cons b bits => exact congrArg some h0
    next =>
      split at he
      next =>
        obtain rfl := Option.some.inj he
        exact ⟨⟨nofun, nofun, fun _ => ⟨rfl, rfl⟩⟩, nofun⟩
      next => cases he

/-- One sample: the bits held after it, and a frame that it emits. -/
theorem Holds.step (h : Holds f bits) (s : Sample) : Holds (f.ingestSample s).1 (f.kept bits s) ∧
    ∀ frame, (f.ingestSample s).2 = some frame →
      (f.ingestSample s).1.state = .idle ∧ Emits (f.collect bits s) frame := by
  have hi := f.ingested s
  unfold kept collect
  generalize f.ingestSample s = r at hi ⊢
  cases hi with
  | timeout late state =>
    refine ⟨?_, fun frame hf => ⟨rfl, ?_⟩⟩
    · show Holds _ (if State.idle = .idle then [] else _)
      exact ⟨rfl, Nat.zero_le _, fun _ => BitVec.getLsbD_zero, rfl, fun _ => rfl⟩
    · rw [if_neg fun hfall => hfall.1 late]
      exact (h.expired (h.receiving state).1 hf).1
  | @fall d l change falls =>
    rw [if_pos falls]
    have hd : Holds { f with
      lastDataChangeUs := d, lastData := l, lastClk := some s.clk, lastEdgeUs := s.tUs } bits :=
        ⟨h.state, h.short, h.assembled, h.periods⟩
    obtain ⟨g, hstate, -, hasm, hper, e⟩ := hd.fall s.data s.tUs
    rw [e]
    split
    next h11 =>
      have hlen : (bits ++ [s.data]).length = 11 := by
        have := h.short
        rw [List.length_append, List.length_singleton]
        exact Nat.le_antisymm (Nat.succ_le_succ this) h11
      refine ⟨?_, fun frame hf => ⟨rfl, ?_⟩⟩
      · show Holds _ (if State.idle = .idle then [] else _)
        exact holds_resetIdle g
      · obtain rfl := Option.some.inj hf
        exact ⟨nofun, fun _ => hlen, nofun⟩
    next h11 =>
      refine ⟨?_, nofun⟩
      rw [if_neg (by rw [hstate]; nofun)]
      have hne : bits ++ [s.data] ≠ [] :=
        List.append_ne_nil_of_right_ne_nil _ (List.cons_ne_nil _ _)
      refine ⟨?_, ?_, hasm, hper, fun h => absurd h hne⟩
      · rw [if_neg hne, hstate, List.length_append, List.length_singleton]
      · rw [List.length_append, List.length_singleton]
        exact Nat.le_of_lt_succ (Nat.not_le.mp h11)
  | rest change waits stays edge_eq =>
    refine ⟨?_, nofun⟩
    rw [if_neg stays]
    have hk : (if f.state = .idle then [] else bits) = bits := by
      split
      next hs => exact (h.idle.mp hs).symm
      next => rfl
    show Holds _ (if f.state = .idle then [] else bits)
    rw [hk]
    exact ⟨h.state, h.short, h.assembled, h.periods⟩

/-! ## Operations that can panic -/

/-- `u8` addition and subtraction, `u16` shift, `i64` subtraction and the
store to an array: `none` where the source panics. -/
def addU8 (a b : Nat) : Option Nat := if a + b < 2 ^ 8 then some (a + b) else none

def subU8 (a b : Nat) : Option Nat := if b ≤ a then some (a - b) else none

def shlU16 (x : Word) (n : Nat) : Option Word := if n < 16 then some (x <<< n) else none

def subI64 (a b : Int) : Option Int :=
  if -2 ^ 63 ≤ a - b ∧ a - b < 2 ^ 63 then some (a - b) else none

def store (xs : List Word) (i : Nat) (x : Word) : Option (List Word) :=
  if i < xs.length then some (xs.set i x) else none

/-- `as i64`. -/
def asI64 (t : Nat) : Int := (BitVec.ofNat 64 t).toInt

/-- `build_frame`, `on_clk_fall`, `emit_on_timeout` and `ingest`, with the
checks of their arithmetic. -/
def buildFrame? (f : Framer) (totalBits : Nat) : Option Ps2Frame := do
  if totalBits = AT_BIT_COUNT then
    let ones ← addU8 (countOnes f.dataBits) (f.assembled.getLsbD 9).toNat
    some { f.buildFrame totalBits with parityOk := ones % 2 = 1 }
  else some (f.buildFrame totalBits)

def onClkFall? (f : Framer) (data : Bool) (tUs : Nat) : Option (Framer × Option Ps2Frame) :=
  match f.state with
  | .idle => do
    let skewUs ← subI64 (asI64 tUs) (asI64 f.lastDataChangeUs)
    some ({ f with
      assembled := BitVec.ofNat 16 data.toNat
      frameStartUs := tUs
      lastFallingUs := tUs
      periodsUs := List.replicate 11 0
      glitchCount := 0
      clkDataSkewUs := clampI8 skewUs
      state := .receiving 1 }, none)
  | .receiving bits => do
    let periodUs : Word := BitVec.ofNat 16 (tUs - f.lastFallingUs)
    let periodsUs ← if bits ≤ f.periodsUs.length then do store f.periodsUs (← subU8 bits 1) periodUs
      else some f.periodsUs
    let bit ← shlU16 (BitVec.ofNat 16 data.toNat) bits
    let bits ← addU8 bits 1
    let f := { f with
      periodsUs := periodsUs
      lastFallingUs := tUs
      assembled := f.assembled ||| bit
      state := .receiving bits }
    if AT_BIT_COUNT ≤ bits then do some (f.resetIdle, some (← f.buildFrame? AT_BIT_COUNT))
    else some (f, none)

def emitOnTimeout? (f : Framer) (bits : Nat) : Option (Option Ps2Frame) := do
  if AT_BIT_COUNT ≤ bits then some none
  else if bits = XT_BIT_COUNT ∧ f.assembled.getLsbD 0 then
    some (some (← f.buildFrame? XT_BIT_COUNT))
  else if 0 < bits then some (some f.buildFrameInvalid)
  else some none

def onSample? (f : Framer) (clk data : Bool) (tUs : Nat) : Option (Framer × Option Ps2Frame) :=
  let f := f.noteData data tUs
  let prevClk := f.lastClk
  let f := { f with lastClk := some clk }
  match prevClk with
  | none => some (f, none)
  | some prevLevel =>
    if prevLevel = clk then some (f, none)
    else
      let durUs := (tUs - f.lastEdgeUs) % 2 ^ 32
      let f := { f with lastEdgeUs := tUs }
      if durUs < GLITCH_THRESHOLD_US then
        match f.state with
        | .receiving _ => some ({ f with glitchCount := min 255 (f.glitchCount + 1) }, none)
        | .idle => some (f, none)
      else if prevLevel && !clk then f.onClkFall? data tUs
      else some (f, none)

def ingest? (f : Framer) (s : Sample) : Option (Framer × Option Ps2Frame) :=
  match f.state with
  | .receiving bits =>
    if IDLE_TIMEOUT_US ≤ (s.tUs - f.lastFallingUs) % 2 ^ 32 then do
      let frame ← f.emitOnTimeout? bits
      some ({ f.resetIdle with lastClk := some s.clk, lastData := some s.data }, frame)
    else f.onSample? s.clk s.data s.tUs
  | .idle => f.onSample? s.clk s.data s.tUs

/-- The framer after samples, where none of them panics. -/
def ingests? (ss : List Sample) : Option Framer :=
  ss.foldlM (fun f s => (f.ingest? s).map Prod.fst) .new

theorem countOnes_le (b : Byte) : countOnes b ≤ 8 := List.countP_le_length

theorem buildFrame?_eq (f : Framer) (n : Nat) : f.buildFrame? n = some (f.buildFrame n) := by
  unfold buildFrame?
  split
  next hn =>
    have h9 : countOnes f.dataBits + (f.assembled.getLsbD 9).toNat < 2 ^ 8 := by
      have := countOnes_le f.dataBits
      have := Bool.toNat_le (f.assembled.getLsbD 9)
      omega
    rw [addU8, if_pos h9, buildFrame, if_pos hn]
    rfl
  next => rfl

theorem emitOnTimeout?_eq (f : Framer) (n : Nat) :
    f.emitOnTimeout? n = some (f.emitOnTimeout n) := by
  unfold emitOnTimeout? emitOnTimeout
  rw [buildFrame?_eq]
  split
  · rfl
  · split
    · rfl
    · split <;> rfl

theorem subI64_asI64 {a b : Nat} (ha : a < 2 ^ 63) (hb : b < 2 ^ 63) :
    subI64 (asI64 a) (asI64 b) = some (BitVec.ofNat 64 a - BitVec.ofNat 64 b).toInt := by
  have hi : ∀ n < 2 ^ 63, (BitVec.ofNat 64 n).toInt = n := fun n hn => by
    rw [BitVec.toInt_ofNat', Int.bmod_eq_of_le (by omega) (by omega)]
  rw [subI64, asI64, asI64, BitVec.toInt_sub, hi a ha, hi b hb, if_pos (by omega),
    Int.bmod_eq_of_le (by omega) (by omega)]

theorem Holds.onClkFall?_eq (h : Holds f bits) (data : Bool) {t : Nat} (ht : t < 2 ^ 63)
    (hd : f.lastDataChangeUs < 2 ^ 63) : f.onClkFall? data t = some (f.onClkFall data t) := by
  unfold onClkFall? Framer.onClkFall
  cases hs : f.state with
  | idle => simp only [subI64_asI64 ht hd, Option.bind_eq_bind, Option.bind_some]
  | receiving n =>
    obtain ⟨rfl, hb⟩ := h.receiving hs
    have hn : 0 < bits.length := List.length_pos_iff.mpr hb
    have hlen := h.periods.1
    have hshort := h.short
    have hsub : subU8 bits.length 1 = some (bits.length - 1) := if_pos hn
    have hstore (x : Word) :
        store f.periodsUs (bits.length - 1) x = some (f.periodsUs.set (bits.length - 1) x) :=
      if_pos (by omega)
    have hshl (x : Word) : shlU16 x bits.length = some (x <<< bits.length) := if_pos (by omega)
    have hadd : addU8 bits.length 1 = some (bits.length + 1) := if_pos (by omega)
    have hle : bits.length ≤ f.periodsUs.length := by omega
    simp only [if_pos hle, hsub, hstore, hshl, hadd, Option.bind_eq_bind, Option.bind_some,
      buildFrame?_eq]
    split <;> rfl

theorem Holds.onSample?_eq (h : Holds f bits) (ht : s.tUs < 2 ^ 63)
    (hd : f.lastDataChangeUs < 2 ^ 63) :
    f.onSample? s.clk s.data s.tUs = some (f.onSample s.clk s.data s.tUs) := by
  obtain ⟨d, l, hc, hnote⟩ := f.noteData_change s.data s.tUs
  have hg : Holds { f with
      lastDataChangeUs := d, lastData := l, lastClk := some s.clk, lastEdgeUs := s.tUs } bits :=
    ⟨h.state, h.short, h.assembled, h.periods⟩
  have hfall := hg.onClkFall?_eq s.data ht (by rcases hc with rfl | rfl <;> assumption)
  simp only [onSample?, onSample, hnote, hfall]
  cases f.lastClk with
  | none => rfl
  | some prev =>
    dsimp only
    split
    · rfl
    · split
      · cases f.state <;> rfl
      · split <;> rfl

theorem Holds.ingest?_eq (h : Holds f bits) (ht : s.tUs < 2 ^ 63)
    (hd : f.lastDataChangeUs < 2 ^ 63) : f.ingest? s = some (f.ingestSample s) := by
  unfold ingest? ingestSample ingest
  cases f.state with
  | receiving n =>
    simp only [emitOnTimeout?_eq, h.onSample?_eq ht hd]
    split <;> rfl
  | idle => exact h.onSample?_eq ht hd

theorem ingestSample_lastDataChangeUs (f : Framer) (s : Sample) :
    (f.ingestSample s).1.lastDataChangeUs = f.lastDataChangeUs ∨
      (f.ingestSample s).1.lastDataChangeUs = s.tUs := by
  have hi := f.ingested s
  generalize f.ingestSample s = r at hi ⊢
  cases hi with
  | timeout => exact .inl rfl
  | fall change =>
    obtain ⟨-, -, hkept⟩ := onClkFall_keeps _ s.data s.tUs
    rw [hkept]
    exact change
  | rest change => exact change

/-! ## Every state and every frame -/

/-- The framer after samples, and the bits it holds. -/
def watch (ss : List Sample) : Framer × List Bool :=
  ss.foldl (fun (f, bits) s => ((f.ingestSample s).1, f.kept bits s)) (.new, [])

/-- The bits of the frame being received after samples. -/
def held (ss : List Sample) : List Bool := (watch ss).2

structure Sound (f : Framer) : Prop where
  receiving : ∀ n, f.state = .receiving n → 1 ≤ n ∧ n ≤ 10 ∧ f.assembled.toNat < 2 ^ n
  idle : f.state = .idle → f.assembled = 0 ∧ f.periodsUs = List.replicate 11 0

theorem ingests_concat (ss : List Sample) (s : Sample) :
    ingests (ss ++ [s]) = ((ingests ss).ingestSample s).1 := by
  rw [ingests, List.foldl_concat]
  rfl

theorem watch_concat (ss : List Sample) (s : Sample) :
    watch (ss ++ [s]) = (((watch ss).1.ingestSample s).1, (watch ss).1.kept (watch ss).2 s) := by
  rw [watch, List.foldl_concat]
  rfl

theorem watch_fst (ss : List Sample) : (watch ss).1 = ingests ss := by
  induction ss using List.reverseRecOn with
  | nil => rfl
  | append_singleton ss s ih => rw [watch_concat, ingests_concat, ih]

theorem holds_held (ss : List Sample) : Holds (ingests ss) (held ss) := by
  induction ss using List.reverseRecOn with
  | nil => exact holds_new
  | append_singleton ss s ih =>
    rw [held, watch_concat, ingests_concat, watch_fst]
    exact (ih.step s).1

theorem Holds.sound (h : Holds f bits) : Sound f where
  receiving n hs := by
    obtain ⟨rfl, hb⟩ := h.receiving hs
    exact ⟨List.length_pos_iff.mpr hb, h.short, h.assembled_lt⟩
  idle hs := by
    obtain rfl := h.idle.mp hs
    exact ⟨BitVec.eq_of_toNat_eq (Nat.lt_one_iff.mp h.assembled_lt), h.periods.2 rfl⟩

theorem ingests_lastDataChangeUs {ss : List Sample} (ht : ∀ s ∈ ss, s.tUs < 2 ^ 63) :
    (ingests ss).lastDataChangeUs < 2 ^ 63 := by
  induction ss using List.reverseRecOn with
  | nil => decide
  | append_singleton ss s ih =>
    rw [ingests_concat]
    rcases (ingests ss).ingestSample_lastDataChangeUs s with h | h
    · rw [h]
      exact ih fun s hs => ht s (List.mem_append_left _ hs)
    · rw [h]
      exact ht s (List.mem_append_right _ (List.mem_singleton_self s))

theorem ingests?_eq {ss : List Sample} (ht : ∀ s ∈ ss, s.tUs < 2 ^ 63) :
    ingests? ss = some (ingests ss) := by
  induction ss using List.reverseRecOn with
  | nil => rfl
  | append_singleton ss s ih =>
    have ht' : ∀ s ∈ ss, s.tUs < 2 ^ 63 := fun s hs => ht s (List.mem_append_left _ hs)
    have hs : s.tUs < 2 ^ 63 := ht s (List.mem_append_right _ (List.mem_singleton_self s))
    have hi := ih ht'
    unfold ingests? at hi ⊢
    rw [List.foldlM_append, hi, ingests_concat]
    simp only [Option.bind_eq_bind, Option.bind_some, List.foldlM_cons, List.foldlM_nil,
      (holds_held ss).ingest?_eq hs (ingests_lastDataChangeUs ht'), Option.map_some,
        Option.pure_def]

/-- After samples before 2^63 us, in any order, no sample makes an operation
panic, and the states and frames are sound. -/
theorem ingests_safe (ss : List Sample) (ht : ∀ s ∈ ss, s.tUs < 2 ^ 63) :
    ingests? ss = some (ingests ss) ∧ Sound (ingests ss) ∧
    ∀ s : Sample, s.tUs < 2 ^ 63 → (ingests ss).ingest? s = some ((ingests ss).ingestSample s) ∧
      ∀ frame, ((ingests ss).ingestSample s).2 = some frame →
        Emits ((ingests ss).collect (held ss) s) frame ∧
        ((ingests ss).ingestSample s).1.state = .idle := by
  have h := holds_held ss
  refine ⟨ingests?_eq ht, h.sound, fun s hs => ⟨h.ingest?_eq hs (ingests_lastDataChangeUs ht),
    fun frame hf => ?_⟩⟩
  obtain ⟨hidle, hemits⟩ := (h.step s).2 frame hf
  exact ⟨hemits, hidle⟩

/-- A sample from before the one that started a frame. -/
theorem ingests_safe_backwards :
    ingests? [⟨true, true, 9⟩, ⟨false, true, 5000⟩, ⟨true, false, 7⟩] =
      some (ingests [⟨true, true, 9⟩, ⟨false, true, 5000⟩, ⟨true, false, 7⟩]) ∧
      Sound (ingests [⟨true, true, 9⟩, ⟨false, true, 5000⟩, ⟨true, false, 7⟩]) := by
  obtain ⟨hrun, hsound, -⟩ :=
    ingests_safe [⟨true, true, 9⟩, ⟨false, true, 5000⟩, ⟨true, false, 7⟩] (by decide)
  exact ⟨hrun, hsound⟩

/-! ## Edges of CLK -/

/-- The level of CLK after one more sample, and when CLK took it. -/
def levelAfter (level : Option (Bool × Nat)) (s : Sample) : Option (Bool × Nat) :=
  match level with
  | none => some (s.clk, s.tUs)
  | some (clk, since) => some (s.clk, if clk = s.clk then since else s.tUs)

/-- The level of CLK in the last sample, and when CLK took it. -/
def level (ss : List Sample) : Option (Bool × Nat) := ss.foldl levelAfter none

/-- What the framer knows of CLK. It misses the time of an edge that comes
with a timeout. -/
def Knows (f : Framer) : Option (Bool × Nat) → Prop
  | none => f.lastClk = none ∧ f.state = .idle
  | some (clk, since) => f.lastClk = some clk ∧ (f.state ≠ .idle → f.lastEdgeUs = since)

theorem Knows.step {l : Option (Bool × Nat)} (h : Knows f l) (s : Sample) :
    Knows (f.ingestSample s).1 (levelAfter l s) := by
  have hi := f.ingested s
  generalize f.ingestSample s = r at hi ⊢
  cases hi with
  | timeout =>
    rcases l with _ | ⟨clk, since⟩
    · exact ⟨rfl, fun h => absurd rfl h⟩
    · exact ⟨rfl, fun h => absurd rfl h⟩
  | fall change falls =>
    rcases l with _ | ⟨clk, since⟩
    · cases h.1.symm.trans falls.2.1
    · obtain rfl := Option.some.inj (h.1.symm.trans falls.2.1)
      refine ⟨(onClkFall_keeps _ s.data s.tUs).1, fun _ => ?_⟩
      rw [if_neg (by rw [falls.2.2.1]; decide)]
      exact (onClkFall_keeps _ s.data s.tUs).2.1
  | rest change waits stays edge_eq =>
    rcases l with _ | ⟨clk, since⟩
    · exact ⟨rfl, fun hs => absurd h.2 hs⟩
    · refine ⟨rfl, fun hs => ?_⟩
      show _ = _
      rw [edge_eq, h.1]
      by_cases hc : clk = s.clk
      · rw [hc, if_neg (by cases s.clk <;> decide), if_pos rfl]
        exact h.2 hs
      · rw [Bool.eq_not.mpr hc, if_pos rfl, if_neg (by cases s.clk <;> decide)]

theorem knows_level (ss : List Sample) : Knows (ingests ss) (level ss) := by
  induction ss using List.reverseRecOn with
  | nil => exact ⟨rfl, rfl⟩
  | append_singleton ss s ih =>
    rw [ingests_concat, level, List.foldl_concat]
    exact ih.step s

/-- DATA of a sample at a falling edge is the latest of the `n` bits of the
frame being received. -/
structure Latest (f : Framer) (s : Sample) (n : Nat) : Prop where
  state : f.state = .receiving n
  falling : f.lastFallingUs = s.tUs
  bit : f.assembled.getLsbD (n - 1) = s.data

/-- A falling edge is used as a bit: the bit completes a frame, or it is the
latest of the frame being received. -/
def Uses (f : Framer) (s : Sample) : Prop :=
  (∃ g, Latest g s AT_BIT_COUNT ∧ (f.ingestSample s).2 = some (g.buildFrame AT_BIT_COUNT)) ∨
    ∃ n, Latest (f.ingestSample s).1 s n

theorem Holds.uses_of_falls (h : Holds f bits) (hf : f.Falls s) : f.Uses s := by
  have hi := f.ingested s
  unfold Uses
  generalize f.ingestSample s = r at hi ⊢
  cases hi with
  | timeout late => exact absurd late hf.1
  | rest change waits stays => exact absurd hf stays
  | @fall d l change =>
    have hd : Holds { f with
      lastDataChangeUs := d, lastData := l, lastClk := some s.clk, lastEdgeUs := s.tUs } bits :=
        ⟨h.state, h.short, h.assembled, h.periods⟩
    obtain ⟨g, hstate, hfalling, hasm, -, e⟩ := hd.fall s.data s.tUs
    have hlast : (bits ++ [s.data]).getD (bits.length + 1 - 1) false = s.data := by
      rw [Nat.add_sub_cancel, List.getD_append_right _ _ _ _ (Nat.le_refl _), Nat.sub_self]
      rfl
    have hlatest : Latest g s (bits.length + 1) := ⟨hstate, hfalling, (hasm _).trans hlast⟩
    rw [e]
    split
    next h11 =>
      have := h.short
      rw [show bits.length + 1 = AT_BIT_COUNT from
        Nat.le_antisymm (Nat.succ_le_succ this) h11] at hlatest
      exact .inl ⟨g, hlatest, rfl⟩
    next => exact .inr ⟨_, hlatest⟩

/-- A falling edge that is not used: the frame times out on its sample, or
between frames the framer takes it for a glitch. -/
theorem falls_iff {ss : List Sample} {since : Nat} (hl : level ss = some (true, since))
    (hlow : s.clk = false) (h4 : since + GLITCH_THRESHOLD_US ≤ s.tUs)
    (h32 : s.tUs < since + 2 ^ 32) : (ingests ss).Falls s ↔
      ¬ (ingests ss).TimesOut s.tUs ∧
        ((ingests ss).state = .idle →
          GLITCH_THRESHOLD_US ≤ (s.tUs - (ingests ss).lastEdgeUs) % 2 ^ 32) := by
  obtain ⟨hclk, hedge⟩ : Knows _ (some (true, since)) := hl ▸ knows_level ss
  refine ⟨fun h => ⟨h.1, fun _ => h.2.2.2⟩, fun ⟨hw, hidle⟩ => ⟨hw, hclk, hlow, ?_⟩⟩
  by_cases hs : (ingests ss).state = .idle
  · exact hidle hs
  · rw [hedge hs]
    show 4 ≤ _
    have : since + 4 ≤ s.tUs := h4
    omega

theorem falls_of_uses {ss : List Sample} {since : Nat} (hl : level ss = some (true, since))
    (hlow : s.clk = false) (h4 : since + GLITCH_THRESHOLD_US ≤ s.tUs) (h32 : s.tUs < since + 2 ^ 32)
    (hu : (ingests ss).Uses s) :
    (ingests ss).Falls s := by
  have h := holds_held ss
  have hi := (ingests ss).ingested s
  unfold Uses at hu
  generalize (ingests ss).ingestSample s = r at hi hu
  cases hi with
  | fall change falls => exact falls
  | timeout late state =>
    rcases hu with ⟨g, -, hframe⟩ | ⟨n, hn⟩
    · exact absurd rfl (h.expired (h.receiving state).1 hframe).2
    · cases hn.state
  | rest change waits stays =>
    rcases hu with ⟨g, -, hframe⟩ | ⟨n, hn⟩
    · cases hframe
    · refine (falls_iff hl hlow h4 h32).mpr ⟨waits, fun hs => ?_⟩
      cases hs.symm.trans hn.state

/-- A falling edge of CLK, 4 us at least and less than 2^32 us after CLK
changed, is used as a bit iff the frame being received does not time out on
its sample and, between frames, the last edge that the framer has noted is
not less than 4 us away modulo 2^32. -/
theorem uses_iff (ss : List Sample) (s : Sample) {since : Nat} (hl : level ss = some (true, since))
    (hlow : s.clk = false) (h4 : since + GLITCH_THRESHOLD_US ≤ s.tUs)
    (h32 : s.tUs < since + 2 ^ 32) : (ingests ss).Uses s ↔
      ¬ (ingests ss).TimesOut s.tUs ∧
        ((ingests ss).state = .idle →
          GLITCH_THRESHOLD_US ≤ (s.tUs - (ingests ss).lastEdgeUs) % 2 ^ 32) := by
  rw [← falls_iff hl hlow h4 h32]
  exact ⟨falls_of_uses hl hlow h4 h32, (holds_held ss).uses_of_falls⟩

theorem uses_iff_start : (ingests [⟨true, true, 0⟩]).Uses ⟨false, false, 10⟩ :=
  (uses_iff [⟨true, true, 0⟩] ⟨false, false, 10⟩ (by decide : level _ = some (true, 0)) rfl
    (by decide) (by decide)).mpr (by decide)

/-- A frame begins at 10 us, CLK is high from 50 us on and falls at 210 us,
the sample of the timeout. -/
theorem timeout_not_used :
    level [⟨true, true, 0⟩, ⟨false, false, 10⟩, ⟨true, false, 50⟩] = some (true, 50) ∧
    ¬ (ingests [⟨true, true, 0⟩, ⟨false, false, 10⟩, ⟨true, false, 50⟩]).Uses ⟨false,
      true, 210⟩ := by
  refine ⟨by decide, fun h => ?_⟩
  have hf := falls_of_uses (by decide : level _ = some (true, 50)) rfl (by decide) (by decide) h
  revert hf
  decide

end Framer

end VintageKvm.Ps2
