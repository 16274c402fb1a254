import VintageKvm.Ps2.Bootstrap
import VintageKvm.Ps2.History
import VintageKvm.Ps2.Oversample

/-!
# What the oversamplers do with a word

The tasks of both wires take the samples of a word in order, feed their framer
and count. A frame of the keyboard goes to the supervisor unless the injector
was driving CLK shortly before; a well-formed frame of the mouse signals it.
-/

namespace VintageKvm.Ps2

/-- The counters of an oversampler but for `fifo_overrun`, which is counted
with the ring. -/
structure OversamplerCounters where
  words : DWord
  clkActiveWords : DWord
  framesTotal : DWord
  framesErrored : DWord
  glitchesTotal : DWord
  deriving DecidableEq, Repr

namespace OversamplerCounters

def new : OversamplerCounters := ⟨0, 0, 0, 0, 0⟩

variable (c : OversamplerCounters)

/-- A word drained, with a transition of CLK in it or not. -/
def word (toggled : Bool) : OversamplerCounters :=
  { c with
    words := c.words + 1,
    clkActiveWords := if toggled then c.clkActiveWords + 1 else c.clkActiveWords }

def frame (f : Ps2Frame) : OversamplerCounters :=
  { c with
    framesTotal := c.framesTotal + 1
    framesErrored := if !f.parityOk || !f.framingOk then c.framesErrored + 1 else c.framesErrored
    glitchesTotal := c.glitchesTotal + BitVec.ofNat 32 f.timing.glitchCount }

end OversamplerCounters

/-- Whether CLK, the lowest bit of a sample, changes within a word of samples
`width` bits apart. -/
def toggledInWord (width samplesPerWord : Nat) (word : DWord) : Bool :=
  (List.range (samplesPerWord - 1)).any fun i =>
    word.getLsbD (width * i) != word.getLsbD (width * (i + 1))

/-! ## The keyboard -/

namespace Kbd

abbrev SELF_TX_GUARD_US : Nat := 1500

def clkToggledInWord (word : DWord) : Bool := toggledInWord IN_WIDTH SAMPLES_PER_WORD word

/-- The locals of `run`, its counters, and the channel to the supervisor. -/
structure Task where
  framer : Framer
  tUs : Nat
  /-- When the injector last drove CLK low. -/
  lastSelfTxUs : Option Nat
  counters : OversamplerCounters
  selfTxFrames : DWord
  kbdFrames : Channel Ps2Frame KBD_FRAMES_DEPTH

namespace Task

def new : Task := ⟨.new, 0, none, .new, 0, .new⟩

variable (k : Task)

def notePull (clkPull : Bool) : Task := if clkPull then k else { k with lastSelfTxUs := some k.tUs }

def selfDriven : Bool :=
  match k.lastSelfTxUs with
  | some t => k.tUs - t < SELF_TX_GUARD_US
  | none => false

/-- A frame goes to `KBD_FRAMES`, where it is dropped if that is full, or it is
taken for our own. -/
def frame (f : Ps2Frame) : Task :=
  let k := { k with counters := k.counters.frame f }
  if k.selfDriven then { k with selfTxFrames := k.selfTxFrames + 1 }
  else { k with kbdFrames := k.kbdFrames.trySend f }

def sample (s : Sample) : Task :=
  let k := k.notePull s.clkPull
  let (framer, frame) := k.framer.ingest s.clk s.data k.tUs
  let k := { k with framer := framer }
  let k := match frame with
    | some f => k.frame f
    | none => k
  { k with tUs := k.tUs + 1 }

def word (w : DWord) : Task :=
  let k := { k with counters := k.counters.word (clkToggledInWord w) }
  (List.range SAMPLES_PER_WORD).foldl (fun k i => k.sample (sampleAt w i)) k

variable {k}

theorem notePull_keeps (k : Task) (clkPull : Bool) : (k.notePull clkPull).framer = k.framer ∧
    (k.notePull clkPull).tUs = k.tUs ∧ (k.notePull clkPull).kbdFrames = k.kbdFrames := by
  unfold notePull
  split <;> exact ⟨rfl, rfl, rfl⟩

theorem frame_keeps (k : Task) (f : Ps2Frame) :
    (k.frame f).tUs = k.tUs ∧ (k.frame f).lastSelfTxUs = k.lastSelfTxUs ∧
    (k.frame f).framer = k.framer := by
  unfold frame
  dsimp only
  split <;> exact ⟨rfl, rfl, rfl⟩

theorem sample_keeps (k : Task) (x : Sample) : (k.sample x).tUs = k.tUs + 1 ∧
    (k.sample x).lastSelfTxUs = (k.notePull x.clkPull).lastSelfTxUs ∧
    (k.sample x).framer = (k.framer.ingest x.clk x.data k.tUs).1 := by
  obtain ⟨hframer, htUs, -⟩ := k.notePull_keeps x.clkPull
  have hingest : (k.notePull x.clkPull).framer.ingest x.clk x.data (k.notePull x.clkPull).tUs =
      k.framer.ingest x.clk x.data k.tUs := by rw [hframer, htUs]
  unfold sample
  dsimp only
  rw [hingest]
  split
  next f _ =>
    obtain ⟨h, hl, hf⟩ :=
      frame_keeps { k.notePull x.clkPull with framer := (k.framer.ingest x.clk x.data k.tUs).1 } f
    exact ⟨congrArg (· + 1) (h.trans htUs), hl, hf⟩
  next => exact ⟨congrArg (· + 1) htUs, rfl, rfl⟩

end Task

end Kbd

/-! ## The mouse -/

namespace Aux

def clkToggledInWord (word : DWord) : Bool := toggledInWord IN_WIDTH SAMPLES_PER_WORD word

/-- The locals of `run`, its counters, and the signal to the supervisor. -/
structure Task where
  framer : Framer
  tUs : Nat
  counters : OversamplerCounters
  auxActivity : Signal Unit

namespace Task

def new : Task := ⟨.new, 0, .new, .new⟩

variable (k : Task)

def frame (f : Ps2Frame) : Task :=
  let k := { k with counters := k.counters.frame f }
  if f.framingOk && f.parityOk && f.kind != .invalid then
    { k with auxActivity := k.auxActivity.signal () }
  else k

def sample (s : Sample) : Task :=
  let (framer, frame) := k.framer.ingest s.clk s.data k.tUs
  let k := { k with framer := framer }
  let k := match frame with
    | some f => k.frame f
    | none => k
  { k with tUs := k.tUs + 1 }

def word (w : DWord) : Task :=
  let k := { k with counters := k.counters.word (clkToggledInWord w) }
  (List.range SAMPLES_PER_WORD).foldl (fun k i => k.sample (sampleAt w i)) k

end Task

end Aux

end VintageKvm.Ps2
