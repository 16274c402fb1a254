import VintageKvm.Lib.Word

/-!
# The PS/2 framer

`Framer::ingest` takes one sample of CLK and DATA every microsecond and gives
a frame when one is complete: an AT frame on its eleventh falling edge, an XT
frame when the clock has been idle for `IDLE_TIMEOUT_US` after its ninth.
Timestamps are natural numbers of microseconds; the casts to 32 and 16 bits
are those of the source.
-/

namespace VintageKvm.Ps2

abbrev GLITCH_THRESHOLD_US : Nat := 4
abbrev IDLE_TIMEOUT_US : Nat := 200
abbrev XT_BIT_COUNT : Nat := 9
abbrev AT_BIT_COUNT : Nat := 11

/-- How the framer interpreted the bits of a frame. -/
inductive FrameKind where
  | at_
  | xt
  | invalid
  deriving DecidableEq, Repr

structure FrameTiming where
  bitPeriodsUs : List Word
  clkDataSkewUs : Int
  glitchCount : Nat
  deriving DecidableEq, Repr

structure Ps2Frame where
  kind : FrameKind
  data : Byte
  parityOk : Bool
  framingOk : Bool
  startTimestampUs : Nat
  timing : FrameTiming
  deriving DecidableEq, Repr

namespace Framer

inductive State where
  | idle
  /-- `bits` falling edges seen so far. -/
  | receiving (bits : Nat)
  deriving DecidableEq, Repr

end Framer

structure Framer where
  state : Framer.State
  lastClk : Option Bool
  lastEdgeUs : Nat
  /-- The bits so far, from the lowest on. -/
  assembled : Word
  frameStartUs : Nat
  lastFallingUs : Nat
  periodsUs : List Word
  glitchCount : Nat
  clkDataSkewUs : Int
  lastDataChangeUs : Nat
  lastData : Option Bool
  deriving DecidableEq, Repr

/-- `u8::count_ones`. -/
def countOnes (b : Byte) : Nat := (List.range 8).countP b.getLsbD

/-- `i64::clamp` to the range of an `i8`. -/
def clampI8 (i : Int) : Int := max (-128) (min 127 i)

namespace Framer

def new : Framer where
  state := .idle
  lastClk := none
  lastEdgeUs := 0
  assembled := 0
  frameStartUs := 0
  lastFallingUs := 0
  periodsUs := List.replicate 11 0
  glitchCount := 0
  clkDataSkewUs := 0
  lastDataChangeUs := 0
  lastData := none

def resetIdle (f : Framer) : Framer :=
  { f with
    state := .idle
    assembled := 0
    frameStartUs := 0
    lastFallingUs := 0
    periodsUs := List.replicate 11 0
    glitchCount := 0
    clkDataSkewUs := 0 }

/-- The data bits of `assembled`. -/
def dataBits (f : Framer) : Byte := (f.assembled >>> 1).setWidth 8

def timing (f : Framer) : FrameTiming := ⟨f.periodsUs, f.clkDataSkewUs, f.glitchCount⟩

def buildFrame (f : Framer) (totalBits : Nat) : Ps2Frame :=
  if totalBits = AT_BIT_COUNT then
    { kind := .at_
      data := f.dataBits
      parityOk := (countOnes f.dataBits + (f.assembled.getLsbD 9).toNat) % 2 = 1
      framingOk := !f.assembled.getLsbD 0 && f.assembled.getLsbD 10
      startTimestampUs := f.frameStartUs
      timing := f.timing }
  else
    { kind := .xt
      data := f.dataBits
      parityOk := true
      framingOk := f.assembled.getLsbD 0
      startTimestampUs := f.frameStartUs
      timing := f.timing }

def buildFrameInvalid (f : Framer) : Ps2Frame where
  kind := .invalid
  data := f.dataBits
  parityOk := false
  framingOk := false
  startTimestampUs := f.frameStartUs
  timing := f.timing

def emitOnTimeout (f : Framer) (bits : Nat) : Option Ps2Frame :=
  if AT_BIT_COUNT ≤ bits then none
  else if bits = XT_BIT_COUNT ∧ f.assembled.getLsbD 0 then some (f.buildFrame XT_BIT_COUNT)
  else if 0 < bits then some f.buildFrameInvalid
  else none

def onClkFall (f : Framer) (data : Bool) (tUs : Nat) : Framer × Option Ps2Frame :=
  match f.state with
  | .idle =>
    ({ f with
        assembled := BitVec.ofNat 16 data.toNat
        frameStartUs := tUs
        lastFallingUs := tUs
        periodsUs := List.replicate 11 0
        glitchCount := 0
        clkDataSkewUs := clampI8 (BitVec.ofNat 64 tUs - BitVec.ofNat 64 f.lastDataChangeUs).toInt
        state := .receiving 1 }, none)
  | .receiving bits =>
    let periodUs : Word := BitVec.ofNat 16 (tUs - f.lastFallingUs)
    let f := { f with
      periodsUs := if bits ≤ f.periodsUs.length then f.periodsUs.set (bits - 1) periodUs
        else f.periodsUs
      lastFallingUs := tUs
      assembled := f.assembled ||| BitVec.ofNat 16 data.toNat <<< bits
      state := .receiving (bits + 1) }
    if AT_BIT_COUNT ≤ bits + 1 then (f.resetIdle, some (f.buildFrame AT_BIT_COUNT)) else (f, none)

/-- When DATA last changed. -/
def noteData (f : Framer) (data : Bool) (tUs : Nat) : Framer :=
  if f.lastData ≠ some data then { f with lastDataChangeUs := tUs, lastData := some data } else f

/-- What `ingest` does when no frame has timed out. -/
def onSample (f : Framer) (clk data : Bool) (tUs : Nat) : Framer × Option Ps2Frame :=
  let f := f.noteData data tUs
  let prevClk := f.lastClk
  let f := { f with lastClk := some clk }
  match prevClk with
  | none => (f, none)
  | some prevLevel =>
    if prevLevel = clk then (f, none)
    else
      let durUs := (tUs - f.lastEdgeUs) % 2 ^ 32
      let f := { f with lastEdgeUs := tUs }
      if durUs < GLITCH_THRESHOLD_US then
        match f.state with
        | .receiving _ => ({ f with glitchCount := min 255 (f.glitchCount + 1) }, none)
        | .idle => (f, none)
      else if prevLevel && !clk then f.onClkFall data tUs
      else (f, none)

def ingest (f : Framer) (clk data : Bool) (tUs : Nat) : Framer × Option Ps2Frame :=
  match f.state with
  | .receiving bits =>
    if IDLE_TIMEOUT_US ≤ (tUs - f.lastFallingUs) % 2 ^ 32 then
      ({ f.resetIdle with lastClk := some clk, lastData := some data }, f.emitOnTimeout bits)
    else f.onSample clk data tUs
  | .idle => f.onSample clk data tUs

/-- Samples of CLK and DATA, one a microsecond from `tUs` on. -/
def ingestAll (f : Framer) (tUs : Nat) : List (Bool × Bool) → Framer × List Ps2Frame
  | [] => (f, [])
  | (clk, data) :: samples =>
    let (f, frame) := f.ingest clk data tUs
    let (f, frames) := f.ingestAll (tUs + 1) samples
    (f, frame.toList ++ frames)

theorem ingestAll_append (f : Framer) (tUs : Nat) (s₁ s₂ : List (Bool × Bool)) :
    f.ingestAll tUs (s₁ ++ s₂) = (((f.ingestAll tUs s₁).1.ingestAll (tUs + s₁.length) s₂).1,
      (f.ingestAll tUs s₁).2 ++ ((f.ingestAll tUs s₁).1.ingestAll (tUs + s₁.length) s₂).2) := by
  induction s₁ generalizing f tUs with
  | nil => rfl
  | cons s s₁ ih =>
    obtain ⟨clk, data⟩ := s
    simp only [List.cons_append, ingestAll, ih, List.length_cons, List.append_assoc]
    rw [show tUs + 1 + s₁.length = tUs + (s₁.length + 1) by omega]

end Framer

end VintageKvm.Ps2
