import VintageKvm.Firmware.Lpt.Cycles
import VintageKvm.Firmware.Lpt.RingDma

/-!
# The forward path at work

`lpt_compat_in` waits for the strobe to fall, takes the strobe and the data
lines in one cycle later, and waits for the strobe to rise. Its words go to the
RX FIFO, a DMA channel takes them from there into the ring, and `recv_byte`
takes them from the ring: `Receiver` is the three together, in any order of
their steps. What each of the three instructions does in a cycle is
`cycle_fall`, `cycle_sample` and `cycle_rise`.
-/

namespace VintageKvm.Firmware.Lpt

namespace PioCompatIn

/-- SM0 as `new` sets it up on the boot-time pins; the RX FIFO has the TX
FIFO's words too. -/
def setup : Setup where
  program := compatInProgram
  inPins := [11, 12, 13, 14, 15, 16, 17, 18, 19]
  autoPush := some 9
  rxDepth := 8

theorem new_setup {load : Loader} {common common' : Board} {sm0 : StateMachine 0}
    {phy : PioCompatIn} (h : PioCompatIn.new load common sm0 {} = .ok (phy, common')) :
    phy.sm0 = ⟨some setup.toConfig, true⟩ := by
  cases hload : load common.instructionsUsed compatInProgram.length <;>
    simp only [PioCompatIn.new, Board.start, Board.loadProgram, hload, bind, Except.bind, pure,
      Except.pure] at h
  · cases h
  · cases h
    rfl

/-- The byte of a word, as `recv_byte` decodes it. -/
def byteOf (word : DWord) : Byte := (word >>> 1 &&& 0xFF).setWidth 8

/-! ## The lines -/

/-- The lines that the host drives. -/
structure Lines where
  strobe : Level
  data : Byte

/-- The levels of the GPIOs: the strobe on GP11, D0 to D7 from GP12 on, and
the rest. -/
def Lines.gpio (l : Lines) (rest : Nat → Level) (p : Nat) : Level :=
  if p = 11 then l.strobe
  else if 12 ≤ p ∧ p < 20 then if l.data.getLsbD (p - 12) then .high else .low
  else rest p

theorem byteOf_low_strobe (b : Byte) : byteOf (BitVec.setWidth 32 (b ++ 0#1)) = b := by
  revert b
  decide +kernel

theorem gpio_strobe (l : Lines) (rest : Nat → Level) : l.gpio rest 11 = l.strobe := if_pos rfl

theorem gpio_data (l : Lines) (rest : Nat → Level) {i : Nat} (hi : i < 8) :
    decide (l.gpio rest (12 + i) = .high) = l.data.getLsbD i := by
  have hdata : 12 ≤ 12 + i ∧ 12 + i < 20 := by omega
  rw [Lines.gpio, if_neg (by omega), if_pos hdata, Nat.add_sub_cancel_left]
  cases l.data.getLsbD i <;> rfl

theorem sampled_low (rest : Nat → Level) (b : Byte) :
    Pio.sampled ((⟨.low, b⟩ : Lines).gpio rest) setup.inPins 9 = BitVec.setWidth 32 (b ++ 0#1) := by
  have hbits : ∀ b :
    Byte, BitVec.setWidth 32 (BitVec.ofBoolListLE [false, b.getLsbD 0, b.getLsbD 1, b.getLsbD 2,
      b.getLsbD 3, b.getLsbD 4, b.getLsbD 5, b.getLsbD 6, b.getLsbD 7]) =
      BitVec.setWidth 32 (b ++ 0#1) := by
    decide +kernel
  have hdata : ∀ i < 8, decide ((⟨.low, b⟩ : Lines).gpio rest (12 + i) = .high) = b.getLsbD i :=
    fun i hi => gpio_data ⟨.low, b⟩ rest hi
  rw [← hbits, ← hdata 0 (by decide), ← hdata 1 (by decide), ← hdata 2 (by decide),
    ← hdata 3 (by decide), ← hdata 4 (by decide), ← hdata 5 (by decide), ← hdata 6 (by decide),
    ← hdata 7 (by decide)]
  rfl

/-! ## The three instructions -/

/-- At the instruction `pc`, with nothing in the ISR. -/
structure At (pc : Nat) (sm : Pio) : Prop where
  pc : sm.pc = pc
  delay : sm.delay = 0
  isr : sm.isr = 0
  isrCount : sm.isrCount = 0

theorem At.of_eq {pc : Nat} {sm sm' : Pio} (h : At pc sm) (hpc : sm'.pc = sm.pc)
    (hd : sm'.delay = sm.delay) (hi : sm'.isr = sm.isr) (hc : sm'.isrCount = sm.isrCount) :
    At pc sm' :=
  ⟨hpc.trans h.pc, hd.trans h.delay, hi.trans h.isr, hc.trans h.isrCount⟩

variable {sm : Pio} {gpio : Nat → Level}

theorem cycle_fall (h : At 0 sm) :
    sm.cycle setup gpio = if gpio 11 = .low then { sm with pc := 1 } else sm := by
  obtain ⟨pc, delay, x, osr, isr, isrCount, rx, tx, levels⟩ := sm
  obtain ⟨rfl, rfl, rfl, rfl⟩ := h
  rfl

theorem cycle_rise (h : At 2 sm) :
    sm.cycle setup gpio = if gpio 11 = .high then { sm with pc := 0 } else sm := by
  obtain ⟨pc, delay, x, osr, isr, isrCount, rx, tx, levels⟩ := sm
  obtain ⟨rfl, rfl, rfl, rfl⟩ := h
  rfl

/-- With room in the FIFO. -/
theorem cycle_sample (h : At 1 sm) (hroom : sm.rx.length < 8) :
    sm.cycle setup gpio =
      { sm with pc := 2, rx := sm.rx ++ [Pio.sampled gpio setup.inPins 9] } := by
  obtain ⟨pc, delay, x, osr, isr, isrCount, rx, tx, levels⟩ := sm
  obtain ⟨rfl, rfl, rfl, rfl⟩ := h
  rw [Pio.cycle_exec rfl (show setup.program[1]? = some ⟨.in_ .pins 9, 0, none⟩ from rfl),
    Pio.exec_autoPush rfl rfl (show 0 < 9 by decide) (show 9 ≤ 0 + 9 by decide) hroom]
  have hisr : (0 : DWord) <<< 9 ||| Pio.sampled gpio setup.inPins 9 =
      Pio.sampled gpio setup.inPins 9 := BitVec.zero_or
  simp only [Pio.sideSet, hisr]
  rfl

/-! ## With the ring -/

/-- The state machine, its FIFO, and the reader of the ring. -/
structure Receiver where
  sm : Pio
  reader : RingDma.Reader

namespace Receiver

inductive Action where
  /-- A cycle of the state machine, with the levels of the GPIOs. -/
  | cycle (gpio : Nat → Level)
  /-- The DMA channel takes a word, if there is one. -/
  | dma
  /-- The two steps of `try_pop`. -/
  | calls
  | loads

variable (r : Receiver)

def act : Action → Receiver
  | .cycle gpio => { r with sm := r.sm.cycle setup gpio }
  | .dma =>
    match r.sm.rx with
    | [] => r
    | w :: rx => { sm := { r.sm with rx := rx }, reader := r.reader.act (.arrives w) }
  | .calls => { r with reader := r.reader.act .calls }
  | .loads => { r with reader := r.reader.act .loads }

/-- The words taken in and not lost. -/
def words : List DWord := r.reader.written ++ r.sm.rx

/-- What the calls of `recv_byte` returned. -/
def received : List Byte := r.reader.popped.map byteOf

end Receiver

end PioCompatIn

end VintageKvm.Firmware.Lpt
