import VintageKvm.Ps2.Waveform

/-!
# The PS/2 transmitter

`send_at_byte` and `send_xt_byte` pack a byte into a word, and a PIO program
puts its bits on the wire, the lowest first. The program drives CLK low before
it puts the bit on DATA: at the falling edge of a bit DATA still has the bit
before (`bitSlots`).
-/

namespace VintageKvm.Ps2

/-! ## Packing -/

def packAtFrame (byte : Byte) : DWord :=
  let w : DWord := 0xFFFFF800
  let w := w ||| byte.setWidth 32 <<< 1
  let parity : DWord := if countOnes byte &&& 1 = 0 then 1 else 0
  let w := w ||| parity <<< 9
  w ||| 1 <<< 10

def packXtFrame (byte : Byte) : DWord :=
  let w : DWord := 0xFFFFFE00
  let w := w ||| 1
  w ||| byte.setWidth 32 <<< 1

/-- The lowest bits of a word. -/
def lowBits (n : Nat) (w : DWord) : List Bool := (List.range n).map w.getLsbD

theorem lowBits_succ (n : Nat) (w : DWord) :
    lowBits (n + 1) w = w.getLsbD 0 :: lowBits n (w >>> 1) := by
  unfold lowBits
  rw [List.range_succ_eq_map, List.map_cons, List.map_map]
  refine congrArg _ (List.map_congr_left fun i _ => ?_)
  rw [BitVec.getLsbD_ushiftRight, Function.comp_apply, Nat.add_comm]

/-- Odd parity. -/
def parityBit (byte : Byte) : Bool := countOnes byte % 2 = 0

theorem lowBits_packAtFrame (byte : Byte) :
    lowBits 11 (packAtFrame byte) = false :: byteBits byte ++ [parityBit byte, true] := by
  revert byte
  decide +kernel

theorem lowBits_packXtFrame (byte : Byte) :
    lowBits 9 (packXtFrame byte) = true :: byteBits byte := by
  revert byte
  decide +kernel

/-! ## The PIO program -/

namespace Tx

inductive Instr where
  /-- `set y, n`. -/
  | setY (n : Nat)
  /-- `pull block`. -/
  | pull
  /-- `out x, 1`. -/
  | outX
  /-- `set pins, level [delay]`, on CLK_PULL. -/
  | setPins (level : Bool) (delay : Nat)
  /-- `mov pins, x`, on DATA_PULL. -/
  | movPins
  /-- `jmp y-- target`. -/
  | jmpYDec (target : Nat)
  deriving DecidableEq, Repr

abbrev AT_LOOP_INIT : Nat := 10
abbrev XT_LOOP_INIT : Nat := 8

/-- It wraps from its end to its start. -/
def program : List Instr :=
  [.setY AT_LOOP_INIT, .pull, .outX, .setPins false 3, .movPins, .setPins true 3, .jmpYDec 2,
    .setPins true 0]

/-- Microseconds of a cycle at `PIO_CLK_HZ`. -/
abbrev CYCLE_US : Nat := 10

def Instr.cycles : Instr → Nat
  | .setPins _ delay => 1 + delay
  | _ => 1

/-- The state machine, its FIFO and the two lines. -/
structure Sm where
  pc : Nat
  x : DWord
  y : Nat
  osr : DWord
  clk : Bool
  data : Bool
  fifo : List DWord

namespace Sm

/-- What an instruction does; `none` where it stalls. -/
def exec (s : Sm) : Instr → Option Sm
  | .setY n => some { s with pc := s.pc + 1, y := n }
  | .pull =>
    match s.fifo with
    | [] => none
    | w :: fifo => some { s with pc := s.pc + 1, osr := w, fifo := fifo }
  | .outX => some { s with pc := s.pc + 1, x := s.osr &&& 1, osr := s.osr >>> 1 }
  | .setPins level _ => some { s with pc := s.pc + 1, clk := level }
  | .movPins => some { s with pc := s.pc + 1, data := s.x.getLsbD 0 }
  | .jmpYDec target =>
    some { s with pc := if s.y ≠ 0 then target else s.pc + 1, y := (s.y + (2 ^ 32 - 1)) % 2 ^ 32 }

/-- The instruction at the program counter, and the lines while it runs. -/
def step (s : Sm) : Option (Sm × List (Bool × Bool)) := do
  let i ← program[s.pc]?
  let s' ← s.exec i
  let s' := { s' with pc := if s'.pc = program.length then 0 else s'.pc }
  return (s', List.replicate (CYCLE_US * i.cycles) (s'.clk, s'.data))

/-- Steps until the program stalls, `n` at most. -/
def run : Nat → Sm → Sm × List (Bool × Bool)
  | 0, s => (s, [])
  | n + 1, s =>
    match s.step with
    | none => (s, [])
    | some (s', now) =>
      let (s'', later) := s'.run n
      (s'', now ++ later)

end Sm

/-- How a list of bytes is sent. -/
inductive Format where
  | at_ | xt
  deriving DecidableEq, Repr

def sendAtByte (s : Sm) (byte : Byte) : Sm := { s with fifo := s.fifo ++ [packAtFrame byte] }

/-- `exec_instr` of `set y, 8`, then the push. -/
def sendXtByte (s : Sm) (byte : Byte) : Sm :=
  { s with y := XT_LOOP_INIT, fifo := s.fifo ++ [packXtFrame byte] }

def Format.send : Format → Sm → Byte → Sm
  | at_ => sendAtByte
  | xt => sendXtByte

/-- The bits that the program sends of a byte. -/
def Format.bits : Format → Byte → List Bool
  | at_, byte => false :: byteBits byte ++ [parityBit byte, true]
  | xt, byte => true :: byteBits byte

/-- More steps than a frame takes. -/
abbrev STEPS : Nat := 64

/-- The wire while bytes are sent: each one `idle` microseconds after the
program stalled, and `tail` microseconds after the last. -/
def wire (format : Format) : Sm → List (Nat × Byte) → Nat → List (Bool × Bool)
  | s, [], tail => List.replicate tail (s.clk, s.data)
  | s, (idle, byte) :: sends, tail =>
    let (s', frame) := (format.send s byte).run STEPS
    List.replicate idle (s.clk, s.data) ++ frame ++ wire format s' sends tail

/-- Waiting for a word: CLK is high. -/
structure Ready (s : Sm) (data : Bool) : Prop where
  pc : s.pc = 1
  y : s.y = AT_LOOP_INIT
  clk : s.clk = true
  data : s.data = data
  fifo : s.fifo = []

/-- The state machine as `new` leaves it, stalled for the first time. -/
def new : Sm := ⟨1, 0, AT_LOOP_INIT, 0, true, true, []⟩

theorem new_ready : Ready new true := ⟨rfl, rfl, rfl, rfl, rfl⟩

/-! ## A frame -/

/-- The lines in the loop of the program, DATA `p` before. -/
def loopSamples : Bool → List Bool → List (Bool × Bool)
  | _, [] => []
  | p, b :: bits =>
    List.replicate 10 (true, p) ++ (List.replicate 40 (false, p) ++ (List.replicate 10 (false, b) ++
      (List.replicate 40 (true, b) ++ (List.replicate 10 (true, b) ++ loopSamples b bits))))

theorem getLsbD_and_one (w : DWord) : (w &&& 1).getLsbD 0 = w.getLsbD 0 := by
  rw [BitVec.getLsbD_and]
  exact Bool.and_true _

/-- Once through the loop. -/
theorem run_bit (n y : Nat) (x w : DWord) (p : Bool) :
    (Sm.mk 2 x y w true p []).run (n + 5) =
      let (s, later) :=
        (Sm.mk (if y ≠ 0 then 2 else 7) (w &&& 1) ((y + (2 ^ 32 - 1)) % 2 ^ 32) (w >>> 1) true
        (w.getLsbD 0) []).run n
      (s, List.replicate 10 (true, p) ++
        (List.replicate 40 (false, p) ++ (List.replicate 10 (false, w.getLsbD 0) ++
        (List.replicate 40 (true, w.getLsbD 0) ++
          (List.replicate 10 (true, w.getLsbD 0) ++ later))))) := by
  rw [← getLsbD_and_one w]
  cases y with
  | zero => rfl
  | succ y => rfl

/-- The end of a frame: `set pins, 1`, `set y, 10`, and the program stalls. -/
theorem run_end (n y : Nat) (x w : DWord) (p : Bool) :
    (Sm.mk 7 x y w true p []).run (n + 3) = (⟨1, x, AT_LOOP_INIT, w, true, p, []⟩,
      List.replicate 20 (true, p)) := by
  unfold Sm.run
  rfl

/-- The level that DATA has after some bits. -/
def lastLevel : Bool → List Bool → Bool
  | p, [] => p
  | _, b :: bits => lastLevel b bits

/-- The loop of `k + 1` bits, and the end of the frame. -/
theorem run_loop (k n : Nat) (hk : k < 2 ^ 32) (x w : DWord) (p : Bool) :
    ∃ s, (Sm.mk 2 x k w true p []).run (n + 3 + 5 * (k + 1)) =
        (s, loopSamples p (lowBits (k + 1) w) ++ 
          List.replicate 20 (true, lastLevel p (lowBits (k + 1) w))) ∧
      Ready s (lastLevel p (lowBits (k + 1) w)) := by
  induction k generalizing x w p with
  | zero =>
    rw [show n + 3 + 5 * (0 + 1) = (n + 3) + 5 by omega, run_bit, if_neg (by decide), run_end,
      lowBits_succ]
    refine ⟨⟨1, w &&& 1, AT_LOOP_INIT, w >>> 1, true, w.getLsbD 0, []⟩, ?_, rfl, rfl, rfl, rfl, rfl⟩
    simp only [loopSamples, lastLevel, lowBits, List.range_zero, List.map_nil, List.append_assoc,
      List.append_nil]
  | succ k ih =>
    obtain ⟨s, hrun, hs⟩ := ih (by omega) (w &&& 1) (w >>> 1) (w.getLsbD 0)
    have hy : (k + 1 + (2 ^ 32 - 1)) % 2 ^ 32 = k := by omega
    rw [show n + 3 + 5 * (k + 1 + 1) = (n + 3 + 5 * (k + 1)) + 5 by omega, run_bit,
      if_pos (Nat.succ_ne_zero k), hy, hrun, lowBits_succ (k + 1) w]
    refine ⟨s, ?_, hs⟩
    simp only [loopSamples, lastLevel, List.append_assoc]

/-- The lines while a frame is sent, DATA `p` before. -/
def frameSamples (p : Bool) (bits : List Bool) : List (Bool × Bool) :=
  List.replicate 10 (true, p) ++ (loopSamples p bits ++ List.replicate 20 (true, lastLevel p bits))

theorem run_pull {n y : Nat} {x osr w : DWord} {p : Bool} {s : Sm} {later : List (Bool × Bool)}
    (h : (Sm.mk 2 x y w true p []).run n = (s, later)) :
    (Sm.mk 1 x y osr true p [w]).run (n + 1) = (s, List.replicate 10 (true, p) ++ later) := by
  show (((Sm.mk 2 x y w true p []).run n).1,
    List.replicate 10 (true, p) ++ ((Sm.mk 2 x y w true p []).run n).2) = _
  rw [h]

/-- A byte sent. -/
theorem run_send (format : Format) {s : Sm} {p : Bool} (h : Ready s p) (byte : Byte) :
    ∃ s', (format.send s byte).run STEPS = (s', frameSamples p (format.bits byte)) ∧
      Ready s' (lastLevel p (format.bits byte)) := by
  obtain ⟨pc, x, y, osr, clk, data, fifo⟩ := s
  obtain ⟨rfl, rfl, rfl, rfl, rfl⟩ := h
  cases format with
  | at_ =>
    obtain ⟨s', hrun, hs⟩ := run_loop AT_LOOP_INIT 5 (by decide) x (packAtFrame byte) data
    rw [lowBits_packAtFrame] at hrun hs
    exact ⟨s', run_pull (n := 63) hrun, hs⟩
  | xt =>
    obtain ⟨s', hrun, hs⟩ := run_loop XT_LOOP_INIT 15 (by decide) x (packXtFrame byte) data
    rw [lowBits_packXtFrame] at hrun hs
    exact ⟨s', run_pull (n := 63) hrun, hs⟩

end Tx

end VintageKvm.Ps2
