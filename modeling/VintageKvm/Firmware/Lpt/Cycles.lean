import VintageKvm.Firmware.Lpt.NibbleOut

/-!
# The state machines, cycle by cycle

What a state machine of the block does in a cycle, for all the instructions
that the LPT programs are made of: it waits, shifts in and out, pushes and
pulls, sets its side pin with each instruction, also while it stalls there, and
stalls where a FIFO is full or empty. `nibbleOut_cycles`: the sender of the
nibble channel is such a machine.
-/

namespace VintageKvm.Firmware.Lpt

/-- A configuration with its input side: the threshold that `auto_fill` pushes
at, and the depth of the RX FIFO. Where a program shifts in, the ISR shifts
left; the OSR shifts right, and is never filled on its own. -/
structure Setup extends Config where
  autoPush : Option Nat := none
  rxDepth : Nat := 4

structure Pio where
  pc : Nat
  /-- Cycles left of the last instruction's delay. -/
  delay : Nat
  x : DWord
  osr : DWord
  isr : DWord
  /-- Bits shifted into the ISR. -/
  isrCount : Nat
  rx : List DWord
  /-- The TX FIFO, with what the DMA channel has for it. -/
  tx : List DWord
  /-- The levels it drives, by GPIO. -/
  levels : Nat → Level

namespace Pio

variable (cfg : Setup) (gpio : Nat → Level) (sm : Pio)

/-- As a state machine comes up, on the levels that the pins were set to. -/
def start (levels : Nat → Level) : Pio := ⟨0, 0, 0, 0, 0, 0, [], [], levels⟩

/-- The `n` pins from the first of `pins` on, the first in bit 0. -/
def sampled (pins : List Nat) (n : Nat) : DWord :=
  (BitVec.ofBoolListLE ((pins.take n).map fun p => gpio p = .high)).setWidth 32

/-- Drives the pins with the low bits of a word. -/
def drive (pins : List Nat) (w : DWord) : Pio :=
  { sm with
    levels := fun p =>
      match pins.idxOf? p with
      | some i => if w.getLsbD i then .high else .low
      | none => sm.levels p }

/-- The side pin goes to the level of the instruction. -/
def sideSet (i : Instr) : Pio :=
  match i.side with
  | some on =>
    { sm with
      levels := fun p => if p ∈ cfg.sidePins then if on then .high else .low else sm.levels p }
  | none => sm

def goto (target : Nat) (i : Instr) : Pio := { sm with pc := target, delay := i.delay }

/-- To the next instruction, around the end of the program. -/
def next (i : Instr) : Pio := sm.goto (if sm.pc + 1 = cfg.program.length then 0 else sm.pc + 1) i

/-- A word to the RX FIFO, if it has room; the ISR is then empty. -/
def push : Option Pio :=
  if sm.rx.length < cfg.rxDepth then
    some { sm with rx := sm.rx ++ [sm.isr], isr := 0, isrCount := 0 }
  else none

/-- `in pins, n`. -/
def shiftIn (n : Nat) : Pio :=
  { sm with isr := sm.isr <<< n ||| sampled gpio cfg.inPins n, isrCount := sm.isrCount + n }

/-- The instruction that the program is at; the forms that no program uses
stall. -/
def exec (i : Instr) : Pio :=
  match i.op with
  | .pull false true =>
    match sm.tx with
    | [] => sm
    | w :: tx => next cfg { sm with osr := w, tx := tx } i
  | .push false true =>
    match sm.push cfg with
    | some sm' => next cfg sm' i
    | none => sm
  | .in_ .pins n =>
    match cfg.autoPush with
    | none => next cfg (shiftIn cfg gpio sm n) i
    | some threshold =>
      -- Stalled by a full FIFO, it has the pins in already.
      let sm := if threshold ≤ sm.isrCount then sm else shiftIn cfg gpio sm n
      if threshold ≤ sm.isrCount then
        match sm.push cfg with
        | some sm' => next cfg sm' i
        | none => sm
      else next cfg sm i
  | .out .pins n => next cfg { sm.drive (cfg.outPins.take n) sm.osr with osr := sm.osr >>> n } i
  | .out .x n => next cfg { sm with x := (sm.osr.setWidth n).setWidth 32, osr := sm.osr >>> n } i
  | .out .null n => next cfg { sm with osr := sm.osr >>> n } i
  | .wait polarity source index _ =>
    let pin := match source with
      | .pin => cfg.inPins.getD index 0
      | .gpio => index
    if gpio pin = (if polarity then .high else .low) then next cfg sm i else sm
  | .jmp .always target => sm.goto target i
  | .jmp .xIsZero target => if sm.x = 0 then sm.goto target i else next cfg sm i
  | .movPins => next cfg (sm.drive cfg.outPins (sampled gpio cfg.inPins 32)) i
  | .nop => next cfg sm i
  | _ => sm

/-- One cycle. -/
def cycle : Pio :=
  match sm.delay with
  | d + 1 => { sm with delay := d }
  | 0 =>
    match cfg.program[sm.pc]? with
    | some i => exec cfg gpio (sideSet cfg sm i) i
    | none => sm

variable {cfg gpio sm}

/-- The levels of pins, bit by bit. -/
theorem sampled_eq {pins : List Nat} {n : Nat} (hn : n ≤ pins.length) (w : DWord)
    (h : ∀ i < n, decide (gpio (pins.getD i 0) = .high) = w.getLsbD i) :
    sampled gpio pins n = (w.setWidth n).setWidth 32 := by
  apply BitVec.eq_of_getLsbD_eq
  intro i hi
  simp only [sampled, BitVec.getLsbD_setWidth, BitVec.getLsbD_ofBoolListLE, hi, decide_true,
    Bool.true_and]
  rcases Nat.lt_or_ge i n with hlt | hge
  · have hpin : pins[i]? = some (pins.getD i 0) := by
      rw [List.getD_eq_getElem?_getD, List.getElem?_eq_getElem (hlt.trans_le hn)]
      rfl
    rw [List.getD_eq_getElem?_getD, List.getElem?_map, List.getElem?_take_of_lt hlt, hpin,
      Option.map_some, Option.getD_some, h i hlt, decide_eq_true hlt, Bool.true_and]
  · rw [List.getD_eq_getElem?_getD,
      List.getElem?_eq_none (by rw [List.length_map, List.length_take]; omega), Option.getD_none,
      decide_eq_false (by omega), Bool.false_and]

theorem push_room (h : sm.rx.length < cfg.rxDepth) :
    sm.push cfg = some { sm with rx := sm.rx ++ [sm.isr], isr := 0, isrCount := 0 } := if_pos h

/-- The pins that fill the ISR go to the FIFO with it, if it has room. -/
theorem exec_autoPush {i : Instr} {n threshold : Nat} (hop : i.op = .in_ .pins n)
    (hauto : cfg.autoPush = some threshold) (hlt : sm.isrCount < threshold)
    (hle : threshold ≤ sm.isrCount + n) (hroom : sm.rx.length < cfg.rxDepth) :
    exec cfg gpio sm i =
      next cfg
        { sm with
          rx := sm.rx ++ [sm.isr <<< n ||| sampled gpio cfg.inPins n], isr := 0,
          isrCount := 0 } i := by
  have hfilled : threshold ≤ (shiftIn cfg gpio sm n).isrCount := hle
  rw [exec, hop]
  dsimp only
  rw [hauto]
  dsimp only
  rw [if_neg (Nat.not_le.mpr hlt), if_pos hfilled,
    push_room (show (shiftIn cfg gpio sm n).rx.length < cfg.rxDepth from hroom)]
  rfl

theorem cycle_delay {d : Nat} (h : sm.delay = d + 1) :
    cycle cfg gpio sm = { sm with delay := d } := by
  rw [cycle, h]

theorem cycle_exec {i : Instr} (h : sm.delay = 0) (hi : cfg.program[sm.pc]? = some i) :
    cycle cfg gpio sm = exec cfg gpio (sideSet cfg sm i) i := by
  rw [cycle, h]
  dsimp only
  rw [hi]

end Pio

/-! ## The sender of the nibble channel -/

namespace PioNibbleOut

def setup : Setup := { config with }

/-- A state machine with the program of the sender is in the sender's state. -/
structure Same (sm : Sm) (p : Pio) : Prop where
  pc : p.pc = sm.pc
  delay : p.delay = sm.delay
  osr : p.osr = sm.osr
  tx : p.tx = sm.tx
  levels : p.levels = sm.levels

theorem Same.next {sm : Sm} {p : Pio} (h : Same sm p) (i : Instr) :
    Same (sm.next config i) (Pio.next setup p i) := by
  refine ⟨?_, rfl, h.osr, h.tx, h.levels⟩
  simp only [Sm.next, Pio.next, Pio.goto, h.pc]
  rfl

theorem Same.cycle {sm : Sm} {p : Pio} (h : Same sm p) (gpio : Nat → Level) :
    Same (sm.cycle config) (p.cycle setup gpio) := by
  cases hd : sm.delay with
  | succ d =>
    rw [Pio.cycle_delay (h.delay.trans hd), Sm.cycle, hd]
    exact ⟨h.pc, rfl, h.osr, h.tx, h.levels⟩
  | zero =>
    rw [Sm.cycle, hd]
    dsimp only
    cases hi : config.program[sm.pc]? with
    | none =>
      rw [Pio.cycle, h.delay.trans hd]
      dsimp only
      rw [h.pc, show setup.program[sm.pc]? = none from hi]
      exact h
    | some i =>
      rw [Pio.cycle_exec (h.delay.trans hd) (show setup.program[p.pc]? = some i from h.pc ▸ hi)]
      have hprogram : ∀ i ∈ nibbleOutProgram,
          i.side = none ∧ (i.op = .pull false true ∨ i.op = .out .pins 5 ∨ i.op = .nop) := by decide
      obtain ⟨hside, hop⟩ := hprogram i (List.mem_of_getElem? hi)
      rw [Pio.sideSet, hside]
      dsimp only
      rcases hop with hop | hop | hop <;> rw [Sm.exec, Pio.exec, hop] <;> dsimp only
      · rw [h.tx]
        cases sm.tx with
        | nil => exact h
        | cons w tx =>
          have hpulled : Same { sm with osr := w, tx := tx } { p with osr := w, tx := tx } :=
            ⟨h.pc, h.delay, rfl, rfl, h.levels⟩
          exact hpulled.next i
      · have hout : Same (sm.outPins config 5) { p.drive (setup.outPins.take 5) p.osr with
            osr := p.osr >>> 5 } := by
          refine ⟨h.pc, h.delay, ?_, h.tx, ?_⟩
          · show p.osr >>> 5 = sm.osr >>> 5
            rw [h.osr]
          · rw [Pio.drive, h.osr, h.levels]
            rfl
        exact hout.next i
      · exact h.next i

/-- The machine after `t` cycles, when in cycle `t` the words `feed t` come and
the GPIOs have the levels `gpio t`. -/
def cycles (common : Board) (feed : Nat → List DWord) (gpio : Nat → Nat → Level) : Nat → Pio
  | 0 => .start (idle common).levels
  | t + 1 =>
    let p := cycles common feed gpio t
    Pio.cycle setup (gpio t) { p with tx := p.tx ++ feed t }

/-- The sender is the state machine with its program, whatever the GPIOs
show. -/
theorem nibbleOut_cycles (common : Board) (feed : Nat → List DWord)
    (gpio : Nat → Nat → Level) (t : Nat) :
    Same (Sm.cycles config (idle common) feed t) (cycles common feed gpio t) := by
  induction t with
  | zero => exact ⟨rfl, rfl, rfl, rfl, rfl⟩
  | succ t ih =>
    have hfed : Same { Sm.cycles config (idle common) feed t with
      tx := (Sm.cycles config (idle common) feed t).tx ++ feed t }
        { cycles common feed gpio t with tx := (cycles common feed gpio t).tx ++ feed t } :=
      ⟨ih.pc, ih.delay, ih.osr, congrArg (· ++ feed t) ih.tx, ih.levels⟩
    exact hfed.cycle (gpio t)

end PioNibbleOut

end VintageKvm.Firmware.Lpt
