import VintageKvm.Lib.Word
import VintageKvm.Firmware.Lpt.Phys
import Mathlib.Data.List.GetD
import Mathlib.Order.Monotone.Basic

/-!
# The nibble sender at work

`send_byte` and `send_bytes` turn each byte into one word of two pin patterns,
and the state machine that runs `lpt_nibble_out` puts the two on the pins one
after the other. `Sm` is that state machine, cycle by cycle; whenever the words
come, the pins show the patterns in order (`Shows.cycles`).
-/

namespace VintageKvm.Firmware.Lpt

/-! ## Packing -/

namespace PioNibbleOut

/-- `MAX_BATCH_BYTES`. -/
abbrev MAX_BATCH_BYTES : Nat := 256

def packNibble (nibble : Byte) (phase : Bool) : Byte :=
  (nibble >>> 3 &&& 1)
    ||| ((if phase then 1 else 0) <<< 1)
    ||| ((nibble >>> 2 &&& 1) <<< 2)
    ||| ((nibble >>> 1 &&& 1) <<< 3)
    ||| ((nibble &&& 1) <<< 4)

def packByte (byte : Byte) : DWord :=
  let lo := (packNibble (byte &&& 0x0F) true).setWidth 32
  let hi := (packNibble (byte >>> 4 &&& 0x0F) false).setWidth 32
  lo ||| (hi <<< 5)

/-- A batch of at most `MAX_BATCH_BYTES`: a longer one fails an assertion. A
single byte is a batch of one. -/
structure Batch where
  bytes : List Byte
  fits : bytes.length ≤ MAX_BATCH_BYTES

/-- The words that `send_byte` or `send_bytes` hand to the DMA channel. -/
def Batch.words (batch : Batch) : List DWord := batch.bytes.map packByte

/-- The bytes of batches sent one after another. -/
def sent (batches : List Batch) : List Byte := batches.flatMap (·.bytes)

theorem words_eq (batches : List Batch) : batches.flatMap (·.words) = (sent batches).map packByte :=
  (List.map_flatMap ..).symm

end PioNibbleOut

/-! ## The state machine -/

/-- A state machine that sends. -/
structure Sm where
  pc : Nat
  /-- Cycles left of the last instruction's delay. -/
  delay : Nat
  osr : DWord
  /-- The TX FIFO, with what the DMA channel has for it. -/
  tx : List DWord
  /-- The levels it drives, by GPIO. -/
  levels : Nat → Level
  /-- How many patterns it has put out. -/
  outs : Nat

namespace Sm

variable (cfg : Config)

/-- To the next instruction, around the end of the program. -/
def next (sm : Sm) (i : Instr) : Sm :=
  { sm with pc := if sm.pc + 1 = cfg.program.length then 0 else sm.pc + 1, delay := i.delay }

/-- `out pins, n`, by a right shift. -/
def outPins (sm : Sm) (n : Nat) : Sm :=
  { sm with
    levels := fun p =>
      match (cfg.outPins.take n).idxOf? p with
      | some i => if sm.osr.getLsbD i then .high else .low
      | none => sm.levels p
    osr := sm.osr >>> n
    outs := sm.outs + 1 }

/-- The instructions of a program that only sends; any other stalls. -/
def exec (sm : Sm) (i : Instr) : Sm :=
  match i.op with
  | .pull false true =>
    match sm.tx with
    | [] => sm
    | w :: tx => next cfg { sm with osr := w, tx := tx } i
  | .out .pins n => next cfg (sm.outPins cfg n) i
  | .nop => sm.next cfg i
  | _ => sm

/-- One cycle. -/
def cycle (sm : Sm) : Sm :=
  match sm.delay with
  | d + 1 => { sm with delay := d }
  | 0 =>
    match cfg.program[sm.pc]? with
    | some i => sm.exec cfg i
    | none => sm

/-- After `t` cycles, when in cycle `t` the words `feed t` come. -/
def cycles (start : Sm) (feed : Nat → List DWord) : Nat → Sm
  | 0 => start
  | t + 1 =>
    let sm := cycles start feed t
    cycle cfg { sm with tx := sm.tx ++ feed t }

theorem outs_le_cycle (sm : Sm) : sm.outs ≤ (sm.cycle cfg).outs := by
  rw [cycle]
  split
  · exact Nat.le_refl _
  · split
    · rw [exec]
      split
      · split <;> exact Nat.le_refl _
      · exact Nat.le_succ _
      · exact Nat.le_refl _
      · exact Nat.le_refl _
    · exact Nat.le_refl _

theorem outs_monotone (start : Sm) (feed : Nat → List DWord) :
    Monotone fun t => (cycles cfg start feed t).outs :=
  monotone_nat_of_le_succ fun t =>
    let sm := cycles cfg start feed t
    outs_le_cycle cfg { sm with tx := sm.tx ++ feed t }

end Sm

/-! ## What is on the pins -/

namespace PioNibbleOut

/-- The state machine as `new` sets it up on the boot-time pins. -/
def config : Config where
  program := nibbleOutProgram
  outPins := [23, 24, 25, 26, 27]

/-- The pins idle low. -/
def idle (common : Board) : Sm where
  pc := 0
  delay := 0
  osr := 0
  tx := []
  levels := (common.setPins .low [23, 24, 25, 26, 27]).pinLevels
  outs := 0

theorem new_config {load : Loader} {common common' : Board} {sm1 : StateMachine 1}
    {dma : DmaChannel 4} {phy : PioNibbleOut}
    (h : PioNibbleOut.new load common sm1 dma {} = .ok (phy, common')) :
    phy.sm1 = ⟨some config, true⟩ ∧ common'.pinLevels = (idle common).levels := by
  cases hload : load common.instructionsUsed nibbleOutProgram.length <;>
    simp only [PioNibbleOut.new, Board.start, Board.loadProgram, Board.setPins,
      Board.setPinDirs, hload, bind, Except.bind, pure, Except.pure] at h
  · cases h
  · cases h
    exact ⟨rfl, rfl⟩

/-- The patterns of the words that came: before the first, low; then two of each
word. -/
def pattern (fed : List DWord) : Nat → BitVec 5
  | 0 => 0
  | k + 1 => (fed.getD (k / 2) 0 >>> (5 * (k % 2))).setWidth 5

theorem pattern_append {fed : List DWord} (more : List DWord) {k : Nat} (h : k ≤ 2 * fed.length) :
    pattern (fed ++ more) k = pattern fed k := by
  cases k with
  | zero => rfl
  | succ k => rw [pattern, pattern, List.getD_append _ _ _ _ (by omega)]

/-- The five pins have the levels of the pattern. -/
def Drives (levels : Nat → Level) (pat : BitVec 5) : Prop :=
  ∀ i < 5, levels (23 + i) = if pat.getLsbD i then .high else .low

theorem drives_outPins (sm : Sm) : Drives (sm.outPins config 5).levels (sm.osr.setWidth 5) := by
  intro i hi
  have hpin : ∀ i < 5, (config.outPins.take 5).idxOf? (23 + i) = some i := by decide
  simp only [Sm.outPins, hpin i hi, BitVec.getLsbD_setWidth, hi, decide_true, Bool.true_and]

theorem pattern_odd {fed : List DWord} {n : Nat} {w : DWord} (h : fed[n]? = some w) :
    pattern fed (2 * n + 1) = w.setWidth 5 := by
  rw [pattern, List.getD_eq_getElem?_getD, Nat.mul_div_cancel_left n (by decide),
    Nat.mul_mod_right, h]
  rfl

theorem pattern_even {fed : List DWord} {n : Nat} {w : DWord} (h : fed[n]? = some w) :
    pattern fed (2 * n + 2) = (w >>> 5).setWidth 5 := by
  rw [pattern, List.getD_eq_getElem?_getD,
    show (2 * n + 1) / 2 = n by omega, show (2 * n + 1) % 2 = 1 by omega, h]
  rfl

/-- Where the program is, when it has pulled so many of the words that came. -/
inductive Stage (fed : List DWord) (pulled : Nat) (sm : Sm) : Prop
  | pull : sm.pc = 0 → sm.outs = 2 * pulled → Stage fed pulled sm
  | low {n : Nat} {w : DWord} : sm.pc = 1 → pulled = n + 1 → sm.outs = 2 * n →
    fed[n]? = some w → sm.osr = w → Stage fed pulled sm
  | settle {n : Nat} {w : DWord} : sm.pc = 2 ∨ sm.pc = 3 → pulled = n + 1 → sm.outs = 2 * n + 1 →
    fed[n]? = some w → sm.osr = w >>> 5 → Stage fed pulled sm
  | high : sm.pc = 4 → sm.outs = 2 * pulled → Stage fed pulled sm

/-- The pins show the pattern that the count of patterns says, of the words that
came. -/
structure Shows (fed : List DWord) (pulled : Nat) (sm : Sm) : Prop where
  pulled_le : pulled ≤ fed.length
  tx : sm.tx = fed.drop pulled
  outs_le : sm.outs ≤ 2 * pulled
  stage : Stage fed pulled sm
  drives : Drives sm.levels (pattern fed sm.outs)

namespace Shows

variable {fed : List DWord} {pulled : Nat} {sm : Sm}

theorem idle (common : Board) : Shows [] 0 (idle common) where
  pulled_le := Nat.le_refl 0
  tx := rfl
  outs_le := Nat.le_refl 0
  stage := .pull rfl rfl
  drives i hi := by
    have hmem : 23 + i ∈ [23, 24, 25, 26, 27] := by
      simp only [List.mem_cons, List.not_mem_nil, or_false]
      omega
    rw [PioNibbleOut.idle, Board.setPins]
    simp only [if_pos hmem, pattern]
    exact (if_neg (by simp)).symm

/-- More words come. -/
theorem feed (h : Shows fed pulled sm) (more : List DWord) :
    Shows (fed ++ more) pulled { sm with tx := sm.tx ++ more } where
  pulled_le := h.pulled_le.trans (by simp)
  tx := by
    rw [h.tx]
    exact (List.drop_append_of_le_length h.pulled_le).symm
  outs_le := h.outs_le
  stage := by
    have hget {n : Nat} {w : DWord} (hw : fed[n]? = some w) : (fed ++ more)[n]? = some w :=
      (List.getElem?_append_left (List.getElem?_eq_some_iff.mp hw).1).trans hw
    cases h.stage with
    | pull hpc houts => exact .pull hpc houts
    | low hpc hn houts hw hosr => exact .low hpc hn houts (hget hw) hosr
    | settle hpc hn houts hw hosr => exact .settle hpc hn houts (hget hw) hosr
    | high hpc houts => exact .high hpc houts
  drives := by
    have hle := h.outs_le.trans (Nat.mul_le_mul_left 2 h.pulled_le)
    rw [show pattern (fed ++ more) sm.outs = pattern fed sm.outs from pattern_append more hle]
    exact h.drives

/-- A cycle of a delay. -/
theorem wait (h : Shows fed pulled sm) (d : Nat) : Shows fed pulled { sm with delay := d } where
  pulled_le := h.pulled_le
  tx := h.tx
  outs_le := h.outs_le
  stage := by
    cases h.stage with
    | pull hpc houts => exact .pull hpc houts
    | low hpc hn houts hw hosr => exact .low hpc hn houts hw hosr
    | settle hpc hn houts hw hosr => exact .settle hpc hn houts hw hosr
    | high hpc houts => exact .high hpc houts
  drives := h.drives

/-- One cycle: at most one word is pulled. -/
theorem cycle (h : Shows fed pulled sm) : ∃ pulled', Shows fed pulled' (sm.cycle config) := by
  rw [Sm.cycle]
  cases sm.delay with
  | succ d => exact ⟨pulled, h.wait d⟩
  | zero =>
    dsimp only
    cases h.stage with
    | pull hpc houts =>
      rw [hpc]
      show ∃ pulled', Shows fed pulled' (sm.exec config ⟨.pull false true, 0, none⟩)
      simp only [Sm.exec]
      cases htx : sm.tx with
      | nil => exact ⟨pulled, h⟩
      | cons w tx =>
        have hdrop : fed.drop pulled = w :: tx := h.tx.symm.trans htx
        have hw : fed[pulled]? = some w := by
          rw [← List.head?_drop, hdrop]
          rfl
        refine ⟨pulled + 1, (List.getElem?_eq_some_iff.mp hw).1, ?_, ?_,
          .low ?_ rfl houts hw rfl, h.drives⟩
        · rw [← List.tail_drop, hdrop]
          rfl
        · exact h.outs_le.trans (by omega)
        · simp only [Sm.next, hpc]
          rfl
    | @low n w hpc hn houts hw hosr =>
      rw [hpc]
      show ∃ pulled',
        Shows fed pulled' (Sm.next config (sm.outPins config 5) ⟨.out .pins 5, 0, none⟩)
      have hstep : (sm.outPins config 5).outs = 2 * n + 1 := congrArg (· + 1) houts
      refine ⟨pulled, h.pulled_le, h.tx, (by simp only [Sm.next, hstep]; omega), ?_, ?_⟩
      · refine .settle (n := n) (w := w) (.inl ?_) hn hstep hw ?_
        · simp only [Sm.next, Sm.outPins, hpc]
          rfl
        · simp only [Sm.next, Sm.outPins, hosr]
      · simp only [Sm.next, hstep, pattern_odd hw, ← hosr]
        exact drives_outPins sm
    | @settle n w hpc hn houts hw hosr =>
      rcases hpc with hpc | hpc <;> rw [hpc]
      · show ∃ pulled', Shows fed pulled' (sm.next config ⟨.nop, 9, none⟩)
        refine ⟨pulled, h.pulled_le, h.tx, h.outs_le, .settle (.inr ?_) hn houts hw hosr, h.drives⟩
        simp only [Sm.next, hpc]
        rfl
      · show ∃ pulled',
          Shows fed pulled' (Sm.next config (sm.outPins config 5) ⟨.out .pins 5, 0, none⟩)
        have hstep : (sm.outPins config 5).outs = 2 * n + 2 := congrArg (· + 1) houts
        refine ⟨pulled, h.pulled_le, h.tx, (by simp only [Sm.next, hstep]; omega), .high ?_ ?_, ?_⟩
        · simp only [Sm.next, Sm.outPins, hpc]
          rfl
        · simp only [Sm.next, hstep]
          omega
        · simp only [Sm.next, hstep, pattern_even hw, ← hosr]
          exact drives_outPins sm
    | high hpc houts =>
      rw [hpc]
      show ∃ pulled', Shows fed pulled' (sm.next config ⟨.nop, 9, none⟩)
      refine ⟨pulled, h.pulled_le, h.tx, h.outs_le, .pull ?_ houts, h.drives⟩
      simp only [Sm.next, hpc]
      rfl

/-- At every cycle, whenever the words come. -/
theorem cycles (common : Board) (feed : Nat → List DWord) (t : Nat) :
    ∃ pulled, Shows ((List.range t).flatMap feed) pulled
      (Sm.cycles config (PioNibbleOut.idle common) feed t) := by
  induction t with
  | zero => exact ⟨0, .idle common⟩
  | succ t ih =>
    obtain ⟨pulled, h⟩ := ih
    obtain ⟨pulled', h'⟩ := (h.feed (feed t)).cycle
    refine ⟨pulled', ?_⟩
    rw [List.range_succ, List.flatMap_append, List.flatMap_singleton]
    exact h'

end Shows

end PioNibbleOut

end VintageKvm.Firmware.Lpt
