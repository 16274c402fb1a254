import VintageKvm.Firmware.Lpt.Pio

/-!
# What the LPT phys share

The state machines, the DMA channel and the pins outlast any one phy: a phy
takes them from `LptHardware` when it is built and parks them there when it is
dismantled. `Board` is what all of them write: the instruction slots in use
and the registers.
-/

namespace VintageKvm.Firmware.Lpt

inductive LptError where
  | timeout | modeMismatch | hardware
  deriving DecidableEq, Repr

inductive LptMode where
  | spp | sppNibble | byte | epp | ecp | ecpDma
  deriving DecidableEq, Repr

/-- Where the firmware stops. -/
inductive Panic where
  | expect (msg : String)
  | loadProgram
  deriving DecidableEq, Repr

/-- `Option::expect`. -/
def expect {α : Type} (slot : Option α) (msg : String) : Except Panic α :=
  match slot with
  | some a => .ok a
  | none => .error (.expect msg)

@[simp] theorem expect_some {α : Type} (a : α) (msg : String) : expect (some a) msg = .ok a := rfl

/-! ## Registers -/

inductive Level where
  | low | high
  deriving DecidableEq, Repr

inductive Direction where
  | input | output
  deriving DecidableEq, Repr

/-- Who drives a pin: the CPU, or PIO0. -/
inductive FuncSel where
  | sio | pio0
  deriving DecidableEq, Repr

/-- The instruction slots of PIO0 in use, and the registers the LPT side
writes. -/
structure Board where
  instructionsUsed : Finset (Fin 32)
  /-- The channel of the compat-in ring, DMA_CH3, is enabled. -/
  ringArmed : Bool
  /-- GP29, the transceiver's DIR: its function, and its level and output enable
  under CPU control. -/
  dirFuncsel : FuncSel
  dirOe : Bool
  dirSio : Level
  /-- GP0, the transceiver's HD. -/
  hd : Level
  /-- The levels and directions PIO0 drives the pins with, by GPIO. -/
  pinLevels : Nat → Level
  pinDirs : Nat → Direction

namespace Board

variable (b : Board)

/-- `Common::load_program`. -/
def loadProgram (load : Loader) (code : Program) : Except Panic (Finset (Fin 32) × Board) :=
  match load b.instructionsUsed code.length with
  | some used => .ok (used, { b with instructionsUsed := b.instructionsUsed ∪ used })
  | none => .error .loadProgram

/-- `Common::free_instr`. -/
def freeInstr (used : Finset (Fin 32)) : Board :=
  { b with instructionsUsed := b.instructionsUsed \ used }

/-- `StateMachine::set_pins`. -/
def setPins (level : Level) (pins : List Nat) : Board :=
  { b with pinLevels := fun p => if p ∈ pins then level else b.pinLevels p }

/-- `StateMachine::set_pin_dirs`. -/
def setPinDirs (dir : Direction) (pins : List Nat) : Board :=
  { b with pinDirs := fun p => if p ∈ pins then dir else b.pinDirs p }

def setDirFuncsel (sel : FuncSel) : Board := { b with dirFuncsel := sel }

def enableDirSioOutput : Board := { b with dirOe := true }

def driveDirSio (level : Level) : Board := { b with dirSio := level }

/-- `ring_dma::arm`. -/
def arm : Board := { b with ringArmed := true }

/-- `ring_dma::disarm`. -/
def disarm : Board := { b with ringArmed := false }

end Board

/-! ## Handles -/

/-- How a state machine is set up. -/
structure Config where
  program : Program
  inPins : List Nat := []
  outPins : List Nat := []
  sidePins : List Nat := []

structure StateMachine (n : Nat) where
  config : Option Config
  enabled : Bool

namespace StateMachine

variable {n : Nat} (sm : StateMachine n)

def setConfig (cfg : Config) : StateMachine n := { sm with config := some cfg }

def setEnable (on : Bool) : StateMachine n := { sm with enabled := on }

end StateMachine

/-- A DMA channel. -/
structure DmaChannel (n : Nat) where

/-- A program in the instruction memory. -/
structure LoadedProgram where
  code : Program
  usedMemory : Finset (Fin 32)

namespace Board

variable {n : Nat} (b : Board) (sm : StateMachine n)

/-- How a PIO block comes up: its program is loaded, its state machine set up
and enabled. -/
def start (load : Loader) (cfg : Config) :
    Except Panic ((StateMachine n × LoadedProgram) × Board) := do
  let (used, b) ← b.loadProgram load cfg.program
  pure ((sm.setConfig cfg |>.setEnable true, ⟨cfg.program, used⟩), b)

/-- How it goes down. -/
def stop (program : LoadedProgram) : StateMachine n × Board :=
  (sm.setEnable false, b.freeInstr program.usedMemory)

end Board

/-- The reader of the compat-in ring. -/
structure RingHandle where
  lastTail : Nat

/-- The pins, by their GPIO. -/
structure LptPins where
  strobe : Nat := 11
  d : List Nat := [12, 13, 14, 15, 16, 17, 18, 19]
  autoFd : Nat := 20
  slctin : Nat := 22
  nack : Nat := 23
  busy : Nat := 24
  perror : Nat := 25
  select : Nat := 26
  nfault : Nat := 27
  dir : Nat := 29

structure LptHardware where
  board : Board
  pins : LptPins
  parkedSm0 : Option (StateMachine 0)
  parkedSm1 : Option (StateMachine 1)
  parkedSm2 : Option (StateMachine 2)
  parkedDmaCh4 : Option (DmaChannel 4)

namespace LptHardware

/-- The registers after reset, once the pins are PIO0's and HD is driven low. -/
def reset : Board where
  instructionsUsed := ∅
  ringArmed := false
  dirFuncsel := .pio0
  dirOe := false
  dirSio := .low
  hd := .low
  pinLevels := fun _ => .low
  pinDirs := fun _ => .input

def new (sm0 : StateMachine 0) (sm1 : StateMachine 1) (sm2 : StateMachine 2)
    (dmaCh4 : DmaChannel 4) : LptHardware where
  board := reset |>.setDirFuncsel .sio |>.enableDirSioOutput |>.driveDirSio .low
  pins := {}
  parkedSm0 := some sm0
  parkedSm1 := some sm1
  parkedSm2 := some sm2
  parkedDmaCh4 := some dmaCh4

/-- `set_transceiver_mode`. -/
def setTransceiverMode (hw : LptHardware) (target : LptMode) : LptHardware :=
  let (dirLevel, hdLevel) := match target with
    | .spp | .sppNibble => (Level.low, Level.low)
    | .byte | .epp | .ecp | .ecpDma => (Level.low, Level.high)
  { hw with board := { hw.board.driveDirSio dirLevel with hd := hdLevel } }

end LptHardware

end VintageKvm.Firmware.Lpt
