import VintageKvm.Firmware.Lpt.Hardware

/-!
# The LPT phys

A PIO block of a phy is a state machine, its program and, where it sends, the
DMA channel: `new` brings it up and `dismantle` takes it down and hands back
what `new` was given. A phy is one block or two, built from the parked
resources of `LptHardware` and dismantled to them.
-/

namespace VintageKvm.Firmware.Lpt

/-! ## Forward: `lpt_compat_in` -/

def compatInProgram : Program :=
  [⟨.wait false .pin 0 false, 0, none⟩,
    ⟨.in_ .pins 9, 0, none⟩,
    ⟨.wait true .pin 0 false, 0, none⟩]

structure PioCompatIn where
  sm0 : StateMachine 0
  program : LoadedProgram
  ring : RingHandle

def PioCompatIn.new (load : Loader) (common : Board) (sm0 : StateMachine 0) (pins : LptPins) :
    Except Panic (PioCompatIn × Board) := do
  let ((sm0, program), common) ← common.start sm0 load
    { program := compatInProgram, inPins := pins.strobe :: pins.d }
  pure (⟨sm0, program, ⟨0⟩⟩, common.arm)

def PioCompatIn.dismantle (phy : PioCompatIn) (common : Board) : StateMachine 0 × Board :=
  common.disarm.stop phy.sm0 phy.program

/-! ## Nibble reverse: `lpt_nibble_out` -/

def nibbleOutProgram : Program :=
  [⟨.pull false true, 0, none⟩,
    ⟨.out .pins 5, 0, none⟩,
    ⟨.nop, 9, none⟩,
    ⟨.out .pins 5, 0, none⟩,
    ⟨.nop, 9, none⟩]

structure PioNibbleOut where
  sm1 : StateMachine 1
  dma : DmaChannel 4
  program : LoadedProgram

def PioNibbleOut.new (load : Loader) (common : Board) (sm1 : StateMachine 1) (dma : DmaChannel 4)
    (lptPins : LptPins) : Except Panic (PioNibbleOut × Board) := do
  let pins := [lptPins.nack, lptPins.busy, lptPins.perror, lptPins.select, lptPins.nfault]
  let common := common.setPins .low pins |>.setPinDirs .output pins
  let ((sm1, program), common) ← common.start sm1 load
    { program := nibbleOutProgram, outPins := pins }
  pure (⟨sm1, dma, program⟩, common)

def PioNibbleOut.dismantle (phy : PioNibbleOut) (common : Board) :
    (StateMachine 1 × DmaChannel 4) × Board :=
  let (sm1, common) := common.stop phy.sm1 phy.program
  ((sm1, phy.dma), common)

/-! ## Byte reverse: `lpt_byte_rev` -/

def byteRevProgram : Program :=
  [⟨.pull false true, 0, some true⟩,
    ⟨.wait false .pin 0 false, 0, some true⟩,
    ⟨.out .pins 8, 0, some true⟩,
    ⟨.nop, 4, some false⟩,
    ⟨.wait true .pin 0 false, 0, some true⟩]

structure PioByteRev where
  sm1 : StateMachine 1
  dma : DmaChannel 4
  program : LoadedProgram

def PioByteRev.new (load : Loader) (common : Board) (sm1 : StateMachine 1) (dma : DmaChannel 4)
    (pins : LptPins) : Except Panic (PioByteRev × Board) := do
  let dataPins := pins.d
  let sidePins := [pins.nack]
  let common := common.setPins .high sidePins |>.setPins .low dataPins
    |>.setPinDirs .output dataPins |>.setPinDirs .output sidePins
  let ((sm1, program), common) ← common.start sm1 load
    { program := byteRevProgram, outPins := dataPins, inPins := [pins.autoFd], sidePins }
  pure (⟨sm1, dma, program⟩, common)

def PioByteRev.dismantle (phy : PioByteRev) (common : Board) :
    (StateMachine 1 × DmaChannel 4) × Board :=
  let (sm1, common) := common.stop phy.sm1 phy.program
  ((sm1, phy.dma), common)

/-! ## EPP: `lpt_epp` and the DIR follower -/

/-- nDataStb. -/
abbrev NDATASTB_GPIO : Nat := 20

def eppProgram : Program :=
  [⟨.pull false true, 0, some true⟩,
    ⟨.out .x 1, 0, some true⟩,
    ⟨.out .null 23, 0, some true⟩,
    ⟨.jmp .xIsZero 9, 0, some true⟩,
    ⟨.out .pins 8, 0, some true⟩,
    ⟨.wait false .gpio NDATASTB_GPIO false, 0, some true⟩,
    ⟨.nop, 4, some false⟩,
    ⟨.wait true .gpio NDATASTB_GPIO false, 0, some true⟩,
    ⟨.jmp .always 0, 0, some true⟩,
    ⟨.wait false .gpio NDATASTB_GPIO false, 0, some true⟩,
    ⟨.in_ .pins 8, 0, some false⟩,
    ⟨.push false true, 0, some false⟩,
    ⟨.wait true .gpio NDATASTB_GPIO false, 0, some false⟩,
    ⟨.jmp .always 0, 0, some true⟩]

structure PioEpp where
  sm0 : StateMachine 0
  dma : DmaChannel 4
  program : LoadedProgram

def PioEpp.new (load : Loader) (common : Board) (sm0 : StateMachine 0) (dma : DmaChannel 4)
    (pins : LptPins) : Except Panic (PioEpp × Board) := do
  let dataPins := pins.d
  let sidePins := [pins.busy]
  let ((sm0, program), common) ← common.start sm0 load
    { program := eppProgram, outPins := dataPins, inPins := dataPins, sidePins }
  pure (⟨sm0, dma, program⟩, common)

def PioEpp.dismantle (phy : PioEpp) (common : Board) : (StateMachine 0 × DmaChannel 4) × Board :=
  let (sm0, common) := common.stop phy.sm0 phy.program
  ((sm0, phy.dma), common)

def dirFollowerProgram : Program := [⟨.movPins, 0, none⟩]

structure PioDirFollower where
  sm2 : StateMachine 2
  program : LoadedProgram

def PioDirFollower.new (load : Loader) (common : Board) (sm2 : StateMachine 2) (pins : LptPins) :
    Except Panic (PioDirFollower × Board) := do
  let ((sm2, program), common) ← common.start sm2 load
    { program := dirFollowerProgram, inPins := [pins.strobe], outPins := [pins.dir] }
  pure (⟨sm2, program⟩, common.setPinDirs .output [pins.dir] |>.setDirFuncsel .pio0)

def PioDirFollower.dismantle (phy : PioDirFollower) (common : Board) : StateMachine 2 × Board :=
  let (sm2, common) := common.stop phy.sm2 phy.program
  (sm2, common.setDirFuncsel .sio)

/-! ## ECP: `lpt_ecp_fwd_dma` and `lpt_ecp_rev_dma` -/

/-- HostAck. -/
abbrev HOSTACK_GPIO : Nat := 20

def ecpFwdProgram : Program :=
  [⟨.wait false .pin 0 false, 0, some true⟩,
    ⟨.in_ .pins 9, 0, some true⟩,
    ⟨.nop, 2, some false⟩,
    ⟨.push false true, 0, some false⟩,
    ⟨.wait true .pin 0 false, 0, some true⟩]

structure PioEcpFwd where
  sm0 : StateMachine 0
  program : LoadedProgram

def PioEcpFwd.new (load : Loader) (common : Board) (sm0 : StateMachine 0) (pins : LptPins) :
    Except Panic (PioEcpFwd × Board) := do
  let inPins := pins.strobe :: pins.d
  let sidePins := [pins.busy]
  let common := common.setPins .high sidePins |>.setPinDirs .output sidePins
  let ((sm0, program), common) ← common.start sm0 load
    { program := ecpFwdProgram, inPins, sidePins }
  pure (⟨sm0, program⟩, common)

def PioEcpFwd.dismantle (phy : PioEcpFwd) (common : Board) : StateMachine 0 × Board :=
  common.stop phy.sm0 phy.program

def ecpRevProgram : Program :=
  [⟨.pull false true, 0, some true⟩,
    ⟨.out .pins 8, 0, some true⟩,
    ⟨.wait false .gpio HOSTACK_GPIO false, 0, some true⟩,
    ⟨.nop, 2, some false⟩,
    ⟨.wait true .gpio HOSTACK_GPIO false, 0, some true⟩]

structure PioEcpRev where
  sm1 : StateMachine 1
  dma : DmaChannel 4
  program : LoadedProgram

def PioEcpRev.new (load : Loader) (common : Board) (sm1 : StateMachine 1) (dma : DmaChannel 4)
    (pins : LptPins) : Except Panic (PioEcpRev × Board) := do
  let dataPins := pins.d
  let sidePins := [pins.nack]
  let common := common.setPins .high sidePins |>.setPins .low dataPins
    |>.setPinDirs .output dataPins |>.setPinDirs .output sidePins
  let ((sm1, program), common) ← common.start sm1 load
    { program := ecpRevProgram, outPins := dataPins, sidePins }
  pure (⟨sm1, dma, program⟩, common)

def PioEcpRev.dismantle (phy : PioEcpRev) (common : Board) :
    (StateMachine 1 × DmaChannel 4) × Board :=
  let (sm1, common) := common.stop phy.sm1 phy.program
  ((sm1, phy.dma), common)

/-! ## Phys -/

structure SppNibblePhy where
  compatIn : PioCompatIn
  nibbleOut : PioNibbleOut

namespace SppNibblePhy

def build (load : Loader) (hw : LptHardware) : Except Panic (SppNibblePhy × LptHardware) := do
  let sm0 ← expect hw.parkedSm0 "LptHardware::parked_sm0 must be available when constructing a phy"
  let hw := { hw with parkedSm0 := none }
  let sm1 ← expect hw.parkedSm1 "LptHardware::parked_sm1 must be available when constructing a phy"
  let hw := { hw with parkedSm1 := none }
  let dma ← expect hw.parkedDmaCh4
    "LptHardware::parked_dma_ch4 must be available when constructing a phy"
  let hw := { hw with parkedDmaCh4 := none }
  let (compatIn, common) ← PioCompatIn.new load hw.board sm0 hw.pins
  let (nibbleOut, common) ← PioNibbleOut.new load common sm1 dma hw.pins
  pure (⟨compatIn, nibbleOut⟩, { hw with board := common })

def dismantle (phy : SppNibblePhy) (hw : LptHardware) : LptHardware :=
  let ((sm1, dma), common) := phy.nibbleOut.dismantle hw.board
  let (sm0, common) := phy.compatIn.dismantle common
  { hw with
    board := common, parkedSm0 := some sm0, parkedSm1 := some sm1, parkedDmaCh4 := some dma }

end SppNibblePhy

structure BytePhy where
  compatIn : PioCompatIn
  byteRev : PioByteRev

namespace BytePhy

def build (load : Loader) (hw : LptHardware) : Except Panic (BytePhy × LptHardware) := do
  let sm0 ← expect hw.parkedSm0 "LptHardware::parked_sm0 must be available"
  let hw := { hw with parkedSm0 := none }
  let sm1 ← expect hw.parkedSm1 "LptHardware::parked_sm1 must be available"
  let hw := { hw with parkedSm1 := none }
  let dma ← expect hw.parkedDmaCh4 "LptHardware::parked_dma_ch4 must be available"
  let hw := { hw with parkedDmaCh4 := none }
  let (compatIn, common) ← PioCompatIn.new load hw.board sm0 hw.pins
  let (byteRev, common) ← PioByteRev.new load common sm1 dma hw.pins
  pure (⟨compatIn, byteRev⟩, { hw with board := common })

def dismantle (phy : BytePhy) (hw : LptHardware) : LptHardware :=
  let ((sm1, dma), common) := phy.byteRev.dismantle hw.board
  let (sm0, common) := phy.compatIn.dismantle common
  { hw with
    board := common, parkedSm0 := some sm0, parkedSm1 := some sm1, parkedDmaCh4 := some dma }

end BytePhy

structure EppPhy where
  epp : PioEpp
  dirFollower : Option PioDirFollower
  /-- Held, running no program. -/
  parkedSm1 : Option (StateMachine 1)

namespace EppPhy

def build (load : Loader) (hw : LptHardware) : Except Panic (EppPhy × LptHardware) := do
  let sm0 ← expect hw.parkedSm0 "parked_sm0 must be available"
  let hw := { hw with parkedSm0 := none }
  let sm1 ← expect hw.parkedSm1 "parked_sm1 must be available"
  let hw := { hw with parkedSm1 := none }
  let sm2 ← expect hw.parkedSm2 "parked_sm2 must be available"
  let hw := { hw with parkedSm2 := none }
  let dma ← expect hw.parkedDmaCh4 "parked_dma_ch4 must be available"
  let hw := { hw with parkedDmaCh4 := none }
  let (epp, common) ← PioEpp.new load hw.board sm0 dma hw.pins
  let (dirFollower, common) ← PioDirFollower.new load common sm2 hw.pins
  pure (⟨epp, some dirFollower, some sm1⟩, { hw with board := common })

def dismantle (phy : EppPhy) (hw : LptHardware) : Except Panic LptHardware := do
  let dirFollower ← expect phy.dirFollower "dir_follower must be populated"
  let (sm2, common) := dirFollower.dismantle hw.board
  let ((sm0, dma), common) := phy.epp.dismantle common
  pure { hw with
    board := common, parkedSm0 := some sm0, parkedSm1 := phy.parkedSm1,
    parkedSm2 := some sm2, parkedDmaCh4 := some dma }

end EppPhy

structure EcpPhy where
  fwd : PioEcpFwd
  rev : PioEcpRev

namespace EcpPhy

def build (load : Loader) (hw : LptHardware) : Except Panic (EcpPhy × LptHardware) := do
  let sm0 ← expect hw.parkedSm0 "parked_sm0 must be available"
  let hw := { hw with parkedSm0 := none }
  let sm1 ← expect hw.parkedSm1 "parked_sm1 must be available"
  let hw := { hw with parkedSm1 := none }
  let dma ← expect hw.parkedDmaCh4 "parked_dma_ch4 must be available"
  let hw := { hw with parkedDmaCh4 := none }
  let (fwd, common) ← PioEcpFwd.new load hw.board sm0 hw.pins
  let (rev, common) ← PioEcpRev.new load common sm1 dma hw.pins
  pure (⟨fwd, rev⟩, { hw with board := common })

def dismantle (phy : EcpPhy) (hw : LptHardware) : LptHardware :=
  let ((sm1, dma), common) := phy.rev.dismantle hw.board
  let (sm0, common) := phy.fwd.dismantle common
  { hw with
    board := common, parkedSm0 := some sm0, parkedSm1 := some sm1, parkedDmaCh4 := some dma }

end EcpPhy

end VintageKvm.Firmware.Lpt
