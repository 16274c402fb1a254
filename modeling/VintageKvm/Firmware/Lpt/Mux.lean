import VintageKvm.Firmware.Lpt.Phys

/-!
# The active-phy multiplexer

At any moment one phy has the state machines and the DMA channel. A switch
dismantles it, sets the transceiver for the target and builds the target's
phy; a target without a phy falls back to SPP-nibble.
-/

namespace VintageKvm.Firmware.Lpt

inductive ActivePhy where
  | sppNibble (phy : SppNibblePhy)
  | byte (phy : BytePhy)
  | epp (phy : EppPhy)
  | ecp (phy : EcpPhy)

namespace ActivePhy

def mode : ActivePhy → LptMode
  | .sppNibble _ => .sppNibble
  | .byte _ => .byte
  | .epp _ => .epp
  | .ecp _ => .ecp

def dismantle (phy : ActivePhy) (hw : LptHardware) : Except Panic LptHardware :=
  match phy with
  | .sppNibble phy => pure (phy.dismantle hw)
  | .byte phy => pure (phy.dismantle hw)
  | .epp phy => phy.dismantle hw
  | .ecp phy => pure (phy.dismantle hw)

end ActivePhy

structure LptMux where
  hw : LptHardware
  active : Option ActivePhy

namespace LptMux

def new (load : Loader) (hw : LptHardware) : Except Panic LptMux := do
  let (phy, hw) ← SppNibblePhy.build load hw
  pure { hw, active := some (.sppNibble phy) }

def currentMode (mux : LptMux) : Except Panic LptMode := do
  let phy ← expect mux.active "phy slot must be populated"
  pure phy.mode

def switchTo (load : Loader) (mux : LptMux) (target : LptMode) :
    Except Panic (Except LptError Unit × LptMux) := do
  -- The trace line names it.
  let _ ← mux.currentMode
  let old ← expect mux.active "phy slot must be populated"
  let hw ← old.dismantle mux.hw
  let phyTarget := match target with
    | .spp | .ecpDma => .sppNibble
    | other => other
  let hw := hw.setTransceiverMode phyTarget
  match target with
  | .sppNibble =>
    let (phy, hw) ← SppNibblePhy.build load hw
    pure (.ok (), { hw, active := some (.sppNibble phy) })
  | .byte =>
    let (phy, hw) ← BytePhy.build load hw
    pure (.ok (), { hw, active := some (.byte phy) })
  | .epp =>
    let (phy, hw) ← EppPhy.build load hw
    pure (.ok (), { hw, active := some (.epp phy) })
  | .ecp =>
    let (phy, hw) ← EcpPhy.build load hw
    pure (.ok (), { hw, active := some (.ecp phy) })
  | .spp | .ecpDma =>
    let (phy, hw) ← SppNibblePhy.build load hw
    pure (.error .modeMismatch, { hw, active := some (.sppNibble phy) })

/-- Switches one after another: what each returns, and the mode it leaves. -/
def switches (load : Loader) (mux : LptMux) :
    List LptMode → Except Panic (List (Except LptError Unit × LptMode) × LptMux)
  | [] => pure ([], mux)
  | target :: targets => do
    let (result, mux) ← mux.switchTo load target
    let mode ← mux.currentMode
    let (results, mux) ← mux.switches load targets
    pure ((result, mode) :: results, mux)

end LptMux

end VintageKvm.Firmware.Lpt
