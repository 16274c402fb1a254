import VintageKvm.Lib.Word
import VintageKvm.Firmware.Lpt.Hardware

/-!
# The negotiator

`detect_start` and `handshake` one access to the lines after another: what
they do next is their state, and a turn (`Negotiator.poll`) is one read or
one write. Between turns any time passes; a wait whose deadline passes first
(`Negotiator.expire`) ends the handshake. The status pins have been claimed,
as `handshake` asks for.
-/

namespace VintageKvm.Firmware.Lpt

namespace Xrv

abbrev NIBBLE : Byte := 0x00
abbrev BYTE : Byte := 0x01
abbrev ECP : Byte := 0x10
abbrev ECP_RLE : Byte := 0x30
abbrev EPP : Byte := 0x40
abbrev DEVICE_ID : Byte := 0x04

end Xrv

def xrvToMode (xrv : Byte) : Option LptMode :=
  let bare := xrv &&& ~~~Xrv.DEVICE_ID
  if bare = Xrv.NIBBLE then some .sppNibble
  else if bare = Xrv.BYTE then some .byte
  else if bare = Xrv.ECP then some .ecp
  else if bare = Xrv.ECP_RLE then some .ecp
  else if bare = Xrv.EPP then some .epp
  else none

inductive NegotiationError where
  | timeout
  | unsupportedXrv (xrv : Byte)
  deriving DecidableEq, Repr

/-! ## The lines -/

/-- What the negotiator reads: `true` is high. -/
structure HostLines where
  nStrobe : Bool
  nSelectIn : Bool
  nAutoFd : Bool
  data : Byte
  deriving DecidableEq, Repr

/-- What it drives. -/
inductive StatusPin where
  | nAck | pError | select | nFault
  deriving DecidableEq, Repr

structure StatusLines where
  nAck : Bool
  pError : Bool
  select : Bool
  nFault : Bool
  deriving DecidableEq, Repr

/-- `pin_set_level`. -/
def StatusLines.setLevel (s : StatusLines) : StatusPin → Bool → StatusLines
  | .nAck, level => { s with nAck := level }
  | .pError, level => { s with pError := level }
  | .select, level => { s with select := level }
  | .nFault, level => { s with nFault := level }

/-- The writes of `drive_status`, in order. -/
def driveStatus (nack perror select nfault : Bool) : List (StatusPin × Bool) :=
  [(.nAck, nack), (.pError, perror), (.select, select), (.nFault, nfault)]

/-! ## The handshake -/

/-- What a loop of `handshake` waits for. -/
inductive Wait where
  /-- `nStrobe` low. -/
  | strobe
  /-- `nStrobe` high again. -/
  | strobeEnd
  /-- `nAutoFd` high. -/
  | release
  deriving DecidableEq, Repr

def Wait.Met (h : HostLines) : Wait → Prop
  | .strobe => h.nStrobe = false
  | .strobeEnd => h.nStrobe = true
  | .release => h.nAutoFd = true

instance (h : HostLines) : (w : Wait) → Decidable (w.Met h)
  | .strobe => inferInstanceAs (Decidable (_ = _))
  | .strobeEnd => inferInstanceAs (Decidable (_ = _))
  | .release => inferInstanceAs (Decidable (_ = _))

/-- What the negotiator does next. -/
inductive Negotiator where
  /-- `detect_start`: the first read, the second and the third. -/
  | nSelectIn
  | nAutoFd
  | dataBus
  /-- `handshake`: the rest of a `drive_status`, then a wait. -/
  | drive (xrv : Byte) (pins : List (StatusPin × Bool)) (next : Wait)
  | wait (xrv : Byte) (w : Wait)
  | done (result : Except NegotiationError LptMode)
  deriving Repr

namespace Negotiator

/-- `handshake`, from its start. -/
def handshake (xrv : Byte) : Negotiator := .drive xrv (driveStatus false true true true) .strobe

/-- `handshake` after a wait. -/
def resume (xrv : Byte) : Wait → Negotiator
  | .strobe => .wait xrv .strobeEnd
  | .strobeEnd => .drive xrv (driveStatus true true (xrvToMode xrv).isSome true) .release
  | .release => .done (match xrvToMode xrv with
    | some mode => .ok mode
    | none => .error (.unsupportedXrv xrv))

/-- The next read or write. `wait_for_start` tries `detect_start` again. -/
def poll (h : HostLines) (s : StatusLines) : Negotiator → Negotiator × StatusLines
  | .nSelectIn => (if h.nSelectIn then .nAutoFd else .nSelectIn, s)
  | .nAutoFd => (if h.nAutoFd then .nSelectIn else .dataBus, s)
  | .dataBus => (handshake h.data, s)
  | .drive xrv ((pin, level) :: pins) next => (.drive xrv pins next, s.setLevel pin level)
  | .drive xrv [] next => (.wait xrv next, s)
  | .wait xrv w => (if w.Met h then resume xrv w else .wait xrv w, s)
  | .done result => (.done result, s)

/-- The next read, of a wait that is not over, and the deadline has passed. -/
def expire (h : HostLines) : Negotiator → Negotiator
  | .wait xrv w => if w.Met h then .wait xrv w else .done (.error .timeout)
  | n => n

end Negotiator

end VintageKvm.Firmware.Lpt
