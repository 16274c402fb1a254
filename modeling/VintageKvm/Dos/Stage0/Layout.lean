import VintageKvm.Dos.Int21
import VintageKvm.Dos.LptNibble

/-!
# Stage 0: constants, variables and messages

Stage 0 is three programs: `s0_xt.asm`, and `s0_atps2_core.inc` assembled
without the AUX channel (S0_AT) and with it (S0_PS2). Here are their constants,
and where the assembled images (at 0100h) hold their variables and their
`$`-terminated messages. Code and variables end before the window at 0800h
that takes the image of Stage 1.
-/

namespace VintageKvm.Stage0

open I8086 Dos

/-- The three programs. -/
inductive Image where
  | s0Xt
  | s0AtPs2 (ENABLE_AUX : Bool)
  deriving DecidableEq

/-- A value for S0_XT, S0_AT and S0_PS2. -/
def Image.pick {α : Type} (xt at_ ps2 : α) : Image → α
  | s0Xt => xt
  | s0AtPs2 false => at_
  | s0AtPs2 true => ps2

export Image (pick)

/-! ## Constants -/

abbrev STAGE1_LOAD_OFF : Word := 0x0800
abbrev MAX_STAGE1_SIZE : Word := 50000
abbrev BLOCK_SIZE {w : Nat} : BitVec w := 64

abbrev CHAN_LPT : Byte := 0x01
abbrev CHAN_KBD : Byte := 0x02
abbrev CHAN_AUX : Byte := 0x04

abbrev CMD_PROBE0 : Byte := 0x50
abbrev CMD_PROBE1 : Byte := 0x31
abbrev CMD_PROBE2 : Byte := 0x32
abbrev CMD_PROBE3 : Byte := 0x38
abbrev CMD_GET_META : Byte := 0x81
abbrev CMD_GET_BLOCK : Byte := 0x82
abbrev CMD_ACK : Byte := 0x06
abbrev CMD_NAK : Byte := 0x15
abbrev RSP_OK0 : Byte := 0x4F
abbrev RSP_OK1 : Byte := 0x4B

abbrev PROBE_RETRIES : Word := 3
abbrev BLOCK_RETRIES : Byte := 5

abbrev KBC_DATA : Word := 0x60
abbrev KBC_STATUS : Word := 0x64
abbrev KBC_CMD : Word := 0x64
abbrev KBC_OBF : Byte := 0x01
abbrev KBC_IBF : Byte := 0x02
abbrev KBC_AUX_OBF : Byte := 0x20
abbrev KBC_READ_CCB : Byte := 0x20
abbrev KBC_WRITE_CCB : Byte := 0x60
abbrev KBC_DISABLE_AUX : Byte := 0xA7
abbrev KBC_ENABLE_AUX : Byte := 0xA8
abbrev KBC_WRITE_AUX : Byte := 0xD4
abbrev KBD_CMD_SET_LEDS : Byte := 0xED
abbrev KBD_ACK : Byte := 0xFA
abbrev MOUSE_SET_RATE : Byte := 0xF3

def DELAY_COUNT : Image → Word := pick 200 100 50

/-! ## Variables -/

def lptBase : Image → Word := pick 0x0422 0x0617 0x070B
def lastPhase : Image → Word := pick 0x0424 0x0619 0x070D
def lptCandidates : Image → Word := pick 0x0425 0x061A 0x070E
def stage1Size : Image → Word := pick 0x042D 0x062A 0x071E
def stage1Blocks : Image → Word := pick 0x042F 0x062C 0x0720
def stage1Sum16 : Image → Word := pick 0x0431 0x062E 0x0722
def currentBlock : Image → Word := pick 0x0433 0x0630 0x0724
def blockCrcRecv : Image → Word := pick 0x0435 0x0632 0x0726
def blockLen : Image → Word := pick 0x0437 0x0636 0x072A
def retryCount : Image → Word := pick 0x0438 0x0637 0x072B

section

variable (aux : Bool)

def kbdLedPattern : Word := if aux then 0x0716 else 0x0622
def auxRatePattern : Word := if aux then 0x071B else 0x0627
def dxBitmap : Word := if aux then 0x0728 else 0x0634
def currentChannel : Word := if aux then 0x072C else 0x0638
def i8042Active : Word := if aux then 0x072D else 0x0639
def ccbSaved : Word := if aux then 0x072E else 0x063A
def ccbOrig : Word := if aux then 0x072F else 0x063B
def pic1MaskOrig : Word := if aux then 0x0730 else 0x063C
def pic2MaskOrig : Word := if aux then 0x0731 else 0x063D
def auxEnabled : Word := if aux then 0x0732 else 0x063E

end

/-! ## Messages -/

def msgBanner : Image → Word := pick 0x0439 0x063F 0x0733 -- BANNER_TEXT
def msgBasePrefix : Image → Word := pick 0x046E 0x069D 0x0792 -- 'LPT base: 0x'
def msgCrlf : Image → Word := pick 0x047B 0x06AA 0x079F -- '', CR, LF
def msgMetaFail : Image → Word := pick 0x04A9 0x06D2 0x07C7 -- 'ERROR: Stage1 metadata failed', CR, LF
def msgSizeFail : Image → Word := pick 0x04C9 0x06F2 0x07E7 -- 'ERROR: Stage1 size invalid', CR, LF
def msgDownloadFail : Image → Word := pick 0x04E6 0x070F 0x0804 -- 'ERROR: Stage1 download failed', CR, LF
def msgChecksumFail : Image → Word := pick 0x0506 0x072F 0x0824 -- 'ERROR: Stage1 checksum failed', CR, LF
def msgJump : Image → Word := pick 0x0526 0x074F 0x0844 -- 'Jumping to Stage1', CR, LF

abbrev msgFound : Word := 0x0454 -- S0_XT: 'Pico1284 endpoint found', CR, LF
abbrev msgNoPico : Word := 0x047E -- S0_XT: 'ERROR: Pico1284 DB-25 endpoint not found', CR, LF
def msgLptFound (aux : Bool) : Word := if aux then 0x074F else 0x065A -- 'LPT channel up', CR, LF
def msgKbdFound (aux : Bool) : Word := if aux then 0x0760 else 0x066B -- 'KBD private channel up', CR, LF
abbrev msgAuxFound : Word := 0x0779 -- 'AUX private channel up', CR, LF
def msgNoChannel (aux : Bool) : Word := if aux then 0x07A2 else 0x06AD -- NO_CHANNEL_TEXT

/-- The pump's variables lie in the code, where the include is. -/
def lpt (img : Image) : LptNibble := ⟨lptBase img, DELAY_COUNT img⟩

theorem lpt_lastPhase (img : Image) : (lpt img).lastPhase = lastPhase img := by
  cases img with
  | s0Xt => rfl
  | s0AtPs2 aux => cases aux <;> rfl

end VintageKvm.Stage0
