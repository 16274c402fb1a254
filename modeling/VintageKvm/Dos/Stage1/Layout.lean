import VintageKvm.Dos.Int21
import VintageKvm.Dos.LptNibble

/-!
# Stage 1: constants, variables and messages

The constants of `stage1.asm`, and where its assembled image (at 0800h)
holds its variables and its `$`-terminated messages. The variables lie one
after another in the order of the source (`vars_adjacent`), so that every
address follows from the first one and the sizes.
-/

namespace VintageKvm.Stage1

open I8086 Dos

/-! ## Constants -/

abbrev HANDOFF_MARKER : Word := 0x3150
abbrev MAX_STAGE1_SIZE : Word := 50000
abbrev CHAN_LPT : Byte := 0x01
abbrev CHAN_KBD : Byte := 0x02
abbrev CHAN_AUX : Byte := 0x04
abbrev CHAN_ANY : Byte := CHAN_LPT ||| CHAN_KBD ||| CHAN_AUX
abbrev CHAN_I8042_ANY : Byte := CHAN_KBD ||| CHAN_AUX

abbrev LPT_ECR : Word := 0x402
abbrev ECR_MODE_EPP : Byte := 0x80
abbrev ECR_MODE_MASK : Byte := 0xE0
abbrev ECR_TEST_PATTERN1 : Byte := 0x35
abbrev ECR_TEST_PATTERN2 : Byte := 0xCA
abbrev CAPS_SPP : Byte := 0x01
abbrev CAPS_EPP : Byte := 0x02
abbrev CAPS_ECP : Byte := 0x04

abbrev SOH : Byte := 0x01
abbrev ETX : Byte := 0x03
abbrev PACKET_HEADER_LEN : Word := 5
abbrev PACKET_TRAILER_LEN : Word := 3
abbrev PACKET_OVERHEAD : Word := PACKET_HEADER_LEN + PACKET_TRAILER_LEN
abbrev PACKET_BUF_SIZE : Word := 256

abbrev CMD_CAP_REQ : Byte := 0x00
abbrev CMD_CAP_RSP : Byte := 0x0F
abbrev CMD_CAP_ACK : Byte := 0x0E
abbrev CMD_PING : Byte := 0x10
abbrev CMD_PONG : Byte := 0x11
abbrev CMD_SEND_BLOCK : Byte := 0x20
abbrev CMD_RECV_BLOCK : Byte := 0x21
abbrev CMD_BLOCK_ACK : Byte := 0x22
abbrev CMD_BLOCK_NAK : Byte := 0x23

abbrev TX_BUF_OFF : Word := 0x2600
abbrev RX_BUF_OFF : Word := 0x2700
abbrev DELAY_COUNT : Word := 100

abbrev PUMP_NONE : Byte := 0
abbrev PUMP_LPT_SPP : Byte := 1

abbrev XFLAG_BYTE : Byte := 0x01
abbrev XFLAG_ECP : Byte := 0x14
abbrev XFLAG_EPP : Byte := 0x40
abbrev CTRL_NEG_REQ : Byte := 0x06
abbrev CTRL_NEG_STRB : Byte := 0x07
abbrev CTRL_NEG_ACK : Byte := 0x04
abbrev STAT_NACK_BIT : Byte := 0x40
abbrev STAT_SELECT_BIT : Byte := 0x10
abbrev NEG_TIMEOUT_OUTER : Word := 0x100
abbrev NEG_MODE_NONE : Byte := 0
abbrev NEG_MODE_SPP : Byte := 1
abbrev NEG_MODE_BYTE : Byte := 2
abbrev NEG_MODE_EPP : Byte := 3
abbrev NEG_MODE_ECP : Byte := 4

abbrev CAP_RSP_VER_MAJ_OFF : Word := 0
abbrev CAP_RSP_VER_MIN_OFF : Word := 1
abbrev CAP_RSP_ACTIVE_OFF : Word := 23
abbrev CAP_RSP_STAGE2_SIZE : Word := 28
abbrev CAP_RSP_STAGE2_CRC : Word := 32
abbrev CAP_RSP_MIN_PAYLOAD : Word := 36
abbrev MAX_STAGE2_SIZE : Nat := 200000

abbrev STRESS_ITERATIONS : Word := 8
abbrev STRESS_PAYLOAD_LEN : Word := 64
abbrev STRESS_MAX_ERRORS : Word := 0

abbrev DOWNLOAD_BLOCK_SIZE : Word := 64
abbrev DL_BLOCK_RETRIES : Byte := 3
abbrev RECV_BLOCK_HDR_LEN : Word := 5
abbrev DL_PROGRESS_MASK : Word := 0x003F

abbrev ENV_BUF_OFF : Word := 0x2800
abbrev ENV_BUF_PARAS : Word := 0x280
abbrev EXEC_RESIZE_PARAS : Word := 0x300

abbrev PIC1_DATA : Word := 0x21
abbrev PIC2_DATA : Word := 0xA1

/-! ## Variables -/

abbrev lptBase : Word := 0x0BBF
abbrev lastPhase : Word := 0x0BC1

abbrev savedAx : Word := 0x131E
abbrev savedBx : Word := 0x1320
abbrev savedCx : Word := 0x1322
abbrev savedDx : Word := 0x1324
abbrev ecrSaved : Word := 0x1326
abbrev dpCapsFlags : Word := 0x1327
abbrev dpCapsIrq : Word := 0x1328
abbrev dpCapsDma : Word := 0x1329
abbrev txSeq : Word := 0x132A
abbrev testPayloadHello : Word := 0x132B
abbrev currentPump : Word := 0x1330
abbrev negotiatedMode : Word := 0x1331
abbrev picoVersionMajor : Word := 0x1332
abbrev picoVersionMinor : Word := 0x1333
abbrev picoActiveMode : Word := 0x1334
abbrev stage2ImageSize : Word := 0x1335
abbrev stage2ImageCrc32 : Word := 0x1339
abbrev stressErrors : Word := 0x133D
abbrev stressStartCentis : Word := 0x133F
abbrev stressElapsedCentis : Word := 0x1341
abbrev stage2FileHandle : Word := 0x1343
abbrev currentBlock : Word := 0x1345
abbrev totalBlocks : Word := 0x1347
abbrev blocksReceived : Word := 0x1349
abbrev expectedByteCount : Word := 0x134B
abbrev retryCount : Word := 0x134C
abbrev crc32State : Word := 0x134D
abbrev sendBlockPayload : Word := 0x1351
abbrev stage2Filename : Word := 0x1355
abbrev execParamBlock : Word := 0x1362
abbrev execParamEnvSeg : Word := 0x1362
abbrev execParamCmdtail : Word := 0x1364
abbrev execParamFcb1 : Word := 0x1368
abbrev execParamFcb2 : Word := 0x136C
abbrev execCmdTail : Word := 0x1370
abbrev execBlankFcb : Word := 0x1372
abbrev envPrefixStr : Word := 0x1382
abbrev envModeStr : Word := 0x1391
abbrev envChanStr : Word := 0x1398
abbrev envVerStr : Word := 0x139F
abbrev strModeEcp : Word := 0x13A5
abbrev strModeEpp : Word := 0x13A9
abbrev strModeByte : Word := 0x13AD
abbrev strModeSpp : Word := 0x13B2
abbrev strNegFailed : Word := 0x13B6
abbrev stressPayload : Word := 0x13C1

/-- The variables and their sizes, in the order of the source. -/
def vars : List (Word × Nat) := [
  (savedAx, 2), (savedBx, 2), (savedCx, 2), (savedDx, 2), (ecrSaved, 1), (dpCapsFlags, 1),
  (dpCapsIrq, 1), (dpCapsDma, 1), (txSeq, 1), (testPayloadHello, 5), (currentPump, 1),
  (negotiatedMode, 1), (picoVersionMajor, 1), (picoVersionMinor, 1), (picoActiveMode, 1),
  (stage2ImageSize, 4), (stage2ImageCrc32, 4), (stressErrors, 2), (stressStartCentis, 2),
  (stressElapsedCentis, 2), (stage2FileHandle, 2), (currentBlock, 2), (totalBlocks, 2),
  (blocksReceived, 2), (expectedByteCount, 1), (retryCount, 1), (crc32State, 4),
  (sendBlockPayload, 4), (stage2Filename, 13), (execParamEnvSeg, 2), (execParamCmdtail, 4),
  (execParamFcb1, 4), (execParamFcb2, 4), (execCmdTail, 2), (execBlankFcb, 16), (envPrefixStr, 15),
  (envModeStr, 7), (envChanStr, 7), (envVerStr, 6), (strModeEcp, 4), (strModeEpp, 4),
  (strModeByte, 5), (strModeSpp, 4), (strNegFailed, 11), (stressPayload, 64)]

theorem vars_adjacent : vars.IsChain fun v w => w.1 = v.1 + BitVec.ofNat 16 v.2 := by decide

/-! ## Messages

The `$`-terminated strings, each with its text.
-/

abbrev msgBanner : Word := 0x1401 -- 'STAGE1 v1.0 scaffold', CR, LF
abbrev msgNoStage2 : Word := 0x1450 -- 'STAGE1: Stage 2 unavailable; aborting', CR, LF
abbrev msgLptLabel : Word := 0x1478 -- 'STAGE1: inherited LPT base   = 0x'
abbrev msgChanLabel : Word := 0x149A -- 'STAGE1: inherited channels   = 0x'
abbrev msgSizeLabel : Word := 0x14BC -- 'STAGE1: stage1 size          = 0x'
abbrev msgCapsLabel : Word := 0x14DE -- 'STAGE1: dp_caps.flags        = 0x'
abbrev msgCapsOpen : Word := 0x1500 -- ' ['
abbrev msgCapsClose : Word := 0x1503 -- ']', CR, LF
abbrev msgCapsSppStr : Word := 0x1507 -- 'SPP '
abbrev msgCapsEppStr : Word := 0x150C -- 'EPP '
abbrev msgCapsEcpStr : Word := 0x1511 -- 'ECP '
abbrev msgModeBTodo : Word := 0x1516 -- 'STAGE1: no LPT available; Mode B re-probe TODO', CR, LF
abbrev msgPacketOk : Word := 0x1547 -- 'STAGE1: packet self-test OK', CR, LF
abbrev msgPacketFail : Word := 0x1565 -- 'STAGE1: packet self-test FAILED', CR, LF
abbrev msgPumpLptSpp : Word := 0x1587 -- 'STAGE1: pump = LPT SPP nibble', CR, LF
abbrev msgPumpOk : Word := 0x15A7 -- 'STAGE1: pump dispatcher self-test OK', CR, LF
abbrev msgPumpFail : Word := 0x15CE -- 'STAGE1: pump dispatcher self-test FAILED', CR, LF
abbrev msgNegEcp : Word := 0x15F9 -- 'STAGE1: IEEE 1284 negotiated = ECP', CR, LF
abbrev msgNegEpp : Word := 0x161E -- 'STAGE1: IEEE 1284 negotiated = EPP', CR, LF
abbrev msgNegByte : Word := 0x1643 -- 'STAGE1: IEEE 1284 negotiated = Byte', CR, LF
abbrev msgNegSpp : Word := 0x1669 -- 'STAGE1: IEEE 1284 negotiation declined; staying in SPP/Nibble', CR, LF
abbrev msgNegSkipped : Word := 0x16A9 -- 'STAGE1: IEEE 1284 negotiation skipped (no LPT)', CR, LF
abbrev msgCapSkippedNoLpt : Word := 0x16DA -- 'STAGE1: CAP handshake skipped (no LPT)', CR, LF
abbrev msgCapSkippedPump : Word := 0x1703 -- 'STAGE1: CAP handshake skipped (EPP/ECP pump not ready)', CR, LF
abbrev msgCapFailReq : Word := 0x173C -- 'STAGE1: CAP handshake failed (REQ tx)', CR, LF
abbrev msgCapFailRsp : Word := 0x1764 -- 'STAGE1: CAP handshake failed (RSP rx)', CR, LF
abbrev msgCapFailParse : Word := 0x178C -- 'STAGE1: CAP handshake failed (version/size sanity)', CR, LF
abbrev msgCapFailAck : Word := 0x17C1 -- 'STAGE1: CAP handshake failed (ACK tx)', CR, LF
abbrev msgCapOk : Word := 0x17E9 -- 'STAGE1: CAP handshake OK', CR, LF
abbrev msgCapPico : Word := 0x1804 -- 'STAGE1: Pico='
abbrev msgDot : Word := 0x1812 -- '.'
abbrev msgCapSizeLabel : Word := 0x1814 -- ' size=0x'
abbrev msgCapCrcLabel : Word := 0x181D -- ' crc=0x'
abbrev msgCapModeLabel : Word := 0x1825 -- ' mode=0x'
abbrev msgStressSkipped : Word := 0x182E -- 'STAGE1: stress test skipped (no pump)', CR, LF
abbrev msgStressPrefix : Word := 0x1856 -- 'STAGE1: stress: '
abbrev msgStressIterSep : Word := 0x1867 -- ' iter, '
abbrev msgStressErrSep : Word := 0x186F -- ' errors, '
abbrev msgStressUnit : Word := 0x1879 -- ' centis', CR, LF
abbrev msgDlSkippedPump : Word := 0x1883 -- 'STAGE1: stage2 download skipped (no pump)', CR, LF
abbrev msgDlSkippedNosize : Word := 0x18AF -- 'STAGE1: stage2 download skipped (no CAP size)', CR, LF
abbrev msgDlStart : Word := 0x18DF -- 'STAGE1: stage2 download: '
abbrev msgDlDot : Word := 0x18F9 -- '.'
abbrev msgDlOk : Word := 0x18FB -- ' OK', CR, LF
abbrev msgDlFailSize : Word := 0x1901 -- ' FAIL (size too large)', CR, LF
abbrev msgDlFailCreate : Word := 0x191A -- ' FAIL (cannot create PICO1284.EXE)', CR, LF
abbrev msgDlFailBlock : Word := 0x193F -- ' FAIL (block retries exhausted)', CR, LF
abbrev msgDlFailClose : Word := 0x1961 -- ' FAIL (file close error)', CR, LF
abbrev msgDlFailCrc : Word := 0x197C -- ' FAIL (image CRC-32 mismatch)', CR, LF
abbrev msgCrlf : Word := 0x199C -- '', CR, LF
abbrev msgErrHandoff : Word := 0x199F -- 'ERROR: bad handoff from Stage 0', CR, LF
abbrev msgErrExec : Word := 0x1AB8 -- 'ERROR: Stage 2 EXEC failed', CR, LF

/-- The pump's variables lie in the code, where the include is. -/
def lpt : LptNibble := ⟨lptBase, DELAY_COUNT⟩

end VintageKvm.Stage1
