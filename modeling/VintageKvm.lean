import VintageKvm.Lib.Buffer
import VintageKvm.Protocol.Detection
import VintageKvm.Protocol.CrcEngine
import VintageKvm.Firmware.PacketStream
import VintageKvm.Firmware.Dispatcher
import VintageKvm.Firmware.Lpt.Switching
import VintageKvm.Link.Nibble
import VintageKvm.Link.Negotiation
import VintageKvm.Link.Delivery
import VintageKvm.Link.Forward
import VintageKvm.Link.Telemetry
import VintageKvm.Firmware.Lpt.Reverse
import VintageKvm.I8086.Bus
import VintageKvm.Dos.NibbleLoop
import VintageKvm.Dos.Stage1.PortPump
import VintageKvm.Dos.Stage1.Handshake
import VintageKvm.Dos.Stage1.Stress
import VintageKvm.Dos.Stage1.Blocks
import VintageKvm.Dos.Stage0.Coverage
import VintageKvm.Dos.Stage0.Words
import VintageKvm.Dos.Stage0.Exit
import VintageKvm.Dos.Boot
import VintageKvm.Dos.Sizes
import VintageKvm.Ps2.Waveform
import VintageKvm.Ps2.Bootstrap
import VintageKvm.Ps2.Oversample
import VintageKvm.Ps2.RoundTrip
import VintageKvm.Dos.Checksums
import VintageKvm.Dos.Stage1.CapRsp
import VintageKvm.Dos.Stage1.Start
import VintageKvm.Dos.Stage1.Footprint
import VintageKvm.Ps2.Ring
import VintageKvm.Ps2.Script
import VintageKvm.Ps2.SelfTx
import VintageKvm.Ps2.Glitches
import VintageKvm.Ps2.Idle
import VintageKvm.Ps2.Skew
import VintageKvm.Firmware.Usb.Events
import VintageKvm.Firmware.Usb.Control
import VintageKvm.Firmware.Usb.Lines
import VintageKvm.Firmware.Usb.Writers
import VintageKvm.Firmware.Session
import VintageKvm.Firmware.Rings
import VintageKvm.Tools.ControlClient
import VintageKvm.Tools.EventsConsumer
import VintageKvm.Tools.EventMirror
