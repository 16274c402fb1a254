import VintageKvm.Dos.Stage1.Channel

/-!
# Stage 1: the pump on the machine's ports

The SPP nibble pump, assembled with Stage 1's variables, is a lawful pump: a
byte sent or received is accesses to the ports of the parallel port, with
writes to its data and its control register only.
-/

namespace VintageKvm.Stage1

open I8086 Machine Dos

variable {ι : Type} [Ports ι]

instance : Pump ι where
  lptSendByte := lpt.lptSendByte
  lptRecvByte := lpt.lptRecvByte

instance : LawfulPump ι where
  Step base _ := Drives (LptNibble.pumpPorts base)
  send_ok m := lpt.lptSendByte_drives m
  recv_ok m := by
    have hd := LptNibble.pollByte_drives (LptNibble.pumpPorts (m.mem.word lptBase))
      (m.mem.word lptBase + LPT_STATUS) (m.mem lastPhase) m.io
    generalize h :
      LptNibble.pollByte (m.mem.word lptBase + LPT_STATUS) (m.mem lastPhase) m.io = p at hd
    obtain ⟨b, ph, io⟩ := p
    obtain ⟨a, z, e, ha⟩ := lpt.lptRecvByte_ok m h
    cases b with
    | none =>
      exact .inr ⟨a, z, ph, io, e.trans (by rw [Option.toList_none, List.append_nil]; rfl), hd⟩
    | some b =>
      have hl : lo a = b := by rw [ha b rfl, lo_ofBytes]
      exact .inl ⟨a, z, ph, io, e.trans (by rw [hl]; rfl), hd⟩

end VintageKvm.Stage1
