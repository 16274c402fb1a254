import VintageKvm.Dos.Stage1.Exchange
import VintageKvm.Dos.Stage1.PortPump
import VintageKvm.Firmware.Lpt.CompatIn
import VintageKvm.Firmware.PacketStream
import VintageKvm.Link.Nibble

/-!
# The forward channel, from the host's writes to the firmware's bytes

The host puts a byte on the data register and pulses nInit through the control
register; the firmware takes nInit for its strobe. `Wire` is the port with the
receiver at its other end: a register write falls in some cycle of the state
machine, and the DMA channel and the reader of the ring take their steps at any
moment. Nothing acknowledges a byte. The receiver keeps up because no two
writes fall in one cycle or in two in a row (`Wire.Fits`).
-/

namespace VintageKvm.Link

open I8086 Machine Dos Protocol Firmware Firmware.Lpt Firmware.Lpt.PioCompatIn
open Stage1 hiding SOH ETX
open PacketReassembler (recvAll encoded encoded_eq)

/-! ## The host -/

/-- The cable with what the host wrote to its ports, oldest first. -/
structure Recorder extends Cable where
  writes : List (Word × Byte)

instance : Ports Recorder where
  inp p w := ((Ports.inp p w.toCable).1, { w with toCable := (Ports.inp p w.toCable).2 })
  out p v w := { w with writes := w.writes ++ [(p, v)] }

/-- The writes of `lpt_send_byte`. -/
def strobe (base : Word) (b : Byte) : List (Word × Byte) :=
  [(base + LPT_DATA, b), (base + LPT_CONTROL, CTRL_BASE ^^^ CTRL_INIT),
    (base + LPT_CONTROL, CTRL_BASE)]

def strobes (base : Word) (bytes : List Byte) : List (Word × Byte) := bytes.flatMap (strobe base)

theorem strobes_append (base : Word) (bs cs : List Byte) :
    strobes base (bs ++ cs) = strobes base bs ++ strobes base cs :=
  List.flatMap_append

theorem length_strobes (base : Word) (bytes : List Byte) :
    (strobes base bytes).length = 3 * bytes.length := by
  induction bytes with
  | nil => rfl
  | cons b bytes ih =>
    rw [strobes, List.flatMap_cons, List.length_append, ← strobes, ih, List.length_cons, strobe]
    simp only [List.length_cons, List.length_nil]
    omega

theorem drives_writes {w w' : Recorder} (h : I8086.Drives (fun _ => False) w w') :
    w'.writes = w.writes := by
  induction h with
  | refl => rfl
  | tail _ ha ih =>
    cases ha with
    | inp p => exact ih
    | out v _ hp => exact hp.elim

/-- Stage 1's pump on the wires: a byte sent is its three writes, and to
receive it writes nothing. -/
instance : LawfulPump Recorder where
  Step base ev w w' := w'.writes = w.writes ++ match ev with
    | .sent b => strobe base b
    | _ => []
  send_ok m := by
    obtain ⟨c, z, e⟩ := lpt.lptSendByte_ok m
    refine ⟨c, z, _, e, ?_⟩
    simp only [Ports.out, strobe, List.append_assoc, List.cons_append, List.nil_append]
    rfl
  recv_ok m := by
    have hd := LptNibble.pollByte_drives (fun _ => False) (m.mem.word lptBase + LPT_STATUS)
      (m.mem lastPhase) m.io
    generalize h :
      LptNibble.pollByte (m.mem.word lptBase + LPT_STATUS) (m.mem lastPhase) m.io = p at hd
    obtain ⟨b, ph, io⟩ := p
    have hw := drives_writes hd
    obtain ⟨a, z, e, ha⟩ := lpt.lptRecvByte_ok m h
    cases b with
    | none =>
      refine .inr ⟨a, z, ph, io, e.trans ?_, hw.trans (List.append_nil _).symm⟩
      rw [Option.toList_none, List.append_nil]
      rfl
    | some b =>
      have hl : lo a = b := by rw [ha b rfl, lo_ofBytes]
      refine .inl ⟨a, z, ph, io, e.trans ?_, hw.trans (List.append_nil _).symm⟩
      rw [hl]
      rfl

theorem steps_sent {base : Word} {bs : List Byte} {w w' : Recorder}
    (h : Steps base (bs.map .sent) w w') : w'.writes = w.writes ++ strobes base bs := by
  induction bs generalizing w with
  | nil =>
    cases h
    exact (List.append_nil _).symm
  | cons b bs ih =>
    cases h with
    | cons hstep hrest =>
      rw [ih hrest, show _ = w.writes ++ strobe base b from hstep, List.append_assoc]
      rfl

/-- What a Stage 1 program has sent: it comes up with `init_lpt_control`, and
drains strings. -/
inductive Sending (base : Word) : List Byte → Machine DosState Recorder → Prop
  | init {m : Machine DosState Recorder} : m.io.writes = [] → m.mem.word lptBase = base →
    Sending base [] (lpt.initLptControl m)
  | drain {bytes : List Byte} {m : Machine DosState Recorder} : Sending base bytes m →
    m.mem currentPump = PUMP_LPT_SPP →
    Sending base (bytes ++ m.mem.bytes m.si m.cx.toNat) (txDrain m)
  /-- What it does in between leaves the port's base, and writes to no port. -/
  | other {bytes : List Byte} {m m' : Machine DosState Recorder} : Sending base bytes m →
    m'.io.writes = m.io.writes → m'.mem.word lptBase = m.mem.word lptBase → Sending base bytes m'

theorem Sending.base {base : Word} {bytes : List Byte} {m : Machine DosState Recorder}
    (h : Sending base bytes m) : m.mem.word lptBase = base := by
  induction h with
  | @init m _ hb =>
    obtain ⟨a, d, z, c, e⟩ := lpt.initLptControl_ok m
    rw [e]
    exact (lpt.word_lptBase_set ..).trans hb
  | @drain bytes m _ hp ih =>
    obtain ⟨a, z, io, e, hs⟩ := txDrain_ok m hp
    rw [e]
    exact ih
  | other _ _ hb ih => rw [hb, ih]

theorem Sending.writes {base : Word} {bytes : List Byte} {m : Machine DosState Recorder}
    (h : Sending base bytes m) :
    m.io.writes = (base + LPT_CONTROL, CTRL_BASE) :: strobes base bytes := by
  induction h with
  | @init m hm hb =>
    obtain ⟨a, d, z, c, e⟩ := lpt.initLptControl_ok m
    rw [e, ← hb]
    show m.io.writes ++ [(m.mem.word lptBase + LPT_CONTROL, CTRL_BASE)] = _
    rw [hm]
    rfl
  | @drain bytes m h hp ih =>
    obtain ⟨a, z, io, e, hs⟩ := txDrain_ok m hp
    rw [e]
    show io.writes = (base + LPT_CONTROL, CTRL_BASE) :: strobes base _
    rw [h.base] at hs
    rw [steps_sent hs, ih, strobes_append]
    rfl
  | other _ hw _ ih => rw [hw, ih]

/-! ## The wire -/

/-- The two registers of the port that the host writes. -/
structure Registers where
  data : Byte
  control : Byte

namespace Registers

variable (base : Word) (r : Registers)

def write (w : Word × Byte) : Registers :=
  if w.1 = base + LPT_DATA then { r with data := w.2 }
  else if w.1 = base + LPT_CONTROL then { r with control := w.2 }
  else r

/-- nInit and the data lines; the cable takes nInit to the strobe's pin. -/
def lines : Lines := ⟨if r.control &&& CTRL_INIT = 0 then .low else .high, r.data⟩

theorem write_data (b : Byte) : r.write base (base + LPT_DATA, b) = { r with data := b } :=
  if_pos rfl

theorem write_control (b : Byte) :
    r.write base (base + LPT_CONTROL, b) = { r with control := b } := by
  have hne : base + LPT_CONTROL ≠ base + LPT_DATA := by bv_omega
  rw [write, if_neg hne, if_pos rfl]

end Registers

/-- The port and the receiver behind it. -/
structure Wire where
  receiver : Receiver
  /-- The host's writes so far. -/
  writes : List (Word × Byte)
  /-- None of them fell in the last cycle. -/
  settled : Bool

namespace Wire

inductive Action where
  /-- A cycle, with the write that falls in it and the levels of the other
  GPIOs. -/
  | cycle (write : Option (Word × Byte)) (rest : Nat → Level)
  | dma
  | calls
  | loads

variable (base : Word) (before : Registers) (s : Wire)

/-- The registers after some writes, with what was in them before. -/
def registers (writes : List (Word × Byte)) : Registers :=
  writes.foldl (Registers.write base) before

def act : Action → Wire
  | .cycle write rest =>
    let writes := s.writes ++ write.toList
    { receiver := s.receiver.act (.cycle ((registers base before writes).lines.gpio rest))
      writes
      settled := write.isNone }
  | .dma => { s with receiver := s.receiver.act .dma }
  | .calls => { s with receiver := s.receiver.act .calls }
  | .loads => { s with receiver := s.receiver.act .loads }

/-- As the firmware comes up, with its ring at an address. -/
def start (levels : Nat → Level) (ring : Nat) : Wire :=
  ⟨⟨.start levels, RingDma.arm ring⟩, [], true⟩

/-- A step that the host and the DMA channel make: the writes are those of
`log`, with a cycle between two at least, and neither the FIFO nor the ring
fills up. -/
def Fits (log : List (Word × Byte)) (s : Wire) : Action → Prop
  | .cycle write _ =>
    s.writes ++ write.toList <+: log ∧ (write.isSome → s.settled) ∧ s.receiver.sm.rx.length < 8
  | .dma => (s.receiver.act .dma).reader.unread ≤ RingDma.RING_WORDS - 1
  | _ => True

instance (log : List (Word × Byte)) (s : Wire) : (a : Action) → Decidable (s.Fits log a)
  | .cycle _ _ => inferInstanceAs (Decidable (_ ∧ _ ∧ _))
  | .dma => inferInstanceAs (Decidable (_ ≤ _))
  | .calls => isTrue trivial
  | .loads => isTrue trivial

/-! ## Where the receiver is -/

/-- Where the state machine is, by what the host has still to write, and the
bytes that it has still to take in. -/
inductive Stage (sm : Pio) (r : Registers) (settled : Bool) : List (Word × Byte) → List Byte → Prop
  | setUp {left : List Byte} : At 0 sm → r.lines.strobe = .high →
    Stage sm r settled ((base + LPT_CONTROL, CTRL_BASE) :: strobes base left) left
  | between {left : List Byte} : At 0 sm → r.lines.strobe = .high →
    Stage sm r settled (strobes base left) left
  | ready {left : List Byte} : At 0 sm → r.lines.strobe = .high →
    Stage sm r settled ((strobe base r.data).tail ++ strobes base left) (r.data :: left)
  /-- The strobe has just fallen. -/
  | fallen {left : List Byte} : At 1 sm → settled = false → r.lines.strobe = .low →
    Stage sm r settled ((base + LPT_CONTROL, CTRL_BASE) :: strobes base left) (r.data :: left)
  | taken {left : List Byte} : At 2 sm → r.lines.strobe = .low →
    Stage sm r settled ((base + LPT_CONTROL, CTRL_BASE) :: strobes base left) left

/-- The words taken in are those of the first of the bytes, and where the
state machine is fits with what is left of the host's writes. -/
structure Carries (log : List (Word × Byte)) (bytes : List Byte) (s : Wire) : Prop where
  sound : s.receiver.reader.Sound
  rest : ∃ todo left, s.writes ++ todo = log ∧ s.receiver.words.map byteOf ++ left = bytes ∧
    Stage base s.receiver.sm (registers base before s.writes) s.settled todo left

variable {base before s} {log : List (Word × Byte)} {bytes : List Byte}

theorem Stage.of_at {sm sm' : Pio} {r : Registers} {settled : Bool} {todo : List (Word × Byte)}
    {left : List Byte} (h : Stage base sm r settled todo left) (hat : ∀ pc, At pc sm → At pc sm') :
    Stage base sm' r settled todo left := by
  cases h with
  | setUp ha hs => exact .setUp (hat 0 ha) hs
  | between ha hs => exact .between (hat 0 ha) hs
  | ready ha hs => exact .ready (hat 0 ha) hs
  | fallen ha hw hs => exact .fallen (hat 1 ha) hw hs
  | taken ha hs => exact .taken (hat 2 ha) hs

/-! ## One cycle -/

/-- One step of the state machine takes in `ws`, of the bytes that were left. -/
def Takes (base : Word) (sm sm' : Pio) (r : Registers) (settled : Bool) (todo : List (Word × Byte))
    (left : List Byte) : Prop :=
  ∃ ws left', sm'.rx = sm.rx ++ ws ∧ ws.map byteOf ++ left' = left ∧
    Stage base sm' r settled todo left'

theorem Takes.nothing {sm sm' : Pio} {r : Registers} {settled : Bool} {todo : List (Word × Byte)}
    {left : List Byte} (hrx : sm'.rx = sm.rx) (h : Stage base sm' r settled todo left) :
    Takes base sm sm' r settled todo left :=
  ⟨[], left, by rw [hrx, List.append_nil], rfl, h⟩

theorem lines_low {r : Registers} (h : r.lines.strobe = .low) : r.lines = ⟨.low, r.data⟩ := by
  rw [← h]
  rfl

theorem strobe_low (base : Word) (r : Registers) :
    (r.write base (base + LPT_CONTROL, CTRL_BASE ^^^ CTRL_INIT)).lines.strobe = .low := by
  rw [Registers.write_control]
  exact if_pos (show (CTRL_BASE ^^^ CTRL_INIT) &&& CTRL_INIT = 0 by decide)

theorem strobe_high (r : Registers) :
    (r.write base (base + LPT_CONTROL, CTRL_BASE)).lines.strobe = .high := by
  rw [Registers.write_control]
  exact if_neg (show ¬ CTRL_BASE &&& CTRL_INIT = 0 by decide)

theorem cycle_high {sm : Pio} {l : Lines} (h : At 0 sm) (hs : l.strobe = .high)
    (rest : Nat → Level) : sm.cycle setup (l.gpio rest) = sm := by
  rw [cycle_fall h, gpio_strobe, hs]
  exact if_neg (by decide)

theorem cycle_low {sm : Pio} {l : Lines} (h : At 2 sm) (hs : l.strobe = .low) (rest : Nat → Level) :
    sm.cycle setup (l.gpio rest) = sm := by
  rw [cycle_rise h, gpio_strobe, hs]
  exact if_neg (by decide)

/-- A cycle without a write. -/
theorem Stage.quiet {sm : Pio} {r : Registers} {settled : Bool} {todo : List (Word × Byte)}
    {left : List Byte} (h : Stage base sm r settled todo left) (rest : Nat → Level)
    (hroom : sm.rx.length < 8) :
    Takes base sm (sm.cycle setup (r.lines.gpio rest)) r true todo left := by
  cases h with
  | setUp ha hs =>
    rw [cycle_high ha hs]
    exact .nothing rfl (.setUp ha hs)
  | between ha hs =>
    rw [cycle_high ha hs]
    exact .nothing rfl (.between ha hs)
  | ready ha hs =>
    rw [cycle_high ha hs]
    exact .nothing rfl (.ready ha hs)
  | @fallen left ha _ hs =>
    have hword : Pio.sampled (r.lines.gpio rest) setup.inPins 9 =
        BitVec.setWidth 32 (r.data ++ 0#1) := by
      rw [lines_low hs]
      exact sampled_low rest r.data
    rw [cycle_sample ha hroom, hword]
    refine ⟨_, left, rfl, ?_, .taken ⟨rfl, ha.delay, ha.isr, ha.isrCount⟩ hs⟩
    rw [List.map_singleton, byteOf_low_strobe]
    rfl
  | taken ha hs =>
    rw [cycle_low ha hs]
    exact .nothing rfl (.taken ha hs)

/-- A cycle with the next of the host's writes. -/
theorem Stage.write {sm : Pio} {r : Registers} {settled : Bool} {w : Word × Byte}
    {todo : List (Word × Byte)} {left : List Byte} (h : Stage base sm r settled (w :: todo) left)
    (hsettled : settled = true) (rest : Nat → Level) :
    Takes base sm (sm.cycle setup ((r.write base w).lines.gpio rest))
      (r.write base w) false todo left := by
  generalize htodo : w :: todo = writes at h
  cases h with
  | setUp ha hs =>
    obtain ⟨rfl, rfl⟩ := List.cons.inj htodo
    rw [cycle_high ha (strobe_high r)]
    exact .nothing rfl (.between ha (strobe_high r))
  | between ha hs =>
    cases left with
    | nil => cases htodo
    | cons b left =>
      obtain ⟨rfl, rfl⟩ := List.cons.inj htodo
      have hb : r.write base (base + LPT_DATA, b) = { r with data := b } :=
        Registers.write_data base r b
      have hs' : (r.write base (base + LPT_DATA, b)).lines.strobe = .high := by
        rw [hb]
        exact hs
      rw [cycle_high ha hs']
      refine .nothing rfl ?_
      rw [hb] at hs' ⊢
      exact .ready ha hs'
  | ready ha hs =>
    obtain ⟨rfl, rfl⟩ := List.cons.inj htodo
    have hlow := strobe_low base r
    rw [cycle_fall ha, gpio_strobe, if_pos hlow]
    refine .nothing rfl ?_
    rw [Registers.write_control] at hlow ⊢
    exact .fallen ⟨rfl, ha.delay, ha.isr, ha.isrCount⟩ rfl hlow
  | fallen _ hw _ => exact absurd (hsettled.symm.trans hw) (by decide)
  | taken ha hs =>
    obtain ⟨rfl, rfl⟩ := List.cons.inj htodo
    rw [cycle_rise ha, gpio_strobe, if_pos (strobe_high r)]
    exact .nothing rfl (.between ⟨rfl, ha.delay, ha.isr, ha.isrCount⟩ (strobe_high r))

/-! ## Every step -/

theorem Carries.cycle (h : Carries base before log bytes s) {write : Option (Word × Byte)}
    {rest : Nat → Level} (hfit : s.Fits log (.cycle write rest)) :
    Carries base before log bytes (act base before s (.cycle write rest)) := by
  obtain ⟨todo, left, hlog, hbytes, hstage⟩ := h.rest
  obtain ⟨hmoved, hsettled, hroom⟩ := hfit
  suffices htakes : ∃ todo', s.writes ++ write.toList ++ todo' = log ∧
      Takes base s.receiver.sm (s.receiver.sm.cycle setup
        ((registers base before (s.writes ++ write.toList)).lines.gpio rest))
        (registers base before (s.writes ++ write.toList)) write.isNone todo' left by
    obtain ⟨todo', hlog', ws, left', hrx, hws, hstage'⟩ := htakes
    refine ⟨h.sound, todo', left', hlog', ?_, hstage'⟩
    rw [← hbytes, ← hws, ← List.append_assoc, ← List.map_append]
    refine congrArg (fun ws : List DWord => ws.map byteOf ++ left') ?_
    show s.receiver.reader.written ++ (s.receiver.sm.cycle setup _).rx = s.receiver.words ++ ws
    rw [hrx, ← List.append_assoc]
    rfl
  cases write with
  | none =>
    rw [Option.toList_none, List.append_nil]
    exact ⟨todo, hlog, hstage.quiet rest hroom⟩
  | some w =>
    obtain ⟨more, hmore⟩ := hmoved
    rw [Option.toList_some] at hmore ⊢
    have htodo : todo = w :: more := by
      rw [← hlog, List.append_assoc] at hmore
      exact (List.append_cancel_left hmore).symm
    subst htodo
    refine ⟨more, hmore, ?_⟩
    rw [registers, List.foldl_append]
    exact hstage.write (hsettled rfl) rest

theorem Carries.dma (h : Carries base before log bytes s) (hfit : s.Fits log .dma) :
    Carries base before log bytes (act base before s .dma) := by
  obtain ⟨todo, left, hlog, hbytes, hstage⟩ := h.rest
  cases hrx : s.receiver.sm.rx with
  | nil =>
    have hsame : act base before s .dma = s := by simp only [act, Receiver.act, hrx]
    rwa [hsame]
  | cons w rx =>
    have hroom : s.receiver.reader.Roomy (.arrives w) := by
      have hfit : (s.receiver.act .dma).reader.unread ≤ RingDma.RING_WORDS - 1 := hfit
      simp only [Receiver.act, hrx] at hfit
      exact hfit
    have hact : act base before s .dma = { s with
        receiver := ⟨{ s.receiver.sm with rx := rx }, s.receiver.reader.act (.arrives w)⟩ } := by
      simp only [act, Receiver.act, hrx]
    rw [hact]
    refine ⟨h.sound.arrives w hroom, todo, left, hlog, ?_, hstage.of_at
      fun pc ha => ha.of_eq rfl rfl rfl rfl⟩
    rw [← hbytes]
    refine congrArg (fun ws : List DWord => ws.map byteOf ++ left) ?_
    show s.receiver.reader.written ++ [w] ++ rx = s.receiver.reader.written ++ s.receiver.sm.rx
    rw [hrx, List.append_assoc]
    rfl

theorem written_calls (r : RingDma.Reader) : (r.act .calls).written = r.written := by
  rw [RingDma.Reader.act]
  split
  · rfl
  · split <;> rfl

theorem written_loads (r : RingDma.Reader) : (r.act .loads).written = r.written := by
  rw [RingDma.Reader.act]
  split <;> rfl

theorem Carries.act (h : Carries base before log bytes s) {a : Action} (hfit : s.Fits log a) :
    Carries base before log bytes (act base before s a) := by
  cases a with
  | cycle write rest => exact h.cycle hfit
  | dma => exact h.dma hfit
  | calls =>
    refine ⟨h.sound.called, ?_⟩
    show ∃ todo left, _ ∧ ((s.receiver.reader.act .calls).written ++ _).map byteOf ++ left = _ ∧ _
    rw [written_calls]
    exact h.rest
  | loads =>
    refine ⟨h.sound.loads, ?_⟩
    show ∃ todo left, _ ∧ ((s.receiver.reader.act .loads).written ++ _).map byteOf ++ left = _ ∧ _
    rw [written_loads]
    exact h.rest

/-- The bytes that have been taken in, by the writes there have been: those
whose strobe has risen again, and perhaps one more whose has fallen. -/
theorem Stage.taken_bounds {sm : Pio} {r : Registers} {settled : Bool} {todo : List (Word × Byte)}
    {left : List Byte} (h : Stage base sm r settled todo left) {n : Nat}
    (hn : left.length ≤ n) {k : Nat}
    (hlen : k + todo.length = 3 * n + 1) :
    (k - 1) / 3 ≤ n - left.length ∧ n - left.length ≤ k / 3 := by
  have hstrobe : ∀ b, (strobe base b).tail.length = 2 := fun _ => rfl
  cases h <;> simp only [List.length_cons, List.length_append, length_strobes,
    hstrobe] at hlen hn ⊢ <;> omega

theorem carries_run {m : Machine DosState Recorder} (hm : Sending base bytes m)
    (hidle : before.control &&& CTRL_INIT ≠ 0)
    {levels : Nat → Level} {ring : Nat} {as : List Action}
    (hfit : Run.Along (act base before) (Fits m.io.writes) (start levels ring) as) :
    Carries base before m.io.writes bytes (as.foldl (act base before) (start levels ring)) := by
  have hstart : Carries base before m.io.writes bytes (start levels ring) := by
    refine ⟨.arm ring, m.io.writes, bytes, rfl, rfl, ?_⟩
    rw [hm.writes]
    exact .setUp ⟨rfl, rfl, rfl, rfl⟩ (if_neg hidle)
  exact hfit.invariant hstart fun _ _ h hf => h.act hf

/-- What has been returned, what is in the ring and what is in the FIFO are the
first of the bytes. -/
theorem Carries.delivers {m : Machine DosState Recorder} (hm : Sending base bytes m)
    (h : Carries base before m.io.writes bytes s) :
    ∃ k q, (s.writes.length - 1) / 3 ≤ k ∧ k ≤ s.writes.length / 3 ∧
      q.length = s.receiver.reader.ring.pending ∧
      s.receiver.received ++ (q ++ s.receiver.sm.rx).map byteOf = bytes.take k := by
  obtain ⟨todo, left, hlog, hbytes, hstage⟩ := h.rest
  obtain ⟨q, hq, hring, -⟩ := h.sound.held
  have hle : left.length ≤ bytes.length := by
    rw [← hbytes, List.length_append]
    exact Nat.le_add_left ..
  have hlen : s.writes.length + todo.length = 3 * bytes.length + 1 := by
    rw [← List.length_append, hlog, hm.writes, List.length_cons, length_strobes]
  obtain ⟨hlo, hhi⟩ := hstage.taken_bounds hle hlen
  refine ⟨bytes.length - left.length, q, hlo, hhi, hring.pending_eq.symm, ?_⟩
  have htaken : s.receiver.received ++ (q ++ s.receiver.sm.rx).map byteOf =
      s.receiver.words.map byteOf := by
    rw [Receiver.words, hq, Receiver.received, ← List.map_append, List.append_assoc]
  rw [htaken]
  refine (List.take_left' ?_).symm.trans (congrArg _ hbytes)
  rw [← hbytes, List.length_append, Nat.add_sub_cancel]

theorem Carries.received_prefix (h : Carries base before log bytes s) :
    s.receiver.received <+: bytes := by
  obtain ⟨todo, left, -, hbytes, -⟩ := h.rest
  obtain ⟨q, hq, -⟩ := h.sound.held
  refine ⟨(q ++ s.receiver.sm.rx).map byteOf ++ left, ?_⟩
  rw [← hbytes, Receiver.words, hq, Receiver.received, ← List.append_assoc, ← List.map_append,
    List.append_assoc]

/-- Where the host has written all it has to write, and nothing is in the ring
or in the FIFO, everything has been returned. -/
theorem Carries.received_all {m : Machine DosState Recorder} (hm : Sending base bytes m)
    (h : Carries base before m.io.writes bytes s) (hall : s.writes = m.io.writes)
    (hrx : s.receiver.sm.rx = [])
    (hring : s.receiver.reader.ring.pending = 0) : s.receiver.received = bytes := by
  obtain ⟨k, q, hk, -, hq, hbytes⟩ := h.delivers hm
  have hlen : s.writes.length = 3 * bytes.length + 1 := by
    rw [hall, hm.writes, List.length_cons, length_strobes]
  have hnil : q = [] := List.length_eq_zero_iff.mp (hq.trans hring)
  rwa [hnil, hrx, List.append_nil, List.map_nil, List.append_nil,
    List.take_of_length_le (by omega)] at hbytes

/-- Nothing is lost on the way to the firmware, nothing comes twice, and the
order stays: what `recv_byte` has returned, what waits in the ring and what
waits in the FIFO are, one after the other, the first of the bytes that Stage 1
has sent; those whose strobe has risen are among them, and none whose strobe
has not fallen is. -/
theorem forward_delivers {m : Machine DosState Recorder} (hm : Sending base bytes m)
    (hidle : before.control &&& CTRL_INIT ≠ 0)
    (levels : Nat → Level) (ring : Nat) (as : List Action)
    (hfit : Run.Along (act base before) (Fits m.io.writes) (start levels ring) as) :
    let s := as.foldl (act base before) (start levels ring)
    ∃ k q, (s.writes.length - 1) / 3 ≤ k ∧ k ≤ s.writes.length / 3 ∧
      q.length = s.receiver.reader.ring.pending ∧
      s.receiver.received ++ (q ++ s.receiver.sm.rx).map byteOf = bytes.take k :=
  (carries_run hm hidle hfit).delivers hm

/-- Stage 1 about to send the bytes 5Ah, A5h and 0Fh on the port at 378h. -/
def sender : Machine DosState Recorder where
  ax := 0
  bx := 0
  cx := 3
  dx := 0
  si := TX_BUF_OFF
  di := 0
  cs := 0
  ds := 0
  es := 0
  cf := false
  zf := false
  stk := []
  mem := ((Mem.set (fun _ => 0) currentPump PUMP_LPT_SPP).setWord lptBase 0x378).store TX_BUF_OFF
    [0x5A, 0xA5, 0x0F]
  got := []
  dos := ⟨fun _ => none, fun _ => none, [], [], 0, 0, 0,
    fun _ => ⟨false, 0, 0, 0, 0, ⟨fun _ => 0, 0, 0, 0, 0, 0, 0, 0, 0⟩⟩, 0⟩
  io := ⟨⟨fun _ => 0, 0⟩, []⟩

theorem sender_sends : Sending 0x378 [0x5A, 0xA5, 0x0F] (txDrain (lpt.initLptControl sender)) := by
  have hinit : Sending 0x378 [] (lpt.initLptControl sender) := .init rfl (by decide)
  obtain ⟨a, d, z, c, e⟩ := lpt.initLptControl_ok sender
  have hpump : (lpt.initLptControl sender).mem currentPump = PUMP_LPT_SPP := by
    rw [e]
    rfl
  have hbytes : (lpt.initLptControl sender).mem.bytes (lpt.initLptControl sender).si
    (lpt.initLptControl sender).cx.toNat =
      [0x5A, 0xA5, 0x0F] := by
    rw [e]
    rfl
  have hdrain := hinit.drain hpump
  rwa [hbytes] at hdrain

/-- The writes, each with a cycle after it. -/
def written (log : List (Word × Byte)) : List Action :=
  log.flatMap fun w => [.cycle (some w) fun _ => .low, .cycle none fun _ => .low]

/-- A run: only after the last write the DMA channel and the reader take their
steps, for `n` bytes. -/
def behind (log : List (Word × Byte)) (n : Nat) : List Action :=
  written log ++ List.replicate n .dma ++ (List.replicate n [.calls, .loads]).flatten

theorem forward_delivers_bytes :
    let s :=
      (behind ((0x37A, 0x0C) :: strobes 0x378 [0x5A, 0xA5, 0x0F]) 3).foldl (act 0x378 ⟨0, 0x0C⟩)
      (start (fun _ => .low) 0x20000000)
    s.receiver.received = [0x5A, 0xA5, 0x0F] ∧
    ∃ k q, (s.writes.length - 1) / 3 ≤ k ∧ k ≤ s.writes.length / 3 ∧
      q.length = s.receiver.reader.ring.pending ∧
      s.receiver.received ++ (q ++ s.receiver.sm.rx).map byteOf = [0x5A, 0xA5, 0x0F].take k :=
  ⟨by decide +kernel, forward_delivers sender_sends (by decide) _ _ _ (by
    rw [sender_sends.writes]
    decide +kernel)⟩

end Wire

/-! ## Commands without a payload -/

/-- A packet without a payload. -/
def command (cmd seq : Byte) : OutgoingPacket := ⟨cmd, seq, [], Nat.zero_le _⟩

/-- The packets a Stage 1 program has sent, none with a payload. -/
inductive Commanding (base : Word) : List OutgoingPacket → Machine DosState Recorder → Prop
  | init {m : Machine DosState Recorder} : m.io.writes = [] → m.mem.word lptBase = base →
    Commanding base [] (lpt.initLptControl m)
  | command {ps : List OutgoingPacket} {m : Machine DosState Recorder} : Commanding base ps m →
    m.mem currentPump = PUMP_LPT_SPP → m.cx = 0 →
    Commanding base (ps ++ [command (lo m.ax) (m.mem txSeq)]) (encodeDrain m)
  | other {ps : List OutgoingPacket} {m m' : Machine DosState Recorder} : Commanding base ps m →
    m'.io.writes = m.io.writes → m'.mem.word lptBase = m.mem.word lptBase → Commanding base ps m'

theorem Commanding.sending {base : Word} {ps : List OutgoingPacket} {m : Machine DosState Recorder}
    (h : Commanding base ps m) : Sending base (ps.flatMap encoded) m := by
  induction h with
  | init hw hb => exact .init hw hb
  | other _ hw hb ih => exact ih.other hw hb
  | @command ps m h hp hcx ih =>
    have hlen : m.cx.toNat = 0 := congrArg BitVec.toNat hcx
    have hle : m.cx.toNat ≤ MAX_PAYLOAD := hlen ▸ Nat.zero_le _
    have hapart : PayloadApart m := by
      rw [PayloadApart, hlen]
      exact ⟨fun x hx => absurd hx (Nat.not_lt_zero _), Nat.not_lt_zero _⟩
    obtain ⟨c, z, e⟩ := packetEncode_ok m hle hapart
    have hio : (packetEncode m).io = m.io := by rw [e]
    have hk : Keeps Stage1.Link txWire m (packetEncode m) := packetEncode_keeps m hle hapart
    obtain ⟨hbuf, -, hcx'⟩ := packetEncode_buffer m hle hapart
    have hpump : (packetEncode m).mem currentPump = m.mem currentPump := hk.mem.byte (by decide)
    rw [hlen] at hbuf
    generalize hm₁ : packetEncode m = m₁ at *
    have hbytes : (m₁.mov .si (imm TX_BUF_OFF)).mem.bytes TX_BUF_OFF m₁.cx.toNat =
        encoded (Link.command (lo m.ax) (m.mem txSeq)) := by
      rw [encoded_eq, hcx']
      exact hbuf
    have hsend : Sending base (ps.flatMap encoded) (m₁.mov .si (imm TX_BUF_OFF)) :=
      ih.other (congrArg Recorder.writes hio) hk.base
    have hdrain := hsend.drain (hpump.trans hp)
    rw [show (m₁.mov .si (imm TX_BUF_OFF)).si = TX_BUF_OFF from rfl,
      show (m₁.mov .si (imm TX_BUF_OFF)).cx = m₁.cx from rfl, hbytes] at hdrain
    rw [List.flatMap_append, List.flatMap_singleton, encodeDrain, hm₁]
    exact hdrain

theorem turn_encoded (r : PacketReassembler) (p : OutgoingPacket) :
    ∃ r', r.turn (encoded p) = .ok (.packet (PacketReassembler.received p) r' []) := by
  rw [encoded_eq, ← List.append_nil (frame _ _ _)]
  exact PacketReassembler.turn_frame r (PacketReassembler.received p) []

theorem packets_nil (r : PacketReassembler) : (recvAll r []).packets = [] := by
  rw [PacketReassembler.recvAll_turn, PacketReassembler.turn_nil]

theorem packets_frames (r : PacketReassembler) (ps : List OutgoingPacket) (x : List Byte) :
    (recvAll r (ps.flatMap encoded ++ x)).packets = ps.map PacketReassembler.received ++
      (recvAll r x).packets := by
  induction ps generalizing r with
  | nil => rfl
  | cons p ps ih =>
    obtain ⟨r', hr⟩ := turn_encoded r p
    have hturn := PacketReassembler.packets_append hr r r (ps.flatMap encoded ++ x)
    rw [List.flatMap_cons, List.append_assoc, hturn]
    exact congrArg (PacketReassembler.received p :: ·) (ih r)

/-- A frame that is not all there gives no packet. -/
theorem packets_cut (r : PacketReassembler) {p : OutgoingPacket} {t : List Byte}
    (h : t <+: encoded p) (hne : t ≠ encoded p) : (recvAll r t).packets = [] := by
  obtain ⟨x, hx⟩ := h
  rw [PacketReassembler.recvAll_turn]
  rcases PacketReassembler.turn_ok r t with hp | ⟨turn, ht, -⟩
  · rw [hp]
  · -- The turn would be that of the whole frame, which takes all of it.
    obtain ⟨r', hr⟩ := turn_encoded r p
    obtain ⟨turn', ht', -, hrest⟩ := PacketReassembler.turn_append ht r x
    rw [hx] at ht'
    rw [Except.ok.inj (ht'.symm.trans hr)] at hrest
    refine absurd ?_ hne
    rw [← hx, (List.append_eq_nil_iff.mp hrest.symm).2, List.append_nil]

/-- The packets of the first `n` bytes of frames of eight bytes each. -/
theorem packets_take (r : PacketReassembler) {ps : List OutgoingPacket}
    (hlen : ∀ p ∈ ps, (encoded p).length = 8) (n : Nat) :
    (recvAll r ((ps.flatMap encoded).take n)).packets =
      (ps.take (n / 8)).map PacketReassembler.received := by
  induction ps generalizing n with
  | nil =>
    rw [List.flatMap_nil, List.take_nil, List.take_nil]
    exact packets_nil r
  | cons p ps ih =>
    have hp := hlen p (List.mem_cons_self ..)
    rw [List.flatMap_cons, List.take_append, hp]
    rcases Nat.lt_or_ge n 8 with hn | hn
    · rw [Nat.div_eq_of_lt hn, List.take_zero, Nat.sub_eq_zero_of_le hn.le, List.take_zero,
        List.append_nil]
      refine packets_cut r (List.take_prefix n _) fun he => ?_
      have hl := congrArg List.length he
      rw [List.length_take, hp] at hl
      omega
    · obtain ⟨k, rfl⟩ := Nat.exists_eq_add_of_le hn
      rw [List.take_of_length_le (hp.trans_le hn), Nat.add_sub_cancel_left,
        Nat.add_div_left k (by decide), List.take_succ_cons]
      have hone := packets_frames r [p] ((ps.flatMap encoded).take k)
      rw [List.flatMap_singleton, ih (fun q hq => hlen q (List.mem_cons_of_mem p hq)) k] at hone
      exact hone

theorem Commanding.length_encoded {base : Word} {ps : List OutgoingPacket}
    {m : Machine DosState Recorder} (h : Commanding base ps m) :
    ∀ p ∈ ps, (encoded p).length = 8 := by
  induction h with
  | init => exact fun _ hp => absurd hp List.not_mem_nil
  | other _ _ _ ih => exact ih
  | command _ _ _ ih =>
    intro p hp
    rcases List.mem_append.mp hp with hp | hp
    · exact ih p hp
    · rw [List.mem_singleton.mp hp, encoded_eq, length_frame]
      rfl

theorem length_encodings {ps : List OutgoingPacket} (hlen : ∀ p ∈ ps, (encoded p).length = 8) :
    (ps.flatMap encoded).length = 8 * ps.length := by
  induction ps with
  | nil => rfl
  | cons p ps ih =>
    rw [List.flatMap_cons, List.length_append, hlen p (List.mem_cons_self ..),
      ih fun q hq => hlen q (List.mem_cons_of_mem p hq), List.length_cons]
    omega

/-- The packets without a payload that Stage 1 encodes and drains reach the
firmware: those that `next_packet` decodes from the bytes it has got are the
first of them, each as soon as its eight bytes are there, with the SEQ of the
encoder; and once all is written and nothing on its way they are all there. -/
theorem commands_arrive {base : Word} {before : Registers} {ps : List OutgoingPacket}
    {m : Machine DosState Recorder} (hm : Commanding base ps m)
    (hidle : before.control &&& CTRL_INIT ≠ 0) (levels : Nat → Level) (ring : Nat)
    (as : List Wire.Action)
    (hfit : Run.Along (Wire.act base before) (Wire.Fits m.io.writes) (Wire.start levels ring) as) :
    let s := as.foldl (Wire.act base before) (Wire.start levels ring)
    (recvAll .new s.receiver.received).packets =
        (ps.take (s.receiver.received.length / 8)).map PacketReassembler.received ∧
      (s.writes = m.io.writes → s.receiver.sm.rx = [] → s.receiver.reader.ring.pending = 0 →
        s.receiver.received.length = 8 * ps.length) := by
  intro s
  have hlen := hm.length_encoded
  have hs : Wire.Carries base before m.io.writes (ps.flatMap encoded) s :=
    Wire.carries_run hm.sending hidle hfit
  constructor
  · have htake := packets_take .new hlen s.receiver.received.length
    rwa [← List.prefix_iff_eq_take.mp hs.received_prefix] at htake
  · intro hall hrx hring
    rw [hs.received_all hm.sending hall hrx hring, length_encodings hlen]

/-- A run in which the DMA channel and the reader take their steps after each
write. -/
def Wire.paced (log : List (Word × Byte)) : List Wire.Action :=
  log.flatMap fun w => Wire.written [w] ++ [.dma, .calls, .loads]

/-- Stage 1 about to send a PING. -/
def pinger : Machine DosState Recorder :=
  { lpt.initLptControl Wire.sender with ax := ofBytes 0 CMD_PING, cx := 0 }

/-- And then a CAP_REQ. -/
def requester : Machine DosState Recorder :=
  { encodeDrain pinger with ax := ofBytes 0 CMD_CAP_REQ, cx := 0 }

/-- What was sent before leaves the pump and counts the packets. -/
theorem requester_mem : requester.mem currentPump = PUMP_LPT_SPP ∧ requester.mem txSeq = 1 := by
  constructor <;> decide +kernel

theorem requester_sends :
    Commanding 0x378 [command CMD_PING 0, command CMD_CAP_REQ 1] (encodeDrain requester) := by
  have hinit : Commanding 0x378 [] (lpt.initLptControl Wire.sender) := .init rfl (by decide)
  have hset : Commanding 0x378 [] pinger := hinit.other rfl rfl
  obtain ⟨a, d, z, c, e⟩ := lpt.initLptControl_ok Wire.sender
  have hmem : pinger.mem = (lpt.initLptControl Wire.sender).mem := rfl
  have hpump : pinger.mem currentPump = PUMP_LPT_SPP := by
    rw [hmem, e]
    rfl
  have hseq : pinger.mem txSeq = 0 := by
    rw [hmem, e]
    rfl
  have hsent := hset.command hpump rfl
  rw [hseq] at hsent
  obtain ⟨hpump', hseq'⟩ := requester_mem
  have hset' : Commanding 0x378 [command CMD_PING 0] requester := hsent.other rfl rfl
  have hnext := hset'.command hpump' rfl
  rwa [hseq'] at hnext

/-- The bytes of the PING and of the CAP_REQ. -/
def pingReq : List Byte :=
  [0x01, 0x10, 0x00, 0x00, 0x00, 0x9F, 0x67, 0x03, 0x01, 0x00, 0x01, 0x00, 0x00, 0xB3, 0xF0, 0x03]

theorem commands_arrive_pingReq :
    let s := (Wire.paced ((0x37A, 0x0C) :: strobes 0x378 pingReq)).foldl
      (Wire.act 0x378 ⟨0, 0x0C⟩) (Wire.start (fun _ => .low) 0x20000000)
    (recvAll .new s.receiver.received).packets = ([command CMD_PING 0, command CMD_CAP_REQ 1].take
        (s.receiver.received.length / 8)).map PacketReassembler.received ∧
      s.receiver.received.length = 8 * 2 := by
  intro s
  have hidle : (⟨0, 0x0C⟩ : Registers).control &&& CTRL_INIT ≠ 0 := by decide
  obtain ⟨hpackets, hall⟩ := commands_arrive requester_sends hidle (fun _ => .low) 0x20000000
    (Wire.paced ((0x37A, 0x0C) :: strobes 0x378 pingReq)) (by
      rw [requester_sends.sending.writes]
      decide +kernel)
  refine ⟨hpackets, hall ?_ (by decide +kernel) (by decide +kernel)⟩
  rw [requester_sends.sending.writes]
  decide +kernel

end VintageKvm.Link
