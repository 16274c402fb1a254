import VintageKvm.Firmware.Usb.Events
import VintageKvm.Lib.Chunks

/-!
# The writers of the USB endpoints

What each of the four writers puts on its endpoint for a message, as long as
no write fails. A host hands a message on at the first packet that is not full.
`flushed_iff`: the packets make up the message and the last is short, but for
the echo of a console packet that is a multiple of 64 bytes long.
-/

namespace VintageKvm.Firmware.Usb

/-! ## The writers -/

/-- `write_chunks` of the control interface. -/
def writeChunks (bytes : List Byte) : List (List Byte) :=
  chunks PACKET_LEN bytes ++ if !bytes.isEmpty && bytes.length % PACKET_LEN = 0 then [[]] else []

/-- The chunks of a frame, and an empty packet after full ones only. -/
def writeFrame (frame : List Byte) : List (List Byte) :=
  let cs := chunks PACKET_LEN frame
  let sentFull := cs.any fun chunk => chunk.length = PACKET_LEN
  cs ++ if sentFull && frame.length % PACKET_LEN = 0 then [[]] else []

/-- `run` of the events interface. -/
def writeEvent (encoded : List Byte) : List (List Byte) := writeFrame encoded

/-- `run_writer` of the bulk interface. -/
def writeBulk (frame : List Byte) : List (List Byte) := writeFrame frame

/-- A packet read by the console. -/
structure ConsolePacket where
  rx : List Byte
  fits : rx.length ≤ PACKET_LEN

abbrev TX_LEN : Nat := 128

/-- The bytes of a packet put in `tx`: the packets written when it is full, and
what it holds in the end. -/
def fillTx (tx : List Byte) : List Byte → List (List Byte) × List Byte
  | [] => ([], tx)
  | b :: rx =>
    let new : List Byte := if b = 0x0D then [0x0D, 0x0A] else [b]
    if TX_LEN < tx.length + new.length then
      let (written, tx') := fillTx new rx
      (tx :: written, tx')
    else fillTx (tx ++ new) rx

/-- `run` of the console interface, from a packet read to the next. -/
def writeEcho (p : ConsolePacket) : List (List Byte) :=
  let (written, tx) := fillTx [] p.rx
  written ++ chunks PACKET_LEN tx

/-- CR as CR LF. -/
def expand (rx : List Byte) : List Byte :=
  rx.flatMap fun b => if b = 0x0D then [0x0D, 0x0A] else [b]

/-! ## Messages -/

/-- A message to a writer. -/
inductive Message where
  | control (bytes : List Byte)
  | event (encoded : List Byte)
  | bulk (frame : List Byte)
  | echo (p : ConsolePacket)

namespace Message

def content : Message → List Byte
  | control bytes => bytes
  | event encoded => encoded
  | bulk frame => frame
  | echo p => expand p.rx

def packets : Message → List (List Byte)
  | control bytes => writeChunks bytes
  | event encoded => writeEvent encoded
  | bulk frame => writeBulk frame
  | echo p => writeEcho p

end Message

/-- Packets that make up a message, the last of them short. -/
structure Flushed (message : List Byte) (packets : List (List Byte)) : Prop where
  whole : packets.flatten = message
  small : ∀ p ∈ packets, p.length ≤ PACKET_LEN
  short : ∃ last, packets.getLast? = some last ∧ last.length < PACKET_LEN

/-! ## Chunks and the empty packet -/

variable {message : List Byte}

/-- The chunks alone are flushed where the last is not full. -/
theorem flushed_chunks_iff (h : message ≠ []) :
    Flushed message (chunks PACKET_LEN message) ↔ ¬ message.length % PACKET_LEN = 0 := by
  obtain ⟨cs, c, hcs, hc⟩ := chunks_last (n := PACKET_LEN) (by decide) h
  have hlast : (chunks PACKET_LEN message).getLast? = some c := by rw [hcs, List.getLast?_concat]
  constructor
  · rintro ⟨-, -, last, hl, hshort⟩ hmod
    rw [hlast] at hl
    rw [← Option.some.inj hl, hc, if_pos hmod] at hshort
    exact Nat.lt_irrefl _ hshort
  · intro hmod
    refine ⟨chunks_flatten (by decide) message, fun p hp => length_of_mem_chunks hp, c, hlast, ?_⟩
    rw [hc, if_neg hmod]
    exact Nat.mod_lt _ (by decide)

/-- With an empty packet behind them they are flushed anyway. -/
theorem flushed_empty (message : List Byte) :
    Flushed message (chunks PACKET_LEN message ++ [[]]) where
  whole := by
    rw [List.flatten_append, chunks_flatten (by decide), List.flatten_singleton, List.append_nil]
  small p hp := by
    obtain hp | hp := List.mem_append.mp hp
    · exact length_of_mem_chunks hp
    · rw [List.mem_singleton.mp hp]
      exact Nat.zero_le _
  short := ⟨[], List.getLast?_concat .., by decide⟩

theorem flushed_writeChunks (h : message ≠ []) : Flushed message (writeChunks message) := by
  rw [writeChunks, List.isEmpty_eq_false_iff.mpr h]
  by_cases hmod : message.length % PACKET_LEN = 0
  · rw [if_pos (by simp [hmod])]
    exact flushed_empty message
  · rw [if_neg (by simp [hmod]), List.append_nil]
    exact (flushed_chunks_iff h).mpr hmod

/-- A frame of a whole number of packets has a full one. -/
theorem any_full (h : message ≠ []) (hmod : message.length % PACKET_LEN = 0) :
    (chunks PACKET_LEN message).any (fun chunk => chunk.length = PACKET_LEN) = true := by
  rw [chunks_cons (by decide) h, List.any_cons]
  have hlen := List.length_pos_iff.mpr h
  have hfull : (message.take PACKET_LEN).length = PACKET_LEN := by
    rw [List.length_take]
    exact Nat.min_eq_left (Nat.le_of_dvd hlen (Nat.dvd_of_mod_eq_zero hmod))
  rw [hfull]
  rfl

theorem flushed_writeFrame (h : message ≠ []) : Flushed message (writeFrame message) := by
  unfold writeFrame
  dsimp only
  by_cases hmod : message.length % PACKET_LEN = 0
  · rw [any_full h hmod, if_pos (by simp [hmod])]
    exact flushed_empty message
  · rw [if_neg (by simp [hmod]), List.append_nil]
    exact (flushed_chunks_iff h).mpr hmod

/-! ## The console -/

theorem length_expand (rx : List Byte) : (expand rx).length ≤ 2 * rx.length := by
  induction rx with
  | nil => exact Nat.le_refl _
  | cons b rx ih =>
    have hb : (if b = 0x0D then [0x0D, 0x0A] else [b] : List Byte).length ≤ 2 := by
      split
      · exact Nat.le_refl _
      · exact Nat.le_succ _
    rw [expand, List.flatMap_cons, List.length_append, List.length_cons]
    exact (Nat.add_le_add hb ih).trans (by omega)

/-- What fits is not written before the end. -/
theorem fillTx_eq {tx rx : List Byte} (h : tx.length + (expand rx).length ≤ TX_LEN) :
    fillTx tx rx = ([], tx ++ expand rx) := by
  induction rx generalizing tx with
  | nil =>
    rw [fillTx]
    exact congrArg _ (List.append_nil tx).symm
  | cons b rx ih =>
    have hcons : expand (b :: rx) = (if b = 0x0D then [0x0D, 0x0A] else [b]) ++ expand rx :=
      List.flatMap_cons
    rw [hcons, List.length_append] at h
    rw [fillTx, if_neg (by omega), ih (by rw [List.length_append]; omega), hcons, List.append_assoc]

theorem writeEcho_eq (p : ConsolePacket) : writeEcho p = chunks PACKET_LEN (expand p.rx) := by
  have hfit : (expand p.rx).length ≤ TX_LEN :=
    (length_expand p.rx).trans (Nat.mul_le_mul_left 2 p.fits)
  have hfill : fillTx [] p.rx = ([], expand p.rx) :=
    fillTx_eq (by rwa [List.length_nil, Nat.zero_add])
  rw [writeEcho, hfill]
  rfl

/-- The packets of a message are the message, flushed, unless it is an echo of
whole packets. -/
theorem flushed_iff (m : Message) (h : m.content ≠ []) :
    Flushed m.content m.packets ↔ ∀ p, m = .echo p → ¬ PACKET_LEN ∣ (expand p.rx).length := by
  cases m with
  | control bytes =>
    have hf := flushed_writeChunks h
    exact ⟨fun _ p hp => (nomatch hp), fun _ => hf⟩
  | event encoded =>
    have hf := flushed_writeFrame h
    exact ⟨fun _ p hp => (nomatch hp), fun _ => hf⟩
  | bulk frame =>
    have hf := flushed_writeFrame h
    exact ⟨fun _ p hp => (nomatch hp), fun _ => hf⟩
  | echo p =>
    have hiff : Flushed (expand p.rx) (writeEcho p) ↔ ¬ (expand p.rx).length % PACKET_LEN = 0 := by
      rw [writeEcho_eq]
      exact flushed_chunks_iff h
    refine hiff.trans (not_congr Nat.dvd_iff_mod_eq_zero.symm
      |>.trans ⟨fun hdvd q hq => ?_, fun hall => hall p rfl⟩)
    rwa [← Message.echo.inj hq]

theorem flushed_iff_ping : (Message.echo ⟨[0x70, 0x69, 0x0D], by decide⟩).content ≠ [] ∧
    Flushed [0x70, 0x69, 0x0D, 0x0A] (Message.echo ⟨[0x70, 0x69, 0x0D], by decide⟩).packets := by
  have hne : (Message.echo ⟨[0x70, 0x69, 0x0D], by decide⟩).content ≠ [] := by decide
  refine ⟨hne, (flushed_iff (.echo ⟨[0x70, 0x69, 0x0D], by decide⟩) hne).mpr fun p hp => ?_⟩
  rw [← Message.echo.inj hp]
  decide

/-- A packet of 64 letters, echoed. -/
def fullPacket : ConsolePacket := ⟨List.replicate 64 0x61, by decide⟩

theorem echo_unflushed : ¬ ∀ m : Message, m.content ≠ [] →
    Flushed m.content m.packets := fun h => by
  have hne : expand fullPacket.rx ≠ [] := by decide
  have hfull : Flushed (expand fullPacket.rx) (writeEcho fullPacket) := h (.echo fullPacket) hne
  rw [writeEcho_eq] at hfull
  exact (flushed_chunks_iff hne).mp hfull (by decide)

/-! ## The events task -/

namespace Events

variable {ε : Type*} {encode : ε → Option (List Byte)}

/-- The packet that the writer is at. -/
def packet (s : Events ε) : Option (List Byte) :=
  match s.writer with
  | .writing _ _ chunk _ _ => some chunk
  | .flushing => some []
  | _ => none

/-- Packets written, none of which fails, up to the end of a frame. -/
inductive Writes (encode : ε → Option (List Byte)) :
    Events ε → List (List Byte) → Events ε → Prop where
  | done {s : Events ε} : s.packet = none → Writes encode s [] s
  | wrote {s s' : Events ε} {p : List Byte} {ps : List (List Byte)} :
    s.packet = some p → Writes encode (s.act encode (.wrote true)) ps s' →
    Writes encode s (p :: ps) s'

theorem writes_flush (s : Events ε) (encoded : List Byte) (sentFull : Bool) :
    Writes encode { s with writer := flush encoded sentFull }
      (if sentFull && encoded.length % PACKET_LEN = 0 then [[]] else [])
      { s with writer := .receiving } := by
  unfold flush
  split
  · exact .wrote rfl (.done rfl)
  · exact .done rfl

theorem writes_chunks (s : Events ε) (event : ε) (encoded : List Byte) (cs : List (List Byte))
    (sentFull : Bool) : Writes encode (s.writeNext event encoded cs sentFull)
      (cs ++ if (sentFull || cs.any fun chunk => chunk.length = PACKET_LEN) &&
        encoded.length % PACKET_LEN = 0 then [[]] else [])
      { s with writer := .receiving, delivered := s.delivered + 1 } := by
  induction cs generalizing s sentFull with
  | nil =>
    rw [List.any_nil, Bool.or_false, List.nil_append]
    exact writes_flush { s with delivered := s.delivered + 1 } encoded sentFull
  | cons chunk cs ih =>
    have hrest := ih { s with writer := .writing event encoded chunk cs sentFull }
      (sentFull || chunk.length = PACKET_LEN)
    rw [List.any_cons, ← Bool.or_assoc, List.cons_append]
    exact .wrote rfl hrest

/-- The task writes a frame as `writeEvent` does. -/
theorem writes_event {s : Events ε} {event : ε} {rest : Channel ε USB_EVENT_CHAN_DEPTH}
    {encoded : List Byte} (hw : s.writer = .receiving) (hr : s.chan.receive = some (event, rest))
    (he : encode event = some encoded) :
    Writes encode (s.act encode .received) (writeEvent encoded)
      { s with chan := rest, writer := .receiving, delivered := s.delivered + 1 } := by
  have hact : s.act encode .received =
      { s with chan := rest }.writeNext event encoded (chunks PACKET_LEN encoded) false := by
    simp only [act, hw, hr, he]
  rw [hact]
  exact writes_chunks { s with chan := rest } event encoded (chunks PACKET_LEN encoded) false

end Events

end VintageKvm.Firmware.Usb
