import VintageKvm.Lib.Chunks
import VintageKvm.Lib.Run
import VintageKvm.Lib.Word

/-!
# The telemetry stream to the host

Every task hands its events to `UsbEmit`, which queues them or counts a drop;
one writer task takes them from the queue and writes each as the packets of
its frame. `emit` can come between any two steps of the writer, and any packet
can fail. `accounted_iff`: every event is accounted for as long as no packet of
a frame fails.
-/

namespace VintageKvm.Firmware.Usb

abbrev USB_EVENT_CHAN_DEPTH : Nat := 32

/-- The packet size of the endpoint. -/
abbrev PACKET_LEN : Nat := 64

/-- What the writer task is at. -/
inductive Writer (ε : Type*) where
  /-- `wait_connection` -/
  | connecting
  | receiving
  /-- The chunk of the event's frame that is being written and those left, and
  whether one of those written was a full packet. -/
  | writing (event : ε) (encoded chunk : List Byte) (rest : List (List Byte)) (sentFull : Bool)
  /-- The empty packet after a frame of full packets. -/
  | flushing
  deriving DecidableEq, Repr

structure Events (ε : Type*) where
  chan : Channel ε USB_EVENT_CHAN_DEPTH
  drops : DWord
  writer : Writer ε
  /-- Events emitted, and events whose whole frame was written. No task reads
  these. -/
  emitted : Nat
  delivered : Nat

namespace Events

variable {ε : Type*}

def boot : Events ε where
  chan := .new
  drops := 0
  writer := .connecting
  emitted := 0
  delivered := 0

def emit (s : Events ε) (event : ε) : Events ε :=
  if s.chan.queue.length < USB_EVENT_CHAN_DEPTH then
    { s with chan := s.chan.trySend event, emitted := s.emitted + 1 }
  else { s with drops := s.drops + 1, emitted := s.emitted + 1 }

/-- What follows the chunks of a frame, all of them written or not. -/
def flush (encoded : List Byte) (sentFull : Bool) : Writer ε :=
  if sentFull && encoded.length % PACKET_LEN = 0 then .flushing else .receiving

/-- The writer goes on with the chunks that are left. -/
def writeNext (s : Events ε) (event : ε) (encoded : List Byte) (chunks : List (List Byte))
    (sentFull : Bool) : Events ε :=
  match chunks with
  | [] => { s with writer := flush encoded sentFull, delivered := s.delivered + 1 }
  | chunk :: rest => { s with writer := .writing event encoded chunk rest sentFull }

inductive Action (ε : Type*) where
  | emit (event : ε)
  /-- The host has connected. -/
  | connected
  /-- The writer has an event from the queue. -/
  | received
  /-- `write_packet` has returned. -/
  | wrote (ok : Bool)

/-- One step of a task; what no task waits for changes nothing. `encode` gives
nothing for an event that does not fit the buffer. -/
def act (encode : ε → Option (List Byte)) (s : Events ε) : Action ε → Events ε
  | .emit event => s.emit event
  | .connected =>
    match s.writer with
    | .connecting => { s with writer := .receiving }
    | _ => s
  | .received =>
    match s.writer, s.chan.receive with
    | .receiving, some (event, rest) =>
      match encode event with
      | some encoded =>
        { s with chan := rest }.writeNext event encoded (chunks PACKET_LEN encoded) false
      | none => { s with chan := rest }
    | _, _ => s
  | .wrote ok =>
    match s.writer with
    | .writing event encoded chunk rest sentFull =>
      if ok then s.writeNext event encoded rest (sentFull || chunk.length = PACKET_LEN)
      else { s with writer := flush encoded sentFull }
    | .flushing => { s with writer := .receiving }
    | _ => s

def run (encode : ε → Option (List Byte)) (as : List (Action ε)) : Events ε :=
  as.foldl (act encode) boot

/-- The event that the writer holds. -/
def held (s : Events ε) : Nat :=
  match s.writer with
  | .writing .. => 1
  | _ => 0

/-- Every event emitted was delivered, or it is in the queue or with the
writer, or its loss was counted. -/
def Accounted (s : Events ε) : Prop :=
  s.emitted ≡ s.delivered + s.chan.queue.length + s.held + s.drops.toNat [MOD 2 ^ 32]

instance (s : Events ε) : Decidable s.Accounted := inferInstanceAs (Decidable (_ ≡ _ [MOD 2 ^ 32]))

/-- A packet of a frame fails. -/
def Fails (s : Events ε) (a : Action ε) : Prop :=
  match s.writer, a with
  | .writing .., .wrote false => True
  | _, _ => False

variable {s : Events ε} {encode : ε → Option (List Byte)}

/-! ## One step -/

/-- A step that leaves the sums as they are. -/
theorem Accounted.congr {s' : Events ε} (h : s.Accounted) (hemitted : s'.emitted = s.emitted)
    (hdrops : s'.drops = s.drops) (hsum : s'.delivered + s'.chan.queue.length + s'.held =
      s.delivered + s.chan.queue.length + s.held) : s'.Accounted := by
  rwa [Accounted, hemitted, hdrops, hsum]

theorem Accounted.emit (h : s.Accounted) (event : ε) : (s.emit event).Accounted := by
  unfold Events.emit Accounted Nat.ModEq at *
  split
  next hroom =>
    show (s.emitted + 1) % 2 ^ 32 =
      (s.delivered + (s.chan.trySend event).queue.length + s.held + s.drops.toNat) % 2 ^ 32
    rw [Channel.trySend, dif_pos hroom, List.length_append, List.length_singleton]
    omega
  next =>
    show (s.emitted + 1) % 2 ^ 32 =
      (s.delivered + s.chan.queue.length + s.held + (s.drops.toNat + 1) % 2 ^ 32) % 2 ^ 32
    omega

theorem held_flush (s : Events ε) (encoded : List Byte) (sentFull : Bool) :
    held { s with writer := flush encoded sentFull } = 0 := by
  unfold held flush
  dsimp only
  split_ifs <;> rfl

/-- Whether chunks are left or not, the event is with the writer or
delivered. -/
theorem writeNext_balance (s : Events ε) (event : ε) (encoded : List Byte)
    (chunks : List (List Byte)) (sentFull : Bool) :
    (s.writeNext event encoded chunks sentFull).delivered +
      (s.writeNext event encoded chunks sentFull).held = s.delivered + 1 := by
  cases chunks with
  | nil =>
    exact congrArg (s.delivered + 1 + ·)
      (held_flush { s with delivered := s.delivered + 1 } encoded sentFull)
  | cons chunk rest => rfl

theorem writeNext_keeps (s : Events ε) (event : ε) (encoded : List Byte) (chunks : List (List Byte))
    (sentFull : Bool) : (s.writeNext event encoded chunks sentFull).chan = s.chan ∧
      (s.writeNext event encoded chunks sentFull).drops = s.drops ∧
      (s.writeNext event encoded chunks sentFull).emitted = s.emitted := by
  cases chunks <;> exact ⟨rfl, rfl, rfl⟩

theorem Accounted.writeNext (event : ε) (encoded : List Byte) (chunks : List (List Byte))
    (sentFull : Bool) {s₀ : Events ε} (h : s₀.Accounted) (hemitted : s.emitted = s₀.emitted)
    (hdrops : s.drops = s₀.drops)
    (hsum : s.delivered + s.chan.queue.length + 1 = s₀.delivered + s₀.chan.queue.length + s₀.held) :
    (s.writeNext event encoded chunks sentFull).Accounted := by
  obtain ⟨hchan, hd, he⟩ := s.writeNext_keeps event encoded chunks sentFull
  have hbal := s.writeNext_balance event encoded chunks sentFull
  refine h.congr (he.trans hemitted) (hd.trans hdrops) ?_
  rw [hchan]
  omega

theorem Accounted.received (fits : ∀ event, (encode event).isSome) (h : s.Accounted) :
    (s.act encode .received).Accounted := by
  unfold act
  dsimp only
  split
  next event rest hw hr =>
    obtain ⟨encoded, hen⟩ := Option.isSome_iff_exists.mp (fits event)
    have hq : s.chan.queue.length = rest.queue.length + 1 := by
      rcases hc : s.chan with ⟨_ | ⟨x, xs⟩, hfit⟩
      · rw [hc] at hr
        cases hr
      · rw [hc] at hr
        obtain ⟨rfl, rfl⟩ := Prod.mk.inj (Option.some.inj hr)
        rfl
    have hheld : s.held = 0 := by rw [held, hw]
    simp only [hen]
    refine h.writeNext event encoded _ _ rfl rfl ?_
    show s.delivered + rest.queue.length + 1 = s.delivered + s.chan.queue.length + s.held
    omega
  next => exact h

theorem Accounted.wrote (h : s.Accounted) {ok : Bool} (ha : ¬ s.Fails (.wrote ok)) :
    (s.act encode (.wrote ok)).Accounted := by
  unfold act
  unfold Fails at ha
  dsimp only
  split
  next event encoded chunk rest sentFull hw =>
    rw [hw] at ha
    cases ok with
    | false => exact absurd trivial ha
    | true =>
      rw [if_pos rfl]
      refine h.writeNext event encoded _ _ rfl rfl ?_
      rw [held, hw]
  next hw => exact h.congr rfl rfl (by rw [held, held, hw])
  next => exact h

theorem Accounted.act (fits : ∀ event, (encode event).isSome) (h : s.Accounted) {a : Action ε}
    (ha : ¬ s.Fails a) : (s.act encode a).Accounted := by
  cases a with
  | emit event => exact h.emit event
  | connected =>
    unfold Events.act
    dsimp only
    split
    next hw => exact h.congr rfl rfl (by rw [held, held, hw])
    next => exact h
  | received => exact h.received fits
  | wrote ok => exact h.wrote ha

/-- The event of a packet that fails is nowhere. -/
theorem Accounted.fails (h : s.Accounted) {a : Action ε} (ha : s.Fails a) :
    ¬ (s.act encode a).Accounted := by
  unfold Fails at ha
  split at ha
  next event encoded chunk rest sentFull hw =>
    intro h'
    unfold Events.act at h'
    simp only [hw, Bool.false_eq_true, ↓reduceIte] at h'
    unfold Accounted Nat.ModEq at h h'
    rw [held_flush] at h'
    rw [held, hw] at h
    dsimp only at h h'
    omega
  next => exact ha.elim

/-! ## Runs -/

theorem accounted_boot : (boot : Events ε).Accounted := rfl

/-- At every moment of a run every event is accounted for, iff no packet of a
frame fails. -/
theorem accounted_iff (fits : ∀ event, (encode event).isSome) (as : List (Action ε)) :
    (∀ n, (run encode (as.take n)).Accounted) ↔
      Run.Along (act encode) (fun s a => ¬ s.Fails a) boot as := by
  constructor
  · intro h
    by_contra hno
    obtain ⟨n, a, hn, -, hfails⟩ := Run.exists_first hno
    have hnext := h (n + 1)
    rw [run, List.take_add_one, hn, Option.toList_some, List.foldl_concat] at hnext
    exact (h n).fails (not_not.mp hfails) hnext
  · intro h n
    exact Run.Along.invariant (h.take n) accounted_boot fun s a hs ha => hs.act fits ha

/-- The frame of an `UnknownCmd` event, from its `cmd`: the two bytes 05h and
`cmd` in COBS. -/
def unknownCmdFrame (cmd : Byte) : List Byte :=
  if cmd = 0 then [0x02, 0x05, 0x01, 0x00] else [0x03, 0x05, cmd, 0x00]

theorem accounted_iff_delivered :
    (run (some ∘ unknownCmdFrame) ([.emit 0x7F, .connected, .received, .emit 0, .wrote true].take
      5)).Accounted :=
  (accounted_iff (fun _ => rfl) [.emit 0x7F, .connected, .received, .emit 0, .wrote true]).mpr
    ⟨id, id, id, id, id, trivial⟩ 5

/-- The host goes away while the only packet of a frame is written. -/
theorem broken_lost :
    ¬ (run (some ∘ unknownCmdFrame) [.emit 0x7F, .connected, .received,
      .wrote false]).Accounted := by
  decide

end Events

end VintageKvm.Firmware.Usb
