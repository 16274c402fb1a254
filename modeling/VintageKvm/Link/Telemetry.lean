import VintageKvm.Firmware.Usb.Writers
import VintageKvm.Lib.Cobs
import VintageKvm.Tools.EventMirror
import VintageKvm.Tools.EventsConsumer

/-!
# The telemetry stream, from `emit` to the consumer

The firmware's tasks emit events, its writer task frames them and writes the
packets, any of which can fail, and the consumer reads the bytes in whatever
pieces they come. `frames_read`: the consumer cuts the stream into the frames
written whole, each after what was written of the broken ones before it. So if
a frame fits a packet, it reads the events of the frames written, in order,
each once and with the same fields, whatever fails (`telemetry_delivers`).
-/

namespace VintageKvm.Link

open Firmware Firmware.Usb Tools

/-- The writer's buffer for a frame. -/
abbrev FRAME_BUF : Nat := 256

/-- `postcard::to_slice_cobs` -/
def toSliceCobs (c : Framing) (event : Event) : Option (List Byte) :=
  let frame := c.frame event.serialize
  if frame.length ≤ FRAME_BUF then some frame else none

/-- `postcard::from_bytes_cobs` -/
def fromBytesCobs (c : Framing) (frame : List Byte) : Option EventsConsumer.Event :=
  (c.unframe frame).bind fun bs => (EventsConsumer.Event.deserialize.run bs).map Prod.fst

/-- A frame the writer has done with: what was written of it, and whether that
was all. -/
structure Ended where
  event : Event
  bytes : List Byte
  whole : Bool

/-- A broken frame was broken before its end, and one of a single packet before
its start. -/
structure Ended.Sound (c : Framing) (e : Ended) : Prop where
  whole : e.whole = true → e.bytes = c.frame e.event.serialize
  broken : e.whole = false → (0 : Byte) ∉ e.bytes ∧
    (e.bytes ≠ [] → PACKET_LEN < (c.frame e.event.serialize).length)

/-- The events task, and what has come of a run: the bytes written, the events
that the channel took, and the frames done with. No task reads these. -/
structure Telemetry where
  events : Events Event
  heard : List Byte
  accepted : List Event
  ended : List Ended

namespace Telemetry

/-- The event whose frame is being written. -/
def inHand : Writer Event → List Event
  | .writing event .. => [event]
  | _ => []

/-- What was written of its frame. -/
def sent : Writer Event → List Byte
  | .writing _ encoded chunk rest _ =>
    encoded.take (encoded.length - (chunk :: rest).flatten.length)
  | _ => []

/-- The bytes a step writes. -/
def written (s : Events Event) : Events.Action Event → List Byte
  | .wrote true => s.packet.getD []
  | _ => []

/-- The event a step puts into the channel. -/
def taken (s : Events Event) : Events.Action Event → List Event
  | .emit event => if s.chan.queue.length < USB_EVENT_CHAN_DEPTH then [event] else []
  | _ => []

/-- The frame a step ends. -/
def ends (c : Framing) (s : Events Event) : Events.Action Event → List Ended
  | .wrote ok =>
    match s.writer with
    | .writing event encoded chunk rest full =>
      if ok then if rest = [] then [⟨event, encoded, true⟩] else []
      else [⟨event, sent (.writing event encoded chunk rest full), false⟩]
    | _ => []
  | .received =>
    match s.writer, s.chan.receive with
    | .receiving, some (event, _) =>
      if (toSliceCobs c event).isNone then [⟨event, [], false⟩] else []
    | _, _ => []
  | _ => []

def act (c : Framing) (t : Telemetry) (a : Events.Action Event) : Telemetry where
  events := t.events.act (toSliceCobs c) a
  heard := t.heard ++ written t.events a
  accepted := t.accepted ++ taken t.events a
  ended := t.ended ++ ends c t.events a

def boot : Telemetry := ⟨.boot, [], [], []⟩

def run (c : Framing) (as : List (Events.Action Event)) : Telemetry := as.foldl (act c) boot

variable {c : Framing} {t : Telemetry} {event : Event} {encoded chunk bytes left : List Byte}
  {rest : List (List Byte)}

/-! ## A frame being written -/

/-- The chunks to come are those of what is left of the frame, and only full
packets were written. -/
structure Writing (c : Framing) (event : Event) (encoded : List Byte) (cs : List (List Byte))
    (bytes left : List Byte) : Prop where
  frame : encoded = c.frame event.serialize
  split : encoded = bytes ++ left
  unwritten : left ≠ []
  pieces : cs = chunks PACKET_LEN left
  full : bytes = [] ∨ PACKET_LEN ≤ bytes.length

namespace Writing

theorem first (h : toSliceCobs c event = some encoded) :
    Writing c event encoded (chunks PACKET_LEN encoded) [] encoded := by
  have he : encoded = c.frame event.serialize := by
    unfold toSliceCobs at h
    dsimp only at h
    split at h
    · exact (Option.some.inj h).symm
    · cases h
  obtain ⟨body, -, -, e⟩ := c.ended event.serialize
  refine ⟨he, rfl, fun h0 => ?_, rfl, .inl rfl⟩
  rw [he, e] at h0
  exact List.append_ne_nil_of_right_ne_nil _ (List.cons_ne_nil _ _) h0

variable (h : Writing c event encoded (chunk :: rest) bytes left)
include h

theorem sent_eq (full : Bool) : sent (.writing event encoded chunk rest full) = bytes := by
  rw [sent, h.pieces, chunks_flatten (by decide), h.split, List.length_append, Nat.add_sub_cancel,
    List.take_left]

/-- What is written does not end the frame. -/
theorem not_ended : (0 : Byte) ∉ bytes := by
  obtain ⟨body, -, h0, e⟩ := c.ended event.serialize
  have hall : bytes ++ left = body ++ [0] := h.split.symm.trans (h.frame.trans e)
  have hlen : bytes.length ≤ body.length := by
    have hl := congrArg List.length hall
    have hpos := List.length_pos_iff.mpr h.unwritten
    rw [List.length_append, List.length_append, List.length_singleton] at hl
    omega
  have hp : bytes <+: body :=
    List.prefix_of_prefix_length_le ⟨left, hall⟩ (List.prefix_append _ _) hlen
  exact fun hm => h0 (hp.subset hm)

/-- A frame of which something is written has more than one packet. -/
theorem long (hne : bytes ≠ []) : PACKET_LEN < (c.frame event.serialize).length := by
  have hfull := h.full.resolve_left hne
  have hpos := List.length_pos_iff.mpr h.unwritten
  rw [← h.frame, h.split, List.length_append]
  omega

theorem chunk_eq :
    chunk = left.take PACKET_LEN ∧ rest = chunks PACKET_LEN (left.drop PACKET_LEN) := by
  have hc := h.pieces
  rw [chunks_cons (by decide) h.unwritten] at hc
  exact List.cons.inj hc

/-- The last chunk ends the frame. -/
theorem last (hr : rest = []) : bytes ++ chunk = encoded := by
  obtain ⟨hc, hrest⟩ := h.chunk_eq
  have hdrop : left.drop PACKET_LEN = [] := by
    by_contra hne
    rw [chunks_cons (n := PACKET_LEN) (by decide) hne, hr] at hrest
    cases hrest
  rw [h.split, hc, ← List.append_nil (left.take PACKET_LEN), ← hdrop, List.take_append_drop]

/-- Before the last chunk, a full packet is written. -/
theorem next {chunk' : List Byte} {rest' : List (List Byte)} (hr : rest = chunk' :: rest') :
    Writing c event encoded (chunk' :: rest') (bytes ++ chunk) (left.drop PACKET_LEN) := by
  obtain ⟨hc, hrest⟩ := h.chunk_eq
  have hne : left.drop PACKET_LEN ≠ [] := by
    intro h0
    rw [h0, show chunks PACKET_LEN ([] : List Byte) = [] from rfl, hr] at hrest
    cases hrest
  refine ⟨h.frame, ?_, hne, hr ▸ hrest, .inr ?_⟩
  · rw [List.append_assoc, hc, List.take_append_drop, ← h.split]
  · have hlen := List.length_pos_iff.mpr hne
    rw [List.length_drop] at hlen
    rw [List.length_append, hc, List.length_take]
    omega

end Writing

/-! ## One step -/

/-- What the writer knows of the frame it is at. -/
def WriterSound (c : Framing) : Writer Event → Prop
  | .writing event encoded chunk rest _ =>
    ∃ bytes left, Writing c event encoded (chunk :: rest) bytes left
  | _ => True

/-- The events accepted are those of the frames done with, the one in hand and
those queued, and the bytes are those of the frames. -/
structure Sound (c : Framing) (t : Telemetry) : Prop where
  order : t.accepted = t.ended.map Ended.event ++ (inHand t.events.writer ++ t.events.chan.queue)
  heard : t.heard = t.ended.flatMap Ended.bytes ++ sent t.events.writer
  ended : ∀ e ∈ t.ended, e.Sound c
  writer : WriterSound c t.events.writer

theorem flush_cases (encoded : List Byte) (full : Bool) :
    Events.flush encoded full = (.flushing : Writer Event) ∨
      Events.flush encoded full = (.receiving : Writer Event) := by
  unfold Events.flush
  split
  · exact .inl rfl
  · exact .inr rfl

/-- What a step adds to the history is what it takes from the events task. -/
structure Stepped (c : Framing) (s : Events Event) (a : Events.Action Event) (s' : Events Event) :
    Prop where
  order : inHand s.writer ++ s.chan.queue ++ taken s a = (ends c s a).map Ended.event ++
    (inHand s'.writer ++ s'.chan.queue)
  heard : sent s.writer ++ written s a = (ends c s a).flatMap Ended.bytes ++ sent s'.writer
  ended : ∀ e ∈ ends c s a, e.Sound c
  writer : WriterSound c s'.writer

theorem Sound.step {a : Events.Action Event} (h : Sound c t)
    (hs : Stepped c t.events a (t.events.act (toSliceCobs c) a)) : Sound c (act c t a) where
  order := by
    show t.accepted ++ _ = (t.ended ++ _).map _ ++ _
    rw [h.order, List.append_assoc, hs.order, List.map_append, List.append_assoc]
    rfl
  heard := by
    show t.heard ++ _ = (t.ended ++ _).flatMap _ ++ _
    rw [h.heard, List.append_assoc, hs.heard, List.flatMap_append, List.append_assoc]
    rfl
  ended e he := (List.mem_append.mp he).elim (h.ended e) (hs.ended e)
  writer := hs.writer

/-- A step that neither ends a frame nor writes. -/
theorem Stepped.quiet {s s' : Events Event} {a : Events.Action Event} (hends : ends c s a = [])
    (hwritten : written s a = []) (hsent : sent s'.writer = sent s.writer)
    (hw : WriterSound c s'.writer)
    (horder : inHand s.writer ++ s.chan.queue ++ taken s a = inHand s'.writer ++ s'.chan.queue) :
    Stepped c s a s' where
  order := by rw [hends]; exact horder
  heard := by rw [hends, hwritten, hsent, List.append_nil]; rfl
  ended e he := by rw [hends] at he; cases he
  writer := hw

variable {s : Events Event}

theorem emit_stepped (hw : WriterSound c s.writer) (event : Event) :
    Stepped c s (.emit event) (s.emit event) := by
  have hwriter : (s.emit event).writer = s.writer := by
    unfold Events.emit
    split <;> rfl
  have hqueue : (s.emit event).chan.queue = s.chan.queue ++ taken s (.emit event) := by
    unfold Events.emit taken
    by_cases hroom : s.chan.queue.length < USB_EVENT_CHAN_DEPTH
    · simp only [if_pos hroom, Channel.trySend, dif_pos hroom]
    · simp only [if_neg hroom, List.append_nil]
  refine .quiet rfl rfl (by rw [hwriter]) (hwriter ▸ hw) ?_
  rw [hwriter, hqueue, List.append_assoc]

theorem connected_stepped (hw : WriterSound c s.writer) :
    Stepped c s .connected (s.act (toSliceCobs c) .connected) := by
  obtain ⟨chan, drops, writer, emitted, delivered⟩ := s
  refine .quiet rfl rfl ?_ ?_ ?_
  · cases writer <;> rfl
  · cases writer with
    | connecting => trivial
    | receiving => trivial
    | writing event encoded chunk rest full => exact hw
    | flushing => trivial
  · rw [show taken _ _ = [] from rfl, List.append_nil]
    cases writer <;> rfl

/-- The writer has an event from the channel, and the first chunk of its frame. -/
theorem received_stepped (hw : WriterSound c s.writer) :
    Stepped c s .received (s.act (toSliceCobs c) .received) := by
  obtain ⟨⟨queue, hq⟩, drops, writer, emitted, delivered⟩ := s
  cases writer with
  | connecting => exact .quiet rfl rfl rfl hw (List.append_nil _)
  | writing event encoded chunk rest full => exact .quiet rfl rfl rfl hw (List.append_nil _)
  | flushing => exact .quiet rfl rfl rfl hw (List.append_nil _)
  | receiving =>
    cases queue with
    | nil => exact .quiet rfl rfl rfl hw rfl
    | cons event queue =>
      let s₀ : Events Event := ⟨⟨event :: queue, hq⟩, drops, .receiving, emitted, delivered⟩
      let s₁ : Events Event :=
        ⟨⟨queue, Nat.le_of_succ_le hq⟩, drops, .receiving, emitted, delivered⟩
      show Stepped c s₀ .received (s₀.act (toSliceCobs c) .received)
      have hends : ends c s₀ .received =
          if (toSliceCobs c event).isNone then [⟨event, [], false⟩] else [] := rfl
      cases he : toSliceCobs c event with
      | none =>
        have hact : s₀.act (toSliceCobs c) .received = s₁ := by
          simp only [Events.act, s₀, Channel.receive, he]
          rfl
        rw [he] at hends
        rw [hact]
        refine ⟨?_, ?_, fun e hm => ?_, trivial⟩
        · rw [hends]
          exact List.append_nil _
        · rw [hends]
          rfl
        · rw [hends] at hm
          obtain rfl := List.mem_singleton.mp hm
          exact ⟨fun h => absurd h Bool.false_ne_true,
            fun _ => ⟨List.not_mem_nil, fun h => absurd rfl h⟩⟩
      | some encoded =>
        have hfirst := Writing.first he
        have hcons := chunks_cons (n := PACKET_LEN) (by decide) hfirst.unwritten
        have hact : s₀.act (toSliceCobs c) .received = { s₁ with
            writer := .writing event encoded (encoded.take PACKET_LEN)
              (chunks PACKET_LEN (encoded.drop PACKET_LEN)) false } := by
          simp only [Events.act, s₀, Channel.receive, he, hcons, Events.writeNext]
          rfl
        rw [hcons] at hfirst
        rw [he] at hends
        rw [hact]
        exact .quiet hends rfl (hfirst.sent_eq false) ⟨_, _, hfirst⟩ (List.append_nil _)

theorem flush_quiet (encoded : List Byte) (full : Bool) : inHand (Events.flush encoded full) = [] ∧
    sent (Events.flush encoded full) = [] ∧ WriterSound c (Events.flush encoded full) := by
  rcases flush_cases encoded full with h | h <;> rw [h] <;> exact ⟨rfl, rfl, trivial⟩

/-- A packet was written, or failed. -/
theorem wrote_stepped (hw : WriterSound c s.writer) (ok : Bool) :
    Stepped c s (.wrote ok) (s.act (toSliceCobs c) (.wrote ok)) := by
  obtain ⟨chan, drops, writer, emitted, delivered⟩ := s
  cases writer with
  | connecting => cases ok <;> exact .quiet rfl rfl rfl hw (List.append_nil _)
  | receiving => cases ok <;> exact .quiet rfl rfl rfl hw (List.append_nil _)
  | flushing => cases ok <;> exact .quiet rfl rfl rfl trivial (List.append_nil _)
  | writing event encoded chunk rest full =>
    obtain ⟨bytes, left, h⟩ := hw
    let s₀ : Events Event :=
      ⟨chan, drops, .writing event encoded chunk rest full, emitted, delivered⟩
    show Stepped c s₀ (.wrote ok) (s₀.act (toSliceCobs c) (.wrote ok))
    have hbytes : sent s₀.writer = bytes := h.sent_eq full
    cases ok with
    | false =>
      obtain ⟨hin, hsent, hsound⟩ := flush_quiet (c := c) encoded full
      have hends : ends c s₀ (.wrote false) = [⟨event, bytes, false⟩] := hbytes ▸ rfl
      have hact : (s₀.act (toSliceCobs c) (.wrote false)).writer = Events.flush encoded full := rfl
      refine ⟨?_, ?_, fun e hm => ?_, hact ▸ hsound⟩
      · rw [hends, hact, hin]
        exact List.append_nil _
      · rw [hends, hact, hsent, hbytes, List.flatMap_singleton]
        rfl
      · rw [hends] at hm
        obtain rfl := List.mem_singleton.mp hm
        exact ⟨fun h' => absurd h' Bool.false_ne_true, fun _ => ⟨h.not_ended, h.long⟩⟩
    | true =>
      cases hr : rest with
      | nil =>
        subst hr
        obtain ⟨hin, hsent, hsound⟩ :=
          flush_quiet (c := c) encoded (full || chunk.length = PACKET_LEN)
        have hends : ends c s₀ (.wrote true) = [⟨event, encoded, true⟩] := rfl
        have hact : (s₀.act (toSliceCobs c) (.wrote true)).writer =
            Events.flush encoded (full || chunk.length = PACKET_LEN) := rfl
        refine ⟨?_, ?_, fun e hm => ?_, hact ▸ hsound⟩
        · rw [hends, hact, hin]
          exact List.append_nil _
        · rw [hends, hact, hsent, hbytes, List.flatMap_singleton, List.append_nil]
          exact h.last rfl
        · rw [hends] at hm
          obtain rfl := List.mem_singleton.mp hm
          exact ⟨fun _ => h.frame, fun h' => absurd h'.symm Bool.false_ne_true⟩
      | cons chunk' rest' =>
        subst hr
        have hnext := h.next rfl
        refine ⟨List.append_nil _, ?_, fun _ hm => absurd hm List.not_mem_nil, ⟨_, _, hnext⟩⟩
        rw [hbytes]
        exact (hnext.sent_eq (full || chunk.length = PACKET_LEN)).symm

theorem Sound.act (h : Sound c t) (a : Events.Action Event) : Sound c (act c t a) := by
  cases a with
  | emit event => exact h.step (emit_stepped h.writer event)
  | connected => exact h.step (connected_stepped h.writer)
  | received => exact h.step (received_stepped h.writer)
  | wrote ok => exact h.step (wrote_stepped h.writer ok)

theorem sound_run (c : Framing) (as : List (Events.Action Event)) : Sound c (run c as) := by
  have h₀ : Sound c boot := ⟨rfl, rfl, fun _ he => absurd he List.not_mem_nil, trivial⟩
  exact List.foldlRecOn as (act c) h₀ fun t h a _ => h.act a

/-! ## Reading -/

/-- The frames of the stream: those written whole, each after what was written
of the broken ones before it. -/
def glued (bytes : List Byte) : List Ended → List (List Byte)
  | [] => []
  | e :: es => if e.whole then (bytes ++ e.bytes) :: glued [] es else glued (bytes ++ e.bytes) es

theorem isZero_eq_false {bs : List Byte} (h : (0 : Byte) ∉ bs) :
    ∀ b ∈ bs, EventsConsumer.isZero b = false := fun _ hb =>
  decide_eq_false fun h0 => h (h0 ▸ hb)

theorem framesOf_glued {es : List Ended} (hes : ∀ e ∈ es, e.Sound c) {more : List Byte}
    (hmore : (0 : Byte) ∉ more) : ∀ bytes : List Byte, (0 : Byte) ∉ bytes →
      EventsConsumer.framesOf (bytes ++ (es.flatMap Ended.bytes ++ more)) = glued bytes es := by
  induction es with
  | nil =>
    intro bytes hb
    have hnone : (0 : Byte) ∉ bytes ++ more := fun h => (List.mem_append.mp h).elim hb hmore
    rw [List.flatMap_nil, List.nil_append, EventsConsumer.framesOf,
      runs_of_forall (isZero_eq_false hnone)]
    rfl
  | cons e es ih =>
    intro bytes hb
    have he := hes e List.mem_cons_self
    have ih := ih fun e' h' => hes e' (List.mem_cons_of_mem _ h')
    rw [glued, List.flatMap_cons]
    cases hw : e.whole with
    | true =>
      obtain ⟨body, hne, h0, hframe⟩ := c.ended e.event.serialize
      have hbody : (0 : Byte) ∉ bytes ++ body := fun h => (List.mem_append.mp h).elim hb h0
      have hsplit : bytes ++ (e.bytes ++ es.flatMap Ended.bytes ++ more) =
          bytes ++ body ++ 0 :: ([] ++ (es.flatMap Ended.bytes ++ more)) := by
        rw [he.whole hw, hframe]
        simp only [List.append_assoc, List.cons_append, List.nil_append]
      rw [hsplit, EventsConsumer.framesOf_run (isZero_eq_false hbody), ih [] List.not_mem_nil,
        if_neg (List.append_ne_nil_of_right_ne_nil _ hne), if_pos rfl, he.whole hw, hframe,
        List.append_assoc]
      rfl
    | false =>
      have hbroken : (0 : Byte) ∉ bytes ++ e.bytes :=
        fun h => (List.mem_append.mp h).elim hb (he.broken hw).1
      rw [if_neg Bool.false_ne_true, ← ih _ hbroken]
      simp only [List.append_assoc]

theorem Sound.framesOf_heard (h : Sound c t) :
    EventsConsumer.framesOf t.heard = glued [] t.ended := by
  have hsent : (0 : Byte) ∉ sent t.events.writer := by
    have hw := h.writer
    cases hwriter : t.events.writer with
    | writing event encoded chunk rest full =>
      rw [hwriter] at hw
      obtain ⟨bytes, left, hwriting⟩ := hw
      rw [hwriting.sent_eq]
      exact hwriting.not_ended
    | connecting => exact List.not_mem_nil
    | receiving => exact List.not_mem_nil
    | flushing => exact List.not_mem_nil
  rw [h.heard]
  exact framesOf_glued h.ended hsent [] List.not_mem_nil

/-- However the bytes written are read, the consumer cuts the frames of the
stream. -/
theorem frames_read (c : Framing) (as : List (Events.Action Event)) (reads : List (List Byte))
    (hr : reads.flatten <+: (run c as).heard) :
    (EventsConsumer.received [] reads).1 <+: glued [] (run c as).ended ∧
    (reads.flatten = (run c as).heard →
      (EventsConsumer.received [] reads).1 = glued [] (run c as).ended) := by
  have hframes := (sound_run c as).framesOf_heard
  rw [(EventsConsumer.received_eq reads).1, ← hframes]
  refine ⟨?_, fun he => by rw [he]⟩
  obtain ⟨more, he⟩ := hr
  rw [← he, EventsConsumer.framesOf_append]
  exact List.prefix_append _ _

/-! ## Frames of one packet -/

/-- A version that is not too long for a packet. -/
def Short : Event → Prop
  | .boot fwVersion _ => fwVersion.str.utf8ByteSize ≤ 59
  | _ => True

theorem length_serialize (h : Short event) : event.serialize.length ≤ 62 := by
  have h16 (w : Word) : (Postcard.putU16 w).length ≤ 3 := Postcard.length_putVarint 16 _
  have h32 (w : DWord) : (Postcard.putU32 w).length ≤ 5 := Postcard.length_putVarint 32 _
  cases event with
  | boot fwVersion phase =>
    have hs : fwVersion.str.utf8ByteSize ≤ 59 := h
    have hlen := Postcard.length_strBytes fwVersion.str
    rw [Event.serialize, Postcard.length_putVariant (by decide), Postcard.putStr,
      Postcard.putVarint_small (by decide) (by omega)]
    simp only [List.length_append, List.length_singleton]
    omega
  | downloadBegin totalBlocks expectedCrc32 sizeBytes =>
    have h₁ := h16 totalBlocks
    have h₂ := h32 expectedCrc32
    have h₃ := h32 sizeBytes
    rw [Event.serialize, Postcard.length_putVariant (by decide), List.length_append,
      List.length_append]
    omega
  | blockAck blockNo runningCrc32 =>
    have h₁ := h16 blockNo
    have h₂ := h32 runningCrc32
    rw [Event.serialize, Postcard.length_putVariant (by decide), List.length_append]
    omega
  | downloadComplete crcMatch finalCrc32 =>
    have h₁ := h32 finalCrc32
    rw [Event.serialize, Postcard.length_putVariant (by decide), List.length_append,
      Postcard.putBool, List.length_singleton]
    omega
  | seqGap expected got cmd =>
    rw [Event.serialize, Postcard.length_putVariant (by decide)]
    simp only [List.length_append, List.length_singleton]
    omega
  | unknownCmd cmd =>
    rw [Event.serialize, Postcard.length_putVariant (by decide), List.length_singleton]
    omega
  | packetStreamResync reason => cases reason <;> decide
  | encodeError => decide

theorem length_frame (c : Framing) (h : Short event) :
    (c.frame event.serialize).length ≤ PACKET_LEN := by
  have hle := length_serialize h
  have hf := c.length_frame event.serialize
  show _ ≤ 64
  omega

/-- Nothing is written of a frame of one packet that fails. -/
theorem glued_short {es : List Ended} (hes : ∀ e ∈ es, e.Sound c)
    (hshort : ∀ e ∈ es, Short e.event) :
    glued [] es = (es.filter Ended.whole).map fun e => c.frame e.event.serialize := by
  induction es with
  | nil => rfl
  | cons e es ih =>
    have he := hes e List.mem_cons_self
    have hlen := length_frame c (hshort e List.mem_cons_self)
    have ih := ih (fun e' h' => hes e' (List.mem_cons_of_mem _ h')) fun e' h' => hshort e'
      (List.mem_cons_of_mem _ h')
    rw [glued]
    cases hw : e.whole with
    | true =>
      rw [if_pos rfl, List.filter_cons_of_pos hw, List.map_cons, ih, List.nil_append, he.whole hw]
    | false =>
      have hnil : e.bytes = [] := by
        by_contra hne
        exact absurd ((he.broken hw).2 hne) (Nat.not_lt.mpr hlen)
      rw [if_neg Bool.false_ne_true, List.filter_cons_of_neg (hw ▸ Bool.false_ne_true), hnil,
        List.nil_append, ih]

/-! ## The events -/

/-- The events that a run emits. -/
def emitted (as : List (Events.Action Event)) : List Event := as.filterMap fun
  | .emit event => some event
  | _ => none

/-- The channel takes events in the order they are emitted in, each once. -/
theorem accepted_sublist (c : Framing) (as : List (Events.Action Event)) :
    (run c as).accepted.Sublist (emitted as) := by
  suffices h : ∀ t, (as.foldl (Telemetry.act c) t).accepted.Sublist
    (t.accepted ++ emitted as) from h boot
  induction as with
  | nil => exact fun t => List.sublist_append_left _ _
  | cons a as ih =>
    intro t
    have htaken : (taken t.events a ++ emitted as).Sublist (emitted (a :: as)) := by
      cases a with
      | emit event =>
        rw [taken]
        split
        · exact List.Sublist.refl _
        · exact List.sublist_cons_self _ _
      | connected => exact List.Sublist.refl _
      | received => exact List.Sublist.refl _
      | wrote ok => exact List.Sublist.refl _
    have h : (as.foldl (Telemetry.act c) (Telemetry.act c t a)).accepted.Sublist
        (t.accepted ++ taken t.events a ++ emitted as) := ih (Telemetry.act c t a)
    rw [List.append_assoc] at h
    exact h.trans (htaken.append_left _)

theorem fromBytesCobs_frame (c : Framing) (event : Event) :
    fromBytesCobs c (c.frame event.serialize) = some (mirrorEvent event) := by
  rw [fromBytesCobs, c.unframe_frame, Option.bind_some, deserialize_event]
  rfl

/-- Whatever steps the tasks take and whatever packets fail, and however the
host reads: it is given the events whose frames were written, with their
fields, and these are events emitted, in order and each once. -/
theorem telemetry_delivers (c : Framing) (as : List (Events.Action Event))
    (hshort : ∀ event ∈ emitted as, Short event)
    (reads : List (List Byte)) (hr : reads.flatten <+: (run c as).heard) :
    let t := run c as
    let got := (EventsConsumer.received [] reads).1.map (fromBytesCobs c)
    let delivered := (t.ended.filter Ended.whole).map Ended.event
    t.accepted = t.ended.map Ended.event ++ (inHand t.events.writer ++ t.events.chan.queue) ∧
    t.accepted.Sublist (emitted as) ∧ got <+: delivered.map (some ∘ mirrorEvent) ∧
    (reads.flatten = t.heard → got = delivered.map (some ∘ mirrorEvent)) := by
  intro t got delivered
  have h := sound_run c as
  have hsub := accepted_sublist c as
  obtain ⟨hpart, hall⟩ := frames_read c as reads hr
  have hended : ∀ e ∈ t.ended, Short e.event := fun e he =>
    hshort e.event (hsub.subset (h.order ▸ List.mem_append_left _ (List.mem_map_of_mem he)))
  have hglued : (glued [] t.ended).map (fromBytesCobs c) = delivered.map (some ∘ mirrorEvent) := by
    rw [glued_short h.ended hended, List.map_map, List.map_map]
    exact List.map_congr_left fun e _ => fromBytesCobs_frame c e.event
  refine ⟨h.order, hsub, hglued ▸ hpart.map _, fun he => ?_⟩
  rw [← hglued, ← hall he]

/-- Two events, the packet of the first of which fails. -/
def oneLost : List (Events.Action Event) :=
  [.connected, .emit (.unknownCmd 0x7F), .emit .encodeError, .received, .wrote false,
    .received, .wrote true]

theorem telemetry_delivers_oneLost :
    (EventsConsumer.received [] [[0x02], [0x07, 0x00]]).1.map (fromBytesCobs cobs) =
      [some .encodeError] := by
  have hr : [[0x02], [0x07, 0x00]].flatten = (run cobs oneLost).heard := by decide
  have hd : ((run cobs oneLost).ended.filter Ended.whole).map Ended.event =
      [.encodeError] := by decide
  have hshort : ∀ event ∈ emitted oneLost, Short event := by
    intro event he
    rcases List.mem_cons.mp he with rfl | he
    · trivial
    · obtain rfl := List.mem_singleton.mp he
      trivial
  obtain ⟨-, -, -, hall⟩ :=
    telemetry_delivers cobs oneLost hshort _ ⟨[], (List.append_nil _).trans hr⟩
  have h := hall hr
  rw [hd] at h
  exact h

end Telemetry

end VintageKvm.Link
