import VintageKvm.Ps2.Bootstrap
import VintageKvm.Ps2.MouseInput
import VintageKvm.Ps2.Samplers
import VintageKvm.Lib.Text

/-!
# The control interface

A command is a line of text; `dispatch` writes lines back, and the client
reads them until one ends the reply. `delimited_iff`: a command gets one line
that ends its reply, and as the last, iff its verb is neither empty nor `ping`
(or its line is too long, and what is left of it is blank).
-/

namespace VintageKvm.Firmware.Usb

open Text
open Ps2 (RawInject INJECT_RAW_DEPTH INJECT_RAW_MAX OversamplerCounters MouseBtn MouseCmd)

/-! ## The verbs -/

abbrev LINE_CAP : Nat := 128
abbrev OUT_CAP : Nat := 512
abbrev BULK_FRAME_MAX : Nat := 512

/-- What the verbs read and write. -/
structure Rpc where
  uptimeMs : BitVec 64
  kbd : OversamplerCounters
  kbdFifoOverrun : DWord
  kbdSelfTxFrames : DWord
  aux : OversamplerCounters
  auxFifoOverrun : DWord
  usbEventDrops : DWord
  injectRaw : Channel RawInject INJECT_RAW_DEPTH
  mouseCmd : Channel MouseCmd 8
  bulkOut : Channel (List Byte) 4
  bulkSeq : Word

/-- A line, cut to `LINE_CAP` bytes. -/
def sendLine (line : Text) : Text := cutTo LINE_CAP line ++ ['\n']

def sendText (line : String) : Text := sendLine line.toList

/-- A line written into a string of `cap` bytes. -/
def sendWritten (cap : Nat) (pieces : List Text) : Text := sendLine (write cap [] pieces).1

def handleInject (rpc : Rpc) (parts : List Text) : Rpc × Text :=
  go parts [] (Nat.zero_le _)
where
  go (parts : List Text) (bytes : List Byte) (h : bytes.length ≤ INJECT_RAW_MAX) : Rpc × Text :=
    match parts with
    | tok :: parts =>
      match parseHex tok with
      | some b =>
        if hb : (bytes ++ [b]).length ≤ INJECT_RAW_MAX then go parts (bytes ++ [b]) hb
        else (rpc, sendText "err inject too long")
      | none => (rpc, sendWritten 64 ["err bad hex byte: ".toList, tok])
    | [] =>
      if bytes.isEmpty then (rpc, sendText "err inject needs at least one hex byte")
      else if rpc.injectRaw.queue.length < INJECT_RAW_DEPTH then
        ({ rpc with injectRaw := rpc.injectRaw.trySend ⟨bytes, h⟩ },
          sendWritten 32 ["ok queued ".toList, decimal bytes.length])
      else (rpc, sendText "err inject queue full")

def handleMouseMove (rpc : Rpc) (parts : List Text) : Rpc × Text :=
  match parts.head?.bind parseI16 with
  | none => (rpc, sendText "err mouse_move: bad dx")
  | some dx =>
    match parts.tail.head?.bind parseI16 with
    | none => (rpc, sendText "err mouse_move: bad dy")
    | some dy =>
      if rpc.mouseCmd.queue.length < 8 then
        ({ rpc with
          mouseCmd := rpc.mouseCmd.trySend (.move (BitVec.ofInt 16 dx) (BitVec.ofInt 16 dy)) },
          sendText "ok")
      else (rpc, sendText "err mouse queue full")

def mouseBtn (part : Text) : Option MouseBtn :=
  if part = ['l'] ∨ part = ['L'] then some .left
  else if part = ['r'] ∨ part = ['R'] then some .right
  else if part = ['m'] ∨ part = ['M'] then some .middle
  else none

def buttonDown (part : Text) : Option Bool :=
  if part = "down".toList then some true else if part = "up".toList then some false else none

def handleMouseButton (rpc : Rpc) (parts : List Text) : Rpc × Text :=
  match parts.head?.bind mouseBtn with
  | none => (rpc, sendText "err mouse_button: expected l|r|m")
  | some btn =>
    match parts.tail.head?.bind buttonDown with
    | none => (rpc, sendText "err mouse_button: expected up|down")
    | some down =>
      if rpc.mouseCmd.queue.length < 8 then
        ({ rpc with mouseCmd := rpc.mouseCmd.trySend (.button btn down) }, sendText "ok")
      else (rpc, sendText "err mouse queue full")

/-- The little-endian bytes of a word and of a double word. -/
def le16 (w : Word) : List Byte := [w.setWidth 8, (w >>> 8).setWidth 8]

def le32 (w : DWord) : List Byte :=
  [w.setWidth 8, (w >>> 8).setWidth 8, (w >>> 16).setWidth 8, (w >>> 24).setWidth 8]

/-- A `BulkKind::Test` frame. -/
def buildFrame (seq : Word) (payload : List Byte) : Option (List Byte) :=
  if BULK_FRAME_MAX < 16 + payload.length then none
  else some
    (Text.bytes "VKVN".toList ++ le16 0x00FF ++ le32 (BitVec.ofNat 32 payload.length) ++ le16 seq ++
    [0, 0, 0, 0] ++ payload)

def handleBulkTest (rpc : Rpc) (line : Text) : Rpc × Text :=
  let rest := trimStart
    (if "bulk_test".toList.isPrefixOf line then line.drop "bulk_test".toList.length else [])
  let payload := if rest.isEmpty then Text.bytes "hello".toList else Text.bytes rest
  let seq := rpc.bulkSeq
  let rpc := { rpc with bulkSeq := rpc.bulkSeq + 1 }
  match buildFrame seq payload with
  | none => (rpc, sendText "err bulk_test payload too long")
  | some frame =>
    if rpc.bulkOut.queue.length < 4 then
      ({ rpc with bulkOut := rpc.bulkOut.trySend frame },
        sendWritten 48 ["ok bulk queued ".toList, decimal frame.length, ['B']])
    else (rpc, sendText "err bulk queue full")

/-- `writeln_into` -/
def writelnInto (out : Text) (pieces : List Text) : Text :=
  match write OUT_CAP out pieces with
  | (out, true) => (pushStr OUT_CAP out ['\n']).getD out
  | (out, false) => out

def statsLines (rpc : Rpc) : List (List Text) :=
  let n (w : DWord) : Text := decimal w.toNat
  [["uptime_ms=".toList, decimal rpc.uptimeMs.toNat],
   ["kbd words=".toList, n rpc.kbd.words, " clk_active=".toList, n rpc.kbd.clkActiveWords,
    " frames=".toList, n rpc.kbd.framesTotal, " errored=".toList, n rpc.kbd.framesErrored,
    " self_tx=".toList, n rpc.kbdSelfTxFrames,
    " fifo_ovr=".toList, n rpc.kbdFifoOverrun, " glitches=".toList, n rpc.kbd.glitchesTotal],
   ["aux words=".toList, n rpc.aux.words, " clk_active=".toList, n rpc.aux.clkActiveWords,
    " frames=".toList, n rpc.aux.framesTotal, " errored=".toList, n rpc.aux.framesErrored,
    " fifo_ovr=".toList, n rpc.auxFifoOverrun,
    " glitches=".toList, n rpc.aux.glitchesTotal],
   ["usb event_drops=".toList, n rpc.usbEventDrops]]

def sendStats (rpc : Rpc) : Text :=
  let out := (statsLines rpc).foldl writelnInto []
  (pushStr OUT_CAP out "ok\n".toList).getD out

/-- The verb of a line, empty for a blank one. -/
def verb (line : Text) : Text := ((splitAsciiWhitespace (trim line)).head?).getD []

/-- What a line does, and the text written back. -/
def dispatch (rpc : Rpc) (line : Text) : Rpc × Text :=
  let trimmed := trim line
  let parts := (splitAsciiWhitespace trimmed).tail
  if verb line = [] then (rpc, [])
  else if verb line = "ping".toList then
    (rpc, sendWritten 32 ["pong ".toList, decimal rpc.uptimeMs.toNat])
  else if verb line = "stats".toList then (rpc, sendStats rpc)
  else if verb line = "inject".toList then handleInject rpc parts
  else if verb line = "mouse_move".toList then handleMouseMove rpc parts
  else if verb line = "mouse_button".toList then handleMouseButton rpc parts
  else if verb line = "bulk_test".toList then handleBulkTest rpc trimmed
  else (rpc, sendWritten 64 ["err unknown verb: ".toList, verb line])

/-- The task between two bytes: the line so far, and the text written. -/
structure Session where
  rpc : Rpc
  line : Text
  sent : Text

/-- A byte read. -/
def Session.read (s : Session) (b : Byte) : Session :=
  if b = 0x0D ∨ b = 0x0A then
    if s.line.isEmpty then s
    else
      let (rpc, reply) := dispatch s.rpc s.line
      ⟨rpc, [], s.sent ++ reply⟩
  else
    match pushStr LINE_CAP s.line [Char.ofNat b.toNat] with
    | some line => { s with line := line }
    | none => { s with line := [], sent := s.sent ++ sendText "err line too long" }

/-- The text written back to a command and the CR after it. -/
def reply (rpc : Rpc) (cmd : List Byte) : Text :=
  ((cmd ++ [0x0D]).foldl Session.read ⟨rpc, [], []⟩).sent

/-- A command as the line buffer holds it. -/
def text (cmd : List Byte) : Text := cmd.map fun b => Char.ofNat b.toNat

/-- What follows the byte that does not fit in the room left. -/
def afterOverflow : Nat → List Byte → List Byte
  | _, [] => []
  | room, b :: cmd =>
    if (Char.ofNat b.toNat).utf8Size ≤ room then
      afterOverflow (room - (Char.ofNat b.toNat).utf8Size) cmd
    else cmd

/-- The command fits in the line buffer, where a byte above 7Fh takes two, and
its verb is neither empty nor `ping`; or it does not fit, and what follows the
byte that overflows is blank. -/
def Answerable (cmd : List Byte) : Prop :=
  if len (text cmd) ≤ LINE_CAP then verb (text cmd) ≠ [] ∧ verb (text cmd) ≠ "ping".toList
  else verb (text (afterOverflow LINE_CAP cmd)) = []

/-! ## The client -/

/-- The lines that `read_line` gives, without the newline at their end. -/
def lines : Text → List Text
  | [] => []
  | c :: cs =>
    if c = '\n' then [] :: lines cs
    else
      match lines cs with
      | [] => [[c]]
      | line :: rest => (c :: line) :: rest

/-- The client takes a line for the last of a reply. -/
def Terminator (line : Text) : Prop :=
  let trimmed := line.rdropWhile fun c => c = '\r' ∨ c = '\n'
  "err".toList <+: trimmed ∨ trimmed = "ok".toList ∨ "ok ".toList <+: trimmed

instance (line : Text) : Decidable (Terminator line) := inferInstanceAs (Decidable (_ ∨ _))

/-- The lines the client leaves unread, none where it waits for more. -/
def replyLoop : List Text → Option (List Text)
  | [] => none
  | line :: rest =>
    if "vintage-kvm control".toList <+: line then replyLoop rest
    else if Terminator line then some rest
    else replyLoop rest

/-- One line ends a reply, and it is the last. -/
def Delimited (reply : Text) : Prop :=
  ∃ body last, lines reply = body ++ [last] ∧ Terminator last ∧ ∀ line ∈ body, ¬ Terminator line

theorem Terminator.not_banner {line : Text} (h : Terminator line) :
    ¬ "vintage-kvm control".toList <+: line := by
  have htrim : (line.rdropWhile fun c => c = '\r' ∨ c = '\n') <+: line := List.rdropWhile_prefix _ _
  rintro ⟨t, rfl⟩
  obtain h | h | h := h
  · obtain ⟨u, hu⟩ := h.trans htrim
    cases hu
  · obtain ⟨u, hu⟩ := h ▸ htrim
    cases hu
  · obtain ⟨u, hu⟩ := h.trans htrim
    cases hu

/-- The client takes a delimited reply for what it is, to its last line. -/
theorem delimited_iff_replyLoop {reply : Text} :
    Delimited reply ↔ replyLoop (lines reply) = some [] := by
  unfold Delimited
  induction lines reply with
  | nil =>
    constructor
    · rintro ⟨body, last, hl, -⟩
      exact absurd hl.symm (List.concat_ne_nil _ _)
    · intro h
      cases h
  | cons line rest ih =>
    unfold replyLoop
    by_cases hterm : Terminator line
    · rw [if_neg hterm.not_banner, if_pos hterm, Option.some_inj]
      constructor
      · rintro ⟨body, last, hl, -, hbody⟩
        cases body with
        | nil => exact (List.cons.inj hl).2
        | cons l body =>
          exact absurd hterm (hbody line ((List.cons.inj hl).1 ▸ List.mem_cons_self ..))
      · rintro rfl
        exact ⟨[], line, rfl, hterm, fun _ hl => nomatch hl⟩
    · have hskip : (if "vintage-kvm control".toList <+: line then replyLoop rest
          else if Terminator line then some rest else replyLoop rest) = replyLoop rest := by
        rw [if_neg hterm, ite_self]
      rw [hskip, ← ih]
      constructor
      · rintro ⟨body, last, hl, hlast, hbody⟩
        cases body with
        | nil => exact absurd ((List.cons.inj hl).1 ▸ hlast) hterm
        | cons l body =>
          exact ⟨body, last, (List.cons.inj hl).2, hlast,
            fun l hl => hbody l (List.mem_cons_of_mem _ hl)⟩
      · rintro ⟨body, last, hl, hlast, hbody⟩
        refine ⟨line :: body, last, by rw [hl, List.cons_append], hlast, fun l hl => ?_⟩
        obtain rfl | hl := List.mem_cons.mp hl
        · exact hterm
        · exact hbody l hl

/-! ## Lines -/

theorem lines_cons {line : Text} (h : Clean line) (rest : Text) :
    lines (line ++ '\n' :: rest) = line :: lines rest := by
  induction line with
  | nil => exact if_pos rfl
  | cons c line ih =>
    have hc := h c (List.mem_cons_self ..)
    rw [List.cons_append, lines, if_neg hc.2, ih fun d hd => h d (List.mem_cons_of_mem _ hd)]

/-- A text that ends a reply. -/
def Ends (line : Text) : Prop := "err".toList <+: line ∨ line = "ok".toList ∨ "ok ".toList <+: line

instance (line : Text) : Decidable (Ends line) := inferInstanceAs (Decidable (_ ∨ _))

theorem terminator_iff {line : Text} (h : Clean line) : Terminator line ↔ Ends line := by
  unfold Terminator
  rw [h.trimEnd]
  rfl

/-- A reply of one line that ends it. -/
structure Final (reply line : Text) : Prop where
  text : reply = line ++ ['\n']
  clean : Clean line
  ends : Ends line

theorem Final.lines_eq {reply line : Text} (h : Final reply line) : lines reply = [line] := by
  rw [h.text, lines_cons h.clean]
  rfl

theorem Final.delimited {reply line : Text} (h : Final reply line) : Delimited reply :=
  ⟨[], line, h.lines_eq, (terminator_iff h.clean).mpr h.ends, fun _ hl => nomatch hl⟩

/-- A reply of one line that does not. -/
theorem not_delimited {line : Text} (h : Clean line) (hends : ¬ Ends line) :
    ¬ Delimited (line ++ ['\n']) := by
  rintro ⟨body, last, hl, hlast, -⟩
  rw [lines_cons h] at hl
  have hlast' : [line] = [last] :=
    (List.append_inj' (show [] ++ [line] = body ++ [last] from hl) rfl).2
  rw [← List.singleton_inj.mp hlast', terminator_iff h] at hlast
  exact hends hlast

theorem sendLine_eq {line : Text} (h : len line ≤ LINE_CAP) : sendLine line = line ++ ['\n'] := by
  rw [sendLine, cutTo_eq h]

theorem final_text {line : String} (hlen : len line.toList ≤ LINE_CAP) (hclean : Clean line.toList)
    (hends : Ends line.toList) : Final (sendText line) line.toList :=
  ⟨sendLine_eq hlen, hclean, hends⟩

/-- A line that is written in pieces, the first of which ends the reply. -/
theorem final_written {cap : Nat} {piece : Text} {pieces : List Text} (hcap : cap ≤ LINE_CAP)
    (hlen : len piece ≤ cap) (hends : "err".toList <+: piece ∨ "ok ".toList <+: piece)
    (hclean : ∀ p ∈ piece :: pieces, Clean p) :
    ∃ line, Final (sendWritten cap (piece :: pieces)) line := by
  have hfits : len [] + len piece ≤ cap := by rwa [show len [] = 0 from rfl, Nat.zero_add]
  obtain ⟨k, hk⟩ := write_eq cap piece pieces
  have hwrite : (write cap [] (piece :: pieces)).1 = piece ++ (pieces.take k).flatten := by
    rw [write_fits hfits, List.nil_append, hk]
  have hcut : len (write cap [] (piece :: pieces)).1 ≤ LINE_CAP :=
    (len_write (Nat.zero_le _) _).trans hcap
  refine ⟨_, sendLine_eq hcut, ?_, ?_⟩
  · rw [hwrite]
    exact (hclean _ (List.mem_cons_self ..)).append
      (Clean.flatten fun p hp => hclean p (List.mem_cons_of_mem _ (List.mem_of_mem_take hp)))
  · rw [hwrite]
    exact hends.elim (fun h => .inl (h.trans (List.prefix_append _ _)))
      fun h => .inr (.inr (h.trans (List.prefix_append _ _)))

/-! ## The verbs -/

variable (rpc : Rpc) {line : Text} {parts : List Text}

theorem handleInject_go (hparts : ∀ p ∈ parts, Clean p) (bytes : List Byte)
    (h : bytes.length ≤ INJECT_RAW_MAX) : ∃ l, Final (handleInject.go rpc parts bytes h).2 l := by
  induction parts generalizing bytes with
  | nil =>
    unfold handleInject.go
    split
    · exact ⟨_, final_text (by decide) (by decide) (by decide)⟩
    · split
      · refine final_written (by decide) (by decide) (.inr (by decide)) fun p hp => ?_
        obtain rfl | hp := List.mem_cons.mp hp
        · decide
        · rw [List.mem_singleton.mp hp]
          exact clean_decimal _
      · exact ⟨_, final_text (by decide) (by decide) (by decide)⟩
  | cons tok parts ih =>
    unfold handleInject.go
    split
    · split
      next b _ hb => exact ih (fun p hp => hparts p (List.mem_cons_of_mem _ hp)) _ hb
      next => exact ⟨_, final_text (by decide) (by decide) (by decide)⟩
    · refine final_written (by decide) (by decide) (.inl (by decide)) fun p hp => ?_
      obtain rfl | hp := List.mem_cons.mp hp
      · decide
      · rw [List.mem_singleton.mp hp]
        exact hparts tok (List.mem_cons_self ..)

theorem handleMouseMove_final (parts : List Text) : ∃ l, Final (handleMouseMove rpc parts).2 l := by
  unfold handleMouseMove
  split
  · exact ⟨_, final_text (by decide) (by decide) (by decide)⟩
  · split
    · exact ⟨_, final_text (by decide) (by decide) (by decide)⟩
    · split
      · exact ⟨_, final_text (by decide) (by decide) (by decide)⟩
      · exact ⟨_, final_text (by decide) (by decide) (by decide)⟩

theorem handleMouseButton_final (parts : List Text) :
    ∃ l, Final (handleMouseButton rpc parts).2 l := by
  unfold handleMouseButton
  split
  · exact ⟨_, final_text (by decide) (by decide) (by decide)⟩
  · split
    · exact ⟨_, final_text (by decide) (by decide) (by decide)⟩
    · split
      · exact ⟨_, final_text (by decide) (by decide) (by decide)⟩
      · exact ⟨_, final_text (by decide) (by decide) (by decide)⟩

theorem handleBulkTest_final (line : Text) : ∃ l, Final (handleBulkTest rpc line).2 l := by
  unfold handleBulkTest
  dsimp only
  split
  · exact ⟨_, final_text (by decide) (by decide) (by decide)⟩
  · split
    · refine final_written (by decide) (by decide) (.inr (by decide)) fun p hp => ?_
      obtain rfl | hp := List.mem_cons.mp hp
      · decide
      · obtain rfl | hp := List.mem_cons.mp hp
        · exact clean_decimal _
        · rw [List.mem_singleton.mp hp]
          decide
    · exact ⟨_, final_text (by decide) (by decide) (by decide)⟩

theorem verb_clean (h : Clean line) : Clean (verb line) := by
  unfold verb
  cases hp : (splitAsciiWhitespace (trim line)).head? with
  | none => exact fun _ hc => nomatch hc
  | some v => exact h.part (List.mem_of_mem_head? hp)

/-! ## The counters -/

theorem writelnInto_eq {out : Text} {pieces : List Text}
    (h : len out + len pieces.flatten + 1 ≤ OUT_CAP) :
    writelnInto out pieces = out ++ pieces.flatten ++ ['\n'] := by
  have hnl : len (out ++ pieces.flatten) + len ['\n'] ≤ OUT_CAP := by
    rw [len_append]
    exact h
  rw [writelnInto, write_all (by omega)]
  dsimp only
  rw [pushStr, if_pos hnl]
  rfl

/-- Every line fits, the last one too. -/
theorem writelns_eq {out : Text} {ls : List (List Text)}
    (h : len out + (ls.map fun l => len l.flatten + 1).sum ≤ OUT_CAP) :
    ls.foldl writelnInto out = out ++ (ls.map fun l => l.flatten ++ ['\n']).flatten := by
  induction ls generalizing out with
  | nil => exact (List.append_nil out).symm
  | cons l ls ih =>
    rw [List.map_cons, List.sum_cons] at h
    have hlen : len (out ++ l.flatten ++ ['\n']) = len out + (len l.flatten + 1) := by
      rw [len_append, len_append, show len ['\n'] = 1 from rfl, Nat.add_assoc]
    rw [List.foldl_cons, writelnInto_eq (by omega), ih (by omega), List.map_cons, List.flatten_cons]
    simp only [List.append_assoc]

/-- The lengths of the lines of `stats`, whatever the counters. -/
theorem statsLines_fit : ((statsLines rpc).map fun l => len l.flatten + 1).sum + 3 ≤ OUT_CAP := by
  have h32 (w : DWord) : len (decimal w.toNat) ≤ 10 :=
    len_decimal (by decide) (Nat.lt_of_lt_of_le w.isLt (by decide))
  have h64 : len (decimal rpc.uptimeMs.toNat) ≤ 20 :=
    len_decimal (by decide) (Nat.lt_of_lt_of_le rpc.uptimeMs.isLt (by decide))
  have e0 : len "uptime_ms=".toList = 10 := by decide
  have e1 : len "kbd words=".toList = 10 := by decide
  have e2 : len " clk_active=".toList = 12 := by decide
  have e3 : len " frames=".toList = 8 := by decide
  have e4 : len " errored=".toList = 9 := by decide
  have e5 : len " self_tx=".toList = 9 := by decide
  have e6 : len " fifo_ovr=".toList = 10 := by decide
  have e7 : len " glitches=".toList = 10 := by decide
  have e8 : len "aux words=".toList = 10 := by decide
  have e9 : len "usb event_drops=".toList = 16 := by decide
  simp only [statsLines, List.map_cons, List.map_nil, List.flatten_cons, List.flatten_nil,
    len_append, List.sum_cons, List.sum_nil, e0, e1, e2, e3, e4, e5, e6, e7, e8, e9,
    show len [] = 0 from rfl]
  have k0 := h32 rpc.kbd.words
  have k1 := h32 rpc.kbd.clkActiveWords
  have k2 := h32 rpc.kbd.framesTotal
  have k3 := h32 rpc.kbd.framesErrored
  have k4 := h32 rpc.kbdSelfTxFrames
  have k5 := h32 rpc.kbdFifoOverrun
  have k6 := h32 rpc.kbd.glitchesTotal
  have a0 := h32 rpc.aux.words
  have a1 := h32 rpc.aux.clkActiveWords
  have a2 := h32 rpc.aux.framesTotal
  have a3 := h32 rpc.aux.framesErrored
  have a4 := h32 rpc.auxFifoOverrun
  have a5 := h32 rpc.aux.glitchesTotal
  have u0 := h32 rpc.usbEventDrops
  show _ ≤ 512
  omega

/-- A text that begins with neither `e` nor `o` ends no reply. -/
theorem not_ends {c : Char} {l : Text} (hl : l.head? = some c) (he : c ≠ 'e') (ho : c ≠ 'o') :
    ¬ Ends l := by
  rintro (⟨t, rfl⟩ | rfl | ⟨t, rfl⟩)
  · exact he (Option.some.inj hl).symm
  · exact ho (Option.some.inj hl).symm
  · exact ho (Option.some.inj hl).symm

/-- No counter ends the reply. -/
theorem statsLines_body : ∀ l ∈ statsLines rpc, Clean l.flatten ∧ ¬ Ends l.flatten := by
  intro l hl
  simp only [statsLines, List.mem_cons, List.not_mem_nil, or_false] at hl
  obtain rfl | rfl | rfl | rfl := hl
  · refine ⟨Clean.flatten ?_, not_ends (c := 'u') rfl (by decide) (by decide)⟩
    simp only [List.forall_mem_cons, clean_decimal]
    decide
  · refine ⟨Clean.flatten ?_, not_ends (c := 'k') rfl (by decide) (by decide)⟩
    simp only [List.forall_mem_cons, clean_decimal]
    decide
  · refine ⟨Clean.flatten ?_, not_ends (c := 'a') rfl (by decide) (by decide)⟩
    simp only [List.forall_mem_cons, clean_decimal]
    decide
  · refine ⟨Clean.flatten ?_, not_ends (c := 'u') rfl (by decide) (by decide)⟩
    simp only [List.forall_mem_cons, clean_decimal]
    decide

/-- The lines of texts with their newlines. -/
theorem lines_flatten {ls : List Text} (h : ∀ l ∈ ls, Clean l) (rest : Text) :
    lines ((ls.map fun l => l ++ ['\n']).flatten ++ rest) = ls ++ lines rest := by
  induction ls with
  | nil => rfl
  | cons l ls ih =>
    rw [List.map_cons, List.flatten_cons, List.append_assoc, List.append_assoc,
      List.singleton_append, lines_cons (h l (List.mem_cons_self ..)),
      ih fun l hl => h l (List.mem_cons_of_mem _ hl), List.cons_append]

theorem len_statsLines (ls : List (List Text)) :
    len ((ls.map fun l => l.flatten ++ ['\n']).flatten) =
      (ls.map fun l => len l.flatten + 1).sum := by
  induction ls with
  | nil => rfl
  | cons l ls ih =>
    rw [List.map_cons, List.flatten_cons, len_append, len_append, ih, List.map_cons, List.sum_cons]
    rfl

/-- No line is cut. -/
theorem sendStats_whole :
    sendStats rpc = ((statsLines rpc).map fun l => l.flatten ++ ['\n']).flatten ++
      "ok\n".toList := by
  have hfit := statsLines_fit rpc
  rw [sendStats, writelns_eq (by rw [show len [] = 0 from rfl]; omega), List.nil_append]
  rw [pushStr, if_pos (by rw [len_statsLines]; exact hfit)]
  rfl

theorem sendStats_eq : sendStats rpc =
    (((statsLines rpc).map List.flatten).map fun l => l ++ ['\n']).flatten ++
      ("ok".toList ++ ['\n']) := by
  rw [sendStats_whole, List.map_map]
  rfl

theorem statsLines_clean : ∀ l ∈ (statsLines rpc).map List.flatten, Clean l ∧
    ¬ Ends l := fun l hl => by
  obtain ⟨ps, hps, rfl⟩ := List.mem_map.mp hl
  exact statsLines_body rpc ps hps

theorem lines_sendStats :
    lines (sendStats rpc) = (statsLines rpc).map List.flatten ++ ["ok".toList] := by
  have hok : Clean "ok".toList := by decide
  rw [sendStats_eq, lines_flatten fun l hl => (statsLines_clean rpc l hl).1, lines_cons hok]
  rfl

theorem sendStats_delimited : Delimited (sendStats rpc) := by
  have hok : Clean "ok".toList := by decide
  refine ⟨_, _, lines_sendStats rpc, (terminator_iff hok).mpr (by decide), fun l hl => ?_⟩
  obtain ⟨hclean, hends⟩ := statsLines_clean rpc l hl
  rwa [terminator_iff hclean]

theorem dispatch_blank (hv : verb line = []) : (dispatch rpc line).2 = [] := by
  rw [dispatch, if_pos hv]

theorem dispatch_ping (hv : verb line = "ping".toList) :
    ∃ l, (dispatch rpc line).2 = l ++ ['\n'] ∧ Clean l ∧ ¬ Ends l := by
  have hne : verb line ≠ [] := by
    rw [hv]
    decide
  have h20 : len (decimal rpc.uptimeMs.toNat) ≤ 20 :=
    len_decimal (by decide) (Nat.lt_of_lt_of_le rpc.uptimeMs.isLt (by decide))
  have hlen : len ["pong ".toList, decimal rpc.uptimeMs.toNat].flatten ≤ 25 := by
    rw [List.flatten_cons, List.flatten_cons, List.flatten_nil, List.append_nil, len_append,
      show len "pong ".toList = 5 by decide]
    omega
  have hfits : len [] + len ["pong ".toList, decimal rpc.uptimeMs.toNat].flatten ≤ 32 := by
    rw [show len [] = 0 from rfl]
    omega
  have hwrite := write_all hfits
  rw [dispatch, if_neg hne, if_pos hv]
  refine ⟨["pong ".toList, decimal rpc.uptimeMs.toNat].flatten, ?_, Clean.flatten ?_,
    not_ends (c := 'p') rfl (by decide) (by decide)⟩
  · dsimp only
    rw [sendWritten, hwrite]
    exact sendLine_eq (hlen.trans (by decide))
  · simp only [List.forall_mem_cons, clean_decimal]
    decide

theorem unknownVerb_final (h : Clean line) :
    ∃ l, Final (sendWritten 64 ["err unknown verb: ".toList, verb line]) l := by
  refine final_written (by decide) (by decide) (.inl (by decide)) fun p hp => ?_
  obtain rfl | hp := List.mem_cons.mp hp
  · decide
  · rw [List.mem_singleton.mp hp]
    exact verb_clean h

theorem dispatch_delimited (h : Clean line) (hv : verb line ≠ []) (hp : verb line ≠ "ping".toList) :
    Delimited (dispatch rpc line).2 := by
  rw [dispatch, if_neg hv, if_neg hp]
  by_cases hstats : verb line = "stats".toList
  · rw [if_pos hstats]
    dsimp only
    exact sendStats_delimited rpc
  rw [if_neg hstats]
  by_cases hinject : verb line = "inject".toList
  · rw [if_pos hinject]
    obtain ⟨l, hl⟩ :=
      handleInject_go rpc (fun p hp => h.part (List.mem_of_mem_tail hp)) [] (Nat.zero_le _)
    exact hl.delimited
  rw [if_neg hinject]
  by_cases hmove : verb line = "mouse_move".toList
  · rw [if_pos hmove]
    obtain ⟨l, hl⟩ := handleMouseMove_final rpc (splitAsciiWhitespace (trim line)).tail
    exact hl.delimited
  rw [if_neg hmove]
  by_cases hbutton : verb line = "mouse_button".toList
  · rw [if_pos hbutton]
    obtain ⟨l, hl⟩ := handleMouseButton_final rpc (splitAsciiWhitespace (trim line)).tail
    exact hl.delimited
  rw [if_neg hbutton]
  by_cases hbulk : verb line = "bulk_test".toList
  · rw [if_pos hbulk]
    obtain ⟨l, hl⟩ := handleBulkTest_final rpc (trim line)
    exact hl.delimited
  rw [if_neg hbulk]
  obtain ⟨l, hl⟩ := unknownVerb_final h
  exact hl.delimited

theorem dispatch_lines_ne (h : Clean line) (hv : verb line ≠ []) :
    lines (dispatch rpc line).2 ≠ [] := by
  by_cases hp : verb line = "ping".toList
  · obtain ⟨l, hl, hclean, -⟩ := dispatch_ping rpc hp
    rw [hl, lines_cons hclean]
    exact List.cons_ne_nil _ _
  · obtain ⟨body, last, hl, -⟩ := dispatch_delimited rpc h hv hp
    rw [hl]
    exact List.concat_ne_nil _ _

/-! ## Commands -/

theorem char_toNat (b : Byte) : (Char.ofNat b.toNat).toNat = b.toNat := by
  rw [Char.ofNat, dif_pos (.inl (Nat.lt_trans b.isLt (by decide)))]
  rfl

theorem char_ne {b c : Byte} (h : b ≠ c) : Char.ofNat b.toNat ≠ Char.ofNat c.toNat := fun he =>
  h (BitVec.eq_of_toNat_eq (by rw [← char_toNat b, he, char_toNat]))

theorem char_size (b : Byte) : (Char.ofNat b.toNat).utf8Size ≤ 2 := by
  have hle : (Char.ofNat b.toNat).val ≤ 0x7FF := UInt32.le_iff_toNat_le.mpr (by
    show (Char.ofNat b.toNat).toNat ≤ 0x7FF
    rw [char_toNat]
    exact Nat.le_trans (Nat.le_of_lt b.isLt) (by decide))
  rw [Char.utf8Size]
  split
  · decide
  · exact (if_pos hle).le

theorem text_clean {cmd : List Byte} (h : ∀ b ∈ cmd, b ≠ 0x0D ∧ b ≠ 0x0A) :
    Clean (text cmd) := fun c hc => by
  obtain ⟨b, hb, rfl⟩ := List.mem_map.mp hc
  exact ⟨char_ne (h b hb).1, char_ne (h b hb).2⟩

theorem len_text_cons (b : Byte) (cmd : List Byte) :
    len (text (b :: cmd)) = (Char.ofNat b.toNat).utf8Size + len (text cmd) :=
  len_cons _ _

theorem len_text_le (cmd : List Byte) : len (text cmd) ≤ 2 * cmd.length := by
  induction cmd with
  | nil => exact Nat.le_refl _
  | cons b cmd ih =>
    have hsize := char_size b
    rw [len_text_cons, List.length_cons]
    omega

theorem afterOverflow_suffix (room : Nat) (cmd : List Byte) : afterOverflow room cmd <:+ cmd := by
  induction cmd generalizing room with
  | nil => exact List.suffix_rfl
  | cons b cmd ih =>
    unfold afterOverflow
    split
    · exact (ih _).trans (List.suffix_cons _ _)
    · exact List.suffix_cons _ _

/-- Half of the room at least is taken before it overflows. -/
theorem length_afterOverflow {room : Nat} {cmd : List Byte} (h : room < len (text cmd)) :
    room + 2 * (afterOverflow room cmd).length < 2 * cmd.length := by
  induction cmd generalizing room with
  | nil => cases h
  | cons b cmd ih =>
    have hsize := char_size b
    rw [len_text_cons] at h
    unfold afterOverflow
    split
    · have := ih (show room - (Char.ofNat b.toNat).utf8Size < _ by omega)
      rw [List.length_cons]
      omega
    · rw [List.length_cons]
      omega

theorem read_byte {s : Session} {b : Byte} (hcr : b ≠ 0x0D) (hlf : b ≠ 0x0A) : s.read b =
    if len s.line + (Char.ofNat b.toNat).utf8Size ≤ LINE_CAP then
      { s with line := s.line ++ [Char.ofNat b.toNat] }
    else { s with line := [], sent := s.sent ++ sendText "err line too long" } := by
  have hone : len [Char.ofNat b.toNat] = (Char.ofNat b.toNat).utf8Size := len_cons _ _
  rw [Session.read, if_neg (not_or.mpr ⟨hcr, hlf⟩), pushStr, hone]
  by_cases hfit : len s.line + (Char.ofNat b.toNat).utf8Size ≤ LINE_CAP
  · rw [if_pos hfit, if_pos hfit]
  · rw [if_neg hfit, if_neg hfit]

theorem read_fits {s : Session} {cmd : List Byte} (h : ∀ b ∈ cmd, b ≠ 0x0D ∧ b ≠ 0x0A)
    (hfit : len s.line + len (text cmd) ≤ LINE_CAP) :
    cmd.foldl Session.read s = { s with line := s.line ++ text cmd } := by
  induction cmd generalizing s with
  | nil => rw [List.foldl_nil, text, List.map_nil, List.append_nil]
  | cons b cmd ih =>
    obtain ⟨hcr, hlf⟩ := h b (List.mem_cons_self ..)
    rw [len_text_cons] at hfit
    have hline :
        len (s.line ++ [Char.ofNat b.toNat]) = len s.line + (Char.ofNat b.toNat).utf8Size := by
      rw [len_append, len_cons]
      rfl
    rw [List.foldl_cons, read_byte hcr hlf, if_pos (by omega),
      ih (fun c hc => h c (List.mem_cons_of_mem _ hc)) (by rw [hline]; omega), List.append_assoc]
    rfl

theorem read_overflows {s : Session} {cmd : List Byte} (h : ∀ b ∈ cmd, b ≠ 0x0D ∧ b ≠ 0x0A)
    (hline : len s.line ≤ LINE_CAP) (hover : LINE_CAP < len s.line + len (text cmd)) :
      cmd.foldl Session.read s = (afterOverflow (LINE_CAP - len s.line) cmd).foldl Session.read
        { s with line := [], sent := s.sent ++ sendText "err line too long" } := by
  induction cmd generalizing s with
  | nil => exact absurd hline (Nat.not_le.mpr hover)
  | cons b cmd ih =>
    obtain ⟨hcr, hlf⟩ := h b (List.mem_cons_self ..)
    rw [len_text_cons] at hover
    have hline' :
        len (s.line ++ [Char.ofNat b.toNat]) = len s.line + (Char.ofNat b.toNat).utf8Size := by
      rw [len_append, len_cons]
      rfl
    rw [List.foldl_cons, read_byte hcr hlf, afterOverflow]
    by_cases hfit : len s.line + (Char.ofNat b.toNat).utf8Size ≤ LINE_CAP
    · rw [if_pos hfit, if_pos (by omega), ih (fun c hc => h c (List.mem_cons_of_mem _ hc))
        (by rw [hline']; omega) (by rw [hline']; omega), hline', Nat.sub_add_eq]
    · rw [if_neg hfit, if_neg (by omega)]

theorem read_cr {s : Session} : (s.read 0x0D).sent = s.sent ++ (dispatch s.rpc s.line).2 := by
  rw [Session.read, if_pos (.inl rfl)]
  split
  next hnil => rw [List.isEmpty_iff.mp hnil, dispatch_blank _ (by decide), List.append_nil]
  next => rfl

theorem reply_fits {cmd : List Byte} (h : ∀ b ∈ cmd, b ≠ 0x0D ∧ b ≠ 0x0A)
    (hfit : len (text cmd) ≤ LINE_CAP) : reply rpc cmd = (dispatch rpc (text cmd)).2 := by
  have hread := read_fits (s := ⟨rpc, [], []⟩) h (by rwa [show len [] = 0 from rfl, Nat.zero_add])
  rw [reply, List.foldl_concat, hread, read_cr]
  rfl

/-- The rest of a command that overflowed fits. -/
theorem reply_overflows {cmd : List Byte} (h : ∀ b ∈ cmd, b ≠ 0x0D ∧ b ≠ 0x0A)
    (hlen : cmd.length ≤ LINE_CAP) (hover : LINE_CAP < len (text cmd)) : reply rpc cmd =
      sendText "err line too long" ++ (dispatch rpc (text (afterOverflow LINE_CAP cmd))).2 := by
  have hrest := length_afterOverflow hover
  have hfit := len_text_le (afterOverflow LINE_CAP cmd)
  have hcap : LINE_CAP = 128 := rfl
  have hover' := read_overflows (s := ⟨rpc, [], []⟩) h (Nat.zero_le _)
    (by rwa [show len [] = 0 from rfl, Nat.zero_add])
  have hread := read_fits (s := ⟨rpc, [], sendText "err line too long"⟩)
    (fun b hb => h b ((afterOverflow_suffix LINE_CAP cmd).mem hb))
      (by rw [show len [] = 0 from rfl]; omega)
  rw [reply, List.foldl_concat, hover']
  dsimp only
  rw [show LINE_CAP - len [] = LINE_CAP from rfl, List.nil_append, hread, read_cr]
  rfl

/-- A command of 128 bytes at most gets exactly one line that ends its reply,
and as the last, iff it is answerable. -/
theorem delimited_iff (cmd : List Byte) (hlen : cmd.length ≤ LINE_CAP)
    (h : ∀ b ∈ cmd, b ≠ 0x0D ∧ b ≠ 0x0A) : Delimited (reply rpc cmd) ↔ Answerable cmd := by
  by_cases hfit : len (text cmd) ≤ LINE_CAP
  · have hclean := text_clean h
    rw [reply_fits rpc h hfit, Answerable, if_pos hfit]
    constructor
    · intro hdel
      refine ⟨fun hv => ?_, fun hv => ?_⟩
      · obtain ⟨body, last, hl, -⟩ := hdel
        rw [dispatch_blank rpc hv] at hl
        exact List.concat_ne_nil _ _ hl.symm
      · obtain ⟨l, hl, hc, hends⟩ := dispatch_ping rpc hv
        exact not_delimited hc hends (hl ▸ hdel)
    · rintro ⟨hv, hp⟩
      exact dispatch_delimited rpc hclean hv hp
  · have hlong : Final (sendText "err line too long") "err line too long".toList :=
      final_text (by decide) (by decide) (by decide)
    have hclean := text_clean fun b hb => h b ((afterOverflow_suffix LINE_CAP cmd).mem hb)
    rw [reply_overflows rpc h hlen (Nat.not_le.mp hfit), Answerable, if_neg hfit, hlong.text,
      List.append_assoc]
    constructor
    · rintro ⟨body, last, hl, -, hbody⟩
      by_contra hv
      rw [List.singleton_append, lines_cons hlong.clean] at hl
      obtain ⟨d, ds, hd⟩ := List.exists_cons_of_ne_nil (dispatch_lines_ne rpc hclean hv)
      cases body with
      | nil =>
        rw [hd] at hl
        cases hl
      | cons l body =>
        rw [List.cons_append] at hl
        have hl' := (List.cons.inj hl).1
        exact hbody l (List.mem_cons_self ..) (hl' ▸ (terminator_iff hlong.clean).mpr hlong.ends)
    · intro hv
      rw [dispatch_blank rpc hv, List.append_nil, ← hlong.text]
      exact hlong.delimited

/-- The interface after a start. -/
def Rpc.boot : Rpc where
  uptimeMs := 0
  kbd := .new
  kbdFifoOverrun := 0
  kbdSelfTxFrames := 0
  aux := .new
  auxFifoOverrun := 0
  usbEventDrops := 0
  injectRaw := .new
  mouseCmd := .new
  bulkOut := .new
  bulkSeq := 0

theorem delimited_iff_stats : Delimited (reply .boot (Text.bytes "stats".toList)) :=
  (delimited_iff .boot (Text.bytes "stats".toList) (by decide) (by decide)).mpr
    (by rw [Answerable, if_pos (by decide)]; decide)

theorem ping_undelimited : ¬ Delimited (reply .boot (Text.bytes "ping".toList)) := by
  have hverb : verb (text (Text.bytes "ping".toList)) = "ping".toList := by decide
  obtain ⟨l, hl, hclean, hends⟩ := dispatch_ping .boot hverb
  rw [reply_fits _ (by decide) (by decide), hl]
  exact not_delimited hclean hends

end VintageKvm.Firmware.Usb
