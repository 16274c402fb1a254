import VintageKvm.Firmware.Usb.Control
import VintageKvm.Lib.Chunks
import VintageKvm.Lib.Runs

/-!
# The lines of the control interface

The bytes of a connection, in packets, are gathered to lines for `dispatch`.
`wholeLines_iff`: what is dispatched is the lines that fit the buffer, each
whole, iff every longer line is used up when its last byte overflows the
buffer; the rest of any other is dispatched for a line of its own.
-/

namespace VintageKvm.Firmware.Usb

open Text

namespace Session

/-- `wait_connection` and the banner. -/
def connect (s : Session) : Session :=
  { s with
    line := [], sent := s.sent ++ sendText "vintage-kvm control v1 — type 'ping' or 'stats'" }

/-- `&buf[..n]` of a packet. -/
def readPacket (s : Session) (buf : List Byte) : Session := buf.foldl read s

/-- What `read` hands to `dispatch` at a byte. -/
def dispatches (s : Session) (b : Byte) : List Text :=
  if b = 0x0D ∨ b = 0x0A then if s.line.isEmpty then [] else [s.line] else []

def dispatched (s : Session) : List Byte → List Text
  | [] => []
  | b :: buf => s.dispatches b ++ (s.read b).dispatched buf

/-- The lines dispatched over packets. -/
def served (s : Session) : List (List Byte) → List Text
  | [] => []
  | buf :: packets => s.dispatched buf ++ (s.readPacket buf).served packets

end Session

/-- CR and LF. -/
def isEnd (b : Byte) : Bool := b = 0x0D ∨ b = 0x0A

/-- The lines of a stream that fit the buffer, but for the empty ones. -/
def wholeLines (stream : List Byte) : List Text :=
  ((runs isEnd stream).filter fun run => run ≠ [] ∧ len (text run) ≤ LINE_CAP).map text

/-- Bytes the last of which overflows the buffer. -/
def Overflows (piece : List Byte) : Prop :=
  ∃ q b, piece = q ++ [b] ∧ len (text q) ≤ LINE_CAP ∧ LINE_CAP < len (text piece)

/-- The buffer overflows on bytes of a run again and again, and `rest` is what
follows the last of these. -/
def Leaves (run rest : List Byte) : Prop :=
  ∃ pieces : List (List Byte), (∀ p ∈ pieces, Overflows p) ∧ run = pieces.flatten ++ rest ∧
    len (text rest) ≤ LINE_CAP

/-- The buffer overflows on the last byte. -/
def Spent (run : List Byte) : Prop := Leaves run []

/-! ## One run -/

variable {s s' : Session} {run rest buf : List Byte}

theorem isEnd_eq_false {b : Byte} (h : isEnd b = false) : b ≠ 0x0D ∧ b ≠ 0x0A :=
  not_or.mp (of_decide_eq_false h)

theorem len_text_concat (q : List Byte) (b : Byte) :
    len (text (q ++ [b])) = len (text q) + (Char.ofNat b.toNat).utf8Size := by
  rw [text, List.map_append, len_append, List.map_singleton, len_cons]
  rfl

/-- What the buffer overflows on leaves it empty. -/
theorem read_piece {piece : List Byte} (h : ∀ b ∈ piece, isEnd b = false) (hp : Overflows piece)
    (hs : s.line = []) : (piece.foldl Session.read s).line = [] := by
  obtain ⟨q, b, rfl, hfit, hover⟩ := hp
  obtain ⟨hcr, hlf⟩ := isEnd_eq_false (h b (List.mem_append_right _ (List.mem_singleton_self b)))
  have hq := read_fits (s := s) (fun c hc => isEnd_eq_false (h c (List.mem_append_left _ hc)))
    (by rw [hs]; exact (Nat.zero_add _).trans_le hfit)
  rw [len_text_concat] at hover
  rw [List.foldl_concat, hq, read_byte hcr hlf, if_neg]
  rw [hs, List.nil_append]
  exact Nat.not_le.mpr hover

theorem read_leaves (h : ∀ b ∈ run, isEnd b = false) (hl : Leaves run rest) (hs : s.line = []) :
    (run.foldl Session.read s).line = text rest := by
  obtain ⟨pieces, hpieces, rfl, hrest⟩ := hl
  induction pieces generalizing s with
  | nil =>
    rw [List.flatten_nil, List.nil_append] at h ⊢
    rw [read_fits (fun b hb => isEnd_eq_false (h b hb))
      (by rw [hs]; exact (Nat.zero_add _).trans_le hrest), hs]
    rfl
  | cons p pieces ih =>
    rw [List.flatten_cons, List.append_assoc] at h ⊢
    rw [List.foldl_append]
    have hp := read_piece (fun b hb => h b (List.mem_append_left _ hb))
      (hpieces p (List.mem_cons_self ..)) hs
    exact ih hp (fun q hq => hpieces q (List.mem_cons_of_mem _ hq))
      fun b hb => h b (List.mem_append_right _ hb)

theorem exists_leaves (run : List Byte) : ∃ rest, Leaves run rest := by
  induction run using List.reverseRecOn with
  | nil => exact ⟨[], [], fun _ hp => (nomatch hp), rfl, Nat.zero_le _⟩
  | append_singleton run b ih =>
    obtain ⟨rest, pieces, hpieces, rfl, hrest⟩ := ih
    by_cases hfit : len (text (rest ++ [b])) ≤ LINE_CAP
    · exact ⟨rest ++ [b], pieces, hpieces, List.append_assoc .., hfit⟩
    · refine ⟨[], pieces ++ [rest ++ [b]], fun p hp => ?_, ?_, Nat.zero_le _⟩
      · obtain hp | hp := List.mem_append.mp hp
        · exact hpieces p hp
        · rw [List.mem_singleton.mp hp]
          exact ⟨rest, b, rfl, hrest, Nat.not_le.mp hfit⟩
      · rw [List.flatten_append, List.flatten_singleton, List.append_nil, List.append_assoc]

/-- The rest is the end of the run that the buffer holds. -/
theorem Leaves.unique {rest' : List Byte} (h : ∀ b ∈ run, isEnd b = false) (hl : Leaves run rest)
    (hl' : Leaves run rest') : rest = rest' := by
  have hlen : (text rest).length = (text rest').length := by
    rw [← read_leaves (s := ⟨.boot, [], []⟩) h hl rfl,
      ← read_leaves (s := ⟨.boot, [], []⟩) h hl' rfl]
  rw [text, text, List.length_map, List.length_map] at hlen
  obtain ⟨pieces, -, hrun, -⟩ := hl
  obtain ⟨pieces', -, hrun', -⟩ := hl'
  exact (List.append_inj' (hrun.symm.trans hrun') hlen).2

theorem leaves_of_fits (h : len (text run) ≤ LINE_CAP) : Leaves run run :=
  ⟨[], fun _ hp => (nomatch hp), rfl, h⟩

/-! ## The lines dispatched -/

open Session (dispatched served readPacket)

theorem dispatched_append (s : Session) (buf more : List Byte) :
    dispatched s (buf ++ more) = dispatched s buf ++ dispatched (s.readPacket buf) more := by
  induction buf generalizing s with
  | nil => rfl
  | cons b buf ih =>
    rw [List.cons_append, dispatched, dispatched, ih, List.append_assoc]
    rfl

/-- Packets change nothing. -/
theorem served_eq (s : Session) (packets : List (List Byte)) :
    served s packets = dispatched s packets.flatten := by
  induction packets generalizing s with
  | nil => rfl
  | cons buf packets ih => rw [served, ih, List.flatten_cons, dispatched_append]

theorem dispatched_none (h : ∀ b ∈ buf, isEnd b = false) : dispatched s buf = [] := by
  induction buf generalizing s with
  | nil => rfl
  | cons b buf ih =>
    have hb := isEnd_eq_false (h b (List.mem_cons_self ..))
    rw [dispatched, Session.dispatches, if_neg (not_or.mpr hb), List.nil_append,
      ih fun c hc => h c (List.mem_cons_of_mem _ hc)]

/-- A run and its end: what the buffer holds is dispatched. -/
theorem dispatched_run {t : Byte} (h : ∀ b ∈ run, isEnd b = false) (ht : isEnd t) (hs : s.line = [])
    (hl : Leaves run rest) (buf : List Byte) :
    ∃ s' : Session, s'.line = [] ∧
      dispatched s (run ++ t :: buf) = (if rest = [] then [] else [text rest]) ++
        dispatched s' buf := by
  have hline := read_leaves h hl hs
  have hend : t = 0x0D ∨ t = 0x0A := of_decide_eq_true ht
  refine ⟨(readPacket s run).read t, ?_, ?_⟩
  · rw [Session.read, if_pos hend]
    split
    next hnil => exact List.isEmpty_iff.mp hnil
    next => rfl
  · rw [dispatched_append, dispatched_none h, List.nil_append, dispatched, Session.dispatches,
      if_pos hend, show (readPacket s run).line = text rest from hline, text, List.isEmpty_map]
    congr 1
    cases rest <;> rfl

theorem wholeLines_run {t : Byte} (h : ∀ b ∈ run, isEnd b = false) (ht : isEnd t)
    (buf : List Byte) : wholeLines (run ++ t :: buf) =
      (if run ≠ [] ∧ len (text run) ≤ LINE_CAP then [text run] else []) ++ wholeLines buf := by
  rw [wholeLines, runs_cons h ht, List.filter_cons]
  split
  next hrun => rw [if_pos (of_decide_eq_true hrun)]; rfl
  next hrun => rw [if_neg fun hr => hrun (decide_eq_true hr)]; rfl

/-! ## The whole connection -/

theorem Leaves.spent_iff (h : ∀ b ∈ run, isEnd b = false) (hl : Leaves run rest) :
    Spent run ↔ rest = [] :=
  ⟨fun hs => hl.unique h hs, fun hr => by subst hr; exact hl⟩

/-- No line that fits is missed. -/
theorem wholeLines_sublist (hs : s.line = []) (buf : List Byte) :
    (wholeLines buf).Sublist (dispatched s buf) := by
  induction buf using runs_induction (p := isEnd) generalizing s with
  | unended buf h =>
    rw [wholeLines, runs_of_forall h]
    exact List.nil_sublist _
  | run run t buf h ht ih =>
    obtain ⟨rest, hl⟩ := exists_leaves run
    obtain ⟨s', hs', hd⟩ := dispatched_run h ht hs hl buf
    rw [wholeLines_run h ht, hd]
    refine List.Sublist.append ?_ (ih hs')
    by_cases hfit : len (text run) ≤ LINE_CAP
    · rw [hl.unique h (leaves_of_fits hfit)]
      by_cases hne : run = []
      · rw [if_neg fun hr => hr.1 hne]
        exact List.nil_sublist _
      · rw [if_pos ⟨hne, hfit⟩, if_neg hne]
    · rw [if_neg fun hr => hfit hr.2]
      exact List.nil_sublist _

theorem dispatched_iff (hs : s.line = []) (buf : List Byte) :
    dispatched s buf = wholeLines buf ↔ ∀ run ∈ runs isEnd buf, LINE_CAP < len (text run) →
      Spent run := by
  induction buf using runs_induction (p := isEnd) generalizing s with
  | unended buf h =>
    rw [dispatched_none h, wholeLines, runs_of_forall h]
    exact ⟨fun _ _ hrun => (nomatch hrun), fun _ => rfl⟩
  | run run t buf h ht ih =>
    obtain ⟨rest, hl⟩ := exists_leaves run
    obtain ⟨s', hs', hd⟩ := dispatched_run h ht hs hl buf
    rw [wholeLines_run h ht, hd, runs_cons h ht, List.forall_mem_cons, ← ih hs']
    by_cases hfit : len (text run) ≤ LINE_CAP
    · have hsame : (if rest = [] then [] else [text rest]) =
          if run ≠ [] ∧ len (text run) ≤ LINE_CAP then [text run] else [] := by
        rw [hl.unique h (leaves_of_fits hfit)]
        by_cases hne : run = []
        · rw [if_pos hne, if_neg fun hr => hr.1 hne]
        · rw [if_neg hne, if_pos ⟨hne, hfit⟩]
      rw [hsame, List.append_right_inj]
      exact ⟨fun he => ⟨fun hlong => absurd hfit (Nat.not_le.mpr hlong), he⟩, fun he => he.2⟩
    · have hlong : ¬ (run ≠ [] ∧ len (text run) ≤ LINE_CAP) := fun hr => hfit hr.2
      rw [if_neg hlong, List.nil_append, hl.spent_iff h]
      by_cases hnil : rest = []
      · rw [if_pos hnil, List.nil_append]
        exact ⟨fun he => ⟨fun _ => hnil, he⟩, fun he => he.2⟩
      · rw [if_neg hnil]
        constructor
        · intro he
          have hlen := (wholeLines_sublist hs' buf).length_le
          rw [← he, List.length_append, List.length_singleton] at hlen
          omega
        · rintro ⟨hspent, -⟩
          exact absurd (hspent (Nat.not_le.mp hfit)) hnil

/-- What a connection dispatches is its lines that fit, each whole, iff every
other line is spent. -/
theorem wholeLines_iff (s : Session) (packets : List (List Byte)) :
    s.connect.served packets = wholeLines packets.flatten ↔
      ∀ run ∈ runs isEnd packets.flatten, LINE_CAP < len (text run) → Spent run := by
  rw [served_eq]
  exact dispatched_iff rfl packets.flatten

/-- A line of 129 letters and a command behind them. -/
def longLine : List (List Byte) :=
  [List.replicate 64 0x61, List.replicate 64 0x61, 0x61 :: Text.bytes "ping\r".toList]

theorem tail_dispatched : (Session.connect ⟨.boot, [], []⟩).served longLine = ["ping".toList] ∧
    wholeLines longLine.flatten = [] ∧
    ¬ ∀ (s : Session) (packets : List (List Byte)),
      s.connect.served packets = wholeLines packets.flatten := by
  have hserved : (Session.connect ⟨.boot, [], []⟩).served longLine = ["ping".toList] := by
    decide +kernel
  have hwhole : wholeLines longLine.flatten = [] := by decide +kernel
  refine ⟨hserved, hwhole, fun h => ?_⟩
  rw [h, hwhole] at hserved
  cases hserved

/-! ## Lines in ASCII -/

theorem len_text_ascii (h : ∀ b ∈ run, b.toNat < 128) : len (text run) = run.length := by
  have hascii : ∀ c ∈ text run, c.toNat < 128 := fun c hc => by
    obtain ⟨b, hb, rfl⟩ := List.mem_map.mp hc
    exact (char_toNat b).trans_lt (h b hb)
  rw [len_of_ascii hascii, text, List.length_map]

/-- A line in ASCII is spent where 129 divides its length. -/
theorem spent_ascii (h : ∀ b ∈ run, b.toNat < 128) : Spent run ↔ (LINE_CAP + 1) ∣ run.length := by
  constructor
  · rintro ⟨pieces, hpieces, rfl, -⟩
    rw [List.append_nil] at h ⊢
    induction pieces with
    | nil => exact Nat.dvd_zero _
    | cons p pieces ih =>
      rw [List.flatten_cons] at h ⊢
      obtain ⟨q, b, rfl, hfit, hover⟩ := hpieces p (List.mem_cons_self ..)
      rw [len_text_ascii fun c hc => h c (List.mem_append_left _ hc), List.length_append] at hover
      rw [len_text_ascii
        fun c hc => h c (List.mem_append_left _ (List.mem_append_left _ hc))] at hfit
      have hlen : (q ++ [b]).length = LINE_CAP + 1 := by
        rw [List.length_append]
        exact Nat.le_antisymm (Nat.succ_le_succ hfit) hover
      rw [List.length_append, hlen]
      exact Nat.dvd_add_self_left.mpr
        (ih (fun q hq => hpieces q (List.mem_cons_of_mem _ hq))
          fun c hc => h c (List.mem_append_right _ hc))
  · rintro hdvd
    refine ⟨chunks (LINE_CAP + 1) run,
      fun p hp => ?_, by rw [chunks_flatten (by decide), List.append_nil], Nat.zero_le _⟩
    have hlen := length_of_mem_chunks_of_dvd (by decide) hdvd hp
    have hmem : ∀ b ∈ p, b.toNat < 128 := fun b hb => h b (mem_of_mem_chunks hp hb)
    obtain rfl | ⟨q, b, rfl⟩ := List.eq_nil_or_concat' p
    · cases hlen
    · rw [List.length_append] at hlen
      have hq : q.length = LINE_CAP := Nat.succ.inj hlen
      refine ⟨q, b, rfl, ?_, ?_⟩
      · rw [len_text_ascii fun c hc => hmem c (List.mem_append_left _ hc), hq]
      · rw [len_text_ascii hmem, List.length_append, hq]
        exact Nat.lt_succ_self _

end VintageKvm.Firmware.Usb
