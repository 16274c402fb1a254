import VintageKvm.Dos.LptNibble
import VintageKvm.Firmware.Lpt.NibbleOut

/-!
# The nibble channel, from the sender's words to the receiver's bytes

The sender's state machine drives five pins, the status register of the PC
shows them, and the receiver reads the register when it happens to: a
`Session` is what the sender was given, when the words came, and in which
cycle each read falls. Nothing acknowledges a nibble. The receiver keeps up
because the phase of the last nibble it took tells it the next one
(`Session.Taken`), through any number of reads of the same nibble.
-/

namespace VintageKvm.Link

open I8086 Machine Dos Dos.LptNibble Firmware.Lpt Firmware.Lpt.PioNibbleOut

/-! ## The cable -/

/-- The status register: nFault, Select, PError, nAck and Busy from bit 3 up,
Busy inverted on some boards, and three bits that are not the sender's. -/
def statusRegister (inverted : Bool) (levels : Nat → Level) (rest : BitVec 3) : Byte :=
  BitVec.ofBool ((levels 24 = .high) ^^ inverted) ++ BitVec.ofBool (levels 23 = .high)
    ++ BitVec.ofBool (levels 25 = .high) ++ BitVec.ofBool (levels 26 = .high)
    ++ BitVec.ofBool (levels 27 = .high) ++ rest

/-- The receiver's end: what each of its reads of the status register gives. -/
structure Cable where
  status : Nat → Byte
  /-- How many reads there were. -/
  reads : Nat

instance : Ports Cable where
  inp _ c := (c.status c.reads, { c with reads := c.reads + 1 })
  out _ _ c := c

/-- A use of the channel. -/
structure Session where
  batches : List Batch
  /-- The words the DMA channel brings in each cycle: of those it was given, in
  order. -/
  feed : Nat → List DWord
  fed : ∀ t, (List.range t).flatMap feed <+: batches.flatMap (·.words)
  /-- The registers before the sender came up. -/
  common : Board
  inverted : Bool
  rest : Nat → BitVec 3
  /-- The cycle that each of the receiver's reads falls in. -/
  cycle : Nat → Nat

namespace Session

variable (s : Session)

/-- The sender after so many cycles. -/
def sender (t : Nat) : Sm := Sm.cycles config (idle s.common) s.feed t

/-- How many nibbles have been put on the wire when a read falls: the nibble of
that number is on it. -/
def on (i : Nat) : Nat := (s.sender (s.cycle i)).outs

def status (i : Nat) : Byte := statusRegister s.inverted (s.sender (s.cycle i)).levels (s.rest i)

/-- The cable before read `i`. -/
def cable (i : Nat) : Cable := ⟨s.status, i⟩

theorem inp_cable (p : Word) (i : Nat) : Ports.inp p (s.cable i) = (s.status i, s.cable (i + 1)) :=
  rfl

/-- What the sender sends. -/
def bytes : List Byte := sent s.batches

end Session

/-! ## What the register shows -/

/-- The phase of the nibble of a number, on bit 7. -/
def phase (inverted : Bool) (k : Nat) : Byte := if (k % 2 = 1) ^^ inverted then 0x80 else 0

/-- The status register of a pattern. -/
def statusOf (inverted : Bool) (pat : BitVec 5) (rest : BitVec 3) : Byte :=
  BitVec.ofBool (pat.getLsbD 1 ^^ inverted) ++ BitVec.ofBool (pat.getLsbD 0)
    ++ BitVec.ofBool (pat.getLsbD 2) ++ BitVec.ofBool (pat.getLsbD 3)
    ++ BitVec.ofBool (pat.getLsbD 4) ++ rest

theorem statusRegister_eq {levels : Nat → Level} {pat : BitVec 5} (h : Drives levels pat)
    (inverted : Bool) (rest : BitVec 3) :
    statusRegister inverted levels rest = statusOf inverted pat rest := by
  have hbit : ∀ i < 5, decide (levels (23 + i) = .high) = pat.getLsbD i := by
    intro i hi
    rw [h i hi]
    cases pat.getLsbD i <;> decide
  rw [statusRegister, statusOf, ← hbit 0 (by decide), ← hbit 1 (by decide), ← hbit 2 (by decide),
    ← hbit 3 (by decide), ← hbit 4 (by decide)]

theorem statusOf_phase (inverted : Bool) (pat : BitVec 5) (rest : BitVec 3) :
    statusOf inverted pat rest &&& STAT_PHASE = if pat.getLsbD 1 ^^ inverted then 0x80 else 0 := by
  revert inverted pat rest
  decide +kernel

/-- The nibble lies in four bits of the sender's. -/
theorem nibbleOf_statusOf (inverted : Bool) (pat : BitVec 5) (rest : BitVec 3) :
    nibbleOf (statusOf inverted pat rest) = nibbleOf (statusOf false pat 0) := by
  revert inverted pat rest
  decide +kernel

theorem packByte_low (b : Byte) : ((packByte b).setWidth 5).getLsbD 1 = true ∧
    nibbleOf (statusOf false ((packByte b).setWidth 5) 0) = b &&& 0x0F := by
  revert b
  decide +kernel

theorem packByte_high (b : Byte) : ((packByte b >>> 5).setWidth 5).getLsbD 1 = false ∧
    nibbleOf (statusOf false ((packByte b >>> 5).setWidth 5) 0) = b >>> 4 := by
  revert b
  decide +kernel

theorem getElem?_packed {bytes : List Byte} {j : Nat} {b : Byte} (hb : bytes[j]? = some b) :
    (bytes.map packByte)[j]? = some (packByte b) := by
  rw [List.getElem?_map, hb]
  rfl

theorem pattern_phase {bytes : List Byte} {k : Nat} (hk : k ≤ 2 * bytes.length) :
    (pattern (bytes.map packByte) k).getLsbD 1 = decide (k % 2 = 1) := by
  cases k with
  | zero => simp [pattern]
  | succ k =>
    have hb := getElem?_packed (List.getElem?_eq_getElem (show k / 2 < bytes.length by omega))
    rcases Nat.mod_two_eq_zero_or_one k with hmod | hmod
    · rw [show k + 1 = 2 * (k / 2) + 1 by omega, pattern_odd hb, (packByte_low _).1]
      exact (decide_eq_true (by omega)).symm
    · rw [show k + 1 = 2 * (k / 2) + 2 by omega, pattern_even hb, (packByte_high _).1]
      exact (decide_eq_false (by omega)).symm

namespace Session

variable {s : Session}

/-- At any read the pins show the nibble that is on the wire. -/
theorem drives_on (s : Session) (i : Nat) : s.on i ≤ 2 * s.bytes.length ∧
    Drives (s.sender (s.cycle i)).levels (pattern (s.bytes.map packByte) (s.on i)) := by
  obtain ⟨pulled, h⟩ := Shows.cycles s.common s.feed (s.cycle i)
  obtain ⟨more, hmore⟩ := s.fed (s.cycle i)
  rw [words_eq] at hmore
  have hle := h.outs_le.trans (Nat.mul_le_mul_left 2 h.pulled_le)
  have hlen := congrArg List.length hmore
  rw [List.length_append, List.length_map] at hlen
  refine ⟨hle.trans (by rw [bytes]; omega), ?_⟩
  rw [bytes, ← hmore]
  exact (pattern_append more hle).symm ▸ h.drives

theorem status_phase (s : Session) (i : Nat) :
    s.status i &&& STAT_PHASE = phase s.inverted (s.on i) := by
  obtain ⟨hle, hdrives⟩ := s.drives_on i
  rw [status, statusRegister_eq hdrives, statusOf_phase, pattern_phase hle, phase]

theorem status_low {i j : Nat} {b : Byte} (hb : s.bytes[j]? = some b) (h : s.on i = 2 * j + 1) :
    nibbleOf (s.status i) = b &&& 0x0F := by
  obtain ⟨-, hdrives⟩ := s.drives_on i
  rw [h, pattern_odd (getElem?_packed hb)] at hdrives
  rw [status, statusRegister_eq hdrives, nibbleOf_statusOf, (packByte_low b).2]

theorem status_high {i j : Nat} {b : Byte} (hb : s.bytes[j]? = some b) (h : s.on i = 2 * j + 2) :
    nibbleOf (s.status i) = b >>> 4 := by
  obtain ⟨-, hdrives⟩ := s.drives_on i
  rw [h, pattern_even (getElem?_packed hb)] at hdrives
  rw [status, statusRegister_eq hdrives, nibbleOf_statusOf, (packByte_high b).2]

end Session

/-! ## The schedule of the reads -/

namespace Session

/-- The reads go forward in time, the first while the line is idle, and each
nibble gets a poll: a read and the next one, its debounce, both fall on it. No
poll of the receiver then straddles two nibbles. -/
structure Polled (s : Session) : Prop where
  mono : Monotone s.cycle
  idle : s.on 0 = 0
  poll : ∀ k, 1 ≤ k → k ≤ 2 * s.bytes.length → ∃ i, s.on i = k ∧ s.on (i + 1) = k

/-- Once a poll has taken the nibble, another comes before the receiver has
polled for its whole budget. -/
def Timely (s : Session) (k : Nat) : Prop :=
  ∀ i, s.on i = k → s.on (i + 1) = k → s.on (i + 1 + POLLS) ≠ k

/-- The last nibble taken is `k`, and read `i` is next. -/
def Taken (s : Session) (k i : Nat) : Prop := ∃ j, i = j + 1 ∧ s.on j = k

variable {s : Session}

theorem Polled.on_monotone (h : s.Polled) : Monotone s.on := (Sm.outs_monotone _ _ _).comp h.mono

/-- The next read still falls on the nibble, or it and the one after it fall on
the next. -/
theorem Polled.next_on (h : s.Polled) {k i : Nat} (ht : s.Taken k i) :
    s.on i = k ∨ k < 2 * s.bytes.length ∧ s.on i = k + 1 ∧ s.on (i + 1) = k + 1 := by
  obtain ⟨j, rfl, hj⟩ := ht
  have hge : k ≤ s.on (j + 1) := hj ▸ h.on_monotone (Nat.le_succ j)
  have hle := (s.drives_on (j + 1)).1
  rcases hge.eq_or_lt with hk | hk
  · exact .inl hk.symm
  · -- The poll of the next nibble lies ahead.
    obtain ⟨i', hi, hi'⟩ := h.poll (k + 1) (Nat.succ_le_succ (Nat.zero_le k)) (by omega)
    have hlt : j < i' := h.on_monotone.reflect_lt (by omega)
    have h₁ := h.on_monotone (show j + 1 ≤ i' from hlt)
    have h₂ := h.on_monotone (show j + 1 + 1 ≤ i' + 1 by omega)
    have h₃ := h.on_monotone (show j + 1 ≤ j + 1 + 1 from Nat.le_succ _)
    exact .inr (by omega)

theorem phase_succ_ne (inverted : Bool) (k : Nat) : phase inverted (k + 1) ≠ phase inverted k := by
  rw [phase, phase]
  rcases Nat.mod_two_eq_zero_or_one k with hmod | hmod
  · rw [show (k + 1) % 2 = 1 by omega, hmod]
    cases inverted <;> decide
  · rw [show (k + 1) % 2 = 0 by omega, hmod]
    cases inverted <;> decide

/-- A poll that still reads the nibble taken. -/
theorem pollNibble_stay (p : Word) {k i : Nat} (hi : s.on i = k) (n : Nat) :
    pollNibble p (phase s.inverted k) (n + 1) (s.cable i) =
      pollNibble p (phase s.inverted k) n (s.cable (i + 1)) := by
  have hsame : s.status i &&& STAT_PHASE = phase s.inverted k := by rw [s.status_phase, hi]
  simp only [pollNibble, inp_cable, hsame, if_true]

theorem pollNibble_stays (p : Word) {k i n : Nat} (h : ∀ j, i ≤ j → j < i + n → s.on j = k) :
    pollNibble p (phase s.inverted k) n (s.cable i) = (none, s.cable (i + n)) := by
  induction n generalizing i with
  | zero => rfl
  | succ n ih =>
    rw [pollNibble_stay p (h i (Nat.le_refl i) (by omega)),
      ih fun j hj hj' => h j (by omega) (by omega)]
    exact congrArg (fun j => (none, s.cable j)) (by omega)

/-- A poll of the next nibble takes it. -/
theorem pollNibble_take (p : Word) {k i n : Nat} (hi : s.on i = k + 1) (hi' : s.on (i + 1) = k + 1)
    (hn : 0 < n) : pollNibble p (phase s.inverted k) n (s.cable i) = (some (s.status (i + 1)),
      s.cable (i + 2)) := by
  obtain ⟨n, rfl⟩ := Nat.exists_eq_succ_of_ne_zero hn.ne'
  have hnew : s.status i &&& STAT_PHASE ≠ phase s.inverted k := by
    rw [s.status_phase, hi]
    exact phase_succ_ne _ _
  have hnew' : s.status (i + 1) &&& STAT_PHASE ≠ phase s.inverted k := by
    rw [s.status_phase, hi']
    exact phase_succ_ne _ _
  simp only [pollNibble, inp_cable, hnew, hnew', if_false]

/-- Polling takes the next nibble at its first poll, or ends before it with
nothing lost. -/
theorem Polled.pollNibble_ok (h : s.Polled) (p : Word) {k i : Nat} (ht : s.Taken k i) (n : Nat) :
    (pollNibble p (phase s.inverted k) n (s.cable i) = (none, s.cable (i + n)) ∧
      s.Taken k (i + n)) ∨
    ∃ j, k < 2 * s.bytes.length ∧ s.on j = k + 1 ∧ s.on (j + 1) = k + 1 ∧
      pollNibble p (phase s.inverted k) n (s.cable i) = (some (s.status (j + 1)),
        s.cable (j + 2)) := by
  induction n generalizing i with
  | zero => exact .inl ⟨rfl, ht⟩
  | succ n ih =>
    rcases h.next_on ht with hi | ⟨hk, hi, hi'⟩
    · rw [pollNibble_stay p hi, show i + (n + 1) = i + 1 + n by omega]
      exact ih ⟨i, rfl, hi⟩
    · exact .inr ⟨i, hk, hi, hi', pollNibble_take p hi hi' (Nat.succ_pos n)⟩

theorem high_low (b : Byte) : b >>> 4 <<< 4 ||| (b &&& 0x0F) = b := by
  revert b
  decide +kernel

/-- One byte: its two nibbles, or a timeout before the first. -/
theorem Polled.pollByte_ok (h : s.Polled) (hlow : ∀ k, k % 2 = 1 → s.Timely k)
    (p : Word) {m i : Nat} (ht : s.Taken (2 * m) i) :
    (pollByte p (phase s.inverted (2 * m)) (s.cable i) = (none, phase s.inverted (2 * m),
      s.cable (i + POLLS)) ∧ s.Taken (2 * m) (i + POLLS)) ∨
    ∃ b j, s.bytes[m]? = some b ∧ s.on j = 2 * (m + 1) ∧ s.on (j + 1) = 2 * (m + 1) ∧
      pollByte p (phase s.inverted (2 * m)) (s.cable i) = (some b, phase s.inverted (2 * (m + 1)),
        s.cable (j + 2)) := by
  rcases h.pollNibble_ok p ht POLLS with ⟨hnone, ht'⟩ | ⟨j, hk, hj, hj', hsome⟩
  · exact .inl ⟨by simp only [pollByte, hnone], ht'⟩
  · have hb := List.getElem?_eq_getElem (show m < s.bytes.length by omega)
    have hphase : s.status (j + 1) &&& STAT_PHASE = phase s.inverted (2 * m + 1) := by
      rw [s.status_phase, hj']
    rcases h.pollNibble_ok p (k := 2 * m + 1) (i := j + 2) ⟨j + 1, rfl, hj'⟩ POLLS with
      ⟨-, ht'⟩ | ⟨j₂, _, hj₂, hj₂', hsome₂⟩
    · -- The high nibble is late: against the budget.
      obtain ⟨j', hj'', hon⟩ := ht'
      refine absurd ?_ (hlow (2 * m + 1) (by omega) j hj hj')
      rwa [show j + 1 + POLLS = j' by omega]
    · refine .inr ⟨s.bytes[m], j₂, hb, hj₂, hj₂', ?_⟩
      simp only [pollByte, hsome, hphase, hsome₂, s.status_phase (j₂ + 1), hj₂',
        s.status_low hb hj', s.status_high hb hj₂', high_low]
      rfl

end Session

/-! ## The receiver -/

variable {δ : Type}

/-- What so many calls of `lpt_recv_byte` return, one after another: nothing
from one that ends with carry set. -/
def received (v : LptNibble) : Nat → Machine δ Cable → List Byte
  | 0, _ => []
  | n + 1, m =>
    let m := v.lptRecvByte m
    (if m.cf then [] else [lo m.ax]) ++ received v n m

namespace Session

variable {s : Session} {v : LptNibble}

/-- The receiver has taken `k` nibbles, and read `i` is next. -/
structure Ready (s : Session) (v : LptNibble) (k i : Nat) (m : Machine δ Cable) : Prop where
  io : m.io = s.cable i
  last : m.mem v.lastPhase = phase s.inverted k
  taken : s.Taken k i

theorem Polled.init_ready (h : s.Polled) (m : Machine δ Cable) :
    s.Ready v 0 1 (v.initLptControl { m with io := s.cable 0 }) := by
  obtain ⟨a, d, z, c, e⟩ := v.initLptControl_ok { m with io := s.cable 0 }
  rw [e]
  refine ⟨rfl, ?_, 0, rfl, h.idle⟩
  exact (Mem.set_self ..).trans ((s.status_phase 0).trans (congrArg _ h.idle))

/-- A call, by what its polls come to. -/
theorem recv_of_poll {m : Machine δ Cable} {k i : Nat} {io : Cable} {ph : Byte} {r : Option Byte}
    (hio : m.io = s.cable i) (hlast : m.mem v.lastPhase = phase s.inverted k)
    (hpoll : pollByte (m.mem.word v.lptBase + LPT_STATUS) (phase s.inverted k) (s.cable i) =
      (r, ph, io)) :
    (v.lptRecvByte m).cf = r.isNone ∧ (v.lptRecvByte m).io = io ∧
      (v.lptRecvByte m).mem v.lastPhase = ph ∧ ∀ b ∈ r, lo (v.lptRecvByte m).ax = b := by
  rw [← hlast, ← hio] at hpoll
  obtain ⟨a, z, e, ha⟩ := v.lptRecvByte_ok m hpoll
  rw [e]
  refine ⟨rfl, rfl, Mem.set_self .., fun b hb => ?_⟩
  rw [ha b hb, lo_ofBytes]

/-- One call: a byte, or a timeout at the end of its polls. -/
theorem Polled.recv_ok (h : s.Polled) (hlow : ∀ k, k % 2 = 1 → s.Timely k)
    {m : Machine δ Cable} {n i : Nat} (hm : s.Ready v (2 * n) i m) :
    ((v.lptRecvByte m).cf = true ∧ s.Ready v (2 * n) (i + POLLS) (v.lptRecvByte m)) ∨
    ∃ b j, s.bytes[n]? = some b ∧ s.on j = 2 * (n + 1) ∧ s.on (j + 1) = 2 * (n + 1) ∧
      (v.lptRecvByte m).cf = false ∧ lo (v.lptRecvByte m).ax = b ∧
      s.Ready v (2 * (n + 1)) (j + 2) (v.lptRecvByte m) := by
  rcases h.pollByte_ok hlow (m.mem.word v.lptBase + LPT_STATUS) hm.taken with
    ⟨hpoll, ht⟩ | ⟨b, j, hb, hj, hj', hpoll⟩ <;>
    obtain ⟨hcf, hio, hlast, hax⟩ := recv_of_poll hm.io hm.last hpoll
  · exact .inl ⟨hcf, hio, hlast, ht⟩
  · exact .inr ⟨b, j, hb, hj, hj', hcf, hax b rfl, hio, hlast, j + 1, rfl, hj'⟩

theorem drop_eq_cons {n : Nat} {b : Byte} (hb : s.bytes[n]? = some b) :
    s.bytes.drop n = b :: s.bytes.drop (n + 1) := by
  obtain ⟨hn, rfl⟩ := List.getElem?_eq_some_iff.mp hb
  exact List.drop_eq_getElem_cons hn

/-- Nothing but the bytes, in order. -/
theorem Polled.received_prefix (h : s.Polled) (hlow : ∀ k, k % 2 = 1 → s.Timely k) (calls : Nat)
    {m : Machine δ Cable} {n i : Nat} (hm : s.Ready v (2 * n) i m) :
    received v calls m <+: s.bytes.drop n := by
  induction calls generalizing m n i with
  | zero => exact List.nil_prefix
  | succ calls ih =>
    rw [received]
    rcases h.recv_ok hlow hm with ⟨hcf, hm'⟩ | ⟨b, j, hb, -, -, hcf, hax, hm'⟩
    · rw [hcf]
      exact ih hm'
    · rw [hcf, hax, drop_eq_cons hb]
      exact List.prefix_cons_inj b |>.mpr (ih hm')

/-- However long the line is left alone, some call returns the next byte. -/
theorem Polled.received_next (h : s.Polled) (hlow : ∀ k, k % 2 = 1 → s.Timely k) {n : Nat}
    (hn : n < s.bytes.length) {j : Nat} (hj : s.on j = 2 * n + 1) {d i : Nat} (hd : j < i + d)
    {m : Machine δ Cable} (hm : s.Ready v (2 * n) i m) :
    ∃ calls i', ∃ m' : Machine δ Cable, s.Ready v (2 * (n + 1)) i' m' ∧
      ∀ more, received v (calls + more) m = s.bytes[n] :: received v more m' := by
  induction d generalizing i m with
  | zero =>
    -- The next nibble was on the line before the last was taken.
    obtain ⟨j', rfl, hon⟩ := hm.taken
    have := h.on_monotone (show j ≤ j' by omega)
    omega
  | succ d ih =>
    rcases h.recv_ok hlow hm with ⟨hcf, hm'⟩ | ⟨b, j', hb, -, -, hcf, hax, hm'⟩
    · have hpos : 0 < POLLS := by decide
      obtain ⟨calls, i', m', hready, hrecv⟩ := ih (by omega) hm'
      refine ⟨calls + 1, i', m', hready, fun more => ?_⟩
      rw [show calls + 1 + more = calls + more + 1 by omega, received, hcf]
      exact hrecv more
    · obtain ⟨_, rfl⟩ := List.getElem?_eq_some_iff.mp hb
      refine ⟨1, j' + 2, _, hm', fun more => ?_⟩
      rw [Nat.add_comm, received, hcf, hax]
      rfl

theorem Polled.received_all (h : s.Polled) (hlow : ∀ k, k % 2 = 1 → s.Timely k) {n i : Nat}
    {m : Machine δ Cable} (hm : s.Ready v (2 * n) i m) :
    ∃ calls, received v calls m = s.bytes.drop n := by
  generalize hd : s.bytes.length - n = d
  induction d generalizing m n i with
  | zero => exact ⟨0, (List.drop_eq_nil_of_le (by omega)).symm⟩
  | succ d ih =>
    obtain ⟨j, hj, -⟩ := h.poll (2 * n + 1) (by omega) (by omega)
    obtain ⟨calls, i', m', hready, hrecv⟩ :=
      h.received_next hlow (show n < s.bytes.length by omega) hj (show j < i + (j + 1) by omega) hm
    obtain ⟨more, hmore⟩ := ih hready (by omega)
    have hn : n < s.bytes.length := by omega
    exact ⟨calls + more, by rw [hrecv, hmore, List.drop_eq_getElem_cons hn]⟩

/-- Where no wait outlasts the budget, each call returns a byte. -/
theorem Polled.received_each (h : s.Polled) (hlow : ∀ k, k % 2 = 1 → s.Timely k)
    (htimely : ∀ k, k < 2 * s.bytes.length → s.Timely k) {d n i : Nat} (hd : n + d = s.bytes.length)
    {m : Machine δ Cable} (hm : s.Ready v (2 * n) i m)
    (hnext : 0 < d → ¬ s.Taken (2 * n) (i + POLLS)) :
    received v d m = s.bytes.drop n := by
  induction d generalizing m n i with
  | zero => exact (List.drop_eq_nil_of_le (by omega)).symm
  | succ d ih =>
    rw [received]
    rcases h.recv_ok hlow hm with ⟨-, hm'⟩ | ⟨b, j, hb, hj, hj', hcf, hax, hm'⟩
    · exact absurd hm'.taken (hnext (Nat.succ_pos d))
    · rw [hcf, hax, drop_eq_cons hb]
      refine congrArg (b :: ·) (ih (by omega) hm' fun hpos ht => ?_)
      obtain ⟨j', hj'', hon⟩ := ht
      refine htimely (2 * (n + 1)) (by omega) j hj hj' ?_
      rwa [show j + 1 + POLLS = j' by omega]

/-- The channel is lossless: where each nibble gets a poll and no low nibble
outlasts the receiver's budget, calls return the bytes sent and nothing else,
in order; and where nothing outlasts it, each call returns one. -/
theorem lossless (s : Session) (h : s.Polled) (hlow : ∀ k, k % 2 = 1 → s.Timely k) (v : LptNibble)
    (m : Machine δ Cable) :
    (∀ calls, received v calls (v.initLptControl { m with io := s.cable 0 }) <+: s.bytes) ∧
    (∃ calls, received v calls (v.initLptControl { m with io := s.cable 0 }) = s.bytes) ∧
    (s.on POLLS ≠ 0 → (∀ k, k < 2 * s.bytes.length → s.Timely k) →
      received v s.bytes.length (v.initLptControl { m with io := s.cable 0 }) = s.bytes) := by
  have hready : s.Ready v (2 * 0) 1 (v.initLptControl { m with io := s.cable 0 }) := h.init_ready m
  refine ⟨fun calls => h.received_prefix hlow calls hready, h.received_all hlow hready,
    fun hidle htimely => ?_⟩
  refine h.received_each hlow htimely (Nat.zero_add _) hready fun _ ht => ?_
  obtain ⟨j, hj, hon⟩ := ht
  refine hidle ?_
  rwa [show POLLS = j by omega]

/-- Two bytes in one batch, the low nibble of the first read `n` times, the
next two nibbles twice. -/
def twoBytes (n : Nat) : Session where
  batches := [⟨[0x21, 0x43], by decide⟩]
  feed t := if t = 0 then [packByte 0x21, packByte 0x43] else []
  fed t := by
    cases t with
    | zero => exact List.nil_prefix
    | succ t =>
      rw [List.range_succ_eq_map, List.flatMap_cons, List.flatMap_map]
      simp [Batch.words]
  common := LptHardware.reset
  inverted := true
  rest _ := 0
  cycle i :=
    if i = 0 then 0 else if i ≤ n then 5 else if i ≤ n + 2 then 15
    else if i ≤ n + 4 then 30 else 40

theorem twoBytes_on (n i : Nat) : (twoBytes n).on i =
    if i = 0 then 0 else if i ≤ n then 1 else if i ≤ n + 2 then 2
      else if i ≤ n + 4 then 3 else 4 := by
  simp only [on, sender, twoBytes]
  split_ifs <;> decide +kernel

section TwoBytes

variable {n i : Nat}

theorem twoBytes_on_low (h : 0 < i ∧ i ≤ n) : (twoBytes n).on i = 1 := by
  rw [twoBytes_on]
  split_ifs <;> omega

theorem twoBytes_on_high (h : n < i ∧ i ≤ n + 2) : (twoBytes n).on i = 2 := by
  rw [twoBytes_on]
  split_ifs <;> omega

theorem twoBytes_on_next (h : n + 2 < i ∧ i ≤ n + 4) : (twoBytes n).on i = 3 := by
  rw [twoBytes_on]
  split_ifs <;> omega

theorem twoBytes_on_last (h : n + 4 < i) : (twoBytes n).on i = 4 := by
  rw [twoBytes_on]
  split_ifs <;> omega

theorem twoBytes_polled (hn : 2 ≤ n) : (twoBytes n).Polled where
  mono i j hij := by
    simp only [twoBytes]
    split_ifs <;> omega
  idle := by rw [twoBytes_on, if_pos rfl]
  poll k hk hk' := by
    have hk' : k ≤ 4 := hk'
    obtain rfl | rfl | rfl | rfl : k = 1 ∨ k = 2 ∨ k = 3 ∨ k = 4 := by omega
    · exact ⟨1, twoBytes_on_low (by omega), twoBytes_on_low (by omega)⟩
    · exact ⟨n + 1, twoBytes_on_high (by omega), twoBytes_on_high (by omega)⟩
    · exact ⟨n + 3, twoBytes_on_next (by omega), twoBytes_on_next (by omega)⟩
    · exact ⟨n + 5, twoBytes_on_last (by omega), twoBytes_on_last (by omega)⟩

/-- Two reads of the low nibble are prompt. -/
theorem twoBytes_timely {k : Nat} (hk : k ≠ 4) : (twoBytes 2).Timely k := by
  intro i _ _
  have hpos : 6 < POLLS := by decide
  rw [twoBytes_on_last (by omega)]
  exact hk.symm

end TwoBytes

/-- A pump's variables, and a machine about to use it. -/
def pump : LptNibble := ⟨0x0700, 100⟩

def user : Machine Unit Cable where
  ax := 0
  bx := 0
  cx := 0
  dx := 0
  si := 0
  di := 0
  cs := 0
  ds := 0
  es := 0
  cf := false
  zf := false
  stk := []
  mem := fun _ => 0
  got := []
  dos := ()
  io := ⟨fun _ => 0, 0⟩

theorem lossless_twoBytes :
    (∀ calls, received pump calls (pump.initLptControl { user with io := (twoBytes 2).cable 0 }) <+:
      (twoBytes 2).bytes) ∧
    (∃ calls, received pump calls (pump.initLptControl { user with io := (twoBytes 2).cable 0 }) =
      (twoBytes 2).bytes) ∧
    ((twoBytes 2).on POLLS ≠ 0 → (∀ k, k < 2 * (twoBytes 2).bytes.length → (twoBytes 2).Timely k) →
      received pump (twoBytes 2).bytes.length
        (pump.initLptControl { user with io := (twoBytes 2).cable 0 }) = (twoBytes 2).bytes) :=
  lossless (twoBytes 2) (twoBytes_polled (by decide))
    (fun _ hk => twoBytes_timely (by omega)) pump user

/-- A call that polls the low nibble for its whole budget gives it up, and the
next call takes the high nibble for the low one of its byte. -/
theorem late_nibble_misread :
    (twoBytes (2 + POLLS)).Polled ∧ (twoBytes (2 + POLLS)).bytes = [0x21, 0x43] ∧
    received pump 2 (pump.initLptControl { user with io := (twoBytes (2 + POLLS)).cable 0 }) =
      [0x32] := by
  generalize hs : twoBytes (2 + POLLS) = s
  have hpolled : s.Polled := hs ▸ twoBytes_polled (by omega)
  have hlow : ∀ i, 0 < i → i ≤ 2 + POLLS → s.on i = 1 := fun i h h' => hs ▸ twoBytes_on_low ⟨h, h'⟩
  have hhigh : ∀ i, 2 + POLLS < i → i ≤ 4 + POLLS → s.on i = 2 :=
    fun i h h' => hs ▸ twoBytes_on_high ⟨h, by omega⟩
  have hnext : ∀ i, 4 + POLLS < i → i ≤ 6 + POLLS → s.on i = 3 :=
    fun i h h' => hs ▸ twoBytes_on_next ⟨by omega, by omega⟩
  have hbytes : s.bytes = [0x21, 0x43] := by rw [← hs]; rfl
  have hpos : 0 < POLLS := by decide
  refine ⟨hpolled, hbytes, ?_⟩
  have hready := hpolled.init_ready (v := pump) user
  -- The first call takes the low nibble, and polls it to the end of its budget.
  have hstatus : s.status 2 &&& STAT_PHASE = phase s.inverted 1 := by
    rw [s.status_phase, hlow 2 (by decide) (by omega)]
  have htake (p : Word) := pollNibble_take p (s := s) (k := 0) (hlow 1 (by decide) (by omega))
    (hlow 2 (by decide) (by omega)) hpos
  have hstays (p : Word) := pollNibble_stays p (s := s) (k := 1) (i := 3) (n := POLLS) fun j h h' =>
    hlow j (by omega) (by omega)
  rw [← hstatus] at hstays
  obtain ⟨hcf, hio, hlast, -⟩ :=
    recv_of_poll hready.io hready.last (pollByte_late (htake _) (hstays _))
  -- The second takes the high nibble of the first byte, and the low one of the next.
  have hhi : s.on (3 + POLLS + 1) = 2 := hhigh _ (by omega) (by omega)
  have hlo : s.on (3 + POLLS + 2 + 1) = 3 := hnext _ (by omega) (by omega)
  have hstatus' : s.status (3 + POLLS + 1) &&& STAT_PHASE = phase s.inverted 2 := by
    rw [s.status_phase, hhi]
  have htake' (p : Word) :=
    pollNibble_take p (s := s) (k := 1) (hhigh (3 + POLLS) (by omega) (by omega)) hhi hpos
  have htake'' (p : Word) :=
    pollNibble_take p (s := s) (k := 2) (hnext (3 + POLLS + 2) (by omega) (by omega)) hlo hpos
  rw [← hstatus'] at htake''
  obtain ⟨hcf', -, -, hax⟩ :=
    recv_of_poll hio (hlast.trans hstatus) (pollByte_some (htake' _) (htake'' _))
  have hbyte := hax _ rfl
  rw [status_high (j := 0) (b := 0x21) (by rw [hbytes]; rfl) hhi,
    status_low (j := 1) (b := 0x43) (by rw [hbytes]; rfl) hlo] at hbyte
  simp only [received, hcf, hcf', hbyte]
  rfl

end Session

end VintageKvm.Link
