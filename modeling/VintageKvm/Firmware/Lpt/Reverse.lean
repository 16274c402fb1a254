import VintageKvm.Firmware.Lpt.Cycles

/-!
# Bytes to a host that asks for them

`lpt_byte_rev` and `lpt_ecp_rev` put a byte on the data lines and pulse a side
pin low once the host has pulled its request line low; the next byte waits
until the host has let go of the line. `Asked` is such a state machine with the
words that come to it and with a host that latches the data lines where the
side pin falls. Whatever the host does with its line and whenever words come,
it latches each byte once and in order, and none it has not asked for
(`Asked.reverse_delivers`).
-/

namespace VintageKvm.Firmware.Lpt

/-- The two programs. -/
inductive Rev where
  | byte | ecp
  deriving DecidableEq

namespace Rev

/-- D0 to D7. -/
abbrev dataPins : List Nat := [12, 13, 14, 15, 16, 17, 18, 19]

/-- SM1 as `PioByteRev::new` and `PioEcpRev::new` set it up on the boot-time
pins. -/
def setup : Rev → Setup
  | .byte => { program := byteRevProgram, outPins := dataPins, inPins := [20], sidePins := [23] }
  | .ecp => { program := ecpRevProgram, outPins := dataPins, sidePins := [23] }

theorem byte_setup {load : Loader} {common common' : Board} {sm1 : StateMachine 1}
    {dma : DmaChannel 4} {phy : PioByteRev}
    (h : PioByteRev.new load common sm1 dma {} = .ok (phy, common')) :
    phy.sm1 = ⟨some (setup .byte).toConfig, true⟩ := by
  cases hload : load common.instructionsUsed byteRevProgram.length <;>
    simp only [PioByteRev.new, Board.start, Board.loadProgram, Board.setPins, Board.setPinDirs,
      hload, bind, Except.bind, pure, Except.pure] at h
  · cases h
  · cases h
    rfl

theorem ecp_setup {load : Loader} {common common' : Board} {sm1 : StateMachine 1}
    {dma : DmaChannel 4} {phy : PioEcpRev}
    (h : PioEcpRev.new load common sm1 dma {} = .ok (phy, common')) :
    phy.sm1 = ⟨some (setup .ecp).toConfig, true⟩ := by
  cases hload : load common.instructionsUsed ecpRevProgram.length <;>
    simp only [PioEcpRev.new, Board.start, Board.loadProgram, Board.setPins, Board.setPinDirs,
      hload, bind, Except.bind, pure, Except.pure] at h
  · cases h
  · cases h
    rfl

/-- How long the pulse goes on after its first cycle. -/
def hold : Rev → Nat
  | .byte => 4
  | .ecp => 2

/-- Where the program waits for the request, and where it drives the data
lines. -/
def fallAt : Rev → Nat
  | .byte => 1
  | .ecp => 2

def outAt : Rev → Nat
  | .byte => 2
  | .ecp => 1

/-! ## The lines -/

/-- The side pin. -/
def ack (levels : Nat → Level) : Level := levels 23

/-- The byte on the data lines. -/
def dataOf (levels : Nat → Level) : Byte := (Pio.sampled levels dataPins 8).setWidth 8

/-- The side pin at a level. -/
def sided (l : Level) (levels : Nat → Level) (p : Nat) : Level := if p ∈ [23] then l else levels p

/-- The data lines driven with the low bits of a word. -/
def driven (w : DWord) (levels : Nat → Level) (p : Nat) : Level :=
  match dataPins.idxOf? p with
  | some i => if w.getLsbD i then .high else .low
  | none => levels p

theorem dataOf_driven (w : DWord) (levels : Nat → Level) :
    dataOf (driven w levels) = w.setWidth 8 := by
  have hbit : ∀ i < 8, decide (driven w levels (dataPins.getD i 0) = .high) = w.getLsbD i := by
    intro i hi
    have hpin : ∀ i < 8, dataPins.idxOf? (dataPins.getD i 0) = some i := by decide
    have hlevel : ∀ b : Bool, decide ((if b then Level.high else Level.low) = .high) = b := by
      decide
    rw [driven, hpin i hi]
    exact hlevel _
  rw [dataOf, Pio.sampled_eq (by decide) w hbit]
  exact BitVec.setWidth_setWidth_of_le _ (by decide)

/-! ## The five instructions -/

variable (k : Rev) (gpio : Nat → Level) {sm : Pio}

theorem cycle_pull (hpc : sm.pc = 0) (hd : sm.delay = 0) : sm.cycle k.setup gpio = match sm.tx with
    | [] => { sm with levels := sided .high sm.levels }
    | w :: tx => { sm with pc := 1, osr := w, tx := tx, levels := sided .high sm.levels } := by
  obtain ⟨pc, delay, x, osr, isr, isrCount, rx, tx, levels⟩ := sm
  obtain rfl : pc = 0 := hpc
  obtain rfl : delay = 0 := hd
  cases k <;> cases tx <;> rfl

theorem cycle_fall (hpc : sm.pc = k.fallAt) (hd : sm.delay = 0) : sm.cycle k.setup gpio =
    if gpio 20 = .low then { sm with pc := k.fallAt + 1, levels := sided .high sm.levels }
    else { sm with levels := sided .high sm.levels } := by
  obtain ⟨pc, delay, x, osr, isr, isrCount, rx, tx, levels⟩ := sm
  obtain rfl : pc = k.fallAt := hpc
  obtain rfl : delay = 0 := hd
  cases k <;> rfl

theorem cycle_out (hpc : sm.pc = k.outAt) (hd : sm.delay = 0) : sm.cycle k.setup gpio =
    { sm with
      pc := k.outAt + 1, osr := sm.osr >>> 8,
      levels := driven sm.osr (sided .high sm.levels) } := by
  obtain ⟨pc, delay, x, osr, isr, isrCount, rx, tx, levels⟩ := sm
  obtain rfl : pc = k.outAt := hpc
  obtain rfl : delay = 0 := hd
  cases k <;> rfl

theorem cycle_pulse (hpc : sm.pc = 3) (hd : sm.delay = 0) : sm.cycle k.setup gpio =
    { sm with pc := 4, delay := k.hold, levels := sided .low sm.levels } := by
  obtain ⟨pc, delay, x, osr, isr, isrCount, rx, tx, levels⟩ := sm
  obtain rfl : pc = 3 := hpc
  obtain rfl : delay = 0 := hd
  cases k <;> rfl

theorem cycle_rise (hpc : sm.pc = 4) (hd : sm.delay = 0) : sm.cycle k.setup gpio =
    if gpio 20 = .high then { sm with pc := 0, levels := sided .high sm.levels }
    else { sm with levels := sided .high sm.levels } := by
  obtain ⟨pc, delay, x, osr, isr, isrCount, rx, tx, levels⟩ := sm
  obtain rfl : pc = 4 := hpc
  obtain rfl : delay = 0 := hd
  cases k <;> rfl

end Rev

/-! ## With the host -/

open Rev

/-- The state machine, and the host at the other end of its lines. -/
structure Asked where
  sm : Pio
  /-- The words that have come, of those that `send_byte` and `send_bytes` gave
  the DMA channel. -/
  fed : List DWord
  /-- The request line in the last cycle. -/
  request : Level
  /-- How often it has fallen. -/
  requests : Nat
  /-- The data lines where the side pin fell. -/
  latched : List Byte

namespace Asked

variable (k : Rev) (s : Asked)

/-- The pins as `new` leaves them. -/
def start (common : Board) : Asked where
  sm := .start (common.setPins .high [23] |>.setPins .low dataPins).pinLevels
  fed := []
  request := .high
  requests := 0
  latched := []

def feed (words : List DWord) : Asked :=
  { s with sm := { s.sm with tx := s.sm.tx ++ words }, fed := s.fed ++ words }

/-- The host's line. -/
def line (level : Level) : Asked :=
  { s with
    request := level,
    requests := if s.request = .high ∧ level = .low then s.requests + 1 else s.requests }

/-- The state machine's cycle. -/
def tick (gpio : Nat → Level) : Asked :=
  let sm := s.sm.cycle k.setup gpio
  { s with
    sm
    latched := if ack s.sm.levels = .high ∧ ack sm.levels = .low then
      s.latched ++ [dataOf sm.levels] else s.latched }

/-- A cycle with the levels of the GPIOs and the words that come in it. -/
def step (input : (Nat → Level) × List DWord) : Asked :=
  ((s.feed input.2).line (input.1 20)).tick k input.1

def run (common : Board) (inputs : List ((Nat → Level) × List DWord)) : Asked :=
  inputs.foldl (step k) (start common)

/-- The host's line is low only if it asks for one more. -/
def Asks : Prop := s.request = .low → s.latched.length < s.requests

/-- Where the program is, when the bytes of some words have been latched. -/
inductive Stage : Prop
  | pull : s.sm.pc = 0 → s.sm.delay = 0 → ack s.sm.levels = .high →
    s.sm.tx = s.fed.drop s.latched.length → s.Asks → Stage
  | pulled {w : DWord} : s.sm.pc = 1 → s.sm.delay = 0 → ack s.sm.levels = .high →
    s.sm.tx = s.fed.drop (s.latched.length + 1) → s.fed[s.latched.length]? = some w → s.sm.osr = w →
    s.Asks → Stage
  /-- The program of byte mode has seen the request. -/
  | asked {w : DWord} : k = .byte → s.sm.pc = 2 → s.sm.delay = 0 → ack s.sm.levels = .high →
    s.sm.tx = s.fed.drop (s.latched.length + 1) → s.fed[s.latched.length]? = some w → s.sm.osr = w →
    s.latched.length < s.requests → Stage
  /-- That of ECP has driven the byte. -/
  | driving {w : DWord} : k = .ecp → s.sm.pc = 2 → s.sm.delay = 0 → ack s.sm.levels = .high →
    s.sm.tx = s.fed.drop (s.latched.length + 1) → s.fed[s.latched.length]? = some w →
    dataOf s.sm.levels = w.setWidth 8 → s.Asks → Stage
  | ready {w : DWord} : s.sm.pc = 3 → s.sm.delay = 0 → ack s.sm.levels = .high →
    s.sm.tx = s.fed.drop (s.latched.length + 1) → s.fed[s.latched.length]? = some w →
    dataOf s.sm.levels = w.setWidth 8 → s.latched.length < s.requests → Stage
  | pulse : s.sm.pc = 4 → s.sm.delay ≤ k.hold → ack s.sm.levels = .low →
    s.sm.tx = s.fed.drop s.latched.length →
    s.latched.getLast? = some (dataOf s.sm.levels) → Stage
  | release : s.sm.pc = 4 → s.sm.delay = 0 → ack s.sm.levels = .high →
    s.sm.tx = s.fed.drop s.latched.length → Stage

/-- The bytes latched are those of the first words, no more than were asked
for. -/
structure Delivers : Prop where
  le : s.latched.length ≤ s.fed.length
  latched : s.latched = (s.fed.take s.latched.length).map (·.setWidth 8)
  asked : s.latched.length ≤ s.requests
  stage : Stage k s

variable {k s}

theorem Delivers.start (common : Board) : Delivers k (start common) where
  le := Nat.le_refl 0
  latched := rfl
  asked := Nat.le_refl 0
  stage := .pull rfl rfl rfl rfl fun h => nomatch h

theorem Delivers.feed (h : Delivers k s) (words : List DWord) : Delivers k (s.feed words) where
  le := by
    show _ ≤ (s.fed ++ words).length
    rw [List.length_append]
    exact h.le.trans (Nat.le_add_right ..)
  latched := by
    show s.latched = ((s.fed ++ words).take s.latched.length).map _
    rw [List.take_append_of_le_length h.le]
    exact h.latched
  asked := h.asked
  stage := by
    have hdrop {n : Nat} (hn : n ≤ s.fed.length) (htx : s.sm.tx = s.fed.drop n) :
        s.sm.tx ++ words = (s.fed ++ words).drop n := by
      rw [htx, List.drop_append_of_le_length hn]
    have hget {w : DWord} (hw : s.fed[s.latched.length]? = some w) :
        s.latched.length + 1 ≤ s.fed.length ∧ (s.fed ++ words)[s.latched.length]? = some w := by
      have hlt := (List.getElem?_eq_some_iff.mp hw).1
      exact ⟨hlt, (List.getElem?_append_left hlt).trans hw⟩
    cases h.stage with
    | pull hpc hd ha htx hasks => exact .pull hpc hd ha (hdrop h.le htx) hasks
    | pulled hpc hd ha htx hw ho hasks =>
      exact .pulled hpc hd ha (hdrop (hget hw).1 htx) (hget hw).2 ho hasks
    | asked hk hpc hd ha htx hw ho hr =>
      exact .asked hk hpc hd ha (hdrop (hget hw).1 htx) (hget hw).2 ho hr
    | driving hk hpc hd ha htx hw ho hasks =>
      exact .driving hk hpc hd ha (hdrop (hget hw).1 htx) (hget hw).2 ho hasks
    | ready hpc hd ha htx hw ho hr =>
      exact .ready hpc hd ha (hdrop (hget hw).1 htx) (hget hw).2 ho hr
    | pulse hpc hd ha htx hl => exact .pulse hpc hd ha (hdrop h.le htx) hl
    | release hpc hd ha htx => exact .release hpc hd ha (hdrop h.le htx)

theorem Asks.line (h : s.Asks) (hle : s.latched.length ≤ s.requests) (level : Level) :
    (s.line level).Asks := by
  intro hlow
  obtain rfl : level = .low := hlow
  show s.latched.length < if _ then _ else _
  split
  · exact Nat.lt_succ_of_le hle
  · rename_i hnot
    refine h ?_
    cases hr : s.request with
    | low => rfl
    | high => exact absurd ⟨hr, rfl⟩ hnot

theorem requests_le_line (level : Level) : s.requests ≤ (s.line level).requests := by
  show s.requests ≤ if _ then _ else _
  split
  · exact Nat.le_succ _
  · exact Nat.le_refl _

theorem Delivers.line (h : Delivers k s) (level : Level) : Delivers k (s.line level) where
  le := h.le
  latched := h.latched
  asked := h.asked.trans (requests_le_line level)
  stage := by
    cases h.stage with
    | pull hpc hd ha htx hasks => exact .pull hpc hd ha htx (hasks.line h.asked level)
    | pulled hpc hd ha htx hw ho hasks =>
      exact .pulled hpc hd ha htx hw ho (hasks.line h.asked level)
    | asked hk hpc hd ha htx hw ho hr =>
      exact .asked hk hpc hd ha htx hw ho (hr.trans_le (requests_le_line level))
    | driving hk hpc hd ha htx hw ho hasks =>
      exact .driving hk hpc hd ha htx hw ho (hasks.line h.asked level)
    | ready hpc hd ha htx hw ho hr =>
      exact .ready hpc hd ha htx hw ho (hr.trans_le (requests_le_line level))
    | pulse hpc hd ha htx hl => exact .pulse hpc hd ha htx hl
    | release hpc hd ha htx => exact .release hpc hd ha htx

/-- A cycle in which the side pin does not fall. -/
theorem Delivers.still (h : Delivers k s) {gpio : Nat → Level} {sm : Pio}
    (hsm : s.sm.cycle k.setup gpio = sm) (hack : ack s.sm.levels = .low ∨ ack sm.levels = .high)
    (hstage : Stage k { s with sm := sm }) :
    Delivers k (s.tick k gpio) := by
  have htick : s.tick k gpio = { s with sm := sm } := by
    have hno : ¬ (ack s.sm.levels = .high ∧ ack sm.levels = .low) := by
      rintro ⟨hhigh, hlow⟩
      rw [hhigh, hlow] at hack
      exact hack.elim (by decide) (by decide)
    rw [tick, hsm]
    simp only [if_neg hno]
  rw [htick]
  exact ⟨h.le, h.latched, h.asked, hstage⟩

/-- The cycle in which it falls. -/
theorem Delivers.fall (h : Delivers k s) {gpio : Nat → Level} {sm : Pio} {w : DWord}
    (hsm : s.sm.cycle k.setup gpio = sm) (hhigh : ack s.sm.levels = .high)
    (hlow : ack sm.levels = .low) (hpc : sm.pc = 4) (hd : sm.delay ≤ k.hold)
    (htx : sm.tx = s.fed.drop (s.latched.length + 1)) (hw : s.fed[s.latched.length]? = some w)
    (hdata : dataOf sm.levels = w.setWidth 8) (hr : s.latched.length < s.requests) :
    Delivers k (s.tick k gpio) := by
  have htick : s.tick k gpio = { s with sm := sm, latched := s.latched ++ [dataOf sm.levels] } := by
    rw [tick, hsm]
    simp only [if_pos (And.intro hhigh hlow)]
  have hlen : (s.latched ++ [dataOf sm.levels]).length = s.latched.length + 1 := List.length_append
  rw [htick]
  refine ⟨?_, ?_, ?_, .pulse hpc hd hlow ?_ List.getLast?_concat⟩
  · rw [hlen]
    exact (List.getElem?_eq_some_iff.mp hw).1
  · show s.latched ++ [dataOf sm.levels] =
      (s.fed.take (s.latched ++ [dataOf sm.levels]).length).map _
    rw [hlen, List.take_add_one, hw, List.map_append, ← h.latched, hdata]
    rfl
  · rw [hlen]
    exact hr
  · rw [hlen]
    exact htx

theorem Delivers.tick (h : Delivers k s) {gpio : Nat → Level} (hrequest : s.request = gpio 20) :
    Delivers k (s.tick k gpio) := by
  cases h.stage with
  | pull hpc hd ha htx hasks =>
    have hcycle := cycle_pull k gpio hpc hd
    cases hwords : s.sm.tx with
    | nil =>
      rw [hwords] at hcycle htx
      exact h.still hcycle (.inr rfl) (.pull hpc hd rfl htx hasks)
    | cons w tx =>
      rw [hwords] at hcycle htx
      have hw : s.fed[s.latched.length]? = some w := by
        rw [← List.head?_drop, ← htx]
        rfl
      have hrest : tx = s.fed.drop (s.latched.length + 1) := by
        rw [← List.tail_drop, ← htx]
        rfl
      exact h.still hcycle (.inr rfl) (.pulled rfl hd rfl hrest hw rfl hasks)
  | @pulled w hpc hd ha htx hw ho hasks =>
    cases k with
    | byte =>
      have hcycle := cycle_fall .byte gpio hpc hd
      by_cases hlow : gpio 20 = .low
      · rw [if_pos hlow] at hcycle
        exact h.still hcycle (.inr rfl)
          (.asked rfl rfl hd rfl htx hw ho (hasks (hrequest.trans hlow)))
      · rw [if_neg hlow] at hcycle
        exact h.still hcycle (.inr rfl) (.pulled hpc hd rfl htx hw ho hasks)
    | ecp =>
      have hcycle := cycle_out .ecp gpio hpc hd
      refine h.still hcycle (.inr rfl) (.driving rfl rfl hd rfl htx hw ?_ hasks)
      exact (dataOf_driven ..).trans (congrArg _ ho)
  | @asked w hk hpc hd ha htx hw ho hr =>
    subst hk
    have hcycle := cycle_out .byte gpio hpc hd
    refine h.still hcycle (.inr rfl) (.ready rfl hd rfl htx hw ?_ hr)
    exact (dataOf_driven ..).trans (congrArg _ ho)
  | @driving w hk hpc hd ha htx hw ho hasks =>
    subst hk
    have hcycle := cycle_fall .ecp gpio hpc hd
    by_cases hlow : gpio 20 = .low
    · rw [if_pos hlow] at hcycle
      exact h.still hcycle (.inr rfl) (.ready rfl hd rfl htx hw ho (hasks (hrequest.trans hlow)))
    · rw [if_neg hlow] at hcycle
      exact h.still hcycle (.inr rfl) (.driving rfl hpc hd rfl htx hw ho hasks)
  | ready hpc hd ha htx hw ho hr =>
    exact h.fall (cycle_pulse k gpio hpc hd) ha rfl rfl (Nat.le_refl _) htx hw ho hr
  | pulse hpc hle ha htx hl =>
    cases hd : s.sm.delay with
    | succ d =>
      exact h.still (Pio.cycle_delay hd) (.inl ha) (.pulse hpc (show d ≤ k.hold by omega) ha htx hl)
    | zero =>
      have hcycle := cycle_rise k gpio hpc hd
      by_cases hhigh : gpio 20 = .high
      · rw [if_pos hhigh] at hcycle
        exact h.still hcycle (.inr rfl)
          (.pull rfl hd rfl htx fun hlow => nomatch (hrequest.trans hhigh).symm.trans hlow)
      · rw [if_neg hhigh] at hcycle
        exact h.still hcycle (.inr rfl) (.release hpc hd rfl htx)
  | release hpc hd ha htx =>
    have hcycle := cycle_rise k gpio hpc hd
    by_cases hhigh : gpio 20 = .high
    · rw [if_pos hhigh] at hcycle
      exact h.still hcycle (.inr rfl)
        (.pull rfl hd rfl htx fun hlow => nomatch (hrequest.trans hhigh).symm.trans hlow)
    · rw [if_neg hhigh] at hcycle
      exact h.still hcycle (.inr rfl) (.release hpc hd rfl htx)

theorem Delivers.step (h : Delivers k s) (input : (Nat → Level) × List DWord) :
    Delivers k (s.step k input) :=
  ((h.feed input.2).line (input.1 20)).tick rfl

theorem Delivers.run (common : Board) (inputs : List ((Nat → Level) × List DWord)) :
    Delivers k (run k common inputs) := by
  rw [Asked.run]
  generalize hs : Asked.start common = s
  have h : Delivers k s := hs ▸ .start common
  clear hs
  induction inputs generalizing s with
  | nil => exact h
  | cons input inputs ih => exact ih (s.step k input) (h.step input)

theorem run_fed (common : Board) (inputs : List ((Nat → Level) × List DWord)) :
    (run k common inputs).fed = inputs.flatMap (·.2) := by
  suffices h : ∀ s :
    Asked, (inputs.foldl (step k) s).fed = s.fed ++ inputs.flatMap (·.2) from h (start common)
  induction inputs with
  | nil => exact fun s => (List.append_nil _).symm
  | cons input inputs ih =>
    intro s
    rw [List.foldl_cons, ih, List.flatMap_cons, ← List.append_assoc]
    rfl

/-- Whatever the host does with its request line, and whenever words come: what
it latches are the bytes of the first words, each once and in order, no more of
them than it has asked for, and as long as the side pin is low the last of
them stays on the data lines. -/
theorem reverse_delivers (k : Rev) (common : Board) (inputs : List ((Nat → Level) × List DWord)) :
    let s := run k common inputs
    s.latched <+: (inputs.flatMap (·.2)).map (·.setWidth 8) ∧ s.latched.length ≤ s.requests ∧
      (ack s.sm.levels = .low → s.latched.getLast? = some (dataOf s.sm.levels)) := by
  intro s
  have h : Delivers k s := .run common inputs
  refine ⟨?_, h.asked, fun hlow => ?_⟩
  · rw [h.latched, ← run_fed (k := k) common inputs]
    exact (List.take_prefix _ _).map _
  · cases h.stage with
    | pull _ _ ha => exact absurd (ha.symm.trans hlow) (by decide)
    | pulled _ _ ha => exact absurd (ha.symm.trans hlow) (by decide)
    | asked _ _ _ ha => exact absurd (ha.symm.trans hlow) (by decide)
    | driving _ _ _ ha => exact absurd (ha.symm.trans hlow) (by decide)
    | ready _ _ ha => exact absurd (ha.symm.trans hlow) (by decide)
    | pulse _ _ _ _ hl => exact hl
    | release _ _ ha => exact absurd (ha.symm.trans hlow) (by decide)

/-! ## Every request is answered -/

theorem latched_tick (s : Asked) (gpio : Nat → Level) :
    s.latched.length ≤ (s.tick k gpio).latched.length := by
  show _ ≤ (if _ then _ else _ : List Byte).length
  split
  · rw [List.length_append]
    exact Nat.le_add_right ..
  · exact Nat.le_refl _

theorem latched_run (s : Asked) (inputs : List ((Nat → Level) × List DWord)) :
    s.latched.length ≤ (inputs.foldl (step k) s).latched.length := by
  induction inputs generalizing s with
  | nil => exact Nat.le_refl _
  | cons input inputs ih =>
    have htick : s.latched.length ≤ (s.step k input).latched.length :=
      latched_tick ((s.feed input.2).line (input.1 20)) input.1
    exact htick.trans (ih _)

/-- A cycle latches a byte, or leaves the machine `sm` and nothing else new. -/
theorem tick_cases (k : Rev) (s : Asked) (gpio : Nat → Level) :
    s.latched.length < (s.tick k gpio).latched.length ∨
      s.tick k gpio = { s with sm := s.sm.cycle k.setup gpio } := by
  rw [tick]
  dsimp only
  split
  · left
    rw [List.length_append]
    exact Nat.lt_succ_self _
  · exact .inr rfl

theorem latched_pulse {gpio : Nat → Level} (hpc : s.sm.pc = 3) (hd : s.sm.delay = 0)
    (ha : ack s.sm.levels = .high) : s.latched.length < (s.tick k gpio).latched.length := by
  rw [Asked.tick, cycle_pulse k gpio hpc hd]
  show _ < (if ack s.sm.levels = .high ∧ Level.low = .low then _ else _ : List Byte).length
  rw [if_pos ⟨ha, rfl⟩, List.length_append]
  exact Nat.lt_succ_self _

/-- How many cycles it takes the program at most to come to its wait for a
request, while the line is high. -/
def far (k : Rev) (pc delay : Nat) : Nat :=
  match pc with
  | 0 => k.fallAt
  | 1 => k.fallAt - 1
  | 4 => delay + 1 + k.fallAt
  | _ => 0

/-- A cycle nearer to the wait, if it latches nothing. -/
def Nearer (k : Rev) (s s' : Asked) : Prop :=
  s.latched.length < s'.latched.length ∨
    s'.latched = s.latched ∧ s'.fed = s.fed ∧
    far k s'.sm.pc s'.sm.delay ≤ far k s.sm.pc s.sm.delay - 1

theorem Nearer.of_cycle {gpio : Nat → Level} {sm : Pio} {pc delay pc' delay' : Nat}
    (hsm : s.sm.cycle k.setup gpio = sm) (hpc : s.sm.pc = pc) (hd : s.sm.delay = delay)
    (hpc' : sm.pc = pc') (hd' : sm.delay = delay')
    (hfar : far k pc' delay' ≤ far k pc delay - 1) : Nearer k s (s.tick k gpio) := by
  subst hsm hpc hd hpc' hd'
  rcases tick_cases k s gpio with hlt | htick
  · exact .inl hlt
  · rw [htick]
    exact .inr ⟨rfl, rfl, hfar⟩

/-- While the line is high. -/
theorem Delivers.high (h : Delivers k s) {gpio : Nat → Level} (hhigh : gpio 20 = .high)
    (hword : s.latched.length < s.fed.length) : Nearer k s (s.tick k gpio) := by
  have hlow : ¬ gpio 20 = .low := by
    rw [hhigh]
    decide
  cases h.stage with
  | pull hpc hd ha htx hasks =>
    have hcycle := cycle_pull k gpio hpc hd
    rw [htx, List.drop_eq_getElem_cons hword] at hcycle
    exact .of_cycle hcycle hpc hd rfl hd (Nat.le_refl _)
  | pulled hpc hd ha htx hw ho hasks =>
    cases k with
    | byte =>
      have hcycle := cycle_fall .byte gpio hpc hd
      rw [if_neg hlow] at hcycle
      exact .of_cycle hcycle hpc hd hpc hd (by decide)
    | ecp => exact .of_cycle (cycle_out .ecp _ hpc hd) hpc hd rfl hd (Nat.le_refl 0)
  | asked hk hpc hd ha htx hw ho hr =>
    subst hk
    exact .of_cycle (cycle_out .byte _ hpc hd) hpc hd rfl hd (Nat.le_refl 0)
  | driving hk hpc hd ha htx hw ho hasks =>
    subst hk
    have hcycle := cycle_fall .ecp gpio hpc hd
    rw [if_neg hlow] at hcycle
    exact .of_cycle hcycle hpc hd hpc hd (by decide)
  | ready hpc hd ha htx hw ho hr => exact .inl (latched_pulse hpc hd ha)
  | pulse hpc hle ha htx hl =>
    cases hd : s.sm.delay with
    | succ d => exact .of_cycle (Pio.cycle_delay hd) hpc hd hpc rfl (by simp only [far]; omega)
    | zero =>
      have hcycle := cycle_rise k gpio hpc hd
      rw [if_pos hhigh] at hcycle
      exact .of_cycle hcycle hpc hd rfl hd (by simp only [far]; omega)
  | release hpc hd ha htx =>
    have hcycle := cycle_rise k gpio hpc hd
    rw [if_pos hhigh] at hcycle
    exact .of_cycle hcycle hpc hd rfl hd (by simp only [far]; omega)

/-- A cycle nearer to the pulse, if it latches nothing. -/
def Sooner (k : Rev) (s s' : Asked) : Prop :=
  s.latched.length < s'.latched.length ∨
    s'.latched = s.latched ∧ s'.fed = s.fed ∧ far k s'.sm.pc s'.sm.delay = 0 ∧
    s'.sm.pc = s.sm.pc + 1

theorem Sooner.of_cycle {gpio : Nat → Level} {sm : Pio} {pc : Nat}
    (hsm : s.sm.cycle k.setup gpio = sm) (hpc : s.sm.pc = pc)
    (hpc' : sm.pc = pc + 1) (hfar : far k (pc + 1) sm.delay = 0) : Sooner k s (s.tick k gpio) := by
  subst hsm hpc
  rcases tick_cases k s gpio with hlt | htick
  · exact .inl hlt
  · rw [htick]
    refine .inr ⟨rfl, rfl, ?_, hpc'⟩
    rw [← hpc'] at hfar
    exact hfar

/-- While the line is low, from the wait on. -/
theorem Delivers.low (h : Delivers k s) {gpio : Nat → Level} (hlow : gpio 20 = .low)
    (hnear : far k s.sm.pc s.sm.delay = 0) : Sooner k s (s.tick k gpio) := by
  cases h.stage with
  | pull hpc hd ha htx hasks =>
    rw [hpc, far] at hnear
    cases k <;> cases hnear
  | pulled hpc hd ha htx hw ho hasks =>
    cases k with
    | byte =>
      have hcycle := cycle_fall .byte gpio hpc hd
      rw [if_pos hlow] at hcycle
      exact .of_cycle hcycle hpc rfl rfl
    | ecp =>
      rw [hpc] at hnear
      cases hnear
  | asked hk hpc hd ha htx hw ho hr =>
    subst hk
    exact .of_cycle (cycle_out .byte _ hpc hd) hpc rfl rfl
  | driving hk hpc hd ha htx hw ho hasks =>
    subst hk
    have hcycle := cycle_fall .ecp gpio hpc hd
    rw [if_pos hlow] at hcycle
    exact .of_cycle hcycle hpc rfl rfl
  | ready hpc hd ha htx hw ho hr => exact .inl (latched_pulse hpc hd ha)
  | pulse hpc hle ha htx hl =>
    rw [hpc, far] at hnear
    omega
  | release hpc hd ha htx =>
    rw [hpc, far] at hnear
    omega

theorem far_le (h : Delivers k s) : far k s.sm.pc s.sm.delay ≤ 7 := by
  cases h.stage with
  | pulse hpc hle =>
    rw [hpc, far]
    cases k <;> simp only [Rev.hold, Rev.fallAt] at hle ⊢ <;> omega
  | pull hpc | pulled hpc | asked _ hpc | driving _ hpc | ready hpc =>
    rw [hpc]
    cases k <;> simp [far, Rev.fallAt]
  | release hpc hd =>
    rw [hpc, hd]
    cases k <;> decide

theorem pc_le_of_near (h : Delivers k s) (hnear : far k s.sm.pc s.sm.delay = 0) :
    1 ≤ s.sm.pc ∧ s.sm.pc ≤ 3 := by
  cases h.stage with
  | pulled hpc | asked _ hpc | driving _ hpc | ready hpc => omega
  | pull hpc =>
    rw [hpc, far] at hnear
    cases k <;> cases hnear
  | pulse hpc | release hpc =>
    rw [hpc, far] at hnear
    omega

/-- Cycles with the line high bring the program to its wait. -/
theorem high_run (h : Delivers k s) (hword : s.latched.length < s.fed.length)
    {inputs : List ((Nat → Level) × List DWord)} (hhigh : ∀ i ∈ inputs, i.1 20 = .high) :
    s.latched.length < (inputs.foldl (step k) s).latched.length ∨
      (inputs.foldl (step k) s).latched = s.latched ∧
        far k (inputs.foldl (step k) s).sm.pc (inputs.foldl (step k) s).sm.delay ≤
          far k s.sm.pc s.sm.delay - inputs.length := by
  induction inputs generalizing s with
  | nil => exact .inr ⟨rfl, Nat.le_refl _⟩
  | cons input inputs ih =>
    have hline : Delivers k ((s.feed input.2).line (input.1 20)) :=
      (h.feed input.2).line (input.1 20)
    have hword' : s.latched.length < (s.fed ++ input.2).length := by
      rw [List.length_append]
      exact hword.trans_le (Nat.le_add_right ..)
    rw [List.foldl_cons]
    rcases hline.high (hhigh input (List.mem_cons_self ..)) hword' with hlt | ⟨hlatched, hfed, hfar⟩
    · exact .inl (lt_of_lt_of_le hlt (latched_run _ inputs))
    · have hlatched : (s.step k input).latched = s.latched := hlatched
      have hfed : (s.step k input).fed = s.fed ++ input.2 := hfed
      have hfar : far k (s.step k input).sm.pc (s.step k input).sm.delay ≤
          far k s.sm.pc s.sm.delay - 1 := hfar
      have hrest :=
        ih (h.step input) (by rwa [hlatched, hfed]) fun i hi => hhigh i (List.mem_cons_of_mem _ hi)
      rw [hlatched] at hrest
      refine hrest.imp id fun ⟨hsame, hle⟩ => ⟨hsame, ?_⟩
      rw [List.length_cons]
      omega

/-- Cycles with the line low bring it from there to its pulse. -/
theorem low_run (h : Delivers k s) (hnear : far k s.sm.pc s.sm.delay = 0)
    {inputs : List ((Nat → Level) × List DWord)}
    (hlow : ∀ i ∈ inputs, i.1 20 = .low) (hlen : 4 ≤ s.sm.pc + inputs.length) :
    s.latched.length < (inputs.foldl (step k) s).latched.length := by
  induction inputs generalizing s with
  | nil =>
    have hle := (pc_le_of_near h hnear).2
    rw [List.length_nil] at hlen
    omega
  | cons input inputs ih =>
    have hline : Delivers k ((s.feed input.2).line (input.1 20)) :=
      (h.feed input.2).line (input.1 20)
    rw [List.foldl_cons]
    rcases hline.low (hlow input (List.mem_cons_self ..)) hnear with
      hlt | ⟨hlatched, -, hnear', hpc⟩
    · exact lt_of_lt_of_le hlt (latched_run _ inputs)
    · have hlatched : (s.step k input).latched = s.latched := hlatched
      have hpc : (s.step k input).sm.pc = s.sm.pc + 1 := hpc
      rw [List.length_cons] at hlen
      have hrest :=
        ih (h.step input) hnear' (fun i hi => hlow i (List.mem_cons_of_mem _ hi)) (by omega)
      rwa [hlatched] at hrest

/-- No request is left unanswered: when a word has come that is not latched
yet, and the host lets go of its line for seven cycles and pulls it low for
three, it latches another byte. -/
theorem reverse_answers (k : Rev) (common : Board)
    (before high low : List ((Nat → Level) × List DWord))
    (hword : (run k common before).latched.length < (run k common before).fed.length)
    (hhigh : ∀ i ∈ high, i.1 20 = .high)
    (h7 : 7 ≤ high.length) (hlow : ∀ i ∈ low, i.1 20 = .low) (h3 : 3 ≤ low.length) :
    (run k common before).latched.length <
      (run k common (before ++ high ++ low)).latched.length := by
  have hrun : run k common (before ++ high ++ low) =
      low.foldl (step k) (high.foldl (step k) (run k common before)) := by
    rw [run, List.foldl_append, List.foldl_append]
    rfl
  have h : Delivers k (run k common before) := .run common before
  have hthen : Delivers k (high.foldl (step k) (run k common before)) := by
    have hmore : Delivers k (run k common (before ++ high)) := .run common _
    rwa [run, List.foldl_append] at hmore
  have hle := far_le h
  rw [hrun]
  rcases high_run h hword hhigh with hlt | ⟨hsame, hfar⟩
  · exact lt_of_lt_of_le hlt (latched_run _ low)
  · have hnear : far k (high.foldl (step k) (run k common before)).sm.pc (high.foldl (step k)
        (run k common before)).sm.delay = 0 := by
      omega
    have hpc := (pc_le_of_near hthen hnear).1
    have hdone := low_run hthen hnear hlow (by omega)
    rwa [hsame] at hdone

/-- In byte mode, with the byte A5h to send. -/
theorem reverse_answers_byte :
    (run .byte LptHardware.reset [(fun _ => .low, [0xA5])]).latched.length <
      (run .byte LptHardware.reset
        ([(fun _ => .low, [0xA5])] ++ List.replicate 7 (fun _ => .high, []) ++
        List.replicate 3 (fun _ => .low, []))).latched.length :=
  reverse_answers .byte LptHardware.reset _ _ _ (by decide) (by simp) (by decide)
    (by simp) (by decide)

end Asked

end VintageKvm.Firmware.Lpt
