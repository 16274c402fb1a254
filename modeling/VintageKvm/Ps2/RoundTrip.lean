import VintageKvm.Ps2.Tx

/-!
# From the transmitter to the framer

The framer reads DATA at the falling edges of CLK, where the transmitter has
not put the bit on it yet: it gets the level before the frame and all bits but
the last (`waves_heard`). An AT frame so has a start bit of 1, and an XT frame
is the byte sent only if the byte is FFh (`roundTrip_iff`).
-/

namespace VintageKvm.Ps2

namespace Framer

variable {f : Framer} {edge t : Nat}

/-! ## A frame of any length -/

/-- The frame that `n` falling edges give: the eleventh ends one, fewer end
with the timeout. -/
def ending (f : Framer) (n : Nat) : Option Ps2Frame :=
  if AT_BIT_COUNT ≤ n then some (f.buildFrame AT_BIT_COUNT) else f.emitOnTimeout n

variable {init : List Slot} {last : Slot}

/-- Falling edges that are heard, and idle time. -/
theorem Listening.frame (h : Listening f true edge) (hd : GLITCH_THRESHOLD_US ≤ (t - edge) % 2 ^ 32)
    (hne : init ≠ []) (hlen : init.length ≤ 10) (hp : ∀ s ∈ init, s.periodUs < IDLE_TIMEOUT_US)
    (hs : ∀ s ∈ init ++ [last], GLITCH_THRESHOLD_US ≤ s.lowUs ∧ GLITCH_THRESHOLD_US ≤ s.highUs)
    (hlow : last.lowUs < IDLE_TIMEOUT_US) (hidle : IDLE_TIMEOUT_US < last.periodUs) :
    ∃ f' g, f.ingestAll t ((init ++ [last]).flatMap Slot.samples) =
      (f', (g.ending (init.length + 1)).toList) ∧
      Listening f' true (t + (init.flatMap Slot.samples).length + last.lowUs) ∧
      ∃ l e c ws, InFrame g t l e c ((init ++ [last]).map Slot.bit) ws := by
  have hlast := hs last (List.mem_append_right _ (List.mem_singleton_self _))
  obtain ⟨f₁, l, e, ws, e₁, h₁⟩ :=
    h.inits hd hne hlen hp fun s hm => hs s (List.mem_append_left _ hm)
  have hbits : (init.map Slot.bit).length = init.length := List.length_map ..
  obtain ⟨g, hg, e₂⟩ := h₁.frame.fall h₁.order.1 h₁.order.2.1 h₁.order.2.2 (by omega) last.bit
  rw [hbits] at e₂
  rw [List.flatMap_append, List.flatMap_singleton, List.map_append, List.map_singleton]
  by_cases hfull : AT_BIT_COUNT ≤ init.length + 1
  · rw [if_pos hfull] at e₂
    have hquiet : Listening g.resetIdle false (t + (init.flatMap Slot.samples).length) :=
      ⟨rfl, hg.clk, hg.edge⟩
    obtain ⟨f₂, e₃, h₂⟩ := hquiet.rest hlast.2
    refine ⟨f₂, g, ?_, h₂, _, _, _, _, hg⟩
    unfold ending
    rw [if_pos hfull]
    exact ingestAll_trans e₁ rfl (ingestAll_cons e₂ e₃)
  · rw [if_neg hfull] at e₂
    obtain ⟨f₂, g', e', e₃, h₂, he, edge', clk', hg'⟩ := hg.rest_idle hidle hlast.1 hlast.2
    obtain rfl : e' = t + (init.flatMap Slot.samples).length + last.lowUs :=
      (he.resolve_right fun hn => by omega).1
    rw [List.length_append, hbits, List.length_singleton] at e₃
    refine ⟨f₂, g', ?_, h₂, _, _, _, _, hg'⟩
    unfold ending
    rw [if_neg hfull]
    exact ingestAll_trans e₁ rfl (ingestAll_cons e₂ e₃)

/-- A falling edge that comes too soon after the last edge, as 32 bits count,
is missed: the frame begins with the next. -/
theorem Listening.frame_late {s₀ : Slot} (h : Listening f true edge)
    (hd : ¬ GLITCH_THRESHOLD_US ≤ (t - edge) % 2 ^ 32)
    (hne : init ≠ []) (hlen : init.length ≤ 10) (hp : ∀ s ∈ init, s.periodUs < IDLE_TIMEOUT_US)
    (hs : ∀ s ∈ init ++ [last], GLITCH_THRESHOLD_US ≤ s.lowUs ∧ GLITCH_THRESHOLD_US ≤ s.highUs)
    (hlow : last.lowUs < IDLE_TIMEOUT_US) (hidle : IDLE_TIMEOUT_US < last.periodUs)
    (hs₀ : GLITCH_THRESHOLD_US ≤ s₀.highUs) (hp₀ : s₀.periodUs < IDLE_TIMEOUT_US) :
    ∃ f' g, f.ingestAll t ((s₀ :: init ++ [last]).flatMap Slot.samples) =
      (f', (g.ending (init.length + 1)).toList) ∧
      Listening f' true (t + ((s₀ :: init).flatMap Slot.samples).length + last.lowUs) ∧
      ∃ start l e c ws, InFrame g start l e c ((init ++ [last]).map Slot.bit) ws := by
  obtain ⟨f₁, e₁, h₁⟩ := h.missed (Nat.not_le.mp hd) s₀.bit
  obtain ⟨f₂, e₂, h₂⟩ := h₁.rest (t := t) hs₀
  have hperiod : s₀.periodUs = s₀.lowUs + s₀.highUs := rfl
  have hd' : GLITCH_THRESHOLD_US ≤ (t + s₀.periodUs - (t + s₀.lowUs)) % 2 ^ 32 := by
    rw [hperiod, ← Nat.add_assoc, Nat.add_sub_cancel_left]
    have : 4 ≤ s₀.highUs := hs₀
    have : s₀.periodUs < 200 := hp₀
    show 4 ≤ _
    omega
  obtain ⟨f₃, g, e₃, h₃, hg⟩ := h₂.frame hd' hne hlen hp hs hlow hidle
  refine ⟨f₃, g, ?_, ?_, _, hg⟩
  · rw [List.cons_append, List.flatMap_cons]
    exact ingestAll_trans (ingestAll_cons e₁ e₂) (congrArg (t + ·) s₀.length_samples) e₃
  · rw [List.flatMap_cons, List.length_append, Slot.length_samples, ← Nat.add_assoc]
    exact h₃

end Framer

namespace Tx

/-! ## The wire as bits -/

/-- A bit on the wire, DATA `p` before; CLK is high for `high` microseconds. -/
def bitSlot (p b : Bool) (high : Nat) : Slot :=
  ⟨p, List.replicate 39 p ++ List.replicate 10 b, List.replicate high b⟩

/-- Bits that another bit follows. -/
def bitSlots : Bool → List Bool → List Slot
  | _, [] => []
  | p, b :: bits => bitSlot p b 60 :: bitSlots b bits

/-- A frame whose last bit is `b`, and `after` microseconds after it. -/
def frameSlots (p : Bool) (init : List Bool) (b : Bool) (after : Nat) : List Slot :=
  bitSlots p init ++ [bitSlot (lastLevel p init) b (50 + after)]

theorem bitSlot_samples (p b : Bool) (high : Nat) : (bitSlot p b high).samples =
    List.replicate 40 (false, p) ++
      (List.replicate 10 (false, b) ++ List.replicate high (true, b)) := by
  unfold bitSlot Slot.samples
  rw [List.map_append, List.map_replicate, List.map_replicate, List.map_replicate,
    List.replicate_succ (n := 39), List.cons_append, List.cons_append, List.append_assoc]

theorem lastLevel_concat (p : Bool) (init : List Bool) (b : Bool) :
    lastLevel p (init ++ [b]) = b := by
  induction init generalizing p with
  | nil => rfl
  | cons c init ih => exact ih c

/-- The loop of the program, as bits that begin with a falling edge. -/
theorem loopSamples_eq (p : Bool) (init : List Bool) (b : Bool) (after : Nat) :
    loopSamples p (init ++ [b]) ++ List.replicate after (true, b) =
      List.replicate 10 (true, p) ++ (frameSlots p init b after).flatMap Slot.samples := by
  induction init generalizing p with
  | nil =>
    unfold frameSlots
    simp only [bitSlots, lastLevel, List.nil_append, loopSamples, List.flatMap_singleton,
      bitSlot_samples, List.append_assoc, List.replicate_append_replicate]
    rw [show 40 + (10 + after) = 50 + after by omega]
  | cons c init ih =>
    have hrest := ih c
    unfold frameSlots at hrest ⊢
    rw [List.cons_append, loopSamples, bitSlots, List.cons_append, List.flatMap_cons,
      bitSlot_samples]
    simp only [List.append_assoc, lastLevel]
    rw [hrest, ← List.append_assoc (List.replicate 10 (true, c)), List.replicate_append_replicate,
      ← List.append_assoc (List.replicate 40 (true, c)), List.replicate_append_replicate]

theorem map_bit_bitSlots (p : Bool) (bits : List Bool) :
    (bitSlots p bits).map Slot.bit ++ [lastLevel p bits] = p :: bits := by
  induction bits generalizing p with
  | nil => rfl
  | cons b bits ih =>
    rw [bitSlots, List.map_cons, lastLevel, List.cons_append, ih]
    rfl

/-- The framer's bits: the level before the frame, and all bits but the last. -/
theorem map_bit_frameSlots (p : Bool) (init : List Bool) (b : Bool) (after : Nat) :
    (frameSlots p init b after).map Slot.bit = p :: init := by
  unfold frameSlots
  rw [List.map_append]
  exact map_bit_bitSlots p init

theorem length_bitSlots (p : Bool) (bits : List Bool) : (bitSlots p bits).length = bits.length := by
  induction bits generalizing p with
  | nil => rfl
  | cons b bits ih => rw [bitSlots, List.length_cons, List.length_cons, ih]

theorem lowUs_bitSlot (p b : Bool) (high : Nat) : (bitSlot p b high).lowUs = 50 := by
  unfold bitSlot Slot.lowUs
  rw [List.length_append, List.length_replicate, List.length_replicate]

theorem highUs_bitSlot (p b : Bool) (high : Nat) : (bitSlot p b high).highUs = high :=
  List.length_replicate

theorem mem_bitSlots {p : Bool} {bits : List Bool} {s : Slot} (h : s ∈ bitSlots p bits) :
    ∃ p b, s = bitSlot p b 60 := by
  induction bits generalizing p with
  | nil => cases h
  | cons b bits ih =>
    obtain rfl | h := List.mem_cons.mp h
    · exact ⟨p, b, rfl⟩
    · exact ih h

theorem periodUs_bitSlots {p : Bool} {bits : List Bool} {s : Slot} (h : s ∈ bitSlots p bits) :
    s.periodUs < IDLE_TIMEOUT_US := by
  obtain ⟨p, b, rfl⟩ := mem_bitSlots h
  unfold Slot.periodUs
  rw [lowUs_bitSlot, highUs_bitSlot]
  decide

theorem phases_frameSlots {p : Bool} {init : List Bool} {b : Bool} {after : Nat} {s : Slot}
    (h : s ∈ frameSlots p init b after) :
    GLITCH_THRESHOLD_US ≤ s.lowUs ∧ GLITCH_THRESHOLD_US ≤ s.highUs := by
  obtain h | h := List.mem_append.mp h
  · obtain ⟨p, b, rfl⟩ := mem_bitSlots h
    rw [lowUs_bitSlot, highUs_bitSlot]
    decide
  · rw [List.mem_singleton.mp h, lowUs_bitSlot, highUs_bitSlot]
    exact ⟨by decide, Nat.le_trans (by decide) (Nat.le_add_right 50 after)⟩

/-- All bits of a byte's frame but the last. -/
def Format.init : Format → Byte → List Bool
  | at_, byte => false :: byteBits byte ++ [parityBit byte]
  | xt, byte => true :: (List.range 7).map byte.getLsbD

def Format.last : Format → Byte → Bool
  | at_, _ => true
  | xt, byte => byte.getLsbD 7

theorem Format.bits_eq (format : Format) (byte : Byte) :
    format.bits byte = format.init byte ++ [format.last byte] := by
  cases format <;> rfl

/-- The time that CLK is high before the first falling edge. -/
def lead : List (Nat × Byte) → Nat → Nat
  | [], tail => tail
  | (idle, _) :: _, _ => idle + 20

/-- The wire from the first falling edge on. -/
def waves (format : Format) : Bool → List (Nat × Byte) → Nat → List (Bool × Bool)
  | _, [], _ => []
  | p, (_, byte) :: sends, tail =>
    (frameSlots p (format.init byte) (format.last byte) (20 + lead sends tail)).flatMap
      Slot.samples ++ waves format (format.last byte) sends tail

theorem wire_eq (format : Format) {s : Sm} {p : Bool} (h : Ready s p) (sends : List (Nat × Byte))
    (tail : Nat) : wire format s sends tail = List.replicate (lead sends tail) (true, p) ++
      waves format p sends tail := by
  induction sends generalizing s p with
  | nil =>
    rw [wire, lead, waves, List.append_nil, h.clk, h.data]
  | cons send sends ih =>
    obtain ⟨idle, byte⟩ := send
    obtain ⟨s', hrun, hs'⟩ := run_send format h byte
    rw [format.bits_eq, lastLevel_concat] at hs'
    have hframe := loopSamples_eq p (format.init byte) (format.last byte) (20 + lead sends tail)
    rw [wire]
    simp only [hrun]
    rw [ih hs', frameSamples, format.bits_eq, lastLevel_concat, h.clk, h.data, lead, waves]
    calc List.replicate idle (true, p) ++ (List.replicate 10 (true, p) ++
          (loopSamples p (format.init byte ++ [format.last byte]) ++ List.replicate 20 (true,
            format.last byte))) ++
          (List.replicate (lead sends tail) (true, format.last byte) ++
            waves format (format.last byte) sends tail)
        = List.replicate idle (true, p) ++ (List.replicate 10 (true, p) ++
          (loopSamples p (format.init byte ++ [format.last byte]) ++
            List.replicate (20 + lead sends tail) (true, format.last byte))) ++
          waves format (format.last byte) sends tail := by
          simp only [List.append_assoc, ← List.replicate_append_replicate]
      _ = List.replicate (idle + (10 + 10)) (true, p) ++
          ((frameSlots p (format.init byte) (format.last byte) (20 + lead sends tail)).flatMap
            Slot.samples ++ waves format (format.last byte) sends tail) := by
          rw [hframe]
          simp only [List.append_assoc, ← List.replicate_append_replicate]

/-! ## What is heard -/

/-- The frame of a byte. -/
structure Good (format : Format) (byte : Byte) (frame : Ps2Frame) : Prop where
  kind : frame.kind = match format with
    | .at_ => .at_
    | .xt => .xt
  data : frame.data = byte
  parity : frame.parityOk = true
  framing : frame.framingOk = true

open Framer

section

variable {f g : Framer} {edge t start last e : Nat} {clk p : Bool} {widths : List Nat} {byte : Byte}

/-- Eleven bits that begin with 1. -/
theorem not_good_at {bits : List Bool} (h : InFrame g start last edge clk (true :: bits) widths)  :
    ¬ Good .at_ byte (g.buildFrame AT_BIT_COUNT) := by
  intro hg
  have hframing : (!g.assembled.getLsbD 0 && g.assembled.getLsbD 10) = true := hg.framing
  rw [h.assembled 0] at hframing
  cases hframing

theorem not_good_invalid (format : Format) : ¬ Good format byte g.buildFrameInvalid :=
  fun hg => absurd (show false = true from hg.parity) (by decide)

/-- Fewer bits than a frame has. -/
theorem ending_invalid (g : Framer) {n : Nat} (h0 : 0 < n) (h : n < AT_BIT_COUNT)
    (h9 : n = XT_BIT_COUNT → g.assembled.getLsbD 0 = false) :
    g.ending n = some g.buildFrameInvalid := by
  unfold ending emitOnTimeout
  rw [if_neg (Nat.not_le.mpr h), if_neg (Nat.not_le.mpr h), if_neg, if_pos h0]
  rintro ⟨hn, h1⟩
  rw [h9 hn] at h1
  cases h1

theorem byteBits_shifted (byte : Byte) :
    byteBits (byte <<< 1 ||| 1) = true :: (List.range 7).map byte.getLsbD := by
  revert byte
  decide +kernel

theorem shifted_eq_iff (byte : Byte) : byte <<< 1 ||| 1 = byte ↔ byte = 0xFF := by
  revert byte
  decide +kernel

/-- Nine bits that begin with 1: an XT frame, its data one place late. -/
theorem good_xt_iff (h : InFrame g start last edge clk (true :: Format.xt.init byte) widths) :
    g.ending XT_BIT_COUNT = some (g.buildFrame XT_BIT_COUNT) ∧
      (Good .xt byte (g.buildFrame XT_BIT_COUNT) ↔ byte = 0xFF) := by
  have hbits : true :: Format.xt.init byte = true :: (byteBits (byte <<< 1 ||| 1) ++ []) := by
    rw [List.append_nil, byteBits_shifted]
    rfl
  have hdata : g.dataBits = byte <<< 1 ||| 1 := InFrame.dataBits (hbits ▸ h)
  refine ⟨?_, fun hg => ?_, fun hff => ?_⟩
  · unfold ending
    rw [if_neg (by decide)]
    exact h.emitOnTimeout_xt rfl
  · rw [← shifted_eq_iff, ← hdata]
    exact hg.data
  · exact ⟨rfl, hdata.trans ((shifted_eq_iff byte).mpr hff), rfl, h.assembled 0⟩

/-- The bits of a frame that the framer hears: it misses a first falling edge
that is a glitch to 32 bits. -/
def heardBits (p : Bool) (init : List Bool) (high : Nat) : List Bool :=
  if GLITCH_THRESHOLD_US ≤ high % 2 ^ 32 then p :: init else init

theorem ingestAll_frameSlots {init : List Bool} (b : Bool) (after : Nat)
    (hlen : 2 ≤ init.length ∧ init.length ≤ 10) (hafter : 100 < after) (h : Listening f true edge) :
    ∃ f' g e, f.ingestAll t ((frameSlots p init b after).flatMap Slot.samples) =
        (f', (g.ending (heardBits p init (t - edge)).length).toList) ∧ Listening f' true e ∧
      t + ((frameSlots p init b after).flatMap Slot.samples).length = e + 50 + after ∧
      ∃ start l e c ws, InFrame g start l e c (heardBits p init (t - edge)) ws := by
  have hlow : (bitSlot (lastLevel p init) b (50 + after)).lowUs < IDLE_TIMEOUT_US := by
    rw [lowUs_bitSlot]
    decide
  have hidle : IDLE_TIMEOUT_US < (bitSlot (lastLevel p init) b (50 + after)).periodUs := by
    unfold Slot.periodUs
    rw [lowUs_bitSlot, highUs_bitSlot]
    show 200 < _
    omega
  have htime : t + ((frameSlots p init b after).flatMap Slot.samples).length =
      t + ((bitSlots p init).flatMap Slot.samples).length +
        (bitSlot (lastLevel p init) b (50 + after)).lowUs + 50 + after := by
    unfold frameSlots
    rw [List.flatMap_append, List.flatMap_singleton, List.length_append, Slot.length_samples,
      Slot.periodUs, highUs_bitSlot]
    omega
  obtain ⟨c, cs, rfl⟩ : ∃ c cs, init = c :: cs := List.exists_cons_of_length_pos (by omega)
  rw [List.length_cons] at hlen
  unfold heardBits
  by_cases hd : GLITCH_THRESHOLD_US ≤ (t - edge) % 2 ^ 32
  · have hne : bitSlots p (c :: cs) ≠ [] := List.cons_ne_nil _ _
    obtain ⟨f', g, e₁, h₁, l, e, clk, ws, hg⟩ :=
      h.frame hd hne (by rw [length_bitSlots, List.length_cons]; omega)
      (fun s => periodUs_bitSlots) (fun s => phases_frameSlots) hlow hidle
    rw [length_bitSlots] at e₁
    rw [if_pos hd]
    have hbits := map_bit_frameSlots p (c :: cs) b after
    unfold frameSlots at hbits
    rw [hbits] at hg
    exact ⟨f', g, _, e₁, h₁, htime, _, _, _, _, _, hg⟩
  · have hne : bitSlots c cs ≠ [] := by
      intro e
      have hlen' := length_bitSlots c cs
      rw [e, List.length_nil] at hlen'
      omega
    have hhigh : GLITCH_THRESHOLD_US ≤ (bitSlot p c 60).highUs := by
      rw [highUs_bitSlot]
      decide
    have hperiod : (bitSlot p c 60).periodUs < IDLE_TIMEOUT_US :=
      periodUs_bitSlots (show bitSlot p c 60 ∈ bitSlots p [c] from List.mem_singleton_self _)
    obtain ⟨f', g, e₁, h₁, hg⟩ :=
      h.frame_late hd hne (by rw [length_bitSlots]; omega) (fun s => periodUs_bitSlots)
      (fun s => phases_frameSlots) hlow hidle hhigh hperiod
    rw [length_bitSlots] at e₁
    rw [if_neg hd]
    have hbits := map_bit_frameSlots c cs b after
    unfold frameSlots at hbits
    rw [hbits] at hg
    exact ⟨f', g, _, e₁, h₁, htime, hg⟩

/-- What makes a byte arrive: XT, DATA high before, FFh, and a first falling
edge that is heard. -/
def Arrives (format : Format) (p : Bool) (byte : Byte) (high : Nat) : Prop :=
  format = .xt ∧ p = true ∧ byte = 0xFF ∧ GLITCH_THRESHOLD_US ≤ high % 2 ^ 32

/-- One byte gives one frame. -/
theorem ending_heard (format : Format) (hp : format = .at_ → p = true) {high : Nat} {ws : List Nat}
    (h : InFrame g start last e clk (heardBits p (format.init byte) high) ws) :
    ∃ frame, g.ending (heardBits p (format.init byte) high).length = some frame ∧
      (Good format byte frame ↔ Arrives format p byte high) := by
  unfold heardBits at h ⊢
  unfold Arrives
  by_cases hd : GLITCH_THRESHOLD_US ≤ high % 2 ^ 32
  · rw [if_pos hd] at h ⊢
    cases format with
    | at_ =>
      obtain rfl := hp rfl
      exact ⟨_, rfl, fun hg => absurd hg (not_good_at h), fun ha => absurd ha.1 (by decide)⟩
    | xt =>
      cases p with
      | true =>
        obtain ⟨hend, hgood⟩ := good_xt_iff h
        exact ⟨_, hend, hgood.trans ⟨fun hb => ⟨rfl, rfl, hb, hd⟩, fun ha => ha.2.2.1⟩⟩
      | false =>
        exact ⟨_, ending_invalid g (show 0 < 9 by decide) (show 9 < 11 by decide)
          fun _ => h.assembled 0, fun hg => absurd hg (not_good_invalid .xt),
            fun ha => absurd ha.2.1 (by decide)⟩
  · rw [if_neg hd]
    have hlen : (format.init byte).length = 10 ∨ (format.init byte).length = 8 := by
      cases format
      · exact .inl rfl
      · exact .inr rfl
    have hlt : (format.init byte).length < AT_BIT_COUNT := by
      show _ < 11
      omega
    have hne : (format.init byte).length ≠ XT_BIT_COUNT := by
      show _ ≠ 9
      omega
    exact ⟨_, ending_invalid g (by omega) hlt fun h9 => absurd h9 hne,
      fun hg => absurd hg (not_good_invalid format), fun ha => absurd ha.2.2.2 hd⟩

/-- Every byte of a list arrives; `high` is the time that CLK was high before
the first, less the time that it idled. -/
def AllArrive (format : Format) : Bool → Nat → List (Nat × Byte) → Prop
  | _, _, [] => True
  | p, high, (idle, byte) :: sends =>
    Arrives format p byte (high + idle) ∧ AllArrive format (format.last byte) 90 sends

/-- Every byte gives one frame, in order. -/
theorem ingestAll_sends (format : Format) (hp : format = .at_ → p = true) (high : Nat) {tail : Nat}
    (sends : List (Nat × Byte)) (hspaced : ∀ send ∈ sends.tail, 160 ≤ send.1) (htail : 160 ≤ tail)
    (h : Listening f true edge)
    (ht : t + 20 = edge + high + lead sends tail ∨ sends = []) :
    ∃ f' frames, f.ingestAll t (waves format p sends tail) = (f', frames) ∧
      (List.Forall₂ (fun send frame => Good format send.2 frame) sends frames ↔
        AllArrive format p high sends) := by
  induction sends generalizing f t edge p high with
  | nil => exact ⟨f, [], rfl, fun _ => trivial, fun _ => .nil⟩
  | cons send sends ih =>
    obtain ⟨idle, byte⟩ := send
    have hlead : 160 ≤ lead sends tail := by
      cases sends with
      | nil => exact htail
      | cons next sends => exact Nat.le_add_right_of_le (hspaced next List.mem_cons_self)
    have hinit : 2 ≤ (format.init byte).length ∧ (format.init byte).length ≤ 10 := by
      cases format
      · exact ⟨show 2 ≤ 10 by decide, show 10 ≤ 10 by decide⟩
      · exact ⟨show 2 ≤ 8 by decide, show 8 ≤ 10 by decide⟩
    obtain ⟨f₁, g, e, e₁, h₁, htime, _, _, _, _, _, hg⟩ :=
      ingestAll_frameSlots (p := p) (format.last byte) (20 + lead sends tail) hinit (by omega) h
    obtain ⟨frame, hend, hgood⟩ := ending_heard format hp hg
    rw [hend] at e₁
    have hlast : format = .at_ → format.last byte = true := by
      rintro rfl
      rfl
    obtain ⟨f₂, frames, e₂, hall⟩ :=
      ih hlast 90 (fun s hm => hspaced s (List.mem_of_mem_tail hm)) h₁
      (t :=
        t + ((frameSlots p (format.init byte) (format.last byte) (20 + lead sends tail)).flatMap
          Slot.samples).length)
      (.inl (by rw [htime]; omega))
    have hhigh : t - edge = high + idle := by
      rcases ht with ht | ht
      · rw [lead] at ht
        omega
      · cases ht
    refine ⟨f₂, frame :: frames, ingestAll_trans e₁ rfl e₂, ?_⟩
    rw [List.forall₂_cons, hall, AllArrive, hgood, hhigh]

end

/-! ## The round trip -/

/-- The frames that the framer makes of the wire, one sample a microsecond. -/
def received (format : Format) (sends : List (Nat × Byte)) (tail : Nat) : List Ps2Frame :=
  (Framer.new.ingestAll 0 (wire format new sends tail)).2

/-- Every byte arrives, in order, and nothing else does. -/
def RoundTrip (format : Format) (sends : List (Nat × Byte)) (tail : Nat) : Prop :=
  List.Forall₂ (fun send frame => Good format send.2 frame) sends (received format sends tail)

/-- After each frame CLK is high for 250 us at least: 70 us of the frame, the
time idled, and 20 us of the next frame. -/
def Spaced (sends : List (Nat × Byte)) (tail : Nat) : Prop :=
  (∀ send ∈ sends.tail, 250 ≤ 70 + send.1 + 20) ∧ 250 ≤ 70 + tail + 20

/-- All bytes are FFh, and the first falling edge of each comes 4 us at least
after the edge before it, as 32 bits count: `high` and the time idled. -/
def HeardFFs : Nat → List (Nat × Byte) → Prop
  | _, [] => True
  | high, (idle, byte) :: sends =>
    byte = 0xFF ∧ GLITCH_THRESHOLD_US ≤ (high + idle) % 2 ^ 32 ∧ HeardFFs 90 sends

theorem roundTrip_iff_allArrive (format : Format) {sends : List (Nat × Byte)} {tail : Nat}
    (h : Spaced sends tail) : RoundTrip format sends tail ↔ AllArrive format true 20 sends := by
  have hspaced : ∀ send ∈ sends.tail, 160 ≤ send.1 := fun send hm => by
    have := h.1 send hm
    omega
  have htail : 160 ≤ tail := by
    have := h.2
    omega
  obtain ⟨n, hn⟩ : ∃ n, lead sends tail = n + 1 := by
    refine Nat.exists_eq_succ_of_ne_zero ?_
    cases sends with
    | nil => exact Nat.ne_of_gt (Nat.lt_of_lt_of_le (by decide) htail)
    | cons send sends => exact Nat.succ_ne_zero _
  -- the first sample sets the level of CLK
  obtain ⟨f₀, e₀, h₀⟩ : ∃ f₀, Framer.new.ingest true true 0 = (f₀, none) ∧ f₀.Listening true 0 :=
    ⟨_, rfl, rfl, rfl, rfl⟩
  obtain ⟨f₁, e₁, h₁⟩ := h₀.holds (t := 0 + 1) (List.replicate n true)
  obtain ⟨f₂, frames, e₂, hall⟩ := ingestAll_sends format (fun _ => rfl) 20 sends hspaced htail h₁
    (t := lead sends tail) (.inl (by omega))
  rw [List.map_replicate] at e₁
  have hrun := ingestAll_trans (ingestAll_cons e₀ e₁)
    (by rw [List.length_cons, List.length_replicate, hn, Nat.zero_add]) e₂
  unfold RoundTrip received
  rw [wire_eq format new_ready, hn, List.replicate_succ, hrun, Option.toList_none, List.nil_append,
    List.nil_append, hall]

theorem allArrive_at_iff (p : Bool) (high : Nat) (sends : List (Nat × Byte)) :
    AllArrive .at_ p high sends ↔ sends = [] := by
  cases sends with
  | nil => exact ⟨fun _ => rfl, fun _ => trivial⟩
  | cons send sends =>
    exact ⟨fun h => absurd h.1.1 (by decide), fun h => absurd h (List.cons_ne_nil _ _)⟩

theorem allArrive_xt_iff (high : Nat) (sends : List (Nat × Byte)) :
    AllArrive .xt true high sends ↔ HeardFFs high sends := by
  induction sends generalizing high with
  | nil => rfl
  | cons send sends ih =>
    obtain ⟨idle, byte⟩ := send
    constructor
    · rintro ⟨⟨-, -, rfl, hd⟩, hrest⟩
      exact ⟨rfl, hd, (ih 90).mp hrest⟩
    · rintro ⟨rfl, hd, hrest⟩
      exact ⟨⟨rfl, rfl, rfl, hd⟩, (ih 90).mpr hrest⟩

/-- What is sent is what is received if nothing is sent as AT frames, and if
only FFh is sent as XT frames. -/
theorem roundTrip_iff {sends : List (Nat × Byte)} {tail : Nat} (h : Spaced sends tail) :
    (RoundTrip .at_ sends tail ↔ sends = []) ∧ (RoundTrip .xt sends tail ↔ HeardFFs 20 sends) :=
  ⟨(roundTrip_iff_allArrive .at_ h).trans (allArrive_at_iff true 20 sends),
    (roundTrip_iff_allArrive .xt h).trans (allArrive_xt_iff 20 sends)⟩

theorem roundTrip_iff_twoBytes :
    (RoundTrip .at_ [(100, 0x1C), (250, 0xF0)] 250 ↔ [(100, (0x1C : Byte)), (250, 0xF0)] = []) ∧
      (RoundTrip .xt [(100, 0x1C), (250, 0xF0)] 250 ↔ HeardFFs 20 [(100, 0x1C), (250, 0xF0)]) :=
  roundTrip_iff ⟨List.forall_mem_singleton.mpr (by decide), by decide⟩

/-- The byte 1Ch, sent either way. -/
theorem sent1C_not_received :
    ¬ RoundTrip .at_ [(100, 0x1C)] 250 ∧ ¬ RoundTrip .xt [(100, 0x1C)] 250 := by
  have hspaced : Spaced [(100, 0x1C)] 250 := ⟨List.forall_mem_nil _, by decide⟩
  constructor
  · rw [roundTrip_iff_allArrive .at_ hspaced]
    exact fun h => absurd h.1.1 (by decide)
  · rw [roundTrip_iff_allArrive .xt hspaced]
    exact fun h => absurd h.1.2.2.1 (by decide)

end Tx

end VintageKvm.Ps2
