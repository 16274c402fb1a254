import VintageKvm.Ps2.Edges

/-!
# The skew of the start bit

The framer takes the time of the start bit's falling edge less that of the last
change of DATA before it. `measures_iff`: where DATA of the start bit changes
before the edge this is the skew with the other sign, and where it changes after
the edge it is the distance to another change.
-/

namespace VintageKvm.Ps2

/-- A wave of as many bits as the frame has, whichever they are: a start bit
that comes late is read as the level before it. -/
structure Wave.Clocked (w : Wave) : Prop where
  count : w.slots.length = w.sent.bits.length
  phases : ∀ s ∈ w.slots, GLITCH_THRESHOLD_US ≤ s.lowUs ∧ GLITCH_THRESHOLD_US ≤ s.highUs
  periods : ∀ s ∈ w.init, s.periodUs < IDLE_TIMEOUT_US
  alone : ∀ data, w.sent = .xt data → IDLE_TIMEOUT_US < w.last.periodUs

/-- DATA is not what it was in the sample before. -/
def Changes (ss : List (Bool × Bool)) (i : Nat) : Prop := ∃ b ∈ ss[i]?, ∃ a ∈ ss[i - 1]?, b.2 ≠ a.2

/-- DATA changes at `edge`, and at no other sample from there to `t`. -/
def StartEdge (ss : List (Bool × Bool)) (t edge : Nat) : Prop :=
  Changes ss edge ∧ ∀ i ≤ max t edge, min t edge ≤ i → i ≠ edge → ¬ Changes ss i

instance (ss : List (Bool × Bool)) (i : Nat) : Decidable (Changes ss i) :=
  inferInstanceAs (Decidable (∃ b ∈ ss[i]?, _))

instance (ss : List (Bool × Bool)) (t edge : Nat) : Decidable (StartEdge ss t edge) :=
  inferInstanceAs (Decidable (_ ∧ _))

/-- Between frames: the frames so far have ended, and CLK has been high for 4 us
at least, as 32 bits count. -/
def Quiet (ss : List (Bool × Bool)) : Prop :=
  let e := Edges.ofClk (ss.map Prod.fst)
  e.falls = [] ∧ e.clk = some true ∧ GLITCH_THRESHOLD_US ≤ (ss.length - e.edge) % 2 ^ 32

/-- A sample that DATA has changed with. The first counts, but not one that a
frame times out with. -/
def Notes (ss : List (Bool × Bool)) (i : Nat) : Prop :=
  (i = 0 ∨ Changes ss i) ∧ ¬ (Edges.ofClk ((ss.take i).map Prod.fst)).Expires

/-- The last such sample. -/
def LastChange (ss : List (Bool × Bool)) (j : Nat) : Prop :=
  j < ss.length ∧ Notes ss j ∧ ∀ i < ss.length, j < i → ¬ Notes ss i

instance (ss : List (Bool × Bool)) : Decidable (Quiet ss) := inferInstanceAs (Decidable (_ ∧ _))

instance (ss : List (Bool × Bool)) (i : Nat) : Decidable (Notes ss i) :=
  inferInstanceAs (Decidable (_ ∧ _))

instance (ss : List (Bool × Bool)) (j : Nat) : Decidable (LastChange ss j) :=
  inferInstanceAs (Decidable (_ ∧ _))

theorem LastChange.unique {ss : List (Bool × Bool)} {i j : Nat} (hi : LastChange ss i)
    (hj : LastChange ss j) : i = j := by
  rcases Nat.lt_trichotomy i j with hlt | heq | hgt
  · exact absurd hj.2.1 (hi.2.2 j hj.1 hlt)
  · exact heq
  · exact absurd hi.2.1 (hj.2.2 i hi.1 hgt)

namespace Framer

/-- The framer is between frames, and takes a falling edge of CLK at `t` for a
start bit. -/
structure Awaits (f : Framer) (t : Nat) : Prop where
  listening : Listening f true f.lastEdgeUs
  high : GLITCH_THRESHOLD_US ≤ (t - f.lastEdgeUs) % 2 ^ 32

end Framer

/-- The wave after these samples gives a frame, with this skew. -/
def Measures (ss : List (Bool × Bool)) (w : Wave) (skew : Int) : Prop :=
  ∃ frame, (Framer.new.ingestAll 0 (ss ++ w.samples)).2 = (Framer.new.ingestAll 0 ss).2 ++ [frame] ∧
    frame.timing.clkDataSkewUs = clampI8 skew

theorem Wave.WellTimed.clocked {w : Wave} (h : w.WellTimed) : w.Clocked :=
  ⟨by rw [← h.bits, List.length_map], h.phases, h.periods, h.alone⟩

namespace Framer

variable {f g : Framer} {s : Sample} {t edge : Nat} {clk data : Bool}

/-! ## What the framer notes of DATA -/

theorem noteData_lastData (f : Framer) (data : Bool) (t : Nat) :
    (f.noteData data t).lastData = some data := by
  unfold noteData
  split
  · rfl
  next h => exact not_not.mp h

theorem onClkFall_lastData (f : Framer) (data : Bool) (t : Nat) :
    (f.onClkFall data t).1.lastData = f.lastData := by
  unfold onClkFall
  split
  · rfl
  · dsimp only
    split <;> rfl

theorem onSample_data (f : Framer) (clk data : Bool) (t : Nat) :
    (f.onSample clk data t).1.lastData = (f.noteData data t).lastData ∧
    (f.onSample clk data t).1.lastDataChangeUs = (f.noteData data t).lastDataChangeUs := by
  unfold onSample
  dsimp only
  split
  · exact ⟨rfl, rfl⟩
  split
  · exact ⟨rfl, rfl⟩
  split
  · split <;> exact ⟨rfl, rfl⟩
  split
  · exact ⟨onClkFall_lastData _ _ _, (onClkFall_keeps _ _ _).2.2⟩
  · exact ⟨rfl, rfl⟩

/-- A sample with which a frame times out is not compared with the one before. -/
theorem ingest_data (f : Framer) (clk data : Bool) (t : Nat) :
    (f.ingest clk data t).1.lastData = some data ∧ (f.ingest clk data t).1.lastDataChangeUs =
      if f.TimesOut t then f.lastDataChangeUs else (f.noteData data t).lastDataChangeUs := by
  obtain ⟨hdata, hchange⟩ := f.onSample_data clk data t
  unfold ingest
  split
  next bits hs =>
    have hne : f.state ≠ .idle := by rw [hs]; exact State.noConfusion
    split
    next hlate => exact ⟨rfl, (if_pos ⟨hne, hlate⟩).symm⟩
    next hwaits => exact ⟨hdata.trans (f.noteData_lastData data t),
      hchange.trans (if_neg fun h => hwaits h.2).symm⟩
  next hs => exact ⟨hdata.trans (f.noteData_lastData data t),
    hchange.trans (if_neg fun h => h.1 hs).symm⟩

/-- The framer knows DATA of the last sample. -/
theorem after_lastData (ss : List (Bool × Bool)) (s : Bool × Bool) :
    (after (ss ++ [s])).lastData = some s.2 := by
  rw [after_concat]
  exact (ingest_data _ _ _ _).1

/-- A sample after others changes DATA iff it is not what it was. -/
theorem changes_iff (ss : List (Bool × Bool)) (a c : Bool × Bool) (rest : List (Bool × Bool)) :
    Changes ((ss ++ [a]) ++ c :: rest) (ss ++ [a]).length ↔ c.2 ≠ a.2 := by
  have ht : ((ss ++ [a]) ++ c :: rest)[(ss ++ [a]).length]? = some c := by
    rw [List.getElem?_append_right (Nat.le_refl _), Nat.sub_self]
    rfl
  have hbefore : ((ss ++ [a]) ++ c :: rest)[(ss ++ [a]).length - 1]? = some a := by
    rw [List.length_append, List.length_singleton, Nat.add_sub_cancel, List.append_assoc,
      List.getElem?_append_right (Nat.le_refl _), Nat.sub_self]
    rfl
  rw [Changes, ht, hbefore]
  constructor
  · rintro ⟨x, hx, y, hy, h⟩
    obtain rfl := Option.some.inj hx
    obtain rfl := Option.some.inj hy
    exact h
  · intro h
    exact ⟨_, rfl, _, rfl, h⟩

theorem notes_append {ss : List (Bool × Bool)} (xs : List (Bool × Bool)) {i : Nat}
    (h : i < ss.length) : Notes (ss ++ xs) i ↔ Notes ss i := by
  rw [Notes, Notes, Changes, Changes, List.getElem?_append_left h,
    List.getElem?_append_left (Nat.lt_of_le_of_lt (Nat.sub_le i 1) h),
    List.take_append_of_le_length h.le]

/-- A sample that DATA has changed with is one that it is not what the framer
knows with. -/
theorem notes_concat (ss : List (Bool × Bool)) (s : Bool × Bool) :
    Notes (ss ++ [s]) ss.length ↔ ¬ (after ss).TimesOut ss.length ∧
      (after ss).lastData ≠ some s.2 := by
  have hexp := (goesBy_after ss).timesOut_iff
  rw [Edges.now_ofClk, List.length_map] at hexp
  rw [Notes, hexp, List.take_left, and_comm]
  refine and_congr_right fun _ => ?_
  rcases List.eq_nil_or_concat' ss with rfl | ⟨ss, a, rfl⟩
  · exact iff_of_true (.inl rfl) nofun
  · have hne : (ss ++ [a]).length ≠ 0 := List.length_pos_iff.mpr (List.concat_ne_nil _ _) |>.ne'
    rw [or_iff_right hne, changes_iff, after_lastData, Ne, Ne, Option.some.injEq, eq_comm]

/-- The change that the framer remembers is the last. -/
theorem after_lastChange {ss : List (Bool × Bool)} (h : ss ≠ []) :
    LastChange ss (after ss).lastDataChangeUs := by
  induction ss using List.reverseRecOn with
  | nil => exact absurd rfl h
  | append_singleton ss s ih =>
    have hlen : (ss ++ [s]).length = ss.length + 1 := by
      rw [List.length_append, List.length_singleton]
    have hnotes := notes_concat ss s
    have hchange := (ingest_data (after ss) s.1 s.2 ss.length).2
    rw [← after_concat] at hchange
    by_cases hn : Notes (ss ++ [s]) ss.length
    · obtain ⟨hwaits, hdata⟩ := hnotes.mp hn
      rw [hchange, if_neg hwaits, noteData, if_pos hdata]
      refine ⟨hlen ▸ Nat.lt_succ_self _, hn, fun i hi hlt => ?_⟩
      rw [hlen] at hi
      exact absurd hlt (Nat.not_lt.mpr (Nat.le_of_lt_succ hi))
    · have hkept : (after (ss ++ [s])).lastDataChangeUs = (after ss).lastDataChangeUs := by
        rw [hchange]
        split
        · rfl
        next hwaits => rw [noteData, if_neg fun hdata => hn (hnotes.mpr ⟨hwaits, hdata⟩)]
      have hne : ss ≠ [] := by
        rintro rfl
        exact hn (hnotes.mpr ⟨fun hlate => hlate.1 rfl, (Option.some_ne_none _).symm⟩)
      obtain ⟨hlt, hnote, hlast⟩ := ih hne
      rw [hkept]
      refine ⟨hlen ▸ Nat.lt_succ_of_lt hlt, (notes_append [s] hlt).mpr hnote, fun i hi hj => ?_⟩
      rcases Nat.lt_or_eq_of_le (Nat.le_of_lt_succ (hlen ▸ hi)) with hi | rfl
      · rw [notes_append [s] hi]
        exact hlast i hi hj
      · exact hn

theorem noteData_change_le (ss : List (Bool × Bool)) (b : Bool) :
    ((after ss).noteData b ss.length).lastDataChangeUs ≤ ss.length := by
  unfold noteData
  split
  · exact Nat.le_refl _
  · rcases List.eq_nil_or_concat' ss with rfl | ⟨ss, a, rfl⟩
    · exact Nat.le_refl _
    · exact (after_lastChange (List.concat_ne_nil _ _)).1.le

/-- The skew is taken at the start bit. -/
theorem Listening.fall_skew (h : Listening f true edge)
    (hd : GLITCH_THRESHOLD_US ≤ (t - edge) % 2 ^ 32) (data : Bool) :
    (f.ingest false data t).1.clkDataSkewUs =
      clampI8 (BitVec.ofNat 64 t - BitVec.ofNat 64 (f.noteData data t).lastDataChangeUs).toInt := by
  obtain ⟨d, l, e⟩ := f.noteData_eq data t
  have hd' : ¬ (t - f.lastEdgeUs) % 2 ^ 32 < GLITCH_THRESHOLD_US := by
    rw [h.edge]
    exact Nat.not_lt.mpr hd
  rw [ingest_idle h.state, onSample, e]
  simp only [h.clk, Bool.true_eq_false, ↓reduceIte, hd', Bool.true_and, Bool.not_false,
    onClkFall, h.state]

/-! ## The skew until the frame is emitted -/

theorem emitOnTimeout_skew (f : Framer) {n : Nat} (hn : 0 < n) (hn' : n < AT_BIT_COUNT) :
    ∃ frame, f.emitOnTimeout n = some frame ∧ frame.timing.clkDataSkewUs = f.clkDataSkewUs := by
  obtain ⟨frame, he⟩ := Option.isSome_iff_exists.mp (emitOnTimeout_isSome hn hn')
  exact ⟨frame, he, by rw [(emitOnTimeout_noted he).2]; rfl⟩

/-- Within a frame: one sample ends it or goes on with it. -/
theorem ingestSample_skew {n : Nat} (h : f.state = .receiving n) (hn : 0 < n ∧ n < AT_BIT_COUNT)
    (s : Sample) :
    (∃ frame, (f.ingestSample s).2 = some frame ∧ frame.timing.clkDataSkewUs = f.clkDataSkewUs) ∨
    ∃ f' m, f.ingestSample s = (f', none) ∧ f'.clkDataSkewUs = f.clkDataSkewUs ∧
      f'.state = .receiving m ∧ 0 < m ∧ m < AT_BIT_COUNT := by
  have hi := f.ingested s
  generalize f.ingestSample s = r at hi ⊢
  cases hi with
  | timeout late state =>
    obtain rfl := State.receiving.inj (state.symm.trans h)
    exact .inl (f.emitOnTimeout_skew hn.1 hn.2)
  | rest change waits stays edge_eq => exact .inr ⟨_, n, rfl, rfl, h, hn⟩
  | fall change falls =>
    simp only [onClkFall, h]
    split
    next h11 => exact .inl ⟨_, rfl, rfl⟩
    next h11 => exact .inr ⟨_, n + 1, rfl, rfl, rfl, Nat.succ_pos n, Nat.not_le.mp h11⟩

theorem ingestAll_skew {n : Nat} (h : f.state = .receiving n) (hn : 0 < n ∧ n < AT_BIT_COUNT)
    {ss : List (Bool × Bool)} {frame : Ps2Frame} {frames : List Ps2Frame}
    (he : (f.ingestAll t ss).2 = frame :: frames) :
    frame.timing.clkDataSkewUs = f.clkDataSkewUs := by
  induction ss generalizing f t n with
  | nil => cases he
  | cons s ss ih =>
    have hcons : (f.ingestAll t (s :: ss)).2 = (f.ingestSample ⟨s.1, s.2, t⟩).2.toList ++
        ((f.ingestSample ⟨s.1, s.2, t⟩).1.ingestAll (t + 1) ss).2 := rfl
    rw [hcons] at he
    obtain ⟨frame', e, hskew⟩ | ⟨f', m, e, hskew, hstate, hm⟩ :=
      ingestSample_skew h hn ⟨s.1, s.2, t⟩
    · rw [e] at he
      rw [← (List.cons.inj he).1, hskew]
    · rw [e] at he
      rw [ih hstate hm he, hskew]

/-! ## A frame -/

/-- A wave gives one frame. -/
theorem Listening.clocked {w : Wave} (hw : w.Clocked) (h : Listening f true edge)
    (hd : GLITCH_THRESHOLD_US ≤ (t - edge) % 2 ^ 32) :
    ∃ f' frame, f.ingestAll t w.samples = (f', [frame]) := by
  have hlen : w.init.length + 1 = w.sent.bits.length := by
    rw [← hw.count, Wave.slots, List.length_append, List.length_singleton]
  have hbound := length_bits_le w.sent
  have hne : w.init ≠ [] := List.ne_nil_of_length_pos (by omega)
  obtain ⟨f₁, l, e, ws, e₁, h₁⟩ :=
    h.inits hd hne (by omega) hw.periods fun s hs => hw.phases s (List.mem_append_left _ hs)
  have hlast := hw.phases w.last (List.mem_append_right _ (List.mem_singleton_self _))
  have hsamples : w.samples = w.init.flatMap Slot.samples ++ w.last.samples := by
    rw [Wave.samples, Wave.slots, List.flatMap_append, List.flatMap_singleton]
  rw [hsamples]
  rcases bits_cases w.sent with ⟨h11, -⟩ | ⟨h9, -, data, hsent⟩
  · obtain ⟨f₂, g, e₂, -⟩ := h₁.last_at (by omega) hlast.2
    exact ⟨f₂, _, ingestAll_trans e₁ rfl e₂⟩
  · obtain ⟨f₂, g, e', e₂, -⟩ := h₁.last_xt (by omega) (hw.alone data hsent) hlast
    obtain ⟨frame, hframe, -⟩ := g.emitOnTimeout_skew (n := XT_BIT_COUNT) (by decide) (by decide)
    rw [hframe] at e₂
    exact ⟨f₂, frame, ingestAll_trans e₁ rfl e₂⟩

/-- The difference of two times as `i64`. -/
theorem toInt_sub_times {t d : Nat} (ht : t < 2 ^ 63) (hd : d ≤ t) :
    (BitVec.ofNat 64 t - BitVec.ofNat 64 d).toInt = (t : Int) - d := by
  have hnat : (BitVec.ofNat 64 t - BitVec.ofNat 64 d).toNat = t - d := by
    rw [BitVec.toNat_sub, BitVec.toNat_ofNat, BitVec.toNat_ofNat]
    omega
  rw [BitVec.toInt_eq_toNat_of_lt (by omega), hnat]
  omega

/-- The frame of a wave has the time since the last change of DATA noted. -/
theorem Awaits.skew {ss : List (Bool × Bool)} (h : Awaits (after ss) ss.length)
    (ht : ss.length < 2 ^ 63) {w : Wave} (hw : w.Clocked) {b : Bool} {rest : List (Bool × Bool)}
    (hs : w.samples = (false, b) :: rest) :
    ∃ frame, (Framer.new.ingestAll 0 (ss ++ w.samples)).2 =
      (Framer.new.ingestAll 0 ss).2 ++ [frame] ∧ frame.timing.clkDataSkewUs =
        clampI8 ((ss.length : Int) - ((after ss).noteData b ss.length).lastDataChangeUs) := by
  obtain ⟨f', frame, e⟩ := h.listening.clocked hw h.high
  have hskew := h.listening.fall_skew h.high b
  rw [toInt_sub_times ht (noteData_change_le ss b)] at hskew
  obtain ⟨f₁, e₁, h₁⟩ := h.listening.fall h.high b
  rw [e₁] at hskew
  refine ⟨frame, ?_, ?_⟩
  · rw [ingestAll_append, Nat.zero_add]
    show _ ++ ((after ss).ingestAll ss.length w.samples).2 = _
    rw [e]
  · have hrest : (f₁.ingestAll (ss.length + 1) rest).2 = [frame] := by
      have he := congrArg Prod.snd e
      rw [hs] at he
      simp only [ingestAll, e₁] at he
      exact he
    rw [ingestAll_skew h₁.state ⟨Nat.zero_lt_one, show 1 < 11 by decide⟩ hrest, hskew]

end Framer

open Framer

theorem measures_clamp {ss : List (Bool × Bool)} (h : Awaits (after ss) ss.length)
    (ht : ss.length < 2 ^ 63) {w : Wave} (hw : w.Clocked) {b : Bool} {rest : List (Bool × Bool)}
    (hs : w.samples = (false, b) :: rest) (skew : Int) :
    Measures ss w skew ↔
      clampI8 ((ss.length : Int) - ((after ss).noteData b ss.length).lastDataChangeUs) =
        clampI8 skew := by
  obtain ⟨frame, he, hskew⟩ := h.skew ht hw hs
  rw [← hskew]
  constructor
  · rintro ⟨frame', he', hskew'⟩
    rw [List.singleton_inj.mp (List.append_cancel_left (he.symm.trans he')), hskew']
  · intro hclamp
    exact ⟨frame, he, hclamp⟩

theorem awaits_iff (ss : List (Bool × Bool)) : (after ss).Awaits ss.length ↔ Quiet ss := by
  have h := goesBy_after ss
  constructor
  · rintro ⟨hlisten, hhigh⟩
    exact ⟨h.idle_iff.mp hlisten.state, h.clk.symm.trans hlisten.clk, h.edge ▸ hhigh⟩
  · rintro ⟨hfalls, hclk, hhigh⟩
    exact ⟨⟨h.idle_iff.mpr hfalls, h.clk.trans hclk, rfl⟩, h.edge.symm ▸ hhigh⟩

/-- Where DATA of the start bit changes at `edge`: the skew emitted is `edge`
less the falling edge iff they are one, or `edge` is later by as much as the last
change of DATA before is earlier. -/
theorem measures_iff (ss : List (Bool × Bool)) (w : Wave) (edge : Nat) (ht : ss.length < 2 ^ 63)
    (hquiet : Quiet ss) (hw : w.Clocked) (hedge : StartEdge (ss ++ w.samples) ss.length edge) :
    Measures ss w ((edge : Int) - ss.length) ↔ edge = ss.length ∨
      ss.length < edge ∧ ∃ j, LastChange ss j ∧
      min 127 (edge - ss.length) = min 127 (ss.length - j) := by
  have hawaits := (awaits_iff ss).mpr hquiet
  obtain ⟨b, rest, hs⟩ := w.exists_samples
  rw [measures_clamp hawaits ht hw hs]
  rcases List.eq_nil_or_concat' ss with rfl | ⟨ss', a, rfl⟩
  · cases hawaits.listening.clk
  have hlast := after_lastData ss' a
  have hle := noteData_change_le (ss' ++ [a]) b
  have hnoted := after_lastChange (List.concat_ne_nil a ss')
  rw [hs] at hedge
  obtain ⟨hchange, hstill⟩ := hedge
  unfold clampI8
  rcases Nat.lt_trichotomy edge (ss' ++ [a]).length with hlt | heq | hgt
  · -- the skew is never negative
    refine iff_of_false (by omega) ?_
    rintro (heq | ⟨hgt, -⟩)
    · exact hlt.ne heq
    · exact hlt.not_gt hgt
  · -- this very change is noted
    rw [heq] at hchange
    have hne : (after (ss' ++ [a])).lastData ≠ some b := by
      rw [hlast]
      exact fun he => (changes_iff ss' a (false, b) rest).mp hchange (Option.some.inj he).symm
    have hnote : ((after (ss' ++ [a])).noteData b (ss' ++ [a]).length).lastDataChangeUs =
        (ss' ++ [a]).length := by
      rw [noteData, if_pos hne]
    rw [hnote]
    exact iff_of_true (by omega) (.inl heq)
  · -- nothing new to note
    have hsame : b = a.2 := by
      by_contra hne
      exact hstill _ (Nat.le_max_left _ _) (Nat.min_le_left _ _) (Nat.ne_of_lt hgt)
        ((changes_iff ss' a (false, b) rest).mpr hne)
    have hnote : (after (ss' ++ [a])).noteData b (ss' ++ [a]).length = after (ss' ++ [a]) := by
      rw [noteData, if_neg]
      rw [hlast, hsame]
      exact not_not.mpr rfl
    have hthis : (∃ j, LastChange (ss' ++ [a]) j ∧
        min 127 (edge - (ss' ++ [a]).length) = min 127 ((ss' ++ [a]).length - j)) ↔
        min 127 (edge - (ss' ++ [a]).length) =
        min 127 ((ss' ++ [a]).length - (after (ss' ++ [a])).lastDataChangeUs) := by
      constructor
      · rintro ⟨j, hj, h⟩
        exact hnoted.unique hj ▸ h
      · exact fun h => ⟨_, hnoted, h⟩
    rw [hthis]
    rw [hnote] at hle ⊢
    omega

/-! ## Well-formed streams -/

/-- Between well-formed frames a falling edge is a start bit. -/
theorem awaits_waves (ws : List Wave) (hw : ∀ w ∈ ws, w.WellTimed ∧ w.Separated) {f : Framer}
    {t : Nat} (h : f.Awaits t) :
    (f.ingestAll t (ws.flatMap Wave.samples)).1.Awaits (t + (ws.flatMap Wave.samples).length) := by
  induction ws generalizing f t with
  | nil => exact h
  | cons w ws ih =>
    obtain ⟨hwell, hsep⟩ := hw w List.mem_cons_self
    obtain ⟨f₁, frame, e, e₁, -, h₁, hd₁⟩ := h.listening.wave hwell h.high
    replace hd₁ := hd₁.mpr hsep
    have hedge := h₁.edge
    rw [← hedge] at h₁ hd₁
    have hrest := ih (fun w' h' => hw w' (List.mem_cons_of_mem _ h')) ⟨h₁, hd₁⟩
    rw [List.flatMap_cons, ingestAll_append, e₁, List.length_append, ← Nat.add_assoc]
    exact hrest

/-- So it is after CLK has been high for 4 us, and after any frames then. -/
theorem quiet_stream (idle : List Bool) (hidle : GLITCH_THRESHOLD_US ≤ idle.length)
    (hlt : idle.length < 2 ^ 32) (ws : List Wave) (hw : ∀ w ∈ ws, w.WellTimed ∧ w.Separated) :
    Quiet (idle.map (true, ·) ++ ws.flatMap Wave.samples) := by
  obtain ⟨f, e, h⟩ :=
    listening_idle (List.ne_nil_of_length_pos (Nat.lt_of_lt_of_le (by decide) hidle))
  have hawaits : f.Awaits idle.length := by
    have hedge := h.edge
    rw [← hedge] at h
    refine ⟨h, ?_⟩
    rwa [hedge, Nat.sub_zero, Nat.mod_eq_of_lt hlt]
  have hws := awaits_waves ws hw hawaits
  rw [← awaits_iff]
  rwa [after, ingestAll_append, e, List.length_append, List.length_map, Nat.zero_add]

/-- CLK high for 100 us, DATA low for the last of them. -/
def lead (early : Nat) : List Bool :=
  List.replicate (100 - early) true ++ List.replicate early false

/-- The frame of 1Ch with phases of 40 us. -/
def wave1C : Wave := evenWave (.at_ false 0x1C false true) 250

theorem lead_quiet (early : Nat) (h : early ≤ 100) : Quiet ((lead early).map (true, ·)) := by
  have hlen : (lead early).length = 100 := by
    rw [lead, List.length_append, List.length_replicate, List.length_replicate]
    omega
  have hws := quiet_stream (lead early) (by rw [hlen]; decide) (by rw [hlen]; decide) [] nofun
  rwa [List.flatMap_nil, List.append_nil] at hws

/-- The frame with a start bit that comes 5 us late. -/
def late1C : Wave :=
  { wave1C with
    init := ⟨true, List.replicate 4 true ++ List.replicate 35 false, List.replicate 40 false⟩ ::
      wave1C.init.tail }

/-- CLK high for 100 us, DATA high for the last 5. -/
def raised : List (Bool × Bool) := (List.replicate 95 false ++ List.replicate 5 true).map (true, ·)

/-- DATA changes 5 us before CLK falls, and 5 us after. -/
theorem measures_iff_late : Measures raised late1C (((105 : Nat) : Int) - raised.length) :=
  (measures_iff raised late1C 105 (by decide) (by decide +kernel)
    ⟨by decide +kernel, by decide +kernel, by decide +kernel, nofun⟩ (by decide +kernel)).mpr
      (.inr ⟨by decide, 95, by decide +kernel, by decide⟩)

/-- DATA falls 5 us before CLK, as it should: the skew emitted is 5. -/
theorem early_positive : StartEdge ((lead 5).map (true, ·) ++ wave1C.samples) 100 95 ∧
    Measures ((lead 5).map (true, ·)) wave1C 5 ∧
    ¬ Measures ((lead 5).map (true, ·)) wave1C (95 - 100) := by
  have hclocked : wave1C.Clocked := (evenWave_wellTimed _ (by decide) (by decide)).clocked
  have hclamp :=
    measures_clamp ((awaits_iff _).mpr (lead_quiet 5 (by decide))) (by decide) hclocked rfl
  refine ⟨by decide +kernel, (hclamp 5).mpr (by decide +kernel), fun h => ?_⟩
  have hskew := (hclamp (95 - 100)).mp h
  revert hskew
  decide +kernel

end VintageKvm.Ps2
