import VintageKvm.Ps2.History

/-!
# Frames as they show on CLK

With a sample every microsecond, the levels of CLK alone tell which falling
edges are the bits of one frame, and where the frame ends (`Edges`). The framer
goes by these: its state follows them sample by sample (`GoesBy.step`).
-/

namespace VintageKvm.Ps2

/-- A frame as it shows on CLK: the times of its falling edges, and of the
sample it ends with. -/
structure Group where
  falls : List Nat
  ends : Nat
  deriving DecidableEq, Repr

/-- What there is to CLK up to the time `now`. -/
structure Edges where
  now : Nat
  clk : Option Bool
  /-- The last edge, but for one in a sample that a frame times out with. -/
  edge : Nat
  /-- The falling edges of a frame that has not ended. -/
  falls : List Nat
  groups : List Group
  deriving DecidableEq, Repr

namespace Edges

def new : Edges := ⟨0, none, 0, [], []⟩

variable (e : Edges) (clk : Bool)

/-- No falling edge came for 200 us: the frame times out. -/
def Expires : Prop := ∃ last ∈ e.falls.getLast?, e.now = last + IDLE_TIMEOUT_US

instance : Decidable e.Expires := inferInstanceAs (Decidable (∃ last ∈ e.falls.getLast?, _))

/-- A falling edge after a phase of 4 us at least, as 32 bits count. -/
def Falls : Prop :=
  ¬ e.Expires ∧ e.clk = some true ∧ clk = false ∧ GLITCH_THRESHOLD_US ≤ (e.now - e.edge) % 2 ^ 32

instance : Decidable (e.Falls clk) := inferInstanceAs (Decidable (_ ∧ _))

/-- The falling edges of the frame with that of the next sample. -/
def collect : List Nat := if e.Falls clk then e.falls ++ [e.now] else e.falls

/-- The frame ends with the next sample: it times out, or has eleven falling
edges. -/
def Ends : Prop := e.Expires ∨ (e.collect clk).length = AT_BIT_COUNT

instance : Decidable (e.Ends clk) := inferInstanceAs (Decidable (_ ∨ _))

/-- The next sample. -/
def step : Edges where
  now := e.now + 1
  clk := some clk
  edge := if ¬ e.Expires ∧ e.clk = some !clk then e.now else e.edge
  falls := if e.Ends clk then [] else e.collect clk
  groups := if e.Ends clk then e.groups ++ [⟨e.collect clk, e.now⟩] else e.groups

/-- A sample every microsecond. -/
def ofClk (clks : List Bool) : Edges := clks.foldl step new

variable {e clk}

theorem ofClk_concat (clks : List Bool) (clk : Bool) :
    ofClk (clks ++ [clk]) = (ofClk clks).step clk :=
  List.foldl_concat ..

@[simp] theorem now_ofClk (clks : List Bool) : (ofClk clks).now = clks.length := by
  induction clks using List.reverseRecOn with
  | nil => rfl
  | append_singleton clks clk ih =>
    rw [ofClk_concat, step, ih, List.length_append, List.length_singleton]

theorem falls_step (e : Edges) (clk : Bool) :
    (e.step clk).falls = if e.Ends clk then [] else e.collect clk := rfl

theorem groups_step (e : Edges) (clk : Bool) :
    (e.step clk).groups = if e.Ends clk then e.groups ++ [⟨e.collect clk, e.now⟩] else e.groups :=
  rfl

theorem mem_collect {i : Nat} (h : i ∈ e.collect clk) : i ∈ e.falls ∨ i = e.now := by
  unfold collect at h
  split at h
  · exact (List.mem_append.mp h).imp_right List.mem_singleton.mp
  · exact .inl h

theorem falls_lt (clks : List Bool) : ∀ i ∈ (ofClk clks).falls, i < clks.length := by
  induction clks using List.reverseRecOn with
  | nil => nofun
  | append_singleton clks clk ih =>
    rw [ofClk_concat, falls_step, List.length_append, List.length_singleton]
    split
    · nofun
    · intro i hi
      rcases mem_collect hi with hi | rfl
      · exact Nat.lt_succ_of_lt (ih i hi)
      · rw [now_ofClk]
        exact Nat.lt_succ_self _

theorem collect_le (clks : List Bool) (clk : Bool) :
    ∀ i ∈ (ofClk clks).collect clk, i ≤ clks.length := by
  intro i hi
  rcases mem_collect hi with hi | rfl
  · exact (falls_lt clks i hi).le
  · rw [now_ofClk]

/-- A group ends with some sample. -/
theorem mem_groups_iff (clks : List Bool) (g : Group) : g ∈ (ofClk clks).groups ↔
    ∃ cs clk rest, clks = cs ++ clk :: rest ∧ (ofClk cs).Ends clk ∧
    g = ⟨(ofClk cs).collect clk, cs.length⟩ := by
  induction clks using List.reverseRecOn with
  | nil =>
    refine iff_of_false nofun ?_
    rintro ⟨cs, clk, rest, h, -⟩
    exact absurd h.symm (List.append_ne_nil_of_right_ne_nil _ (List.cons_ne_nil _ _))
  | append_singleton clks c ih =>
    have hstep : g ∈ (ofClk (clks ++ [c])).groups ↔ g ∈ (ofClk clks).groups ∨
        (ofClk clks).Ends c ∧ g = ⟨(ofClk clks).collect c, clks.length⟩ := by
      rw [ofClk_concat, groups_step, now_ofClk]
      split
      next hends => rw [List.mem_append, List.mem_singleton, and_iff_right hends]
      next hno => exact (or_iff_left fun h => hno h.1).symm
    rw [hstep, ih]
    constructor
    · rintro (⟨cs, clk, rest, rfl, h⟩ | h)
      · exact ⟨cs, clk, rest ++ [c], by rw [List.append_assoc, List.cons_append], h⟩
      · exact ⟨clks, c, [], rfl, h⟩
    · rintro ⟨cs, clk, rest, he, h⟩
      rcases List.eq_nil_or_concat' rest with rfl | ⟨rest, c', rfl⟩
      · obtain ⟨rfl, hc⟩ := List.append_inj' he rfl
        obtain rfl := List.singleton_inj.mp hc
        exact .inr h
      · rw [← List.cons_append, ← List.append_assoc] at he
        obtain ⟨rfl, -⟩ := List.append_inj' he rfl
        exact .inl ⟨cs, clk, rest, rfl, h⟩

theorem collect_of_not_falls (h : ¬ e.Falls clk) : e.collect clk = e.falls := if_neg h

theorem collect_of_falls (h : e.Falls clk) : e.collect clk = e.falls ++ [e.now] := if_pos h

end Edges

namespace Framer

/-- The framer's state is what CLK has it be. -/
structure GoesBy (e : Edges) (f : Framer) : Prop where
  clk : f.lastClk = e.clk
  edge : f.lastEdgeUs = e.edge
  state : f.state = if e.falls = [] then .idle else .receiving e.falls.length
  last : ∀ last ∈ e.falls.getLast?, f.lastFallingUs = last ∧ last < e.now ∧
    e.now ≤ last + IDLE_TIMEOUT_US
  short : e.falls.length < AT_BIT_COUNT

theorem goesBy_new : GoesBy .new .new := ⟨rfl, rfl, rfl, nofun, by decide⟩

variable {e : Edges} {f : Framer} {clk data : Bool}

theorem GoesBy.idle_iff (h : GoesBy e f) : f.state = .idle ↔ e.falls = [] := by
  rw [h.state]
  split
  next hnil => exact iff_of_true rfl hnil
  next hne => exact iff_of_false State.noConfusion hne

theorem GoesBy.receiving (h : GoesBy e f) {n : Nat} (hs : f.state = .receiving n) :
    n = e.falls.length ∧ e.falls ≠ [] := by
  rw [h.state] at hs
  split at hs
  next => cases hs
  next hne => exact ⟨(State.receiving.inj hs).symm, hne⟩

theorem GoesBy.timesOut_iff (h : GoesBy e f) : f.TimesOut e.now ↔ e.Expires := by
  rw [TimesOut, Ne, h.idle_iff, Edges.Expires]
  cases hl : e.falls.getLast? with
  | none => exact iff_of_false (fun ⟨hne, _⟩ => hne (List.getLast?_eq_none_iff.mp hl)) nofun
  | some last =>
    have hne : e.falls ≠ [] := fun hnil => by rw [hnil] at hl; cases hl
    obtain ⟨hlast, hlt, hle⟩ := h.last last hl
    have hle' : e.now ≤ last + 200 := hle
    rw [hlast]
    constructor
    · rintro ⟨-, hlate⟩
      have hlate' : 200 ≤ (e.now - last) % 2 ^ 32 := hlate
      refine ⟨last, rfl, ?_⟩
      show e.now = last + 200
      omega
    · rintro ⟨last', hl', hnow⟩
      obtain rfl := Option.some.inj hl'
      refine ⟨hne, ?_⟩
      rw [hnow, Nat.add_sub_cancel_left]
      decide

theorem GoesBy.falls_iff (h : GoesBy e f) (data : Bool) :
    f.Falls ⟨clk, data, e.now⟩ ↔ e.Falls clk := by
  unfold Falls Edges.Falls
  rw [h.timesOut_iff, h.clk, h.edge]

theorem emitOnTimeout_isSome {n : Nat} (h0 : 0 < n) (h : n < AT_BIT_COUNT) :
    (f.emitOnTimeout n).isSome := by
  simp only [emitOnTimeout, Nat.not_le.mpr h, h0, ↓reduceIte]
  split <;> rfl

theorem GoesBy.ended (h : e.Ends clk) (hclk : f.lastClk = some clk)
    (hedge : f.lastEdgeUs = (e.step clk).edge)
    (hstate : f.state = .idle) : GoesBy (e.step clk) f := by
  have hfalls : (e.step clk).falls = [] := if_pos h
  refine ⟨hclk, hedge, ?_, ?_, ?_⟩
  · rw [hfalls, hstate]
    rfl
  · rw [hfalls]
    nofun
  · rw [hfalls]
    decide

theorem GoesBy.ends_iff (h : GoesBy e f) (hf : e.Falls clk) :
    e.Ends clk ↔ AT_BIT_COUNT ≤ e.falls.length + 1 := by
  rw [Edges.Ends, or_iff_right hf.1, Edges.collect_of_falls hf, List.length_append,
    List.length_singleton]
  exact ⟨Eq.ge, fun hle => Nat.le_antisymm h.short hle⟩

/-- A frame goes on with the bit of an edge. -/
theorem GoesBy.more (h : GoesBy e f) (hf : e.Falls clk) (hno : ¬ e.Ends clk) {g : Framer}
    (hclk : g.lastClk = some clk) (hedge : g.lastEdgeUs = (e.step clk).edge)
    (hstate : g.state = .receiving (e.falls.length + 1)) (hlast : g.lastFallingUs = e.now) :
    GoesBy (e.step clk) g := by
  have hfalls : (e.step clk).falls = e.falls ++ [e.now] := by
    rw [Edges.step, if_neg hno, Edges.collect_of_falls hf]
  refine ⟨hclk, hedge, ?_, ?_, ?_⟩
  · rw [hfalls, if_neg (List.concat_ne_nil _ _), hstate, List.length_append, List.length_singleton]
  · rw [hfalls, List.getLast?_concat]
    rintro _ ⟨⟩
    exact ⟨hlast, Nat.lt_succ_self _, Nat.add_le_add_left (by decide) _⟩
  · rw [hfalls, List.length_append, List.length_singleton]
    exact Nat.not_le.mp (mt (h.ends_iff hf).mpr hno)

theorem GoesBy.not_ends (h : GoesBy e f) (hexp : ¬ e.Expires) (hf : ¬ e.Falls clk) :
    ¬ e.Ends clk := by
  rintro (hc | hc)
  · exact hexp hc
  · rw [Edges.collect_of_not_falls hf] at hc
    exact absurd hc h.short.ne

/-- A sample without an edge that counts. -/
theorem GoesBy.rest (h : GoesBy e f) (hexp : ¬ e.Expires) (hf : ¬ e.Falls clk) {g : Framer}
    (hclk : g.lastClk = some clk) (hedge : g.lastEdgeUs = (e.step clk).edge)
    (hstate : g.state = f.state) (hlast : g.lastFallingUs = f.lastFallingUs) :
    GoesBy (e.step clk) g := by
  have hfalls : (e.step clk).falls = e.falls := by
    rw [Edges.step, if_neg (h.not_ends hexp hf), Edges.collect_of_not_falls hf]
  refine ⟨hclk, hedge, ?_, ?_, ?_⟩
  · rw [hfalls, hstate]
    exact h.state
  · rw [hfalls, hlast]
    intro last hl
    obtain ⟨hlast, hlt, hle⟩ := h.last last hl
    exact ⟨hlast, Nat.lt_succ_of_lt hlt,
      lt_of_le_of_ne hle fun hnow => hexp ⟨last, hl, hnow⟩⟩
  · rw [hfalls]
    exact h.short

/-- One sample: the framer goes on following, and emits a frame where one
ends. -/
theorem GoesBy.step (h : GoesBy e f) (clk data : Bool) :
    GoesBy (e.step clk) (f.ingest clk data e.now).1 ∧
    ((f.ingest clk data e.now).2.isSome ↔ e.Ends clk) := by
  have hi := ingested f ⟨clk, data, e.now⟩
  rw [ingestSample] at hi
  generalize f.ingest clk data e.now = r at hi ⊢
  cases hi with
  | @timeout bits late state =>
    have hexp := h.timesOut_iff.mp late
    have hends : e.Ends clk := .inl hexp
    obtain ⟨rfl, hne⟩ := h.receiving state
    refine ⟨.ended hends rfl ?_ rfl,
      iff_of_true (emitOnTimeout_isSome (List.length_pos_iff.mpr hne) h.short) hends⟩
    show f.lastEdgeUs = if ¬ e.Expires ∧ _ then _ else _
    rw [if_neg fun hc => hc.1 hexp, h.edge]
  | @fall d l change falls =>
    have hf := (h.falls_iff _).mp falls
    have hedge : e.now = (e.step clk).edge :=
      (if_pos ⟨hf.1, by rw [hf.2.1, hf.2.2.1]; rfl⟩).symm
    cases hs : f.state with
    | idle =>
      have hnil := h.idle_iff.mp hs
      have hno : ¬ e.Ends clk := by
        rw [h.ends_iff hf, hnil]
        decide
      simp only [onClkFall]
      exact ⟨h.more hf hno rfl hedge (by rw [hnil]; rfl) rfl, iff_of_false Bool.false_ne_true hno⟩
    | receiving n =>
      obtain ⟨rfl, hne⟩ := h.receiving hs
      simp only [onClkFall]
      split
      next h11 =>
        have hends := (h.ends_iff hf).mpr h11
        exact ⟨.ended hends rfl hedge rfl, iff_of_true rfl hends⟩
      next h11 =>
        have hno := mt (h.ends_iff hf).mp h11
        exact ⟨h.more hf hno rfl hedge rfl rfl, iff_of_false Bool.false_ne_true hno⟩
  | @rest d l edge glitches change waits stays edge_eq =>
    have hexp : ¬ e.Expires := mt h.timesOut_iff.mpr waits
    have hf := mt (h.falls_iff data).mpr stays
    refine ⟨h.rest hexp hf rfl ?_ rfl rfl,
      iff_of_false Bool.false_ne_true (h.not_ends hexp hf)⟩
    rw [edge_eq, h.clk, h.edge, Edges.step]
    exact if_congr (and_iff_right hexp).symm rfl rfl

/-- The framer after samples, one a microsecond. -/
def after (ss : List (Bool × Bool)) : Framer := (Framer.new.ingestAll 0 ss).1

theorem after_concat (ss : List (Bool × Bool)) (s : Bool × Bool) :
    after (ss ++ [s]) = ((after ss).ingest s.1 s.2 ss.length).1 := by
  rw [after, ingestAll_append, Nat.zero_add]
  rfl

theorem goesBy_after (ss : List (Bool × Bool)) : GoesBy (.ofClk (ss.map Prod.fst)) (after ss) := by
  induction ss using List.reverseRecOn with
  | nil => exact goesBy_new
  | append_singleton ss s ih =>
    have hstep := (ih.step s.1 s.2).1
    rw [Edges.now_ofClk, List.length_map] at hstep
    rw [List.map_append, List.map_singleton, Edges.ofClk_concat, after_concat]
    exact hstep

end Framer

end VintageKvm.Ps2
