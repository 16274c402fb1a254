import VintageKvm.Ps2.Framer

/-!
# The XT / AT / PS-2 classifier

The state machine that finds the class of the host from the kinds of its
keyboard frames and the activity of its AUX channel. Its state is a function
of the recent history (`run_expected`), and it raises an event exactly where
its class changes (`ingest_event`).
-/

namespace VintageKvm.Ps2

/-- Host machine class. -/
inductive MachineClass where
  | xt
  | at_
  | ps2
  deriving DecidableEq, Repr

abbrev CONFIDENCE_THRESHOLD : Nat := 3

namespace Classifier

inductive State where
  | unknown
  | xtCandidate (streak : Nat)
  | atCandidate (streak : Nat)
  | confirmed (c : MachineClass)
  deriving DecidableEq, Repr

inductive Event where
  | detected (c : MachineClass)
  | reset
  deriving DecidableEq, Repr

end Classifier

open Classifier (State Event)

structure Classifier where
  state : State
  deriving DecidableEq, Repr

/-- What the classifier ignores: invalid frames, bad parity, bad framing. -/
def Ps2Frame.usable (f : Ps2Frame) : Bool := f.framingOk && f.parityOk && f.kind ≠ .invalid

namespace Classifier

def new : Classifier := ⟨.unknown⟩

def class_ (c : Classifier) : Option MachineClass :=
  match c.state with
  | .confirmed m => some m
  | _ => none

def observeAt (c : Classifier) : Classifier × Option Event :=
  match c.state with
  | .unknown => (⟨.atCandidate 1⟩, none)
  | .atCandidate streak =>
    let streak := min 255 (streak + 1)
    if CONFIDENCE_THRESHOLD ≤ streak then (⟨.confirmed .at_⟩, some (.detected .at_))
    else (⟨.atCandidate streak⟩, none)
  | .xtCandidate _ => (⟨.atCandidate 1⟩, none)
  | .confirmed .xt => (⟨.atCandidate 1⟩, some .reset)
  | .confirmed .at_ => (c, none)
  | .confirmed .ps2 => (c, none)

def observeXt (c : Classifier) : Classifier × Option Event :=
  match c.state with
  | .unknown => (⟨.xtCandidate 1⟩, none)
  | .xtCandidate streak =>
    let streak := min 255 (streak + 1)
    if CONFIDENCE_THRESHOLD ≤ streak then (⟨.confirmed .xt⟩, some (.detected .xt))
    else (⟨.xtCandidate streak⟩, none)
  | .atCandidate _ => (⟨.xtCandidate 1⟩, none)
  | .confirmed .at_ => (⟨.xtCandidate 1⟩, some .reset)
  | .confirmed .ps2 => (⟨.xtCandidate 1⟩, some .reset)
  | .confirmed .xt => (c, none)

def ingestKbdFrame (c : Classifier) (frame : Ps2Frame) : Classifier × Option Event :=
  if frame.usable then
    match frame.kind with
    | .at_ => c.observeAt
    | .xt => c.observeXt
    | .invalid => (c, none)
  else (c, none)

def ingestAuxActivity (c : Classifier) : Classifier × Option Event :=
  if c.state = .confirmed .at_ then (⟨.confirmed .ps2⟩, some (.detected .ps2)) else (c, none)

/-- What comes to the classifier. -/
inductive Input where
  | kbd (frame : Ps2Frame)
  | aux
  deriving DecidableEq, Repr

def ingest (c : Classifier) : Input → Classifier × Option Event
  | .kbd frame => c.ingestKbdFrame frame
  | .aux => c.ingestAuxActivity

/-- The classifier after a history, which lists the newest input first. -/
def run : List Input → Classifier
  | [] => new
  | i :: h => ((run h).ingest i).1

/-! ## The history -/

/-- The kind of an input that counts. -/
def kind? : Input → Option FrameKind
  | .kbd frame => if frame.usable then some frame.kind else none
  | .aux => none

/-- The kinds of the usable frames of a history. -/
def kinds (h : List Input) : List FrameKind := h.filterMap kind?

/-- How many of the newest kinds are equal. -/
def streak : List FrameKind → Nat
  | [] => 0
  | k :: ks => (ks.takeWhile (· = k)).length + 1

/-- AUX activity came after the third frame of the streak: at most `streak - 3`
usable frames are newer. -/
def AuxAfterThird (h : List Input) : Prop :=
  ∃ newer older, h = newer ++ .aux :: older ∧
    (kinds newer).length + CONFIDENCE_THRESHOLD ≤ streak (kinds h)

theorem streak_cons (k : FrameKind) (ks : List FrameKind) :
    streak (k :: ks) = if ks.head? = some k then streak ks + 1 else 1 := by
  cases ks with
  | nil => rfl
  | cons k' ks =>
    by_cases h : k' = k
    · subst h
      simp [streak]
    · simp [streak, h]

section

variable {h : List Input} {i : Input}

theorem kinds_cons_none (hi : kind? i = none) : kinds (i :: h) = kinds h :=
  List.filterMap_cons_none hi

theorem kinds_cons_some {k : FrameKind} (hi : kind? i = some k) : kinds (i :: h) = k :: kinds h :=
  List.filterMap_cons_some hi

/-- Only frames that count, and AUX activity, change the state expected. -/
theorem auxAfterThird_cons_none (hi : kind? i = none) (ha : i ≠ .aux) :
    AuxAfterThird (i :: h) ↔ AuxAfterThird h := by
  rw [AuxAfterThird, AuxAfterThird, kinds_cons_none hi]
  constructor
  · rintro ⟨newer, older, e, hle⟩
    cases newer with
    | nil => exact absurd (List.cons.inj e).1 ha
    | cons j newer =>
      obtain ⟨rfl, e'⟩ := List.cons.inj e
      rw [kinds_cons_none hi] at hle
      exact ⟨newer, older, e', hle⟩
  · rintro ⟨newer, older, e, hle⟩
    refine ⟨i :: newer, older, by rw [e]; rfl, ?_⟩
    rwa [kinds_cons_none hi]

theorem auxAfterThird_aux :
    AuxAfterThird (.aux :: h) ↔ CONFIDENCE_THRESHOLD ≤ streak (kinds h) := by
  rw [AuxAfterThird, kinds_cons_none rfl]
  constructor
  · rintro ⟨newer, older, -, hle⟩
    exact Nat.le_trans (Nat.le_add_left _ _) hle
  · intro hle
    exact ⟨[], h, rfl, by rwa [kinds, List.filterMap_nil, List.length_nil, Nat.zero_add]⟩

/-- A frame of the same kind as the one before it. -/
theorem auxAfterThird_cons_same {k : FrameKind} (hi : kind? i = some k)
    (hk : (kinds h).head? = some k) : AuxAfterThird (i :: h) ↔ AuxAfterThird h := by
  rw [AuxAfterThird, AuxAfterThird, kinds_cons_some hi, streak_cons, if_pos hk]
  constructor
  · rintro ⟨newer, older, e, hle⟩
    cases newer with
    | nil =>
      obtain ⟨rfl, -⟩ := List.cons.inj e
      cases hi
    | cons j newer =>
      obtain ⟨rfl, e'⟩ := List.cons.inj e
      rw [kinds_cons_some hi, List.length_cons] at hle
      exact ⟨newer, older, e', by omega⟩
  · rintro ⟨newer, older, e, hle⟩
    refine ⟨i :: newer, older, by rw [e]; rfl, ?_⟩
    rw [kinds_cons_some hi, List.length_cons]
    omega

theorem ingest_none (c : Classifier) (hi : kind? i = none) (ha : i ≠ .aux) :
    c.ingest i = (c, none) := by
  cases i with
  | aux => exact absurd rfl ha
  | kbd frame =>
    rw [kind?] at hi
    split at hi
    · cases hi
    · rename_i hu
      rw [ingest, ingestKbdFrame, if_neg hu]

theorem ingest_some (c : Classifier) {k : FrameKind} (hi : kind? i = some k) :
    (k = .at_ ∧ c.ingest i = c.observeAt) ∨ (k = .xt ∧ c.ingest i = c.observeXt) := by
  cases i with
  | aux => cases hi
  | kbd frame =>
    rw [kind?] at hi
    split at hi
    · rename_i hu
      have hk := Option.some.inj hi
      rw [ingest, ingestKbdFrame, if_pos hu, hk]
      cases k with
      | at_ => exact .inl ⟨rfl, rfl⟩
      | xt => exact .inr ⟨rfl, rfl⟩
      | invalid =>
        simp only [Ps2Frame.usable, hk, ne_eq, not_true_eq_false, decide_false, Bool.and_false,
          Bool.false_eq_true] at hu
    · cases hi

theorem not_auxAfterThird (hs : streak (kinds h) < CONFIDENCE_THRESHOLD) : ¬ AuxAfterThird h := by
  rintro ⟨newer, older, -, hle⟩
  omega

/-- The states expected, one for each kind of history. -/
inductive Expected (h : List Input) : State → Prop
  | unknown : (kinds h).head? = none → Expected h .unknown
  | atCandidate : (kinds h).head? = some .at_ → streak (kinds h) < CONFIDENCE_THRESHOLD →
      Expected h (.atCandidate (streak (kinds h)))
  | at_ : (kinds h).head? = some .at_ → CONFIDENCE_THRESHOLD ≤ streak (kinds h) →
    ¬ AuxAfterThird h →
      Expected h (.confirmed .at_)
  | ps2 : (kinds h).head? = some .at_ → CONFIDENCE_THRESHOLD ≤ streak (kinds h) → AuxAfterThird h →
      Expected h (.confirmed .ps2)
  | xtCandidate : (kinds h).head? = some .xt → streak (kinds h) < CONFIDENCE_THRESHOLD →
      Expected h (.xtCandidate (streak (kinds h)))
  | xt : (kinds h).head? = some .xt → CONFIDENCE_THRESHOLD ≤ streak (kinds h) →
    Expected h (.confirmed .xt)

/-- A frame of the kind before it continues the streak. -/
theorem streak_same {k : FrameKind} (hi : kind? i = some k) (hh : (kinds h).head? = some k) :
    streak (kinds (i :: h)) = streak (kinds h) + 1 := by
  rw [kinds_cons_some hi, streak_cons, if_pos hh]

/-- A frame of another kind begins a streak. -/
theorem streak_first {k : FrameKind} (hi : kind? i = some k) (hh : (kinds h).head? ≠ some k) :
    streak (kinds (i :: h)) = 1 := by
  rw [kinds_cons_some hi, streak_cons, if_neg hh]

theorem head_cons {k : FrameKind} (hi : kind? i = some k) : (kinds (i :: h)).head? = some k := by
  rw [kinds_cons_some hi]
  rfl

theorem Expected.first_at (hi : kind? i = some .at_) (hh : (kinds h).head? ≠ some .at_) :
    Expected (i :: h) (.atCandidate 1) := by
  have hs := streak_first hi hh
  exact hs ▸ .atCandidate (head_cons hi) (by rw [hs]; decide)

theorem Expected.first_xt (hi : kind? i = some .xt) (hh : (kinds h).head? ≠ some .xt) :
    Expected (i :: h) (.xtCandidate 1) := by
  have hs := streak_first hi hh
  exact hs ▸ .xtCandidate (head_cons hi) (by rw [hs]; decide)

theorem Expected.observeAt {s : State} (hi : kind? i = some .at_) (he : Expected h s) :
    Expected (i :: h) (observeAt ⟨s⟩).1.state := by
  cases he with
  | unknown hh => exact .first_at hi (by rw [hh]; exact (Option.some_ne_none _).symm)
  | atCandidate hh hlt =>
    have hs := streak_same hi hh
    have hno := mt (auxAfterThird_cons_same hi hh).mp (not_auxAfterThird hlt)
    have hlt' : streak (kinds h) < 3 := hlt
    have hmin : min 255 (streak (kinds h) + 1) = streak (kinds h) + 1 := by omega
    rw [Classifier.observeAt]
    simp only [hmin]
    split
    · exact .at_ (head_cons hi) (by rwa [hs]) hno
    · exact hs ▸ .atCandidate (head_cons hi) (by rw [hs]; omega)
  | at_ hh hge hno =>
    exact .at_ (head_cons hi) (by rw [streak_same hi hh]; omega)
      (mt (auxAfterThird_cons_same hi hh).mp hno)
  | ps2 hh hge ha =>
    exact .ps2 (head_cons hi) (by rw [streak_same hi hh]; omega)
      ((auxAfterThird_cons_same hi hh).mpr ha)
  | xtCandidate hh => exact .first_at hi (by rw [hh]; decide)
  | xt hh => exact .first_at hi (by rw [hh]; decide)

theorem Expected.observeXt {s : State} (hi : kind? i = some .xt) (he : Expected h s) :
    Expected (i :: h) (observeXt ⟨s⟩).1.state := by
  cases he with
  | unknown hh => exact .first_xt hi (by rw [hh]; exact (Option.some_ne_none _).symm)
  | xtCandidate hh hlt =>
    have hs := streak_same hi hh
    have hlt' : streak (kinds h) < 3 := hlt
    have hmin : min 255 (streak (kinds h) + 1) = streak (kinds h) + 1 := by omega
    rw [Classifier.observeXt]
    simp only [hmin]
    split
    · exact .xt (head_cons hi) (by rwa [hs])
    · exact hs ▸ .xtCandidate (head_cons hi) (by rw [hs]; omega)
  | xt hh hge => exact .xt (head_cons hi) (by rw [streak_same hi hh]; omega)
  | atCandidate hh => exact .first_xt hi (by rw [hh]; decide)
  | at_ hh => exact .first_xt hi (by rw [hh]; decide)
  | ps2 hh => exact .first_xt hi (by rw [hh]; decide)

/-- An input that does not count. -/
theorem Expected.none {s : State} (hi : kind? i = .none) (ha : i ≠ .aux) (he : Expected h s) :
    Expected (i :: h) s := by
  have hk : kinds (i :: h) = kinds h := kinds_cons_none hi
  have hx := auxAfterThird_cons_none (h := h) hi ha
  cases he with
  | unknown hh => exact .unknown (hk ▸ hh)
  | atCandidate hh hlt => exact hk ▸ .atCandidate (hk ▸ hh) (hk ▸ hlt)
  | at_ hh hge hno => exact .at_ (hk ▸ hh) (hk ▸ hge) (mt hx.mp hno)
  | ps2 hh hge ha' => exact .ps2 (hk ▸ hh) (hk ▸ hge) (hx.mpr ha')
  | xtCandidate hh hlt => exact hk ▸ .xtCandidate (hk ▸ hh) (hk ▸ hlt)
  | xt hh hge => exact .xt (hk ▸ hh) (hk ▸ hge)

/-- AUX activity promotes a confirmed AT host. -/
theorem Expected.aux {s : State} (he : Expected h s) :
    Expected (.aux :: h) (ingestAuxActivity ⟨s⟩).1.state := by
  have hk : kinds (.aux :: h) = kinds h := kinds_cons_none rfl
  cases he with
  | unknown hh => exact .unknown (hk ▸ hh)
  | atCandidate hh hlt => exact hk ▸ .atCandidate (hk ▸ hh) (hk ▸ hlt)
  | at_ hh hge => exact .ps2 (hk ▸ hh) (hk ▸ hge) (auxAfterThird_aux.mpr hge)
  | ps2 hh hge => exact .ps2 (hk ▸ hh) (hk ▸ hge) (auxAfterThird_aux.mpr hge)
  | xtCandidate hh hlt => exact hk ▸ .xtCandidate (hk ▸ hh) (hk ▸ hlt)
  | xt hh hge => exact .xt (hk ▸ hh) (hk ▸ hge)

end

/-- What the state is after every history. -/
theorem expected_run (h : List Input) : Expected h (run h).state := by
  induction h with
  | nil => exact .unknown rfl
  | cons i h ih =>
    cases hi : kind? i with
    | none =>
      by_cases ha : i = .aux
      · subst ha
        exact ih.aux
      · rw [run, ingest_none _ hi ha]
        exact ih.none hi ha
    | some k =>
      rcases ingest_some (run h) hi with ⟨rfl, e⟩ | ⟨rfl, e⟩
      · rw [run, e]
        exact ih.observeAt hi
      · rw [run, e]
        exact ih.observeXt hi

/-- A history has one state. -/
theorem Expected.unique {h : List Input} {s s' : State} (he : Expected h s) (he' : Expected h s') :
    s = s' := by
  cases he <;> cases he' <;> grind

/-! ## Events -/

/-- What an input does to the class, and the event that tells of it. -/
def Tells (c c' : Classifier) (ev : Option Event) : Prop :=
  (∀ m, ev = some (.detected m) ↔ c'.class_ = some m ∧ c.class_ ≠ some m) ∧
    (ev = some .reset ↔ c.class_ ≠ none ∧ c'.class_ = none)

theorem Tells.still (c : Classifier) : Tells c c none :=
  ⟨fun _ => ⟨(nomatch ·), fun h => absurd h.1 h.2⟩, ⟨(nomatch ·), fun h => absurd h.2 h.1⟩⟩

/-- A candidate is no class. -/
theorem Tells.candidate {c c' : Classifier} (h : c.class_ = none) (h' : c'.class_ = none) :
    Tells c c' none :=
  ⟨fun _ => ⟨(nomatch ·), fun hm => nomatch h'.symm.trans hm.1⟩,
    ⟨(nomatch ·), fun hm => absurd h hm.1⟩⟩

theorem Tells.detected {c c' : Classifier} {m : MachineClass} (h : c.class_ ≠ some m)
    (h' : c'.class_ = some m) : Tells c c' (some (.detected m)) := by
  refine ⟨fun m' => ⟨fun e => ?_, fun hm => ?_⟩,
    ⟨(nomatch ·), fun hm => nomatch h'.symm.trans hm.2⟩⟩
  · obtain rfl : m = m' := by injection Option.some.inj e
    exact ⟨h', h⟩
  · rw [Option.some.inj (h'.symm.trans hm.1)]

theorem Tells.reset {c c' : Classifier} {m : MachineClass} (h : c.class_ = some m)
    (h' : c'.class_ = none) : Tells c c' (some .reset) :=
  ⟨fun _ => ⟨(nomatch ·), fun hm => nomatch h'.symm.trans hm.1⟩,
    ⟨fun _ => ⟨by rw [h]; exact Option.some_ne_none m, h'⟩, fun _ => rfl⟩⟩

theorem observeAt_tells (c : Classifier) : Tells c c.observeAt.1 c.observeAt.2 := by
  obtain ⟨s⟩ := c
  cases s with
  | unknown => exact .candidate rfl rfl
  | xtCandidate _ => exact .candidate rfl rfl
  | atCandidate streak =>
    rw [observeAt]
    dsimp only
    split
    · exact .detected (Option.some_ne_none _).symm rfl
    · exact .candidate rfl rfl
  | confirmed m =>
    cases m with
    | xt => exact .reset rfl rfl
    | at_ => exact .still _
    | ps2 => exact .still _

theorem observeXt_tells (c : Classifier) : Tells c c.observeXt.1 c.observeXt.2 := by
  obtain ⟨s⟩ := c
  cases s with
  | unknown => exact .candidate rfl rfl
  | atCandidate _ => exact .candidate rfl rfl
  | xtCandidate streak =>
    rw [observeXt]
    dsimp only
    split
    · exact .detected (Option.some_ne_none _).symm rfl
    · exact .candidate rfl rfl
  | confirmed m =>
    cases m with
    | xt => exact .still _
    | at_ => exact .reset rfl rfl
    | ps2 => exact .reset rfl rfl

theorem ingestAuxActivity_tells (c : Classifier) :
    Tells c c.ingestAuxActivity.1 c.ingestAuxActivity.2 := by
  rw [ingestAuxActivity]
  split
  · rename_i h
    refine .detected ?_ rfl
    rw [class_, h]
    decide
  · exact .still c

theorem ingest_tells (c : Classifier) (i : Input) : Tells c (c.ingest i).1 (c.ingest i).2 := by
  cases hi : kind? i with
  | none =>
    by_cases ha : i = .aux
    · subst ha
      exact c.ingestAuxActivity_tells
    · rw [ingest_none c hi ha]
      exact .still c
  | some k =>
    rcases ingest_some c hi with ⟨-, e⟩ | ⟨-, e⟩ <;> rw [e]
    · exact c.observeAt_tells
    · exact c.observeXt_tells

/-- The classifier is a function of the recent history, and its events tell of
the changes of its class. -/
theorem classifier_history (h : List Input) :
    (∀ s, (run h).state = s ↔ Expected h s) ∧ ∀ i,
      Tells (run h) (run (i :: h)) ((run h).ingest i).2 :=
  ⟨fun _ => ⟨fun e => e ▸ expected_run h, (expected_run h).unique⟩, fun i => (run h).ingest_tells i⟩

end Classifier

end VintageKvm.Ps2
