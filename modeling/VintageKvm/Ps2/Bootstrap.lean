import VintageKvm.Lib.Run
import VintageKvm.Ps2.Classifier

/-!
# The bootstrap of a detected host

The supervisor feeds the classifier and hands a detected class to the injector
through a latest-value signal; the injector types the DEBUG script of that
class. One detection must start one script: `meets_iff_once` says when a run
of the tasks keeps to that, `boot_twice` is a run that does not.
-/

namespace VintageKvm.Ps2

/-- Coarse-grained supervisor lifecycle. -/
inductive SupervisorState where
  | boot
  | selftest
  | awaitHostPower
  | detectMachineClass
  | injectDebug
  | serveStage0Download
  | serveStage1Handoff
  | serveCapHandshake
  | serveStage2Download
  | dpReady
  | dpActive
  | errorRecoverable
  | faultUnrecoverable
  deriving DecidableEq, Repr

abbrev KBD_FRAMES_DEPTH : Nat := 8
abbrev INJECT_RAW_DEPTH : Nat := 4
abbrev INJECT_RAW_MAX : Nat := 32

/-- An ad-hoc raw-byte inject. -/
structure RawInject where
  bytes : List (BitVec 8)
  fits : bytes.length ≤ INJECT_RAW_MAX

/-- What the injector task is at. -/
inductive Injector where
  | waiting
  | typing (c : MachineClass)
  | raw (bytes : RawInject)

/-- The tasks around the bootstrap, and what they share. -/
structure System where
  classifier : Classifier
  kbdFrames : Channel Ps2Frame KBD_FRAMES_DEPTH
  auxActivity : Signal Unit
  injectTrigger : Signal MachineClass
  injectRaw : Channel RawInject INJECT_RAW_DEPTH
  injector : Injector
  lifecycle : SupervisorState
  /-- How often a script was started since the last reset. No task reads it. -/
  starts : Nat

namespace System

open Classifier (Event)

/-- `main` has set the lifecycle before the tasks get anything to do. -/
def boot : System where
  classifier := .new
  kbdFrames := .new
  auxActivity := .new
  injectTrigger := .new
  injectRaw := .new
  injector := .waiting
  lifecycle := .serveCapHandshake
  starts := 0

variable (s : System)

/-! ## The supervisor -/

def handleEvent : Event → System
  | .detected c => { s with injectTrigger := s.injectTrigger.signal c }
  | .reset =>
    let lifecycle := match s.lifecycle with
      | .injectDebug | .serveStage0Download | .serveStage1Handoff => .detectMachineClass
      | cur => cur
    { s with lifecycle := lifecycle, starts := 0 }

/-- One input of the supervisor goes to the classifier. A frame goes first. -/
def feed : System × Option Event :=
  match s.kbdFrames.receive with
  | some (frame, rest) =>
    let (classifier, ev) := s.classifier.ingestKbdFrame frame
    ({ s with kbdFrames := rest, classifier := classifier }, ev)
  | none =>
    match s.auxActivity.wait with
    | some ((), rest) =>
      let (classifier, ev) := s.classifier.ingestAuxActivity
      ({ s with auxActivity := rest.reset, classifier := classifier }, ev)
    | none => (s, none)

/-- One turn of the supervisor task. -/
def supervise : System :=
  match s.feed with
  | (s, some ev) => s.handleEvent ev
  | (s, none) => s

/-! ## The injector -/

/-- The injector takes up what waits for it. A trigger goes first. -/
def inject : System :=
  match s.injector with
  | .waiting =>
    match s.injectTrigger.wait with
    | some (c, rest) =>
      { s with
        injectTrigger := rest.reset, lifecycle := .injectDebug, injector := .typing c,
        starts := s.starts + 1 }
    | none =>
      match s.injectRaw.receive with
      | some (bytes, rest) => { s with injectRaw := rest, injector := .raw bytes }
      | none => s
  | _ => s

/-- What the injector is typing is typed. -/
def typed : System :=
  match s.injector with
  | .waiting => s
  | .typing _ => { s with lifecycle := .serveStage0Download, injector := .waiting }
  | .raw _ => { s with injector := .waiting }

/-! ## Runs -/

inductive Action where
  /-- The keyboard oversampler has a frame. -/
  | kbdFrame (frame : Ps2Frame)
  /-- The AUX oversampler has a well-formed frame. -/
  | auxFrame
  /-- The control RPC asks for a raw inject. -/
  | injectRaw (bytes : RawInject)
  | supervise
  | inject
  | typed

def act : Action → System
  | .kbdFrame frame => { s with kbdFrames := s.kbdFrames.trySend frame }
  | .auxFrame => { s with auxActivity := s.auxActivity.signal () }
  | .injectRaw bytes => { s with injectRaw := s.injectRaw.trySend bytes }
  | .supervise => s.supervise
  | .inject => s.inject
  | .typed => s.typed

def run (as : List Action) : System := as.foldl act boot

/-- In no state of the run was a second script started since the last reset. -/
def Once (as : List Action) : Prop := ∀ n, (run (as.take n)).starts ≤ 1

/-- The classifier is about to raise `Detected`: its next frame, or else the
AUX activity, gives it a class. -/
def Detects : Prop := ∃ c, s.feed.2 = some (.detected c)

/-- A class is detected only where no script was started since the last reset. -/
def Sound (a : Action) : Prop :=
  match a with
  | .supervise => s.Detects → s.starts = 0
  | _ => True

/-- Every step of the run is sound. -/
def Meets (as : List Action) : Prop := Run.Along act Sound boot as

/-! ## One step -/

theorem feed_frame : s.feed.1.starts = s.starts ∧ s.feed.1.injectTrigger = s.injectTrigger := by
  rw [feed]
  split
  · exact ⟨rfl, rfl⟩
  · split
    · exact ⟨rfl, rfl⟩
    · exact ⟨rfl, rfl⟩

variable {s}

theorem supervise_none (h : s.feed.2 = none) :
    s.supervise.starts = s.starts ∧ s.supervise.injectTrigger = s.injectTrigger := by
  have hf := s.feed_frame
  rw [supervise]
  split
  · rename_i e
    rw [e] at h
    cases h
  · rename_i e
    rwa [e] at hf

theorem supervise_some {ev : Event} (h : s.feed.2 = some ev) :
    s.supervise = s.feed.1.handleEvent ev := by
  rw [supervise]
  split
  · rename_i e
    rw [e] at h ⊢
    obtain rfl := Option.some.inj h
    rfl
  · rename_i e
    rw [e] at h
    cases h

/-- A script was started at most once, and then nothing triggers another. -/
def Served (s : System) : Prop := s.starts = 0 ∨ s.starts = 1 ∧ s.injectTrigger.latest = none

theorem Served.le_one (h : s.Served) : s.starts ≤ 1 := by
  obtain h | ⟨h, -⟩ := h <;> omega

theorem Served.supervise (h : s.Served) (hs : s.Detects → s.starts = 0) : s.supervise.Served := by
  obtain ⟨hstarts, htrigger⟩ := s.feed_frame
  cases e : s.feed.2 with
  | none =>
    obtain ⟨hstarts, htrigger⟩ := supervise_none e
    rwa [Served, hstarts, htrigger]
  | some ev =>
    rw [supervise_some e]
    cases ev with
    | reset => exact .inl rfl
    | detected c =>
      have h0 := hs ⟨c, e⟩
      exact .inl (hstarts.trans h0)

theorem Served.inject (h : s.Served) : s.inject.Served := by
  rw [System.inject]
  split
  · split
    · rename_i c rest e
      -- a trigger is there only before the first script
      obtain h | ⟨-, h⟩ := h
      · exact .inr ⟨congrArg (· + 1) h, rfl⟩
      · rw [Signal.wait, h] at e
        cases e
    · split
      · exact h
      · exact h
  · exact h

theorem Served.typed (h : s.Served) : s.typed.Served := by
  rw [System.typed]
  split
  · exact h
  · exact h
  · exact h

theorem Served.act (h : s.Served) {a : Action} (ha : s.Sound a) : (s.act a).Served := by
  cases a with
  | kbdFrame frame => exact h
  | auxFrame => exact h
  | injectRaw bytes => exact h
  | supervise => exact h.supervise ha
  | inject => exact h.inject
  | typed => exact h.typed

theorem Meets.served {as : List Action} (h : Meets as) : (run as).Served :=
  Run.Along.invariant h (.inl rfl) fun _ _ hs ha => hs.act ha

theorem Meets.once {as : List Action} (h : Meets as) : Once as :=
  fun n => (Meets.served (Run.Along.take h n)).le_one

/-! ## A second script -/

theorem typed_waits : s.typed.injector = .waiting := by
  rw [System.typed]
  split
  · assumption
  · rfl
  · rfl

theorem typed_frame : s.typed.starts = s.starts ∧ s.typed.injectTrigger = s.injectTrigger := by
  rw [System.typed]
  split
  · exact ⟨rfl, rfl⟩
  · exact ⟨rfl, rfl⟩
  · exact ⟨rfl, rfl⟩

/-- A trigger is taken up as soon as the injector is free. -/
theorem inject_trigger {c : MachineClass} (hw : s.injector = .waiting)
    (hc : s.injectTrigger.latest = some c) : s.inject.starts = s.starts + 1 := by
  rw [System.inject, hw, Signal.wait, hc]
  rfl

/-- A class detected after a script was started gets a script of its own. -/
theorem unsound_starts {a : Action} (ha : ¬ s.Sound a) : 1 < ((s.act a).typed.inject).starts := by
  cases a with
  | supervise =>
    obtain ⟨⟨c, e⟩, hne⟩ := Classical.not_imp.mp ha
    have hact : s.act .supervise = s.feed.1.handleEvent (.detected c) := supervise_some e
    obtain ⟨hstarts, htrigger⟩ := (s.act .supervise).typed_frame
    rw [inject_trigger typed_waits (c := c) (by rw [htrigger, hact]; rfl), hstarts, hact]
    have : (s.feed.1.handleEvent (.detected c)).starts = s.starts := s.feed_frame.1
    omega
  | _ => exact absurd trivial ha

theorem run_append (as bs : List Action) : run (as ++ bs) = bs.foldl act (run as) :=
  List.foldl_append

/-- Runs start one script a detection, also when the injector then gets to what
was left for it, exactly where no class is detected after a start. -/
theorem meets_iff_once (as : List Action) :
    Meets as ↔ ∀ n, Once (as.take n ++ [.typed, .inject]) := by
  constructor
  · intro h n
    exact Meets.once (Run.Along.append (Run.Along.take h n) ⟨trivial, trivial, trivial⟩)
  · intro h
    by_contra hm
    obtain ⟨n, a, ha, -, hP⟩ := Run.exists_first hm
    have htake : as.take (n + 1) = as.take n ++ [a] := by rw [List.take_add_one, ha]; rfl
    have hlast := h (n + 1) (n + 3)
    rw [List.take_of_length_le (by simp), htake, List.append_assoc, run_append] at hlast
    exact Nat.not_lt.mpr hlast (unsound_starts hP)

/-- Three AT frames, and AUX activity once the injector has started typing. -/
def lateAux : List Action :=
  let frame : Ps2Frame :=
    { kind := .at_, data := 0x1C, parityOk := true, framingOk := true, startTimestampUs := 0,
      timing := ⟨List.replicate 10 80, 0, 0⟩ }
  [.kbdFrame frame, .supervise, .kbdFrame frame, .supervise, .kbdFrame frame, .supervise,
    .inject, .auxFrame, .supervise, .typed, .inject]

/-- The promotion to PS/2 starts the script again. -/
theorem lateAux_twice : ¬ Once lateAux := fun h => absurd (h 11) (by decide)

end System

end VintageKvm.Ps2
