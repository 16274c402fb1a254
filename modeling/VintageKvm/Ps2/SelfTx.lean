import VintageKvm.Ps2.Edges
import VintageKvm.Ps2.Samplers

/-!
# The keyboard's own transmissions

The injector drives the wire that the oversampler reads; `run` drops a frame
that completes less than `SELF_TX_GUARD_US` after CLK was last driven low.
`selfFree_iff`: no frame with an edge driven by the injector goes to the
classifier, iff every frame with such an edge, as CLK shows them (`Edges`), ends
within the guard.
-/

namespace VintageKvm.Ps2.Kbd

open Framer (GoesBy)

/-- What comes to the task and its channel: a sample, or the supervisor takes a
frame. -/
inductive Turn where
  | sample (x : Sample)
  | receive

namespace Task

variable (k : Task) (pulls : List Bool) (x : Sample)

/-- The sample as the framer gets it. -/
def stamped : Ps2.Sample := ⟨x.clk, x.data, k.tUs⟩

/-- CLK_PULL at the falling edges of the frame being received, with that of a
sample. -/
def collectPulls : List Bool := if k.framer.Falls (k.stamped x) then pulls ++ [x.clkPull] else pulls

/-- A sample, with CLK_PULL at the falling edges of the frame being received. -/
def watch : Task × List Bool :=
  (k.sample x, if (k.sample x).framer.state = .idle then [] else k.collectPulls pulls x)

/-- `KBD_FRAMES.receive()`. -/
def receive : Task :=
  match k.kbdFrames.receive with
  | some (_, rest) => { k with kbdFrames := rest }
  | none => k

/-- The sample completes a frame. -/
def Completes : Prop := ((k.framer.ingestSample (k.stamped x)).2).isSome

/-- The sample makes `run` forward a frame: the channel takes it. -/
def Forwards : Prop := (k.sample x).kbdFrames.queue ≠ k.kbdFrames.queue

end Task

def turn (w : Task × List Bool) : Turn → Task × List Bool
  | .sample x => w.1.watch w.2 x
  | .receive => (w.1.receive, w.2)

/-- The task after samples, one a microsecond, and CLK_PULL at the falling
edges of the frame being received. -/
def watched (as : List Turn) : Task × List Bool := as.foldl turn (.new, [])

def samples (as : List Turn) : List Sample := as.filterMap fun
  | .sample x => some x
  | .receive => none

/-- No frame that is forwarded has a falling edge at a sample with CLK_PULL
low, whenever the supervisor takes its frames. -/
def SelfFree (xs : List Sample) : Prop :=
  ∀ as ss x rest, samples as = xs → as = ss ++ .sample x :: rest →
  (watched ss).1.Forwards x → false ∉ (watched ss).1.collectPulls (watched ss).2 x

/-- CLK_PULL in a sample. -/
def pullAt (xs : List Sample) (i : Nat) : Bool := (xs[i]?.map Sample.clkPull).getD true

/-- CLK_PULL is low at a falling edge of the frame. -/
def SelfDriven (xs : List Sample) (g : Group) : Prop := ∃ i ∈ g.falls, pullAt xs i = false

/-- CLK_PULL is low in a sample of or before the frame, less than
`SELF_TX_GUARD_US` before its end. -/
def Guarded (xs : List Sample) (g : Group) : Prop :=
  ∃ j ≤ g.ends, g.ends < j + SELF_TX_GUARD_US ∧ pullAt xs j = false

theorem pullAt_append {xs : List Sample} (ys : List Sample) {i : Nat} (h : i < xs.length) :
    pullAt (xs ++ ys) i = pullAt xs i := by
  rw [pullAt, List.getElem?_append_left h, pullAt]

theorem pullAt_lt {xs : List Sample} {i : Nat} (h : pullAt xs i = false) : i < xs.length := by
  by_contra hge
  rw [pullAt, List.getElem?_eq_none (Nat.not_lt.mp hge)] at h
  cases h

theorem selfDriven_append {xs : List Sample} (ys : List Sample) {g : Group}
    (h : ∀ i ∈ g.falls, i < xs.length) : SelfDriven (xs ++ ys) g ↔ SelfDriven xs g :=
  exists_congr fun i => and_congr_right fun hi => by rw [pullAt_append ys (h i hi)]

theorem guarded_append {xs : List Sample} (ys : List Sample) {g : Group} (h : g.ends < xs.length) :
    Guarded (xs ++ ys) g ↔ Guarded xs g :=
  exists_congr fun j => and_congr_right fun hj => by rw [pullAt_append ys (Nat.lt_of_le_of_lt hj h)]

theorem pullAt_concat (xs : List Sample) (x : Sample) :
    pullAt (xs ++ [x]) xs.length = x.clkPull := by
  rw [pullAt, List.getElem?_concat_length]
  rfl

namespace Task

variable {k : Task} {x : Sample}

theorem receive_keeps (k : Task) : k.receive.framer = k.framer ∧ k.receive.tUs = k.tUs ∧
    k.receive.lastSelfTxUs = k.lastSelfTxUs ∧
    k.receive.kbdFrames.queue = k.kbdFrames.queue.tail := by
  obtain ⟨framer, tUs, lastSelfTxUs, counters, selfTxFrames, ⟨queue, hfits⟩⟩ := k
  cases queue with
  | nil => exact ⟨rfl, rfl, rfl, rfl⟩
  | cons f fs => exact ⟨rfl, rfl, rfl, rfl⟩

/-- A frame that is not our own is taken by a channel with room. -/
theorem frame_queue (k : Task) (f : Ps2Frame) : (k.frame f).kbdFrames.queue =
    if ¬ k.selfDriven ∧ k.kbdFrames.queue.length < KBD_FRAMES_DEPTH then k.kbdFrames.queue ++ [f]
    else k.kbdFrames.queue := by
  unfold frame
  dsimp only
  rw [show ({ k with counters := k.counters.frame f } : Task).selfDriven = k.selfDriven from rfl]
  cases k.selfDriven with
  | true => exact (if_neg fun h => h.1 rfl).symm
  | false =>
    rw [if_neg Bool.false_ne_true]
    dsimp only [Channel.trySend]
    split
    next hroom => exact (if_pos ⟨Bool.false_ne_true, hroom⟩).symm
    next hfull => exact (if_neg fun h => hfull h.2).symm

theorem sample_queue (k : Task) (x : Sample) : (k.sample x).kbdFrames.queue =
    match (k.framer.ingest x.clk x.data k.tUs).2 with
    | some f => if ¬ (k.notePull x.clkPull).selfDriven ∧ k.kbdFrames.queue.length < KBD_FRAMES_DEPTH
        then k.kbdFrames.queue ++ [f] else k.kbdFrames.queue
    | none => k.kbdFrames.queue := by
  obtain ⟨hframer, htUs, hframes⟩ := k.notePull_keeps x.clkPull
  have hingest : (k.notePull x.clkPull).framer.ingest x.clk x.data (k.notePull x.clkPull).tUs =
      k.framer.ingest x.clk x.data k.tUs := by rw [hframer, htUs]
  unfold sample
  dsimp only
  rw [hingest, ← hframes]
  cases (k.framer.ingest x.clk x.data k.tUs).2 with
  | some f =>
    exact frame_queue { k.notePull x.clkPull with
      framer := (k.framer.ingest x.clk x.data k.tUs).1 } f
  | none => rfl

theorem forwards_iff (k : Task) (x : Sample) : k.Forwards x ↔
    k.Completes x ∧ ¬ (k.notePull x.clkPull).selfDriven ∧
    k.kbdFrames.queue.length < KBD_FRAMES_DEPTH := by
  unfold Forwards Completes stamped Framer.ingestSample
  rw [sample_queue]
  dsimp only
  split
  next f h =>
    rw [h, and_iff_right (show (some f).isSome from rfl)]
    split
    next htakes =>
      exact iff_of_true (fun he => List.cons_ne_nil _ _ (List.append_right_eq_self.mp he)) htakes
    next hdrops => exact iff_of_false (fun hne => hne rfl) hdrops
  next h =>
    rw [h]
    exact iff_of_false (fun hne => hne rfl) fun hc => Bool.false_ne_true hc.1

/-- At most one frame is forwarded. -/
theorem sample_queue_tail (h : k.kbdFrames.queue = []) (x : Sample) :
    (k.sample x).kbdFrames.queue.tail = [] := by
  rw [sample_queue, h]
  split
  next => split <;> rfl
  next => rfl

end Task

/-! ## The task goes along with CLK -/

/-- The task after samples, and the edges of CLK in them. -/
structure Tracks (w : Task × List Bool) (xs : List Sample) : Prop where
  goesBy : GoesBy (.ofClk (xs.map Sample.clk)) w.1.framer
  tUs : w.1.tUs = xs.length
  pulls : w.2 = (Edges.ofClk (xs.map Sample.clk)).falls.map (pullAt xs)
  /-- `last_self_tx_us` is the last sample with CLK_PULL low. -/
  selfTx : ∀ m, (∃ t, w.1.lastSelfTxUs = some t ∧ m ≤ t) ↔ ∃ j, m ≤ j ∧ pullAt xs j = false

namespace Tracks

variable {w : Task × List Bool} {xs : List Sample} (x : Sample)

theorem completes_iff (h : Tracks w xs) :
    w.1.Completes x ↔ (Edges.ofClk (xs.map Sample.clk)).Ends x.clk := by
  have hstep := (h.goesBy.step x.clk x.data).2
  rwa [Edges.now_ofClk, List.length_map, ← h.tUs] at hstep

theorem collectPulls_eq (h : Tracks w xs) : w.1.collectPulls w.2 x =
    ((Edges.ofClk (xs.map Sample.clk)).collect x.clk).map (pullAt (xs ++ [x])) := by
  have hlen : (xs.map Sample.clk).length = xs.length := List.length_map ..
  have hfalls : w.1.framer.Falls (w.1.stamped x) ↔
      (Edges.ofClk (xs.map Sample.clk)).Falls x.clk := by
    rw [← h.goesBy.falls_iff x.data, Edges.now_ofClk, hlen, ← h.tUs]
    rfl
  have hold : (Edges.ofClk (xs.map Sample.clk)).falls.map (pullAt (xs ++ [x])) = w.2 := by
    rw [h.pulls]
    exact List.map_congr_left fun i hi => pullAt_append [x] (hlen ▸ Edges.falls_lt _ i hi)
  unfold Task.collectPulls Edges.collect
  rw [if_congr hfalls rfl rfl]
  split
  next => rw [List.map_append, hold, List.map_singleton, Edges.now_ofClk, hlen, pullAt_concat]
  next => exact hold.symm

theorem pullAt_concat_iff (m : Nat) : (∃ j, m ≤ j ∧ pullAt (xs ++ [x]) j = false) ↔
    (∃ j, m ≤ j ∧ pullAt xs j = false) ∨ m ≤ xs.length ∧ x.clkPull = false := by
  constructor
  · rintro ⟨j, hm, hj⟩
    have hle := pullAt_lt hj
    rw [List.length_append, List.length_singleton] at hle
    rcases Nat.lt_or_eq_of_le (Nat.le_of_lt_succ hle) with hjlt | rfl
    · exact .inl ⟨j, hm, by rwa [pullAt_append _ hjlt] at hj⟩
    · exact .inr ⟨hm, by rwa [pullAt_concat] at hj⟩
  · rintro (⟨j, hm, hj⟩ | ⟨hm, hx⟩)
    · exact ⟨j, hm, by rwa [pullAt_append _ (pullAt_lt hj)]⟩
    · exact ⟨xs.length, hm, by rwa [pullAt_concat]⟩

theorem notePull_selfTx (h : Tracks w xs) (m : Nat) :
    (∃ t, (w.1.notePull x.clkPull).lastSelfTxUs = some t ∧ m ≤ t) ↔
    ∃ j, m ≤ j ∧ pullAt (xs ++ [x]) j = false := by
  rw [pullAt_concat_iff, Task.notePull]
  cases hx : x.clkPull with
  | false =>
    rw [if_neg Bool.false_ne_true, or_iff_right_of_imp
      fun ⟨j, hm, hj⟩ => ⟨hm.trans (pullAt_lt hj).le, rfl⟩, ← h.tUs]
    exact ⟨fun ⟨t, ht, hm⟩ => ⟨Option.some.inj ht ▸ hm, rfl⟩, fun hm => ⟨_, rfl, hm.1⟩⟩
  | true =>
    rw [or_iff_left fun hc => Bool.noConfusion hc.2]
    exact h.selfTx m

theorem guarded_iff (h : Tracks w xs) (falls : List Nat) :
    Guarded (xs ++ [x]) ⟨falls, xs.length⟩ ↔ (w.1.notePull x.clkPull).selfDriven := by
  have hguarded : Guarded (xs ++ [x]) ⟨falls, xs.length⟩ ↔
      ∃ t, (w.1.notePull x.clkPull).lastSelfTxUs = some t ∧
        xs.length + 1 - SELF_TX_GUARD_US ≤ t := by
    rw [notePull_selfTx x h]
    refine exists_congr fun j => ?_
    constructor
    · rintro ⟨-, hj, hpull⟩
      exact ⟨Nat.sub_le_of_le_add hj, hpull⟩
    · rintro ⟨hj, hpull⟩
      have hlt := pullAt_lt hpull
      rw [List.length_append, List.length_singleton] at hlt
      exact ⟨Nat.le_of_lt_succ hlt, Nat.le_add_of_sub_le hj, hpull⟩
  have htUs := (w.1.notePull_keeps x.clkPull).2.1.trans h.tUs
  rw [hguarded, Task.selfDriven, htUs]
  cases (w.1.notePull x.clkPull).lastSelfTxUs with
  | none => exact iff_of_false nofun Bool.false_ne_true
  | some t =>
    show (∃ t', some t = some t' ∧ xs.length + 1 - 1500 ≤ t') ↔ decide (xs.length - t < 1500) = true
    rw [decide_eq_true_iff]
    constructor
    · rintro ⟨t', ht, h⟩
      obtain rfl := Option.some.inj ht
      omega
    · intro h
      exact ⟨t, rfl, by omega⟩

/-- The frame that ends with a sample has an edge that is self-driven. -/
theorem selfDriven_iff (h : Tracks w xs) :
    SelfDriven (xs ++ [x]) ⟨(Edges.ofClk (xs.map Sample.clk)).collect x.clk, xs.length⟩ ↔
      false ∈ w.1.collectPulls w.2 x := by
  rw [collectPulls_eq x h, List.mem_map]
  rfl

theorem sample (h : Tracks w xs) : Tracks (turn w (.sample x)) (xs ++ [x]) := by
  obtain ⟨htUs, hlast, hframer⟩ := w.1.sample_keeps x
  have hclk : (xs ++ [x]).map Sample.clk = xs.map Sample.clk ++ [x.clk] := List.map_append ..
  have hlen : (xs.map Sample.clk).length = xs.length := List.length_map ..
  have hgoes : GoesBy (.ofClk ((xs ++ [x]).map Sample.clk)) (w.1.sample x).framer := by
    rw [hclk, Edges.ofClk_concat, hframer, h.tUs, ← hlen, ← Edges.now_ofClk]
    exact (h.goesBy.step x.clk x.data).1
  refine ⟨hgoes, ?_, ?_, fun m => ?_⟩
  · show (w.1.sample x).tUs = _
    rw [htUs, h.tUs, List.length_append, List.length_singleton]
  · show (if (w.1.sample x).framer.state = .idle then [] else w.1.collectPulls w.2 x) = _
    rw [if_congr hgoes.idle_iff rfl rfl, collectPulls_eq x h]
    rw [hclk, Edges.ofClk_concat, Edges.falls_step]
    by_cases hends : (Edges.ofClk (xs.map Sample.clk)).Ends x.clk
    · rw [if_pos hends]
      rfl
    · rw [if_neg hends]
      split
      next hnil => rw [hnil, List.map_nil]
      next => rfl
  · show (∃ t, (w.1.sample x).lastSelfTxUs = some t ∧ m ≤ t) ↔ _
    rw [hlast]
    exact notePull_selfTx x h m

theorem receive (h : Tracks w xs) : Tracks (turn w .receive) xs := by
  obtain ⟨hframer, htUs, hlast, -⟩ := w.1.receive_keeps
  refine ⟨?_, ?_, h.pulls, fun m => ?_⟩
  · show GoesBy _ w.1.receive.framer
    rw [hframer]
    exact h.goesBy
  · exact htUs.trans h.tUs
  · show (∃ t, w.1.receive.lastSelfTxUs = some t ∧ m ≤ t) ↔ _
    rw [hlast]
    exact h.selfTx m

end Tracks

theorem tracks (as : List Turn) : Tracks (watched as) (samples as) := by
  induction as using List.reverseRecOn with
  | nil =>
    refine ⟨Framer.goesBy_new, rfl, rfl, fun m => iff_of_false nofun ?_⟩
    rintro ⟨j, -, hj⟩
    cases hj
  | append_singleton as a ih =>
    have hwatched : watched (as ++ [a]) = turn (watched as) a := List.foldl_concat ..
    rw [hwatched]
    cases a with
    | sample x =>
      have hsamples : samples (as ++ [.sample x]) = samples as ++ [x] := by
        rw [samples, List.filterMap_append]
        rfl
      rw [hsamples]
      exact ih.sample x
    | receive =>
      have hsamples : samples (as ++ [.receive]) = samples as := by
        rw [samples, List.filterMap_append]
        exact List.append_nil _
      rw [hsamples]
      exact ih.receive

/-- The supervisor takes every frame at once. -/
def taken (xs : List Sample) : List Turn := xs.flatMap fun x => [.sample x, .receive]

theorem samples_append (as bs : List Turn) : samples (as ++ bs) = samples as ++ samples bs :=
  List.filterMap_append

theorem samples_taken (xs : List Sample) : samples (taken xs) = xs := by
  induction xs with
  | nil => rfl
  | cons x xs ih =>
    rw [taken, List.flatMap_cons, samples_append]
    exact congrArg (x :: ·) ih

theorem samples_map (xs : List Sample) : samples (xs.map .sample) = xs := by
  rw [samples, List.filterMap_map]
  exact List.filterMap_some

/-- Then there is room for the next. -/
theorem taken_queue (xs : List Sample) : (watched (taken xs)).1.kbdFrames.queue = [] := by
  induction xs using List.reverseRecOn with
  | nil => rfl
  | append_singleton xs x ih =>
    have hwatched :
        watched (taken (xs ++ [x])) = turn (turn (watched (taken xs)) (.sample x)) .receive := by
      rw [watched, taken, List.flatMap_append, List.foldl_append]
      rfl
    rw [hwatched]
    exact (Task.receive_keeps _).2.2.2.trans (Task.sample_queue_tail ih x)

/-- No frame with an edge driven by the injector is forwarded, iff each ends
less than 1500 us after a sample in which CLK was driven low. -/
theorem selfFree_iff (xs : List Sample) : SelfFree xs ↔
    ∀ g ∈ (Edges.ofClk (xs.map Sample.clk)).groups, SelfDriven xs g → Guarded xs g := by
  -- the frame that ends with the sample after `ys`
  let ended (ys : List Sample) (x : Sample) : Group :=
    ⟨(Edges.ofClk (ys.map Sample.clk)).collect x.clk, ys.length⟩
  have hsplit : ∀ ys x zs, xs = ys ++ x :: zs →
    (SelfDriven xs (ended ys x) ↔ SelfDriven (ys ++ [x]) (ended ys x)) ∧
      (Guarded xs (ended ys x) ↔ Guarded (ys ++ [x]) (ended ys x)) := by
    rintro ys x zs rfl
    have hlen : (ys ++ [x]).length = ys.length + 1 := by
      rw [List.length_append, List.length_singleton]
    rw [List.append_cons]
    refine ⟨selfDriven_append zs fun i hi => ?_, guarded_append zs (hlen ▸ Nat.lt_succ_self _)⟩
    have hle := Edges.collect_le _ _ i hi
    rw [List.length_map] at hle
    exact hlen ▸ Nat.lt_succ_of_le hle
  constructor
  · intro h g hg hdriven
    obtain ⟨cs, clk, rest, hxs, hends, rfl⟩ := (Edges.mem_groups_iff _ _).mp hg
    obtain ⟨ys, zs, hyz, rfl, hzs⟩ := List.map_eq_append_iff.mp hxs
    obtain ⟨x, zs, rfl, rfl, rfl⟩ := List.map_eq_cons_iff.mp hzs
    have ht := tracks (taken ys)
    rw [samples_taken] at ht
    obtain ⟨hdriven_iff, hguarded_iff⟩ := hsplit ys x zs hyz
    rw [List.length_map] at hdriven ⊢
    rw [hdriven_iff, ht.selfDriven_iff x] at hdriven
    rw [hguarded_iff, ht.guarded_iff x]
    by_contra hunguarded
    refine h (taken ys ++ .sample x :: zs.map .sample) (taken ys) x _ ?_ rfl ?_ hdriven
    · rw [samples_append, samples_taken, hyz]
      exact congrArg (ys ++ x :: ·) (samples_map zs)
    · rw [Task.forwards_iff, taken_queue, ht.completes_iff x]
      exact ⟨hends, hunguarded, by decide⟩
  · rintro h as ss x rest hxs rfl hforwards hpull
    have ht := tracks ss
    rw [samples_append] at hxs
    obtain ⟨hcompletes, hunguarded, -⟩ := (Task.forwards_iff _ _).mp hforwards
    obtain ⟨hdriven_iff, hguarded_iff⟩ := hsplit (samples ss) x (samples rest) hxs.symm
    rw [ht.completes_iff x] at hcompletes
    have hmem := (Edges.mem_groups_iff (xs.map Sample.clk) _).mpr ⟨(samples ss).map Sample.clk,
      x.clk, (samples rest).map Sample.clk, by rw [← hxs]; exact List.map_append, hcompletes, rfl⟩
    rw [List.length_map] at hmem
    exact hunguarded ((ht.guarded_iff x _).mp
      (hguarded_iff.mp (h _ hmem (hdriven_iff.mpr ((ht.selfDriven_iff x).mpr hpull)))))

/-! ## A frame that is too slow -/

/-- Time passes: `n` samples that change nothing. -/
def skip (w : Task × List Bool) (n : Nat) : Task × List Bool :=
  ({ w.1 with tUs := w.1.tUs + n }, w.2)

/-- `n` samples like the last change nothing. -/
def Still (w : Task × List Bool) (x : Sample) (n : Nat) : Prop :=
  x.clkPull = true ∧ w.1.framer.lastClk = some x.clk ∧ w.1.framer.lastData = some x.data ∧
    (w.1.framer.state = .idle ∧ w.2 = [] ∨
      w.1.framer.state ≠ .idle ∧ w.1.tUs + n ≤ w.1.framer.lastFallingUs + IDLE_TIMEOUT_US)

instance (w : Task × List Bool) (x : Sample) (n : Nat) : Decidable (Still w x n) :=
  inferInstanceAs (Decidable (_ ∧ _))

theorem Still.step {w : Task × List Bool} {x : Sample} {n : Nat} (h : Still w x (n + 1)) :
    w.1.watch w.2 x = skip w 1 ∧ Still (skip w 1) x n := by
  obtain ⟨hpull, hclk, hdata, hstate⟩ := h
  have hwaits : ¬ w.1.framer.TimesOut w.1.tUs := by
    rintro ⟨hne, hlate⟩
    obtain ⟨hidle, -⟩ | ⟨-, hle⟩ := hstate
    · exact hne hidle
    · have hle' : w.1.tUs + (n + 1) ≤ w.1.framer.lastFallingUs + 200 := hle
      have hlate' : 200 ≤ (w.1.tUs - w.1.framer.lastFallingUs) % 2 ^ 32 := hlate
      omega
  have hsample : w.1.sample x = { w.1 with tUs := w.1.tUs + 1 } := by
    unfold Task.sample Task.notePull
    rw [if_pos hpull]
    dsimp only
    rw [Framer.ingest_still hclk hdata hwaits]
  have hcollect : w.1.collectPulls w.2 x = w.2 := by
    unfold Task.collectPulls
    refine if_neg fun hf => ?_
    cases (hclk.symm.trans hf.2.1).symm.trans (congrArg some hf.2.2.1)
  refine ⟨?_, hpull, hclk, hdata, hstate.imp_right fun ⟨hne, hle⟩ => ⟨hne, ?_⟩⟩
  · rw [Task.watch, hsample, hcollect]
    refine Prod.ext rfl ?_
    obtain ⟨-, hnil⟩ | ⟨hne, -⟩ := hstate
    · show (if w.1.framer.state = .idle then [] else w.2) = w.2
      rw [hnil, ite_self]
    · exact if_neg hne
  · show w.1.tUs + 1 + n ≤ w.1.framer.lastFallingUs + IDLE_TIMEOUT_US
    omega

theorem Still.skips {w : Task × List Bool} {x : Sample} {n : Nat} (h : Still w x n) :
    (List.replicate n x).foldl (fun w x => w.1.watch w.2 x) w = skip w n := by
  induction n generalizing w with
  | zero => rfl
  | succ n ih =>
    obtain ⟨hwatch, hstill⟩ := h.step
    rw [List.replicate_succ, List.foldl_cons, hwatch, ih hstill]
    exact Prod.ext (congrArg (fun t => { w.1 with tUs := t })
      (by show w.1.tUs + 1 + n = _; omega)) rfl

/-- Samples, each held for some time. -/
def held (xs : List (Sample × Nat)) : List Sample :=
  xs.flatMap fun (x, n) => x :: List.replicate n x

/-- The task after samples held, where holding them changes nothing. -/
def play (w : Task × List Bool) : List (Sample × Nat) → Option (Task × List Bool)
  | [] => some w
  | (x, n) :: xs =>
    if n = 0 ∨ Still (w.1.watch w.2 x) x n then play (skip (w.1.watch w.2 x) n) xs else none

theorem play_eq {w w' : Task × List Bool} {xs : List (Sample × Nat)} (h : play w xs = some w') :
    (held xs).foldl (fun w x => w.1.watch w.2 x) w = w' := by
  induction xs generalizing w with
  | nil => exact Option.some.inj h
  | cons xn xs ih =>
    obtain ⟨x, n⟩ := xn
    rw [play] at h
    split at h
    next hstill =>
      have hskips : (List.replicate n x).foldl (fun w x => w.1.watch w.2 x) (w.1.watch w.2 x) =
          skip (w.1.watch w.2 x) n := by
        obtain rfl | hstill := hstill
        · rfl
        · exact hstill.skips
      rw [held, List.flatMap_cons, List.foldl_append, List.foldl_cons, hskips]
      exact ih h
    next => cases h

/-- A bit 151 us long; `clkPull` is that of its falling edge. -/
def slowBit (data clkPull : Bool) : List (Sample × Nat) :=
  [(⟨false, clkPull, data⟩, 0), (⟨false, true, data⟩, 73), (⟨true, true, data⟩, 75)]

/-- The first ten bits of an AT frame with data 0; the injector drives CLK low
at the first falling edge, the keyboard does after. -/
def slowFrame : List (Sample × Nat) :=
  (⟨true, true, true⟩, 9) :: slowBit false false ++
    (List.replicate 8 (slowBit false true)).flatten ++ slowBit true true

/-- The frame completes 1510 us after its first edge. -/
theorem slowFrame_forwarded : ¬ SelfFree (held slowFrame ++ [⟨false, true, true⟩]) := by
  have hplay : (play (.new, []) slowFrame).any
    (fun w => (w.1.sample ⟨false, true, true⟩).kbdFrames.queue.length = 1 ∧
      w.1.kbdFrames.queue.length = 0 ∧ false ∈ w.1.collectPulls w.2 ⟨false, true, true⟩) =
      true := by decide +kernel
  obtain ⟨w, hw, hend⟩ := (Option.any_eq_true _ _).mp hplay
  obtain ⟨hnext, hnone, hpull⟩ := of_decide_eq_true hend
  have hwatched : watched ((held slowFrame).map .sample) = w :=
    (List.foldl_map ..).trans (play_eq hw)
  intro h
  refine h (((held slowFrame).map .sample) ++ [.sample ⟨false, true, true⟩])
    ((held slowFrame).map .sample) ⟨false, true, true⟩ [] ?_ rfl (fun he => ?_) (hwatched ▸ hpull)
  · rw [samples_append, samples_map]
    rfl
  · rw [hwatched] at he
    have hlen := congrArg List.length he
    omega

end VintageKvm.Ps2.Kbd
