import VintageKvm.Lib.Runs
import VintageKvm.Lib.Word

/-!
# The events consumer

The consumer cuts the bytes of the events stream, as they come, into frames at
the COBS terminator. `received_eq`: the frames are those of the whole stream,
however it is read, and what is kept is the end of it without a terminator.
-/

namespace VintageKvm.Tools.EventsConsumer

/-- The terminator. -/
def isZero (b : Byte) : Bool := b = 0

/-- `drain_frames`: the frames handed to the decoder, and the buffer after. -/
def drainFrames (buf : List Byte) : List (List Byte) × List Byte :=
  match _h : buf.findIdx? isZero with
  | none => ([], buf)
  | some pos =>
    let frame := buf.take (pos + 1)
    let (frames, rest) := drainFrames (buf.drop (pos + 1))
    (if frame.length ≤ 1 then frames else frame :: frames, rest)
termination_by buf.length
decreasing_by
  have hpos := (List.findIdx?_eq_some_iff_findIdx_eq.mp _h).1
  rw [List.length_drop]
  omega

/-- The loop of `main`: the frames of a read, and the buffer after. -/
def read (buf chunk : List Byte) : List (List Byte) × List Byte := drainFrames (buf ++ chunk)

/-- The frames decoded over reads, and the buffer after each. -/
def received (buf : List Byte) : List (List Byte) → List (List Byte) × List (List Byte)
  | [] => ([], [])
  | chunk :: chunks =>
    let (frames, buf) := read buf chunk
    let (more, bufs) := received buf chunks
    (frames ++ more, buf :: bufs)

/-- The frames of a stream: its non-empty runs, each with its terminator. -/
def framesOf (stream : List Byte) : List (List Byte) :=
  ((runs isZero stream).filter fun run => run ≠ []).map fun run => run ++ [0]

/-! ## One call -/

variable {run buf : List Byte}

theorem isZero_eq {t : Byte} (h : isZero t) : t = 0 := of_decide_eq_true h

theorem drainFrames_of_forall (h : ∀ b ∈ buf, isZero b = false) : drainFrames buf = ([], buf) := by
  have hnone : buf.findIdx? isZero = none := List.findIdx?_eq_none_iff.mpr h
  unfold drainFrames
  split
  next => rfl
  next pos hpos =>
    rw [hnone] at hpos
    cases hpos

theorem drainFrames_run (h : ∀ b ∈ run, isZero b = false) (xs : List Byte) :
    drainFrames (run ++ 0 :: xs) =
      ((if run = [] then [] else [run ++ [0]]) ++ (drainFrames xs).1, (drainFrames xs).2) := by
  have hfind : (run ++ 0 :: xs).findIdx? isZero = some run.length := by
    rw [List.findIdx?_append, List.findIdx?_eq_none_iff.mpr h, Option.none_or, List.findIdx?_cons,
      if_pos (show isZero 0 = true from rfl), Option.map_some, Nat.zero_add]
  have htake : (run ++ 0 :: xs).take (run.length + 1) = run ++ [0] := by
    rw [List.take_append, List.take_of_length_le (Nat.le_succ _), Nat.add_sub_cancel_left]
    rfl
  have hdrop : (run ++ 0 :: xs).drop (run.length + 1) = xs := by
    rw [List.drop_append, List.drop_eq_nil_of_le (Nat.le_succ _), Nat.add_sub_cancel_left]
    rfl
  conv_lhs => unfold drainFrames
  split
  next hnone =>
    rw [hfind] at hnone
    cases hnone
  next pos hpos =>
    obtain rfl := Option.some.inj (hfind.symm.trans hpos)
    simp only [htake, hdrop, List.length_append, List.length_singleton]
    by_cases hnil : run = []
    · rw [if_pos hnil, if_pos (by rw [hnil]; rfl), List.nil_append]
    · have hlen := List.length_pos_iff.mpr hnil
      rw [if_neg hnil, if_neg (by omega)]
      rfl

theorem framesOf_run (h : ∀ b ∈ run, isZero b = false) (xs : List Byte) :
    framesOf (run ++ 0 :: xs) = (if run = [] then [] else [run ++ [0]]) ++ framesOf xs := by
  rw [framesOf, runs_cons h rfl, List.filter_cons]
  by_cases hnil : run = []
  · rw [if_neg (by simp [hnil]), if_pos hnil]
    rfl
  · rw [if_pos (by simp [hnil]), if_neg hnil]
    rfl

/-- A call takes the frames of the buffer and leaves what no terminator ends. -/
theorem drainFrames_eq (buf : List Byte) :
    drainFrames buf = (framesOf buf, unended isZero buf) := by
  induction buf using runs_induction (p := isZero) with
  | unended buf h =>
    rw [drainFrames_of_forall h, framesOf, runs_of_forall h, unended_of_forall h]; rfl
  | run run t xs h ht ih =>
    obtain rfl := isZero_eq ht
    rw [drainFrames_run h, ih, framesOf_run h, unended_cons h ht]

theorem framesOf_append (xs ys : List Byte) :
    framesOf (xs ++ ys) = framesOf xs ++ framesOf (unended isZero xs ++ ys) := by
  rw [framesOf, runs_append, List.filter_append, List.map_append]
  rfl

/-! ## All reads -/

/-- From a buffer without a terminator. -/
theorem received_from (hbuf : ∀ b ∈ buf, isZero b = false) (reads : List (List Byte)) :
    received buf reads =
      (framesOf (buf ++ reads.flatten),
        (List.range reads.length).map fun n => unended isZero
          (buf ++ (reads.take (n + 1)).flatten)) := by
  induction reads generalizing buf with
  | nil =>
    rw [List.flatten_nil, List.append_nil, framesOf, runs_of_forall hbuf]
    rfl
  | cons chunk reads ih =>
    rw [received, read, drainFrames_eq]
    dsimp only
    rw [ih (of_mem_unended isZero _), List.flatten_cons, ← List.append_assoc,
      framesOf_append (buf ++ chunk)]
    refine Prod.ext rfl ?_
    rw [List.length_cons, List.range_succ_eq_map, List.map_cons, List.map_map]
    refine congrArg₂ List.cons (by rw [List.take_succ_cons, List.take_zero, List.flatten_singleton])
      (List.map_congr_left fun n _ => ?_)
    rw [Function.comp, List.take_succ_cons, List.flatten_cons, ← List.append_assoc,
      ← unended_append]

/-- The frames are those of the whole stream, so that no other way of reading
it gives others, and after each read the buffer is what no terminator has
ended so far. -/
theorem received_eq (reads : List (List Byte)) :
    (received [] reads).1 = framesOf reads.flatten ∧
      (∀ reads', reads'.flatten = reads.flatten → (received [] reads').1 = (received [] reads).1) ∧
      (received [] reads).2.length = reads.length ∧
      ∀ n buf, (received [] reads).2[n]? = some buf →
        buf = unended isZero (reads.take (n + 1)).flatten ∧ (0 : Byte) ∉ buf := by
  have hnil : ∀ b ∈ ([] : List Byte), isZero b = false := fun _ hb => nomatch hb
  have hall := received_from hnil
  refine ⟨by rw [hall]; rfl, fun reads' he => by rw [hall, hall, he], ?_, fun n buf hn => ?_⟩
  · rw [hall, List.length_map, List.length_range]
  · have hlt : n < reads.length := by
      have := (List.getElem?_eq_some_iff.mp hn).1
      rwa [hall, List.length_map, List.length_range] at this
    rw [hall, List.getElem?_map, List.getElem?_range hlt] at hn
    obtain rfl := Option.some.inj hn
    exact ⟨rfl, fun h0 => Bool.noConfusion (of_mem_unended isZero _ 0 h0)⟩

end VintageKvm.Tools.EventsConsumer
