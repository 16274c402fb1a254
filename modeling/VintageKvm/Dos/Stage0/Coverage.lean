import VintageKvm.Dos.Stage0.Window

/-!
# Stage 0: what the download covers

A download that ends without carry accepted every block once, in order, and
the bytes of each stay where they were put. That the blocks fill the image
rests on their lengths alone: Stage 0 takes any length up to 64 that is within
the image, so a peer may send a block short (`noHole_iff`).
-/

namespace VintageKvm.Stage0

open I8086 Machine Dos

variable {δ ι : Type} [Ports ι] (img : Image)

/-- In the download begun in `m₀` block `k` was accepted, with these bytes. -/
def Supplied (n : Nat) (m₀ : Machine δ ι) (k : Nat) (data : List Byte) : Prop := ∃ m m',
  Turns (turn img) (.blockLoop, m₀) (.retryBlock, m) ∧ (m.mem.word (currentBlock img)).toNat = k ∧
  turn img (.retryBlock, m) = .next (.blockLoop, m') ∧ Accepted img n k data m m'

/-- Every block of an image of `n` bytes was accepted at its whole length, and
is in its place in `mem`. -/
def NoHole (n : Nat) (m₀ : Machine δ ι) (mem : Mem) : Prop := ∀ k, 64 * k < n → ∃ data,
  Supplied img n m₀ k data ∧ data.length = Protocol.blockLen n k ∧
  mem.bytes (offset k) (Protocol.blockLen n k) = data

/-- Every block that was accepted came at its whole length. -/
def FullBlocks (n : Nat) (m₀ : Machine δ ι) : Prop :=
  ∀ k data, Supplied img n m₀ k data → data.length = Protocol.blockLen n k

/-! ## Bytes that stay -/

/-- The variables of the download end below the image. -/
theorem vars_low : ∀ r ∈ vars img, r.base.toNat + r.len ≤ 0x800 := by
  rw [← List.forall_iff_forall_mem]
  cases img with
  | s0Xt => decide +kernel
  | s0AtPs2 aux => cases aux <;> decide +kernel

section

variable {img}

theorem has_toNat {r : Region} {x : Word} (hr : r.base.toNat + r.len ≤ 65536) (h : r.Has x) :
    r.base.toNat ≤ x.toNat ∧ x.toNat < r.base.toNat + r.len := by
  rw [Region.Has, BitVec.toNat_sub] at h
  omega

/-- What is received for a block leaves the bytes before it. -/
theorem byte_before {mem mem' : Mem} {n c : Nat} {x : Word} (hn : n ≤ 50000) (hc : 64 * c < n)
    (hx : 0x800 ≤ x.toNat) (hlt : x.toNat < 0x800 + 64 * c)
    (h : Frame (piece n c :: vars img) mem mem') : mem' x = mem x := by
  refine h _ fun r hr hh => ?_
  rcases List.mem_cons.mp hr with rfl | hr
  · have hlen := Protocol.blockLen_le n c
    have hbase : (piece n c).base.toNat = 0x800 + 64 * c := by
      have := toNat_offset (k := c) (i := 0) (by omega)
      rwa [BitVec.add_zero] at this
    have := (has_toNat (by rw [hbase]; show _ + Protocol.blockLen n c ≤ _; omega) hh).1
    omega
  · have hlow := vars_low img r hr
    have := (has_toNat (by omega) hh).2
    omega

theorem bytes_before {mem mem' : Mem} {n k c L : Nat} (hn : n ≤ 50000) (hc : 64 * c < n)
    (hk : k < c) (hL : L ≤ 64) (h : Frame (piece n c :: vars img) mem mem') :
    mem'.bytes (offset k) L = mem.bytes (offset k) L := by
  refine Mem.bytes_congr fun i hi => ?_
  have hx : (offset k + BitVec.ofNat 16 i).toNat = 0x800 + 64 * k + i := toNat_offset (by omega)
  exact byte_before hn hc (by omega) (by omega) h

/-! ## Blocks are accepted in order -/

variable {n : Nat} {m₀ : Machine δ ι}

/-- The block a state is at. -/
def blockAt (img : Image) (s : Label × Machine δ ι) : Nat := (s.2.mem.word (currentBlock img)).toNat

/-- What an accepting turn does. -/
theorem accepted_turn (h : Checked img m₀.mem) (hn : (m₀.mem.word (stage1Size img)).toNat = n)
    {m m' : Machine δ ι} (hu : Underway img n m₀ (.retryBlock, m))
    (ht : turn img (.retryBlock, m) = .next (.blockLoop, m')) :
    Kept img (piece n (blockAt img (.retryBlock, m))) (vars img) m m' ∧
      blockAt img (.blockLoop, m') = blockAt img (.retryBlock, m) + 1 ∧
      ∃ data, Accepted img n (blockAt img (.retryBlock, m)) data m m' := by
  have hlt : 64 * (m.mem.word (currentBlock img)).toNat < n := (hu.more rfl).1
  have hle : n ≤ 50000 := hn ▸ h.le
  have hr := turn_retried img m rfl (hu.checked h hn).1 hle hlt
  rw [ht] at hr
  cases hr with
  | accepted hk hcur hacc =>
    refine ⟨hk, ?_, _, hacc⟩
    show (m'.mem.word (currentBlock img)).toNat = (m.mem.word (currentBlock img)).toNat + 1
    rw [hcur, BitVec.toNat_add]
    show (_ + 1) % 65536 = _
    omega

/-- A turn stays at its block or goes on to the next. -/
theorem at_le (h : Checked img m₀.mem) (hn : (m₀.mem.word (stage1Size img)).toNat = n)
    {s s' : Label × Machine δ ι} (hu : Underway img n m₀ s) (ht : turn img s = .next s') :
    blockAt img s ≤ blockAt img s' := by
  obtain ⟨l, m⟩ := s
  cases l with
  | blockLoop =>
    obtain ⟨-, -, -, ⟨hrc, hrc'⟩, -⟩ := counters_apart img
    rcases turn_blockLoop img m with ⟨-, a, z, e⟩ | ⟨-, a, c, z, e⟩ <;> rw [e] at ht <;> cases ht
    refine Nat.le_of_eq (congrArg BitVec.toNat ?_)
    exact (Mem.word_set_of_ne _ _ hrc.symm hrc'.symm).symm
  | retryBlock =>
    have hr := turn_retried img m rfl (hu.checked h hn).1 (hn ▸ h.le) (hu.more rfl).1
    rw [ht] at hr
    cases hr with
    | rejected _ hcur => exact Nat.le_of_eq (congrArg BitVec.toNat hcur.symm)
    | accepted => exact (accepted_turn h hn hu ht).2.1 ▸ Nat.le_succ _

/-- The states of a run are under way. -/
theorem Underway.run (h : Checked img m₀.mem) (hn : (m₀.mem.word (stage1Size img)).toNat = n)
    {s s' : Label × Machine δ ι} (hu : Underway img n m₀ s) (hr : Turns (turn img) s s') :
    Underway img n m₀ s' ∧ blockAt img s ≤ blockAt img s' := by
  refine hr.keeps (fun s' => Underway img n m₀ s' ∧ blockAt img s ≤ blockAt img s')
    (fun s₁ s₂ ⟨hu, hle⟩ ht => ⟨?_, ?_⟩) ⟨hu, le_rfl⟩
  · have hs := hu.step h hn
    rw [ht] at hs
    exact hs.1
  · exact hle.trans (at_le h hn hu ht)

/-- After a block is accepted the download does not come back to it. -/
theorem accepted_last (h : Checked img m₀.mem) (hn : (m₀.mem.word (stage1Size img)).toNat = n)
    {m m' m₁ : Machine δ ι} (hu : Underway img n m₀ (.retryBlock, m))
    (ht : turn img (.retryBlock, m) = .next (.blockLoop, m'))
    (hr : Turns (turn img) (.retryBlock, m) (.retryBlock, m₁))
    (hk : blockAt img (.retryBlock, m₁) = blockAt img (.retryBlock, m)) : m₁ = m := by
  rcases hr.cases_head with e | ⟨s, hs, hr⟩
  · exact (Prod.mk.inj e).2.symm
  · obtain rfl := Flow.next.inj (ht.symm.trans hs)
    have hu' : Underway img n m₀ (.blockLoop, m') := ((hu.run h hn (.single ht)).1)
    have hle := (hu'.run h hn hr).2
    rw [(accepted_turn h hn hu ht).2.1, hk] at hle
    exact absurd hle (Nat.not_succ_le_self _)

/-- A block is accepted once: its length is determined. -/
theorem Supplied.length_eq (h : Checked img m₀.mem)
    (hn : (m₀.mem.word (stage1Size img)).toNat = n) {k : Nat}
    {data data' : List Byte} (hs : Supplied img n m₀ k data) (hs' : Supplied img n m₀ k data') :
    data.length = data'.length := by
  obtain ⟨m, m₁, hr, hk, ht, hacc⟩ := hs
  obtain ⟨m', m₁', hr', hk', ht', hacc'⟩ := hs'
  have hu := fun {s : Label × Machine δ ι} (hr : Turns (turn img) (.blockLoop, m₀) s) =>
    ((Underway.start n m₀).run h hn hr).1
  obtain rfl : m' = m := (hr.total hr').elim (accepted_last h hn (hu hr) ht · (hk'.trans hk.symm))
    fun hr => (accepted_last h hn (hu hr') ht' hr (hk.trans hk'.symm)).symm
  obtain ⟨-, rfl⟩ := Prod.mk.inj (Flow.next.inj (ht.symm.trans ht'))
  obtain ⟨crc, -, hgot⟩ := hacc.got
  obtain ⟨crc', -, hgot'⟩ := hacc'.got
  have hb := List.append_cancel_left (hgot.symm.trans hgot')
  have hlen : BitVec.ofNat 8 data.length = BitVec.ofNat 8 data'.length := (List.cons.inj hb).1
  have hl := hacc.length_le
  have hl' := hacc'.length_le
  have := congrArg BitVec.toNat hlen
  simp only [BitVec.toNat_ofNat] at this
  omega

/-! ## The whole download -/

/-- A run with the blocks it has accepted. -/
structure Covered (img : Image) (n : Nat) (m₀ : Machine δ ι) (s : Label × Machine δ ι) : Prop where
  run : Turns (turn img) (.blockLoop, m₀) s
  done : ∀ k < blockAt img s, 64 * k < n ∧ ∃ data, Supplied img n m₀ k data ∧
    s.2.mem.bytes (offset k) data.length = data

/-- What is left when the loop leaves without carry. -/
def Placed (img : Image) (n : Nat) (m₀ m : Machine δ ι) : Prop :=
  m.cf = false → ∀ k, 64 * k < n → ∃ data,
  Supplied img n m₀ k data ∧ m.mem.bytes (offset k) data.length = data

theorem Covered.step (h : Checked img m₀.mem) (hn : (m₀.mem.word (stage1Size img)).toNat = n)
    {s : Label × Machine δ ι} (hc : Covered img n m₀ s) :
    (turn img s).Sat (fun s' => Covered img n m₀ s' ∧ rank img n s' < rank img n s)
      (Placed img n m₀) := by
  have hle : n ≤ 50000 := hn ▸ h.le
  have hu := ((Underway.start n m₀).run h hn hc.run).1
  have hstep := hu.step h hn
  obtain ⟨hsize, hblocks⟩ := hu.checked h hn
  obtain ⟨l, m⟩ := s
  have hc' : blockAt img (l, m) = (m.mem.word (currentBlock img)).toNat := rfl
  -- what is written for the block the run is at leaves those before it
  have hkeep : ∀ {mem' : Mem}, 64 * (m.mem.word (currentBlock img)).toNat < n →
      Frame (piece n (m.mem.word (currentBlock img)).toNat :: vars img) m.mem mem' →
      ∀ k < (m.mem.word (currentBlock img)).toNat,
      64 * k < n ∧ ∃ data, Supplied img n m₀ k data ∧ mem'.bytes (offset k) data.length = data := by
    intro mem' hlt hf k hk
    obtain ⟨hkn, data, hs, hb⟩ := hc.done k hk
    obtain ⟨_, _, _, -, _, hacc⟩ := id hs
    exact ⟨hkn, data, hs, (bytes_before hle hlt hk hacc.length_le hf).trans hb⟩
  cases l with
  | blockLoop =>
    obtain ⟨-, -, -, ⟨hrc, hrc'⟩, -⟩ := counters_apart img
    obtain ⟨-, -, r, hr, hh⟩ := counters_has img
    rcases turn_blockLoop img m with ⟨hge, a, z, e⟩ | ⟨hlt, a, c, z, e⟩
    · rw [e]
      rw [show (m.mem.word (stage1Blocks img)).toNat = (n + 63) / 64 from hblocks] at hge
      exact fun _ k hk => (hc.done k (by omega)).2
    · rw [e] at hstep ⊢
      rw [show (m.mem.word (stage1Blocks img)).toNat = (n + 63) / 64 from hblocks] at hlt
      refine ⟨⟨hc.run.tail e, fun k hk => ?_⟩, hstep.2⟩
      have hk' : k < (m.mem.word (currentBlock img)).toNat :=
        lt_of_lt_of_eq hk (congrArg BitVec.toNat (Mem.word_set_of_ne _ _ hrc.symm hrc'.symm))
      exact hkeep (by omega) ((Frame.refl _ _).set _ ⟨r, List.mem_cons_of_mem _ hr, hh⟩) k hk'
  | retryBlock =>
    have hlt : 64 * (m.mem.word (currentBlock img)).toNat < n := (hu.more rfl).1
    have ht := turn_retried img m rfl hsize hle hlt
    generalize e : turn img (.retryBlock, m) = f at ht hstep
    cases ht with
    | failed hcf => exact fun h0 => absurd (hcf.symm.trans h0) (by decide)
    | rejected hk hcur =>
      refine ⟨⟨hc.run.tail e, fun k hk' => hkeep hlt hk.mem k ?_⟩, hstep.2⟩
      exact lt_of_lt_of_eq hk' (congrArg BitVec.toNat hcur)
    | @accepted m' data hk hcur hacc =>
      refine ⟨⟨hc.run.tail e, fun k hk' => ?_⟩, hstep.2⟩
      have hnext := (accepted_turn h hn hu e).2.1
      rw [hnext, hc'] at hk'
      rcases Nat.lt_succ_iff_lt_or_eq.mp hk' with hk' | rfl
      · exact hkeep hlt hk.mem k hk'
      · exact ⟨hlt, data, ⟨m, m', hc.run, rfl, e, hacc⟩, hacc.stored⟩

end

/-- A download that ends without carry leaves no hole if and only if every
block it accepted had its whole length. -/
theorem noHole_iff (m : Machine δ ι) (h : (checkStage1Size img m).cf = false)
    (hd : (downloadStage1 img (checkStage1Size img m)).cf = false) :
    let n := (m.mem.word (stage1Size img)).toNat
    let m₀ := begun img (checkStage1Size img m)
    NoHole img n m₀ (downloadStage1 img (checkStage1Size img m)).mem ↔ FullBlocks img n m₀ := by
  intro n m₀
  obtain ⟨hc, hc₀, hs₀, hcur₀, -⟩ := begun_ok img m h
  have hn : (m₀.mem.word (stage1Size img)).toNat = n := congrArg BitVec.toNat hs₀
  have hstart : Covered img n m₀ (.blockLoop, m₀) :=
    ⟨.refl, fun k hk => absurd (lt_of_lt_of_eq hk (congrArg BitVec.toNat hcur₀))
      (Nat.not_lt_zero k)⟩
  have hplaced : Placed img n m₀ (downloadStage1 img (checkStage1Size img m)) := by
    refine iter_rule (Covered img n m₀) _ (rank img n) (fun s hs => hs.step hc₀ hn) _ _ hstart ?_
    have hle : n ≤ 50000 := hc.le
    show 7 * ((n + 63) / 64 - _) < 524288
    omega
  refine ⟨fun hno k data hs => ?_, fun hfull k hk => ?_⟩
  · obtain ⟨m₁, _, hr, hk, -⟩ := id hs
    have hlt := (((Underway.start n m₀).run hc₀ hn hr).1.more rfl).1
    obtain ⟨data', hs', hlen, -⟩ := hno k (hk ▸ hlt)
    exact (hs.length_eq hc₀ hn hs').trans hlen
  · obtain ⟨data, hs, hb⟩ := hplaced hd k hk
    have hlen := hfull k data hs
    exact ⟨data, hs, hlen, hlen ▸ hb⟩

/-- S0_AT on the keyboard channel, with the metadata of an image of one byte
and a peer that sends its only block empty. -/
def emptyBlock : Machine Unit Bus :=
  let m : Machine Unit Bus := announced (.s0AtPs2 false) 1 1
    ([0x00, 0x00, 0x00, 0x01, 0x00, 0x01, 0xFF, 0x01, 0xFF, 0x00].getD · 0)
  { m with mem := m.mem.set (currentChannel false) CHAN_KBD }

/-- A value of the state that a turn leads to. -/
def ofNext {α : Type} (f : Machine Unit Bus → α) :
    Flow (Label × Machine Unit Bus) (Machine Unit Bus) → Option (Label × α)
  | .next (l, m) => some (l, f m)
  | .done _ => none

theorem ofNext_some {α : Type} {f : Machine Unit Bus → α}
    {t : Flow (Label × Machine Unit Bus) (Machine Unit Bus)} {l : Label}
    {v : α} (h : ofNext f t = some (l, v)) : ∃ m, t = .next (l, m) ∧ f m = v := by
  cases t with
  | next s =>
    obtain ⟨rfl, hv⟩ := Prod.mk.inj (Option.some.inj h)
    exact ⟨s.2, rfl, hv⟩
  | done => cases h

theorem emptyBlock_hole : let m := checkStage1Size (.s0AtPs2 false) emptyBlock
    m.cf = false ∧ (downloadStage1 (.s0AtPs2 false) m).cf = false ∧
      ¬ NoHole (.s0AtPs2 false) 1 (begun (.s0AtPs2 false) m)
      (downloadStage1 (.s0AtPs2 false) m).mem := by
  intro m
  have hcheck : m.cf = false := by decide +kernel
  refine ⟨hcheck, by decide +kernel, fun hno => ?_⟩
  let mA : Machine Unit Bus :=
    (begun (.s0AtPs2 false) m) |>.mov .ax (·.word (currentBlock (.s0AtPs2 false)))
    |>.cmp (·.ax) (·.word (stage1Blocks (.s0AtPs2 false)))
  let m₁ : Machine Unit Bus := mA.stb (imm (retryCount (.s0AtPs2 false))) (imm BLOCK_RETRIES)
  have h₁ : turn (.s0AtPs2 false) (.blockLoop, begun (.s0AtPs2 false) m) =
      .next (.retryBlock, m₁) := by
    have hlt : mA.cf = true := by decide +kernel
    rw [turn, turnWith]
    exact jnc_neg hlt
  have hgot : ofNext (·.got) (turn (.s0AtPs2 false) (.retryBlock, m₁)) =
      some (.blockLoop, [0x00, 0xFF, 0xFF]) := by
    decide +kernel
  obtain ⟨m₂, h₂, hgot⟩ := ofNext_some hgot
  obtain ⟨-, hc, hs, -⟩ := begun_ok (.s0AtPs2 false) emptyBlock hcheck
  have hn : ((begun (.s0AtPs2 false) m).mem.word (stage1Size (.s0AtPs2 false))).toNat = 1 := by
    decide +kernel
  obtain ⟨-, -, data, hacc⟩ :=
    accepted_turn hc hn ((Underway.start 1 _).run hc hn (.single h₁)).1 h₂
  have hcur : blockAt (.s0AtPs2 false) (.retryBlock, m₁) = 0 := by decide +kernel
  obtain ⟨data', hs', hlen, -⟩ := hno 0 (by decide)
  have hlen' := hs'.length_eq hc hn ⟨m₁, m₂, .single h₁, hcur, h₂, hcur ▸ hacc⟩
  obtain ⟨crc, hcrc, hgot'⟩ := hacc.got
  have hg : m₁.got = [] := by decide +kernel
  have hcount := congrArg List.length (hgot'.symm.trans hgot)
  rw [hg, List.nil_append, List.length_append, List.length_cons, hcrc] at hcount
  have h3 : data.length + 1 + 2 = 3 := hcount
  have h1 : data'.length = 1 := hlen
  omega

theorem noHole_iff_emptyBlock : let m := checkStage1Size (.s0AtPs2 false) emptyBlock
    NoHole (.s0AtPs2 false) 1 (begun (.s0AtPs2 false) m) (downloadStage1 (.s0AtPs2 false) m).mem ↔
      FullBlocks (.s0AtPs2 false) 1 (begun (.s0AtPs2 false) m) :=
  noHole_iff (.s0AtPs2 false) emptyBlock (by decide +kernel) (by decide +kernel)

end VintageKvm.Stage0
