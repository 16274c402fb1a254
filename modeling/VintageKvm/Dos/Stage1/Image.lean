import VintageKvm.Dos.Stage1.Download

/-!
# Stage 1: runs of the download

The blocks accepted so far, in order, are what the file holds and what the
running checksum is of (`Fetching`), through all turns of the loops over the
blocks and the retries. So a download that succeeds leaves the whole image,
and one that fails leaves no file (`downloadStage2_ok`).
-/

namespace VintageKvm.Stage1

open I8086 Machine Dos Protocol

/-! ## The file's name -/

/-- `PICO1284.EXE`. -/
def stage2Name : List Byte :=
  [0x50, 0x49, 0x43, 0x4F, 0x31, 0x32, 0x38, 0x34, 0x2E, 0x45, 0x58, 0x45]

/-- The name is where it was assembled. -/
def Named (mem : Mem) : Prop := mem.bytes stage2Filename 13 = stage2Name ++ [0]

theorem upTo_eq {stop : Byte} {mem : Mem} {s : List Byte} {a : Word} {n : Nat} (hn : s.length < n)
    (h : mem.bytes a (s.length + 1) = s ++ [stop]) (hs : stop ∉ s) : upTo stop mem n a = s := by
  induction s generalizing a n with
  | nil =>
    obtain ⟨n, rfl⟩ := Nat.exists_eq_succ_of_ne_zero (Nat.ne_of_gt hn)
    have ha : mem a = stop := (List.cons.inj h).1
    rw [upTo, if_pos ha]
  | cons b s ih =>
    obtain ⟨n, rfl⟩ :=
      Nat.exists_eq_succ_of_ne_zero (Nat.ne_of_gt (Nat.lt_of_le_of_lt (Nat.zero_le _) hn))
    obtain ⟨ha, hrest⟩ :=
      List.cons.inj (show mem a :: mem.bytes (a + 1) (s.length + 1) = b :: (s ++ [stop]) from h)
    have hne : mem a ≠ stop := fun e => hs (e ▸ ha ▸ List.mem_cons_self)
    rw [upTo, if_neg hne, ih (Nat.lt_of_succ_lt_succ hn) hrest
      fun hm => hs (List.mem_cons_of_mem _ hm), ha]

theorem Named.asciiz {mem : Mem} (h : Named mem) : asciiz mem stage2Filename = stage2Name :=
  upTo_eq (by decide) h (by decide)

theorem Named.frame {mem mem' : Mem} {rs : List Region} (h : Named mem) (hf : Frame rs mem mem')
    (ha : ∀ r ∈ rs, 13 ≤ (r.base - stage2Filename).toNat ∧
      r.len ≤ (stage2Filename - r.base).toNat) : Named mem' :=
  (hf.bytes (by decide) fun r hr => Region.apart_of_le (ha r hr).1 (ha r hr).2).trans h

/-! ## What is fetched -/

/-- A string of bytes received that holds `n` blocks of an image of `size`
bytes, in order, each in a RECV_BLOCK packet with its number and its length. -/
inductive Fetched (size : Nat) : Nat → List Byte → List Byte → Prop
  | none : Fetched size 0 [] []
  | other {n : Nat} {got image : List Byte} (h : Fetched size n got image) (bs : List Byte) :
    Fetched size n (got ++ bs) image
  | block {n : Nat} {got image : List Byte} (h : Fetched size n got image)
    (seq : Byte) (data : List Byte) (hd : data.length = blockLen size n) :
    Fetched size (n + 1)
      (got ++ recvBlock seq (BitVec.ofNat 16 n) (BitVec.ofNat 8 (blockLen size n)) data)
      (image ++ data)

theorem Fetched.length {size n : Nat} {got image : List Byte} (h : Fetched size n got image) :
    image.length = min (64 * n) size := by
  induction h with
  | none => exact (Nat.zero_min size).symm
  | other h bs ih => exact ih
  | @block n got image h seq data hd ih =>
    rw [List.length_append, ih, hd]
    unfold blockLen
    omega

variable {ι : Type} [Pump ι] [LawfulPump ι]

/-- What the loop over the blocks writes to. -/
abbrev loopVars : List Region :=
  [⟨crc32State, 4⟩, ⟨currentBlock, 2⟩, ⟨blocksReceived, 2⟩, ⟨expectedByteCount, 1⟩,
  ⟨retryCount, 1⟩] ++ requestVars

/-- The size of the image. -/
def imageSize (m : Machine DosState ι) : Nat := (m.mem.dword stage2ImageSize).toNat

/-- `n` blocks fetched since `m₀`. -/
structure Fetching (m₀ : Machine DosState ι) (n : Nat) (image : List Byte)
    (m : Machine DosState ι) : Prop where
  within : Within Link loopVars m₀ m
  dos : DosState.Filing m₀.dos m.dos
  got : ∃ got, m.got = m₀.got ++ got ∧ Fetched (imageSize m₀) n got image
  block : m.mem.word currentBlock = BitVec.ofNat 16 n
  handles : m.dos.handles = m₀.dos.handles
  file : m.dos.files stage2Name = some image
  crc : m.mem.dword crc32State = image.foldl Crc32.byteStep Crc32.INIT

namespace Fetching

variable {m₀ m m' : Machine DosState ι} {n : Nat} {image : List Byte} {rs : List Region}

/-- More bytes received, nothing stored that counts. -/
theorem keeps (h : Fetching m₀ n image m) (hk : Keeps Link rs m m') (hrs : ∀ r ∈ rs, r ∈ loopVars)
    (hb : ∀ r ∈ rs, ¬ r.Has currentBlock ∧ ¬ r.Has (currentBlock + 1))
    (hc : ∀ r ∈ rs, ¬ r.Has crc32State ∧ ¬ r.Has (crc32State + 1) ∧ ¬ r.Has (crc32State + 2) ∧
      ¬ r.Has (crc32State + 2 + 1))
    {bs : List Byte} (hg : m'.got = m.got ++ bs) : Fetching m₀ n image m' where
  within := h.within.trans (hk.toWithin.mono hrs)
  dos := h.dos.trans (.ofQuiet hk.dos)
  got := by
    obtain ⟨got, e, hf⟩ := h.got
    exact ⟨got ++ bs, by rw [hg, e, List.append_assoc], hf.other bs⟩
  block := (hk.mem.word (fun r hr => (hb r hr).1) fun r hr => (hb r hr).2).trans h.block
  handles := by
    obtain ⟨con, asked, e⟩ := hk.dos
    rw [e]
    exact h.handles
  file := by
    obtain ⟨con, asked, e⟩ := hk.dos
    rw [e]
    exact h.file
  crc := (hk.mem.dword hc).trans h.crc

/-- Nothing received. -/
theorem silent (h : Fetching m₀ n image m) (hk : Keeps Link rs m m') (hrs : ∀ r ∈ rs, r ∈ loopVars)
    (hb : ∀ r ∈ rs, ¬ r.Has currentBlock ∧ ¬ r.Has (currentBlock + 1))
    (hc : ∀ r ∈ rs, ¬ r.Has crc32State ∧ ¬ r.Has (crc32State + 1) ∧ ¬ r.Has (crc32State + 2) ∧
      ¬ r.Has (crc32State + 2 + 1))
    (hg : m'.got = m.got) : Fetching m₀ n image m' :=
  h.keeps hk hrs hb hc (hg.trans (List.append_nil _).symm)

theorem still (h : Fetching m₀ n image m) (hs : Still m m') : Fetching m₀ n image m' := by
  have hk : Keeps Link [] m m' := hs.keeps
  exact h.silent hk (by decide) (by decide) (by decide) hs.got

end Fetching

/-! ## Failures -/

/-- What the download writes to once the file is there. -/
abbrev fileVars : List Region := ⟨stage2FileHandle, 2⟩ :: loopVars

/-- The download has ended: without the file, or with all of the image in it. -/
structure Ended (m₀ m : Machine DosState ι) : Prop where
  within : Within Link fileVars m₀ m
  dos : DosState.Filing m₀.dos m.dos
  failed : m.cf = true → m.dos.files stage2Name = none
  complete : m.cf = false → ∃ got image, m.got = m₀.got ++ got ∧
    Fetched (imageSize m₀) (m₀.mem.word totalBlocks).toNat got image ∧
    m.dos.files stage2Name = some image ∧
    crc32 image = m₀.mem.dword stage2ImageCrc32

omit [Pump ι] [LawfulPump ι] in
theorem int21Delete_files (m : Machine DosState ι) (hn : Named m.mem)
    (hdx : m.dx = stage2Filename) : (int21Delete m).dos.files stage2Name = none := by
  simp only [int21Delete, hdx, hn.asciiz, if_true]

omit [Pump ι] [LawfulPump ι] in
theorem int21Close_eq (m : Machine DosState ι) :
    ∃ a c dos, int21Close m = { m with ax := a, cf := c, dos := dos } ∧
    DosState.Filing m.dos dos ∧ dos.files = m.dos.files := by
  refine ⟨_, _, _, rfl, int21Close_filing m, ?_⟩
  split <;> rfl

omit [Pump ι] [LawfulPump ι] in
/-- The handle is closed and forgotten. -/
theorem closeFile_eq (m : Machine DosState ι) : ∃ a c dos,
    (m |>.movb .ah (imm DOS_CLOSE) |>.mov .bx (·.word stage2FileHandle) |> int21
      |>.stw (imm stage2FileHandle) (imm 0)) =
      { m with
        ax := a, bx := m.mem.word stage2FileHandle, cf := c, dos := dos,
        mem := m.mem.setWord stage2FileHandle 0 } ∧
    DosState.Filing m.dos dos ∧ dos.files = m.dos.files := by
  let m₁ : Machine DosState ι := m |>.movb .ah (imm DOS_CLOSE) |>.mov .bx (·.word stage2FileHandle)
  obtain ⟨a, c, dos, hclose, hdos⟩ := int21Close_eq m₁
  have h₁ : int21 m₁ = int21Close m₁ := int21_close (hi_ofBytes _ _)
  refine ⟨a, c, dos, ?_, hdos⟩
  show (int21 m₁).stw (imm stage2FileHandle) (imm 0) = _
  rw [h₁, hclose]
  rfl

omit [Pump ι] [LawfulPump ι] in
theorem forgotten_frame (mem : Mem) :
    Frame [⟨stage2FileHandle, 2⟩] mem (mem.setWord stage2FileHandle 0) :=
  (Frame.refl _ _).setWord _ (by decide) (by decide)

omit [Pump ι] [LawfulPump ι] in
theorem skipClose_ok (m : Machine DosState ι) (hn : Named m.mem) {a b d : Word} {stk : List Word}
    (hs : m.stk = d :: b :: a :: stk) :
    ∃ c dos, abortDownload.skipClose m =
      { m with ax := a, bx := b, dx := d, cf := c, dos := dos, stk := stk } ∧
      DosState.Filing m.dos dos ∧ dos.files stage2Name = none := by
  let m₁ : Machine DosState ι := { m with ax := ofBytes DOS_DELETE (lo m.ax), dx := stage2Filename }
  have h₁ : int21 m₁ = int21Delete m₁ := int21_delete (hi_ofBytes _ _)
  refine ⟨(int21Delete m₁).cf, (int21Delete m₁).dos, ?_, int21Delete_filing m₁,
    int21Delete_files m₁ hn rfl⟩
  have e : abortDownload.skipClose m = (int21 m₁ |>.pop .dx |>.pop .bx |>.pop .ax) := rfl
  rw [e, h₁]
  have hstk : (int21Delete m₁).stk = d :: b :: a :: stk := hs
  simp only [pop, top, setReg, hstk, List.headD_cons, List.tail_cons]
  rfl

/-- Whatever became of the close, the file is gone. -/
theorem abortDownload_ok (m : Machine DosState ι) (hn : Named m.mem) :
    Within Link [⟨stage2FileHandle, 2⟩] m (abortDownload m) ∧
      DosState.Filing m.dos (abortDownload m).dos ∧
      (abortDownload m).dos.files stage2Name = none := by
  obtain ⟨f, z, e⟩ :
    ∃ f z, abortDownload m = ({ m with stk := m.dx :: m.bx :: m.ax :: m.stk, cf := f, zf := z } :
      Machine DosState ι).jz abortDownload.skipClose fun m => abortDownload.skipClose
        (m |>.movb .ah (imm DOS_CLOSE) |>.mov .bx (·.word stage2FileHandle) |> int21
          |>.stw (imm stage2FileHandle) (imm 0)) := ⟨_, _, rfl⟩
  let m₀ : Machine DosState ι := { m with stk := m.dx :: m.bx :: m.ax :: m.stk, cf := f, zf := z }
  rw [e]
  refine jz_cases (P := fun m' => Within Link _ m m' ∧ DosState.Filing m.dos m'.dos ∧
    m'.dos.files stage2Name = none) (fun _ => ?_) fun _ => ?_
  · obtain ⟨c, dos, e', hd, hdel⟩ := skipClose_ok m₀ hn rfl
    rw [e']
    exact ⟨⟨rfl, rfl, rfl, rfl, .refl _ _, rfl, List.prefix_rfl, .refl⟩, hd, hdel⟩
  · have hf := forgotten_frame m.mem
    obtain ⟨a₁, c₁, dos₁, e₁, hd₁, -⟩ := closeFile_eq m₀
    rw [e₁]
    obtain ⟨c, dos, e', hd, hdel⟩ := skipClose_ok
      { m₀ with
      ax := a₁, bx := m.mem.word stage2FileHandle, cf := c₁, dos := dos₁,
      mem := m.mem.setWord stage2FileHandle 0 }
      (hn.frame hf (by decide)) rfl
    rw [e']
    exact ⟨⟨rfl, rfl, rfl, rfl, hf, hf.word (by decide) (by decide), List.prefix_rfl, .refl⟩,
      hd₁.trans hd, hdel⟩

omit [Pump ι] [LawfulPump ι] in
theorem Named.fileVars {mem mem' : Mem} (h : Named mem) (hf : Frame fileVars mem mem') :
    Named mem' :=
  h.frame hf (by decide)

section

variable {m₀ m : Machine DosState ι} (hw : Within Link fileVars m₀ m)
  (hd : DosState.Filing m₀.dos m.dos) (hn : Named m₀.mem)
include hw hd hn

/-- `.fail_download`, `.fail_close`. -/
theorem failDownload_ended (msg : Word) : Ended m₀ (downloadStage2.failDownload msg m) := by
  have hs : Still m (putsMsg msg m) := (Still.refl m).putsMsg
  have hn₁ : Named (putsMsg msg m).mem := hs.mem ▸ hn.fileVars hw.mem
  obtain ⟨hw', hd', hdel⟩ := abortDownload_ok (putsMsg msg m) hn₁
  refine ⟨(hw.still hs).trans ((hw'.mono (by decide)).congr rfl rfl),
    (hd.trans (.ofQuiet hs.dos)).trans hd', fun _ => hdel, fun h => ?_⟩
  cases h

/-- `.fail_crc`. -/
theorem failCrc_ended : Ended m₀ (downloadStage2.failCrc m) := by
  have hs : Still m (putsMsg msgDlFailCrc m) := (Still.refl m).putsMsg
  let m₁ : Machine DosState ι := putsMsg msgDlFailCrc m |>.movb .ah (imm DOS_DELETE)
    |>.mov .dx (imm stage2Filename)
  have hs₁ : Still m m₁ := hs.movb.mov
  have hn₁ : Named m₁.mem := hs₁.mem ▸ hn.fileVars hw.mem
  have h₁ : int21 m₁ = int21Delete m₁ := int21_delete (hi_ofBytes _ _)
  have e : downloadStage2.failCrc m = (int21Delete m₁).stc := by
    rw [← h₁]
    rfl
  rw [e]
  have hw₁ := hw.still hs₁
  refine ⟨⟨hw₁.cs, hw₁.ds, hw₁.es, hw₁.stk, hw₁.mem, hw₁.base, hw₁.got, hw₁.link⟩,
    (hd.trans (.ofQuiet hs₁.dos)).trans (int21Delete_filing m₁),
      fun _ => int21Delete_files m₁ hn₁ rfl, fun h => ?_⟩
  cases h

end

omit [Pump ι] [LawfulPump ι] in
/-- The comparison with the checksum announced, on two words. -/
theorem finalized_iff (mem : Mem) : (mem.word crc32State ^^^ 0xFFFF = mem.word stage2ImageCrc32 ∧
    mem.word (crc32State + 2) ^^^ 0xFFFF = mem.word (stage2ImageCrc32 + 2)) ↔
    mem.dword crc32State ^^^ Crc32.XOROUT = mem.dword stage2ImageCrc32 := by
  have hx : Crc32.XOROUT = ofWords 0xFFFF 0xFFFF := by decide
  rw [Mem.dword, Mem.dword, hx, ofWords_xor]
  constructor
  · rintro ⟨hl, hh⟩
    rw [hl, hh]
  · intro h
    have hl := congrArg loW h
    have hh := congrArg hiW h
    rw [loW_ofWords, loW_ofWords] at hl
    rw [hiW_ofWords, hiW_ofWords] at hh
    exact ⟨hl, hh⟩

/-- `.blocks_done`. -/
theorem blocksDone_ended {m₀ m : Machine DosState ι} {image : List Byte} (hn : Named m₀.mem)
    (h : Fetching m₀ (m₀.mem.word totalBlocks).toNat image m) :
    Ended m₀ (downloadStage2.blocksDone m) := by
  obtain ⟨a, c, dos, e, hfiling, hfiles⟩ := closeFile_eq m
  let m₂ : Machine DosState ι :=
    { m with
      ax := a, bx := m.mem.word stage2FileHandle, cf := c, dos := dos,
      mem := m.mem.setWord stage2FileHandle 0 }
  have hf := forgotten_frame m.mem
  have hw₂ : Within Link fileVars m₀ m₂ := by
    have hw : Within Link fileVars m₀ m := h.within.mono (by decide)
    exact ⟨hw.cs, hw.ds, hw.es, hw.stk, hw.mem.trans (hf.mono (by decide)),
      (hf.word (by decide) (by decide)).trans hw.base, hw.got, hw.link⟩
  have hd₂ : DosState.Filing m₀.dos m₂.dos := h.dos.trans hfiling
  unfold downloadStage2.blocksDone
  rw [show _ = m₂ from e]
  refine jc_cases (P := Ended m₀) (fun _ => failDownload_ended hw₂ hd₂ hn _) fun _ => ?_
  let m₃ : Machine DosState ι := crc32Finalize m₂ |>.cmp (·.ax) (·.word stage2ImageCrc32)
  have hs₃ : SameCore m₂ m₃ := rfl
  show Ended m₀ (m₃.jnz _ _)
  refine jnz_cases (P := Ended m₀) (fun _ => failCrc_ended (hw₂.congr rfl hs₃) hd₂ hn) fun hl => ?_
  let m₄ : Machine DosState ι := m₃.cmp (·.dx) (·.word (stage2ImageCrc32 + 2))
  have hs₄ : SameCore m₂ m₄ := rfl
  show Ended m₀ (m₄.jnz _ _)
  refine jnz_cases (P := Ended m₀) (fun _ => failCrc_ended (hw₂.congr rfl hs₄) hd₂ hn) fun hh => ?_
  have hcrc : m₂.mem.dword crc32State ^^^ Crc32.XOROUT = m₂.mem.dword stage2ImageCrc32 :=
    (finalized_iff m₂.mem).mp ⟨of_decide_eq_true hl, of_decide_eq_true hh⟩
  have hs : Still m₂ (putsMsg msgDlOk m₄).clc := hs₄.still.putsMsg.clc
  refine ⟨hw₂.still hs, hd₂.trans (.ofQuiet hs.dos), fun hc => ?_, fun _ => ?_⟩
  · cases hc
  · obtain ⟨got, hgot, hfetched⟩ := h.got
    refine ⟨got, image, hs.got.trans hgot, hfetched, ?_, ?_⟩
    · obtain ⟨con, asked, ed⟩ := hs.dos
      rw [ed]
      show dos.files stage2Name = some image
      rw [hfiles]
      exact h.file
    · have hsum : m₂.mem.dword crc32State = image.foldl Crc32.byteStep Crc32.INIT :=
        (hf.dword (by decide)).trans h.crc
      rw [crc32, ← hsum, hcrc]
      exact hw₂.mem.dword (by decide)

/-! ## The tries left -/

/-- A try that failed is counted. -/
theorem decRetries_ok (m : Machine DosState ι) :
    Keeps Link [⟨retryCount, 1⟩] m (m.decMemb retryCount) ∧
    (m.decMemb retryCount).mem retryCount = m.mem retryCount - 1 ∧
    (m.decMemb retryCount).zf = decide (m.mem retryCount - 1 = 0) := by
  have hf : Frame [⟨retryCount, 1⟩] m.mem (m.decMemb retryCount).mem :=
    (Frame.refl _ _).set _ (by decide)
  exact ⟨(Keeps.setMem hf (hf.word (by decide) (by decide))).congr rfl rfl,
    Mem.set_self m.mem retryCount _, rfl⟩

/-- A count of tries that goes down, and not to zero. -/
theorem toNat_retries_lt {tries : Byte} (h : tries - 1 ≠ 0) (hpos : 0 < tries.toNat) :
    0 < (tries - 1).toNat ∧ (tries - 1).toNat < tries.toNat := by
  have hone : (tries - 1).toNat = tries.toNat - 1 :=
    BitVec.toNat_sub_of_le (show (1 : Byte).toNat ≤ _ from hpos)
  refine ⟨Nat.pos_of_ne_zero fun hz => h (BitVec.eq_of_toNat_eq hz), ?_⟩
  rw [hone]
  exact Nat.sub_one_lt_of_lt hpos

/-- The bytes of the block and the tries, before the first. -/
theorem expectBlock_ok (m : Machine DosState ι)
    (h : 64 * (m.mem.word currentBlock).toNat ≤ (m.mem.dword stage2ImageSize).toNat) :
    ∃ m', (downloadStage2.expectCount m).stb (imm retryCount) (imm DL_BLOCK_RETRIES) = m' ∧
      Keeps Link [⟨expectedByteCount, 1⟩, ⟨retryCount, 1⟩] m m' ∧ m'.io = m.io ∧ m'.got = m.got ∧
      m'.mem expectedByteCount =
        BitVec.ofNat 8
          (blockLen (m.mem.dword stage2ImageSize).toNat (m.mem.word currentBlock).toNat) ∧
      m'.mem retryCount = DL_BLOCK_RETRIES := by
  obtain ⟨a, b, c, d, f, z, e⟩ := expectCount_ok m h
  generalize BitVec.ofNat 8 (blockLen (m.mem.dword stage2ImageSize).toNat
    (m.mem.word currentBlock).toNat) = count at e ⊢
  refine ⟨_, rfl, ?_⟩
  rw [e]
  have hf : Frame [⟨expectedByteCount, 1⟩, ⟨retryCount, 1⟩] m.mem
      ((m.mem.set expectedByteCount count).set retryCount DL_BLOCK_RETRIES) :=
    ((Frame.refl _ _).set _ (by decide)).set _ (by decide)
  refine ⟨(Keeps.setMem hf (hf.word (by decide) (by decide))).congr rfl rfl, rfl, rfl, ?_,
    Mem.set_self (m.mem.set expectedByteCount count) retryCount _⟩
  show ((m.mem.set expectedByteCount count).set retryCount DL_BLOCK_RETRIES) expectedByteCount =
    count
  rw [Mem.set_of_ne _ _ (by decide), Mem.set_self]

/-! ## One block -/

/-- The file as it was created. -/
structure Created (m₀ : Machine DosState ι) : Prop where
  named : Named m₀.mem
  handle : m₀.dos.handles (m₀.mem.word stage2FileHandle) = some stage2Name

/-- What is expected of block `n`. -/
def expected (m₀ : Machine DosState ι) (n : Nat) : Byte :=
  BitVec.ofNat 8 (blockLen (imageSize m₀) n)

omit [Pump ι] [LawfulPump ι] in
theorem toNat_expected (m₀ : Machine DosState ι) (n : Nat) :
    (expected m₀ n).toNat = blockLen (imageSize m₀) n := by
  have := blockLen_le (imageSize m₀) n
  rw [expected, BitVec.toNat_ofNat]
  omega

section

variable {m₀ m m' : Machine DosState ι} {n : Nat} {image : List Byte} (hc : Created m₀)
  (h : Fetching m₀ n image m)
include hc h

/-- `.got_block`: one block more, or the end of the download. -/
theorem gotBlock_sat (hcount : m.mem expectedByteCount = expected m₀ n)
    {bs : List Byte} {late : Bool} (hr : Requested bs late m m') (hcf : m'.cf = false) :
    (downloadStage2.gotBlock m').Sat (fun m => ∃ image, Fetching m₀ (n + 1) image m)
      (Ended m₀) := by
  obtain ⟨-, seq, data, hlen, rfl, hdata⟩ := hr.accepted hcf
  have hw' : Within Link loopVars m₀ m' := h.within.trans (hr.keeps.toWithin.mono (by decide))
  have hd' : DosState.Filing m₀.dos m'.dos := h.dos.trans (.ofQuiet hr.keeps.dos)
  have hcount' : m'.mem expectedByteCount = m.mem expectedByteCount := hr.keeps.mem.byte (by decide)
  have hcommit := commitOneBlock_ok m'
  rw [hcount', ← hlen, hdata] at hcommit
  unfold downloadStage2.gotBlock
  generalize commitOneBlock m' = m₁ at *
  have hw₁ : Within Link loopVars m₀ m₁ := hw'.trans (hcommit.within.mono (by decide))
  have hd₁ := hd'.trans hcommit.dos
  refine jc_cases (P := fun f => Flow.Sat _ (Ended m₀) f)
    (fun _ => failDownload_ended (hw₁.mono (by decide)) hd₁ hc.named _) fun hcf₁ => ?_
  have hquiet : m'.dos.handles = m.dos.handles ∧ m'.dos.files = m.dos.files := by
    obtain ⟨con, asked, e⟩ := hr.keeps.dos
    rw [e]
    exact ⟨rfl, rfl⟩
  have hopen : m'.dos.handles (m'.mem.word stage2FileHandle) = some stage2Name := by
    rw [hquiet.1, h.handles, hw'.mem.word (by decide) (by decide)]
    exact hc.handle
  have hfile := hcommit.file hcf₁ stage2Name image hopen (hquiet.2 ▸ h.file)
  let m₂ : Machine DosState ι := m₁ |>.incMem currentBlock |>.incMem blocksReceived
    |>.mov .ax (·.word currentBlock) |>.andw .ax (imm DL_PROGRESS_MASK)
  have hf₂ : Frame [⟨currentBlock, 2⟩, ⟨blocksReceived, 2⟩] m₁.mem m₂.mem :=
    ((Frame.refl _ _).setWord _ (by decide) (by decide)).setWord _ (by decide) (by decide)
  have hblock₁ : m₁.mem.word currentBlock = BitVec.ofNat 16 n :=
    (hcommit.within.mem.word (by decide) (by decide)).trans
      ((hr.keeps.mem.word (by decide) (by decide)).trans h.block)
  have hnext : Fetching m₀ (n + 1) (image ++ data) m₂ := by
    refine ⟨?_, hd₁, ?_, ?_, ?_, hfile, ?_⟩
    · exact ⟨hw₁.cs, hw₁.ds, hw₁.es, hw₁.stk, hw₁.mem.trans (hf₂.mono (by decide)),
        (hf₂.word (by decide) (by decide)).trans hw₁.base, hw₁.got, hw₁.link⟩
    · obtain ⟨got, hgot, hfetched⟩ := h.got
      have hblocks := hfetched.block seq data (by rw [hlen, hcount, toNat_expected])
      rw [← h.block, show BitVec.ofNat 8 (blockLen (imageSize m₀) n) = m.mem expectedByteCount from
        hcount.symm] at hblocks
      refine ⟨_, ?_, hblocks⟩
      rw [show m₂.got = m₁.got from rfl, hcommit.got, hr.got, hgot, List.append_assoc]
    · have hword : m₂.mem.word currentBlock = m₁.mem.word currentBlock + 1 := by
        show ((m₁.mem.setWord currentBlock _).setWord blocksReceived _).word currentBlock = _
        rw [Mem.word_setWord_of_ne _ _ (by decide) (by decide) (by decide) (by decide),
          Mem.word_setWord]
      rw [hword, hblock₁]
      exact (BitVec.ofNat_add n 1).symm
    · exact hcommit.handles.trans (hquiet.1.trans h.handles)
    · rw [hf₂.dword (by decide), hcommit.crc, List.foldl_append, ← h.crc,
        hr.keeps.mem.dword (by decide)]
  show Flow.Sat _ _ (m₂.jnz .next (.next ∘ putsMsg msgDlDot))
  refine jnz_cases (P := fun f => Flow.Sat _ (Ended m₀) f) (fun _ => ⟨_, hnext⟩) fun _ => ?_
  have hs : Still m₂ (putsMsg msgDlDot m₂) := (Still.refl m₂).putsMsg
  exact ⟨_, hnext.still hs⟩

/-- `.retry`: one turn. -/
theorem retry_sat (hcount : m.mem expectedByteCount = expected m₀ n)
    (hleft : 0 < (m.mem retryCount).toNat) : (downloadStage2.retry m).Sat
      (fun m' => (Fetching m₀ n image m' ∧ m'.mem expectedByteCount = expected m₀ n ∧
        0 < (m'.mem retryCount).toNat) ∧ (m'.mem retryCount).toNat < (m.mem retryCount).toNat)
      fun f => f.Sat (fun m => ∃ image, Fetching m₀ (n + 1) image m) (Ended m₀) := by
  obtain ⟨bs, late, hr⟩ := requestOneBlock_ok m
  unfold downloadStage2.retry
  generalize requestOneBlock m = m₁ at *
  refine jnc_cases (P := fun f => Flow.Sat _ _ f)
    (fun hcf => gotBlock_sat hc h hcount hr hcf) fun _ => ?_
  have h₁ : Fetching m₀ n image m₁ := h.keeps hr.keeps (by decide) (by decide) (by decide) hr.got
  obtain ⟨hk₂, hleft₂, hzf⟩ := decRetries_ok m₁
  have hcount₂ : (m₁.decMemb retryCount).mem expectedByteCount = m.mem expectedByteCount :=
    (hk₂.mem.byte (by decide)).trans (hr.keeps.mem.byte (by decide))
  have h₂ : Fetching m₀ n image (m₁.decMemb retryCount) :=
    h₁.silent hk₂ (by decide) (by decide) (by decide) rfl
  rw [show m₁.mem retryCount = m.mem retryCount from hr.keeps.mem.byte (by decide)] at hleft₂ hzf
  generalize m₁.decMemb retryCount = m₂ at *
  refine jz_cases (P := fun f => Flow.Sat _ _ f)
    (fun _ => failDownload_ended (h₂.within.mono (by decide)) h₂.dos hc.named _) fun hz => ?_
  rw [hzf] at hz
  have hs := sendBlockCmd_ok CMD_BLOCK_NAK m₂
  have hleft₃ : (sendBlockNak m₂).mem retryCount = m.mem retryCount - 1 :=
    (hs.keeps.mem.byte (by decide)).trans hleft₂
  have hcount₃ : (sendBlockNak m₂).mem expectedByteCount = m.mem expectedByteCount :=
    (hs.keeps.mem.byte (by decide)).trans hcount₂
  obtain ⟨hpos, hfewer⟩ := toNat_retries_lt (of_decide_eq_false hz) hleft
  refine ⟨⟨h₂.silent hs.keeps (by decide) (by decide) (by decide) hs.got, hcount₃.trans hcount, ?_⟩,
    ?_⟩
  · rwa [hleft₃]
  · rwa [hleft₃]

end

/-! ## The loop over the blocks -/

/-- The number of blocks is that of the image. -/
structure Counted (m₀ : Machine DosState ι) : Prop extends Created m₀ where
  total : m₀.mem.word totalBlocks = loW (blockCount (m₀.mem.dword stage2ImageSize))
  few : hiW (blockCount (m₀.mem.dword stage2ImageSize)) = 0

section

variable {m₀ m : Machine DosState ι} {n : Nat} {image : List Byte} (hc : Counted m₀)
include hc

omit [Pump ι] [LawfulPump ι] in
theorem Counted.toNat_total :
    (m₀.mem.word totalBlocks).toNat = (imageSize m₀ + 63) % 2 ^ 32 / 64 := by
  have hb := toNat_blockCount (m₀.mem.dword stage2ImageSize)
  have hlo := toNat_loW (blockCount (m₀.mem.dword stage2ImageSize))
  have hhi := toNat_hiW (blockCount (m₀.mem.dword stage2ImageSize))
  rw [hc.few] at hhi
  rw [hc.total, hlo, hb]
  rw [hb] at hhi
  have h0 : (0 : Word).toNat = 0 := rfl
  unfold imageSize
  omega

omit [Pump ι] [LawfulPump ι] in
theorem Counted.block_lt (hn : n < (m₀.mem.word totalBlocks).toNat) : 64 * n < imageSize m₀ := by
  rw [hc.toNat_total] at hn
  omega

variable (h : Fetching m₀ n image m)
include h

/-- `.block_loop`: one turn. -/
theorem blockLoop_sat (hn : n ≤ (m₀.mem.word totalBlocks).toNat) : (downloadStage2.blockLoop m).Sat
    (fun m' => n < (m₀.mem.word totalBlocks).toNat ∧ ∃ image, Fetching m₀ (n + 1) image m')
      (Ended m₀) := by
  have hlt : n < 65536 := Nat.lt_of_le_of_lt hn (m₀.mem.word totalBlocks).isLt
  have hcur : (m.mem.word currentBlock).toNat = n := by rw [h.block, toNat_ofNat16 hlt]
  have htotal : m.mem.word totalBlocks = m₀.mem.word totalBlocks :=
    h.within.mem.word (by decide) (by decide)
  let m₁ : Machine DosState ι :=
    m |>.mov .ax (·.word currentBlock) |>.cmp (·.ax) (·.word totalBlocks)
  have hs₁ : Still m m₁ := (Still.refl m).mov.cmp
  have h₁ : Fetching m₀ n image m₁ := h.still hs₁
  have hcf : m₁.cf = decide (n < (m₀.mem.word totalBlocks).toNat) := by
    rw [← hcur, ← htotal]
    rfl
  show Flow.Sat _ _ (m₁.jnc _ _)
  by_cases hmore : n < (m₀.mem.word totalBlocks).toNat
  swap
  · rw [jnc_pos (hcf.trans (decide_eq_false hmore))]
    obtain rfl : n = (m₀.mem.word totalBlocks).toNat := by omega
    exact blocksDone_ended hc.named h₁
  rw [jnc_neg (hcf.trans (decide_eq_true hmore))]
  have hsize : m₁.mem.dword stage2ImageSize = m₀.mem.dword stage2ImageSize :=
    h.within.mem.dword (by decide)
  have hle : 64 * (m₁.mem.word currentBlock).toNat ≤ (m₁.mem.dword stage2ImageSize).toNat := by
    rw [hsize, show (m₁.mem.word currentBlock).toNat = n from hcur]
    exact Nat.le_of_lt (hc.block_lt hmore)
  obtain ⟨m₂, e, hk₂, -, hgot₂, hcount₂, hleft₂⟩ := expectBlock_ok m₁ hle
  rw [hsize, show (m₁.mem.word currentBlock).toNat = n from hcur] at hcount₂
  have h₂ : Fetching m₀ n image m₂ := h₁.silent hk₂ (by decide) (by decide) (by decide) hgot₂
  rw [e]
  have hturns : Flow.Sat (fun m => ∃ image, Fetching m₀ (n + 1) image m) (Ended m₀)
      (iter downloadStage2.retry .done 256 m₂) :=
    iter_rule (fun m => Fetching m₀ n image m ∧ m.mem expectedByteCount = expected m₀ n ∧
      0 < (m.mem retryCount).toNat)
      (Flow.Sat (fun m => ∃ image, Fetching m₀ (n + 1) image m) (Ended m₀))
      (fun m => (m.mem retryCount).toNat)
        (fun m hI => retry_sat hc.toCreated hI.1 hI.2.1 hI.2.2) 256 m₂
      ⟨h₂, hcount₂, by rw [hleft₂]; decide⟩ (by rw [hleft₂]; decide)
  exact hturns.imp (fun _ hI => ⟨hmore, hI⟩) fun _ hQ => hQ

end

/-- All turns of the loop over the blocks. -/
theorem blocks_ended {m₀ : Machine DosState ι} (hc : Counted m₀) (h : Fetching m₀ 0 [] m₀) :
    Ended m₀ (downloadStage2.blocks m₀) := by
  refine iter_rule (fun m => ∃ n image, n ≤ (m₀.mem.word totalBlocks).toNat ∧
    Fetching m₀ n image m) (Ended m₀)
    (fun m => (m₀.mem.word totalBlocks).toNat - (m.mem.word currentBlock).toNat) ?_ 65536 m₀
      ⟨0, [], Nat.zero_le _, h⟩
    (Nat.lt_of_le_of_lt (Nat.sub_le _ _) (m₀.mem.word totalBlocks).isLt)
  rintro m ⟨n, image, hn, hm⟩
  have htotal := (m₀.mem.word totalBlocks).isLt
  refine (blockLoop_sat hc hm hn).imp
    (fun m' ⟨hmore, image', hm'⟩ => ⟨⟨n + 1, image', hmore, hm'⟩, ?_⟩) fun _ hQ => hQ
  rw [hm.block, hm'.block, toNat_ofNat16 (by omega), toNat_ofNat16 (by omega)]
  omega

/-! ## The download -/

/-- What the download writes to. -/
abbrev downloadVars : List Region := ⟨totalBlocks, 2⟩ :: fileVars

/-- What a download leaves that has asked for the file, which DOS created or
not. -/
structure Downloaded (created : Bool) (m m' : Machine DosState ι) : Prop where
  within : Within Link downloadVars m m'
  calls : ∃ calls, m'.dos.calls = m.dos.calls ++ .create stage2Name created :: calls ∧
    ∀ c ∈ calls, c.OnFile
  paras : m'.dos.paras = m.dos.paras
  sp : m'.dos.sp = m.dos.sp
  refused : created = false → m'.cf = true ∧ m'.dos.files = m.dos.files
  failed : created = true → m'.cf = true → m'.dos.files stage2Name = none
  complete : m'.cf = false → ∃ got image, m'.got = m.got ++ got ∧
    Fetched (imageSize m) (blockCount (m.mem.dword stage2ImageSize)).toNat got image ∧
    m'.dos.files stage2Name = some image ∧ crc32 image = m.mem.dword stage2ImageCrc32

omit [Pump ι] [LawfulPump ι] in
theorem int21Create_eq (m : Machine DosState ι) {name : List Byte} (hn : asciiz m.mem m.dx = name) :
    ∃ a c dos, int21Create m = { m with ax := a, cf := c, dos := dos } ∧
    (dos.calls = m.dos.calls ++ [.create name (!c)] ∧ dos.paras = m.dos.paras ∧ dos.sp = m.dos.sp) ∧
    (c = true → dos.files = m.dos.files) ∧
      (c = false → dos.files name = some [] ∧ dos.handles a = some name) := by
  refine ⟨_, _, _, rfl, ?_⟩
  rw [← hn]
  cases hc : m.dos.reply.cf with
  | true => exact ⟨⟨rfl, rfl, rfl⟩, fun _ => rfl, fun h => by cases h⟩
  | false => exact ⟨⟨rfl, rfl, rfl⟩, (fun h => by cases h), fun _ => ⟨if_pos rfl, if_pos rfl⟩⟩

/-- The variables at the first block. -/
def opened (mem : Mem) (handle : Word) : Mem :=
  mem |>.setWord stage2FileHandle handle |>.setWord crc32State 0xFFFF
    |>.setWord (crc32State + 2) 0xFFFF |>.setWord currentBlock 0 |>.setWord blocksReceived 0

theorem opened_frame (mem : Mem) (handle : Word) : Frame fileVars mem (opened mem handle) :=
  (Frame.refl _ _).setWord _ (by decide) (by decide) |>.setWord _ (by decide) (by decide)
    |>.setWord _ (by decide) (by decide) |>.setWord _ (by decide) (by decide)
    |>.setWord _ (by decide) (by decide)

theorem opened_handle (mem : Mem) (handle : Word) :
    (opened mem handle).word stage2FileHandle = handle := by
  have hf : Frame [⟨crc32State, 4⟩, ⟨currentBlock, 2⟩, ⟨blocksReceived, 2⟩]
    (mem.setWord stage2FileHandle handle)
      (opened mem handle) :=
    (Frame.refl _ _).setWord _ (by decide) (by decide) |>.setWord _ (by decide) (by decide)
      |>.setWord _ (by decide) (by decide) |>.setWord _ (by decide) (by decide)
  rw [hf.word (by decide) (by decide), Mem.word_setWord]

theorem opened_block (mem : Mem) (handle : Word) : (opened mem handle).word currentBlock = 0 := by
  unfold opened
  rw [Mem.word_setWord_of_ne _ _ (by decide) (by decide) (by decide) (by decide), Mem.word_setWord]

theorem opened_crc (mem : Mem) (handle : Word) :
    (opened mem handle).dword crc32State = Crc32.INIT := by
  have hinit : (mem.setWord stage2FileHandle handle).setDword crc32State Crc32.INIT =
      ((mem.setWord stage2FileHandle handle).setWord crc32State 0xFFFF).setWord
        (crc32State + 2) 0xFFFF := by
    rw [Mem.setDword,
      show loW Crc32.INIT = 0xFFFF by decide, show hiW Crc32.INIT = 0xFFFF by decide]
  have hf : ∀ mem' : Mem, Frame [⟨currentBlock, 2⟩, ⟨blocksReceived, 2⟩] mem'
      ((mem'.setWord currentBlock 0).setWord blocksReceived 0) := fun mem' =>
    (Frame.refl _ _).setWord _ (by decide) (by decide) |>.setWord _ (by decide) (by decide)
  unfold opened
  rw [← hinit, (hf _).dword (by decide), Mem.dword_setDword]

omit [LawfulPump ι] in
/-- DOS is asked for the file, and the blocks follow if it creates it. -/
theorem createFile_eq (m : Machine DosState ι) {name : List Byte}
    (hn : asciiz m.mem stage2Filename = name) : ∃ a x z c dos, downloadStage2.createFile m =
      ({ m with ax := a, cx := x, dx := stage2Filename, zf := z, cf := c, dos := dos } :
        Machine DosState ι).jc
        (downloadStage2.skip msgDlFailCreate)
          (fun m => downloadStage2.blocks { m with mem := opened m.mem m.ax }) ∧
    (dos.calls = m.dos.calls ++ [.create name (!c)] ∧ dos.paras = m.dos.paras ∧ dos.sp = m.dos.sp) ∧
    (c = true → dos.files = m.dos.files) ∧
      (c = false → dos.files name = some [] ∧ dos.handles a = some name) := by
  let m₁ : Machine DosState ι := m |>.movb .ah (imm DOS_CREATE) |>.xorw .cx (·.cx)
    |>.mov .dx (imm stage2Filename)
  obtain ⟨a, c, dos, hcreate, hdos⟩ := int21Create_eq m₁ hn
  have h₁ : int21 m₁ = int21Create m₁ := int21_create (hi_ofBytes _ _)
  have hopened : ∀ m : Machine DosState ι, (m |>.stw (imm stage2FileHandle) (·.ax) |> crc32Init
      |>.stw (imm currentBlock) (imm 0) |>.stw (imm blocksReceived) (imm 0)) =
      { m with mem := opened m.mem m.ax } := fun m => by
    simp only [stw, crc32Init, imm, opened]
  refine ⟨a, m₁.cx, m₁.zf, c, dos, ?_, hdos⟩
  unfold downloadStage2.createFile
  simp only [hopened]
  show (int21 m₁).jc _ _ = _
  rw [h₁, hcreate]
  rfl

/-- The file is created. -/
theorem createFile_ok (m : Machine DosState ι) (hn : Named m.mem)
    (htotal : m.mem.word totalBlocks = loW (blockCount (m.mem.dword stage2ImageSize)))
    (hfew : hiW (blockCount (m.mem.dword stage2ImageSize)) = 0) :
    ∃ created, Downloaded created m (downloadStage2.createFile m) := by
  obtain ⟨a, x, z, c, dos, e, ⟨hcalls, hparas, hsp⟩, hrefused, hcreated⟩ :=
    createFile_eq m hn.asciiz
  let m₂ : Machine DosState ι :=
    { m with ax := a, cx := x, dx := stage2Filename, zf := z, cf := c, dos := dos }
  rw [show downloadStage2.createFile m = m₂.jc _ _ from e]
  refine ⟨!c, ?_⟩
  cases hcf : c with
  | true =>
    rw [jc_pos (show m₂.cf = true from hcf)]
    have hs : Still m₂ (downloadStage2.skip msgDlFailCreate m₂) := (Still.refl _).putsMsg.stc
    have hw : Within Link downloadVars m m₂ :=
      ⟨rfl, rfl, rfl, rfl, .refl _ _, rfl, List.prefix_rfl, .refl⟩
    obtain ⟨con, asked, ed⟩ := hs.dos
    refine ⟨hw.still hs, ⟨[], ?_, List.forall_mem_nil _⟩, ?_, ?_, fun _ => ⟨rfl, ?_⟩,
      (fun h => by cases h), fun h => by cases h⟩
    all_goals rw [ed]
    · exact hcalls.trans (by rw [hcf])
    · exact hparas
    · exact hsp
    · exact hrefused hcf
  | false =>
    rw [jc_neg (show m₂.cf = false from hcf)]
    obtain ⟨hfile, hopen⟩ := hcreated hcf
    let m₀ : Machine DosState ι := { m₂ with mem := opened m.mem a }
    have hf₀ : Frame fileVars m.mem m₀.mem := opened_frame m.mem a
    have hsize : m₀.mem.dword stage2ImageSize = m.mem.dword stage2ImageSize := hf₀.dword (by decide)
    have htotal₀ : m₀.mem.word totalBlocks = m.mem.word totalBlocks :=
      hf₀.word (by decide) (by decide)
    have hcounted : Counted m₀ := by
      refine ⟨⟨hn.fileVars hf₀, ?_⟩, by rw [htotal₀, hsize, htotal], by rw [hsize, hfew]⟩
      rw [show m₀.mem.word stage2FileHandle = a from opened_handle m.mem a]
      exact hopen
    have hstart : Fetching m₀ 0 [] m₀ := by
      refine ⟨⟨rfl, rfl, rfl, rfl, .refl _ _, rfl, List.prefix_rfl, .refl⟩, .refl _,
        ⟨[], (List.append_nil _).symm, .none⟩, opened_block m.mem a, rfl, hfile, opened_crc m.mem a⟩
    have hend := blocks_ended hcounted hstart
    have hw₀ : Within Link downloadVars m m₀ :=
      ⟨rfl, rfl, rfl, rfl, hf₀.mono (by decide), hf₀.word (by decide) (by decide),
        List.prefix_rfl, .refl⟩
    obtain ⟨calls, hnew, hfiling⟩ := hend.dos.calls
    show Downloaded (!false) m (downloadStage2.blocks m₀)
    refine ⟨hw₀.trans (hend.within.mono (by decide)), ⟨calls, ?_, hfiling⟩,
      hend.dos.paras.trans hparas,
      hend.dos.sp.trans hsp, (fun h => by cases h), fun _ => hend.failed, fun h => ?_⟩
    · rw [hnew, show m₀.dos.calls = _ from hcalls, hcf, List.append_assoc]
      rfl
    · obtain ⟨got, image, hgot, hfetched, hfile', hcrc⟩ := hend.complete h
      rw [hcounted.total, hsize] at hfetched
      have hsize' : imageSize m₀ = imageSize m := by
        unfold imageSize
        rw [hsize]
      have hcount : (loW (blockCount (m.mem.dword stage2ImageSize))).toNat =
          (blockCount (m.mem.dword stage2ImageSize)).toNat := by
        have hhi := toNat_hiW (blockCount (m.mem.dword stage2ImageSize))
        rw [hfew] at hhi
        have h0 : (0 : Word).toNat = 0 := rfl
        rw [toNat_loW]
        omega
      rw [hsize', hcount] at hfetched
      exact ⟨got, image, hgot, hfetched, hfile', hcrc.trans (hf₀.dword (by decide))⟩

/-- The download gets as far as the file. -/
structure Wanted (m : Machine DosState ι) : Prop where
  pump : m.mem currentPump ≠ PUMP_NONE
  size : m.mem.dword stage2ImageSize ≠ 0
  few : hiW (blockCount (m.mem.dword stage2ImageSize)) = 0

omit [Pump ι] [LawfulPump ι] in
theorem or_words_eq_zero (mem : Mem) (a : Word) :
    mem.word a ||| mem.word (a + 2) = 0 ↔ mem.dword a = 0 := by
  rw [Mem.dword, ← BitVec.toNat_inj, ← BitVec.toNat_inj, BitVec.toNat_or, toNat_ofWords]
  show (mem.word a).toNat ||| (mem.word (a + 2)).toNat = 0 ↔ _ = 0
  rw [Nat.or_eq_zero_iff]
  omega

/-- What does not get as far as the file changes nothing but a count. -/
structure Skipped (m m' : Machine DosState ι) : Prop where
  within : Within Link downloadVars m m'
  dos : DosState.Quiet m.dos m'.dos
  got : m'.got = m.got
  cf : m'.cf = true

/-- The download is skipped, or the file is asked for. -/
theorem downloadStage2_ok (m : Machine DosState ι) (hn : Named m.mem) :
    (¬ Wanted m ∧ Skipped m (downloadStage2 m)) ∨
      (Wanted m ∧ ∃ created, Downloaded created m (downloadStage2 m)) := by
  have hskip : ∀ msg m₁, SameCore m m₁ → ¬ Wanted m →
    downloadStage2 m = downloadStage2.skip msg m₁ →
      (¬ Wanted m ∧ Skipped m (downloadStage2 m)) ∨
        (Wanted m ∧ ∃ created, Downloaded created m (downloadStage2 m)) := by
    intro msg m₁ hs hno e
    have hs' : Still m (downloadStage2.skip msg m₁) := hs.still.putsMsg.stc
    rw [e]
    exact .inl ⟨hno, hs'.keeps.toWithin, hs'.dos, hs'.got, rfl⟩
  let m₁ : Machine DosState ι := m.cmpb (·.byte currentPump) (imm PUMP_NONE)
  have e₁ : downloadStage2 m =
      m₁.jnz downloadStage2.havePump (downloadStage2.skip msgDlSkippedPump) := rfl
  by_cases hpump : m.mem currentPump = PUMP_NONE
  · exact hskip _ m₁ rfl (fun h => h.pump hpump) (e₁.trans (jnz_neg (decide_eq_true hpump)))
  rw [jnz_pos (show m₁.zf = false from decide_eq_false hpump)] at e₁
  let m₂ : Machine DosState ι :=
    m₁ |>.mov .ax (·.word stage2ImageSize) |>.orw .ax (·.word (stage2ImageSize + 2))
  have e₂ : downloadStage2 m =
      m₂.jnz downloadStage2.haveSize (downloadStage2.skip msgDlSkippedNosize) := e₁
  have hz : m₂.zf = decide (m.mem.word stage2ImageSize ||| m.mem.word (stage2ImageSize + 2) = 0) :=
    rfl
  by_cases hsize : m.mem.dword stage2ImageSize = 0
  · exact hskip _ m₂ rfl (fun h => h.size hsize)
      (e₂.trans (jnz_neg (hz.trans (decide_eq_true ((or_words_eq_zero _ _).mpr hsize)))))
  rw [jnz_pos (hz.trans (decide_eq_false fun h => hsize ((or_words_eq_zero _ _).mp h)))] at e₂
  rcases haveSize_ok m₂ with ⟨hmany, m₃, hs₃, e₃⟩ | ⟨hfew, m₃, hs₃, e₃⟩
  · exact hskip _ m₃ (hs₃.trans rfl) (fun h => hmany h.few) (e₂.trans e₃)
  · let mem := m.mem.setWord totalBlocks (loW (blockCount (m.mem.dword stage2ImageSize)))
    have hmem : m₃.mem = mem := hs₃.mem
    have hf : Frame [⟨totalBlocks, 2⟩] m.mem m₃.mem := by
      rw [hmem]
      exact (Frame.refl _ _).setWord _ (by decide) (by decide)
    have hsize₃ : m₃.mem.dword stage2ImageSize = m.mem.dword stage2ImageSize := hf.dword (by decide)
    have hn₃ : Named m₃.mem := hn.frame hf (by decide)
    have htotal : m₃.mem.word totalBlocks = loW (blockCount (m₃.mem.dword stage2ImageSize)) := by
      rw [hsize₃, hmem]
      exact Mem.word_setWord ..
    obtain ⟨created, h⟩ := createFile_ok m₃ hn₃ htotal (by rw [hsize₃]; exact hfew)
    have hw : Within Link downloadVars m m₃ :=
      ⟨hs₃.cs, hs₃.ds, hs₃.es, hs₃.stk, hf.mono (by decide), hf.word (by decide) (by decide),
        by rw [hs₃.got]; exact List.prefix_rfl, by rw [hs₃.io]; exact .refl⟩
    have hq : DosState.Quiet m.dos m₃.dos := hs₃.dos
    obtain ⟨con, asked, ed⟩ := hq
    have himage : imageSize m₃ = imageSize m := by
      unfold imageSize
      rw [hsize₃]
    rw [e₂, e₃]
    refine .inr ⟨⟨hpump, hsize, hfew⟩, created, hw.trans h.within, ?_, ?_, ?_, fun hc => ?_,
      h.failed, fun hc => ?_⟩
    · obtain ⟨calls, hcalls, hfile⟩ := h.calls
      exact ⟨calls, by rw [hcalls, ed], hfile⟩
    · rw [h.paras, ed]
    · rw [h.sp, ed]
    · rw [(h.refused hc).2, ed]
      exact ⟨(h.refused hc).1, rfl⟩
    · obtain ⟨got, image, hgot, hfetched, hfile, hcrc⟩ := h.complete hc
      rw [himage, hsize₃] at hfetched
      exact ⟨got, image, hgot.trans (congrArg (· ++ got) hs₃.got), hfetched, hfile,
        hcrc.trans (hf.dword (by decide))⟩

end VintageKvm.Stage1
