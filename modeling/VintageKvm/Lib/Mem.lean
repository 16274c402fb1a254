import VintageKvm.Lib.Word

/-!
# A 64 KiB segment: byte strings, regions, frames

The memory of one real-mode segment, indexed by a 16-bit offset (addition of
offsets wraps, as on the processor). `bytes` and `store` read and write
strings; `Frame rs m m'` says that `m'` differs from `m` only within the
regions `rs`.
-/

namespace VintageKvm

abbrev Mem := Word → Byte

namespace Mem

/-- The memory with byte `b` at `a`. -/
def set (m : Mem) (a : Word) (b : Byte) : Mem := fun x => if x = a then b else m x

/-- The little-endian word at `a`. -/
def word (m : Mem) (a : Word) : Word := ofBytes (m (a + 1)) (m a)

/-- The memory with the little-endian word `w` at `a`. -/
def setWord (m : Mem) (a : Word) (w : Word) : Mem := (m.set a (lo w)).set (a + 1) (hi w)

/-- The little-endian double word at `a`. -/
def dword (m : Mem) (a : Word) : DWord := ofWords (m.word (a + 2)) (m.word a)

/-- The memory with the little-endian double word `d` at `a`. -/
def setDword (m : Mem) (a : Word) (d : DWord) : Mem := (m.setWord a (loW d)).setWord (a + 2) (hiW d)

/-- The `n` bytes from `a` on. -/
def bytes (m : Mem) : Word → Nat → List Byte
  | _, 0 => []
  | a, n + 1 => m a :: bytes m (a + 1) n

/-- The memory with the string `bs` at `a`. -/
def store (m : Mem) : Word → List Byte → Mem
  | _, [] => m
  | a, b :: bs => store (m.set a b) (a + 1) bs

theorem set_self (m : Mem) (a : Word) (b : Byte) : m.set a b a = b := if_pos rfl

theorem set_of_ne (m : Mem) {a x : Word} (b : Byte) (h : x ≠ a) : m.set a b x = m x := if_neg h

theorem set_eq_self (m : Mem) (a : Word) : m.set a (m a) = m := by
  funext x
  simp only [set]
  split
  · rename_i h; rw [h]
  · rfl

theorem set_set (m : Mem) (a : Word) (b c : Byte) : (m.set a b).set a c = m.set a c := by
  funext x
  simp only [set]
  split <;> rfl

theorem add_one_ne (a : Word) : a ≠ a + 1 := by bv_omega

theorem word_setWord (m : Mem) (a w : Word) : (m.setWord a w).word a = w := by
  simp only [word, setWord, set_self, set_of_ne _ _ (add_one_ne a), ofBytes_hi_lo]

theorem word_set_of_ne (m : Mem) {a x : Word} (b : Byte) (h : a ≠ x) (h' : a + 1 ≠ x) :
    (m.set x b).word a = m.word a := by
  simp only [word, set_of_ne _ _ h, set_of_ne _ _ h']

theorem word_setWord_of_ne (m : Mem) {a x : Word} (w : Word) (h : a ≠ x) (h₁ : a + 1 ≠ x)
    (h₂ : a ≠ x + 1) (h₃ : a + 1 ≠ x + 1) : (m.setWord x w).word a = m.word a := by
  rw [setWord, word_set_of_ne _ _ h₂ h₃, word_set_of_ne _ _ h h₁]

theorem dword_setDword (m : Mem) (a : Word) (d : DWord) : (m.setDword a d).dword a = d := by
  rw [dword, setDword, word_setWord, word_setWord_of_ne _ _ (by bv_omega) (by bv_omega)
    (by bv_omega) (by bv_omega), word_setWord, ofWords_hiW_loW]

@[simp] theorem length_bytes (m : Mem) (a : Word) (n : Nat) : (m.bytes a n).length = n := by
  induction n generalizing a with
  | zero => rfl
  | succ n ih => rw [bytes, List.length_cons, ih]

theorem add_ofNat_succ (a : Word) (i : Nat) :
    a + BitVec.ofNat 16 (i + 1) = a + 1 + BitVec.ofNat 16 i := by
  rw [Nat.add_comm i 1, BitVec.ofNat_add, ← BitVec.add_assoc]
  rfl

theorem getElem_bytes (m : Mem) (a : Word) {n i : Nat} (h : i < (m.bytes a n).length) :
    (m.bytes a n)[i] = m (a + BitVec.ofNat 16 i) := by
  induction n generalizing a i with
  | zero => simp [bytes] at h
  | succ n ih =>
    cases i with
    | zero => simp [bytes]
    | succ i => simp only [bytes, List.getElem_cons_succ, ih, add_ofNat_succ]

theorem getD_bytes (m : Mem) (a : Word) {n i : Nat} (h : i < n) :
    (m.bytes a n).getD i 0 = m (a + BitVec.ofNat 16 i) := by
  have h' : i < (m.bytes a n).length := by rwa [length_bytes]
  rw [List.getD_eq_getElem?_getD, List.getElem?_eq_getElem h', Option.getD_some, getElem_bytes]

theorem bytes_add (m : Mem) (a : Word) (i j : Nat) :
    m.bytes a (i + j) = m.bytes a i ++ m.bytes (a + BitVec.ofNat 16 i) j := by
  induction i generalizing a with
  | zero => simp [bytes]
  | succ i ih =>
    rw [Nat.add_right_comm, bytes, bytes, ih, List.cons_append, add_ofNat_succ]

/-- One byte more. -/
theorem bytes_succ (m : Mem) (a : Word) (n : Nat) :
    m.bytes a (n + 1) = m.bytes a n ++ [m (a + BitVec.ofNat 16 n)] := bytes_add m a n 1

theorem take_bytes (m : Mem) (a : Word) {k n : Nat} (h : k ≤ n) :
    (m.bytes a n).take k = m.bytes a k := by
  obtain ⟨j, rfl⟩ := Nat.exists_eq_add_of_le h
  rw [bytes_add, List.take_left' (length_bytes m a k)]

theorem drop_bytes (m : Mem) (a : Word) {k n : Nat} (h : k ≤ n) :
    (m.bytes a n).drop k = m.bytes (a + BitVec.ofNat 16 k) (n - k) := by
  obtain ⟨j, rfl⟩ := Nat.exists_eq_add_of_le h
  rw [bytes_add, List.drop_left' (length_bytes m a k), Nat.add_sub_cancel_left]

theorem bytes_congr {m m' : Mem} {a : Word} {n : Nat}
    (h : ∀ i < n, m' (a + BitVec.ofNat 16 i) = m (a + BitVec.ofNat 16 i)) :
    m'.bytes a n = m.bytes a n := by
  induction n generalizing a with
  | zero => rfl
  | succ n ih =>
    have h0 := h 0 (Nat.succ_pos n)
    rw [BitVec.add_zero] at h0
    rw [bytes, bytes, h0, ih fun i hi => ?_]
    rw [← add_ofNat_succ]
    exact h _ (Nat.succ_lt_succ hi)

end Mem

/-! ## Regions -/

/-- The `len` bytes from `base` on. -/
structure Region where
  base : Word
  len : Nat
  deriving DecidableEq

namespace Region

/-- The region has a byte at `x`. -/
def Has (r : Region) (x : Word) : Prop := (x - r.base).toNat < r.len

instance (r : Region) (x : Word) : Decidable (r.Has x) := inferInstanceAs (Decidable (_ < _))

theorem sub_toNat (a : Word) {i : Nat} (h : i < 65536) :
    (a + BitVec.ofNat 16 i - a).toNat = i := by
  rw [BitVec.add_comm, BitVec.add_sub_cancel, BitVec.toNat_ofNat]
  omega

theorem has_ofNat (a : Word) {n i : Nat} (h : i < n) (hn : n ≤ 65536) :
    (⟨a, n⟩ : Region).Has (a + BitVec.ofNat 16 i) := by
  simp only [Has, sub_toNat a (show i < 65536 by omega), h]

theorem has_base (a : Word) {n : Nat} (h : 0 < n) : (⟨a, n⟩ : Region).Has a := by
  simpa [Has] using h

theorem has_one {a x : Word} (h : (⟨a, 1⟩ : Region).Has x) : x = a := by
  simp only [Has, Nat.lt_one_iff] at h
  exact BitVec.sub_eq_iff_eq_add.mp (BitVec.eq_of_toNat_eq h) |>.trans (BitVec.zero_add a)

/-- Every byte of `r` is in `r'`. -/
def Sub (r r' : Region) : Prop := ∀ x, r.Has x → r'.Has x

theorem Sub.refl (r : Region) : Sub r r := fun _ h => h

theorem sub_of_le {r r' : Region} (h : (r.base - r'.base).toNat + r.len ≤ r'.len) : Sub r r' := by
  intro x hx
  simp only [Has] at hx ⊢
  have e : x - r'.base = (x - r.base) + (r.base - r'.base) := by bv_omega
  rw [e, BitVec.toNat_add]
  have := Nat.mod_le ((x - r.base).toNat + (r.base - r'.base).toNat) (2 ^ 16)
  omega

/-- The regions have no byte in common. -/
def Apart (r r' : Region) : Prop := ∀ x, r.Has x → ¬ r'.Has x

theorem Apart.symm {r r' : Region} (h : Apart r r') : Apart r' r := fun x h₁ h₂ => h x h₂ h₁

theorem Apart.sub {r r' s : Region} (h : Apart r r') (hs : Sub s r') : Apart r s :=
  fun x h₁ h₂ => h x h₁ (hs x h₂)

theorem apart_of_le {r r' : Region} (h : r.len ≤ (r'.base - r.base).toNat)
    (h' : r'.len ≤ (r.base - r'.base).toNat) : Apart r r' := by
  intro x hx hx'
  simp only [Has] at hx hx'
  have e : x - r'.base = (x - r.base) - (r'.base - r.base) := by bv_omega
  have e' : r.base - r'.base = -(r'.base - r.base) := by bv_omega
  rw [e] at hx'
  rw [e'] at h'
  rw [BitVec.toNat_sub] at hx'
  rw [BitVec.toNat_neg] at h'
  have := (r'.base - r.base).isLt
  have := (x - r.base).isLt
  generalize (r'.base - r.base).toNat = d at *
  generalize (x - r.base).toNat = i at *
  omega

end Region

/-! ## Frames -/

/-- `m'` agrees with `m` outside the regions `rs`. -/
def Frame (rs : List Region) (m m' : Mem) : Prop :=
  ∀ x, (∀ r ∈ rs, ¬ r.Has x) → m' x = m x

namespace Frame

theorem refl (rs : List Region) (m : Mem) : Frame rs m m := fun _ _ => rfl

theorem trans {rs : List Region} {m₁ m₂ m₃ : Mem} (h₁ : Frame rs m₁ m₂) (h₂ : Frame rs m₂ m₃) :
    Frame rs m₁ m₃ := fun x hx => (h₂ x hx).trans (h₁ x hx)

/-- Every region is within one of the new ones. -/
theorem widen {rs rs' : List Region} {m m' : Mem} (h : Frame rs m m')
    (hs : ∀ r ∈ rs, ∃ r' ∈ rs', Region.Sub r r') : Frame rs' m m' := fun x hx =>
  h x fun r hr hc => by
    obtain ⟨r', hr', hsub⟩ := hs r hr
    exact hx r' hr' (hsub x hc)

theorem mono {rs rs' : List Region} {m m' : Mem} (h : Frame rs m m') (hs : ∀ r ∈ rs, r ∈ rs') :
    Frame rs' m m' := h.widen fun r hr => ⟨r, hs r hr, Region.Sub.refl r⟩

/-- A byte stored inside one of the regions. -/
theorem set {rs : List Region} {m m' : Mem} (h : Frame rs m m') {a : Word} (b : Byte)
    (ha : ∃ r ∈ rs, r.Has a) : Frame rs m (m'.set a b) := by
  intro x hx
  rw [Mem.set_of_ne]
  · exact h x hx
  · rintro rfl
    obtain ⟨r, hr, hc⟩ := ha
    exact hx r hr hc

theorem setWord {rs : List Region} {m m' : Mem} (h : Frame rs m m') {a : Word} (w : Word)
    (ha : ∃ r ∈ rs, r.Has a) (ha' : ∃ r ∈ rs, r.Has (a + 1)) : Frame rs m (m'.setWord a w) :=
  (h.set _ ha).set _ ha'

/-- A byte variable stored. -/
theorem setVar {rs : List Region} {m m' : Mem} (h : Frame rs m m') {a : Word} (b : Byte)
    (ha : ⟨a, 1⟩ ∈ rs) : Frame rs m (m'.set a b) := h.set b ⟨_, ha, Region.has_base a Nat.one_pos⟩

/-- A word variable stored. -/
theorem setWordVar {rs : List Region} {m m' : Mem} (h : Frame rs m m') {a : Word} (w : Word)
    (ha : ⟨a, 2⟩ ∈ rs) : Frame rs m (m'.setWord a w) :=
  h.setWord w ⟨_, ha, Region.has_base a Nat.two_pos⟩
    ⟨_, ha, Region.has_ofNat a (i := 1) Nat.one_lt_two (by decide)⟩

theorem byte {rs : List Region} {m m' : Mem} (h : Frame rs m m') {a : Word}
    (ha : ∀ r ∈ rs, ¬ r.Has a) : m' a = m a := h a ha

theorem word {rs : List Region} {m m' : Mem} (h : Frame rs m m') {a : Word}
    (ha : ∀ r ∈ rs, ¬ r.Has a) (ha' : ∀ r ∈ rs, ¬ r.Has (a + 1)) : m'.word a = m.word a := by
  simp only [Mem.word, h.byte ha, h.byte ha']

theorem dword {rs : List Region} {m m' : Mem} (h : Frame rs m m') {a : Word}
    (ha : ∀ r ∈ rs, ¬ r.Has a ∧ ¬ r.Has (a + 1) ∧ ¬ r.Has (a + 2) ∧ ¬ r.Has (a + 2 + 1)) :
    m'.dword a = m.dword a := by
  rw [Mem.dword, Mem.dword, h.word (fun r hr => (ha r hr).1) (fun r hr => (ha r hr).2.1),
    h.word (fun r hr => (ha r hr).2.2.1) (fun r hr => (ha r hr).2.2.2)]

theorem bytes {rs : List Region} {m m' : Mem} (h : Frame rs m m') {a : Word} {n : Nat}
    (hn : n ≤ 65536) (ha : ∀ r ∈ rs, Region.Apart ⟨a, n⟩ r) : m'.bytes a n = m.bytes a n :=
  Mem.bytes_congr fun _ hi => h _ fun r hr => ha r hr _ (Region.has_ofNat a hi hn)

theorem dword_apart {r : Region} {m m' : Mem} (h : Frame [r] m m') {a : Word}
    (ha : Region.Apart ⟨a, 4⟩ r) : m'.dword a = m.dword a := by
  have hout : ∀ i < 4, ∀ r' ∈ [r], ¬ r'.Has (a + BitVec.ofNat 16 i) := fun i hi r' hr hc =>
    ha _ (Region.has_ofNat a hi (by decide)) (List.mem_singleton.mp hr ▸ hc)
  refine h.dword fun r' hr => ⟨?_, hout 1 (by decide) r' hr, hout 2 (by decide) r' hr, ?_⟩
  · simpa using hout 0 (by decide) r' hr
  · simpa [BitVec.add_assoc] using hout 3 (by decide) r' hr

theorem setDword_self (m : Mem) (a : Word) (d : DWord) : Frame [⟨a, 4⟩] m (m.setDword a d) := by
  have hin : ∀ i < 4, ∃ r ∈ [(⟨a, 4⟩ : Region)], r.Has (a + BitVec.ofNat 16 i) := fun i hi =>
    ⟨_, List.mem_singleton_self _, Region.has_ofNat a hi (by decide)⟩
  refine ((refl _ m).setWord _ ?_ (hin 1 (by decide))).setWord _ (hin 2 (by decide)) ?_
  · simpa using hin 0 (by decide)
  · simpa [BitVec.add_assoc] using hin 3 (by decide)

/-- The same byte stored in both. -/
theorem set_both {rs : List Region} {m m' : Mem} (h : Frame rs m m') (a : Word) (b : Byte) :
    Frame rs (m.set a b) (m'.set a b) := by
  intro x hx
  simp only [Mem.set]
  split
  · rfl
  · exact h x hx

theorem setDword_both {rs : List Region} {m m' : Mem} (h : Frame rs m m') (a : Word) (d : DWord) :
    Frame rs (m.setDword a d) (m'.setDword a d) :=
  (((h.set_both _ _).set_both _ _).set_both _ _).set_both _ _

/-- Storing a string changes its own bytes only. -/
theorem store (m : Mem) (a : Word) (bs : List Byte) (h : bs.length ≤ 65536) :
    Frame [⟨a, bs.length⟩] m (m.store a bs) := by
  induction bs generalizing m a with
  | nil => exact refl _ _
  | cons b bs ih =>
    have hl : bs.length + 1 ≤ 65536 := h
    refine trans ((refl _ m).set b ⟨_, List.mem_singleton_self _,
      Region.has_base a (Nat.succ_pos _)⟩) ((ih (m.set a b) (a + 1) (Nat.le_of_succ_le hl)).widen
      fun r hr => ?_)
    rw [List.mem_singleton.mp hr]
    refine ⟨_, List.mem_singleton_self _, Region.sub_of_le ?_⟩
    simp only [List.length_cons]
    rw [BitVec.add_comm, BitVec.add_sub_cancel]
    show 1 + bs.length ≤ bs.length + 1
    omega

end Frame

namespace Mem

theorem set_comm (m : Mem) {a x : Word} (b c : Byte) (h : a ≠ x) :
    (m.set a b).set x c = (m.set x c).set a b := by
  funext y
  simp only [set]
  by_cases hx : y = x
  · subst hx
    simp only [if_true, if_neg (Ne.symm h)]
  · simp only [if_neg hx]

theorem store_append (m : Mem) (a : Word) (bs cs : List Byte) :
    m.store a (bs ++ cs) = (m.store a bs).store (a + BitVec.ofNat 16 bs.length) cs := by
  induction bs generalizing m a with
  | nil => simp [store]
  | cons b bs ih => rw [List.cons_append, store, store, ih, List.length_cons, add_ofNat_succ]

/-- Storing the byte after a string. -/
theorem set_store (m : Mem) {a x : Word} {bs : List Byte} (b : Byte)
    (h : a + BitVec.ofNat 16 bs.length = x) : (m.store a bs).set x b = m.store a (bs ++ [b]) := by
  rw [store_append, h]
  rfl

/-- A byte outside a stored string may be stored before it. -/
theorem store_set_comm (m : Mem) {a x : Word} {bs : List Byte} (b : Byte) (hl : bs.length ≤ 65536)
    (h : ¬ (⟨a, bs.length⟩ : Region).Has x) : (m.store a bs).set x b = (m.set x b).store a bs := by
  induction bs generalizing m a with
  | nil => rfl
  | cons c bs ih =>
    have hl' : bs.length + 1 ≤ 65536 := hl
    have hne : a ≠ x := fun e => h (e ▸ Region.has_base a (Nat.succ_pos _))
    rw [store, store, ih _ (by omega) fun hc => h ?_, set_comm _ _ _ hne]
    refine Region.sub_of_le ?_ _ hc
    simp only [List.length_cons]
    rw [BitVec.add_comm, BitVec.add_sub_cancel]
    show 1 + bs.length ≤ bs.length + 1
    omega

/-- A string reads back as it was stored. -/
theorem bytes_store (m : Mem) (a : Word) (bs : List Byte) (h : bs.length ≤ 65536) :
    (m.store a bs).bytes a bs.length = bs := by
  induction bs generalizing m a with
  | nil => rfl
  | cons b bs ih =>
    have hl : bs.length + 1 ≤ 65536 := h
    rw [List.length_cons, bytes, store, ih _ _ (by omega),
      Frame.byte (Frame.store (m.set a b) (a + 1) bs (by omega)), set_self]
    intro r hr
    rw [List.mem_singleton.mp hr]
    simp only [Region.Has]
    rw [show a - (a + 1) = -1 by bv_omega]
    show ¬ 65535 < bs.length
    omega

/-- Reading outside a stored string. -/
theorem store_of_not_has (m : Mem) {a x : Word} {bs : List Byte} (hl : bs.length ≤ 65536)
    (h : ¬ (⟨a, bs.length⟩ : Region).Has x) : m.store a bs x = m x :=
  (Frame.store m a bs hl).byte fun _ hr => List.mem_singleton.mp hr ▸ h

theorem word_store_of_not_has (m : Mem) {a x : Word} {bs : List Byte} (hl : bs.length ≤ 65536)
    (h : ¬ (⟨a, bs.length⟩ : Region).Has x) (h' : ¬ (⟨a, bs.length⟩ : Region).Has (x + 1)) :
    (m.store a bs).word x = m.word x := by
  simp only [word, store_of_not_has m hl h, store_of_not_has m hl h']

end Mem

end VintageKvm
