import VintageKvm.Dos.Stage0.Mastery

/-!
# Stage 0: what is kept of the i8042

`Ctl` is what the controller makes of the writes to it, and `Restorable` what
the variables of Stage 0 say about it: enough, wherever the mastery, an unlock
sequence or the download has failed, to give it back. `i8042_mastery`
establishes that (`i8042Mastery_cases`) and `restore_i8042_and_pic` uses it
(`restore_masks`, `restore_restorable`), also a second time.
-/

namespace VintageKvm.Stage0.AtPs2

open I8086 Machine Dos Bus

variable {δ : Type}

/-! ## What the controller makes of the writes -/

/-- The i8042 as the writes to it leave it. -/
structure Ctl where
  /-- The command byte. -/
  ccb : Byte
  /-- The command that waits for its data byte. -/
  pending : Option Byte
  /-- The last command on the AUX interface enabled it. -/
  aux : Bool

/-- The command byte's bit that disables the AUX interface. -/
abbrev CCB_AUX_OFF : Byte := 0x20

namespace Ctl

/-- A write. -/
def out (k : Ctl) (w : Word × Byte) : Ctl :=
  if w.1 = KBC_CMD then
    if w.2 = KBC_DISABLE_AUX then ⟨k.ccb ||| CCB_AUX_OFF, none, false⟩
    else if w.2 = KBC_ENABLE_AUX then ⟨k.ccb &&& ~~~CCB_AUX_OFF, none, true⟩
    else { k with pending := some w.2 }
  else if w.1 = KBC_DATA then
    { k with ccb := if k.pending = some KBC_WRITE_CCB then w.2 else k.ccb, pending := none }
  else k

/-- The writes made between `b` and `b'` take the controller from `k` to
`k'`. -/
def Told (k : Ctl) (b b' : Bus) (k' : Ctl) : Prop := ∃ l, b'.outs = b.outs ++ l ∧ l.foldl out k = k'

variable {k k' k'' : Ctl} {b b' b'' : Bus}

theorem Told.refl (k : Ctl) (b : Bus) : Told k b b k := ⟨[], (List.append_nil _).symm, rfl⟩

theorem Told.trans (h : Told k b b' k') (h' : Told k' b' b'' k'') : Told k b b'' k'' := by
  obtain ⟨l, e, hk⟩ := h
  obtain ⟨l', e', hk'⟩ := h'
  exact ⟨l ++ l', by rw [e', e, List.append_assoc], by rw [List.foldl_append, hk, hk']⟩

/-- What each of the writes keeps. -/
theorem told_of_outs {ws : Word × Byte → Prop} (I : Ctl → Prop)
    (hI : ∀ k w, ws w → I k → I (k.out w)) (h : ∃ l, b'.outs = b.outs ++ l ∧ ∀ w ∈ l, ws w)
    (hk : I k) : ∃ k', Told k b b' k' ∧ I k' := by
  obtain ⟨l, e, hl⟩ := h
  refine ⟨_, ⟨l, e, rfl⟩, ?_⟩
  clear e
  induction l generalizing k with
  | nil => exact hk
  | cons w l ih =>
    exact ih (hI k w (hl w List.mem_cons_self) hk) fun w' hw' => hl w' (List.mem_cons_of_mem _ hw')

theorem out_cmd (k : Ctl) {c : Byte} (h₁ : c ≠ KBC_DISABLE_AUX) (h₂ : c ≠ KBC_ENABLE_AUX) :
    k.out (KBC_CMD, c) = { k with pending := some c } := by
  rw [out, if_pos rfl, if_neg h₁, if_neg h₂]

theorem out_data (k : Ctl) (b : Byte) :
    k.out (KBC_DATA, b) =
      { k with ccb := if k.pending = some KBC_WRITE_CCB then b else k.ccb, pending := none } := by
  rw [out, if_neg (show KBC_DATA ≠ KBC_CMD by decide), if_pos rfl]

/-- A write to a port that is not the controller's. -/
theorem out_other (k : Ctl) {w : Word × Byte} (h : ¬ kbcPorts w.1) : k.out w = k := by
  rw [out, if_neg fun e => h (.inr e), if_neg fun e => h (.inl e)]

/-- A new command byte. -/
theorem out_writeCcb (k : Ctl) (b : Byte) :
    [(KBC_CMD, KBC_WRITE_CCB), (KBC_DATA, b)].foldl out k =
      { k with ccb := b, pending := none } := by
  rw [List.foldl_cons, List.foldl_cons, out_cmd k (by decide) (by decide), out_data]
  rfl

end Ctl

variable {ws : Word × Byte → Prop} {m m' : Machine δ Bus} (aux : Bool)

/-! ## Mastery: the masks and the command byte -/

/-- The interrupts of the i8042 are masked in `b'`, the others as in `b`. -/
structure Masked (b b' : Bus) : Prop where
  pic1 : b'.pic1 = b.pic1 ||| IRQ1_MASK
  pic2 : b'.pic2 = if aux then b.pic2 ||| IRQ12_MASK else b.pic2

/-- The masks of `b` are in their variables; without AUX the second one was
not changed. -/
structure Saved (b : Bus) (m : Machine δ Bus) : Prop where
  pic1 : m.mem (pic1MaskOrig aux) = b.pic1
  pic2 : (if aux then m.mem (pic2MaskOrig aux) else m.io.pic2) = b.pic2

theorem maskIrqs_eq (m : Machine δ Bus) : ∃ a c z, maskIrqs aux m = { m with
    ax := a, cf := c, zf := z
    mem := if aux then (m.mem.set (pic1MaskOrig aux) m.io.pic1).set (pic2MaskOrig aux) m.io.pic2
      else m.mem.set (pic1MaskOrig aux) m.io.pic1
    io := { m.io with
      pic1 := m.io.pic1 ||| IRQ1_MASK,
      pic2 := if aux then m.io.pic2 ||| IRQ12_MASK else m.io.pic2 } } := by
  cases aux <;>
    simp only [maskIrqs, inAl, stb, orb, outAl, reg8, setReg8, imm, lo_ofBytes, hi_ofBytes,
      inp_pic1, inp_pic2, out_pic1, out_pic2, if_true, if_false, Bool.false_eq_true] <;>
    exact ⟨_, _, _, rfl⟩

theorem masks_apart : pic2MaskOrig aux ≠ pic1MaskOrig aux := by cases aux <;> decide

theorem maskIrqs_ok (m : Machine δ Bus) :
    Saved aux m.io (maskIrqs aux m) ∧ Masked aux m.io (maskIrqs aux m).io ∧
    (maskIrqs aux m).io.outs = m.io.outs ∧
    Frame [⟨pic1MaskOrig aux, 1⟩, ⟨pic2MaskOrig aux, 1⟩] m.mem (maskIrqs aux m).mem := by
  obtain ⟨a, c, z, e⟩ := maskIrqs_eq aux m
  have hf : Frame [⟨pic1MaskOrig aux, 1⟩, ⟨pic2MaskOrig aux, 1⟩] m.mem
      (m.mem.set (pic1MaskOrig aux) m.io.pic1) :=
    (Frame.refl _ _).setVar _ List.mem_cons_self
  rw [e]
  refine ⟨⟨?_, ?_⟩, ⟨rfl, rfl⟩, rfl, ?_⟩ <;> dsimp only
  · split
    · rw [Mem.set_of_ne _ _ (masks_apart aux).symm, Mem.set_self]
    · rw [Mem.set_self]
  · split
    · rw [Mem.set_self]
    · rfl
  · split
    · exact hf.setVar _ (List.mem_cons_of_mem _ List.mem_cons_self)
    · exact hf

theorem i8042ReadCcb_tells : Tells (· = (KBC_CMD, KBC_READ_CCB)) (i8042ReadCcb (δ := δ) aux) :=
  fun m => by
  have hwait := fun ps => pollIbe_drives ps LptNibble.POLLS m.io
  generalize hw : pollFor pollIbe LptNibble.POLLS m.io = w at hwait
  obtain ⟨r, io⟩ := w
  obtain ⟨s, z, e⟩ := i8042WaitIbe_ok m hw
  have h₁ : Puts (· = (KBC_CMD, KBC_READ_CCB)) m.io io := .of_reads hwait _
  rw [i8042ReadCcb, e]
  cases r with
  | none => exact ⟨_, true, z, m.got, io, rfl, h₁⟩
  | some b =>
    let m₁ : Machine δ Bus := { m with
      ax := ofBytes (hi (ofBytes (hi m.ax) s)) KBC_READ_CCB, cf := false, zf := z,
      io := Ports.out KBC_CMD KBC_READ_CCB io }
    have h₂ : Puts (· = (KBC_CMD, KBC_READ_CCB)) m.io m₁.io :=
      h₁.trans (.out io (by decide) (by decide) rfl)
    have hrecv := fun ps => pollData_drives ps (kbdData aux) LptNibble.POLLS m₁.io
    generalize hr : pollFor (pollData (kbdData aux)) LptNibble.POLLS m₁.io = p at hrecv
    obtain ⟨r', io'⟩ := p
    obtain ⟨s', z', e', -⟩ := i8042RecvKbdByte_ok aux m₁ hr
    rw [jc_neg rfl]
    simp only [movb, outAl, setReg8, imm, lo_ofBytes]
    exact ⟨_, _, z', m.got, io', e', h₂.trans (.of_reads hrecv _)⟩

/-- A new command byte, or some of the writes to that end. -/
theorem i8042WriteCcb_ok (m : Machine δ Bus) : ∃ c z, i8042WriteCcb m = { m with
    cf := c, zf := z, io := (writes [(KBC_CMD, KBC_WRITE_CCB), (KBC_DATA, lo m.ax)] m.io).2 } := by
  generalize hw : writes [(KBC_CMD, KBC_WRITE_CCB), (KBC_DATA, lo m.ax)] m.io = p
  obtain ⟨ok, io⟩ := p
  obtain ⟨z, e⟩ := writeCommand_ok KBC_WRITE_CCB m hw
  exact ⟨_, z, e⟩

/-! ## What is known of the controller -/

/-- The command byte that Stage 0 reads at its entry, if it does. -/
def ccbRead (m : Machine δ Bus) : Option Byte :=
  let m' := readCommandByte aux m
  if m'.cf then none else some (lo m'.ax)

section

variable (k₀ : Ctl) (b₀ : Bus) (r : Option Byte)

/-- What the variables say about the controller: AUX is enabled only if it is
noted so, and the command byte is `r`, or without one as it was, unless `r` is
kept to be restored. -/
structure Noted (mem : Mem) (k : Ctl) : Prop where
  enabled : k.aux = true → mem (auxEnabled aux) ≠ 0
  ccb : mem (ccbSaved aux) = 0 → k.ccb = r.getD k₀.ccb

/-- The controller, `k₀` when the bus was `b₀`, can be given back. -/
structure Restorable (m : Machine δ Bus) : Prop where
  told : ∃ k, Ctl.Told k₀ b₀ m.io k ∧ Noted aux k₀ r m.mem k
  orig : m.mem (ccbSaved aux) ≠ 0 → r = some (m.mem (ccbOrig aux))
  off : aux = false ∨ m.mem (ccbSaved aux) = 0 → m.mem (auxEnabled aux) = 0

/-- It has been given back. -/
def Restored (m : Machine δ Bus) : Prop :=
  ∃ k, Ctl.Told k₀ b₀ m.io k ∧ k.ccb = r.getD k₀.ccb ∧ k.aux = false

variable {aux k₀ b₀ r}

theorem Restorable.restored (h : Restorable aux k₀ b₀ r m) (hz : m.mem (ccbSaved aux) = 0) :
    Restored k₀ b₀ r m := by
  obtain ⟨k, ht, hk⟩ := h.told
  exact ⟨k, ht, hk.ccb hz, Bool.eq_false_iff.mpr fun ha => hk.enabled ha (h.off (.inr hz))⟩

/-- The variables that say so. -/
def notes (aux : Bool) : List Word := [auxEnabled aux, ccbSaved aux, ccbOrig aux]

/-- Writes that what is noted stays true of. -/
theorem Restorable.keeps (h : Restorable aux k₀ b₀ r m)
    (hp : ∃ l, m'.io.outs = m.io.outs ++ l ∧ ∀ w ∈ l, ws w)
    (hmem : ∀ a ∈ notes aux, m'.mem a = m.mem a)
    (hws : ∀ k w, ws w → Noted aux k₀ r m.mem k → Noted aux k₀ r m.mem (k.out w)) :
    Restorable aux k₀ b₀ r m' := by
  obtain ⟨k, ht, hk⟩ := h.told
  obtain ⟨k', ht', hk'⟩ := Ctl.told_of_outs (Noted aux k₀ r m.mem) hws hp hk
  have ha : m'.mem (auxEnabled aux) = m.mem (auxEnabled aux) := hmem _ (by simp [notes])
  have hs : m'.mem (ccbSaved aux) = m.mem (ccbSaved aux) := hmem _ (by simp [notes])
  have ho : m'.mem (ccbOrig aux) = m.mem (ccbOrig aux) := hmem _ (by simp [notes])
  refine ⟨⟨k', ht.trans ht', ⟨fun hx => ha ▸ hk'.enabled hx, fun hx => hk'.ccb (hs ▸ hx)⟩⟩,
    fun hx => ?_, fun hx => ?_⟩
  · rw [ho]
    exact h.orig (hs ▸ hx)
  · rw [ha]
    exact h.off (hs ▸ hx)

/-- Nothing was written. -/
theorem Restorable.same (h : Restorable aux k₀ b₀ r m) (ho : m'.io.outs = m.io.outs)
    (hmem : ∀ a ∈ notes aux, m'.mem a = m.mem a) : Restorable aux k₀ b₀ r m' := by
  have hp : ∃ l, m'.io.outs = m.io.outs ++ l ∧ ∀ w ∈ l, (fun _ => False) w :=
    ⟨[], ho.trans (List.append_nil _).symm, fun _ h => nomatch h⟩
  exact h.keeps hp hmem fun _ _ h => h.elim

theorem notes_apart : ∀ a ∈ notes aux, a ≠ pic1MaskOrig aux ∧ a ≠ pic2MaskOrig aux ∧
    a ≠ i8042Active aux := by
  rw [← List.forall_iff_forall_mem]
  cases aux <;> decide

/-- The variables of the mastery. -/
def masteryVars (aux : Bool) : List Region :=
  [⟨pic1MaskOrig aux, 1⟩, ⟨pic2MaskOrig aux, 1⟩, ⟨ccbOrig aux, 1⟩, ⟨ccbSaved aux, 1⟩]

/-- What `i8042_mastery` leaves once it has read `r`. -/
structure Mastered (aux : Bool) (r : Option Byte) (m m' : Machine δ Bus) : Prop where
  saved : Saved aux m.io m'
  masked : Masked aux m.io m'.io
  mem : Frame (masteryVars aux) m.mem m'.mem
  sound : ∀ k₀ b₀, Restorable aux k₀ b₀ none m → m.mem (ccbSaved aux) = 0 →
    Restorable aux k₀ b₀ r m'

theorem readCommandByte_ok (m : Machine δ Bus) :
    Touches (· = (KBC_CMD, KBC_READ_CCB)) [] (maskIrqs aux m) (readCommandByte aux m) :=
  (i8042ReadCcb_tells aux).touches (Touches.refl _ _ (maskIrqs aux m)).flush

/-- The masks as they were saved and set stay so. -/
theorem Mastered.masks (aux : Bool) {m m₁ m' : Machine δ Bus} (hs : Saved aux m.io m₁)
    (hm : Masked aux m.io m₁.io) (hmem : m'.mem (pic1MaskOrig aux) = m₁.mem (pic1MaskOrig aux) ∧
      m'.mem (pic2MaskOrig aux) = m₁.mem (pic2MaskOrig aux))
    (hio : SameMasks m₁.io m'.io) : Saved aux m.io m' ∧ Masked aux m.io m'.io := by
  refine ⟨⟨hmem.1.trans hs.pic1, ?_⟩, ⟨hio.1.trans hm.pic1, hio.2.trans hm.pic2⟩⟩
  rw [hmem.2, hio.2]
  exact hs.pic2

theorem masteryVars_apart (aux : Bool) :
    (pic1MaskOrig aux ≠ ccbOrig aux ∧ pic1MaskOrig aux ≠ ccbSaved aux) ∧
    (pic2MaskOrig aux ≠ ccbOrig aux ∧ pic2MaskOrig aux ≠ ccbSaved aux) ∧
    auxEnabled aux ≠ ccbOrig aux ∧ auxEnabled aux ≠ ccbSaved aux ∧ ccbOrig aux ≠ ccbSaved aux := by
  cases aux <;> decide

theorem readCommandByte_mastered (m : Machine δ Bus) : Mastered aux none m (readCommandByte aux m) ∧
    (readCommandByte aux m).mem (ccbSaved aux) = m.mem (ccbSaved aux) := by
  obtain ⟨hs, hm, ho, hf⟩ := maskIrqs_ok aux m
  have ht : Touches _ _ (maskIrqs aux m) (readCommandByte aux m) := readCommandByte_ok m
  generalize readCommandByte aux m = m₂ at ht
  have hmem : m₂.mem = (maskIrqs aux m).mem := funext fun a => ht.mem a fun _ h => nomatch h
  have hnotes : ∀ a ∈ notes aux, m₂.mem a = m.mem a := fun a ha => by
    obtain ⟨h₁, h₂, -⟩ := notes_apart a ha
    rw [hmem]
    exact hf a (by simpa using ⟨fun h => h₁ (Region.has_one h), fun h => h₂ (Region.has_one h)⟩)
  obtain ⟨hs', hm'⟩ := Mastered.masks aux hs hm ⟨congrFun hmem _, congrFun hmem _⟩ ht.link.masks
  refine ⟨⟨hs', hm', ?_, fun k₀ b₀ hr hz => ?_⟩, hnotes _ (by simp [notes])⟩
  · rw [hmem]
    exact hf.mono fun r hr => by
      simp only [masteryVars, List.mem_cons, List.not_mem_nil, or_false] at hr ⊢
      tauto
  · obtain ⟨l, e, hl⟩ := ht.link.outs
    refine hr.keeps ⟨l, e.trans (by rw [ho]), hl⟩ hnotes fun k w hw hk => ?_
    obtain rfl := hw
    rw [Ctl.out_cmd k (by decide) (by decide)]
    exact ⟨hk.enabled, hk.ccb⟩

/-- A command byte is kept before another is written. -/
theorem mastered_kept {m m₂ : Machine δ Bus} (h : Mastered aux none m m₂)
    (hz : m₂.mem (ccbSaved aux) = m.mem (ccbSaved aux)) (r a : Byte) (c z : Bool) {io : Bus}
    (hio : Puts (fun w => w.1 = KBC_DATA ∨ w = (KBC_CMD, KBC_WRITE_CCB)) m₂.io io) :
    Mastered aux (some r) m { m₂ with
      ax := ofBytes (hi m₂.ax) a, cf := c, zf := z,
      mem := (m₂.mem.set (ccbOrig aux) r).set (ccbSaved aux) 1, io := io } := by
  obtain ⟨⟨hp, hp'⟩, ⟨hq, hq'⟩, he, he', hc⟩ := masteryVars_apart aux
  have hset : ∀ {x}, x ≠ ccbOrig aux → x ≠ ccbSaved aux →
      ((m₂.mem.set (ccbOrig aux) r).set (ccbSaved aux) 1) x = m₂.mem x := fun h h' => by
    rw [Mem.set_of_ne _ _ h', Mem.set_of_ne _ _ h]
  have hsaved : ((m₂.mem.set (ccbOrig aux) r).set (ccbSaved aux) 1) (ccbSaved aux) = 1 :=
    Mem.set_self _ _ _
  let m' : Machine δ Bus := { m₂ with
    ax := ofBytes (hi m₂.ax) a, cf := c, zf := z,
    mem := (m₂.mem.set (ccbOrig aux) r).set (ccbSaved aux) 1, io := io }
  have hmasks : m'.mem (pic1MaskOrig aux) = m₂.mem (pic1MaskOrig aux) ∧
      m'.mem (pic2MaskOrig aux) = m₂.mem (pic2MaskOrig aux) :=
    ⟨hset hp hp', hset hq hq'⟩
  obtain ⟨hs', hm'⟩ := Mastered.masks aux h.saved h.masked hmasks hio.masks
  refine ⟨hs', hm', ?_, fun k₀ b₀ hr hz₀ => ?_⟩
  · exact h.mem.setVar _ (by simp [masteryVars]) |>.setVar _ (by simp [masteryVars])
  · have hr₂ := h.sound k₀ b₀ hr hz₀
    have hoff := hr₂.off (.inr (hz.trans hz₀))
    obtain ⟨k, ht, hk⟩ := hr₂.told
    have hkeep : ∀ (k : Ctl) (w : Word × Byte), (w.1 = KBC_DATA ∨ w = (KBC_CMD, KBC_WRITE_CCB)) →
      k.aux = false →
        (k.out w).aux = false := by
      rintro k ⟨p, v⟩ (rfl | hw) hk
      · rw [Ctl.out_data]
        exact hk
      · rw [hw, Ctl.out_cmd k (by decide) (by decide)]
        exact hk
    obtain ⟨k', ht', hk'⟩ := Ctl.told_of_outs (fun k => k.aux = false) hkeep hio.outs
      (Bool.eq_false_iff.mpr fun hx => hk.enabled hx hoff)
    refine ⟨⟨k', ht.trans ht', ⟨fun hx => ?_, fun hx => ?_⟩⟩, fun _ => ?_,
      fun _ => (hset he he').trans hoff⟩
    · rw [hk'] at hx
      cases hx
    · rw [show ((m₂.mem.set (ccbOrig aux) r).set (ccbSaved aux) 1) (ccbSaved aux) = 0 from
        hx] at hsaved
      cases hsaved
    · show some r = some (((m₂.mem.set (ccbOrig aux) r).set (ccbSaved aux) 1) (ccbOrig aux))
      rw [Mem.set_of_ne _ _ hc, Mem.set_self]

/-- `i8042_mastery` fails, or the command byte is kept. -/
theorem i8042Mastery_cases {β : Type} {P : β → Prop} {fail next : Machine δ Bus → β}
    (m : Machine δ Bus) (hf : ∀ m', Mastered aux (ccbRead aux m) m m' → P (fail m'))
    (hn : ∀ m', Mastered aux (ccbRead aux m) m m' → m'.mem (ccbSaved aux) = 1 → P (next m')) :
    P (i8042Mastery aux fail next m) := by
  obtain ⟨h, hz⟩ : Mastered aux none m (readCommandByte aux m) ∧ _ := readCommandByte_mastered m
  have hread : ccbRead aux m =
      if (readCommandByte aux m).cf then none else some (lo (readCommandByte aux m).ax) := rfl
  rw [i8042Mastery]
  generalize readCommandByte aux m = m₂ at h hz hread
  refine jc_cases (fun hcf => hf m₂ ?_) fun hcf => ?_
  · rw [hread, if_pos hcf]
    exact h
  · rw [if_neg (by rw [hcf]; exact Bool.false_ne_true)] at hread
    rw [hread] at hf hn
    let m₃ : Machine δ Bus := m₂ |>.stb (imm (ccbOrig aux)) (·.reg8 .al)
      |>.stb (imm (ccbSaved aux)) (imm 1) |>.andb .al (imm 0xBF)
    obtain ⟨c, z, e⟩ := i8042WriteCcb_ok m₃
    have hput : Puts (fun w => w.1 = KBC_DATA ∨ w = (KBC_CMD, KBC_WRITE_CCB)) m₂.io
        (writes [(KBC_CMD, KBC_WRITE_CCB), (KBC_DATA, lo m₃.ax)] m₂.io).2 := by
      refine (writes_put (fun w hw => ?_) _).1
      rcases List.mem_cons.mp hw with rfl | hw
      · exact ⟨.inr rfl, .inr rfl⟩
      · obtain rfl := List.mem_singleton.mp hw
        exact ⟨.inl rfl, .inl rfl⟩
    have hk := fun c z => mastered_kept h hz (lo m₂.ax) (lo m₂.ax &&& 0xBF) c z hput
    show P ((i8042WriteCcb m₃).jc fail (next ∘ (·.clc)))
    rw [e]
    exact jc_cases (fun _ => hf _ (hk c z)) fun _ => hn _ (hk false z) (Mem.set_self _ _ _)

end

/-! ## Restoration -/

/-- The write that disables the AUX interface again. -/
def auxWrites (mem : Mem) : List (Word × Byte) :=
  if aux = true ∧ mem (auxEnabled aux) ≠ 0 then [(KBC_CMD, KBC_DISABLE_AUX)] else []

/-- The writes that restore the command byte. -/
def ccbWrites (mem : Mem) : List (Word × Byte) :=
  if mem (ccbSaved aux) ≠ 0 then [(KBC_CMD, KBC_WRITE_CCB), (KBC_DATA, mem (ccbOrig aux))] else []

/-- The controller takes the final writes, which `restore_i8042_and_pic` has
for it: the input buffer is empty in time for each of them. -/
def Accepts (m : Machine δ Bus) : Prop :=
  (writes (auxWrites aux m.mem ++ ccbWrites aux m.mem) m.io).1 = true

instance (m : Machine δ Bus) : Decidable (Accepts aux m) := inferInstanceAs (Decidable (_ = _))

theorem writes_append {ι : Type} [Ports ι] (l l' : List (Word × Byte)) (io : ι) :
    writes (l ++ l') io =
    if (writes l io).1 then writes l' (writes l io).2 else (false, (writes l io).2) := by
  induction l generalizing io with
  | nil => rfl
  | cons w l ih =>
    rw [List.cons_append, writes, writes]
    split
    · rfl
    · exact ih _

theorem disableAux_ok (m : Machine δ Bus) : ∃ a c z, restoreI8042AndPic.disableAux aux m = { m with
    ax := a, cf := c, zf := z, mem := if aux then m.mem.set (auxEnabled aux) 0 else m.mem
    io := (writes (auxWrites aux m.mem) m.io).2 } := by
  cases aux with
  | false => exact ⟨m.ax, m.cf, m.zf, by simp [restoreI8042AndPic.disableAux, auxWrites, writes]⟩
  | true =>
    let P : Machine δ Bus → Prop := fun m' => ∃ a c z, m' = { m with
      ax := a, cf := c, zf := z, mem := m.mem.set (auxEnabled true) 0,
      io := (writes (auxWrites true m.mem) m.io).2 }
    show P (restoreI8042AndPic.disableAux true m)
    rw [restoreI8042AndPic.disableAux, if_pos rfl]
    refine jz_cases (fun hz => ?_) fun hz => ?_
    · have hflag : m.mem (auxEnabled true) = 0 := of_decide_eq_true hz
      have hl : auxWrites true m.mem = [] := if_neg fun h => h.2 hflag
      have hmem : m.mem.set (auxEnabled true) 0 = m.mem := by rw [← hflag, Mem.set_eq_self]
      simp only [P, hl, hmem, writes]
      exact ⟨_, _, _, rfl⟩
    · have hflag : m.mem (auxEnabled true) ≠ 0 := of_decide_eq_false hz
      have hl : auxWrites true m.mem = [(KBC_CMD, KBC_DISABLE_AUX)] := if_pos ⟨rfl, hflag⟩
      simp only [P, hl, writes]
      generalize hw : pollFor pollIbe LptNibble.POLLS m.io = w
      obtain ⟨r, io⟩ := w
      obtain ⟨s, z, e⟩ := i8042WaitIbe_ok (m.cmpb (·.byte (auxEnabled true)) (imm 0)) hw
      rw [e]
      cases r with
      | none => exact ⟨_, _, _, rfl⟩
      | some b =>
        rw [jc_neg rfl]
        simp only [movb, outAl, setReg8, imm, lo_ofBytes, restoreI8042AndPic.auxDone, stb]
        exact ⟨_, _, _, rfl⟩

theorem ccb_ok (m : Machine δ Bus) : ∃ a c z, restoreI8042AndPic.ccb aux m = { m with
    ax := a, cf := c, zf := z, mem := m.mem.set (ccbSaved aux) 0,
    io := (writes (ccbWrites aux m.mem) m.io).2 } := by
  let P : Machine δ Bus → Prop := fun m' => ∃ a c z, m' = { m with
    ax := a, cf := c, zf := z, mem := m.mem.set (ccbSaved aux) 0,
    io := (writes (ccbWrites aux m.mem) m.io).2 }
  show P (restoreI8042AndPic.ccb aux m)
  rw [restoreI8042AndPic.ccb]
  refine jz_cases (fun hz => ?_) fun hz => ?_
  · have hflag : m.mem (ccbSaved aux) = 0 := of_decide_eq_true hz
    have hl : ccbWrites aux m.mem = [] := if_neg (not_not_intro hflag)
    have hmem : m.mem.set (ccbSaved aux) 0 = m.mem := by rw [← hflag, Mem.set_eq_self]
    simp only [P, hl, hmem, writes]
    exact ⟨_, _, _, rfl⟩
  · have hflag : m.mem (ccbSaved aux) ≠ 0 := of_decide_eq_false hz
    obtain ⟨c, z, e⟩ := i8042WriteCcb_ok (m |>.cmpb (·.byte (ccbSaved aux)) (imm 0)
      |>.movb .al (·.byte (ccbOrig aux)))
    simp only [P, ccbWrites, if_pos hflag, e]
    simp only [cmpb, movb, setReg8, byte, stb, imm, lo_ofBytes]
    exact ⟨_, _, _, rfl⟩

theorem restorePic_ok (m : Machine δ Bus) : ∃ a, restoreI8042AndPic.restorePic aux m = { m with
    ax := a, mem := m.mem.set (i8042Active aux) 0
    io := { m.io with
      pic1 := m.mem (pic1MaskOrig aux),
      pic2 := if aux then m.mem (pic2MaskOrig aux) else m.io.pic2 } } := by
  cases aux <;>
    simp only [restoreI8042AndPic.restorePic, movb, outAl, stb, setReg8, byte, imm, lo_ofBytes,
      hi_ofBytes, out_pic1, out_pic2, if_true, if_false, Bool.false_eq_true] <;>
    exact ⟨_, rfl⟩

/-- The variables of the restoration. -/
def restoreVars : List Region := [⟨auxEnabled aux, 1⟩, ⟨ccbSaved aux, 1⟩, ⟨i8042Active aux, 1⟩]

/-- Nothing of the i8042 is held any more. -/
def released (mem : Mem) : Mem :=
  ((if aux then mem.set (auxEnabled aux) 0 else mem).set (ccbSaved aux) 0).set (i8042Active aux) 0

theorem released_frame (mem : Mem) : Frame (restoreVars aux) mem (released aux mem) := by
  have h₁ : Frame (restoreVars aux) mem (if aux then mem.set (auxEnabled aux) 0 else mem) := by
    split
    · exact (Frame.refl _ _).setVar _ List.mem_cons_self
    · exact .refl _ _
  exact h₁.setVar _ (by simp [restoreVars]) |>.setVar _ (by simp [restoreVars])

theorem restoreVars_apart : (ccbSaved aux ≠ i8042Active aux ∧ auxEnabled aux ≠ i8042Active aux ∧
    auxEnabled aux ≠ ccbSaved aux) ∧
    ∀ a ∈ [pic1MaskOrig aux, pic2MaskOrig aux, ccbOrig aux, dxBitmap aux, dxBitmap aux + 1,
      lptBase (.s0AtPs2 aux), lptBase (.s0AtPs2 aux) + 1], ∀ r ∈ restoreVars aux, ¬ r.Has a := by
  rw [← List.forall_iff_forall_mem]
  cases aux <;> decide +kernel

theorem released_saved (mem : Mem) : released aux mem (ccbSaved aux) = 0 := by
  rw [released, Mem.set_of_ne _ _ (restoreVars_apart aux).1.1, Mem.set_self]

theorem auxWrites_kbc (mem : Mem) : ∀ w ∈ auxWrites aux mem, kbcWrites w := by
  intro w hw
  rw [auxWrites] at hw
  split at hw
  · exact List.mem_singleton.mp hw ▸ .inr rfl
  · cases hw

theorem ccbWrites_kbc (mem : Mem) : ∀ w ∈ ccbWrites aux mem, kbcWrites w := by
  intro w hw
  rw [ccbWrites] at hw
  split at hw
  · simp only [List.mem_cons, List.not_mem_nil, or_false] at hw
    exact hw.elim (fun e => e ▸ .inr rfl) fun e => e ▸ .inl rfl
  · cases hw

theorem restoreI8042AndPic_ok (m : Machine δ Bus) : ∃ a c z, restoreI8042AndPic aux m = { m with
    ax := a, cf := c, zf := z, mem := released aux m.mem
    io := { (writes (ccbWrites aux m.mem) (writes (auxWrites aux m.mem) m.io).2).2 with
      pic1 := m.mem (pic1MaskOrig aux),
      pic2 := if aux then m.mem (pic2MaskOrig aux) else m.io.pic2 } } := by
  obtain ⟨⟨-, -, hne⟩, hold⟩ := restoreVars_apart aux
  have hfix : ∀ {mem mem' : Mem} {a}, Frame (restoreVars aux) mem mem' →
      a ∈ [pic1MaskOrig aux, pic2MaskOrig aux, ccbOrig aux] → mem' a = mem a := fun h ha =>
      h.byte (hold _ (by
    simp only [List.mem_cons, List.not_mem_nil, or_false] at ha ⊢
    tauto))
  let mem₁ : Mem := if aux then m.mem.set (auxEnabled aux) 0 else m.mem
  have hmem₁ : Frame (restoreVars aux) m.mem mem₁ := by
    show Frame (restoreVars aux) m.mem (if aux then m.mem.set (auxEnabled aux) 0 else m.mem)
    split
    · exact (Frame.refl _ _).setVar _ List.mem_cons_self
    · exact .refl _ _
  have hsaved : mem₁ (ccbSaved aux) = m.mem (ccbSaved aux) := by
    show (if aux then m.mem.set (auxEnabled aux) 0 else m.mem) (ccbSaved aux) = _
    split
    · exact Mem.set_of_ne _ _ hne.symm
    · rfl
  have hccb : ccbWrites aux mem₁ = ccbWrites aux m.mem := by
    rw [ccbWrites, ccbWrites, hsaved, hfix hmem₁ (by simp)]
  have hmem₂ : Frame (restoreVars aux) m.mem (mem₁.set (ccbSaved aux) 0) :=
    hmem₁.setVar _ (by simp [restoreVars])
  obtain ⟨a₁, c₁, z₁, e₁⟩ := disableAux_ok aux m
  obtain ⟨a₂, c₂, z₂, e₂⟩ := ccb_ok aux (restoreI8042AndPic.disableAux aux m)
  obtain ⟨a₃, e₃⟩ :=
    restorePic_ok aux (restoreI8042AndPic.ccb aux (restoreI8042AndPic.disableAux aux m))
  rw [restoreI8042AndPic, e₃, e₂, e₁]
  have hput :=
    (writes_put (fun w hw => ⟨auxWrites_kbc aux m.mem w hw, auxWrites_kbc aux m.mem w hw⟩)
      m.io).1.trans
    (writes_put (fun w hw => ⟨ccbWrites_kbc aux m.mem w hw, ccbWrites_kbc aux m.mem w hw⟩)
      (writes (auxWrites aux m.mem) m.io).2).1
  refine ⟨a₃, c₂, z₂, ?_⟩
  dsimp only
  rw [show ccbWrites aux (if aux then m.mem.set (auxEnabled aux) 0 else m.mem) =
    ccbWrites aux m.mem from hccb,
    show ((if aux then m.mem.set (auxEnabled aux) 0 else m.mem).set (ccbSaved aux) 0)
      (pic1MaskOrig aux) = m.mem (pic1MaskOrig aux) from hfix hmem₂ (by simp),
    show ((if aux then m.mem.set (auxEnabled aux) 0 else m.mem).set (ccbSaved aux) 0)
      (pic2MaskOrig aux) = m.mem (pic2MaskOrig aux) from hfix hmem₂ (by simp), hput.masks.2]
  rfl

/-- The masks of `b` are back. -/
theorem restore_masks {b : Bus} (h : Saved aux b m) :
    SameMasks b (restoreI8042AndPic aux m).io ∧ Saved aux b (restoreI8042AndPic aux m) := by
  obtain ⟨a, c, z, e⟩ := restoreI8042AndPic_ok aux m
  obtain ⟨-, hold⟩ := restoreVars_apart aux
  have hf := released_frame aux m.mem
  rw [e]
  refine ⟨⟨h.pic1, h.pic2⟩, ⟨(hf.byte (hold _ (by simp))).trans h.pic1, ?_⟩⟩
  have h₂ := h.pic2
  dsimp only
  split
  · rw [if_pos ‹_›] at h₂
    exact (hf.byte (hold _ (by simp))).trans h₂
  · rwa [if_neg ‹_›] at h₂

/-- What the final writes make of the controller. -/
theorem finalWrites_ok {k₀ k : Ctl} {b₀ : Bus} {r : Option Byte} (h : Restorable aux k₀ b₀ r m)
    (hk : Noted aux k₀ r m.mem k) :
    ((auxWrites aux m.mem ++ ccbWrites aux m.mem).foldl Ctl.out k).ccb = r.getD k₀.ccb ∧
    ((auxWrites aux m.mem ++ ccbWrites aux m.mem).foldl Ctl.out k).aux = false := by
  have haux : ((auxWrites aux m.mem).foldl Ctl.out k).aux = false := by
    rw [auxWrites]
    split
    · rfl
    · rename_i hno
      refine Bool.eq_false_iff.mpr fun hx => hno ⟨?_, hk.enabled hx⟩
      exact Bool.eq_true_of_not_eq_false fun hf => hk.enabled hx (h.off (.inl hf))
  rw [List.foldl_append]
  by_cases hz : m.mem (ccbSaved aux) = 0
  · have hl : auxWrites aux m.mem = [] := if_neg fun hno => hno.2 (h.off (.inr hz))
    rw [hl, List.foldl_nil] at haux
    rw [hl, ccbWrites, if_neg (not_not_intro hz), List.foldl_nil, List.foldl_nil]
    exact ⟨hk.ccb hz, haux⟩
  · rw [ccbWrites, if_pos hz, Ctl.out_writeCcb, h.orig hz]
    exact ⟨rfl, haux⟩

/-- The controller is as it was, if it takes the final writes. -/
theorem restore_restorable {k₀ : Ctl} {b₀ : Bus} {r : Option Byte} (h : Restorable aux k₀ b₀ r m)
    (ha : Accepts aux m) : Restorable aux k₀ b₀ r (restoreI8042AndPic aux m) := by
  obtain ⟨a, c, z, e⟩ := restoreI8042AndPic_ok aux m
  obtain ⟨⟨-, hx, hne⟩, -⟩ := restoreVars_apart aux
  have hsaved := released_saved aux m.mem
  have hflag : released aux m.mem (auxEnabled aux) = 0 := by
    rw [released, Mem.set_of_ne _ _ hx, Mem.set_of_ne _ _ hne]
    split
    · exact Mem.set_self _ _ _
    · exact h.off (.inl (Bool.eq_false_iff.mpr ‹_›))
  obtain ⟨k, ht, hk⟩ := h.told
  obtain ⟨hccb, haux⟩ := finalWrites_ok aux h hk
  have hboth := ha
  rw [Accepts, writes_append] at hboth
  split at hboth
  · rename_i h₁
    have ho₁ :=
      (writes_put (fun w hw => ⟨auxWrites_kbc aux m.mem w hw, auxWrites_kbc aux m.mem w hw⟩) m.io).2
        h₁
    have ho₂ :=
      (writes_put (fun w hw => ⟨ccbWrites_kbc aux m.mem w hw, ccbWrites_kbc aux m.mem w hw⟩) _).2
        hboth
    rw [ho₁, List.append_assoc] at ho₂
    rw [e]
    refine ⟨⟨_, ht.trans ⟨_, ho₂, rfl⟩, fun hx => ?_, fun _ => hccb⟩, fun hx => absurd hsaved hx,
      fun _ => hflag⟩
    rw [haux] at hx
    cases hx
  · cases hboth

end VintageKvm.Stage0.AtPs2
