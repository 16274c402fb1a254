import VintageKvm.Dos.Stage0.AtPs2

/-!
# Stage 0: the interrupts at the exit and at the hand-off

On every way to the exit, and to a hand-off without the i8042, the masks and
the controller are those of the entry; a hand-off with it leaves its
interrupts masked (`start_restores`). What the run keeps from label to label
is `Held` up to the restoration and `Tried` after it; the download keeps both
(`Loading`).
-/

namespace VintageKvm.Stage0.AtPs2

open I8086 Machine Dos Bus
open Stage1 (putsMsg)

variable (aux : Bool)

/-! ## The download -/

/-- The variables that the download reads only, or not at all. -/
def heldVars : List Word :=
  [pic1MaskOrig aux, pic2MaskOrig aux, ccbSaved aux, ccbOrig aux, auxEnabled aux, dxBitmap aux,
    dxBitmap aux + 1, currentChannel aux, lptBase (.s0AtPs2 aux), lptBase (.s0AtPs2 aux) + 1]

/-- The variables of the metadata. -/
def metaVars : List Region :=
  [⟨lastPhase (.s0AtPs2 aux), 1⟩, ⟨stage1Size (.s0AtPs2 aux), 2⟩, ⟨stage1Blocks (.s0AtPs2 aux), 2⟩,
    ⟨stage1Sum16 (.s0AtPs2 aux), 2⟩]

theorem heldVars_apart : ∀ a ∈ heldVars aux, Fixed (.s0AtPs2 aux) a ∧ ∀ r ∈ metaVars aux,
    ¬ r.Has a := by
  rw [← List.forall_iff_forall_mem]
  cases aux <;> decide +kernel

/-- From `m` to `m'` there are bytes on the link of the channel chosen, and
the variables are held. -/
structure Loading (m m' : Machine DosState Bus) : Prop where
  held : ∀ a ∈ heldVars aux, m'.mem a = m.mem a
  link : Drives (linkPorts (.s0AtPs2 aux) m.mem) m.io m'.io

namespace Loading

variable {aux} {m m' m₁ m₂ m₃ : Machine DosState Bus}

theorem refl (m : Machine DosState Bus) : Loading aux m m := ⟨fun _ _ => rfl, .refl⟩

theorem word (h : Loading aux m m') {a : Word} (ha : a ∈ heldVars aux)
    (ha' : a + 1 ∈ heldVars aux) : m'.mem.word a = m.mem.word a := by
  rw [Mem.word, Mem.word, h.held _ ha, h.held _ ha']

theorem ports (h : Loading aux m m') :
    linkPorts (.s0AtPs2 aux) m'.mem = linkPorts (.s0AtPs2 aux) m.mem := by
  rw [linkPorts, linkPorts, h.word (by simp [heldVars]) (by simp [heldVars]),
    h.held _ (by simp [heldVars])]

theorem trans (h₁ : Loading aux m₁ m₂) (h₂ : Loading aux m₂ m₃) : Loading aux m₁ m₃ :=
  ⟨fun a ha => (h₂.held a ha).trans (h₁.held a ha), h₁.link.trans (h₁.ports ▸ h₂.link)⟩

/-- Other registers. -/
theorem same (h : Loading aux m m') (m₁ : Machine DosState Bus) (hm : m₁.mem = m'.mem)
    (hio : m₁.io = m'.io) : Loading aux m m₁ := ⟨hm ▸ h.held, hio ▸ h.link⟩

theorem send (h : Loading aux m m') : Loading aux m (Stage0.sendByte (.s0AtPs2 aux) m') := by
  obtain ⟨c, z, io, e, hd⟩ := sendByte_ok (.s0AtPs2 aux) m'
  rw [e]
  exact h.trans ⟨fun _ _ => rfl, hd⟩

theorem recvU16 (h : Loading aux m m') : Loading aux m (Stage0.recvU16 (.s0AtPs2 aux) m') := by
  obtain ⟨a, c, z, ph, bs, io, e, -, hd⟩ := recvU16_ok (.s0AtPs2 aux) m'
  rw [e]
  refine h.trans ⟨fun x hx => ?_, hd⟩
  have hf : Frame (metaVars aux) m'.mem (m'.mem.set (lastPhase (.s0AtPs2 aux)) ph) :=
    (Frame.refl _ _).setVar ph List.mem_cons_self
  exact hf.byte (heldVars_apart aux x hx).2

/-- A word of the metadata stored. -/
theorem stored (h : Loading aux m m') (a : Word) (ha : ⟨a, 2⟩ ∈ metaVars aux) :
    Loading aux m (m'.stw (imm a) (·.ax)) :=
  ⟨fun x hx => (((Frame.refl _ m'.mem).setWordVar m'.ax ha).byte (heldVars_apart aux x hx).2).trans
    (h.held x hx), h.link⟩

/-- `get_stage1_meta`. -/
theorem getStage1Meta (h : Loading aux m m') :
    Loading aux m (Stage0.getStage1Meta (.s0AtPs2 aux) m') := by
  have h₁ := (h.same (m'.movb .al (imm CMD_GET_META)) rfl rfl).send
  rw [Stage0.getStage1Meta]
  generalize Stage0.sendByte (.s0AtPs2 aux) (m'.movb .al (imm CMD_GET_META)) = m₁ at h₁
  refine sent_cases (P := Loading aux m) (h₁.same _ rfl rfl) ?_
  have h₂ := h₁.recvU16
  refine jc_cases (P := Loading aux m) (fun _ => h₂.same _ rfl rfl) fun _ => ?_
  have h₃ := (h₂.stored (stage1Size (.s0AtPs2 aux)) (by simp [metaVars])).recvU16
  refine jc_cases (P := Loading aux m) (fun _ => h₃.same _ rfl rfl) fun _ => ?_
  have h₄ := (h₃.stored (stage1Blocks (.s0AtPs2 aux)) (by simp [metaVars])).recvU16
  refine jc_cases (P := Loading aux m) (fun _ => h₄.same _ rfl rfl) fun _ => ?_
  exact (h₄.stored (stage1Sum16 (.s0AtPs2 aux)) (by simp [metaVars])).same _ rfl rfl

/-- `check_stage1_size`. -/
theorem check (h : Loading aux m m') : Loading aux m (checkStage1Size (.s0AtPs2 aux) m') := by
  obtain ⟨a, w, c, z, e, -⟩ := checkStage1Size_ok (.s0AtPs2 aux) m'
  rw [e]
  exact h.same _ rfl rfl

/-- `download_stage1`, once the size is checked. -/
theorem download (h : Loading aux m (checkStage1Size (.s0AtPs2 aux) m'))
    (hcf : (checkStage1Size (.s0AtPs2 aux) m').cf = false) :
    Loading aux m (downloadStage1 (.s0AtPs2 aux) (checkStage1Size (.s0AtPs2 aux) m')) := by
  obtain ⟨-, hc₀, -, -, hf₀⟩ := begun_ok (.s0AtPs2 aux) m' hcf
  have hmem : (checkStage1Size (.s0AtPs2 aux) m').mem = m'.mem := by
    obtain ⟨a, w, c, z, e, -⟩ := checkStage1Size_ok (.s0AtPs2 aux) m'
    rw [e]
  generalize checkStage1Size (.s0AtPs2 aux) m' = mc at *
  have hk := downloadStage1_kept (.s0AtPs2 aux) hc₀ rfl
  have hbegun : Loading aux m (begun (.s0AtPs2 aux) mc) := by
    refine h.trans ⟨fun a ha => ?_, .refl⟩
    rw [hmem]
    exact (heldVars_apart aux a ha).1.byte (window_above (Nat.zero_le _)) hf₀
  exact hbegun.trans ⟨fun a ha => (heldVars_apart aux a ha).1.byte
    (window_above hc₀.le) hk.mem, hk.link⟩

end Loading

/-- `verify_image_checksum` reads only. -/
theorem verifyImageChecksum_ok {δ ι : Type} (img : Image) (m : Machine δ ι) :
    (verifyImageChecksum img m).mem = m.mem ∧ (verifyImageChecksum img m).io = m.io ∧
      (verifyImageChecksum img m).dos = m.dos := by
  let P : Machine δ ι → Prop := fun m' => m'.mem = m.mem ∧ m'.io = m.io ∧ m'.dos = m.dos
  let body : Machine δ ι → Machine δ ι := fun m => m |>.lodsb |>.xorb .ah (·.reg8 .ah)
    |>.add .bx (·.ax)
  let m₁ : Machine δ ι := m |>.mov .si (imm STAGE1_LOAD_OFF) |>.mov .cx (·.word (stage1Size img))
    |>.xorw .bx (·.bx)
  have hbody : ∀ (k : Nat) (m' : Machine δ ι), P m' → m'.cx = BitVec.ofNat 16 (k + 1) →
      (body m').cx = m'.cx ∧ P ((body m').dec .cx) := fun _ _ h _ => ⟨rfl, h⟩
  have h₁ : P m₁ := ⟨rfl, rfl, rfl⟩
  have hl : P (m₁.whileCx body) :=
    (whileCx_rule (fun _ => P) hbody m₁.cx.isLt h₁ (ofNat_toNat16 m₁.cx).symm).1
  show P (jnz (cmp (m₁.whileCx body) (·.bx) (·.word (stage1Sum16 img))) (·.stc) (·.clc))
  generalize m₁.whileCx body = m₂ at hl
  exact jnz_cases (fun _ => hl) fun _ => hl

/-! ## The unlock sequences -/

/-- The variables they change. -/
def unlockVars : List Region := [⟨i8042Active aux, 1⟩, ⟨dxBitmap aux, 2⟩, ⟨auxEnabled aux, 1⟩]

/-- What else the run reads is none of them. -/
theorem unlockVars_apart :
      (∀ a ∈ [pic1MaskOrig aux, pic2MaskOrig aux, ccbSaved aux, ccbOrig aux, lptBase (.s0AtPs2 aux),
      lptBase (.s0AtPs2 aux) + 1], ∀ r ∈ unlockVars aux, ¬ r.Has a) ∧
    (∀ a ∈ notes aux, a ≠ dxBitmap aux ∧ a ≠ dxBitmap aux + 1) ∧
    (dxBitmap aux ≠ i8042Active aux ∧ dxBitmap aux + 1 ≠ i8042Active aux) ∧
    dxBitmap aux ≠ auxEnabled aux ∧ dxBitmap aux + 1 ≠ auxEnabled aux := by
  rw [← List.forall_iff_forall_mem, ← List.forall_iff_forall_mem]
  cases aux <;> decide +kernel

/-- From `m` to `m'` the private channels are tried: AUX counts as up only
where it is noted to be enabled. -/
structure Unlocking (m m' : Machine DosState Bus) : Prop where
  touches : Touches kbcWrites (unlockVars aux) m m'
  sound : ∀ {k₀ b₀ r}, Restorable aux k₀ b₀ r m → Restorable aux k₀ b₀ r m'
  lpt : m'.mem.word (dxBitmap aux) &&& 1 = m.mem.word (dxBitmap aux) &&& 1
  enabled : m'.mem.word (dxBitmap aux) &&& 4 ≠ 0 → m.mem.word (dxBitmap aux) &&& 4 ≠ 0 ∨
    m'.mem (auxEnabled aux) ≠ 0

namespace Unlocking

variable {aux} {m m' : Machine DosState Bus}

theorem saved (h : Unlocking aux m m') (hs : m.mem (ccbSaved aux) ≠ 0) :
    m'.mem (ccbSaved aux) ≠ 0 := by
  rw [h.touches.mem.byte ((unlockVars_apart aux).1 _ (by simp))]
  exact hs

/-- `i8042_active`. -/
theorem active (m : Machine DosState Bus) :
    Unlocking aux m (m.stb (imm (i8042Active aux)) (imm 1)) := by
  obtain ⟨-, -, ⟨h₁, h₂⟩, -⟩ := unlockVars_apart aux
  have hword : (m.mem.set (i8042Active aux) 1).word (dxBitmap aux) = m.mem.word (dxBitmap aux) :=
    Mem.word_set_of_ne _ _ h₁ h₂
  refine ⟨(Touches.refl _ _ m).stb _ (by simp [unlockVars]), fun hr => ?_, congrArg (· &&& 1) hword,
    fun hb => .inl ?_⟩
  · exact hr.same rfl fun a ha => Mem.set_of_ne _ _ (notes_apart a ha).2.2
  · rwa [← hword]

/-- A bit set is not another one. -/
theorem or_and {w v c : Word} (h : v &&& c = 0) : (w ||| v) &&& c = w &&& c := by
  rw [BitVec.and_or_distrib_right, h]
  exact BitVec.or_zero

/-- A channel is up. -/
theorem found (h : Unlocking aux m m') {ch : Byte} (h₁ : (ch.setWidth 16 : Word) &&& 1 = 0)
    (h₄ : (ch.setWidth 16 : Word) &&& 4 = 0 ∨ m'.mem (auxEnabled aux) ≠ 0) (msg : Word) :
    Unlocking aux m (tryUnlock.found aux ch msg m') := by
  obtain ⟨-, hnotes, -, hx, hx'⟩ := unlockVars_apart aux
  let w : Word := m'.mem.word (dxBitmap aux) ||| ch.setWidth 16
  have hnote : ∀ a ∈ notes aux, (m'.mem.setWord (dxBitmap aux) w) a = m'.mem a := fun a ha =>
    (Mem.set_of_ne _ _ (hnotes a ha).2).trans (Mem.set_of_ne _ _ (hnotes a ha).1)
  have hword : (m'.mem.setWord (dxBitmap aux) w).word (dxBitmap aux) = w := Mem.word_setWord _ _ _
  rw [tryUnlock.found, Stage1.putsMsg_ok]
  refine ⟨⟨h.touches.mem.setWordVar w (by simp [unlockVars]), h.touches.link⟩, fun hr => ?_,
    ?_, fun hb => ?_⟩
  · exact (h.sound hr).same rfl hnote
  · show (m'.mem.setWord (dxBitmap aux) w).word (dxBitmap aux) &&& 1 = _
    rw [hword, or_and h₁, h.lpt]
  · have hb' : w &&& 4 ≠ 0 := hword ▸ hb
    show m.mem.word (dxBitmap aux) &&& 4 ≠ 0 ∨
      (m'.mem.setWord (dxBitmap aux) w) (auxEnabled aux) ≠ 0
    rw [hnote _ (by simp [notes])]
    rcases h₄ with h₄ | h₄
    · rw [or_and h₄] at hb'
      exact h.enabled hb'
    · exact .inr h₄

/-- Data bytes alone, to the keyboard: neither the command byte nor AUX. -/
theorem kbd (h : Unlocking aux m m') (hs : m.mem (ccbSaved aux) ≠ 0) :
    Unlocking aux m (kbdUnlockPrivate aux m') := by
  have ht := kbdUnlockPrivate_touches aux (Touches.refl dataWrites [] m')
  have hs' := h.saved hs
  generalize kbdUnlockPrivate aux m' = m₁ at ht
  have hmem : m₁.mem = m'.mem := funext fun a => ht.mem a fun _ h => nomatch h
  refine ⟨h.touches.trans (ht.mono data_kbc fun _ h => nomatch h), fun hr => ?_, hmem ▸ h.lpt,
    hmem ▸ h.enabled⟩
  refine (h.sound hr).keeps ht.link.outs (fun a _ => congrFun hmem a) fun k w hw hk => ?_
  obtain ⟨p, v⟩ := w
  obtain rfl : p = KBC_DATA := hw
  rw [Ctl.out_data]
  exact ⟨hk.enabled, fun hz => absurd hz hs'⟩

/-- `aux_unlock_private`; without carry AUX is noted to be enabled. -/
theorem auxUnlock (h : Unlocking aux m m') (hs : m.mem (ccbSaved aux) ≠ 0) :
    Unlocking aux m (auxUnlockPrivate aux m') ∧
    ((auxUnlockPrivate aux m').cf = false →
      (auxUnlockPrivate aux m').mem (auxEnabled aux) ≠ 0) := by
  have hs' := h.saved hs
  rcases auxUnlockPrivate_touches aux m' with ⟨hcf, ht⟩ | ⟨haux, ht, hon⟩
  · have hmem : (auxUnlockPrivate aux m').mem = m'.mem :=
      funext fun a => ht.mem a fun _ h => nomatch h
    refine ⟨⟨h.touches.trans (ht.mono (fun _ h => h.elim) fun _ h => nomatch h), fun hr => ?_,
      hmem ▸ h.lpt, hmem ▸ h.enabled⟩, fun hc => by rw [hcf] at hc; cases hc⟩
    exact (h.sound hr).keeps ht.link.outs (fun a _ => congrFun hmem a) fun _ _ h => h.elim
  · generalize auxUnlockPrivate aux m' = m₁ at ht hon
    have hne : m₁.mem (auxEnabled aux) ≠ 0 := by
      rw [hon]
      decide
    obtain ⟨-, -, -, hx, hx'⟩ := unlockVars_apart aux
    have hword : m₁.mem.word (dxBitmap aux) = m'.mem.word (dxBitmap aux) :=
      ht.mem.word (by simpa using fun h => hx (Region.has_one h))
        (by simpa using fun h => hx' (Region.has_one h))
    refine ⟨⟨h.touches.trans (ht.mono (fun _ h => h) fun r hr => ?_), fun hr => ?_, hword ▸ h.lpt,
      fun _ => .inr hne⟩, fun _ => hne⟩
    · rw [List.mem_singleton.mp hr]
      simp [unlockVars]
    · have hr' := h.sound hr
      have hsame : ∀ {a}, a ≠ auxEnabled aux → m₁.mem a = m'.mem a := fun hne =>
        ht.mem _ (by simpa using fun h => hne (Region.has_one h))
      obtain ⟨-, -, he, he', -⟩ := masteryVars_apart aux
      -- AUX may be enabled from here on, and is noted to be
      obtain ⟨k, htold, -⟩ := hr'.told
      obtain ⟨k', htold', -⟩ :=
        Ctl.told_of_outs (fun _ => True) (fun _ _ _ _ => trivial) ht.link.outs (k := k) trivial
      have hsaved : m₁.mem (ccbSaved aux) = m'.mem (ccbSaved aux) := hsame he'.symm
      refine ⟨⟨k', htold.trans htold', fun _ => hne, fun hz => absurd (hsaved ▸ hz) hs'⟩,
        fun hz => ?_, fun hoff => ?_⟩
      · rw [hsame he.symm]
        exact hr'.orig (hsaved ▸ hz)
      · rcases hoff with hoff | hoff
        · rw [haux] at hoff
          cases hoff
        · exact absurd (hsaved ▸ hoff) hs'

/-- The private channels tried. -/
theorem tryUnlock (hs : m.mem (ccbSaved aux) ≠ 0) : Unlocking aux m (AtPs2.tryUnlock aux m) := by
  have hchan : Unlocking aux m ((kbdUnlockPrivate aux (m.stb (imm (i8042Active aux)) (imm 1))).jc id
      (tryUnlock.found aux CHAN_KBD (msgKbdFound aux))) := by
    have h₁ := (active m).kbd hs
    exact jc_cases (fun _ => h₁) fun _ => h₁.found (by decide) (.inl (by decide)) _
  show Unlocking aux m (tryUnlock.tryAux aux _)
  rw [tryUnlock.tryAux]
  split
  · obtain ⟨h₂, hon⟩ := hchan.auxUnlock hs
    exact jc_cases (fun _ => h₂) fun hcf => h₂.found (by decide) (.inr (hon hcf)) _
  · exact hchan

end Unlocking

/-! ## What the run keeps -/

/-- The variables that the invariants read. -/
def runVars : List Word :=
  [pic1MaskOrig aux, pic2MaskOrig aux, ccbSaved aux, ccbOrig aux, auxEnabled aux, dxBitmap aux,
    dxBitmap aux + 1, lptBase (.s0AtPs2 aux), lptBase (.s0AtPs2 aux) + 1]

section

variable (P : Prop) (k₀ : Ctl) (b₀ : Bus) (r : Option Byte)

/-- The i8042 is to be given back, which was `k₀` and the masks those of `b₀`
at the entry. -/
structure Held (m : Machine DosState Bus) : Prop where
  saved : Saved aux b₀ m
  sound : Restorable aux k₀ b₀ r m
  lpt : m.mem.word (dxBitmap aux) &&& 1 ≠ 0 → m.mem.word (lptBase (.s0AtPs2 aux)) ∈ lptPorts
  none : m.mem.word (dxBitmap aux) &&& 6 = 0

/-- The i8042 has been given back, as far as `P`, or is in use. -/
structure Tried (m : Machine DosState Bus) : Prop where
  saved : Saved aux b₀ m
  sound : P → Restorable aux k₀ b₀ r m
  lpt : m.mem.word (dxBitmap aux) &&& 1 ≠ 0 → m.mem.word (lptBase (.s0AtPs2 aux)) ∈ lptPorts
  none : m.mem.word (dxBitmap aux) &&& 6 = 0 → SameMasks b₀ m.io ∧ m.mem (ccbSaved aux) = 0
  some : m.mem.word (dxBitmap aux) &&& 6 ≠ 0 → Masked aux b₀ m.io ∧ m.mem (ccbSaved aux) ≠ 0
  aux : m.mem.word (dxBitmap aux) &&& 4 ≠ 0 → m.mem (auxEnabled aux) ≠ 0

/-- What a run that goes to `exit_error` can restore. -/
structure Failed (m : Machine DosState Bus) : Prop where
  saved : Saved aux b₀ m
  sound : P → Restorable aux k₀ b₀ r m

end

section

variable {aux} {P : Prop} {k₀ : Ctl} {b₀ b : Bus} {r : Option Byte}
  {ws : Word × Byte → Prop} {m m' : Machine DosState Bus}

theorem Saved.keeps (h : Saved aux b m) (hmem : ∀ a ∈ runVars aux, m'.mem a = m.mem a)
    (hio : SameMasks m.io m'.io) : Saved aux b m' := by
  refine ⟨(hmem _ (by simp [runVars])).trans h.pic1, ?_⟩
  rw [hmem _ (by simp [runVars]), hio.2]
  exact h.pic2

theorem word_keeps (hmem : ∀ a ∈ runVars aux, m'.mem a = m.mem a) :
    m'.mem.word (dxBitmap aux) = m.mem.word (dxBitmap aux) ∧
    m'.mem.word (lptBase (.s0AtPs2 aux)) = m.mem.word (lptBase (.s0AtPs2 aux)) := by
  constructor <;> rw [Mem.word, Mem.word, hmem _ (by simp [runVars]), hmem _ (by simp [runVars])]

/-- Writes that what is noted stays true of. -/
theorem Tried.keeps (h : Tried aux P k₀ b₀ r m) (hmem : ∀ a ∈ runVars aux, m'.mem a = m.mem a)
    (hio : Puts ws m.io m'.io) (hws : ∀ k w, ws w → Noted aux k₀ r m.mem k →
      Noted aux k₀ r m.mem (k.out w)) : Tried aux P k₀ b₀ r m' := by
  obtain ⟨hbits, hbase⟩ := word_keeps hmem
  have hnotes : ∀ a ∈ notes aux, m'.mem a = m.mem a := fun a ha => hmem a (by
    simp only [notes, runVars, List.mem_cons, List.not_mem_nil, or_false] at ha ⊢
    tauto)
  have hsaved := hmem (ccbSaved aux) (by simp [runVars])
  refine ⟨h.saved.keeps hmem hio.masks, fun hp => (h.sound hp).keeps hio.outs hnotes hws,
    fun hb => ?_, fun hb => ?_, fun hb => ?_, fun hb => ?_⟩
  · rw [hbits] at hb
    exact hbase ▸ h.lpt hb
  · rw [hbits] at hb
    exact ⟨(h.none hb).1.trans hio.masks, hsaved ▸ (h.none hb).2⟩
  · rw [hbits] at hb
    obtain ⟨hm, hs⟩ := h.some hb
    exact ⟨⟨hio.masks.1.trans hm.pic1, hio.masks.2.trans hm.pic2⟩, hsaved ▸ hs⟩
  · rw [hbits] at hb
    rw [hmem _ (by simp [runVars])]
    exact h.aux hb

theorem Tried.failed (h : Tried aux P k₀ b₀ r m) : Failed aux P k₀ b₀ r m := ⟨h.saved, h.sound⟩

/-! Registers and the console are not what it is about. -/

theorem Saved.same (h : Saved aux b m) (hm : m'.mem = m.mem) (hio : m'.io = m.io) :
    Saved aux b m' :=
  h.keeps (fun _ _ => congrFun hm _) (hio ▸ .refl _)

theorem Held.same (h : Held aux k₀ b₀ r m) (hm : m'.mem = m.mem) (hio : m'.io = m.io) :
    Held aux k₀ b₀ r m' := by
  refine ⟨h.saved.same hm hio, h.sound.same (congrArg Bus.outs hio) fun _ _ => congrFun hm _, ?_,
    ?_⟩ <;> rw [hm]
  · exact h.lpt
  · exact h.none

theorem Tried.same (h : Tried aux P k₀ b₀ r m) (hm : m'.mem = m.mem) (hio : m'.io = m.io) :
    Tried aux P k₀ b₀ r m' := by
  have hput : Puts (fun _ => False) m.io m'.io := hio ▸ .refl _ _
  exact h.keeps (fun _ _ => congrFun hm _) hput fun _ _ h => h.elim

theorem Failed.same (h : Failed aux P k₀ b₀ r m) (hm : m'.mem = m.mem) (hio : m'.io = m.io) :
    Failed aux P k₀ b₀ r m' :=
  ⟨h.saved.same hm hio, fun hp => (h.sound hp).same (congrArg Bus.outs hio)
    fun _ _ => congrFun hm _⟩

/-- `restore_i8042_and_pic` at the end of the tries. -/
theorem Held.restored (h : Held aux k₀ b₀ r m) (ha : P → Accepts aux m) (c : Bool) :
    Tried aux P k₀ b₀ r { restoreI8042AndPic aux m with cf := c } := by
  obtain ⟨hmasks, hsaved⟩ := restore_masks aux h.saved
  have hsound := fun hp => restore_restorable aux h.sound (ha hp)
  obtain ⟨-, hold⟩ := restoreVars_apart aux
  have hmem : (restoreI8042AndPic aux m).mem = released aux m.mem := by
    obtain ⟨a, c, z, e⟩ := restoreI8042AndPic_ok aux m
    rw [e]
  have hf := released_frame aux m.mem
  have hz := released_saved aux m.mem
  rw [← hmem] at hf hz
  generalize restoreI8042AndPic aux m = m₁ at *
  have hbits : m₁.mem.word (dxBitmap aux) = m.mem.word (dxBitmap aux) :=
    hf.word (hold _ (by simp)) (hold _ (by simp))
  have hnone : m₁.mem.word (dxBitmap aux) &&& 6 = 0 := hbits ▸ h.none
  refine ⟨⟨hsaved.pic1, hsaved.pic2⟩,
    fun hp => ⟨(hsound hp).told, (hsound hp).orig, (hsound hp).off⟩, fun hb => ?_,
    fun _ => ⟨hmasks, hz⟩, fun hb => absurd hnone hb, fun hb => ?_⟩
  · show m₁.mem.word (lptBase (.s0AtPs2 aux)) ∈ lptPorts
    rw [hf.word (hold _ (by simp)) (hold _ (by simp))]
    exact h.lpt (hbits ▸ hb)
  · refine absurd ?_ hb
    show m₁.mem.word (dxBitmap aux) &&& 4 = 0
    rw [show (4 : Word) = 6 &&& 4 by decide, ← BitVec.and_assoc, hnone]
    rfl

end

end VintageKvm.Stage0.AtPs2
