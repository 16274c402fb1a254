import VintageKvm.Dos.Stage0.HandOff
import VintageKvm.Dos.Stage0.Loads

/-!
# Stage 0: the run, from label to label

What holds at the labels of `start` (`AtLabel`) is kept by every step
(`step_ok`), so that on every way to the exit, and to a hand-off without the
i8042, the masks and the controller are those of the entry, while a hand-off
with it leaves its interrupts masked (`start_restores`).
-/

namespace VintageKvm.Stage0.AtPs2

open I8086 Machine Dos Bus
open Stage1 (putsMsg)

variable (aux : Bool)

/-! ## Up to the mastery -/

/-- `start` up to `try_i8042_private`. -/
def entered (m : Machine DosState Bus) : Machine DosState Bus := m |> enter aux |> tryLptChannel aux

/-- The command byte read at the entry, if one was. -/
def readAtEntry (m : Machine DosState Bus) : Option Byte := ccbRead aux (entered aux m)

/-- The i8042 is as at the entry, and at most the LPT channel is up. -/
structure Ready (k₀ : Ctl) (b₀ : Bus) (m : Machine DosState Bus) : Prop where
  masks : SameMasks b₀ m.io
  sound : Restorable aux k₀ b₀ none m
  saved : m.mem (ccbSaved aux) = 0
  bits : m.mem.word (dxBitmap aux) = 0 ∨
    m.mem.word (dxBitmap aux) = 1 ∧ m.mem.word (lptBase (.s0AtPs2 aux)) ∈ lptPorts

/-- What `start` clears is not the table of the ports, and the LPT channel
leaves what is noted of the i8042. -/
theorem entryVars_apart : (∀ k ∈ [(0 : Word), 2, 4, 6], ∀ r ∈ entryVars aux,
      ¬ r.Has (lptCandidates (.s0AtPs2 aux) + k) ∧ ¬ r.Has (lptCandidates (.s0AtPs2 aux) + k + 1)) ∧
    (∀ a ∈ notes aux, ∀ r ∈ ⟨dxBitmap aux, 2⟩ :: searchVars (.s0AtPs2 aux), ¬ r.Has a) ∧
    (∀ r ∈ masteryVars aux, ¬ r.Has (dxBitmap aux) ∧ ¬ r.Has (dxBitmap aux + 1) ∧
      ¬ r.Has (lptBase (.s0AtPs2 aux)) ∧ ¬ r.Has (lptBase (.s0AtPs2 aux) + 1)) := by
  rw [← List.forall_iff_forall_mem, ← List.forall_iff_forall_mem, ← List.forall_iff_forall_mem]
  cases aux <;> decide +kernel

section

variable {aux} {m m' m₁ m₂ : Machine DosState Bus}
  {P : Prop} {k₀ : Ctl} {b₀ : Bus} {r : Option Byte}

theorem enter_listed (hl : Listed (.s0AtPs2 aux) m.mem) :
    Listed (.s0AtPs2 aux) (AtPs2.enter aux m).mem := by
  have hf := (enter_ok aux m).mem
  have hword : ∀ k ∈ [(0 : Word), 2, 4, 6], (AtPs2.enter aux m).mem.word
    (lptCandidates (.s0AtPs2 aux) + k) =
      m.mem.word (lptCandidates (.s0AtPs2 aux) + k) := fun k hk =>
    hf.word (fun r hr => ((entryVars_apart aux).1 k hk r hr).1)
      fun r hr => ((entryVars_apart aux).1 k hk r hr).2
  refine ⟨fun k hk => ?_, (hword 6 (by decide)).trans hl.last⟩
  have htable : ∀ k < 3, BitVec.ofNat 16 (2 * k) ∈ [(0 : Word), 2, 4, 6] := by decide
  exact (hword _ (htable k hk)).trans (hl.ports k hk)

theorem entered_ready (hl : Listed (.s0AtPs2 aux) m.mem) (ccb : Byte) (pending : Option Byte) :
    Ready aux ⟨ccb, pending, false⟩ m.io (entered aux m) := by
  obtain ⟨hio, -, hbits, hsaved, henabled⟩ := enter_ok aux m
  obtain ⟨ht, hlpt⟩ := tryLptChannel_ok (enter_listed hl) hbits
  rw [← hio]
  have hnote : ∀ a ∈ notes aux, (entered aux m).mem a = (enter aux m).mem a := fun a ha =>
    ht.mem a ((entryVars_apart aux).2.1 a ha)
  have hsaved' := (hnote (ccbSaved aux) (by simp [notes])).trans hsaved
  have henabled' := (hnote (auxEnabled aux) (by simp [notes])).trans henabled
  have hkeep : ∀ (k : Ctl) (w : Word × Byte), lptWrites w → k = ⟨ccb, pending, false⟩ →
      k.out w = ⟨ccb, pending, false⟩ := by
    intro k w hw hk
    obtain ⟨_, hb, hp⟩ := hw
    exact (Ctl.out_other k (pumpPorts_apart hb hp).2).trans hk
  obtain ⟨k, htold, rfl⟩ := Ctl.told_of_outs (· = ⟨ccb, pending, false⟩) hkeep ht.link.outs rfl
  refine ⟨ht.link.masks, ⟨⟨_, htold, ⟨fun hx => (Bool.false_ne_true hx).elim, fun _ => rfl⟩⟩,
    fun hx => absurd hsaved' hx, fun _ => henabled'⟩, hsaved', hlpt⟩

/-- The mastery leaves the i8042 to be given back. -/
theorem Mastered.held (h : Mastered aux r m m') (hr : Ready aux k₀ b₀ m) :
    Held aux k₀ b₀ r m' ∧ Masked aux b₀ m'.io := by
  have hap := (entryVars_apart aux).2.2
  have hbits : m'.mem.word (dxBitmap aux) = m.mem.word (dxBitmap aux) :=
    h.mem.word (fun r hr => (hap r hr).1) fun r hr => (hap r hr).2.1
  have hbase : m'.mem.word (lptBase (.s0AtPs2 aux)) = m.mem.word (lptBase (.s0AtPs2 aux)) :=
    h.mem.word (fun r hr => (hap r hr).2.2.1) fun r hr => (hap r hr).2.2.2
  refine ⟨⟨⟨h.saved.pic1.trans hr.masks.1, h.saved.pic2.trans hr.masks.2⟩,
    h.sound _ _ hr.sound hr.saved, ?_, ?_⟩, ?_, ?_⟩
  · rw [hbits, hbase]
    exact fun hb => hr.bits.elim (fun hz => absurd (congrArg (· &&& 1) hz) hb) fun hone => hone.2
  · rw [hbits]
    rcases hr.bits with hz | ⟨hone, -⟩
    · rw [hz]
      decide
    · rw [hone]
      decide
  · rw [h.masked.pic1, hr.masks.1]
  · rw [h.masked.pic2, hr.masks.2]

/-- The private channels tried: one is up, or the i8042 is to be given back. -/
theorem Held.unlocked (h : Held aux k₀ b₀ r m) (hm : Masked aux b₀ m.io)
    (hs : m.mem (ccbSaved aux) ≠ 0) (hu : Unlocking aux m m') :
      (m'.mem.word (dxBitmap aux) &&& 6 = 0 → Held aux k₀ b₀ r m') ∧
      (m'.mem.word (dxBitmap aux) &&& 6 ≠ 0 → Tried aux P k₀ b₀ r m') := by
  have hold := (unlockVars_apart aux).1
  have hlink := hu.touches.link.masks
  have hsaved : Saved aux b₀ m' := by
    refine ⟨(hu.touches.mem.byte (hold _ (by simp))).trans h.saved.pic1, ?_⟩
    rw [hu.touches.mem.byte (hold _ (by simp)), hlink.2]
    exact h.saved.pic2
  have hlpt : m'.mem.word (dxBitmap aux) &&& 1 ≠ 0 →
      m'.mem.word (lptBase (.s0AtPs2 aux)) ∈ lptPorts := fun hb => by
    rw [hu.touches.mem.word (hold _ (by simp)) (hold _ (by simp))]
    exact h.lpt (hu.lpt ▸ hb)
  refine ⟨fun hz => ⟨hsaved, hu.sound h.sound, hlpt, hz⟩, fun hne => ?_⟩
  refine ⟨hsaved, fun _ => hu.sound h.sound, hlpt, fun hz => absurd hz hne,
    fun _ => ⟨⟨?_, ?_⟩, hu.saved hs⟩, fun hb => ?_⟩
  · exact hlink.1.trans hm.pic1
  · exact hlink.2.trans hm.pic2
  · refine (hu.enabled hb).resolve_left fun hne => hne ?_
    rw [show (4 : Word) = 6 &&& 4 by decide, ← BitVec.and_assoc, h.none]
    rfl

/-! ## A channel chosen -/

/-- The channel chosen is up. -/
structure Chosen (aux : Bool) (ch : Byte) (m m' : Machine DosState Bus) : Prop where
  mem : m'.mem = m.mem.set (currentChannel aux) ch
  io : m'.io = m.io
  up : ch = CHAN_LPT ∧ m.mem.word (dxBitmap aux) &&& 1 ≠ 0 ∨ ch = CHAN_KBD ∧
    m.mem.word (dxBitmap aux) &&& 2 ≠ 0 ∨ ch = CHAN_AUX ∧ m.mem.word (dxBitmap aux) &&& 4 ≠ 0

/-- `choose_download_channel` fails, or chooses a channel. -/
theorem choose_cases {β : Type} {Q : β → Prop} {fail next : Machine DosState Bus → β}
    (m : Machine DosState Bus) (hf : ∀ m', m'.mem = m.mem → m'.io = m.io → Q (fail m'))
    (hn : ∀ ch m', Chosen aux ch m m' → Q (next m')) :
    Q ((chooseDownloadChannel aux m).jc fail next) := by
  let C : Machine DosState Bus → Prop := fun m' =>
    m'.cf = true ∧ m'.mem = m.mem ∧ m'.io = m.io ∨ m'.cf = false ∧ ∃ ch, Chosen aux ch m m'
  have hc : C (chooseDownloadChannel aux m) := by
    refine jz_cases (fun _ => jz_cases (fun _ => ?_) fun hz => ?_) fun hz => ?_
    · show C (chooseDownloadChannel.tryAux aux _)
      rw [chooseDownloadChannel.tryAux]
      split
      · exact jz_cases (fun _ => .inl ⟨rfl, rfl, rfl⟩) fun hz =>
          .inr ⟨rfl, _, rfl, rfl, .inr (.inr ⟨rfl, of_decide_eq_false hz⟩)⟩
      · exact .inl ⟨rfl, rfl, rfl⟩
    · exact .inr ⟨rfl, _, rfl, rfl, .inr (.inl ⟨rfl, of_decide_eq_false hz⟩)⟩
    · exact .inr ⟨rfl, _, rfl, rfl, .inl ⟨rfl, of_decide_eq_false hz⟩⟩
  rcases hc with ⟨hcf, hmem, hio⟩ | ⟨hcf, ch, hch⟩
  · rw [jc_pos hcf]
    exact hf _ hmem hio
  · rw [jc_neg hcf]
    exact hn ch _ hch

theorem currentChannel_apart (aux : Bool) : ∀ a ∈ runVars aux, a ≠ currentChannel aux := by
  rw [← List.forall_iff_forall_mem]
  cases aux <;> decide

theorem Tried.chosen (h : Tried aux P k₀ b₀ r m) {ch : Byte} (hc : Chosen aux ch m m') :
    Tried aux P k₀ b₀ r m' := by
  have hput : Puts (fun _ => False) m.io m'.io := hc.io ▸ .refl _ _
  refine h.keeps (fun a ha => ?_) hput fun _ _ h => h.elim
  rw [hc.mem, Mem.set_of_ne _ _ (currentChannel_apart aux a ha)]

/-- The writes to the link of the channel chosen neither change the masks nor
what is noted of the i8042. -/
theorem Tried.link (h : Tried aux P k₀ b₀ r m) {ch : Byte} (hc : Chosen aux ch m m') :
    (∀ p, linkPorts (.s0AtPs2 aux) m'.mem p → p ≠ PIC1_DATA ∧ p ≠ PIC2_DATA) ∧
    ∀ k w, linkPorts (.s0AtPs2 aux) m'.mem w.1 → Noted aux k₀ r m'.mem k →
    Noted aux k₀ r m'.mem (k.out w) := by
  have h' := h.chosen hc
  have hcur : m'.mem (currentChannel aux) = ch := by
    rw [hc.mem, Mem.set_self]
  have hbits : m'.mem.word (dxBitmap aux) = m.mem.word (dxBitmap aux) := by
    have hne := currentChannel_apart aux
    rw [hc.mem]
    exact Mem.word_set_of_ne _ _ (hne _ (by simp [runVars])) (hne _ (by simp [runVars]))
  have hsix : ∀ {c : Word}, 6 &&& c = c → m'.mem.word (dxBitmap aux) &&& c ≠ 0 →
      m'.mem (ccbSaved aux) ≠ 0 := fun hcc hne => by
    refine (h'.some fun hz => hne ?_).2
    rw [← hcc, ← BitVec.and_assoc, hz]
    exact BitVec.zero_and
  rw [linkPorts, hcur]
  rcases hc.up with ⟨rfl, hup⟩ | ⟨rfl, hup⟩ | ⟨rfl, hup⟩
  · have hb := h'.lpt (hbits ▸ hup)
    rw [if_pos rfl]
    refine ⟨fun p hp => (pumpPorts_apart hb hp).1, fun k w hw hk => ?_⟩
    rw [Ctl.out_other k (pumpPorts_apart hb hw).2]
    exact hk
  · have hs := hsix (by decide) (hbits ▸ hup)
    rw [if_neg (by decide), if_pos rfl]
    refine ⟨fun p hp => kbcPorts_not_pic (.inl hp), fun k w hw hk => ?_⟩
    obtain ⟨p, v⟩ := w
    obtain rfl : p = KBC_DATA := hw
    rw [Ctl.out_data]
    exact ⟨hk.enabled, fun hz => absurd hz hs⟩
  · have hs := hsix (by decide) (hbits ▸ hup)
    have ha := h'.aux (hbits ▸ hup)
    rw [if_neg (by decide), if_neg (by decide)]
    exact ⟨fun p hp => kbcPorts_not_pic hp, fun k w _ _ => ⟨fun _ => ha, fun hz => absurd hz hs⟩⟩

/-- The download keeps what holds when the channels have been tried. -/
theorem Tried.loading (h : Tried aux P k₀ b₀ r m) {ch : Byte} (hc : Chosen aux ch m m')
    (hl : Loading aux m' m₁) : Tried aux P k₀ b₀ r m₁ := by
  obtain ⟨hpic, hnoted⟩ := h.link hc
  have hput := Puts.of_drives hl.link (fun hp => (hpic _ hp).1 rfl) fun hp => (hpic _ hp).2 rfl
  refine (h.chosen hc).keeps (fun a ha => hl.held a ?_) hput hnoted
  simp only [runVars, heldVars, List.mem_cons, List.not_mem_nil, or_false] at ha ⊢
  tauto

end

/-! ## The run -/

/-- How many labels are still to come. -/
def Label.left : Label → Nat
  | .start => 3
  | .masteryFail => 2
  | .restoreIfNone => 2
  | .tried => 1
  | .exitError => 0

/-- The labels before the calls of `restore_i8042_and_pic`. -/
def restoring : List Label := [.masteryFail, .restoreIfNone, .exitError]

/-- Wherever the run restores, the controller takes the final writes. -/
def Accepted (m : Machine DosState Bus) : Prop :=
  ∀ l m', l ∈ restoring → Turns (step aux) (.start, m) (l, m') → Accepts aux m'

section

variable (P : Prop) (k₀ : Ctl) (b₀ : Bus) (r : Option Byte)

/-- The masks are those of `b₀`, and the controller is given back as far as
`P`. -/
structure Released (m : Machine DosState Bus) : Prop where
  masks : SameMasks b₀ m.io
  restored : P → Restored k₀ b₀ r m

/-- The run ends in `exit_error` or in a hand-off; where the bits of KBD and
AUX (6) are not in DX, everything is given back. -/
def Ends : Outcome Bus → Prop
  | .exited errorlevel m => errorlevel = 1 ∧ Released P k₀ b₀ r m
  | .stage1 m => (m.dx &&& 6 = 0 → Released P k₀ b₀ r m) ∧ (m.dx &&& 6 ≠ 0 → Masked aux b₀ m.io)

/-- What holds at a label. -/
def AtLabel (m₀ : Machine DosState Bus) : Label × Machine DosState Bus → Prop
  | (.start, m) => m = m₀
  | (.masteryFail, m) => Held aux k₀ m₀.io r m
  | (.restoreIfNone, m) => Held aux k₀ m₀.io r m
  | (.tried, m) => Tried aux P k₀ m₀.io r m
  | (.exitError, m) => Failed aux P k₀ m₀.io r m

end

section

variable {aux} {m m' m₀ : Machine DosState Bus} {P : Prop} {k₀ : Ctl} {r : Option Byte}

theorem start_ok (hl : Listed (.s0AtPs2 aux) m.mem) (ccb : Byte)
    (pending : Option Byte) (P : Prop) : (step aux (.start, m)).Sat
      (fun s => AtLabel aux P ⟨ccb, pending, false⟩ (readAtEntry aux m) m s ∧
        s.1.left < Label.start.left) fun _ => False := by
  have hr := entered_ready hl ccb pending
  let Q : Flow (Label × Machine DosState Bus) (Outcome Bus) → Prop := fun f =>
    f.Sat (fun s => AtLabel aux P ⟨ccb, pending, false⟩ (readAtEntry aux m) m s ∧
      s.1.left < Label.start.left) fun _ => False
  refine i8042Mastery_cases (P := Q) (entered aux m)
    (fun m' hm => ⟨(hm.held hr).1, Nat.lt_succ_self 2⟩) fun m' hm hs => ?_
  obtain ⟨hh, hmask⟩ := hm.held hr
  have hne : m'.mem (ccbSaved aux) ≠ 0 := by
    rw [hs]
    decide
  have hlt : Label.tried.left < Label.start.left := by decide
  obtain ⟨hnone, hsome⟩ := hh.unlocked hmask hne (Unlocking.tryUnlock hne)
  exact jnz_cases (P := Q) (fun hz => ⟨(hsome (of_decide_eq_false hz)).same rfl rfl, hlt⟩) fun hz =>
    ⟨(hnone (of_decide_eq_true hz)).same rfl rfl, Nat.lt_succ_self 2⟩

/-- A message, and then `exit_error`. -/
theorem Tried.failWith {Q : Outcome Bus → Prop} (h : Tried aux P k₀ m₀.io r m) (msg : Word) :
    (failWith msg m).Sat (fun s => s.1 = .exitError ∧ AtLabel aux P k₀ r m₀ s) Q :=
  ⟨rfl, h.failed.same (Stage1.putsMsg_ok msg m ▸ rfl) (Stage1.putsMsg_ok msg m ▸ rfl)⟩

theorem Tried.released (h : Tried aux P k₀ m₀.io r m) (hz : m.mem.word (dxBitmap aux) &&& 6 = 0) :
    Released P k₀ m₀.io r m :=
  ⟨(h.none hz).1, fun hp => (h.sound hp).restored (h.none hz).2⟩

theorem Tried.handOff (h : Tried aux P k₀ m₀.io r m) :
    Ends aux P k₀ m₀.io r (.stage1 (handOff aux m)) := by
  have hdx : (AtPs2.handOff aux m).dx = m.mem.word (dxBitmap aux) := by
    simp only [AtPs2.handOff, Stage1.putsMsg_ok, push, popDs, popEs, mov, setReg, word]
  have h' : Tried aux P k₀ m₀.io r (AtPs2.handOff aux m) := by
    refine h.same ?_ ?_ <;> simp only [AtPs2.handOff, Stage1.putsMsg_ok, push, popDs,
      popEs, mov, setReg]
  have hbits : (AtPs2.handOff aux m).mem.word (dxBitmap aux) = m.mem.word (dxBitmap aux) := by
    simp only [AtPs2.handOff, Stage1.putsMsg_ok, push, popDs, popEs, mov, setReg]
  rw [← hbits] at hdx
  exact ⟨fun hz => h'.released (hdx ▸ hz), fun hne => (h'.some (hdx ▸ hne)).1⟩

theorem tried_ok (h : Tried aux P k₀ m₀.io r m) :
    (step aux (.tried, m)).Sat (fun s => s.1 = .exitError ∧ AtLabel aux P k₀ r m₀ s)
      (Ends aux P k₀ m₀.io r) := by
  let Q : Flow (Label × Machine DosState Bus) (Outcome Bus) → Prop := fun f =>
    f.Sat (fun s => s.1 = .exitError ∧ AtLabel aux P k₀ r m₀ s) (Ends aux P k₀ m₀.io r)
  have hfail : ∀ {m'} (msg : Word), Tried aux P k₀ m₀.io r m' → Q (failWith msg m') :=
    fun msg h' => h'.failWith msg
  show Q (fromTried aux m)
  refine jz_cases (P := Q) (fun _ => hfail _ (h.same rfl rfl)) fun _ => ?_
  refine choose_cases (Q := Q) _ (fun m' hm hio => hfail _ (h.same hm hio)) fun ch m₁ hc => ?_
  have hc' : Chosen aux ch m m₁ := ⟨hc.mem, hc.io, hc.up⟩
  have hdone : ∀ {m'}, Loading aux m₁ m' → Tried aux P k₀ m₀.io r m' := fun hl => h.loading hc' hl
  have h₁ : Loading aux m₁ (getStage1Meta (.s0AtPs2 aux) m₁) := (Loading.refl m₁).getStage1Meta
  refine jc_cases (P := Q) (fun _ => hfail _ (hdone h₁)) fun _ => ?_
  have h₂ := h₁.check
  refine jc_cases (P := Q) (fun _ => hfail _ (hdone h₂)) fun hcf => ?_
  have h₃ := h₂.download hcf
  refine jc_cases (P := Q) (fun _ => hfail _ (hdone h₃)) fun _ => ?_
  obtain ⟨hmem, hio, -⟩ := verifyImageChecksum_ok (.s0AtPs2 aux)
    (downloadStage1 (.s0AtPs2 aux)
      (checkStage1Size (.s0AtPs2 aux) (getStage1Meta (.s0AtPs2 aux) m₁)))
  have h₄ := h₃.same _ hmem hio
  exact jc_cases (P := Q) (fun _ => hfail _ (hdone h₄)) fun _ => (hdone h₄).handOff

/-- `exit_error`. -/
theorem exitError_ok (h : Failed aux P k₀ m₀.io r m) (ha : P → Accepts aux m) :
    (step aux (.exitError, m)).Sat (fun _ => False) (Ends aux P k₀ m₀.io r) := by
  obtain ⟨hmasks, -⟩ := restore_masks aux h.saved
  have hz : (restoreI8042AndPic aux m).mem (ccbSaved aux) = 0 := by
    obtain ⟨a, c, z, e⟩ := restoreI8042AndPic_ok aux m
    rw [e]
    exact released_saved aux m.mem
  have hlevel : lo (0x4C01 : Word) = 1 := by decide
  exact ⟨hlevel, hmasks, fun hp => (restore_restorable aux (h.sound hp) (ha hp)).restored hz⟩

/-- A step keeps what holds at its label, if the controller takes the final
writes wherever `P` says so. -/
theorem step_ok (hl : Listed (.s0AtPs2 aux) m₀.mem) (ccb : Byte) (pending : Option Byte)
    {s : Label × Machine DosState Bus}
    (h : AtLabel aux P ⟨ccb, pending, false⟩ (readAtEntry aux m₀) m₀ s)
    (ha : s.1 ∈ restoring → P → Accepts aux s.2) :
    (step aux s).Sat (fun s' => AtLabel aux P ⟨ccb, pending, false⟩ (readAtEntry aux m₀) m₀ s' ∧
      s'.1.left < s.1.left) (Ends aux P ⟨ccb, pending, false⟩ m₀.io (readAtEntry aux m₀)) := by
  obtain ⟨l, m⟩ := s
  cases l with
  | start =>
    obtain rfl : m = m₀ := h
    exact (start_ok hl ccb pending P).imp (fun _ hs => hs) fun _ hf => hf.elim
  | masteryFail =>
    exact ⟨Held.restored h (ha (show Label.masteryFail ∈ restoring by decide)) true,
      Nat.lt_succ_self 1⟩
  | restoreIfNone =>
    exact ⟨Held.restored h (ha (show Label.restoreIfNone ∈ restoring by decide)) _,
      Nat.lt_succ_self 1⟩
  | tried =>
    refine (tried_ok h).imp (fun s' ⟨hs, hat⟩ => ⟨hat, ?_⟩) fun _ he => he
    rw [hs]
    exact Nat.zero_lt_one
  | exitError =>
    exact (exitError_ok h (ha (show Label.exitError ∈ restoring by decide))).imp
      (fun _ hf => hf.elim) fun _ he => he

end

/-- Stage 0 gives the i8042 and its interrupts back wherever it does not hand
them to Stage 1, and masks them where it does. -/
theorem start_restores (m : Machine DosState Bus) (hl : Listed (.s0AtPs2 aux) m.mem) (ccb : Byte)
    (pending : Option Byte) :
    Ends aux (Accepted aux m) ⟨ccb, pending, false⟩ m.io (readAtEntry aux m) (start aux m) := by
  refine iter_turns (AtLabel aux (Accepted aux m) ⟨ccb, pending, false⟩ (readAtEntry aux m) m) _
    (fun s => s.1.left) (fun s ht hat => ?_) rfl (Nat.lt_succ_self 3)
  exact step_ok hl ccb pending hat fun hr hp => hp s.1 s.2 hr ht

/-- S0_PS2 with a Pico at the first port, and an i8042 with the command byte
65h. -/
def answering : Machine DosState Bus :=
  loaded (.s0AtPs2 true)
    fun i => (0 :: [RSP_OK0, RSP_OK1].flatMap statuses ++ [0, 0, KBC_OBF, 0x65]).getD i 0

theorem answering_read : readAtEntry true answering = some 0x65 := by decide +kernel

theorem answering_restores :
    Ends true (Accepted true answering) ⟨0x65, none, false⟩ ⟨0xB8, 0x8F, answering.io.reads, 0,
      []⟩ (some 0x65) (start true answering) := by
  have h := start_restores true answering (loaded_listed _ _) 0x65 none
  rw [answering_read] at h
  exact h

end VintageKvm.Stage0.AtPs2
