import VintageKvm.Dos.Int21
import VintageKvm.Dos.Stage0.Words
import VintageKvm.Dos.Stage1.Console

/-!
# Stage 0: the search for the Pico

`find_pico_lpt` is the same search in the three programs but for what it does
when none of the candidates answers (`findPico`): it reads and writes the
ports of candidates only, and leaves the base of the one that answered and the
phase it was left in (`findPico_cases`).
-/

namespace VintageKvm.Stage0

open I8086 Machine Dos

variable {ι : Type} [Ports ι]

section

variable (img : Image)

/-- `probe_pico`, in the core `probe_pico_lpt`. -/
def probePico (m : Machine DosState ι) : Machine DosState ι :=
  m |>.movb .al (imm CMD_PROBE0) |> (lpt img).lptSendByte
    |>.movb .al (imm CMD_PROBE1) |> (lpt img).lptSendByte
    |>.movb .al (imm CMD_PROBE2) |> (lpt img).lptSendByte
    |>.movb .al (imm CMD_PROBE3) |> (lpt img).lptSendByte
    |> (lpt img).lptRecvByte |>.jc (·.stc) fun m =>
      m |>.cmpb (·.reg8 .al) (imm RSP_OK0) |>.jnz (·.stc) fun m =>
        m |> (lpt img).lptRecvByte |>.jc (·.stc) fun m =>
          m |>.cmpb (·.reg8 .al) (imm RSP_OK1) |>.jnz (·.stc) (·.clc)

/-- One turn of `.try_probe`. -/
def tryProbe (m : Machine DosState ι) :
    Flow (Machine DosState ι) (Flow (Machine DosState ι) (Machine DosState ι)) :=
  m |>.push (·.cx) |> probePico img |>.pop .cx |>.jnc (.done ∘ .done ∘ (·.clc)) .next

/-- One turn of `.next_port`. -/
def nextPort (notFound : Machine DosState ι → Machine DosState ι) (m : Machine DosState ι) :
    Flow (Machine DosState ι) (Machine DosState ι) :=
  m |>.lodsw |>.orw .ax (·.ax) |>.jz (.done ∘ notFound) fun m =>
    m |>.stw (imm (lptBase img)) (·.ax) |> (lpt img).initLptControl |>.mov .cx (imm PROBE_RETRIES)
      |>.loopE (tryProbe img) .next

/-- `find_pico_lpt`, with `notFound` at `.not_found`. -/
def findPico (notFound : Machine DosState ι → Machine DosState ι) (m : Machine DosState ι) :
    Machine DosState ι :=
  m |>.mov .si (imm (lptCandidates img)) |> iter (nextPort img notFound) notFound 65536

omit [Ports ι] in
/-- `print_base`. -/
def printBase (m : Machine DosState ι) : Machine DosState ι :=
  m |> Stage1.putsMsg (msgBasePrefix img) |>.mov .ax (·.word (lptBase img)) |> Stage1.printHex16
    |> Stage1.putsMsg (msgCrlf img)

omit [Ports ι] in
theorem printBase_ok (m : Machine DosState ι) : ∃ a s c z con,
    printBase img m =
      { m with ax := a, si := s, cf := c, zf := z, dos := { m.dos with con := con } } := by
  have hprefix := Stage1.putsMsg_ok (msgBasePrefix img) m
  obtain ⟨c, z, con, e⟩ :=
    Stage1.printHex16_ok (Stage1.putsMsg (msgBasePrefix img) m |>.mov .ax (·.word (lptBase img)))
  rw [printBase, e, Stage1.putsMsg_ok, hprefix]
  exact ⟨_, _, c, z, _, rfl⟩

/-- The ports in `lpt_candidates`. -/
def lptPorts : List Word := [0x3BC, 0x378, 0x278]

/-- The image is loaded: `lpt_candidates` is what it was assembled with. -/
structure Listed (mem : Mem) : Prop where
  ports : ∀ k, (h : k < 3) →
    mem.word (lptCandidates img + BitVec.ofNat 16 (2 * k)) = lptPorts.get ⟨k, h⟩
  last : mem.word (lptCandidates img + 6) = 0

/-- The program as DOS has loaded it, on ports that read `reads`. DOS refuses
whatever it is asked for. -/
def loaded (reads : Nat → Byte) : Machine DosState Bus where
  ax := 0
  bx := 0
  cx := 0
  dx := 0
  si := 0
  di := 0
  cs := 0
  ds := 0
  es := 0
  cf := false
  zf := false
  stk := []
  mem := Mem.store (fun _ => 0) (lptCandidates img) [0xBC, 0x03, 0x78, 0x03, 0x78, 0x02, 0x00, 0x00]
  got := []
  dos := ⟨fun _ => none, fun _ => none, [], [], 0, 0, 0,
    fun _ => ⟨true, 0, 0, 0, 0, ⟨fun _ => 0, 0, 0, 0, 0, 0, 0, 0, 0⟩⟩, 0⟩
  io := ⟨0xB8, 0x8F, reads, 0, []⟩

theorem loaded_listed (reads : Nat → Byte) : Listed img (loaded img reads).mem := by
  show Listed img
    (Mem.store (fun _ => 0) (lptCandidates img) [0xBC, 0x03, 0x78, 0x03, 0x78, 0x02, 0x00, 0x00])
  cases img with
  | s0Xt => exact ⟨by decide +kernel, by decide +kernel⟩
  | s0AtPs2 aux => cases aux <;> exact ⟨by decide +kernel, by decide +kernel⟩

/-- The variables of the search. -/
def searchVars : List Region := [⟨lptBase img, 2⟩, ⟨lastPhase img, 1⟩]

/-- The ports of the candidates. -/
def candidatePorts (p : Word) : Prop := ∃ base ∈ lptPorts, LptNibble.pumpPorts base p

/-- The search has come from `m` to `m'`. -/
structure Sought (m m' : Machine DosState ι) : Prop where
  mem : Frame (searchVars img) m.mem m'.mem
  link : Drives candidatePorts m.io m'.io

/-- With a candidate under probe, and the next one at `si`. -/
structure Probing (si : Word) (m m' : Machine DosState ι) : Prop extends Sought img m m' where
  base : m'.mem.word (lptBase img) ∈ lptPorts
  phase : IsPhase (m'.mem (lastPhase img))
  si : m'.si = si

end

section

variable {img : Image} {si : Word} {m m' m₁ : Machine DosState ι}

/-- Polling leaves one of the two phases. -/
theorem pollByte_isPhase {p : Word} {ph : Byte} {io : ι} (hph : IsPhase ph) :
    IsPhase (LptNibble.pollByte p ph io).2.1 := by
  rw [LptNibble.pollByte]
  split
  · exact hph
  · split
    · exact isPhase_and _
    · exact isPhase_and _

namespace Probing

/-- Other registers. -/
theorem same (h : Probing img si m m') (hm : m₁.mem = m'.mem) (hio : m₁.io = m'.io)
    (hsi : m₁.si = m'.si) : Probing img si m m₁ :=
  ⟨⟨hm ▸ h.mem, hio ▸ h.link⟩, hm ▸ h.base, hm ▸ h.phase, hsi.trans h.si⟩

theorem drives (h : Probing img si m m') {io : ι}
    (hd : Drives (LptNibble.pumpPorts (m'.mem.word (lptBase img))) m'.io io) :
    Drives candidatePorts m.io io :=
  h.link.trans (hd.mono fun _ hp => ⟨_, h.base, hp⟩)

/-- The variable of the phase is not the base. -/
theorem base_set {mem : Mem} (h : mem.word (lptBase img) ∈ lptPorts) (ph : Byte) :
    (mem.set (lastPhase img) ph).word (lptBase img) ∈ lptPorts := by
  rw [← lpt_lastPhase]
  exact ((lpt img).word_lptBase_set mem ph).symm ▸ h

theorem phase_set (mem : Mem) {ph : Byte} (h : IsPhase ph) :
    IsPhase ((mem.set (lastPhase img) ph) (lastPhase img)) := by
  rwa [Mem.set_self]

theorem send (h : Probing img si m m') : Probing img si m ((lpt img).lptSendByte m') := by
  obtain ⟨c, z, io, e, hd⟩ := (lpt img).lptSendByte_drives m'
  rw [e]
  exact ⟨⟨h.mem, h.drives hd⟩, h.base, h.phase, h.si⟩

theorem recv (h : Probing img si m m') : Probing img si m ((lpt img).lptRecvByte m') := by
  let port := m'.mem.word (lptBase img) + LPT_STATUS
  have hd := LptNibble.pollByte_drives (LptNibble.pumpPorts (m'.mem.word (lptBase img))) port
    (m'.mem (lastPhase img)) m'.io
  have hph : IsPhase (LptNibble.pollByte port (m'.mem (lastPhase img)) m'.io).2.1 :=
    pollByte_isPhase h.phase
  generalize hpoll : LptNibble.pollByte port (m'.mem (lastPhase img)) m'.io = r at hd hph
  obtain ⟨b, ph, io⟩ := r
  rw [← lpt_lastPhase] at hpoll
  obtain ⟨a, z, e, -⟩ := (lpt img).lptRecvByte_ok m' hpoll
  rw [e, lpt_lastPhase]
  exact ⟨⟨h.mem.setVar ph (by simp [searchVars]), h.drives hd⟩, base_set h.base ph,
    phase_set _ hph, h.si⟩

/-- `init_lpt_control` with the base of a candidate. -/
theorem init (h : Sought img m m') (hb : m'.mem.word (lptBase img) ∈ lptPorts) :
    Probing img m'.si m ((lpt img).initLptControl m') := by
  obtain ⟨a, d, z, c, e⟩ := (lpt img).initLptControl_ok m'
  rw [e, lpt_lastPhase]
  refine ⟨⟨h.mem.setVar _ (by simp [searchVars]), ?_⟩, base_set hb _,
    phase_set _ (isPhase_and _), rfl⟩
  refine (h.link.tail (.out _ _ ?_)).tail (.inp _ _)
  exact ⟨_, hb, .inr rfl⟩

/-- An answer is taken, and if it is as it should be the rest follows. -/
theorem answer (h : Probing img si m m') {rsp : Byte}
    {next : Machine DosState ι → Machine DosState ι}
    (hnext : ∀ {m'}, Probing img si m m' → Probing img si m (next m')) : Probing img si m
      ((lpt img).lptRecvByte m' |>.jc (·.stc) fun m => m |>.cmpb (·.reg8 .al) (imm rsp)
        |>.jnz (·.stc) next) := by
  have h₁ := h.recv
  generalize (lpt img).lptRecvByte m' = m₁ at h₁ ⊢
  refine jc_cases (fun _ => h₁.same rfl rfl rfl) fun _ => ?_
  exact jnz_cases (fun _ => h₁.same rfl rfl rfl) fun _ => hnext (h₁.same rfl rfl rfl)

theorem probe (h : Probing img si m m') : Probing img si m (probePico img m') := by
  have hsend : ∀ {m'} (b : Byte), Probing img si m m' →
      Probing img si m ((lpt img).lptSendByte (m'.movb .al (imm b))) :=
    fun {m'} b h => (show Probing img si m (m'.movb .al (imm b)) from h.same rfl rfl rfl).send
  have h₁ := hsend CMD_PROBE3 <| hsend CMD_PROBE2 <| hsend CMD_PROBE1 <| hsend CMD_PROBE0 h
  exact h₁.answer fun h₂ => h₂.answer fun h₃ => h₃.same rfl rfl rfl

/-- The tries of one candidate. -/
theorem tries (h : Probing img si m m') : (loopE (tryProbe img) .next m').Sat (Probing img si m)
    (fun m₁ => Probing img si m m₁ ∧ m₁.cf = false) := by
  let Q : Flow (Machine DosState ι) (Machine DosState ι) → Prop := fun f =>
    f.Sat (Probing img si m) (fun m₁ => Probing img si m m₁ ∧ m₁.cf = false)
  refine loopE_keeps (Probing img si m) Q (fun _ _ h => h.same rfl rfl rfl) (fun m₁ h₁ => ?_)
    (fun m₁ h₁ => show Q (.next m₁) from h₁) h
  have h₂ := (show Probing img si m (m₁.push (·.cx)) from h₁.same rfl rfl rfl).probe
  exact jnc_cases (P := Flow.Sat _ Q) (fun _ => ⟨h₂.same rfl rfl rfl, rfl⟩)
    fun _ => h₂.same rfl rfl rfl

end Probing

theorem candidates_apart (img : Image) : ∀ k < 4, ∀ r ∈ searchVars img,
    ¬ r.Has (lptCandidates img + BitVec.ofNat 16 (2 * k)) ∧
    ¬ r.Has (lptCandidates img + BitVec.ofNat 16 (2 * k) + 1) := by
  cases img with
  | s0Xt => decide +kernel
  | s0AtPs2 aux => cases aux <;> decide +kernel

/-- Before candidate `k` is taken. -/
def Seeking (img : Image) (m : Machine DosState ι) (m' : Machine DosState ι) : Prop :=
  ∃ k < 4, Sought img m m' ∧ m'.si = lptCandidates img + BitVec.ofNat 16 (2 * k)

/-- The search ends with a candidate that answered, or at `.not_found`. -/
theorem findPico_cases (hl : Listed img m.mem) {notFound : Machine DosState ι → Machine DosState ι}
    {P : Machine DosState ι → Prop} (hnone : ∀ m', Sought img m m' → P (notFound m'))
    (hfound : ∀ m', Sought img m m' → m'.mem.word (lptBase img) ∈ lptPorts →
      IsPhase (m'.mem (lastPhase img)) → m'.cf = false → P m') :
    P (findPico img notFound m) := by
  have h0 : Seeking img m (m.mov .si (imm (lptCandidates img))) :=
    ⟨0, by decide, ⟨.refl _ _, .refl⟩, (BitVec.add_zero _).symm⟩
  refine iter_keeps (Seeking img m) P
    (fun m' ⟨k, hk, h, hsi⟩ => ?_) (fun m' ⟨_, _, h, _⟩ => hnone m' h) _ _ h0
  have hword : m'.mem.word m'.si = m.mem.word (lptCandidates img + BitVec.ofNat 16 (2 * k)) := by
    rw [hsi]
    exact h.mem.word (fun r hr => (candidates_apart img k hk r hr).1)
      fun r hr => (candidates_apart img k hk r hr).2
  have hnext : m'.si + 2 = lptCandidates img + BitVec.ofNat 16 (2 * (k + 1)) := by
    rw [hsi, BitVec.add_assoc]
    congr 1
    bv_omega
  refine jz_cases (P := Flow.Sat (Seeking img m) P) (fun _ => hnone _ ⟨h.mem, h.link⟩) fun hz => ?_
  have hne : m'.mem.word m'.si ||| m'.mem.word m'.si ≠ 0 := of_decide_eq_false hz
  rw [BitVec.or_self, hword] at hne
  have hk₃ : k < 3 := by
    refine lt_of_le_of_ne (Nat.le_of_lt_succ hk) fun e => hne ?_
    rw [e]
    exact hl.last
  let m₂ : Machine DosState ι := m'.lodsw |>.orw .ax (·.ax) |>.stw (imm (lptBase img)) (·.ax)
  have h₂ : Sought img m m₂ := ⟨h.mem.setWordVar _ (by simp [searchVars]), h.link⟩
  have hbase : m₂.mem.word (lptBase img) ∈ lptPorts := by
    show (m'.mem.setWord (lptBase img) (m'.mem.word m'.si ||| m'.mem.word m'.si)).word _ ∈ lptPorts
    rw [Mem.word_setWord, BitVec.or_self, hword, hl.ports k hk₃]
    exact List.get_mem _ _
  have ht : Probing img m₂.si m (((lpt img).initLptControl m₂).mov .cx (imm PROBE_RETRIES)) :=
    (Probing.init h₂ hbase).same rfl rfl rfl
  exact ht.tries.imp (fun m₁ h₁ => ⟨k + 1, by omega, h₁.toSought, h₁.si.trans hnext⟩)
    fun m₁ h₁ => hfound m₁ h₁.1.toSought h₁.1.base h₁.1.phase h₁.2

end

end VintageKvm.Stage0
