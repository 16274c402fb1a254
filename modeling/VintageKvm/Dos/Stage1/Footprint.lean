import VintageKvm.Dos.Stage1.Environment
import VintageKvm.Dos.Stage1.Start

/-!
# Stage 1: what a run writes to

Below the end of the block that Stage 1 keeps for itself, a run of `start`
writes to the variables and the three buffers only, however it ends and
whatever the peer, DOS and the child do (`start_footprint`): the code, the
messages and the strings stay as they were loaded. So the environment that
Stage 2 finds names the port and the channels of the hand-off
(`start_environment`).
-/

namespace VintageKvm.Stage1

open I8086 Machine Dos

variable {ι : Type} {rs rs' : List Region} {mem mem' mem'' : Mem}

/-! ## Regions -/

/-- Below the end of the kept block, `mem'` agrees with `mem` outside `rs`. -/
def Spares (rs : List Region) (mem mem' : Mem) : Prop :=
  ∀ x : Word, x.toNat < 0x3000 → (∀ r ∈ rs, ¬ r.Has x) → mem' x = mem x

theorem Spares.frame (h : Frame rs mem mem') : Spares rs mem mem' := fun x _ hx => h x hx

theorem Spares.trans (h₁ : Spares rs mem mem') (h₂ : Spares rs mem' mem'') :
    Spares rs mem mem'' := fun x hl hx =>
  (h₂ x hl hx).trans (h₁ x hl hx)

theorem Spares.mono (h : Spares rs mem mem') (hs : ∀ r ∈ rs, r ∈ rs') :
    Spares rs' mem mem' := fun x hl hx =>
  h x hl fun r hr => hx r (hs r hr)

/-- Every region lies in one of the new ones. -/
def Covered (rs rs' : List Region) : Prop :=
  ∀ r ∈ rs, ∃ r' ∈ rs', (r.base - r'.base).toNat + r.len ≤ r'.len

instance (rs rs' : List Region) : Decidable (Covered rs rs') :=
  inferInstanceAs (Decidable (∀ r ∈ rs, _))

theorem Covered.frame (h : Covered rs rs') (hf : Frame rs mem mem') : Frame rs' mem mem' := hf.widen
  fun r hr => by
  obtain ⟨r', hr', hle⟩ := h r hr
  exact ⟨r', hr', Region.sub_of_le hle⟩

/-- The strings are not in the regions. -/
def Clear (rs : List Region) : Prop := ∀ p ∈ strings, ∀ r ∈ rs,
  p.2.length + 1 ≤ (r.base - p.1).toNat ∧ r.len ≤ (p.1 - r.base).toNat

instance (rs : List Region) : Decidable (Clear rs) := inferInstanceAs (Decidable (∀ p ∈ strings, _))

theorem strings_short : ∀ p ∈ strings, p.2.length + 1 ≤ 65536 := by decide

theorem Assembled.frame (ha : Assembled mem) (hf : Frame rs mem mem') (hc : Clear rs) :
    Assembled mem' := fun p hp =>
  (hf.bytes (strings_short p hp) fun r hr => Region.apart_of_le (hc p hp r hr).1
    (hc p hp r hr).2).trans (ha p hp)

theorem Assembled.named (ha : Assembled mem) : Named mem :=
  (ha (stage2Filename, pathText) (by decide)).trans (by decide)

/-! ## The end of the program -/

/-- However the program ends, `P` holds then. -/
def Ends (P : Machine DosState ι → Prop) : Outcome ι → Prop
  | .exited _ m => P m
  | .wild m => P m

theorem Ends.imp {P Q : Machine DosState ι → Prop} {o : Outcome ι} (h : Ends P o)
    (hpq : ∀ m, P m → Q m) : Ends Q o := by
  cases o with
  | exited _ m => exact hpq m h
  | wild m => exact hpq m h

theorem ret_ends {P : Machine DosState ι → Prop} {a : Word} {next : Machine DosState ι → Outcome ι}
    {m : Machine DosState ι} (hm : P m) (hn : Ends P (next { m with stk := m.stk.tail })) :
    Ends P (ret a next m) := by
  unfold ret
  split
  · exact hn
  · exact hm

theorem int21Resize_mem (m : Machine DosState ι) : (int21Resize m).mem = m.mem := by
  unfold int21Resize
  dsimp only
  split
  · rfl
  · split <;> rfl

theorem int21Exec_spares (m : Machine DosState ι) (hp : m.dos.paras * 16 = 0x3000) :
    Spares [] m.mem (int21Exec m).mem := by
  intro x hx _
  cases hcf : m.dos.reply.cf with
  | false => exact (int21Exec_executed m hcf).2.2.2 x (by omega)
  | true =>
    unfold int21Exec
    rw [if_pos hcf]

theorem exitcode_mem (m : Machine DosState ι) : (execStage2.exitcode m).mem = m.mem := by
  let m₁ : Machine DosState ι := m |>.popEs |>.popDs
  have h₁ : int21 (m₁.movb .ah (imm DOS_GET_EXITCODE)) =
      int21GetExitcode (m₁.movb .ah (imm DOS_GET_EXITCODE)) :=
    int21_getExitcode (hi_ofBytes _ _)
  show (m₁.jc execStage2.fail fun m => m |>.movb .ah (imm DOS_GET_EXITCODE) |> int21 |>.clc).mem = _
  refine jc_cases (P := fun m' : Machine DosState ι => m'.mem = m.mem) (fun _ => rfl) fun _ => ?_
  rw [h₁]
  rfl

/-- Resizing, the call and the child keep what Stage 1 keeps, the parameter
block apart. -/
theorem execStage2_spares (m : Machine DosState ι) :
    Spares paramVars m.mem (execStage2 (m.push (imm execReturn))).mem := by
  cases hcf : (m.dos.ask m.dos.asked).cf with
  | false =>
    rw [execStage2_resized m hcf, exitcode_mem]
    refine Spares.trans (.frame <| execParams_frame m.cs m.mem) fun x hx _ => ?_
    exact int21Exec_spares (execCall m) (execCall_kept m) x hx fun _ h => absurd h List.not_mem_nil
  | true =>
    let m₁ : Machine DosState ι := { m with
      ax := ofBytes DOS_RESIZE (lo m.ax), bx := EXEC_RESIZE_PARAS, es := m.cs,
      stk := m.es :: execReturn :: m.stk }
    have h₁ : int21 m₁ = int21Resize m₁ := int21_resize (hi_ofBytes _ _)
    have hc : (int21Resize m₁).popEs.cf = true := by
      unfold int21Resize
      rw [if_neg (not_not.mpr rfl), if_pos (show m₁.dos.reply.cf = true from hcf)]
      rfl
    have e : execStage2 (m.push (imm execReturn)) =
        (int21 m₁).popEs.jc execStage2.fail (execStage2.exitcode ∘ int21 ∘ execStage2.params) := rfl
    rw [e, h₁, jc_pos hc]
    intro x _ _
    exact congrFun (int21Resize_mem m₁) x

theorem callExec_spares (m : Machine DosState ι) :
    Ends (Spares paramVars m.mem ·.mem) (callExec m) := by
  have h := execStage2_spares m
  refine ret_ends h (jc_cases (P := Ends (Spares paramVars m.mem ·.mem)) (fun _ => ?_) fun _ => h)
  unfold callExec.execFailed
  rw [putsMsg_ok]
  exact h

/-- What Stage 1 writes to between the download and the call of `EXEC`. -/
def environVars : List Region := ⟨ENV_BUF_OFF, 128⟩ :: paramVars

/-- What follows the download writes to the environment and the parameter block. -/
theorem afterDownload_spares (m : Machine DosState ι) (ha : Assembled m.mem) :
    Ends (Spares environVars m.mem ·.mem) (afterDownload m) := by
  refine jc_cases (P := Ends (Spares environVars m.mem ·.mem)) (fun _ => ?_) fun _ => ?_
  · unfold noStage2
    rw [putsMsg_ok]
    exact fun _ _ _ => rfl
  · have hbuild : Spares environVars m.mem (buildEnvironment m).mem :=
      .frame <| (buildEnvironment_frame m ha).mono
        fun r hr => List.mem_singleton.mp hr ▸ List.mem_cons_self
    exact (callExec_spares (buildEnvironment m)).imp
      fun m' h => hbuild.trans (h.mono fun r hr => List.mem_cons_of_mem _ hr)

/-! ## The run -/

/-- What Stage 1 writes to between the hand-off and the end of the download:
the pump's variables in the code, its own, and the two buffers. -/
def runVars : List Region := [⟨lptBase, 3⟩, ⟨ecrSaved, 5⟩, ⟨currentPump, 37⟩, ⟨TX_BUF_OFF, 512⟩]

/-- What a run of Stage 1 writes to. -/
def ownVars : List Region := saved ++ runVars ++ environVars

variable [Ports ι]

theorem restoreIrqStateIfMasked_mem (m : Machine DosState ι) :
    (restoreIrqStateIfMasked m).mem = m.mem := by
  let Q : Machine DosState ι → Prop := fun m' => m'.mem = m.mem
  exact jz_cases (P := Q) (fun _ => rfl) fun _ => jz_cases (P := Q) (fun _ => rfl) fun _ => rfl

theorem failHandoff_ends (m : Machine DosState ι) : Ends (·.mem = m.mem) (failHandoff m) := by
  show (restoreIrqStateIfMasked (puts (m.mov .si (imm msgErrHandoff)))).mem = m.mem
  rw [restoreIrqStateIfMasked_mem, puts_ok]
  rfl

/-- From the hand-off to the end of the download. -/
theorem download_frame (m : Machine DosState ι) (ha : Assembled m.mem) :
    Frame runVars m.mem (m |> bringUp |> preflight |> downloadStage2).mem := by
  let m₁ : Machine DosState ι := bringUp m
  let m₂ : Machine DosState ι := capHandshake m₁
  let m₃ : Machine DosState ι := pumpStressTest m₂
  obtain ⟨bs, hs, -⟩ := capHandshake_ok m₁
  have h₁ : Frame runVars m.mem m₁.mem := Covered.frame (by decide) (bringUp_ok m).mem
  have h₂ : Frame runVars m.mem m₂.mem := h₁.trans (Covered.frame (by decide) hs.keeps.mem)
  have h₃ : Frame runVars m.mem m₃.mem :=
    h₂.trans (Covered.frame (by decide) (pumpStressTest_keeps m₂).mem)
  exact h₃.trans (Covered.frame (by decide)
    (downloadStage2_within m₃ (ha.frame h₃ (by decide)).named).mem)

/-- What has come of a valid hand-off when the download ends. -/
structure Reached (m m' : Machine DosState ι) : Prop where
  run : start m = afterDownload m'
  mem : Frame (saved ++ runVars) m.mem m'.mem
  bx : m'.mem.word savedBx = m.bx
  dx : m'.mem.word savedDx = m.dx

theorem start_reached (m : Machine DosState ι) (ha : Assembled m.mem) (hv : ValidHandoff m) :
    ∃ m', Reached m m' := by
  let m₁ : Machine DosState ι := m |> snapshot |> validateHandoff
  have hs := snapshot_ok m
  obtain ⟨hstill, hvalid⟩ := validateHandoff_ok hs
  have hmem : Frame saved m.mem m₁.mem := hstill.mem.symm ▸ hs.mem
  have h := download_frame m₁ (ha.frame hmem (by decide))
  have hbx : m₁.mem.word savedBx = m.bx := (congrArg (Mem.word · savedBx) hstill.mem).trans hs.bx
  have hdx : m₁.mem.word savedDx = m.dx := (congrArg (Mem.word · savedDx) hstill.mem).trans hs.dx
  exact ⟨_, jc_neg (hvalid.mpr hv), (hmem.mono (by decide)).trans (h.mono (by decide)),
    (h.word (by decide) (by decide)).trans hbx, (h.word (by decide) (by decide)).trans hdx⟩

/-- Whatever comes over the ports, and whatever DOS and the child do: the run
writes to the program's variables and buffers only. -/
theorem start_footprint (m : Machine DosState ι) (ha : Assembled m.mem) :
    Ends (Spares ownVars m.mem ·.mem) (start m) := by
  by_cases hv : ValidHandoff m
  · obtain ⟨m', h⟩ := start_reached m ha hv
    have hmem : Spares ownVars m.mem m'.mem :=
      .frame <| h.mem.mono fun r hr => List.mem_append_left _ hr
    rw [h.run]
    exact (afterDownload_spares m' (ha.frame h.mem (by decide))).imp fun _ he =>
      hmem.trans (he.mono fun r hr => List.mem_append_right _ hr)
  · let m₁ : Machine DosState ι := m |> snapshot |> validateHandoff
    obtain ⟨hstill, hvalid⟩ := validateHandoff_ok (snapshot_ok m)
    have hcf : m₁.cf = true := by
      rw [← Bool.not_eq_false]
      exact fun h => hv (hvalid.mp h)
    have hmem : Frame saved m.mem m₁.mem := hstill.mem.symm ▸ (snapshot_ok m).mem
    rw [show start m = failHandoff m₁ from jc_pos hcf]
    exact (failHandoff_ends m₁).imp fun m' e => .frame <| e ▸ hmem.mono (by decide)

/-- A hand-off over a parallel port, the strings in memory. -/
def lptHandoff : Machine DosState Bus := { kbdOnly with
  ax := HANDOFF_MARKER, bx := 0x378, cx := 0x4000, dx := 1
  mem := strings.foldl (fun mem p => mem.store p.1 (p.2.map ascii ++ [0])) fun _ => 0 }

theorem lptHandoff_assembled : Assembled lptHandoff.mem := by decide +kernel

theorem start_footprint_lptHandoff :
    Ends (Spares ownVars lptHandoff.mem ·.mem) (start lptHandoff) :=
  start_footprint lptHandoff lptHandoff_assembled

/-- Of a valid hand-off: either Stage 2 is not run, or its environment names
the port and the channels that were handed over. -/
theorem start_environment (m : Machine DosState ι) (ha : Assembled m.mem) (hv : ValidHandoff m) :
    ∃ m₁, start m = afterDownload m₁ ∧
    let m' := execCall (buildEnvironment m₁)
    m'.mem.word execParamEnvSeg = m₁.cs + ENV_BUF_PARAS ∧
    ENV_BUF_OFF.toNat = 16 * ENV_BUF_PARAS.toNat ∧
    ∃ value path, readEnviron (m'.mem.bytes ENV_BUF_OFF 0x800) = ([value], path) ∧
      chars path = pathText ∧
      readBoot (chars value) = some (m.bx.toNat, (modeName (m₁.mem negotiatedMode)).2, m.dx.toNat,
        (m₁.mem picoVersionMajor).toNat, (m₁.mem picoVersionMinor).toNat) := by
  obtain ⟨m', h⟩ := start_reached m ha hv
  have he := environment_read m' (ha.frame h.mem (by decide))
  rw [h.bx, h.dx] at he
  exact ⟨m', h.run, he⟩

theorem start_environment_lptHandoff : ∃ m₁, start lptHandoff = afterDownload m₁ ∧
    ∃ value path, readEnviron ((execCall (buildEnvironment m₁)).mem.bytes ENV_BUF_OFF 0x800) =
      ([value], path) ∧
      readBoot (chars value) = some (0x378, (modeName (m₁.mem negotiatedMode)).2, 1,
        (m₁.mem picoVersionMajor).toNat, (m₁.mem picoVersionMinor).toNat) := by
  obtain ⟨m₁, hrun, -, -, value, path, he, -, hb⟩ :=
  start_environment lptHandoff lptHandoff_assembled (by decide)
  exact ⟨m₁, hrun, value, path, he, hb⟩

end VintageKvm.Stage1
