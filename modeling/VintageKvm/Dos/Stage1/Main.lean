import VintageKvm.Dos.Stage1.CapRsp
import VintageKvm.Dos.Stage1.Exec
import VintageKvm.Dos.Stage1.Stress

/-!
# Stage 1: from the handshake to the exit

The main sequence from `cap_handshake` on. What the download leaves is the
whole image or no file, and only the former is run
(`download_allOrNothing`). The carry flag of the handshake is dropped, so
whether there is a download depends on what the handshake left in the size
(`gated_iff`).
-/

namespace VintageKvm.Stage1

open I8086 Machine Dos Protocol

variable {ι : Type} [Pump ι]

/-- `.no_stage2`. -/
def noStage2 (m : Machine DosState ι) : Outcome ι :=
  m |> putsMsg msgNoStage2 |>.mov .ax (imm 0x4C01) |> int21Exit

/-- `start` after `download_stage2`. -/
def afterDownload (m : Machine DosState ι) : Outcome ι :=
  m.jc noStage2 fun m => m |> buildEnvironment |> callExec

/-- `start` up to the download: the handshake and the stress test. -/
def preflight (m : Machine DosState ι) : Machine DosState ι := m |> capHandshake |> pumpStressTest

/-- `start` from `cap_handshake` on. -/
def fromHandshake (m : Machine DosState ι) : Outcome ι :=
  m |> preflight |> downloadStage2 |> afterDownload

/-! ## All or nothing -/

/-- DOS was asked to create Stage 2's file, and did or did not. -/
def Asked (created : Bool) (m m' : Machine DosState ι) : Prop :=
  ∃ calls, m'.dos.calls = m.dos.calls ++ .create stage2Name created :: calls

/-- What a download leaves: the whole image in the file, or no file. -/
structure AllOrNothing (m m' : Machine DosState ι) : Prop where
  complete : m'.cf = false → ∃ got image, m'.got = m.got ++ got ∧
    Fetched (imageSize m) ((imageSize m + 63) / 64) got image ∧
    image.length = imageSize m ∧ m'.dos.files stage2Name = some image ∧
    crc32 image = m.mem.dword stage2ImageCrc32
  undone : m'.cf = true → Asked true m m' → m'.dos.files stage2Name = none

/-- The program ended with errorlevel 1, and no other program was run, nor
memory given back for one. -/
def Unexecuted (m : Machine DosState ι) (o : Outcome ι) : Prop :=
  ∃ m', o = .exited 1 m' ∧ m'.dos.paras = m.dos.paras ∧
  ∃ calls, m'.dos.calls = m.dos.calls ++ calls ∧ ∀ name ok, .exec name ok ∉ calls

variable [LawfulPump ι]

theorem toNat_blocks {size : DWord} (h : SizeOk size) :
    (blockCount size).toNat = (size.toNat + 63) / 64 := by
  have hle : size.toNat ≤ 200000 := h.2
  rw [toNat_blockCount]
  omega

theorem downloadStage2_allOrNothing (m : Machine DosState ι) (hn : Named m.mem)
    (hsize : SizeOk (m.mem.dword stage2ImageSize)) : AllOrNothing m (downloadStage2 m) := by
  rcases downloadStage2_ok m hn with ⟨-, hskip⟩ | ⟨-, created, hd⟩
  · obtain ⟨con, asked, ed⟩ := hskip.dos
    refine ⟨fun hc => ?_, fun _ ⟨calls, hcalls⟩ => ?_⟩
    · rw [hskip.cf] at hc
      cases hc
    · rw [ed, List.self_eq_append_right] at hcalls
      cases hcalls
  · have hblocks := toNat_blocks hsize
    refine ⟨fun hc => ?_, fun hc ⟨calls, hcalls⟩ => ?_⟩
    · obtain ⟨got, image, hgot, hfetched, hfile, hcrc⟩ := hd.complete hc
      rw [hblocks] at hfetched
      refine ⟨got, image, hgot, hfetched, ?_, hfile, hcrc⟩
      have hl := hfetched.length
      have hi : imageSize m = (m.mem.dword stage2ImageSize).toNat := rfl
      omega
    · obtain ⟨calls', hcalls', -⟩ := hd.calls
      have he := List.append_cancel_left (hcalls'.symm.trans hcalls)
      injection he with hcreate
      injection hcreate with _ hcreated
      exact hd.failed hcreated hc

/-- A download that fails is the end of the program. -/
theorem downloadStage2_unexecuted (m : Machine DosState ι) (hn : Named m.mem)
    (hcf : (downloadStage2 m).cf = true) : Unexecuted m (afterDownload (downloadStage2 m)) := by
  have hok := downloadStage2_ok m hn
  generalize downloadStage2 m = m' at *
  let m₁ : Machine DosState ι := putsMsg msgNoStage2 m' |>.mov .ax (imm 0x4C01)
  have hs : Still m' m₁ := (Still.refl m').putsMsg.mov
  obtain ⟨con, asked, ed⟩ := hs.dos
  have e : afterDownload m' = .exited 1 m₁ :=
    (jc_pos hcf).trans (congrArg (Outcome.exited · _) (show lo (0x4C01 : Word) = 1 by decide))
  refine ⟨m₁, e, ?_⟩
  rw [ed]
  rcases hok with ⟨-, hskip⟩ | ⟨-, created, hd⟩
  · obtain ⟨con', asked', ed'⟩ := hskip.dos
    rw [ed']
    exact ⟨rfl, [], (List.append_nil _).symm, fun _ _ => List.not_mem_nil⟩
  · obtain ⟨calls, hnew, hfile⟩ := hd.calls
    refine ⟨hd.paras, _, hnew, fun name ok hmem => ?_⟩
    rcases List.mem_cons.mp hmem with h | h
    · cases h
    · exact hfile _ h

/-! ## Before the download -/

/-- What the download finds: the program's name for the file, the size the
handshake left, the pump, and no call of DOS since. -/
structure Preflown (bs : List Byte) (m m' : Machine DosState ι) : Prop where
  shook : Shook bs m (capHandshake m)
  named : Named m.mem → Named m'.mem
  size : m'.mem.dword stage2ImageSize = (capHandshake m).mem.dword stage2ImageSize
  pump : m'.mem currentPump = m.mem currentPump
  dos : DosState.Quiet m.dos m'.dos

theorem preflight_ok (m : Machine DosState ι) : ∃ bs, Preflown bs m (preflight m) := by
  obtain ⟨bs, hs, -⟩ := capHandshake_ok m
  have hk := pumpStressTest_keeps (capHandshake m)
  refine ⟨bs, hs, fun hn => (hn.frame hs.keeps.mem (by decide)).frame hk.mem (by decide),
    hk.mem.dword (by decide), ?_, hs.keeps.dos.trans hk.dos⟩
  exact (hk.mem.byte (by decide)).trans (hs.keeps.mem.byte (by decide))

/-- After a handshake that leaves a size in range, the download leaves all of
the image or no file, and Stage 2 is run only in the first case. -/
theorem download_allOrNothing (m : Machine DosState ι) (hn : Named m.mem)
    (hsize : SizeOk ((capHandshake m).mem.dword stage2ImageSize)) :
    (preflight m).mem.dword stage2ImageSize = (capHandshake m).mem.dword stage2ImageSize ∧
    AllOrNothing (preflight m) (downloadStage2 (preflight m)) ∧
    ((downloadStage2 (preflight m)).cf = true → Unexecuted m (fromHandshake m)) := by
  obtain ⟨bs, hp⟩ := preflight_ok m
  rw [← hp.size] at hsize
  refine ⟨hp.size, downloadStage2_allOrNothing _ (hp.named hn) hsize, fun hcf => ?_⟩
  obtain ⟨m', e, hparas, hcalls⟩ := downloadStage2_unexecuted _ (hp.named hn) hcf
  obtain ⟨con, asked, ed⟩ := hp.dos
  rw [ed] at hparas hcalls
  exact ⟨m', e, hparas, hcalls⟩

/-! ## An answer on its way -/

/-- A handshake to which the link delivers the answer. -/
theorem capHandshake_delivered (m : Machine DosState ι)
    (hmode : m.mem negotiatedMode = NEG_MODE_SPP)
    (hp : m.mem currentPump = PUMP_LPT_SPP) {seq : Byte} {payload : List Byte}
    (hpl : payload.length ≤ MAX_PAYLOAD)
    (hd : Delivers (m.mem.word lptBase) (frame CMD_CAP_RSP seq payload) m.io) :
    Shook (frame CMD_CAP_RSP seq payload) m (capHandshake m) := by
  obtain ⟨bs, hs, hlink⟩ := capHandshake_ok m
  obtain ⟨late, ack, hstops, -, hsteps⟩ := hlink hmode hp
  obtain ⟨hpre, htime⟩ := hd _ _ hsteps
  have hrec : received ((frame CMD_CAP_REQ (m.mem txSeq) []).map .sent ++
      ((bs.map .got ++ if late then [.timeout] else []) ++ ack.map .sent)) = bs := by
    rw [← List.append_assoc, received_append, received_request, received_sent, List.append_nil]
  rw [hrec] at hpre htime
  have hann : announced (frame CMD_CAP_RSP seq payload) = payload.length :=
    announced_frame (Nat.lt_of_le_of_lt hpl (by decide))
  obtain rfl : bs = frame CMD_CAP_RSP seq payload :=
    hstops.eq_packet (by rw [length_frame, hann]; rfl) (hann ▸ hpl) hpre
      fun hl => htime (by rw [hl]; simp)
  exact hs

/-- The payload of an answer that announces an image of this size. -/
def capPayload (size : DWord) : List Byte :=
  [VERSION_MAJOR] ++ List.replicate 27 0 ++ be32 size ++ be32 0

/-- Stage 1 before the handshake, its answer in the link. -/
def asking (size : DWord) : Machine DosState Queue :=
  { answered (frame CMD_CAP_RSP 0 (capPayload size)) with
    mem := ((Mem.store (fun _ => 0) stage2Filename (stage2Name ++ [0])).set currentPump
      PUMP_LPT_SPP).set negotiatedMode NEG_MODE_SPP }

theorem asking_named (size : DWord) : Named (asking size).mem := by
  show Named (asking 0).mem
  unfold Named
  decide

theorem asking_shook (size : DWord) :
    Shook (frame CMD_CAP_RSP 0 (capPayload size)) (asking size) (capHandshake (asking size)) :=
  capHandshake_delivered (asking size) rfl rfl (show 36 ≤ MAX_PAYLOAD by decide)
    (Queue.delivers _ _)

theorem asking_fills (size : DWord) :
    Fills (frame CMD_CAP_RSP 0 (capPayload size)) (capPayload size) :=
  ⟨0, rfl, show 36 ≤ MAX_PAYLOAD by decide, show 36 ≤ 36 from Nat.le_refl 36, rfl⟩

theorem capPayload_size (size : DWord) : beField (capPayload size) 28 = size := beField_be32 _ _ _

theorem download_allOrNothing_six : imageSize (preflight (asking 6)) = 6 ∧
    AllOrNothing (preflight (asking 6)) (downloadStage2 (preflight (asking 6))) := by
  have hsize : (capHandshake (asking 6)).mem.dword stage2ImageSize = 6 :=
    ((asking_shook 6).fills _ (asking_fills 6)).1.trans (capPayload_size 6)
  obtain ⟨hs, hall, -⟩ := download_allOrNothing (asking 6) (asking_named 6) (by rw [hsize]; decide)
  exact ⟨congrArg BitVec.toNat (hs.trans hsize), hall⟩

/-! ## The gate -/

/-- The answer to the handshake is one Stage 1 accepts. -/
def CapAccepted (bs : List Byte) : Prop := ∃ payload, Fills bs payload ∧ SizeOk (beField payload 28)

/-- A size that the handshake refuses and the download takes: its number of
blocks, rounded up in 32 bits, is one of 16 bits. -/
def Unchecked (size : DWord) : Prop :=
  MAX_STAGE2_SIZE < size.toNat ∧ (size.toNat ≤ 4194240 ∨ 4294967233 ≤ size.toNat)

instance (size : DWord) : Decidable (Unchecked size) := inferInstanceAs (Decidable (_ ∧ _))

theorem few_iff (size : DWord) :
    hiW (blockCount size) = 0 ↔ size.toNat ≤ 4194240 ∨ 4294967233 ≤ size.toNat := by
  have hs := size.isLt
  rw [← BitVec.toNat_inj, toNat_hiW, toNat_blockCount]
  show _ = 0 ↔ _
  omega

/-- A size is refused by both or taken by both, or it is unchecked. -/
theorem taken_iff (size : DWord) :
    size ≠ 0 ∧ hiW (blockCount size) = 0 ↔ SizeOk size ∨ Unchecked size := by
  have hz : size = 0 ↔ size.toNat = 0 := ⟨fun h => h ▸ rfl, fun h => BitVec.eq_of_toNat_eq h⟩
  rw [few_iff, SizeOk, Unchecked, MAX_STAGE2_SIZE, Ne, hz]
  omega

omit [Pump ι] [LawfulPump ι] in
theorem Fills.payload_eq {bs payload payload' : List Byte} (h : Fills bs payload)
    (h' : Fills bs payload') : payload' = payload := by
  obtain ⟨seq, rfl, -⟩ := h
  obtain ⟨seq', hf, -⟩ := h'
  exact (frame_payload hf).symm

/-- DOS is asked for the file iff the answer fills the size with one that the
download takes. -/
theorem asked_iff (m : Machine DosState ι) (hn : Named m.mem) (h0 : m.mem.dword stage2ImageSize = 0)
    {bs : List Byte} (hp : Preflown bs m (preflight m)) :
    (∃ created, Asked created m (downloadStage2 (preflight m))) ↔
    ∃ payload, Fills bs payload ∧
    (SizeOk (beField payload 28) ∨ Unchecked (beField payload 28)) := by
  obtain ⟨con, asked, ed⟩ := hp.dos
  have hcalls : (preflight m).dos.calls = m.dos.calls := by rw [ed]
  have hwanted : Wanted (preflight m) ↔ ∃ payload, Fills bs payload ∧
      (SizeOk (beField payload 28) ∨ Unchecked (beField payload 28)) := by
    by_cases hf : ∃ payload, Fills bs payload
    · obtain ⟨payload, hf⟩ := hf
      obtain ⟨hsize, -, -⟩ := hp.shook.fills payload hf
      have hne : bs ≠ [] := by
        rintro rfl
        exact not_fills_nil _ hf
      have hpump : (preflight m).mem currentPump ≠ PUMP_NONE := by
        rw [hp.pump, hp.shook.pump hne]
        decide
      rw [← hp.size] at hsize
      constructor
      · rintro ⟨-, hnz, hfew⟩
        rw [hsize] at hnz hfew
        exact ⟨payload, hf, (taken_iff _).mp ⟨hnz, hfew⟩⟩
      · rintro ⟨payload', hf', htaken⟩
        rw [hf.payload_eq hf', ← hsize] at htaken
        obtain ⟨hnz, hfew⟩ := (taken_iff _).mpr htaken
        exact ⟨hpump, hnz, hfew⟩
    · refine ⟨fun hw => ?_, fun ⟨payload, h, _⟩ => absurd ⟨payload, h⟩ hf⟩
      refine absurd ?_ hw.size
      rw [hp.size, hp.shook.other fun payload h => hf ⟨payload, h⟩, h0]
  rw [← hwanted]
  rcases downloadStage2_ok _ (hp.named hn) with ⟨hno, hskip⟩ | ⟨hw, created, hd⟩
  · refine ⟨fun ⟨created, calls, hc⟩ => ?_, fun hw => absurd hw hno⟩
    obtain ⟨con', asked', ed'⟩ := hskip.dos
    rw [ed', ← hcalls, List.self_eq_append_right] at hc
    cases hc
  · obtain ⟨calls, hc, -⟩ := hd.calls
    exact ⟨fun _ => hw, fun _ => ⟨created, calls, hcalls ▸ hc⟩⟩

/-- The file is created only after an answer Stage 1 accepts, iff no answer
has a size that is not checked. -/
theorem gated_iff (m : Machine DosState ι) (hn : Named m.mem) (h0 : m.mem.dword stage2ImageSize = 0)
    {bs : List Byte} (hgot : (capHandshake m).got = m.got ++ bs) :
    ((∃ created, Asked created m (downloadStage2 (preflight m))) → CapAccepted bs) ↔
      ∀ payload, Fills bs payload → ¬ Unchecked (beField payload 28) := by
  obtain ⟨bs', hp⟩ := preflight_ok m
  obtain rfl : bs' = bs := List.append_cancel_left (hp.shook.got.symm.trans hgot)
  rw [asked_iff m hn h0 hp]
  constructor
  · intro h payload hf hun
    obtain ⟨payload', hf', hok⟩ := h ⟨payload, hf, .inr hun⟩
    rw [hf.payload_eq hf'] at hok
    exact absurd hok.2 (Nat.not_le.mpr hun.1)
  · rintro h ⟨payload, hf, hok | hun⟩
    · exact ⟨payload, hf, hok⟩
    · exact absurd hun (h payload hf)

theorem gated_iff_six :
    (¬ ∃ created, Asked created (asking 6) (downloadStage2 (preflight (asking 6)))) ∨
    CapAccepted (frame CMD_CAP_RSP 0 (capPayload 6)) := by
  rw [← imp_iff_not_or]
  refine (gated_iff (asking 6) (asking_named 6) (by decide) (asking_shook 6).got).mpr
    fun payload hf => ?_
  rw [(asking_fills 6).payload_eq hf, capPayload_size]
  decide

/-- One byte too many: the handshake refuses the answer, and the file is
created. -/
theorem refused_asked :
    (capHandshake (asking 200001)).got = frame CMD_CAP_RSP 0 (capPayload 200001) ∧
    (∃ created, Asked created (asking 200001) (downloadStage2 (preflight (asking 200001)))) ∧
    ¬ CapAccepted (frame CMD_CAP_RSP 0 (capPayload 200001)) := by
  have hs := asking_shook 200001
  obtain ⟨bs, hp⟩ := preflight_ok (asking 200001)
  obtain rfl : bs = _ := List.append_cancel_left (hp.shook.got.symm.trans hs.got)
  have hf := asking_fills 200001
  refine ⟨hs.got, (asked_iff _ (asking_named _) (by decide) hp).mpr ⟨_, hf, .inr ?_⟩, ?_⟩
  · rw [capPayload_size]
    decide
  · rintro ⟨payload, hf', hok⟩
    rw [hf.payload_eq hf', capPayload_size] at hok
    revert hok
    decide

end VintageKvm.Stage1
