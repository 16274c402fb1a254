import VintageKvm.Dos.Stage1.Blocks

/-!
# CAP_RSP from the firmware to Stage 1

The firmware lays the answer to CAP_REQ out in Rust, and Stage 1 takes it
apart in 8086 code. `capRsp_agrees` says that Stage 1 has every field of it,
and accepts exactly the sizes it has room for.
-/

namespace VintageKvm.Stage1

open I8086 Machine Dos Protocol

/-! ## The payload -/

section

variable {σ : Type} [BlockSource σ] (blob : σ) (mode : Byte)

/-- The layout of the payload. -/
theorem buildCapRspPayload_eq : buildCapRspPayload blob mode =
    [VERSION_MAJOR, VERSION_MINOR] ++ List.replicate 21 0 ++ mode :: List.replicate 4 0 ++
      be32 (BitVec.ofNat 32 (BlockSource.totalSize blob)) ++ be32 (BlockSource.crc32 blob) := rfl

theorem beField_be32 (pre post : List Byte) (d : DWord) :
    beField (pre ++ be32 d ++ post) pre.length = d := by
  have hget : ∀ k, k < 4 → (pre ++ be32 d ++ post).getD (pre.length + k) 0 = (be32 d).getD k 0 := by
    intro k hk
    rw [List.append_assoc, List.getD_eq_getElem?_getD,
      List.getElem?_append_right (Nat.le_add_right _ _), Nat.add_sub_cancel_left,
      List.getElem?_append_left (by rwa [length_be32]), ← List.getD_eq_getElem?_getD]
  rw [beField, ← Nat.add_zero pre.length, hget 0 (by omega), Nat.add_zero, hget 1 (by omega),
    hget 2 (by omega), hget 3 (by omega)]
  simp only [be32, be16, List.cons_append, List.nil_append, List.getD_cons_zero,
    List.getD_cons_succ, ofBytes_hi_lo, ofWords_hiW_loW]

theorem capRsp_size :
    beField (buildCapRspPayload blob mode) 28 = BitVec.ofNat 32 (BlockSource.totalSize blob) := by
  rw [buildCapRspPayload_eq]
  exact beField_be32 _ _ _

theorem capRsp_crc : beField (buildCapRspPayload blob mode) 32 = BlockSource.crc32 blob := by
  rw [buildCapRspPayload_eq, ← List.append_nil (_ ++ be32 (BlockSource.crc32 blob))]
  exact beField_be32 _ _ _

theorem length_capRsp : (buildCapRspPayload blob mode).length = 36 := rfl

end

/-! ## The reception -/

section

variable {ι : Type} [Pump ι] [LawfulPump ι]

/-- A string reaches Stage 1 in the run from `m` to `m'`: what was heard is of
the string, and a timeout comes only after the whole of it. -/
def Reaches (fr : List Byte) (m m' : Machine DosState ι) : Prop :=
  ∀ bs late, Heard bs late m m' → (bs <+: fr ∨ fr <+: bs) ∧ (late = true → fr <+: bs)

/-- A link that delivers the string. -/
theorem Delivers.reaches {fr : List Byte} {m : Machine DosState ι}
    (h : Delivers (m.mem.word lptBase) fr m.io) (m' : Machine DosState ι) : Reaches fr m m' := by
  intro bs late hh
  obtain ⟨hpre, htime⟩ := h _ _ hh.link
  have hrec := received_request [] bs late
  rw [List.map_nil, List.nil_append] at hrec
  rw [hrec] at hpre htime
  exact ⟨hpre, fun hl => htime (by rw [hl]; simp)⟩

/-- The reception of a packet ends where the packet does. -/
theorem Stops.eq_packet {bs fr : List Byte} {late : Bool} (h : Stops bs late)
    (hfr : fr.length = announced fr + 8) (hmax : announced fr ≤ MAX_PAYLOAD)
    (hpre : bs <+: fr ∨ fr <+: bs) (hlate : late = true → fr <+: bs) : bs = fr := by
  have hann : 5 ≤ bs.length → announced bs = announced fr := by
    intro h5
    rcases hpre with ⟨t, rfl⟩ | ⟨t, rfl⟩
    · exact (announced_append h5).symm
    · exact announced_append (by omega)
  rcases h with ⟨hl, hs⟩ | ⟨-, ⟨h5, hlong⟩ | hlen⟩
  · have hle := (hlate hl).length_le
    have := hann (by omega)
    omega
  · have := hann h5.ge
    omega
  · have hann' := hann (by omega)
    rcases hpre with hpre | hpre
    · exact hpre.eq_of_length (by omega)
    · exact (hpre.eq_of_length (by omega)).symm

/-- Stage 1 accepts the packet of the firmware's payload, has all its fields,
and accepts them exactly where the size is one it takes. -/
theorem capRsp_agrees {σ : Type} [BlockSource σ] (blob : σ) (mode seq : Byte)
    (m : Machine DosState ι) (hsize : BlockSource.totalSize blob < 2 ^ 32)
    (hp : m.mem currentPump = PUMP_LPT_SPP)
    (hr : Reaches (frame CMD_CAP_RSP seq (buildCapRspPayload blob mode)) m (recvCapRsp m)) :
    (recvCapRsp m).cf = false ∧
    let m' := parseCapRspFields (recvCapRsp m)
    (m'.cf = false ↔ 1 ≤ BlockSource.totalSize blob ∧ BlockSource.totalSize blob ≤ 200000) ∧
    m'.mem picoVersionMajor = VERSION_MAJOR ∧ m'.mem picoVersionMinor = VERSION_MINOR ∧
    m'.mem picoActiveMode = mode ∧
    (m'.mem.dword stage2ImageSize).toNat = BlockSource.totalSize blob ∧
    m'.mem.dword stage2ImageCrc32 = BlockSource.crc32 blob := by
  have hpl : (buildCapRspPayload blob mode).length ≤ MAX_PAYLOAD :=
    (length_capRsp blob mode).trans_le (by decide)
  obtain ⟨bs, late, hh, hstops, hacc, hmem⟩ := recvCapRsp_ok m hp
  obtain ⟨hpre, hlate⟩ := hr bs late hh
  have hann : announced (frame CMD_CAP_RSP seq (buildCapRspPayload blob mode)) =
      (buildCapRspPayload blob mode).length :=
    announced_frame (lt_of_le_of_lt hpl (by decide))
  have hbs : bs = frame CMD_CAP_RSP seq (buildCapRspPayload blob mode) :=
    hstops.eq_packet (by rw [length_frame, hann]; rfl) (hann ▸ hpl) hpre hlate
  have his : IsCapRsp bs := ⟨seq, _, hpl, hbs⟩
  have hbytes := hmem his
  rw [hbs, length_frame] at hbytes
  obtain ⟨-, hparse⟩ := parse_ok (recvCapRsp m) hpl hbytes
  rw [if_pos ⟨(length_capRsp blob mode).ge, rfl⟩, capRsp_size, capRsp_crc] at hparse
  obtain ⟨hs, hc, hmaj, hcf, hmin, hact⟩ := hparse
  have hn : (BitVec.ofNat 32 (BlockSource.totalSize blob)).toNat = BlockSource.totalSize blob := by
    rw [BitVec.toNat_ofNat, Nat.mod_eq_of_lt hsize]
  rw [SizeOk, hn] at hcf
  exact ⟨hacc.mpr his, hcf, hmaj, hmin, hact, by rw [hs, hn], hc⟩

end

/-! ## A queue for a link -/

/-- A link on which the bytes to receive wait. -/
structure Queue where
  bytes : List Byte

namespace Queue

instance : Pump Queue where
  lptSendByte m := m
  lptRecvByte m :=
    match m.io.bytes with
    | [] => m.stc
    | b :: bs => { m with ax := ofBytes (hi m.ax) b, cf := false, got := m.got ++ [b], io := ⟨bs⟩ }

instance : LawfulPump Queue where
  Step _ ev io io' :=
    match ev with
    | .sent _ => io' = io
    | .got b => io.bytes = b :: io'.bytes
    | .timeout => io.bytes = [] ∧ io' = io
  send_ok m := ⟨m.cf, m.zf, m.io, rfl, rfl⟩
  recv_ok m := by
    obtain ⟨ax, bx, cx, dx, si, di, cs, ds, es, cf, zf, stk, mem, got, dos, ⟨bytes⟩⟩ := m
    cases bytes with
    | nil => exact .inr ⟨ax, zf, mem lastPhase, ⟨[]⟩, by rw [Mem.set_eq_self]; rfl, rfl, rfl⟩
    | cons b bs =>
      refine .inl ⟨ofBytes (hi ax) b, zf, mem lastPhase, ⟨bs⟩, ?_, ?_⟩
      · rw [Mem.set_eq_self, lo_ofBytes]
        rfl
      · rw [lo_ofBytes]

theorem received_append {base : Word} {evs : List Ev} {io io' : Queue} (h : Steps base evs io io') :
    received evs ++ io'.bytes = io.bytes ∧ (.timeout ∈ evs → io'.bytes = []) := by
  induction h with
  | nil io => exact ⟨rfl, fun h => absurd h List.not_mem_nil⟩
  | @cons ev evs io₁ io₂ io₃ hstep _ ih =>
    obtain ⟨hrec, htime⟩ := ih
    cases ev with
    | sent b =>
      obtain rfl : io₂ = io₁ := hstep
      exact ⟨hrec, fun h => htime ((List.mem_cons.mp h).resolve_left (by simp))⟩
    | got b =>
      have hb : io₁.bytes = b :: io₂.bytes := hstep
      exact ⟨by rw [hb, ← hrec]; rfl, fun h => htime ((List.mem_cons.mp h).resolve_left (by simp))⟩
    | timeout =>
      obtain ⟨hnil, rfl⟩ : io₁.bytes = [] ∧ io₂ = io₁ := hstep
      have hempty : received evs = [] ∧ io₃.bytes = [] :=
        List.append_eq_nil_iff.mp (hrec.trans hnil)
      exact ⟨hrec, fun _ => hempty.2⟩

/-- The queue delivers what is in it. -/
theorem delivers (base : Word) (bs : List Byte) : Delivers base bs (⟨bs⟩ : Queue) := by
  intro evs io' h
  obtain ⟨hrec, htime⟩ := received_append h
  replace hrec : received evs ++ io'.bytes = bs := hrec
  refine ⟨.inl ⟨_, hrec⟩, fun ht => ?_⟩
  rw [htime ht, List.append_nil] at hrec
  exact hrec ▸ List.prefix_rfl

end Queue

/-- Stage 1 with this answer in its link. -/
def answered (bs : List Byte) : Machine DosState Queue where
  ax := 0
  bx := 0
  cx := 0
  dx := 0
  si := 0
  di := 0
  cs := 0
  ds := 0
  es := 0
  cf := false
  zf := false
  stk := []
  mem := Mem.set (fun _ => 0) currentPump PUMP_LPT_SPP
  got := []
  dos := ⟨fun _ => none, fun _ => none, [], [], 0, 0, 0,
    fun _ => ⟨false, 0, 0, 0, 0, ⟨fun _ => 0, 0, 0, 0, 0, 0, 0, 0, 0⟩⟩, 0⟩
  io := ⟨bs⟩

theorem capRsp_agrees_slice :
    let blob : SliceBlob := ⟨[0x61, 0x62, 0x63, 0x64, 0x65, 0x66], 0xDEADBEEF⟩
    let m := answered (frame CMD_CAP_RSP 0 (buildCapRspPayload blob ACTIVE_MODE_SPP))
    (recvCapRsp m).cf = false ∧ (parseCapRspFields (recvCapRsp m)).cf = false ∧
      ((parseCapRspFields (recvCapRsp m)).mem.dword stage2ImageSize).toNat = 6 := by
  intro blob m
  have hp : m.mem currentPump = PUMP_LPT_SPP := Mem.set_self (fun _ => 0) currentPump PUMP_LPT_SPP
  have h := capRsp_agrees blob ACTIVE_MODE_SPP 0 m (by decide) hp
    ((Queue.delivers _ _).reaches (recvCapRsp m))
  exact ⟨h.1, h.2.1.mpr (by decide), h.2.2.2.2.2.1⟩

end VintageKvm.Stage1
