import VintageKvm.Link.Channels
import VintageKvm.Dos.Stage1.Main

/-!
# Stage 2 over the link, both ends

`cap_handshake` and `download_stage2` against the firmware, over `Channels`.
The handshake goes through. Of a packet with a block number only the first
eight bytes are sent, and of such packets the firmware receives none
(`packets_cuts`). So the first block is asked for in vain, and the download
fails whatever the image (`never_delivered`).
-/

namespace VintageKvm.Delivery

open I8086 Machine Dos Protocol Firmware
open Stage1 hiding SOH ETX
open PacketReassembler (recvAll)

variable {σ : Type} [BlockSource σ]

/-! ## Packets cut short -/

/-- What Stage 1 sends of a packet with a block number, of block 0. -/
def cut (p : Byte × Byte) : List Byte := (frame p.1 p.2 (blockNo 0)).take 8

theorem cut_eq (p : Byte × Byte) : cut p = [SOH, p.1, p.2, 0, 4, 0, 0, 0] := rfl

theorem announced_cut (p : Byte × Byte) (x : List Byte) : announced (cut p ++ x) = 4 := by
  rw [cut_eq]
  show (0 : Byte).toNat * 256 + (4 : Byte).toNat = 4
  decide

theorem frame_getLast? (cmd seq : Byte) (payload : List Byte) :
    (frame cmd seq payload).getLast? = some ETX := by
  rw [frame, List.getLast?_concat]

/-- The first packet cut short takes four bytes of the second for its end, and
is no packet. -/
theorem turn_cut (r : PacketReassembler) (p q : Byte × Byte) :
    ∃ reason r', PacketReassembler.turn r (cut p ++ cut q) =
      .ok (.resync reason r' [4, 0, 0, 0]) := by
  have hann : announced (cut p ++ cut q) = 4 := announced_cut p (cut q)
  have hlen : ([p.1, p.2, 0, 4, 0, 0, 0] ++ cut q).length = 15 := rfl
  have hsoh := PacketReassembler.turn_soh r ([p.1, p.2, 0, 4, 0, 0, 0] ++ cut q)
  rw [show SOH :: ([p.1, p.2, 0, 4, 0, 0, 0] ++ cut q) = cut p ++ cut q from rfl] at hsoh
  dsimp only at hsoh
  rw [hann, hlen] at hsoh
  rcases hsoh with ⟨-, hc⟩ | ⟨-, hc, -⟩ | ⟨-, -, r', e⟩
  · exact absurd hc (by decide)
  · exact absurd hc (by decide)
  · cases hd : decode ((cut p ++ cut q).take (4 + 8)) with
    | ok packet =>
      have hlast := frame_getLast? packet.cmd packet.seq packet.payload.bytes
      rw [← eq_frame_of_decode hd] at hlast
      exact absurd hlast (show some (0 : Byte) ≠ some ETX by decide)
    | error err =>
      rw [hd] at e
      exact ⟨_, r', e⟩

theorem turn_cut_pending (r : PacketReassembler) (p : Byte × Byte) :
    PacketReassembler.turn r (cut p) = .error .pending := by
  have hann : announced (cut p) = 4 := announced_cut p []
  have hlen : [p.1, p.2, 0, 4, 0, 0, 0].length = 7 := rfl
  have hsoh := PacketReassembler.turn_soh r [p.1, p.2, 0, 4, 0, 0, 0]
  rw [show SOH :: [p.1, p.2, 0, 4, 0, 0, 0] = cut p from rfl] at hsoh
  dsimp only at hsoh
  rw [hann, hlen] at hsoh
  rcases hsoh with ⟨hp, -⟩ | ⟨-, hc, -⟩ | ⟨hc, -, -⟩
  · exact hp
  · exact absurd hc (by decide)
  · exact absurd hc (by decide)

/-- However many packets are cut short, none is received. -/
theorem packets_cuts (r : PacketReassembler) :
    ∀ ps : List (Byte × Byte), (recvAll r (ps.flatMap cut)).packets = []
  | [] => by
    rw [List.flatMap_nil, PacketReassembler.recvAll_turn, PacketReassembler.turn_nil]
  | [p] => by
    rw [List.flatMap_singleton, PacketReassembler.recvAll_turn, turn_cut_pending]
  | p :: q :: ps => by
    obtain ⟨reason, r', ht⟩ := turn_cut r p q
    have hnoise := PacketReassembler.recvAll_noise r' ⟨[4, 0, 0, 0], by decide⟩ (ps.flatMap cut)
    rw [PacketReassembler.resync_iterate] at hnoise
    have hrest : (recvAll r' ([4, 0, 0, 0] ++ ps.flatMap cut)).packets =
        (recvAll r' (ps.flatMap cut)).packets := by
      rw [hnoise]
    have hpackets := PacketReassembler.packets_append ht r r' (ps.flatMap cut)
    rw [List.flatMap_cons, List.flatMap_cons, ← List.append_assoc]
    exact hpackets.trans (hrest.trans (packets_cuts r' ps))

/-- However many packets it sends cut short, the host receives nothing. -/
def Deaf (c : Channels σ) : Prop := ∀ ps : List (Byte × Byte), c.out (ps.flatMap cut) = []

theorem Deaf.heard {base : Word} {p : Byte × Byte} {bs : List Byte} {late : Bool} {n n' : Net σ}
    (h : Deaf n.channels)
    (hs : Steps base ((cut p).map .sent ++ (bs.map .got ++ if late then [.timeout] else [])) n n') :
    bs = [] ∧ Deaf n'.channels := by
  have hout : ∀ ps : List (Byte × Byte), bs ++ n'.channels.out (ps.flatMap cut) = [] := fun ps => by
    have hreplies := replies_eq hs (ps.flatMap cut)
    rw [received_request, sentBytes_append, sentBytes_sent, sentBytes_heard,
      List.append_nil] at hreplies
    exact hreplies.symm.trans (h (p :: ps))
  exact ⟨(List.append_eq_nil_iff.mp (hout [])).1, fun ps => (List.append_eq_nil_iff.mp (hout ps)).2⟩

theorem Deaf.sent {base : Word} {p : Byte × Byte} {n n' : Net σ} (h : Deaf n.channels)
    (hs : Steps base ((cut p).map .sent) n n') : Deaf n'.channels := fun ps => by
  have hreplies := replies_eq hs (ps.flatMap cut)
  rw [sentBytes_sent, received_sent, List.nil_append] at hreplies
  exact hreplies.symm.trans (h (p :: ps))

/-! ## The download -/

/-- The routine ends with CF set. -/
def Failed (m : Machine DosState (Net σ)) : Prop := m.cf = true

/-- The first block is asked for in vain. -/
structure Stuck (m : Machine DosState (Net σ)) : Prop where
  pump : m.mem currentPump = PUMP_LPT_SPP
  block : m.mem.word currentBlock = 0
  deaf : Deaf m.io.channels

namespace Stuck

variable {m m' : Machine DosState (Net σ)}

theorem keeps {rs : List Region} (h : Stuck m) (hk : Keeps Stage1.Link rs m m')
    (hp : ∀ r ∈ rs, ¬ r.Has currentPump) (hb : ∀ r ∈ rs, ¬ r.Has currentBlock ∧
      ¬ r.Has (currentBlock + 1)) (hd : Deaf m'.io.channels) : Stuck m' where
  pump := (hk.mem.byte hp).trans h.pump
  block := (hk.mem.word (fun r hr => (hb r hr).1) fun r hr => (hb r hr).2).trans h.block
  deaf := hd

/-- A request is not answered. -/
theorem requestOneBlock (h : Stuck m) : (requestOneBlock m).cf = true ∧ Stuck (requestOneBlock m) ∧
    (requestOneBlock m).mem.bytes sendBlockPayload 4 = blockNo 0 ∧
    (Stage1.requestOneBlock m).mem retryCount = m.mem retryCount := by
  obtain ⟨bs, late, hr⟩ := requestOneBlock_ok m
  obtain ⟨-, -, hlink⟩ := hr.link h.pump
  have hpayload := hr.payload
  rw [h.block] at hlink hpayload
  obtain ⟨rfl, hdeaf⟩ := h.deaf.heard (p := (Stage1.CMD_SEND_BLOCK, m.mem txSeq)) hlink
  refine ⟨?_, h.keeps hr.keeps (by decide) (by decide) hdeaf, hpayload,
    hr.keeps.mem.byte (by decide)⟩
  by_contra hcf
  obtain ⟨-, seq, data, -, hframe, -⟩ := hr.accepted (Bool.eq_false_of_not_eq_true hcf)
  cases hframe

/-- `.retry`: one turn. -/
theorem retry (h : Stuck m) (hleft : 0 < (m.mem retryCount).toNat) : (downloadStage2.retry m).Sat
    (fun m' => (Stuck m' ∧ 0 < (m'.mem retryCount).toNat) ∧
      (m'.mem retryCount).toNat < (m.mem retryCount).toNat)
    (Flow.Sat (fun _ => False) Failed) := by
  obtain ⟨hcf, h₁, hpayload, hleft₁⟩ := h.requestOneBlock
  unfold downloadStage2.retry
  rw [jnc_neg hcf]
  generalize Stage1.requestOneBlock m = m₁ at *
  obtain ⟨hk₂, hleft₂, hzf⟩ := decRetries_ok m₁
  have h₂ : Stuck (m₁.decMemb retryCount) := h₁.keeps hk₂ (by decide) (by decide) h₁.deaf
  have hpayload₂ : (m₁.decMemb retryCount).mem.bytes sendBlockPayload 4 = blockNo 0 := by
    refine (hk₂.mem.bytes (by decide) fun r hr => ?_).trans hpayload
    rw [List.mem_singleton.mp hr]
    exact Region.apart_of_le (by decide) (by decide)
  rw [hleft₁] at hleft₂ hzf
  generalize m₁.decMemb retryCount = m₂ at *
  refine jz_cases (P := fun f => Flow.Sat _ _ f) (fun _ => rfl) fun hz => ?_
  rw [hzf] at hz
  have hs := sendBlockCmd_ok Stage1.CMD_BLOCK_NAK m₂
  rw [hpayload₂] at hs
  have hdeaf := h₂.deaf.sent (p := (Stage1.CMD_BLOCK_NAK, m₂.mem txSeq)) (hs.link h₂.pump)
  have hleft₃ : (sendBlockNak m₂).mem retryCount = m.mem retryCount - 1 :=
    (hs.keeps.mem.byte (by decide)).trans hleft₂
  obtain ⟨hpos, hfewer⟩ := toNat_retries_lt (of_decide_eq_false hz) hleft
  refine ⟨⟨h₂.keeps hs.keeps (by decide) (by decide) hdeaf, ?_⟩, ?_⟩
  · rwa [hleft₃]
  · rwa [hleft₃]

/-- `.block_loop`: one turn. -/
theorem blockLoop (h : Stuck m) (htotal : m.mem.word totalBlocks ≠ 0) :
    (downloadStage2.blockLoop m).Sat (fun _ => False) Failed := by
  let m₁ : Machine DosState (Net σ) :=
    m |>.mov .ax (·.word currentBlock) |>.cmp (·.ax) (·.word totalBlocks)
  have hcf : m₁.cf = true := by
    refine decide_eq_true ?_
    show (m.mem.word currentBlock).toNat < (m.mem.word totalBlocks).toNat
    rw [h.block]
    exact Nat.pos_of_ne_zero fun hz => htotal (BitVec.eq_of_toNat_eq hz)
  show Flow.Sat _ _ (m₁.jnc _ _)
  rw [jnc_neg hcf]
  have hle : 64 * (m₁.mem.word currentBlock).toNat ≤ (m₁.mem.dword stage2ImageSize).toNat := by
    rw [show m₁.mem.word currentBlock = 0 from h.block]
    exact Nat.zero_le _
  obtain ⟨m₂, e, hk₂, hio₂, -, -, hleft₂⟩ := expectBlock_ok m₁ hle
  have h₂ : Stuck m₂ := h.keeps (hk₂.congr rfl rfl) (by decide) (by decide) (hio₂ ▸ h.deaf)
  rw [e]
  exact iter_rule (fun m => Stuck m ∧ 0 < (m.mem retryCount).toNat)
    (Flow.Sat (fun _ => False) Failed)
    (fun m => (m.mem retryCount).toNat) (fun m hI => hI.1.retry hI.2) 256 m₂
      ⟨h₂, by rw [hleft₂]; decide⟩
    (by rw [hleft₂]; decide)

theorem blocks (h : Stuck m) (htotal : m.mem.word totalBlocks ≠ 0) :
    Failed (downloadStage2.blocks m) :=
  iter_rule (fun m => Stuck m ∧ m.mem.word totalBlocks ≠ 0) Failed (fun _ => 0)
    (fun _ hI => (hI.1.blockLoop hI.2).imp (fun _ hno => hno.elim) fun _ hcf => hcf) 65536 m
      ⟨h, htotal⟩ (by decide)

/-- The file is created, or not. -/
theorem createFile (hp : m.mem currentPump = PUMP_LPT_SPP) (hd : Deaf m.io.channels)
    (htotal : m.mem.word totalBlocks ≠ 0) : Failed (downloadStage2.createFile m) := by
  obtain ⟨a, x, z, c, dos, e, -⟩ := createFile_eq m rfl
  rw [e]
  refine jc_cases (P := Failed) (fun _ => rfl) fun _ => ?_
  have hf := opened_frame m.mem a
  have hpump : (opened m.mem a) currentPump = PUMP_LPT_SPP := (hf.byte (by decide)).trans hp
  refine blocks ⟨hpump, opened_block m.mem a, hd⟩ fun hz => htotal ?_
  exact (hf.word (by decide) (by decide)).symm.trans hz

end Stuck

/-- A download on a deaf link, of a size that the handshake accepts. -/
theorem downloadStage2_failed {m : Machine DosState (Net σ)} (hp : m.mem currentPump = PUMP_LPT_SPP)
    (hd : Deaf m.io.channels) (hsize : SizeOk (m.mem.dword stage2ImageSize)) :
    Failed (downloadStage2 m) := by
  obtain ⟨hpos, hmax⟩ := hsize
  rw [show MAX_STAGE2_SIZE = 200000 from rfl] at hmax
  refine jnz_cases (P := Failed) (fun _ => ?_) fun _ => rfl
  refine jnz_cases (P := Failed) (fun _ => ?_) fun _ => rfl
  let m₂ : Machine DosState (Net σ) := m |>.cmpb (·.byte currentPump) (imm PUMP_NONE)
    |>.mov .ax (·.word stage2ImageSize) |>.orw .ax (·.word (stage2ImageSize + 2))
  show Failed (downloadStage2.haveSize m₂)
  rcases haveSize_ok m₂ with ⟨-, m₃, -, e⟩ | ⟨hfew, m₃, hs, e⟩
  · rw [e]
    exact rfl
  have hcount := toNat_blockCount (m.mem.dword stage2ImageSize)
  have hhi := toNat_hiW (blockCount (m.mem.dword stage2ImageSize))
  have hlo := toNat_loW (blockCount (m.mem.dword stage2ImageSize))
  rw [show hiW (blockCount (m.mem.dword stage2ImageSize)) = 0 from hfew] at hhi
  have hmem : m₃.mem = m.mem.setWord totalBlocks (loW (blockCount (m.mem.dword stage2ImageSize))) :=
    hs.mem
  rw [e]
  refine Stuck.createFile ?_ ?_ fun hz => ?_
  · rw [hmem]
    exact ((Frame.refl [⟨totalBlocks, 2⟩] m.mem).setWord _ (by decide) (by decide)).byte
      (by decide) |>.trans hp
  · rw [hs.io]
    exact hd
  · rw [hmem, Mem.word_setWord] at hz
    rw [hz] at hlo
    have h0 : (0 : Word).toNat = 0 := rfl
    omega

/-! ## The handshake -/

/-- A packet on an empty channel is replied to, and the rest is as after it. -/
theorem out_frame {c : Channels σ} (hup : c.up = []) (p : IncomingPacket) (x : List Byte) :
    c.out (frame p.cmd p.seq p.payload.bytes ++ x) =
      { c with down := c.down ++ reply p c.session, session := next p c.session }.out x := by
  obtain ⟨r', ht⟩ := PacketReassembler.turn_frame c.reassembler p []
  rw [List.append_nil] at ht
  unfold Channels.out
  rw [hup, List.nil_append, List.nil_append,
    PacketReassembler.packets_append ht c.reassembler c.reassembler x, List.append_assoc]
  rfl

/-- What the firmware replies to CAP_REQ. -/
def capRsp (blob : σ) : List Byte :=
  frame Protocol.CMD_CAP_RSP 0 (buildCapRspPayload blob ACTIVE_MODE_SPP)

theorem reply_capReq (st : SessionState σ) {p : IncomingPacket} (h : p.cmd = Protocol.CMD_CAP_REQ) :
    reply p st = capRsp st.blob := by
  have hlen : (buildCapRspPayload st.blob ACTIVE_MODE_SPP).length ≤ MAX_PAYLOAD :=
    (length_capRsp st.blob ACTIVE_MODE_SPP).trans_le (by decide)
  have ho : (handlePacket p st).1 =
      buildReply Protocol.CMD_CAP_RSP 0 (buildCapRspPayload st.blob ACTIVE_MODE_SPP) := by
    unfold handlePacket
    dsimp only
    rw [if_pos h]
    rfl
  unfold reply
  rw [ho, buildReply_ok _ _ hlen]
  exact PacketReassembler.encoded_eq _

theorem reply_capAck (st : SessionState σ) {p : IncomingPacket} (h : p.cmd = Protocol.CMD_CAP_ACK) :
    reply p st = [] := by
  have ho : (handlePacket p st).1 = .silent := by
    unfold handlePacket
    dsimp only
    rw [h, if_neg (by decide), if_pos rfl]
    rfl
  unfold reply
  rw [ho]


/-- What the host receives of the handshake, whatever it does after it but to
send packets cut short. -/
theorem out_handshake {c : Channels σ} (hup : c.up = []) (hdown : c.down = []) (seq seq' : Byte)
    {ack : List Byte} (hack : ack = [] ∨ ack = frame Stage1.CMD_CAP_ACK seq' [])
    (ps : List (Byte × Byte)) :
    c.out (frame Stage1.CMD_CAP_REQ seq [] ++ (ack ++ ps.flatMap cut)) = capRsp c.session.blob := by
  let req : IncomingPacket := ⟨Protocol.CMD_CAP_REQ, seq, [], Nat.zero_le _⟩
  let c₁ : Channels σ :=
    { c with down := c.down ++ reply req c.session, session := next req c.session }
  have hreq : c.out (frame Stage1.CMD_CAP_REQ seq [] ++ (ack ++ ps.flatMap cut)) =
      c₁.out (ack ++ ps.flatMap cut) :=
    out_frame hup req _
  have hdown₁ : c₁.down = capRsp c.session.blob := by
    show c.down ++ reply req c.session = _
    rw [hdown, reply_capReq c.session rfl, List.nil_append]
  have hcuts : ∀ c₂ : Channels σ, c₂.up = [] → c₂.down = capRsp c.session.blob →
      c₂.out (ps.flatMap cut) = capRsp c.session.blob := fun c₂ hup₂ hdown₂ => by
    unfold Channels.out
    rw [hup₂, hdown₂, List.nil_append, packets_cuts]
    exact List.append_nil _
  rw [hreq]
  rcases hack with rfl | rfl
  · exact hcuts c₁ hup hdown₁
  · let packet : IncomingPacket := ⟨Protocol.CMD_CAP_ACK, seq', [], Nat.zero_le _⟩
    refine (out_frame (c := c₁) hup packet (ps.flatMap cut)).trans (hcuts _ hup ?_)
    show c₁.down ++ reply packet c₁.session = _
    rw [hdown₁, reply_capAck c₁.session rfl, List.append_nil]

/-- The handshake leaves the size of the image, and a deaf link. -/
theorem capHandshake_deaf {m : Machine DosState (Net σ)}
    (hmode : m.mem negotiatedMode = NEG_MODE_SPP)
    (hp : m.mem currentPump = PUMP_LPT_SPP) (hup : m.io.channels.up = [])
    (hdown : m.io.channels.down = []) :
    (capHandshake m).mem currentPump = PUMP_LPT_SPP ∧ Deaf (capHandshake m).io.channels ∧
      (capHandshake m).mem.dword stage2ImageSize =
        BitVec.ofNat 32 (BlockSource.totalSize m.io.channels.session.blob) := by
  have hlen : (buildCapRspPayload m.io.channels.session.blob ACTIVE_MODE_SPP).length ≤
      MAX_PAYLOAD :=
    (length_capRsp m.io.channels.session.blob ACTIVE_MODE_SPP).trans_le (by decide)
  have hann : announced (capRsp m.io.channels.session.blob) =
      (buildCapRspPayload m.io.channels.session.blob ACTIVE_MODE_SPP).length :=
        announced_frame (Nat.lt_of_le_of_lt hlen (by decide))
  obtain ⟨bs, hs, hlink⟩ := capHandshake_ok m
  obtain ⟨late, ack, hstops, hack, hsteps⟩ := hlink hmode hp
  rw [← List.append_assoc] at hsteps
  obtain ⟨n₁, hfirst, hsecond⟩ := hsteps.split
  have hreq : ∀ x, m.io.channels.out (frame Stage1.CMD_CAP_REQ (m.mem txSeq) [] ++ x) =
      bs ++ n₁.channels.out x := fun x => by
    have hreplies := replies_eq hfirst x
    rwa [received_request, sentBytes_append, sentBytes_sent, sentBytes_heard,
      List.append_nil] at hreplies
  have hrsp : capRsp m.io.channels.session.blob = bs ++ n₁.channels.out [] :=
    (out_handshake hup hdown (m.mem txSeq) 0 (.inl rfl) []).symm.trans (hreq [])
  have hbs : bs = capRsp m.io.channels.session.blob := by
    refine hstops.eq_packet (by rw [hann, capRsp, length_frame]; rfl)
      (hann ▸ hlen) (.inl ⟨_, hrsp.symm⟩) fun hlate => ?_
    rw [hlate, if_pos rfl, ← List.append_assoc] at hfirst
    rw [out_late hfirst, List.append_nil] at hrsp
    exact hrsp ▸ List.prefix_rfl
  refine ⟨(hs.keeps.mem.byte (by decide)).trans hp, fun ps => ?_, ?_⟩
  · have hack' := replies_eq hsecond (ps.flatMap cut)
    rw [sentBytes_sent, received_sent, List.nil_append] at hack'
    have hall := (out_handshake hup hdown (m.mem txSeq) (m.mem txSeq + 1) hack ps).symm.trans
      (hreq (ack ++ ps.flatMap cut))
    rw [← hbs, List.self_eq_append_right] at hall
    exact hack'.symm.trans hall
  · obtain ⟨hsize, -⟩ := hs.fills _ ⟨0, hbs, hlen, (length_capRsp _ _).ge, rfl⟩
    exact hsize.trans (capRsp_size _ _)

/-! ## Both ends -/

/-- `cap_handshake`, then `download_stage2`. -/
def deliver (m : Machine DosState (Net σ)) : Machine DosState (Net σ) :=
  m |> capHandshake |> downloadStage2

/-- The download returns CF clear, and the file is the image. -/
def Delivered (image : List Byte) (m : Machine DosState (Net σ)) : Prop :=
  m.cf = false ∧ m.dos.files stage2Name = some image

/-- The source serves the image. -/
structure Serves (blob : σ) (image : List Byte) : Prop where
  pos : 1 ≤ image.length
  le : image.length ≤ 200000
  totalSize : BlockSource.totalSize blob = image.length
  crc32 : BlockSource.crc32 blob = Protocol.crc32 image
  block : BlockSource.block blob = sliceBlock image

/-- Stage 1 before the handshake in SPP mode, with the firmware on the other
side of empty channels, and a DOS whose calls succeed. -/
structure Started (blob : σ) (m : Machine DosState (Net σ)) : Prop where
  mode : m.mem negotiatedMode = NEG_MODE_SPP
  pump : m.mem currentPump = PUMP_LPT_SPP
  named : Named m.mem
  up : m.io.channels.up = []
  down : m.io.channels.down = []
  blob : m.io.channels.session.blob = blob
  dos : ∀ n, (m.dos.ask n).cf = false ∧ DOWNLOAD_BLOCK_SIZE.toNat ≤ (m.dos.ask n).taken

/-- Every run delivers the image. -/
def Delivers (blob : σ) (image : List Byte) : Prop :=
  ∀ m : Machine DosState (Net σ), Started blob m → Delivered image (deliver m)

theorem Started.failed {blob : σ} {image : List Byte} {m : Machine DosState (Net σ)}
    (h : Started blob m) (hserves : Serves blob image) : Failed (deliver m) := by
  obtain ⟨hp, hdeaf, hsize⟩ := capHandshake_deaf h.mode h.pump h.up h.down
  refine downloadStage2_failed hp hdeaf ?_
  have hn : (BitVec.ofNat 32 image.length).toNat = image.length :=
    Nat.mod_eq_of_lt (Nat.lt_of_le_of_lt hserves.le (by decide))
  rw [hsize, h.blob, hserves.totalSize, SizeOk, hn]
  exact ⟨hserves.pos, hserves.le⟩

omit [BlockSource σ] in
theorem Failed.not_delivered {image : List Byte} {m : Machine DosState (Net σ)} (h : Failed m) :
    ¬ Delivered image m :=
  fun hd => Bool.false_ne_true (hd.1.symm.trans h)

/-- A run with this schedule. -/
def starting (blob : σ) (schedule : List Nat) : Machine DosState (Net σ) :=
  { asking 0 with
    dos := { (asking 0).dos with
      ask := fun n => { (asking 0).dos.ask n with taken := DOWNLOAD_BLOCK_SIZE.toNat } }
    io := ⟨⟨[], [], .new, .withBlob blob⟩, schedule⟩ }

omit [BlockSource σ] in
theorem starting_started (blob : σ) (schedule : List Nat) :
    Started blob (starting blob schedule) where
  mode := rfl
  pump := rfl
  named := asking_named 0
  up := rfl
  down := rfl
  blob := rfl
  dos _ := ⟨rfl, Nat.le_refl _⟩

/-- Whatever the image, there are runs, and none delivers it. -/
theorem never_delivered {blob : σ} {image : List Byte} (h : Serves blob image) :
    (∃ m : Machine DosState (Net σ), Started blob m) ∧
      ∀ m : Machine DosState (Net σ), Started blob m → ¬ Delivered image (deliver m) :=
  ⟨⟨starting blob [], starting_started blob []⟩, fun _ hm => (hm.failed h).not_delivered⟩

/-- An image of one byte. -/
def hlt : SliceBlob := ⟨[0xF4], Protocol.crc32 [0xF4]⟩

theorem hlt_serves : Serves hlt [0xF4] := ⟨by decide, by decide, rfl, rfl, rfl⟩

theorem never_delivered_hlt : ¬ Delivered [0xF4] (deliver (starting hlt [0, 2, 1])) :=
  (never_delivered hlt_serves).2 _ (starting_started hlt _)

theorem hlt_undelivered : Serves hlt [0xF4] ∧ ¬ Delivers hlt [0xF4] :=
  have hstarted := starting_started hlt []
  ⟨hlt_serves, fun h => (hstarted.failed hlt_serves).not_delivered (h _ hstarted)⟩

end VintageKvm.Delivery
