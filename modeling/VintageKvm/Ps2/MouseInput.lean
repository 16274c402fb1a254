import VintageKvm.Lib.Word

/-!
# The mouse

Commands for the mouse become packets of three bytes on the AUX wire.
`packets_tell`: each packet, read as the host reads it, tells the movement of
its command and the buttons that are down after it.
-/

namespace VintageKvm.Ps2

inductive MouseBtn where
  | left | right | middle
  deriving DecidableEq, Repr

def MouseBtn.mask : MouseBtn → Byte
  | left => 0x01
  | right => 0x02
  | middle => 0x04

inductive MouseCmd where
  | move (dx dy : Word)
  | button (btn : MouseBtn) (down : Bool)
  deriving DecidableEq, Repr

/-- `i16::clamp` -/
def clamp (d : Word) (lo hi : Int) : Word :=
  if d.toInt < lo then BitVec.ofInt 16 lo else if hi < d.toInt then BitVec.ofInt 16 hi else d

def packPacket (dx dy : Word) (buttons : Byte) : List Byte :=
  let dx9 := clamp dx (-256) 255
  let dy9 := clamp dy (-256) 255
  let xSign : Byte := (dx9.sshiftRight 8 &&& 1).setWidth 8
  let ySign : Byte := (dy9.sshiftRight 8 &&& 1).setWidth 8
  let byte0 : Byte := 0x08 ||| (buttons &&& 0x07) ||| xSign <<< 4 ||| ySign <<< 5
  [byte0, (dx9 &&& 0xFF).setWidth 8, (dy9 &&& 0xFF).setWidth 8]

/-- The task: `BUTTONS`, and the bytes sent so far. -/
structure MouseInput where
  buttons : Byte
  sent : List Byte

namespace MouseInput

def boot : MouseInput := ⟨0, []⟩

def sendPacket (m : MouseInput) (dx dy : Word) (buttons : Byte) : MouseInput :=
  { m with sent := m.sent ++ packPacket dx dy buttons }

/-- `run` at a command. -/
def receive (m : MouseInput) : MouseCmd → MouseInput
  | .move dx dy => m.sendPacket dx dy m.buttons
  | .button btn down =>
    let old := m.buttons
    let m := { m with buttons := if down then old ||| btn.mask else old &&& ~~~btn.mask }
    m.sendPacket 0 0 (if down then old ||| btn.mask else old &&& ~~~btn.mask)

def run (cmds : List MouseCmd) : MouseInput := cmds.foldl receive boot

end MouseInput

/-! ## The host's side -/

/-- A movement and the buttons that are down. -/
structure MouseReport where
  dx : Int
  dy : Int
  left : Bool
  right : Bool
  middle : Bool
  deriving DecidableEq, Repr

/-- Nine bits in two's complement. -/
def nineBits (sign : Bool) (low : Byte) : Int := if sign then (low.toNat : Int) - 256 else low.toNat

/-- A packet as the host reads it: bit 3 is set, and no movement overflows. -/
def MouseReport.decode : List Byte → Option MouseReport
  | [byte0, byte1, byte2] =>
    if byte0.getLsbD 3 && !byte0.getLsbD 6 && !byte0.getLsbD 7 then
      some ⟨nineBits (byte0.getLsbD 4) byte1, nineBits (byte0.getLsbD 5) byte2,
        byte0.getLsbD 0, byte0.getLsbD 1, byte0.getLsbD 2⟩
    else none
  | _ => none

/-- The movement of a command. -/
def MouseCmd.movement : MouseCmd → Int × Int
  | .move dx dy => (max (-256) (min 255 dx.toInt), max (-256) (min 255 dy.toInt))
  | .button _ _ => (0, 0)

/-- What a command says of a button. -/
def MouseCmd.sets (btn : MouseBtn) : MouseCmd → Option Bool
  | .move _ _ => none
  | .button b down => if b = btn then some down else none

/-- The latest command about a button was down. -/
def held (cmds : List MouseCmd) (btn : MouseBtn) : Bool :=
  (cmds.reverse.findSome? (MouseCmd.sets btn)).getD false

/-- What a command should tell, after those before it. -/
def report (cmds : List MouseCmd) (cmd : MouseCmd) : MouseReport :=
  let now := held (cmds ++ [cmd])
  ⟨cmd.movement.1, cmd.movement.2, now .left, now .right, now .middle⟩

/-! ## One packet -/

theorem nineBits_ofInt : ∀ i : Fin 512,
    let d := BitVec.ofInt 16 ((i : Int) - 256)
    (d.sshiftRight 8 &&& 1).setWidth 8 = (if (i : Int) - 256 < 0 then 1 else 0 : Byte) ∧
      nineBits (decide ((i : Int) - 256 < 0)) ((d &&& 0xFF).setWidth 8) = (i : Int) - 256 := by
  decide +kernel

/-- What is clamped fits nine bits. -/
theorem clamp_eq (d : Word) : ∃ i : Fin 512,
    clamp d (-256) 255 = BitVec.ofInt 16 ((i : Int) - 256) ∧
    (i : Int) - 256 = max (-256) (min 255 d.toInt) := by
  unfold clamp
  by_cases hlo : d.toInt < -256
  · rw [if_pos hlo]
    exact ⟨0, rfl, by rw [max_eq_left (by omega)]; rfl⟩
  rw [if_neg hlo]
  by_cases hhi : 255 < d.toInt
  · rw [if_pos hhi]
    exact ⟨511, rfl, by rw [min_eq_left (by omega), max_eq_right (by decide)]; rfl⟩
  · have hlt : (d.toInt + 256).toNat < 512 := by omega
    have hi : ((d.toInt + 256).toNat : Int) - 256 = d.toInt := by omega
    rw [if_neg hhi]
    refine ⟨⟨(d.toInt + 256).toNat, hlt⟩, ?_, ?_⟩
    · rw [hi, BitVec.ofInt_toInt]
    · rw [hi, min_eq_right (by omega), max_eq_right (by omega)]

/-- The first byte, from the buttons and the signs. -/
theorem byte0_bits : ∀ (b : Byte) (xNeg yNeg : Bool),
    let byte0 : Byte :=
      0x08 ||| (b &&& 0x07) ||| (if xNeg then 1 else 0 : Byte) <<< 4 |||
        (if yNeg then 1 else 0 : Byte) <<< 5
    (byte0.getLsbD 3 && !byte0.getLsbD 6 && !byte0.getLsbD 7) = true ∧ byte0.getLsbD 4 = xNeg ∧
      byte0.getLsbD 5 = yNeg ∧
      byte0.getLsbD 0 = b.getLsbD 0 ∧ byte0.getLsbD 1 = b.getLsbD 1 ∧
      byte0.getLsbD 2 = b.getLsbD 2 := by
  decide +kernel

theorem decode_byte0 (b : Byte) (xNeg yNeg : Bool) (x y : Byte) :
    MouseReport.decode
        [0x08 ||| (b &&& 0x07) ||| (if xNeg then 1 else 0 : Byte) <<< 4 |||
          (if yNeg then 1 else 0 : Byte) <<< 5, x, y] =
      some ⟨nineBits xNeg x, nineBits yNeg y, b.getLsbD 0, b.getLsbD 1, b.getLsbD 2⟩ := by
  obtain ⟨hframe, hx, hy, h0, h1, h2⟩ := byte0_bits b xNeg yNeg
  rw [MouseReport.decode, if_pos hframe, hx, hy, h0, h1, h2]

/-- The sign and the low byte of a movement. -/
theorem clamp_bits (d : Word) : ∃ neg : Bool,
    ((clamp d (-256) 255).sshiftRight 8 &&& 1).setWidth 8 = (if neg then 1 else 0 : Byte) ∧
      nineBits neg ((clamp d (-256) 255 &&& 0xFF).setWidth 8) = max (-256) (min 255 d.toInt) := by
  obtain ⟨i, hd, hi⟩ := clamp_eq d
  obtain ⟨hsign, hlow⟩ := nineBits_ofInt i
  refine ⟨decide ((i : Int) - 256 < 0), ?_, ?_⟩
  · rw [hd, hsign]
    simp only [decide_eq_true_eq]
  · rw [hd, hlow, hi]

theorem decode_packPacket (dx dy : Word) (b : Byte) : MouseReport.decode (packPacket dx dy b) =
    some ⟨max (-256) (min 255 dx.toInt), max (-256) (min 255 dy.toInt), b.getLsbD 0, b.getLsbD 1,
      b.getLsbD 2⟩ := by
  obtain ⟨xNeg, hxSign, hx⟩ := clamp_bits dx
  obtain ⟨yNeg, hySign, hy⟩ := clamp_bits dy
  rw [packPacket, hxSign, hySign, decode_byte0, hx, hy]

/-! ## The buttons -/

/-- The bit of a button in its mask. -/
def MouseBtn.bit : MouseBtn → Nat
  | left => 0
  | right => 1
  | middle => 2

theorem held_concat (cmds : List MouseCmd) (cmd : MouseCmd) (btn : MouseBtn) :
    held (cmds ++ [cmd]) btn = (cmd.sets btn).getD (held cmds btn) := by
  rw [held, List.reverse_concat, List.findSome?_cons]
  cases cmd.sets btn with
  | none => rfl
  | some down => rfl

/-- A button command changes the bit of its button only. -/
theorem getLsbD_mask (b : Byte) (btn btn' : MouseBtn) (down : Bool) :
    (if down then b ||| btn.mask else b &&& ~~~btn.mask).getLsbD btn'.bit =
      if btn = btn' then down else b.getLsbD btn'.bit := by
  cases down <;> cases btn <;> cases btn' <;> simp [MouseBtn.mask, MouseBtn.bit]

/-- `BUTTONS` has the bits of the buttons that are down. -/
def MouseInput.Tells (m : MouseInput) (cmds : List MouseCmd) : Prop :=
  ∀ btn, m.buttons.getLsbD btn.bit = held cmds btn

namespace MouseInput

variable {m : MouseInput} {cmds : List MouseCmd}

theorem Tells.receive (h : m.Tells cmds) (cmd : MouseCmd) : (m.receive cmd).Tells
    (cmds ++ [cmd]) := fun btn => by
  rw [held_concat]
  cases cmd with
  | move dx dy => exact h btn
  | button b down =>
    show (if down then m.buttons ||| b.mask else m.buttons &&& ~~~b.mask).getLsbD btn.bit = _
    rw [getLsbD_mask, h btn, MouseCmd.sets]
    split <;> rfl

theorem tells_run (cmds : List MouseCmd) : (run cmds).Tells cmds := by
  induction cmds using List.reverseRecOn with
  | nil =>
    intro btn
    cases btn <;> rfl
  | append_singleton cmds cmd ih =>
    rw [run, List.foldl_concat]
    exact ih.receive cmd

/-- A command sends one packet, which tells it. -/
theorem receive_sent (h : m.Tells cmds) (cmd : MouseCmd) : ∃ packet : List Byte,
    (m.receive cmd).sent = m.sent ++ packet ∧ packet.length = 3 ∧
      MouseReport.decode packet = some (report cmds cmd) := by
  have hafter := h.receive cmd
  have hl : (m.receive cmd).buttons.getLsbD 0 = held (cmds ++ [cmd]) .left := hafter .left
  have hr : (m.receive cmd).buttons.getLsbD 1 = held (cmds ++ [cmd]) .right := hafter .right
  have hm : (m.receive cmd).buttons.getLsbD 2 = held (cmds ++ [cmd]) .middle := hafter .middle
  cases cmd with
  | move dx dy =>
    refine ⟨packPacket dx dy m.buttons, rfl, rfl, ?_⟩
    rw [decode_packPacket, report, ← hl, ← hr, ← hm]
    rfl
  | button btn down =>
    refine ⟨packPacket 0 0 (m.receive (.button btn down)).buttons, rfl, rfl, ?_⟩
    rw [decode_packPacket, report, hl, hr, hm]
    rfl

end MouseInput

open MouseInput (run)

/-- Every command sends one packet, which tells its movement and the buttons
that are down after it. -/
theorem packets_tell (cmds : List MouseCmd) : (run cmds).sent.length = 3 * cmds.length ∧
    ∀ k cmd, cmds[k]? = some cmd →
      MouseReport.decode (((run cmds).sent.drop (3 * k)).take 3) =
        some (report (cmds.take k) cmd) := by
  induction cmds using List.reverseRecOn with
  | nil => exact ⟨rfl, fun k cmd hk => nomatch hk⟩
  | append_singleton cmds last ih =>
    obtain ⟨hlen, hall⟩ := ih
    obtain ⟨packet, hsent, hpacket, htells⟩ :=
      MouseInput.receive_sent (MouseInput.tells_run cmds) last
    rw [run, List.foldl_concat]
    change (MouseInput.receive (run cmds) last).sent.length = _ ∧ ∀ k cmd, _ →
      MouseReport.decode (((MouseInput.receive (run cmds) last).sent.drop (3 * k)).take 3) = _
    rw [hsent]
    refine ⟨by rw [List.length_append, List.length_append, hlen, hpacket]; rfl, fun k cmd hk => ?_⟩
    rcases Nat.lt_or_ge k cmds.length with hlt | hge
    · rw [List.getElem?_append_left hlt] at hk
      have hroom : 3 ≤ ((run cmds).sent.drop (3 * k)).length := by
        rw [List.length_drop, hlen]
        omega
      rw [List.drop_append_of_le_length (by omega), List.take_append_of_le_length hroom,
        hall k cmd hk, List.take_append_of_le_length hlt.le]
    · have hk0 : k = cmds.length := by
        have := (List.getElem?_eq_some_iff.mp hk).1
        rw [List.length_append, List.length_singleton] at this
        omega
      rw [hk0, List.getElem?_concat_length] at hk
      obtain rfl := Option.some.inj hk
      rw [hk0, List.take_left, ← hlen, List.drop_left, List.take_of_length_le hpacket.le]
      exact htells

end VintageKvm.Ps2
