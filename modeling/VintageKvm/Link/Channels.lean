import VintageKvm.Dos.Stage1.Blocks
import VintageKvm.Firmware.Dispatcher
import VintageKvm.Firmware.PacketStream

/-!
# Stage 1 and the dispatcher on two channels

Two channels that lose nothing and keep the order, with the firmware's
dispatcher at the other end (`Channels`), as a link for Stage 1 (`Net`). The
firmware takes its turns at any moment, and the host stops waiting for a byte
only where nothing is on its way (`Channels.await_quiet`). What the host
receives is a function of what it sends, whatever the order of the turns
(`replies_eq`).
-/

namespace VintageKvm.Delivery

open I8086 Machine Dos Protocol Firmware
open Stage1 hiding SOH ETX
open PacketReassembler (recvAll encoded)

variable {σ : Type} [BlockSource σ]

/-! ## The firmware on two channels -/

/-- The reply to a packet, as it goes out. -/
def reply (p : IncomingPacket) (st : SessionState σ) : List Byte :=
  match (handlePacket p st).1 with
  | .reply q => encoded q
  | _ => []

/-- The firmware between the channels from the host and to it. -/
structure Channels (σ : Type) where
  up : List Byte
  down : List Byte
  reassembler : PacketReassembler
  session : SessionState σ

namespace Channels

variable (c : Channels σ)

/-- A turn of the firmware, if all the bytes it takes have been sent. -/
def turn : Channels σ :=
  match PacketReassembler.turn c.reassembler c.up with
  | .error _ => c
  | .ok (.resync _ r rest) => { c with up := rest, reassembler := r }
  | .ok (.packet p r rest) =>
    { up := rest
      down := c.down ++ reply p c.session
      reassembler := r
      session := next p c.session }

/-- At most `n` turns, as long as there is nothing for the host. -/
def await : Nat → Channels σ → Channels σ
  | 0, c => c
  | n + 1, c => if c.down = [] then await n c.turn else c

/-- Nothing is on its way. -/
def Quiet : Prop := c.down = [] ∧ PacketReassembler.turn c.reassembler c.up = .error .pending

theorem turn_of_pending (h : PacketReassembler.turn c.reassembler c.up = .error .pending) :
    c.turn = c := by
  rw [turn, h]

theorem await_eq (n : Nat) : ∃ k, await n c = turn^[k] c := by
  induction n generalizing c with
  | zero => exact ⟨0, rfl⟩
  | succ n ih =>
    unfold await
    split
    · obtain ⟨k, hk⟩ := ih c.turn
      exact ⟨k + 1, hk⟩
    · exact ⟨0, rfl⟩

theorem turn_up_lt (h : PacketReassembler.turn c.reassembler c.up ≠ .error .pending) :
    c.turn.up.length < c.up.length := by
  rcases PacketReassembler.turn_ok c.reassembler c.up with hp | ⟨t, ht, -⟩
  · exact absurd hp h
  · have hlt := PacketReassembler.rest_lt ht
    unfold turn
    rw [ht]
    cases t with
    | resync reason r rest => exact hlt
    | packet p r rest => exact hlt

/-- Where the wait for a byte is in vain, nothing is on its way. -/
theorem await_quiet {n : Nat} (hn : c.up.length ≤ n) (h : (await n c).down = []) :
    (await n c).Quiet := by
  induction n generalizing c with
  | zero =>
    have hup : c.up = [] := List.length_eq_zero_iff.mp (Nat.le_zero.mp hn)
    refine ⟨h, ?_⟩
    show PacketReassembler.turn c.reassembler c.up = _
    rw [hup]
    exact PacketReassembler.turn_nil _
  | succ n ih =>
    unfold await at h ⊢
    split
    next hdown =>
      rw [if_pos hdown] at h
      by_cases hp : PacketReassembler.turn c.reassembler c.up = .error .pending
      · have hquiet : c.Quiet := ⟨hdown, hp⟩
        have hstays : ∀ n, await n c = c := fun n => by
          induction n with
          | zero => rfl
          | succ n ih => rw [await, if_pos hdown, turn_of_pending c hp, ih]
        rw [turn_of_pending c hp, hstays]
        exact hquiet
      · exact ih c.turn (Nat.le_of_lt_succ ((turn_up_lt c hp).trans_le hn)) h
    next hdown =>
      rw [if_neg hdown] at h
      exact absurd h hdown

/-! ## What the host receives -/

/-- The replies to packets. -/
def replies : SessionState σ → List IncomingPacket → List Byte
  | _, [] => []
  | st, p :: ps => reply p st ++ replies (next p st) ps

/-- All that the host receives from here on, if it sends `x`. -/
def out (x : List Byte) : List Byte :=
  c.down ++ replies c.session (recvAll c.reassembler (c.up ++ x)).packets

variable {c}

theorem out_turn (x : List Byte) : c.turn.out x = c.out x := by
  unfold turn
  split
  next => rfl
  next reason r rest ht =>
    unfold out
    rw [PacketReassembler.packets_append ht c.reassembler r x]
    rfl
  next p r rest ht =>
    unfold out
    rw [PacketReassembler.packets_append ht c.reassembler r x, List.append_assoc]
    rfl

theorem out_turns (k : Nat) (x : List Byte) : (turn^[k] c).out x = c.out x := by
  induction k generalizing c with
  | zero => rfl
  | succ k ih => rw [Function.iterate_succ_apply, ih, out_turn]

theorem out_sent (b : Byte) (x : List Byte) :
    { c with up := c.up ++ [b] }.out x = c.out (b :: x) := by
  unfold out
  rw [List.append_assoc]
  rfl

theorem Quiet.out_nil (h : c.Quiet) : c.out [] = [] := by
  unfold out
  rw [h.1, List.append_nil, PacketReassembler.recvAll_turn, h.2]
  rfl

end Channels

/-! ## The link -/

/-- The link of a run. `schedule`: how many turns the firmware takes before
each byte that the host sends or waits for. -/
structure Net (σ : Type) where
  channels : Channels σ
  schedule : List Nat

namespace Net

/-- The firmware's turns before the host's next access. -/
def before (l : Net σ) : Net σ := ⟨Channels.turn^[l.schedule.headD 0] l.channels, l.schedule.tail⟩

instance : Pump (Net σ) where
  lptSendByte m :=
    let l := m.io.before
    { m with
      cf := false,
      io := { l with channels := { l.channels with up := l.channels.up ++ [lo m.ax] } } }
  lptRecvByte m :=
    let l := m.io.before
    let c := l.channels.await l.channels.up.length
    match c.down with
    | b :: down =>
      { m with
        ax := ofBytes (hi m.ax) b, cf := false, got := m.got ++ [b],
        io := { l with channels := { c with down := down } } }
    | [] => { m with cf := true, io := { l with channels := c } }

/-- An access of the host, after turns of the firmware. -/
inductive Step : Ev → Channels σ → Channels σ → Prop
  | sent (k : Nat) (b : Byte) (c : Channels σ) :
    Step (.sent b) c { Channels.turn^[k] c with up := (Channels.turn^[k] c).up ++ [b] }
  | got (k : Nat) {b : Byte} {down : List Byte} {c : Channels σ} :
    (Channels.turn^[k] c).down = b :: down →
    Step (.got b) c { Channels.turn^[k] c with down := down }
  | timeout (k : Nat) {c : Channels σ} : (Channels.turn^[k] c).Quiet →
    Step .timeout c (Channels.turn^[k] c)

theorem Step.quiet {c c' : Channels σ} (h : Step .timeout c c') : c'.Quiet := by
  cases h with
  | timeout k hquiet => exact hquiet

instance : LawfulPump (Net σ) where
  Step _ ev l l' := Step ev l.channels l'.channels
  send_ok m := ⟨false, m.zf, _, rfl, .sent _ _ _⟩
  recv_ok m := by
    obtain ⟨ax, bx, cx, dx, si, di, cs, ds, es, cf, zf, stk, mem, got, dos, ⟨channels, schedule⟩⟩ :=
      m
    let c₀ := Channels.turn^[schedule.headD 0] channels
    obtain ⟨k, hk⟩ := Channels.await_eq c₀ c₀.up.length
    have hturns : c₀.await c₀.up.length = Channels.turn^[k + schedule.headD 0] channels := by
      rw [hk, Function.iterate_add_apply]
    cases hdown : (c₀.await c₀.up.length).down with
    | nil =>
      refine .inr ⟨ax, zf, mem lastPhase, ⟨c₀.await c₀.up.length, schedule.tail⟩, ?_, ?_⟩
      · rw [Mem.set_eq_self]
        simp only [Pump.lptRecvByte, before]
        rw [show (Channels.await _ (Channels.turn^[schedule.headD 0] channels)).down = [] from
          hdown]
      · have hquiet := Channels.await_quiet c₀ (Nat.le_refl _) hdown
        show Step .timeout channels (c₀.await c₀.up.length)
        rw [hturns] at hquiet ⊢
        exact .timeout _ hquiet
    | cons b down =>
      refine .inl ⟨ofBytes (hi ax) b, zf, mem lastPhase,
        ⟨{ c₀.await c₀.up.length with down := down }, schedule.tail⟩, ?_, ?_⟩
      · rw [Mem.set_eq_self, lo_ofBytes]
        simp only [Pump.lptRecvByte, before]
        rw [show (Channels.await _ (Channels.turn^[schedule.headD 0] channels)).down =
          b :: down from hdown]
      · rw [lo_ofBytes]
        show Step (.got b) channels { c₀.await c₀.up.length with down := down }
        rw [hturns] at hdown ⊢
        exact .got _ hdown

end Net

/-! ## What goes over the link -/

/-- The bytes sent. -/
def sentBytes (evs : List Ev) : List Byte := evs.filterMap fun
  | .sent b => some b
  | _ => none

theorem sentBytes_append (evs evs' : List Ev) :
    sentBytes (evs ++ evs') = sentBytes evs ++ sentBytes evs' :=
  List.filterMap_append

theorem sentBytes_sent (bs : List Byte) : sentBytes (bs.map .sent) = bs := by
  unfold sentBytes
  rw [List.filterMap_map]
  exact List.filterMap_some

theorem sentBytes_heard (bs : List Byte) (late : Bool) :
    sentBytes (bs.map .got ++ if late then [.timeout] else []) = [] := by
  have hgot : sentBytes (bs.map .got) = [] := by
    unfold sentBytes
    rw [List.filterMap_map]
    exact List.filterMap_eq_nil_iff.mpr fun _ _ => rfl
  rw [sentBytes_append, hgot]
  cases late <;> rfl

theorem Net.Step.out {ev : Ev} {c c' : Channels σ} (h : Net.Step ev c c') (x : List Byte) :
    c.out (sentBytes [ev] ++ x) = received [ev] ++ c'.out x := by
  cases h with
  | sent k b =>
    show c.out (b :: x) = _
    rw [← Channels.out_turns k, ← Channels.out_sent]
    rfl
  | got k hdown =>
    show c.out x = _
    rw [← Channels.out_turns k]
    unfold Channels.out
    rw [hdown]
    rfl
  | timeout k =>
    show c.out x = _
    rw [← Channels.out_turns k]
    rfl

/-- What the host receives is what the firmware replies to what it sends, and
the rest is still to come. -/
theorem replies_eq {base : Word} {evs : List Ev} {n n' : Net σ} (h : Steps base evs n n')
    (x : List Byte) : n.channels.out (sentBytes evs ++ x) = received evs ++ n'.channels.out x := by
  induction h with
  | nil n => rfl
  | @cons ev evs n₁ n₂ n₃ hstep _ ih =>
    have hout := Net.Step.out (c := n₁.channels) hstep (sentBytes evs ++ x)
    rw [ih, ← List.append_assoc, ← List.append_assoc] at hout
    rw [show ev :: evs = [ev] ++ evs from rfl, sentBytes_append, received_append]
    exact hout

/-- After a timeout nothing is to come. -/
theorem out_late {base : Word} {evs : List Ev} {n n' : Net σ}
    (h : Steps base (evs ++ [.timeout]) n n') : n'.channels.out [] = [] := by
  induction evs generalizing n with
  | nil =>
    cases h with
    | cons hstep hnil =>
      cases hnil
      exact (Net.Step.quiet hstep).out_nil
  | cons ev evs ih =>
    cases h with
    | cons _ hrest => exact ih hrest

end VintageKvm.Delivery
