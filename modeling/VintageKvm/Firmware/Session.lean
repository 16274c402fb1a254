import VintageKvm.Firmware.ServeLoop

/-!
# What the serve loop answers

Whatever bytes come, the loop serves the packets that are found in them, one a
turn, and then waits (`Serving.turns?_eq`). The bytes it sends are those of the
session's answers, and its host reads just these, nothing to resynchronize on
in between (`Serving.loop_answers`). An answer given is not changed by the
bytes still to come.
-/

namespace VintageKvm.Firmware

open Protocol

/-- What a session answers to packets. -/
def answers (st : SessionState SliceBlob) : List IncomingPacket → List OutgoingPacket
  | [] => []
  | p :: ps => (handlePacket p st).1.packet?.toList ++ answers (next p st) ps

theorem answers_append (st : SessionState SliceBlob) (ps qs : List IncomingPacket) :
    answers st (ps ++ qs) = answers st ps ++ answers (ps.foldl (fun st p => next p st) st) qs := by
  induction ps generalizing st with
  | nil => rfl
  | cons p ps ih => rw [List.cons_append, answers, answers, ih, List.foldl_cons, List.append_assoc]

namespace PacketReassembler

/-- Bytes that come later take back no packet. -/
theorem packets_prefix (r : PacketReassembler) (s more : List Byte) :
    (recvAll r s).packets <+: (recvAll r (s ++ more)).packets := by
  induction hn : s.length using Nat.strong_induction_on generalizing r s with
  | _ n ih =>
    rcases turn_ok r s with hp | ⟨t, ht, -⟩
    · rw [recvAll_turn r s, hp]
      exact List.nil_prefix
    · obtain ⟨r', e⟩ := packets_of_turn ht
      rw [e, packets_append ht r r' more]
      exact (List.prefix_append_right_inj _).mpr (ih _ (hn ▸ rest_lt ht) r' t.rest rfl)

/-- Frames one after the other are received as the packets they are of. -/
theorem recvAll_frames (r : PacketReassembler) (ps : List OutgoingPacket) :
    recvAll r (ps.flatMap encoded) = ⟨ps.map received, [], .pending⟩ := by
  let quiet : Noise := ⟨[], List.not_mem_nil⟩
  have hstream : ps.flatMap encoded = cleanStream (ps.map fun p => (quiet, p)) quiet := by
    induction ps with
    | nil => rfl
    | cons p ps ih => rw [List.flatMap_cons, ih]; rfl
  have hsum : ((ps.map fun p => (quiet, p)).map fun seg => seg.1.bytes.length).sum = 0 := by
    rw [List.map_map]
    exact List.sum_eq_zero fun n hm => by
      obtain ⟨_, -, rfl⟩ := List.mem_map.mp hm
      rfl
  rw [hstream, recvAll_clean, hsum, List.map_map]
  rfl

end PacketReassembler

open PacketReassembler

namespace Serving

variable (x : Serving)

/-- The packets in the bytes to come. -/
def packets : List IncomingPacket := (recvAll x.transport.reassembler x.stream).packets

/-- A turn waits when no packet is to come, and serves the first otherwise. -/
theorem turn?_cases : x.packets = [] ∧ x.turn? = .error .pending ∨
    ∃ p r rest, x.packets = p :: (x.served p r rest).packets ∧
    x.turn? = .ok (x.served p r rest) := by
  rw [packets, recvAll_eq, x.turn?_eq]
  cases (x.transport.reassembler.nextPacket x.stream).2 with
  | error e => exact .inl ⟨rfl, rfl⟩
  | ok received =>
    obtain ⟨p, r, rest⟩ := received
    exact .inr ⟨p, r, rest, rfl, rfl⟩

/-- The loop serves the packets to come, and waits. -/
theorem turns?_eq : ∃ x', x.turns? x.packets.length = .ok x' ∧ x'.turn? = .error .pending ∧
    x'.state = x.packets.foldl (fun st p => next p st) x.state ∧
    x'.words = x.words ++ ((answers x.state x.packets).flatMap encoded).map x.transport.pack := by
  induction hps : x.packets generalizing x with
  | nil =>
    obtain ⟨-, hwait⟩ | ⟨p, r, rest, hpackets, -⟩ := x.turn?_cases
    · exact ⟨x, rfl, hwait, rfl, (List.append_nil _).symm⟩
    · rw [hps] at hpackets
      cases hpackets
  | cons p ps ih =>
    obtain ⟨hnone, -⟩ | ⟨q, r, rest, hpackets, hturn⟩ := x.turn?_cases
    · rw [hps] at hnone
      cases hnone
    · rw [hps] at hpackets
      obtain ⟨rfl, htail⟩ := List.cons.inj hpackets
      obtain ⟨x', hturns, hwait, hstate, hwords⟩ := ih (x.served p r rest) htail.symm
      refine ⟨x', ?_, hwait, hstate, ?_⟩
      · rw [List.length_cons, turns?, hturn]
        exact hturns
      · rw [hwords, answers, List.flatMap_append, List.map_append, ← List.append_assoc]
        rfl

/-- Whatever bytes have come: the loop serves the packets in them, one a turn,
and waits. From the bytes it has sent the host reads the answers, and those
are the first answers whatever bytes come after. -/
theorem loop_answers (more : List Byte) :
    let sent := answers x.state x.packets
    (∃ x', x.turns? x.packets.length = .ok x' ∧ x'.turn? = .error .pending ∧
      x'.state = x.packets.foldl (fun st p => next p st) x.state ∧
      x'.words = x.words ++ (sent.flatMap encoded).map x.transport.pack) ∧
    (∀ host, recvAll host (sent.flatMap encoded) = ⟨sent.map received, [], .pending⟩) ∧
    sent <+: answers x.state { x with stream := x.stream ++ more }.packets := by
  refine ⟨x.turns?_eq, fun host => recvAll_frames host _, ?_⟩
  obtain ⟨later, h⟩ := packets_prefix x.transport.reassembler x.stream more
  have hmore : ({ x with stream := x.stream ++ more } : Serving).packets = x.packets ++ later :=
    h.symm
  rw [hmore, answers_append]
  exact List.prefix_append _ _

end Serving

end VintageKvm.Firmware
