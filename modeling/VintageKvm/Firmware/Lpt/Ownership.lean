import VintageKvm.Firmware.Lpt.Mux

/-!
# Who owns the hardware

`Conserved` says of a phy and the hardware beside it that between them they
have every state machine and the DMA channel once, and that the block's
memory, the ring and DIR are as the phy's mode has them. Building from `Idle`
hardware reaches it, dismantling undoes it.
-/

namespace VintageKvm.Firmware.Lpt

/-! ## Resources -/

/-- What phys take and hand back. -/
inductive Resource where
  | sm0 | sm1 | sm2 | dmaCh4
  deriving DecidableEq, Repr

def LptHardware.parked (hw : LptHardware) : List Resource :=
  (hw.parkedSm0.toList.map fun _ => .sm0) ++ (hw.parkedSm1.toList.map fun _ => .sm1)
    ++ (hw.parkedSm2.toList.map fun _ => .sm2) ++ (hw.parkedDmaCh4.toList.map fun _ => .dmaCh4)

namespace ActivePhy

def holds : ActivePhy → List Resource
  | .sppNibble _ | .byte _ | .ecp _ => [.sm0, .sm1, .dmaCh4]
  | .epp phy => [.sm0, .dmaCh4] ++ (phy.dirFollower.toList.map fun _ => .sm2)
      ++ (phy.parkedSm1.toList.map fun _ => .sm1)

def programs : ActivePhy → List LoadedProgram
  | .sppNibble phy => [phy.compatIn.program, phy.nibbleOut.program]
  | .byte phy => [phy.compatIn.program, phy.byteRev.program]
  | .epp phy => phy.epp.program :: phy.dirFollower.toList.map (·.program)
  | .ecp phy => [phy.fwd.program, phy.rev.program]

end ActivePhy

/-- The programs of a mode's phy. -/
def LptMode.programs : LptMode → List Program
  | .sppNibble => [compatInProgram, nibbleOutProgram]
  | .byte => [compatInProgram, byteRevProgram]
  | .epp => [eppProgram, dirFollowerProgram]
  | .ecp => [ecpFwdProgram, ecpRevProgram]
  | .spp | .ecpDma => []

/-- No phy is built. -/
structure Idle (hw : LptHardware) : Prop where
  sm0 : hw.parkedSm0.isSome
  sm1 : hw.parkedSm1.isSome
  sm2 : hw.parkedSm2.isSome
  dmaCh4 : hw.parkedDmaCh4.isSome
  memory : hw.board.instructionsUsed = ∅
  ring : hw.board.ringArmed = false
  dir : hw.board.dirFuncsel = .sio

theorem Idle.parked {hw : LptHardware} (hi : Idle hw) : ∃ sm0 sm1 sm2 dma,
    hw.parkedSm0 = some sm0 ∧ hw.parkedSm1 = some sm1 ∧ hw.parkedSm2 = some sm2 ∧
    hw.parkedDmaCh4 = some dma := by
  obtain ⟨sm0, h0⟩ := Option.isSome_iff_exists.mp hi.sm0
  obtain ⟨sm1, h1⟩ := Option.isSome_iff_exists.mp hi.sm1
  obtain ⟨sm2, h2⟩ := Option.isSome_iff_exists.mp hi.sm2
  obtain ⟨dma, hd⟩ := Option.isSome_iff_exists.mp hi.dmaCh4
  exact ⟨sm0, sm1, sm2, dma, h0, h1, h2, hd⟩

theorem Idle.not_armed {hw : LptHardware} (hi : Idle hw) : ¬ hw.board.ringArmed = true := by
  rw [hi.ring]
  decide

theorem Idle.not_pio0 {hw : LptHardware} (hi : Idle hw) : ¬ hw.board.dirFuncsel = .pio0 := by
  rw [hi.dir]
  decide

/-- `phy` is built beside `hw`. -/
structure Conserved (hw : LptHardware) (phy : ActivePhy) : Prop where
  owned : (hw.parked ++ phy.holds).Perm [.sm0, .sm1, .sm2, .dmaCh4]
  held : ∀ r, r ∈ phy.holds ↔ r ≠ .sm2 ∨ phy.mode = .epp
  code : phy.programs.map (·.code) = phy.mode.programs
  slots : ∀ p ∈ phy.programs, ∃ o, p.usedMemory = slots o p.code.length
  apart : phy.programs.Pairwise fun p q => Disjoint p.usedMemory q.usedMemory
  memory : hw.board.instructionsUsed = (phy.programs.map (·.usedMemory)).foldr (· ∪ ·) ∅
  fits : hw.board.instructionsUsed.card = (phy.mode.programs.map List.length).sum
  ring : hw.board.ringArmed = true ↔ phy.mode = .sppNibble ∨ phy.mode = .byte
  dir : hw.board.dirFuncsel = .pio0 ↔ phy.mode = .epp

/-- Two programs, each in slots of its own, are all a phy has in memory. -/
theorem Conserved.of_pair {hw : LptHardware} {phy : ActivePhy} {c c' : Program} {o o' : Fin 32}
    (hphy : phy.programs = [⟨c, Lpt.slots o c.length⟩, ⟨c', Lpt.slots o' c'.length⟩])
    (hmode : phy.mode.programs = [c, c']) (hlen : c.length + c'.length ≤ 32)
    (hapart : Disjoint (Lpt.slots o c.length) (Lpt.slots o' c'.length))
    (hmemory : hw.board.instructionsUsed = Lpt.slots o c.length ∪ Lpt.slots o' c'.length)
    (howned : (hw.parked ++ phy.holds).Perm [.sm0, .sm1, .sm2, .dmaCh4])
    (hheld : ∀ r, r ∈ phy.holds ↔ r ≠ .sm2 ∨ phy.mode = .epp)
    (hring : hw.board.ringArmed = true ↔ phy.mode = .sppNibble ∨ phy.mode = .byte)
    (hdir : hw.board.dirFuncsel = .pio0 ↔ phy.mode = .epp) : Conserved hw phy where
  owned := howned
  held := hheld
  code := by rw [hphy, hmode]; rfl
  slots := by
    rw [hphy]
    simp only [List.forall_mem_cons, List.not_mem_nil, IsEmpty.forall_iff, implies_true, and_true]
    exact ⟨⟨o, rfl⟩, o', rfl⟩
  apart := by
    rw [hphy]
    exact List.pairwise_pair.mpr hapart
  memory := by
    rw [hphy, hmemory]
    simp only [List.map_cons, List.map_nil, List.foldr_cons, List.foldr_nil, Finset.union_empty]
  fits := by
    rw [hmemory, hmode, Finset.card_union_of_disjoint hapart, card_slots o (by omega),
      card_slots o' (by omega)]
    rfl
  ring := hring
  dir := hdir

/-- The bus side: D0..D7 are outputs of PIO0 or not, and under CPU control DIR
is driven low. -/
structure Wired (hw : LptHardware) (driven : Bool) : Prop where
  pins : hw.pins = {}
  oe : hw.board.dirOe = true
  low : hw.board.dirSio = .low
  data : ∀ p ∈ hw.pins.d, hw.board.pinDirs p = if driven then .output else .input

theorem Wired.frame {hw hw' : LptHardware} {driven d : Bool} (h : Wired hw driven)
    (hpins : hw'.pins = hw.pins) (hoe : hw'.board.dirOe = hw.board.dirOe)
    (hlow : hw'.board.dirSio = hw.board.dirSio)
    (hdata : ({} : LptPins).d.Forall fun p => hw'.board.pinDirs p =
      if d then .output else hw.board.pinDirs p) :
    Wired hw' (driven || d) where
  pins := hpins.trans h.pins
  oe := hoe.trans h.oe
  low := hlow.trans h.low
  data p hp := by
    rw [hpins] at hp
    rw [List.forall_iff_forall_mem.mp hdata p (h.pins ▸ hp), h.data p hp]
    cases d
    · rw [Bool.or_false, if_neg Bool.false_ne_true]
    · rw [Bool.or_true, if_pos rfl, if_pos rfl]

/-- The modes whose reverse block makes D0..D7 outputs. -/
def LptMode.drivesData : LptMode → Bool
  | .byte | .ecp => true
  | .spp | .sppNibble | .epp | .ecpDma => false

/-! ## Building -/

/-- `phy` came up beside `hw'`, from `hw`. -/
structure Built (hw hw' : LptHardware) (phy : ActivePhy) : Prop where
  conserved : Conserved hw' phy
  wired {driven : Bool} : Wired hw driven → Wired hw' (driven || phy.mode.drivesData)

theorem held_without_sm2 {mode : LptMode} (h : mode ≠ .epp) (r : Resource) :
    r ∈ [Resource.sm0, .sm1, .dmaCh4] ↔ r ≠ .sm2 ∨ mode = .epp := by
  rw [or_iff_left h]
  cases r <;> decide

theorem held_with_sm2 (r : Resource) : r ∈ [Resource.sm0, .dmaCh4, .sm2, .sm1] := by
  cases r <;> decide

/-- Outside EPP a phy takes SM0, SM1 and the channel, and leaves DIR to the CPU. -/
theorem Built.of_pair {hw hw' : LptHardware} {phy : ActivePhy} {c c' : Program} {o o' : Fin 32}
    (hi : Idle hw) (hne : phy.mode ≠ .epp) (hmode : phy.mode.programs = [c, c'])
    (hlen : c.length + c'.length ≤ 32)
    (hapart : Disjoint (Lpt.slots o c.length) (Lpt.slots o' c'.length))
    (hphy : phy.programs = [⟨c, Lpt.slots o c.length⟩, ⟨c', Lpt.slots o' c'.length⟩])
    (hmemory : hw'.board.instructionsUsed = Lpt.slots o c.length ∪ Lpt.slots o' c'.length)
    (hholds : phy.holds = [.sm0, .sm1, .dmaCh4]) (hparked : hw'.parked = [.sm2])
    (hring : hw'.board.ringArmed = true ↔ phy.mode = .sppNibble ∨ phy.mode = .byte)
    (hdir : hw'.board.dirFuncsel = hw.board.dirFuncsel) (hwired : ∀ {driven}, Wired hw driven →
      Wired hw' (driven || phy.mode.drivesData)) : Built hw hw' phy where
  conserved := by
    refine .of_pair hphy hmode hlen hapart hmemory ?_ (fun r => ?_) hring (iff_of_false ?_ hne)
    · rw [hparked, hholds]
      exact show ([.sm2, .sm0, .sm1, .dmaCh4] : List Resource).Perm _ by decide
    · rw [hholds]
      exact held_without_sm2 hne r
    · rw [hdir]
      exact hi.not_pio0
  wired := hwired

section Build

variable {load : Loader} (hl : Loads load) {hw : LptHardware} (hi : Idle hw)
include hl hi

theorem SppNibblePhy.build_ok :
    ∃ phy hw', build load hw = .ok (phy, hw') ∧ Built hw hw' (.sppNibble phy) := by
  obtain ⟨sm0, sm1, sm2, dma, h0, h1, h2, hd⟩ := hi.parked
  obtain ⟨o, o', ho, ho', hapart⟩ :=
    hl.pair (n := compatInProgram.length) (k := nibbleOutProgram.length) (by decide)
  simp only [build, h0, h1, hd, expect_some, PioCompatIn.new, PioNibbleOut.new, Board.start,
    Board.loadProgram, hi.memory, ho, ho', bind, Except.bind, pure, Except.pure, Board.arm,
    Board.setPins, Board.setPinDirs, Finset.empty_union]
  refine ⟨_, _, rfl, .of_pair hi (show LptMode.sppNibble ≠ .epp by decide) rfl
    (by decide) hapart rfl rfl rfl ?_
    (iff_of_true rfl (.inl rfl)) rfl fun hwired => hwired.frame rfl rfl rfl ?_⟩
  · rw [LptHardware.parked, h2]
    rfl
  · rw [hwired.pins]
    exact ⟨rfl, rfl, rfl, rfl, rfl, rfl, rfl, rfl⟩

theorem BytePhy.build_ok :
    ∃ phy hw', build load hw = .ok (phy, hw') ∧ Built hw hw' (.byte phy) := by
  obtain ⟨sm0, sm1, sm2, dma, h0, h1, h2, hd⟩ := hi.parked
  obtain ⟨o, o', ho, ho', hapart⟩ :=
    hl.pair (n := compatInProgram.length) (k := byteRevProgram.length) (by decide)
  simp only [build, h0, h1, hd, expect_some, PioCompatIn.new, PioByteRev.new, Board.start,
    Board.loadProgram, hi.memory, ho, ho', bind, Except.bind, pure, Except.pure, Board.arm,
    Board.setPins, Board.setPinDirs, Finset.empty_union]
  refine ⟨_, _, rfl, .of_pair hi (show LptMode.byte ≠ .epp by decide) rfl
    (by decide) hapart rfl rfl rfl ?_
    (iff_of_true rfl (.inr rfl)) rfl fun hwired => hwired.frame rfl rfl rfl ?_⟩
  · rw [LptHardware.parked, h2]
    rfl
  · rw [hwired.pins]
    exact ⟨rfl, rfl, rfl, rfl, rfl, rfl, rfl, rfl⟩

theorem EppPhy.build_ok : ∃ phy hw', build load hw = .ok (phy, hw') ∧ Built hw hw' (.epp phy) := by
  obtain ⟨sm0, sm1, sm2, dma, h0, h1, h2, hd⟩ := hi.parked
  obtain ⟨o, o', ho, ho', hapart⟩ :=
    hl.pair (n := eppProgram.length) (k := dirFollowerProgram.length) (by decide)
  simp only [build, h0, h1, h2, hd, expect_some, PioEpp.new, PioDirFollower.new, Board.start,
    Board.loadProgram, hi.memory, ho, ho', bind, Except.bind, pure, Except.pure,
    Board.setDirFuncsel, Board.setPinDirs, Finset.empty_union]
  refine ⟨_, _, rfl, .of_pair rfl rfl (by decide) hapart rfl ?_ ?_ ?_ ?_,
    fun hwired => hwired.frame rfl rfl rfl ?_⟩
  · exact show ([.sm0, .dmaCh4, .sm2, .sm1] : List Resource).Perm _ by decide
  · exact fun r => iff_of_true (held_with_sm2 r) (.inr rfl)
  · exact iff_of_false hi.not_armed
      (show ¬ (LptMode.epp = .sppNibble ∨ LptMode.epp = .byte) by decide)
  · exact iff_of_true rfl rfl
  · rw [hwired.pins]
    exact ⟨rfl, rfl, rfl, rfl, rfl, rfl, rfl, rfl⟩

theorem EcpPhy.build_ok : ∃ phy hw', build load hw = .ok (phy, hw') ∧ Built hw hw' (.ecp phy) := by
  obtain ⟨sm0, sm1, sm2, dma, h0, h1, h2, hd⟩ := hi.parked
  obtain ⟨o, o', ho, ho', hapart⟩ :=
    hl.pair (n := ecpFwdProgram.length) (k := ecpRevProgram.length) (by decide)
  simp only [build, h0, h1, hd, expect_some, PioEcpFwd.new, PioEcpRev.new, Board.start,
    Board.loadProgram, hi.memory, ho, ho', bind, Except.bind, pure, Except.pure, Board.setPins,
    Board.setPinDirs, Finset.empty_union]
  refine ⟨_, _, rfl, .of_pair hi (show LptMode.ecp ≠ .epp by decide) rfl
    (by decide) hapart rfl rfl rfl ?_ ?_ rfl fun hwired => hwired.frame rfl rfl rfl ?_⟩
  · rw [LptHardware.parked, h2]
    rfl
  · exact iff_of_false hi.not_armed
      (show ¬ (LptMode.ecp = .sppNibble ∨ LptMode.ecp = .byte) by decide)
  · rw [hwired.pins]
    exact ⟨rfl, rfl, rfl, rfl, rfl, rfl, rfl, rfl⟩

end Build

/-! ## Dismantling -/

namespace Conserved

variable {hw : LptHardware} {phy : ActivePhy} (hc : Conserved hw phy)
include hc

/-- Outside EPP, SM2 is parked. -/
theorem parkedSm2 (hmode : phy.mode ≠ .epp) : hw.parkedSm2.isSome := by
  have hmem : Resource.sm2 ∈ hw.parked ++ phy.holds := hc.owned.mem_iff.mpr (by decide)
  have hparked := (List.mem_append.mp hmem).resolve_right (mt (hc.held _).mp (by simpa using hmode))
  cases hsm2 : hw.parkedSm2 with
  | some _ => rfl
  | none =>
    simp only [LptHardware.parked, hsm2, List.mem_append, List.mem_map] at hparked
    simp at hparked

theorem dir_sio (hmode : phy.mode ≠ .epp) : hw.board.dirFuncsel = .sio := by
  cases hsel : hw.board.dirFuncsel with
  | sio => rfl
  | pio0 => exact absurd (hc.dir.mp hsel) hmode

theorem ring_off (hmode : ¬ (phy.mode = .sppNibble ∨ phy.mode = .byte)) :
    hw.board.ringArmed = false :=
  Bool.eq_false_iff.mpr (mt hc.ring.mp hmode)

end Conserved

/-- Freeing a phy's two programs, in either order, empties the memory. -/
theorem free_pair {u s t : Finset (Fin 32)} (h : u = s ∪ (t ∪ ∅)) : (u \ t) \ s = ∅ := by
  rw [h, Finset.union_empty, sdiff_sdiff_left, sup_comm]
  exact Finset.sdiff_self _

/-- `hw'` is left when the phy beside `hw` is dismantled. -/
structure Dismantled (hw hw' : LptHardware) : Prop where
  idle : Idle hw'
  wired {driven : Bool} : Wired hw driven → Wired hw' driven

theorem ActivePhy.dismantle_ok {hw : LptHardware} {phy : ActivePhy} (hc : Conserved hw phy) :
    ∃ hw', phy.dismantle hw = .ok hw' ∧ Dismantled hw hw' := by
  cases phy with
  | sppNibble phy =>
    have hne : LptMode.sppNibble ≠ .epp := by decide
    refine ⟨_, rfl, ⟨rfl, rfl, hc.parkedSm2 hne, rfl, free_pair hc.memory, rfl, hc.dir_sio hne⟩,
      fun h => ?_⟩
    exact ⟨h.pins, h.oe, h.low, h.data⟩
  | byte phy =>
    have hne : LptMode.byte ≠ .epp := by decide
    refine ⟨_, rfl, ⟨rfl, rfl, hc.parkedSm2 hne, rfl, free_pair hc.memory, rfl, hc.dir_sio hne⟩,
      fun h => ?_⟩
    exact ⟨h.pins, h.oe, h.low, h.data⟩
  | epp phy =>
    obtain ⟨epp, dirFollower, parkedSm1⟩ := phy
    cases dirFollower with
    | none =>
      exact absurd (congrArg List.length hc.code)
        (by simp [ActivePhy.programs, ActivePhy.mode, LptMode.programs])
    | some dirFollower =>
      have hsm1 : parkedSm1.isSome := by
        have hmem := (hc.held .sm1).mpr (.inr rfl)
        cases parkedSm1 with
        | some _ => rfl
        | none => exact absurd hmem (show Resource.sm1 ∉ [.sm0, .dmaCh4, .sm2] by decide)
      refine ⟨_, rfl,
        ⟨rfl, hsm1, rfl, rfl, ?_,
          hc.ring_off (show ¬ (LptMode.epp = .sppNibble ∨ LptMode.epp = .byte) by decide), rfl⟩,
          fun h => ⟨h.pins, h.oe, h.low, h.data⟩⟩
      exact free_pair hc.memory
  | ecp phy =>
    have hne : LptMode.ecp ≠ .epp := by decide
    refine ⟨_, rfl, ⟨rfl, rfl, hc.parkedSm2 hne, rfl, free_pair hc.memory, ?_, hc.dir_sio hne⟩,
      fun h => ?_⟩
    · exact hc.ring_off (show ¬ (LptMode.ecp = .sppNibble ∨ LptMode.ecp = .byte) by decide)
    · exact ⟨h.pins, h.oe, h.low, h.data⟩

end VintageKvm.Firmware.Lpt
