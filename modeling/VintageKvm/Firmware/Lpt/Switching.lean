import VintageKvm.Firmware.Lpt.Ownership

/-!
# Switching modes

What a run of switches comes to is a mode and whether D0..D7 have been made
outputs (`Served`); the multiplexer refines this step by step, whatever slots
the loader finds.
-/

namespace VintageKvm.Firmware.Lpt

/-! ## What a switch is for -/

/-- The mode a target is served in. -/
def LptMode.served : LptMode → LptMode
  | .spp | .ecpDma => .sppNibble
  | target => target

def LptMode.answer : LptMode → Except LptError Unit
  | .spp | .ecpDma => .error .modeMismatch
  | _ => .ok ()

structure Served where
  mode : LptMode
  /-- D0..D7 have been made outputs. -/
  driven : Bool

def Served.switch (s : Served) (target : LptMode) : Served :=
  ⟨target.served, s.driven || target.served.drivesData⟩

theorem Served.foldl_mode (s : Served) (targets : List LptMode) :
    (targets.foldl switch s).mode = (targets.getLast?.map LptMode.served).getD s.mode := by
  induction targets generalizing s with
  | nil => rfl
  | cons target targets ih =>
    rw [List.foldl_cons, ih, List.getLast?_cons]
    cases targets.getLast? <;> rfl

theorem Served.foldl_driven (s : Served) (targets : List LptMode) :
    (targets.foldl switch s).driven = (s.driven || targets.any (·.served.drivesData)) := by
  induction targets generalizing s with
  | nil => exact (Bool.or_false _).symm
  | cons target targets ih => rw [List.foldl_cons, ih, List.any_cons, switch, Bool.or_assoc]

/-! ## The multiplexer refines it -/

/-- What the multiplexer holds is what `s` says. -/
structure Refines (mux : LptMux) (s : Served) (phy : ActivePhy) : Prop where
  active : mux.active = some phy
  mode : phy.mode = s.mode
  conserved : Conserved mux.hw phy
  wired : Wired mux.hw s.driven

theorem Refines.currentMode {mux : LptMux} {s : Served} {phy : ActivePhy} (h : Refines mux s phy) :
    mux.currentMode = .ok s.mode := by
  rw [LptMux.currentMode, h.active, ← h.mode]
  rfl

theorem Built.refines {hw hw' : LptHardware} {phy : ActivePhy} (h : Built hw hw' phy) {s : Served}
    (hwired : Wired hw s.driven) {target : LptMode} (hmode : phy.mode = target.served) :
    Refines ⟨hw', some phy⟩ (s.switch target) phy where
  active := rfl
  mode := hmode
  conserved := h.conserved
  wired := by
    rw [Served.switch, ← hmode]
    exact h.wired hwired

theorem Dismantled.setTransceiverMode {hw hw' : LptHardware} (h : Dismantled hw hw')
    (target : LptMode) : Dismantled hw (hw'.setTransceiverMode target) where
  idle := ⟨h.idle.sm0, h.idle.sm1, h.idle.sm2, h.idle.dmaCh4, h.idle.memory,
    h.idle.ring, h.idle.dir⟩
  wired hwired :=
    ⟨(h.wired hwired).pins, (h.wired hwired).oe, by cases target <;> rfl, (h.wired hwired).data⟩

theorem Idle.new (sm0 : StateMachine 0) (sm1 : StateMachine 1) (sm2 : StateMachine 2)
    (dma : DmaChannel 4) : Idle (LptHardware.new sm0 sm1 sm2 dma) :=
  ⟨rfl, rfl, rfl, rfl, rfl, rfl, rfl⟩

theorem Wired.new (sm0 : StateMachine 0) (sm1 : StateMachine 1) (sm2 : StateMachine 2)
    (dma : DmaChannel 4) : Wired (LptHardware.new sm0 sm1 sm2 dma) false :=
  ⟨rfl, rfl, rfl, fun _ _ => rfl⟩

/-- The phy that a target is served by, built. -/
def LptMode.build (load : Loader) (hw : LptHardware) :
    LptMode → Except Panic (ActivePhy × LptHardware)
  | .sppNibble | .spp | .ecpDma => do
    let (phy, hw) ← SppNibblePhy.build load hw
    pure (.sppNibble phy, hw)
  | .byte => do
    let (phy, hw) ← BytePhy.build load hw
    pure (.byte phy, hw)
  | .epp => do
    let (phy, hw) ← EppPhy.build load hw
    pure (.epp phy, hw)
  | .ecp => do
    let (phy, hw) ← EcpPhy.build load hw
    pure (.ecp phy, hw)

/-- A switch is the same for all targets, but for the phy and the answer. -/
theorem LptMux.switchTo_eq (load : Loader) (mux : LptMux) (target : LptMode) :
    mux.switchTo load target = (do
    let _ ← mux.currentMode
    let old ← expect mux.active "phy slot must be populated"
    let hw ← old.dismantle mux.hw
    let (phy, hw) ← target.build load (hw.setTransceiverMode target.served)
    pure (target.answer, { hw, active := some phy })) := by
  cases target <;> simp only [switchTo, LptMode.build, LptMode.served, LptMode.answer,
    bind_assoc, pure_bind]

section Run

variable {load : Loader} (hl : Loads load)
include hl

theorem LptMux.new_refines {hw : LptHardware} (hi : Idle hw) (hwired : Wired hw false) :
    ∃ mux phy, LptMux.new load hw = .ok mux ∧ Refines mux ⟨.sppNibble, false⟩ phy := by
  obtain ⟨phy, hw', hbuild, hbuilt⟩ := SppNibblePhy.build_ok hl hi
  refine ⟨{ hw := hw', active := some (.sppNibble phy) }, _, ?_, rfl, rfl, hbuilt.conserved,
    hbuilt.wired hwired⟩
  rw [LptMux.new, hbuild]
  rfl

/-- From idle hardware the phy of a target comes up. -/
theorem LptMode.build_ok {hw : LptHardware} (hi : Idle hw) (target : LptMode) :
    ∃ phy hw', target.build load hw = .ok (phy, hw') ∧ phy.mode = target.served ∧
      Built hw hw' phy := by
  cases target with
  | sppNibble | spp | ecpDma =>
    obtain ⟨phy, hw', hbuild, hbuilt⟩ := SppNibblePhy.build_ok hl hi
    exact ⟨_, hw', congrArg (· >>= _) hbuild, rfl, hbuilt⟩
  | byte =>
    obtain ⟨phy, hw', hbuild, hbuilt⟩ := BytePhy.build_ok hl hi
    exact ⟨_, hw', congrArg (· >>= _) hbuild, rfl, hbuilt⟩
  | epp =>
    obtain ⟨phy, hw', hbuild, hbuilt⟩ := EppPhy.build_ok hl hi
    exact ⟨_, hw', congrArg (· >>= _) hbuild, rfl, hbuilt⟩
  | ecp =>
    obtain ⟨phy, hw', hbuild, hbuilt⟩ := EcpPhy.build_ok hl hi
    exact ⟨_, hw', congrArg (· >>= _) hbuild, rfl, hbuilt⟩

/-- One switch. -/
theorem Refines.switchTo {mux : LptMux} {s : Served} {old : ActivePhy} (h : Refines mux s old)
    (target : LptMode) : ∃ mux' phy, mux.switchTo load target = .ok (target.answer, mux') ∧
      Refines mux' (s.switch target) phy := by
  obtain ⟨hw, hold, hdown⟩ := ActivePhy.dismantle_ok h.conserved
  have hready := hdown.setTransceiverMode target.served
  obtain ⟨phy, hw', hbuild, hmode, hbuilt⟩ := LptMode.build_ok hl hready.idle target
  refine ⟨⟨hw', some phy⟩, phy, ?_, hbuilt.refines (hready.wired h.wired) hmode⟩
  rw [LptMux.switchTo_eq, h.currentMode, h.active, expect_some]
  show (old.dismantle mux.hw >>= _) = _
  rw [hold]
  show (target.build load (hw.setTransceiverMode target.served) >>= _) = _
  rw [hbuild]
  rfl

/-- A run of switches. -/
theorem Refines.switches {mux : LptMux} {s : Served} {old : ActivePhy} (h : Refines mux s old)
    (targets : List LptMode) :
      ∃ mux' phy,
        mux.switches load targets = .ok (targets.map fun t => (t.answer, t.served), mux') ∧
      Refines mux' (targets.foldl Served.switch s) phy := by
  induction targets generalizing mux s old with
  | nil => exact ⟨mux, old, rfl, h⟩
  | cons target targets ih =>
    obtain ⟨mux₁, phy₁, hstep, h₁⟩ := h.switchTo hl target
    obtain ⟨mux₂, phy₂, hrun, h₂⟩ := ih h₁
    refine ⟨mux₂, phy₂, ?_, h₂⟩
    simp only [LptMux.switches, hstep, h₁.currentMode, hrun, bind, Except.bind]
    rfl

/-- From boot, whatever the targets: no run stops, each call answers and leaves
a mode as its target says, and between the phy and the parking slots nothing
is lost, doubled or left over. -/
theorem LptMux.switches_conserve (sm0 : StateMachine 0) (sm1 : StateMachine 1)
    (sm2 : StateMachine 2) (dma : DmaChannel 4) (targets : List LptMode) :
    ∃ boot mux phy, LptMux.new load (LptHardware.new sm0 sm1 sm2 dma) = .ok boot ∧
      boot.switches load targets = .ok (targets.map fun t => (t.answer, t.served), mux) ∧
      mux.active = some phy ∧ Conserved mux.hw phy ∧
      phy.mode = (targets.getLast?.map LptMode.served).getD .sppNibble := by
  obtain ⟨boot, _, hnew, hboot⟩ :=
    LptMux.new_refines hl (Idle.new sm0 sm1 sm2 dma) (Wired.new sm0 sm1 sm2 dma)
  obtain ⟨mux, phy, hrun, h⟩ := hboot.switches hl targets
  exact ⟨boot, mux, phy, hnew, hrun, h.active, h.conserved, h.mode.trans (Served.foldl_mode _ _)⟩

end Run

theorem LptMux.switches_conserve_tour :
    ∃ boot mux phy, LptMux.new firstFit (LptHardware.new ⟨none, false⟩ ⟨none, false⟩ ⟨none,
      false⟩ ⟨⟩) = .ok boot ∧ boot.switches firstFit [.epp, .epp, .ecpDma, .byte, .ecp] =
        .ok ([(.ok (), .epp), (.ok (), .epp), (.error .modeMismatch, .sppNibble), (.ok (), .byte),
          (.ok (), .ecp)], mux) ∧
      mux.active = some phy ∧ Conserved mux.hw phy ∧ phy.mode = .ecp :=
  LptMux.switches_conserve firstFit_loads _ _ _ _ [.epp, .epp, .ecpDma, .byte, .ecp]

/-! ## The data bus -/

/-- Where the CPU holds DIR low, the host drives the data bus: D0..D7 are not
outputs. -/
def DataSafe (hw : LptHardware) : Prop :=
  hw.board.dirFuncsel = .sio → hw.board.dirOe = true → hw.board.dirSio = .low →
    ∀ p ∈ hw.pins.d, hw.board.pinDirs p ≠ .output

theorem Refines.dataSafe_iff {mux : LptMux} {s : Served} {phy : ActivePhy} (h : Refines mux s phy) :
    DataSafe mux.hw ↔ s.driven = false ∨ s.mode = .epp := by
  constructor
  · intro hsafe
    by_contra hne
    obtain ⟨hdriven, hmode⟩ := not_or.mp hne
    have hd0 : 12 ∈ mux.hw.pins.d := h.wired.pins ▸ by decide
    refine hsafe (h.conserved.dir_sio (h.mode ▸ hmode)) h.wired.oe h.wired.low 12 hd0 ?_
    rw [h.wired.data 12 hd0, if_pos (Bool.of_not_eq_false hdriven)]
  · rintro (hdriven | hmode) hsio _ _ p hp
    · rw [h.wired.data p hp, hdriven]
      decide
    · rw [h.conserved.dir.mpr (h.mode.trans hmode)] at hsio
      exact absurd hsio (by decide)

theorem switch_driven_iff (targets : List LptMode) :
    (targets.foldl Served.switch ⟨.sppNibble, false⟩).driven = false ↔ ∀ t ∈ targets, t ≠ .byte ∧
      t ≠ .ecp := by
  rw [Served.foldl_driven, Bool.false_or, List.any_eq_false]
  refine forall₂_congr fun t _ => ?_
  cases t <;> decide

theorem switch_mode_epp_iff (targets : List LptMode) :
    (targets.foldl Served.switch ⟨.sppNibble, false⟩).mode = .epp ↔
      targets.getLast? = some .epp := by
  rw [Served.foldl_mode]
  cases targets.getLast? with
  | none => exact iff_of_false (by decide) (by decide)
  | some t => cases t <;> decide

/-- D0..D7 once made outputs stay outputs: after a switch to byte or ECP mode
only EPP, where PIO0 has DIR, does not drive them against the host. -/
theorem LptMux.data_safe_iff {load : Loader} (hl : Loads load) (sm0 : StateMachine 0)
    (sm1 : StateMachine 1) (sm2 : StateMachine 2) (dma : DmaChannel 4) (targets : List LptMode) :
    ∃ boot results mux, LptMux.new load (LptHardware.new sm0 sm1 sm2 dma) = .ok boot ∧
      boot.switches load targets = .ok (results, mux) ∧
      (DataSafe mux.hw ↔ (∀ t ∈ targets, t ≠ .byte ∧ t ≠ .ecp) ∨ targets.getLast? = some .epp) := by
  obtain ⟨boot, _, hnew, hboot⟩ :=
    LptMux.new_refines hl (Idle.new sm0 sm1 sm2 dma) (Wired.new sm0 sm1 sm2 dma)
  obtain ⟨mux, phy, hrun, h⟩ := hboot.switches hl targets
  refine ⟨boot, _, mux, hnew, hrun, ?_⟩
  rw [h.dataSafe_iff, switch_driven_iff, switch_mode_epp_iff]

theorem LptMux.data_safe_iff_byte_epp :
    ∃ boot results mux, LptMux.new firstFit (LptHardware.new ⟨none, false⟩ ⟨none, false⟩ ⟨none,
      false⟩ ⟨⟩) = .ok boot ∧ boot.switches firstFit [.byte, .epp] = .ok (results, mux) ∧
      (DataSafe mux.hw ↔
        (∀ t ∈ [LptMode.byte, .epp], t ≠ .byte ∧ t ≠ .ecp) ∨
          [LptMode.byte, .epp].getLast? = some .epp) :=
  LptMux.data_safe_iff firstFit_loads _ _ _ _ [.byte, .epp]

/-- One switch to byte mode, and both sides drive the bus. -/
theorem LptMux.byte_contends :
    ∃ boot results mux, LptMux.new firstFit (LptHardware.new ⟨none, false⟩ ⟨none, false⟩ ⟨none,
      false⟩ ⟨⟩) = .ok boot ∧ boot.switches firstFit [.byte] = .ok (results, mux) ∧
      ¬ DataSafe mux.hw := by
  obtain ⟨boot, _, hnew, hboot⟩ :=
    LptMux.new_refines firstFit_loads (Idle.new ⟨none, false⟩ ⟨none, false⟩ ⟨none, false⟩ ⟨⟩)
    (Wired.new _ _ _ _)
  obtain ⟨mux, phy, hrun, h⟩ := hboot.switches firstFit_loads [.byte]
  refine ⟨boot, _, mux, hnew, hrun, ?_⟩
  rw [h.dataSafe_iff]
  decide

end VintageKvm.Firmware.Lpt
