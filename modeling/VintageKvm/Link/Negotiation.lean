import VintageKvm.Lib.Run
import VintageKvm.Dos.Stage1.Negotiate
import VintageKvm.Firmware.Lpt.Negotiator

/-!
# IEEE 1284 negotiation, both ends

`ieee1284_negotiate` and the negotiator on the same lines: in a turn one of
them makes its next access, or a deadline of the negotiator passes. Nothing
makes the host wait for the negotiator's last answer before it reads Select,
which is high from the first one on. `agrees_iff_timely`: the two agree where Select
has been read only after the strobe has been seen, for a mode that there is,
and the release of nAutoFd comes before its deadline.
-/

namespace VintageKvm.Link

open I8086 Dos Stage1 Firmware.Lpt

/-! ## The lines -/

/-- The host's port, and the negotiator behind it. -/
structure Wires where
  base : Word
  data : Byte
  control : Byte
  status : StatusLines
  /-- The bits of the status register that the negotiator does not drive. -/
  busy : Bool
  rest : BitVec 3
  negotiator : Negotiator

namespace Wires

/-- Bits 0, 1 and 3 of the control register are inverted on the line. -/
def hostLines (w : Wires) : HostLines where
  nStrobe := !w.control.getLsbD 0
  nAutoFd := !w.control.getLsbD 1
  nSelectIn := !w.control.getLsbD 3
  data := w.data

/-- The status register. -/
def statusByte (w : Wires) : Byte :=
  BitVec.ofBool w.busy ++ BitVec.ofBool w.status.nAck ++ BitVec.ofBool w.status.pError ++
    BitVec.ofBool w.status.select ++ BitVec.ofBool w.status.nFault ++ w.rest

instance : Ports Wires where
  inp p w := (if p = w.base + LPT_STATUS then w.statusByte else 0, w)
  out p v w :=
    if p = w.base + LPT_DATA then { w with data := v }
    else if p = w.base + LPT_CONTROL then { w with control := v }
    else w

/-- What the negotiator can do. -/
inductive Turn where
  | poll
  | deadline
  deriving DecidableEq, Repr

def play (w : Wires) : Turn → Wires
  | .poll => { w with
      negotiator := (w.negotiator.poll w.hostLines w.status).1
      status := (w.negotiator.poll w.hostLines w.status).2 }
  | .deadline => { w with negotiator := w.negotiator.expire w.hostLines }

theorem statusByte_select (w : Wires) :
    w.statusByte &&& STAT_SELECT_BIT = 0 ↔ w.status.select = false := by
  obtain ⟨-, -, -, ⟨nAck, pError, select, nFault⟩, busy, rest, -⟩ := w
  show BitVec.ofBool busy ++ BitVec.ofBool nAck ++ BitVec.ofBool pError ++ BitVec.ofBool select ++
    BitVec.ofBool nFault ++ rest &&& STAT_SELECT_BIT = 0 ↔ select = false
  revert nAck pError select nFault busy rest
  decide +kernel

end Wires

/-- The host and the lines. -/
structure Negotiation where
  host : Negotiate
  wires : Wires

namespace Negotiation

inductive Turn where
  | host
  | negotiator (t : Wires.Turn)
  deriving DecidableEq, Repr

/-- One access of the host with the byte it asks for, or a turn of the
negotiator. -/
def step (xflag : Byte) (s : Negotiation) : Turn → Negotiation
  | .host =>
    let x := Negotiate.turn s.wires.base xflag (s.host, s.wires)
    ⟨x.1, x.2⟩
  | .negotiator t => { s with wires := s.wires.play t }

/-- Before the negotiation: the lines are not those of a request. -/
structure Idle (s : Negotiation) : Prop where
  host : s.host = .data
  negotiator : s.wires.negotiator = .nSelectIn
  lines : s.wires.hostLines.nSelectIn = false ∨ s.wires.hostLines.nAutoFd = true

/-- The host has not accepted where the handshake has failed, nor the other
way about. -/
def Agrees (s : Negotiation) : Prop :=
  ¬ (s.host = .returned true ∧ ∃ e, s.wires.negotiator = .done (.error e)) ∧
    ¬ (s.host = .returned false ∧ ∃ mode, s.wires.negotiator = .done (.ok mode))

/-- Both have returned. -/
def Returned (s : Negotiation) : Prop := (∃ accepted, s.host = .returned accepted) ∧ ∃ r,
  s.wires.negotiator = .done r

/-- In a handshake past the strobe, for a byte that has a mode. -/
def accepting : Negotiator → Bool
  | .wait xrv .strobeEnd => (xrvToMode xrv).isSome
  | .drive xrv _ .release => (xrvToMode xrv).isSome
  | .wait xrv .release => (xrvToMode xrv).isSome
  | .done (.ok _) => true
  | _ => false

/-- Waiting for what is not there. -/
def Waits (h : HostLines) : Negotiator → Prop
  | .wait _ w => ¬ w.Met h
  | _ => False

instance (h : HostLines) : (n : Negotiator) → Decidable (Waits h n)
  | .wait _ w => inferInstanceAs (Decidable (¬ w.Met h))
  | .nSelectIn | .nAutoFd | .dataBus | .drive _ _ _ | .done _ => isFalse id

/-- The host finds Select high only when the handshake is past the strobe,
for a byte that has a mode; and no deadline passes between that and its
release of nAutoFd. -/
def Timely (s : Negotiation) : Turn → Prop
  | .host => s.host = .select → s.wires.status.select = true → accepting s.wires.negotiator
  | .negotiator .poll => True
  | .negotiator .deadline => s.host = .commit → ¬ Waits s.wires.hostLines s.wires.negotiator

instance (s : Negotiation) : (t : Turn) → Decidable (Timely s t)
  | .host => inferInstanceAs (Decidable (_ → _))
  | .negotiator .poll => isTrue trivial
  | .negotiator .deadline => inferInstanceAs (Decidable (_ → _))

/-! ## What holds in every run -/

/-- The request is on the lines, or has been. -/
def requested : Negotiate → Bool
  | .data | .request => false
  | _ => true

/-- Past the falling edge of the strobe, and not rejecting. -/
def strobed : Negotiate → Bool
  | .strobeEnd | .select | .commit | .returned true => true
  | _ => false

/-- The control register, `c₀` before the request. -/
def controlAt (c₀ : Byte) : Negotiate → Byte
  | .data | .request => c₀
  | .strobeEnd => CTRL_NEG_STRB
  | .returned true => CTRL_NEG_ACK
  | .returned false => CTRL_BASE
  | _ => CTRL_NEG_REQ

/-- Past the strobe, for a byte that has a mode: Select stays high, and the
host does not reject. -/
def Past (xflag : Byte) (host : Negotiate) (select : Bool) : Prop :=
  (xrvToMode xflag).isSome → select = true ∧ strobed host

/-- What holds at a point of the negotiator. -/
def Follows (xflag c₀ : Byte) (host : Negotiate) (status : StatusLines) : Negotiator → Prop
  | .nSelectIn => True
  | .nAutoFd => requested host ∨ c₀.getLsbD 3 = false
  | .dataBus => requested host
  | .drive xrv pins .strobe =>
    requested host ∧ xrv = xflag ∧ (pins.foldl (fun s p => s.setLevel p.1 p.2) status).select = true
  | .wait xrv .strobe => requested host ∧ xrv = xflag ∧ status.select = true
  | .drive _ _ .strobeEnd => False
  | .wait xrv .strobeEnd => xrv = xflag ∧ Past xflag host status.select
  | .drive xrv pins .release => xrv = xflag ∧ Past xflag host status.select ∧
      ∀ level, (StatusPin.select, level) ∈ pins → level = (xrvToMode xflag).isSome
  | .wait xrv .release => xrv = xflag ∧ Past xflag host status.select
  | .done (.ok mode) => xrvToMode xflag = some mode ∧ host = .returned true
  | .done (.error _) => True

/-- The invariant. -/
structure Sound (xflag c₀ : Byte) (s : Negotiation) : Prop where
  idle : c₀.getLsbD 3 = true ∨ c₀.getLsbD 1 = false
  control : s.wires.control = controlAt c₀ s.host
  data : s.host ≠ .data → s.wires.data = xflag
  follows : Follows xflag c₀ s.host s.wires.status s.wires.negotiator

section

variable {xflag c₀ : Byte} {s : Negotiation}

theorem controlAt_before {host : Negotiate} (h : requested host = false) :
    controlAt c₀ host = c₀ := by
  cases host with
  | data => rfl
  | request => rfl
  | _ => cases h

theorem requested_next {host : Negotiate} (h : requested host) (status : Byte) :
    requested (host.next status) := by
  cases host with
  | data => cases h
  | request => cases h
  | waitAck turns =>
    simp only [Negotiate.next]
    split
    · rfl
    · split <;> rfl
  | select =>
    simp only [Negotiate.next]
    split <;> rfl
  | _ => rfl

theorem strobed_next {host : Negotiate} (h : strobed host) {status : Byte}
    (hs : status &&& STAT_SELECT_BIT ≠ 0) : strobed (host.next status) := by
  cases host with
  | strobeEnd => rfl
  | select => rw [Negotiate.next, if_neg hs]; rfl
  | commit => rfl
  | returned accepted => exact h
  | _ => cases h

/-- What an access of the host does. -/
theorem host_step (h : s.wires.control = controlAt c₀ s.host) :
    s.step xflag .host = ⟨s.host.next s.wires.statusByte,
      { s.wires with
        data := if s.host = .data then xflag else s.wires.data
        control := controlAt c₀ (s.host.next s.wires.statusByte) }⟩ := by
  obtain ⟨host, w⟩ := s
  have hout (v : Byte) : Ports.out (w.base + LPT_CONTROL) v w = { w with control := v } := by
    refine (if_neg ?_).trans (if_pos rfl)
    rw [BitVec.add_right_inj]
    decide
  have hdata (v : Byte) : Ports.out (w.base + LPT_DATA) v w = { w with data := v } := if_pos rfl
  have hinp : Ports.inp (w.base + LPT_STATUS) w = (w.statusByte, w) := by
    rw [show Ports.inp (w.base + LPT_STATUS) w =
      (if w.base + LPT_STATUS = w.base + LPT_STATUS then w.statusByte else 0, w) from rfl,
      if_pos rfl]
  have hcontrol : w.control = controlAt c₀ host := h
  cases host with
  | waitAck turns =>
    have hnext : controlAt c₀ ((Negotiate.waitAck turns).next w.statusByte) = w.control := by
      rw [hcontrol, Negotiate.next]
      split
      · rfl
      · split <;> rfl
    simp only [step, Negotiate.turn, Negotiate.access, hinp, hnext, reduceCtorEq, ↓reduceIte]
  | select =>
    have hnext : controlAt c₀ (Negotiate.select.next w.statusByte) = w.control := by
      rw [hcontrol, Negotiate.next]
      split <;> rfl
    simp only [step, Negotiate.turn, Negotiate.access, hinp, hnext, reduceCtorEq, ↓reduceIte]
  | returned accepted =>
    simp only [step, Negotiate.turn, Negotiate.access, Negotiate.next, ← hcontrol,
      reduceCtorEq, ↓reduceIte]
  | data =>
    simp only [step, Negotiate.turn, Negotiate.access, Negotiate.next, hdata, ↓reduceIte]
    rw [show controlAt c₀ .request = w.control from hcontrol.symm]
  | _ =>
    simp only [step, Negotiate.turn, Negotiate.access, Negotiate.next, hout, controlAt,
      reduceCtorEq, ↓reduceIte]

theorem Sound.host (h : Sound xflag c₀ s) : Sound xflag c₀ (s.step xflag .host) := by
  rw [host_step h.control]
  obtain ⟨host, w⟩ := s
  have hdata : host ≠ .data → w.data = xflag := h.data
  have hstays (hr : requested host) : requested (host.next w.statusByte) := requested_next hr _
  have hpast (hp : Past xflag host w.status.select) :
      Past xflag (host.next w.statusByte) w.status.select := fun hmode => by
    obtain ⟨hsel, hs⟩ := hp hmode
    refine ⟨hsel, strobed_next hs fun h0 => ?_⟩
    rw [w.statusByte_select.mp h0] at hsel
    cases hsel
  refine ⟨h.idle, rfl, fun _ => ?_, ?_⟩
  · show (if host = .data then xflag else w.data) = xflag
    split
    next => rfl
    next hne => exact hdata hne
  · have hf : Follows xflag c₀ host w.status w.negotiator := h.follows
    show Follows xflag c₀ (host.next w.statusByte) w.status w.negotiator
    generalize w.negotiator = n at hf ⊢
    cases n with
    | nSelectIn => trivial
    | nAutoFd => exact hf.imp_left hstays
    | dataBus => exact hstays hf
    | drive xrv pins next =>
      cases next with
      | strobe => exact ⟨hstays hf.1, hf.2⟩
      | strobeEnd => exact hf
      | release => exact ⟨hf.1, hpast hf.2.1, hf.2.2⟩
    | wait xrv w =>
      cases w with
      | strobe => exact ⟨hstays hf.1, hf.2⟩
      | strobeEnd => exact ⟨hf.1, hpast hf.2⟩
      | release => exact ⟨hf.1, hpast hf.2⟩
    | done r =>
      cases r with
      | ok mode =>
        obtain ⟨hmode, rfl⟩ := hf
        exact ⟨hmode, rfl⟩
      | error e => trivial

theorem setLevel_select (st : StatusLines) (pin : StatusPin) (level : Bool) :
    (st.setLevel pin level).select = if pin = .select then level else st.select := by
  cases pin <;> rfl

/-- A write of a drive that sets Select to `b`, if it sets it. -/
theorem Past.setLevel {host : Negotiate} {st : StatusLines} {pin : StatusPin} {level : Bool}
    (h : Past xflag host st.select) (hl : pin = .select → level = (xrvToMode xflag).isSome) :
    Past xflag host (st.setLevel pin level).select := fun hmode => by
  obtain ⟨hsel, hs⟩ := h hmode
  refine ⟨?_, hs⟩
  rw [setLevel_select]
  split
  next hp => exact (hl hp).trans hmode
  next => exact hsel

/-- nStrobe is low in the strobe only. -/
theorem strobe_low {host : Negotiate} {w : Wires} (hr : requested host)
    (hc : w.control = controlAt c₀ host) (hs : w.hostLines.nStrobe = false) :
    host = .strobeEnd := by
  have hbit : (controlAt c₀ host).getLsbD 0 = true := hc ▸ (Bool.not_eq_false' _).mp hs
  cases host with
  | strobeEnd => rfl
  | data => cases hr
  | request => cases hr
  | returned accepted =>
    cases accepted with
    | true => exact absurd (show CTRL_NEG_ACK.getLsbD 0 = true from hbit) (by decide)
    | false => exact absurd (show CTRL_BASE.getLsbD 0 = true from hbit) (by decide)
  | _ => exact absurd (show CTRL_NEG_REQ.getLsbD 0 = true from hbit) (by decide)

/-- nAutoFd is high after the strobe only when the host has accepted. -/
theorem autoFd_high {host : Negotiate} {w : Wires} (hst : strobed host)
    (hc : w.control = controlAt c₀ host) (hs : w.hostLines.nAutoFd = true) :
    host = .returned true := by
  have hbit : (controlAt c₀ host).getLsbD 1 = false := hc ▸ (Bool.not_eq_true' _).mp hs
  cases host with
  | returned accepted =>
    cases accepted with
    | true => rfl
    | false => cases hst
  | strobeEnd => exact absurd (show CTRL_NEG_STRB.getLsbD 1 = false from hbit) (by decide)
  | select => exact absurd (show CTRL_NEG_REQ.getLsbD 1 = false from hbit) (by decide)
  | commit => exact absurd (show CTRL_NEG_REQ.getLsbD 1 = false from hbit) (by decide)
  | _ => cases hst

theorem Sound.poll (h : Sound xflag c₀ s) : Sound xflag c₀ (s.step xflag (.negotiator .poll)) := by
  obtain ⟨host, w⟩ := s
  refine ⟨h.idle, h.control, h.data, ?_⟩
  have hf : Follows xflag c₀ host w.status w.negotiator := h.follows
  have hdata : host ≠ .data → w.data = xflag := h.data
  have hcontrol : w.control = controlAt c₀ host := h.control
  show Follows xflag c₀ host (w.negotiator.poll w.hostLines w.status).2
    (w.negotiator.poll w.hostLines w.status).1
  generalize w.negotiator = n at hf ⊢
  cases n with
  | nSelectIn =>
    simp only [Negotiator.poll]
    split
    next hsel =>
      cases hr : requested host with
      | true => exact .inl hr
      | false =>
        rw [controlAt_before hr] at hcontrol
        rw [Wires.hostLines, hcontrol] at hsel
        exact .inr (Bool.not_eq_true' _ ▸ hsel)
    next => trivial
  | nAutoFd =>
    simp only [Negotiator.poll]
    split
    next => trivial
    next hlow =>
      refine (Bool.not_eq_false _).mp fun hr => hlow ?_
      rw [controlAt_before hr] at hcontrol
      have h3 : c₀.getLsbD 3 = false :=
        hf.resolve_left fun hr' => Bool.false_ne_true (hr.symm.trans hr')
      have h1 : c₀.getLsbD 1 = false :=
        h.idle.resolve_left fun h => Bool.false_ne_true (h3.symm.trans h)
      rw [Wires.hostLines, hcontrol, h1]
      rfl
  | dataBus =>
    have hr : requested host := hf
    refine ⟨hr, hdata fun hd => ?_, rfl⟩
    rw [hd] at hr
    cases hr
  | drive xrv pins next =>
    cases pins with
    | nil =>
      cases next with
      | strobe => exact hf
      | strobeEnd => exact hf.elim
      | release => exact ⟨hf.1, hf.2.1⟩
    | cons p pins =>
      obtain ⟨pin, level⟩ := p
      cases next with
      | strobe => exact hf
      | strobeEnd => exact hf
      | release =>
        refine ⟨hf.1, hf.2.1.setLevel fun hp => ?_,
          fun l hl => hf.2.2 l (List.mem_cons_of_mem _ hl)⟩
        exact hf.2.2 level (hp ▸ List.mem_cons_self)
  | wait xrv wt =>
    simp only [Negotiator.poll]
    split
    next hmet =>
      cases wt with
      | strobe =>
        obtain rfl := strobe_low hf.1 hcontrol hmet
        exact ⟨hf.2.1, fun _ => ⟨hf.2.2, rfl⟩⟩
      | strobeEnd =>
        refine ⟨hf.1, hf.2, fun level hl => ?_⟩
        rw [hf.1] at hl
        simpa [driveStatus] using hl
      | release =>
        rw [hf.1]
        show Follows _ _ _ _ (Negotiator.done _)
        cases hmode : xrvToMode xflag with
        | none => trivial
        | some mode => exact ⟨hmode, autoFd_high (hf.2 (hmode ▸ rfl)).2 hcontrol hmet⟩
    next => exact hf
  | done r => exact hf

theorem Sound.deadline (h : Sound xflag c₀ s) :
    Sound xflag c₀ (s.step xflag (.negotiator .deadline)) := by
  refine ⟨h.idle, h.control, h.data, ?_⟩
  have hf := h.follows
  show Follows xflag c₀ s.host s.wires.status (s.wires.negotiator.expire s.wires.hostLines)
  unfold Negotiator.expire
  split
  next xrv w hn =>
    split
    · rwa [hn] at hf
    · trivial
  next => exact hf

theorem Sound.step (h : Sound xflag c₀ s) (t : Turn) : Sound xflag c₀ (s.step xflag t) := by
  rcases t with _ | _ | _
  · exact h.host
  · exact h.poll
  · exact h.deadline

theorem Idle.sound (h : Idle s) (xflag : Byte) : Sound xflag s.wires.control s where
  idle := by
    have hlines := h.lines
    rw [Wires.hostLines] at hlines
    exact hlines.imp (Bool.not_eq_false' _).mp (Bool.not_eq_true' _).mp
  control := by rw [h.host]; rfl
  data hd := absurd h.host hd
  follows := by rw [h.negotiator]; trivial

theorem Idle.sound_run (h : Idle s) (xflag : Byte) (turns : List Turn) :
    Sound xflag s.wires.control (turns.foldl (Negotiation.step xflag) s) :=
  (Run.Along.of_forall (P := fun _ _ => True) fun _ _ _ => trivial).invariant (h.sound xflag)
    fun _ t hs _ => hs.step t

/-! ## Agreement -/

/-- The host has found Select high. -/
def committed : Negotiate → Bool
  | .commit | .returned true => true
  | _ => false

/-- The host accepts, and the handshake has failed or is bound to. -/
def Split (s : Negotiation) : Prop := committed s.host ∧ accepting s.wires.negotiator = false

theorem Sound.host_commits (h : Sound xflag c₀ s) (hc : committed (s.step xflag .host).host) :
    committed s.host ∨ s.host = .select ∧ s.wires.status.select = true := by
  rw [host_step h.control] at hc
  have hc' : committed (s.host.next s.wires.statusByte) := hc
  cases hs : s.host with
  | select =>
    rw [hs, Negotiate.next] at hc'
    split at hc'
    next => cases hc'
    next h0 => exact .inr ⟨rfl, (Bool.not_eq_false _).mp
      fun hsel => h0 (s.wires.statusByte_select.mpr hsel)⟩
  | commit => exact .inl rfl
  | returned accepted =>
    rw [hs] at hc'
    exact .inl hc'
  | waitAck turns =>
    rw [hs, Negotiate.next] at hc'
    split at hc'
    · cases hc'
    · split at hc' <;> cases hc'
  | _ =>
    rw [hs] at hc'
    cases hc'

theorem committed_next {host : Negotiate} (h : committed host) (status : Byte) :
    committed (host.next status) := by
  cases host with
  | commit => rfl
  | returned accepted => exact h
  | _ => cases h

/-- The host past Select leaves nStrobe high. -/
theorem Sound.strobe_high (h : Sound xflag c₀ s) (hc : committed s.host) :
    s.wires.hostLines.nStrobe = true := by
  refine (Bool.not_eq_false _).mp fun hlow => ?_
  have hr : requested s.host := by
    cases hs : s.host with
    | data => rw [hs] at hc; cases hc
    | request => rw [hs] at hc; cases hc
    | _ => rfl
  rw [strobe_low hr h.control hlow] at hc
  cases hc

/-- Then a turn of the negotiator does not decide whether it accepts. -/
theorem Sound.accepting_poll (h : Sound xflag c₀ s) (hc : committed s.host) :
    accepting (s.wires.negotiator.poll s.wires.hostLines s.wires.status).1 =
      accepting s.wires.negotiator := by
  have hhigh := h.strobe_high hc
  have hf := h.follows
  generalize s.wires.negotiator = n at hf ⊢
  cases n with
  | nSelectIn =>
    simp only [Negotiator.poll]
    split <;> rfl
  | nAutoFd =>
    simp only [Negotiator.poll]
    split <;> rfl
  | dataBus => rfl
  | drive xrv pins next =>
    cases pins with
    | nil =>
      cases next with
      | strobeEnd => exact hf.elim
      | _ => rfl
    | cons p pins => cases next <;> rfl
  | wait xrv w =>
    simp only [Negotiator.poll]
    split
    next hmet =>
      cases w with
      | strobe => exact absurd (hhigh.symm.trans hmet) Bool.noConfusion
      | strobeEnd => rfl
      | release =>
        simp only [Negotiator.resume, accepting]
        cases xrvToMode xrv <;> rfl
    next => rfl
  | done r => rfl

/-- A handshake that accepts does not wait any more when the host has
accepted. -/
theorem Sound.not_waits (h : Sound xflag c₀ s) (hs : s.host = .returned true)
    (ha : accepting s.wires.negotiator) : ¬ Waits s.wires.hostLines s.wires.negotiator := by
  have hhigh : s.wires.hostLines.nStrobe = true := h.strobe_high (by rw [hs]; rfl)
  have hfree : s.wires.hostLines.nAutoFd = true := by
    refine (Bool.not_eq_true' _).mpr ?_
    rw [h.control, hs, show controlAt c₀ (.returned true) = CTRL_NEG_ACK from rfl]
    decide
  cases hn : s.wires.negotiator with
  | wait xrv w =>
    cases w with
    | strobe => rw [hn] at ha; cases ha
    | strobeEnd => exact not_not.mpr hhigh
    | release => exact not_not.mpr hfree
  | _ => exact id

theorem expire_of_not_waits {l : HostLines} {n : Negotiator} (h : ¬ Waits l n) :
    n.expire l = n := by
  unfold Negotiator.expire
  split
  next xrv w =>
    rw [if_pos (not_not.mp h)]
  next => rfl

theorem expire_of_waits {l : HostLines} {n : Negotiator} (h : Waits l n) :
    n.expire l = .done (.error .timeout) := by
  cases n with
  | wait xrv w => exact if_neg h
  | _ => cases h

theorem Split.step (h : Sound xflag c₀ s) (hs : Split s) (t : Turn) : Split (s.step xflag t) := by
  obtain ⟨hc, ha⟩ := hs
  rcases t with _ | _ | _
  · rw [host_step h.control]
    exact ⟨committed_next hc _, ha⟩
  · exact ⟨hc, (h.accepting_poll hc).trans ha⟩
  · refine ⟨hc, ?_⟩
    show accepting (s.wires.negotiator.expire s.wires.hostLines) = false
    by_cases hw : Waits s.wires.hostLines s.wires.negotiator
    · rw [expire_of_waits hw]
      rfl
    · rwa [expire_of_not_waits hw]

/-- A turn that is not timely splits them. -/
theorem Sound.untimely (h : Sound xflag c₀ s) {t : Turn} (ht : ¬ Timely s t) :
    Split (s.step xflag t) := by
  rcases t with _ | _ | _
  · obtain ⟨hs, ht⟩ := Classical.not_imp.mp ht
    obtain ⟨hsel, ha⟩ := Classical.not_imp.mp ht
    rw [host_step h.control]
    refine ⟨?_, (Bool.not_eq_true _).mp ha⟩
    show committed (s.host.next s.wires.statusByte)
    rw [hs, Negotiate.next, if_neg]
    · rfl
    · rw [s.wires.statusByte_select, hsel]
      exact Bool.noConfusion
  · exact absurd trivial ht
  · obtain ⟨hs, hw⟩ := Classical.not_imp.mp ht
    refine ⟨show committed s.host by rw [hs]; rfl, ?_⟩
    show accepting (s.wires.negotiator.expire s.wires.hostLines) = false
    rw [expire_of_waits (not_not.mp hw)]
    rfl

/-- A timely turn does not. -/
theorem Sound.timely (h : Sound xflag c₀ s) {t : Turn} (ht : Timely s t) (hs : ¬ Split s) :
    ¬ Split (s.step xflag t) := by
  rintro ⟨hc, ha⟩
  have hacc (hc : committed s.host) : accepting s.wires.negotiator :=
    (Bool.not_eq_false _).mp fun ha => hs ⟨hc, ha⟩
  rcases t with _ | _ | _
  · have hboth := h.host_commits hc
    rw [host_step h.control] at ha
    have ha' : accepting s.wires.negotiator = false := ha
    have := hboth.elim hacc fun hsel => ht hsel.1 hsel.2
    rw [ha'] at this
    cases this
  · have := (h.accepting_poll hc).symm.trans ha
    rw [hacc hc] at this
    cases this
  · have hc' : committed s.host := hc
    have hw : ¬ Waits s.wires.hostLines s.wires.negotiator := by
      cases hhost : s.host with
      | commit => exact ht hhost
      | returned accepted =>
        rw [hhost] at hc'
        cases accepted with
        | true => exact h.not_waits hhost (hacc (by rw [hhost]; rfl))
        | false => cases hc'
      | _ => rw [hhost] at hc'; cases hc'
    have ha' : accepting (s.wires.negotiator.expire s.wires.hostLines) = false := ha
    rw [expire_of_not_waits hw, hacc hc'] at ha'
    cases ha'

theorem Idle.not_split (h : Idle s) : ¬ Split s := by
  rintro ⟨hc, -⟩
  rw [h.host] at hc
  cases hc

/-- A handshake that ends well has the mode asked for, and the host has
accepted. -/
theorem Idle.ok_accepted (h : Idle s) (xflag : Byte) (turns : List Turn) {mode : LptMode}
    (hn : (turns.foldl (Negotiation.step xflag) s).wires.negotiator = .done (.ok mode)) :
    xrvToMode xflag = some mode ∧
      (turns.foldl (Negotiation.step xflag) s).host = .returned true := by
  have hf := (h.sound_run xflag turns).follows
  rwa [hn] at hf

/-- Once split, they stay so. -/
theorem Sound.stays_split (h : Sound xflag c₀ s) (hs : Split s) (turns : List Turn) :
    Split (turns.foldl (Negotiation.step xflag) s) := by
  have hkeeps : ∀ s t, Sound xflag c₀ s ∧ Split s → True →
      Sound xflag c₀ (s.step xflag t) ∧ Split (s.step xflag t) :=
      fun s t h _ => ⟨h.1.step t, Split.step h.1 h.2 t⟩
  exact ((Run.Along.of_forall fun _ _ _ => trivial).invariant ⟨h, hs⟩ hkeeps).2

theorem Sound.splits (h : Sound xflag c₀ s) {turns : List Turn}
    (ht : ¬ Run.Along (Negotiation.step xflag) Timely s turns) :
    Split (turns.foldl (Negotiation.step xflag) s) := by
  induction turns generalizing s with
  | nil => exact absurd trivial ht
  | cons t turns ih =>
    by_cases htimely : Timely s t
    · exact ih (h.step t) fun hrest => ht ⟨htimely, hrest⟩
    · exact (h.step t).stays_split (h.untimely htimely) turns

theorem Sound.agrees (h : Sound xflag c₀ s) (hs : ¬ Split s) : Agrees s := by
  refine ⟨fun ⟨hhost, e, hn⟩ => hs ?_, fun ⟨hhost, mode, hn⟩ => ?_⟩
  · rw [Split, hhost, hn]
    exact ⟨rfl, rfl⟩
  · have hf := h.follows
    rw [hn] at hf
    cases hhost.symm.trans hf.2

theorem Split.not_agrees (hs : Split s) (hret : Returned s) : ¬ Agrees s := by
  obtain ⟨⟨accepted, hhost⟩, r, hn⟩ := hret
  rw [Split, hhost, hn] at hs
  cases accepted with
  | false => cases hs.1
  | true =>
    cases r with
    | ok mode => cases hs.2
    | error e => exact fun hag => hag.1 ⟨hhost, e, hn⟩

/-- While all turns are timely the two agree. When both have returned they
agree only then. -/
theorem agrees_iff_timely (h : Idle s) (xflag : Byte) (turns : List Turn) :
    (Run.Along (Negotiation.step xflag) Timely s turns → ∀ n,
      Agrees ((turns.take n).foldl (Negotiation.step xflag) s)) ∧
    (Returned (turns.foldl (Negotiation.step xflag) s) →
      Agrees (turns.foldl (Negotiation.step xflag) s) →
      Run.Along (Negotiation.step xflag) Timely s turns) := by
  refine ⟨fun ht n => ?_, fun hret hag => by_contra fun ht => ?_⟩
  · have hkeeps : ∀ s' t, Sound xflag s.wires.control s' ∧ ¬ Split s' → Timely s' t →
        Sound xflag s.wires.control (s'.step xflag t) ∧
        ¬ Split (s'.step xflag t) := fun s' t h ht =>
      ⟨h.1.step t, h.1.timely ht h.2⟩
    have hend := (ht.take n).invariant ⟨h.sound xflag, h.not_split⟩ hkeeps
    exact hend.1.agrees hend.2
  · exact ((h.sound xflag).splits ht).not_agrees hret hag

end

/-! ## The routine on the lines -/

/-- The lines as the host's accesses find them: before each the negotiator has
some turns. -/
structure Interleaved where
  wires : Wires
  turns : List (List Wires.Turn)

namespace Interleaved

/-- At the next access. -/
def now (x : Interleaved) : Wires := (x.turns.headD []).foldl Wires.play x.wires

instance : Ports Interleaved where
  inp p x := ((Ports.inp p x.now).1, ⟨(Ports.inp p x.now).2, x.turns.tail⟩)
  out p v x := ⟨Ports.out p v x.now, x.turns.tail⟩

end Interleaved

theorem foldl_play_base (ts : List Wires.Turn) (w : Wires) :
    (ts.foldl Wires.play w).base = w.base := by
  induction ts generalizing w with
  | nil => rfl
  | cons t ts ih => rw [List.foldl_cons, ih]; cases t <;> rfl

theorem out_base (p : Word) (v : Byte) (w : Wires) : (Ports.out p v w).base = w.base := by
  simp only [Ports.out]
  split
  · rfl
  · split <;> rfl

theorem foldl_negotiator (xflag : Byte) (ts : List Wires.Turn) (at_ : Negotiate) (w : Wires) :
    (ts.map Turn.negotiator).foldl (Negotiation.step xflag) ⟨at_, w⟩ =
      ⟨at_, ts.foldl Wires.play w⟩ := by
  induction ts generalizing w with
  | nil => rfl
  | cons t ts ih => exact ih (w.play t)

/-- An access of the routine is a turn of the host after the negotiator's. -/
theorem turn_interleaved (xflag : Byte) (x : Negotiate × Interleaved) :
    (Negotiate.turn x.2.wires.base xflag x).2.wires.base = x.2.wires.base ∧
    ∃ turns : List Turn, turns.foldl (Negotiation.step xflag) ⟨x.1, x.2.wires⟩ =
      ⟨(Negotiate.turn x.2.wires.base xflag x).1,
        (Negotiate.turn x.2.wires.base xflag x).2.wires⟩ := by
  obtain ⟨at_, x⟩ := x
  have hbase : x.now.base = x.wires.base := foldl_play_base _ _
  have hrun : (((x.turns.headD []).map Turn.negotiator) ++ [Turn.host]).foldl
    (Negotiation.step xflag) ⟨at_, x.wires⟩ =
      Negotiation.step xflag ⟨at_, x.now⟩ .host := by
    rw [List.foldl_append, foldl_negotiator]
    rfl
  cases ha : at_.access xflag with
  | none =>
    have hturn : Negotiate.turn x.wires.base xflag (at_, x) = (at_, x) := by
      simp only [Negotiate.turn, ha]
    rw [hturn]
    exact ⟨rfl, [], rfl⟩
  | some a =>
    cases a with
    | out reg v =>
      have hturn : Negotiate.turn x.wires.base xflag (at_, x) =
          (at_.next 0, Ports.out (x.wires.base + reg) v x) := by
        simp only [Negotiate.turn, ha]
      refine hturn ▸ ⟨(out_base _ _ _).trans hbase, _, hrun.trans ?_⟩
      simp only [Negotiation.step, Negotiate.turn, ha, hbase]
      rfl
    | status =>
      have hturn : Negotiate.turn x.wires.base xflag (at_, x) =
          (at_.next (Ports.inp (x.wires.base + LPT_STATUS) x).1,
            (Ports.inp (x.wires.base + LPT_STATUS) x).2) := by
        simp only [Negotiate.turn, ha]
      refine hturn ▸ ⟨hbase, _, hrun.trans ?_⟩
      simp only [Negotiation.step, Negotiate.turn, ha, hbase]
      rfl

theorem accesses_interleaved {base : Word} {xflag : Byte} {x y : Negotiate × Interleaved}
    (h : Negotiate.Accesses base xflag x y) (hb : x.2.wires.base = base) : y.2.wires.base = base ∧
      ∃ turns :
      List Turn, turns.foldl (Negotiation.step xflag) ⟨x.1, x.2.wires⟩ = ⟨y.1, y.2.wires⟩ := by
  induction h with
  | refl => exact ⟨hb, [], rfl⟩
  | tail _ hy ih =>
    obtain ⟨hbase, turns, hrun⟩ := ih
    subst hb
    rw [← hbase] at hy
    subst hy
    obtain ⟨hbase', turns', hrun'⟩ := turn_interleaved xflag _
    refine ⟨hbase'.trans hbase, turns ++ turns', ?_⟩
    rw [List.foldl_append, hrun, hrun']

/-- The routine, run on lines where the negotiator has any turns between its
accesses, is a run of both. -/
theorem routine_runs {δ : Type} (m : Machine δ Interleaved)
    (hb : m.io.wires.base = m.mem.word lptBase) :
    ∃ accepted, ∃ turns : List Turn, (ieee1284Negotiate m).cf = !accepted ∧
      turns.foldl (Negotiation.step (lo m.ax)) ⟨.data, m.io.wires⟩ =
        ⟨.returned accepted, (ieee1284Negotiate m).io.wires⟩ := by
  obtain ⟨x, hacc, c, d, z, accepted, hx, hm⟩ := ieee1284Negotiate_ok m
  obtain ⟨-, turns, hrun⟩ := accesses_interleaved hacc hb
  rw [hm]
  exact ⟨accepted, turns, rfl, hx ▸ hrun⟩

/-- A handshake that ends well, then or later: the routine has accepted. -/
theorem routine_accepts {δ : Type} (m : Machine δ Interleaved)
    (hb : m.io.wires.base = m.mem.word lptBase)
    (h : Idle ⟨.data, m.io.wires⟩) (ts : List Wires.Turn) {mode : LptMode}
    (hn : (ts.foldl Wires.play (ieee1284Negotiate m).io.wires).negotiator = .done (.ok mode)) :
    xrvToMode (lo m.ax) = some mode ∧ (ieee1284Negotiate m).cf = false := by
  obtain ⟨accepted, turns, hcf, hrun⟩ := routine_runs m hb
  have hall : (turns ++ ts.map Turn.negotiator).foldl (Negotiation.step (lo m.ax))
    ⟨.data, m.io.wires⟩ =
      ⟨.returned accepted, ts.foldl Wires.play (ieee1284Negotiate m).io.wires⟩ := by
    rw [List.foldl_append, hrun, foldl_negotiator]
  have hok := h.ok_accepted (lo m.ax) (turns ++ ts.map Turn.negotiator) (by rw [hall]; exact hn)
  rw [hall] at hok
  refine ⟨hok.1, hcf.trans ?_⟩
  rw [Negotiate.returned.inj hok.2]
  rfl

/-! ## Runs -/

/-- Before a negotiation, all status lines high. -/
def idle : Negotiation :=
  ⟨.data, ⟨0x378, 0, CTRL_BASE, ⟨true, true, true, true⟩, true, 0, .nSelectIn⟩⟩

theorem idle_idle : Idle idle := ⟨rfl, rfl, .inl rfl⟩

def polls (n : Nat) : List Turn := List.replicate n (.negotiator .poll)

/-- The request is made, and the negotiator has answered it. -/
def asked : List Turn := [.host, .host] ++ polls 8

/-- The strobe, seen low. -/
def pulsed : List Turn := asked ++ [.host, .host] ++ polls 1 ++ [.host]

/-- Select is read after the last answer. -/
def late : List Turn := pulsed ++ polls 6 ++ [.host, .host] ++ polls 1

/-- Select is read before the last answer. -/
def early : List Turn := pulsed ++ [.host, .host] ++ polls 7

/-- The strobe is over when the negotiator looks for it. -/
def unseen : List Turn := asked ++ List.replicate 5 .host ++ [.negotiator .deadline]

theorem agrees_late : Agrees (late.foldl (Negotiation.step XFLAG_ECP) idle) := by
  have h := (agrees_iff_timely idle_idle XFLAG_ECP late).1 (by decide) late.length
  rwa [List.take_length] at h

/-- The host accepts a byte without a mode, and a mode whose handshake runs
out of time. -/
theorem accepts_too_early : Idle idle ∧ ¬ Agrees (early.foldl (Negotiation.step 0x02) idle) ∧
    ¬ Agrees (unseen.foldl (Negotiation.step XFLAG_ECP) idle) :=
  ⟨idle_idle, fun h => h.1 ⟨rfl, _, rfl⟩, fun h => h.1 ⟨rfl, _, rfl⟩⟩

end Negotiation

end VintageKvm.Link
