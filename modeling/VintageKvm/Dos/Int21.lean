import VintageKvm.I8086.Machine

/-!
# The DOS services of Stage 1

`INT 21h` on a state of DOS: the files, the open handles, what went to the
console, the size of the program's memory block, and the file and process
calls made. What a call answers (success or an error code, how much of a
write reached the file, what a child program leaves in memory) is not up to
the caller: the `n`-th call that has an answer gets `ask n`, and a statement
for every `ask` is a statement for every behaviour of DOS within its
documentation.
-/

namespace VintageKvm.Dos

open I8086 Machine

abbrev DOS_CREATE : Byte := 0x3C
abbrev DOS_WRITE : Byte := 0x40
abbrev DOS_CLOSE : Byte := 0x3E
abbrev DOS_DELETE : Byte := 0x41
abbrev DOS_RESIZE : Byte := 0x4A
abbrev DOS_EXEC : Byte := 0x4B
abbrev DOS_GET_EXITCODE : Byte := 0x4D

/-- What a child program leaves: the segment's memory (what of it is not in
the parent's block), the registers, and its exit word (AL the errorlevel). -/
structure Child where
  mem : Mem
  bx : Word
  cx : Word
  dx : Word
  si : Word
  di : Word
  ds : Word
  es : Word
  exit : Word

/-- The answer to one call. -/
structure Reply where
  /-- An error, its code in `ax`. -/
  cf : Bool
  ax : Word
  /-- The time. -/
  cx : Word
  dx : Word
  /-- How many bytes of a write reach the file. -/
  taken : Nat
  child : Child

/-- The calls with an effect outside the program. -/
inductive Call where
  | create (name : List Byte) (ok : Bool)
  | write (handle : Word) (data : List Byte)
  | close (handle : Word)
  | delete (name : List Byte)
  | exec (name : List Byte) (ok : Bool)
  deriving DecidableEq

/-- The state of DOS. -/
structure DosState where
  files : List Byte → Option (List Byte)
  handles : Word → Option (List Byte)
  con : List Byte
  calls : List Call
  /-- Paragraphs of the program's block, from its segment on. -/
  paras : Nat
  /-- SP when the program's own stack was empty. -/
  sp : Word
  /-- What the last child exited with. -/
  exit : Word
  ask : Nat → Reply
  asked : Nat

/-- The bytes from `a` on up to a `stop`, at most `n`. -/
def upTo (stop : Byte) (mem : Mem) : Nat → Word → List Byte
  | 0, _ => []
  | n + 1, a => if mem a = stop then [] else mem a :: upTo stop mem n (a + 1)

/-- The ASCIIZ string at `a`. -/
def asciiz (mem : Mem) (a : Word) : List Byte := upTo 0 mem 65536 a

/-- The stack words `ws`, the first at `sp`, with every byte outside the
first `kept` bytes of the segment taken from `child`. -/
def reload (kept : Nat) (child : Mem) : Word → List Word → List Word
  | _, [] => []
  | sp, w :: ws =>
    ofBytes (if (sp + 1).toNat < kept then hi w else child (sp + 1))
      (if sp.toNat < kept then lo w else child sp) :: reload kept child (sp + 2) ws

/-- The child leaves the stack words `ws`, the first at `sp`, as they are:
every byte of them is kept or is the same in `child`. -/
def Spares (kept : Nat) (child : Mem) : Word → List Word → Prop
  | _, [] => True
  | sp, w :: ws =>
    (sp.toNat < kept ∨ child sp = lo w) ∧ ((sp + 1).toNat < kept ∨ child (sp + 1) = hi w) ∧
    Spares kept child (sp + 2) ws

instance decidableSpares (kept : Nat) (child : Mem) :
    (sp : Word) → (ws : List Word) → Decidable (Spares kept child sp ws)
  | _, [] => inferInstanceAs (Decidable True)
  | sp, _ :: ws =>
    have := decidableSpares kept child (sp + 2) ws
    inferInstanceAs (Decidable (_ ∧ _ ∧ _))

theorem reload_byte {kept : Nat} {child : Mem} {a : Word} {b : Byte} :
    (if a.toNat < kept then b else child a) = b ↔ a.toNat < kept ∨ child a = b := by
  split
  · exact ⟨fun _ => .inl ‹_›, fun _ => rfl⟩
  · exact ⟨.inr, fun h => h.resolve_left ‹_›⟩

theorem reload_eq_iff {kept : Nat} {child : Mem} {sp : Word} {ws : List Word} :
    reload kept child sp ws = ws ↔ Spares kept child sp ws := by
  induction ws generalizing sp with
  | nil => exact ⟨fun _ => trivial, fun _ => rfl⟩
  | cons w ws ih =>
    unfold reload Spares
    rw [List.cons.injEq, ih, ← reload_byte (b := lo w), ← reload_byte (b := hi w), ← and_assoc]
    refine and_congr_left fun _ => ⟨fun h => ?_, fun h => ?_⟩
    · have hl := congrArg lo h
      have hh := congrArg hi h
      rw [lo_ofBytes] at hl
      rw [hi_ofBytes] at hh
      exact ⟨hl, hh⟩
    · rw [h.1, h.2, ofBytes_hi_lo]

namespace DosState

variable (d : DosState)

/-- The answer to the next call. -/
def reply : Reply := d.ask d.asked

/-- The call is answered. -/
def answered : DosState := { d with asked := d.asked + 1 }

/-- The call is made. -/
def called (c : Call) : DosState := { d with calls := d.calls ++ [c] }

/-- Nothing is asked of DOS but the console and the time. -/
def Quiet (d d' : DosState) : Prop := ∃ con asked, d' = { d with con := con, asked := asked }

namespace Quiet

variable {d d₁ d₂ d₃ : DosState}

theorem refl (d : DosState) : Quiet d d := ⟨d.con, d.asked, rfl⟩

theorem trans (h₁ : Quiet d₁ d₂) (h₂ : Quiet d₂ d₃) : Quiet d₁ d₃ := by
  obtain ⟨con, asked, rfl⟩ := h₁
  obtain ⟨con', asked', rfl⟩ := h₂
  exact ⟨con', asked', rfl⟩

/-- What DOS answers is fixed. -/
theorem ask (h : Quiet d₁ d₂) : d₂.ask = d₁.ask := by
  obtain ⟨con, asked, rfl⟩ := h
  rfl

end Quiet

end DosState

/-- The calls on a file that is there already. -/
def Call.OnFile : Call → Prop
  | .write _ _ | .close _ | .delete _ => True
  | .create _ _ | .exec _ _ => False

/-- Besides the console and the time, only files that are there already are
asked for. -/
structure DosState.Filing (d d' : DosState) : Prop where
  calls : ∃ new, d'.calls = d.calls ++ new ∧ ∀ c ∈ new, c.OnFile
  paras : d'.paras = d.paras
  sp : d'.sp = d.sp

namespace DosState.Filing

variable {d d₁ d₂ d₃ : DosState}

theorem refl (d : DosState) : Filing d d :=
  ⟨⟨[], (List.append_nil _).symm, fun _ h => nomatch h⟩, rfl, rfl⟩

theorem trans (h₁ : Filing d₁ d₂) (h₂ : Filing d₂ d₃) : Filing d₁ d₃ := by
  obtain ⟨new, hc, hn⟩ := h₁.calls
  obtain ⟨new', hc', hn'⟩ := h₂.calls
  refine ⟨⟨new ++ new', by rw [hc', hc, List.append_assoc], fun c h => ?_⟩, h₂.paras.trans h₁.paras,
    h₂.sp.trans h₁.sp⟩
  exact (List.mem_append.mp h).elim (hn c) (hn' c)

theorem ofQuiet (h : Quiet d₁ d₂) : Filing d₁ d₂ := by
  obtain ⟨con, asked, rfl⟩ := h
  exact ⟨⟨[], (List.append_nil _).symm, fun _ h => nomatch h⟩, rfl, rfl⟩

end DosState.Filing

variable {ι : Type} (m : Machine DosState ι)

/-- AH=02h: the character in DL. -/
def int21Putc : Machine DosState ι :=
  { m with dos := { m.dos with con := m.dos.con ++ [m.reg8 .dl] } }

/-- AH=09h: the string at DS:DX up to a `$`. -/
def int21Puts : Machine DosState ι :=
  { m with dos := { m.dos with con := m.dos.con ++ upTo 0x24 m.mem 65536 m.dx } }

/-- AH=2Ch: the time. -/
def int21Time : Machine DosState ι :=
  { m with cx := m.dos.reply.cx, dx := m.dos.reply.dx, dos := m.dos.answered }

/-- AH=3Ch: create or truncate the file whose name is at DS:DX. -/
def int21Create : Machine DosState ι :=
  let name := asciiz m.mem m.dx
  let r := m.dos.reply
  let d := m.dos.answered.called (.create name (!r.cf))
  { m with
    ax := r.ax, cf := r.cf
    dos := if r.cf then d else { d with
      files := fun n => if n = name then some [] else d.files n
      handles := fun h => if h = r.ax then some name else d.handles h } }

/-- AH=40h: append the CX bytes at DS:DX to the file of handle BX; at most
`taken` of them reach it, and without an error AX says how many did. -/
def int21Write : Machine DosState ι :=
  let data := m.mem.bytes m.dx m.cx.toNat
  let r := m.dos.reply
  let d := m.dos.answered.called (.write m.bx data)
  { m with
    ax := if r.cf then r.ax else BitVec.ofNat 16 (data.take r.taken).length, cf := r.cf
    dos := { d with
      files := fun n =>
        if d.handles m.bx = some n then (d.files n).map (· ++ data.take r.taken)
        else d.files n } }

/-- AH=3Eh: close handle BX. -/
def int21Close : Machine DosState ι :=
  let r := m.dos.reply
  let d := m.dos.answered.called (.close m.bx)
  { m with
    ax := if r.cf then r.ax else m.ax, cf := r.cf
    dos := if r.cf then d
      else { d with handles := fun h => if h = m.bx then none else d.handles h } }

/-- AH=41h: delete the file whose name is at DS:DX. A file that is there is
deleted; of one that is not, the call says so. -/
def int21Delete : Machine DosState ι :=
  let name := asciiz m.mem m.dx
  let d := m.dos.called (.delete name)
  { m with
    ax := if (d.files name).isNone then 2 else m.ax, cf := (d.files name).isNone
    dos := { d with files := fun n => if n = name then none else d.files n } }

/-- AH=4Ah: make the block at ES, the program's, BX paragraphs long. -/
def int21Resize : Machine DosState ι :=
  let r := m.dos.reply
  let d := m.dos.answered
  if m.es ≠ m.cs then { m with ax := 9, cf := true, dos := d }
  else if r.cf then { m with ax := r.ax, bx := r.cx, cf := true, dos := d }
  else { m with cf := false, dos := { d with paras := m.bx.toNat } }

/-- AH=4Bh, AL=0: run the program whose name is at DS:DX. The child may
change whatever is not in the program's block, and leaves every register but
SS:SP as it likes. -/
def int21Exec : Machine DosState ι :=
  let r := m.dos.reply
  let d := m.dos.answered.called (.exec (asciiz m.mem m.dx) (!r.cf))
  let kept := m.dos.paras * 16
  let m' := { m with
    ax := r.ax, bx := r.child.bx, cx := r.child.cx, dx := r.child.dx, si := r.child.si,
    di := r.child.di
    ds := r.child.ds, es := r.child.es, cf := r.cf, dos := d }
  if r.cf then m'
  else { m' with
    stk := reload kept r.child.mem (m.dos.sp - BitVec.ofNat 16 (2 * m.stk.length)) m.stk
    mem := fun x => if x.toNat < kept then m.mem x else r.child.mem x
    dos := { d with exit := r.child.exit } }

/-- AH=4Dh: what the last child exited with. -/
def int21GetExitcode : Machine DosState ι := { m with ax := m.dos.exit }

/-- `INT 21h`, by AH: the services used here. -/
def int21 : Machine DosState ι :=
  match (m.reg8 .ah).toNat with
  | 0x02 => int21Putc m
  | 0x09 => int21Puts m
  | 0x2C => int21Time m
  | 0x3C => int21Create m
  | 0x3E => int21Close m
  | 0x40 => int21Write m
  | 0x41 => int21Delete m
  | 0x4A => int21Resize m
  | 0x4B => int21Exec m
  | 0x4D => int21GetExitcode m
  | _ => m

section

variable {m}

theorem int21_create (h : hi m.ax = DOS_CREATE) : int21 m = int21Create m := by
  rw [int21, reg8, h]
  rfl

theorem int21_close (h : hi m.ax = DOS_CLOSE) : int21 m = int21Close m := by
  rw [int21, reg8, h]
  rfl

theorem int21_write (h : hi m.ax = DOS_WRITE) : int21 m = int21Write m := by
  rw [int21, reg8, h]
  rfl

theorem int21_delete (h : hi m.ax = DOS_DELETE) : int21 m = int21Delete m := by
  rw [int21, reg8, h]
  rfl

theorem int21_resize (h : hi m.ax = DOS_RESIZE) : int21 m = int21Resize m := by
  rw [int21, reg8, h]
  rfl

theorem int21_exec (h : hi m.ax = DOS_EXEC) : int21 m = int21Exec m := by
  rw [int21, reg8, h]
  rfl

theorem int21_getExitcode (h : hi m.ax = DOS_GET_EXITCODE) : int21 m = int21GetExitcode m := by
  rw [int21, reg8, h]
  rfl

end

theorem filing_called {d d' : DosState} {c : Call} (hc : c.OnFile)
    (hcalls : d'.calls = d.calls ++ [c]) (hparas : d'.paras = d.paras) (hsp : d'.sp = d.sp) :
    DosState.Filing d d' :=
  ⟨⟨[c], hcalls, fun _ h => List.mem_singleton.mp h ▸ hc⟩, hparas, hsp⟩

theorem int21Write_filing : DosState.Filing m.dos (int21Write m).dos :=
  filing_called (c := .write m.bx (m.mem.bytes m.dx m.cx.toNat)) trivial rfl rfl rfl

theorem int21Close_filing : DosState.Filing m.dos (int21Close m).dos := by
  simp only [int21Close]
  split <;> exact filing_called (c := .close m.bx) trivial rfl rfl rfl

theorem int21Delete_filing : DosState.Filing m.dos (int21Delete m).dos :=
  filing_called (c := .delete (asciiz m.mem m.dx)) trivial rfl rfl rfl

/-- A write without an error that says all bytes were taken. -/
theorem int21Write_ok {name content : List Byte} (hcf : (int21Write m).cf = false)
    (hax : (int21Write m).ax = m.cx) (hh : m.dos.handles m.bx = some name)
    (hf : m.dos.files name = some content) :
    (int21Write m).dos.files name = some (content ++ m.mem.bytes m.dx m.cx.toNat) := by
  have hr : m.dos.reply.cf = false := hcf
  simp only [int21Write, hr, Bool.false_eq_true, if_false] at hax
  have hl := congrArg BitVec.toNat hax
  have hc := m.cx.isLt
  have hle : ((m.mem.bytes m.dx m.cx.toNat).take m.dos.reply.taken).length ≤ m.cx.toNat := by
    rw [List.length_take, Mem.length_bytes]
    exact Nat.min_le_right _ _
  rw [toNat_ofNat16 (by omega), List.length_take, Mem.length_bytes] at hl
  have htake : (m.mem.bytes m.dx m.cx.toNat).take m.dos.reply.taken = m.mem.bytes m.dx m.cx.toNat :=
    List.take_of_length_le (by rw [Mem.length_bytes]; omega)
  simp only [int21Write, DosState.answered, DosState.called, hh, if_true, hf, htake,
    Option.map_some]

/-- How a program ends: `INT 21h/4Ch` with an errorlevel, or a return to an
address that is not the caller's. -/
inductive Outcome (ι : Type) where
  | exited (errorlevel : Byte) (m : Machine DosState ι)
  | wild (m : Machine DosState ι)

/-- AH=4Ch: terminate with the errorlevel in AL. -/
def int21Exit : Outcome ι := .exited (m.reg8 .al) m

end VintageKvm.Dos
