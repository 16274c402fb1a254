import VintageKvm.Dos.Stage0.Download
import VintageKvm.Dos.Stage1.Crc32

/-!
# The checksums of the DOS stages

The CRC-16 of both stages and the CRC-32 of Stage 1 are those of the wire
protocol (`checksums_agree`). The state of the CRC-32 and the stack lie in the
segment its blocks are read from: a block over one of them is not folded as it
was (`unclear_misread`).
-/

namespace VintageKvm.Dos

open I8086 Machine Protocol Stage1

variable {δ ι : Type}

/-- Calls of `crc32_buf` on a list of blocks, from one state to another: before
each call the caller puts the block at DS:SI and leaves the running checksum
alone. `P` is what the calls meet, `next` the address after
`call crc32_update_byte`. -/
inductive Folds (next : Word) (P : Stacked δ ι → Prop) :
    Stacked δ ι → List (List Byte) → Stacked δ ι → Prop
  | nil {s s' : Stacked δ ι}
    (state : s'.machine.mem.dword crc32State = s.machine.mem.dword crc32State) :
    Folds next P s [] s'
  | cons {s call s₁ s' : Stacked δ ι} {blocks : List (List Byte)}
      (state : call.machine.mem.dword crc32State = s.machine.mem.dword crc32State) (ok : P call)
      (ret : crc32BufStacked next call = some s₁) (rest : Folds next P s₁ blocks s') :
    Folds next P s (call.machine.mem.bytes call.machine.si call.machine.cx.toNat :: blocks) s'

/-- The CRC-32 that `crc32_finalize` leaves in DX:AX. -/
def finalCrc32 (s : Stacked δ ι) : DWord :=
  ofWords (s.step crc32Finalize).machine.dx (s.step crc32Finalize).machine.ax

theorem crc32Init_state (m : Machine δ ι) : (crc32Init m).mem.dword crc32State = Crc32.INIT :=
  Mem.dword_setDword m.mem crc32State Crc32.INIT

theorem finalCrc32_eq (s : Stacked δ ι) :
    finalCrc32 s = s.machine.mem.dword crc32State ^^^ Crc32.XOROUT :=
  (ofWords_xor (s.machine.mem.word (crc32State + 2)) (s.machine.mem.word crc32State)
    0xFFFF 0xFFFF).symm

/-- The running checksum goes over the blocks one after the other. -/
theorem Folds.state {next : Word} {s s' : Stacked δ ι} {blocks : List (List Byte)}
    (h : Folds next Crc32Clear s blocks s') :
    s'.machine.mem.dword crc32State =
      blocks.flatten.foldl Crc32.byteStep (s.machine.mem.dword crc32State) := by
  induction h with
  | nil state => exact state
  | @cons s call s₁ s' blocks state ok ret rest ih =>
    obtain ⟨s₂, e, -, -, hfold⟩ := crc32BufStacked_ok next ok
    obtain rfl := Option.some.inj (ret.symm.trans e)
    rw [ih, hfold, state, List.flatten_cons, List.foldl_append]

/-- A call of `crc32_buf` on a block clear of the running checksum and of the
cells of the stack returns; `crc32_init`, such calls and `crc32_finalize` give
the CRC-32 of the concatenation of the blocks; `crc16_ccitt` and
`crc16_ccitt_buf` give the CRC-16 of their buffer. -/
theorem checksums_agree (next : Word) (s : Stacked δ ι) (m : Machine δ ι) :
    (∀ call : Stacked δ ι, Crc32Clear call → ∃ s₁, crc32BufStacked next call = some s₁ ∧
      s₁.sp = call.sp ∧ s₁.machine.word call.sp = call.machine.word call.sp) ∧
    (∀ blocks s', Folds next Crc32Clear (s.step crc32Init) blocks s' →
      finalCrc32 s' = crc32 blocks.flatten) ∧
    (crc16Ccitt m).ax = crc16 (m.mem.bytes m.si m.cx.toNat) ∧
    (Stage0.crc16CcittBuf m).ax = crc16 (m.mem.bytes m.si m.cx.toNat) := by
  have h16 : (crc16Ccitt m).ax = crc16 (m.mem.bytes m.si m.cx.toNat) := by
    obtain ⟨b, s, c, z, e⟩ := crc16Ccitt_bytes m
    rw [e]
  refine ⟨fun call h => ?_, fun blocks s' h => ?_, h16, h16⟩
  · obtain ⟨s₁, e, hsp, hret, -⟩ := crc32BufStacked_ok next h
    exact ⟨s₁, e, hsp, hret⟩
  · rw [finalCrc32_eq, h.state, Stacked.step, crc32Init_state, crc32]

/-- The string at the address, to be folded into a checksum begun. -/
def blockAt (a : Word) (bs : List Byte) : Stacked Unit Unit where
  machine := { encodeHello with
    cx := BitVec.ofNat 16 bs.length, si := a,
    mem := (Mem.setDword (fun _ => 0) crc32State Crc32.INIT).store a bs }
  sp := 0xFFFE

/-- The check string of the CRCs. -/
def digits : List Byte := [0x31, 0x32, 0x33, 0x34, 0x35, 0x36, 0x37, 0x38, 0x39]

theorem checksums_agree_digits :
    ((crc32BufStacked 0x1234 (blockAt 0x3000 digits)).map finalCrc32 = some 0xCBF43926) ∧
    (crc16Ccitt (blockAt 0x3000 digits).machine).ax = 0x29B1 := by
  obtain ⟨hret, h32, h16, -⟩ :=
    checksums_agree 0x1234 (blockAt 0x3000 digits) (blockAt 0x3000 digits).machine
  have hclear : Crc32Clear (blockAt 0x3000 digits) :=
    ⟨Region.apart_of_le (by decide) (by decide), Region.apart_of_le (by decide) (by decide),
      Region.apart_of_le (by decide) (by decide)⟩
  obtain ⟨s₁, e, -⟩ := hret _ hclear
  have hstate : (blockAt 0x3000 digits).machine.mem.dword crc32State =
      ((blockAt 0x3000 digits).step crc32Init).machine.mem.dword crc32State := by decide +kernel
  rw [e, Option.map_some, h32 _ _ (.cons hstate hclear e (.nil rfl)), h16]
  decide +kernel

/-! ## Blocks that are not clear -/

/-- The call gives another checksum than that of the block as it was. -/
theorem misread_of_ne (P : Stacked Unit Unit → Prop) (a : Word) (bs : List Byte) (d : DWord)
    (hP : P (blockAt a bs)) (hstate : (blockAt a bs).machine.mem.dword crc32State = Crc32.INIT)
    (hcall : (crc32BufStacked 0x1234 (blockAt a bs)).map finalCrc32 = some d)
    (hne : d ≠ crc32 ((blockAt a bs).machine.mem.bytes a (BitVec.ofNat 16 bs.length).toNat)) :
    ¬ ∀ next (s : Stacked Unit Unit) blocks s', Folds next P (s.step crc32Init) blocks s' →
      finalCrc32 s' = crc32 blocks.flatten := by
  intro h
  obtain ⟨s₁, e, hd⟩ := Option.map_eq_some_iff.mp hcall
  have hinit := hstate.trans (crc32Init_state (blockAt a bs).machine).symm
  have h₁ := h 0x1234 (blockAt a bs) _ _ (.cons hinit hP e (.nil rfl))
  rw [List.flatten_cons, List.flatten_nil, List.append_nil] at h₁
  exact hne (hd.symm.trans h₁)

/-- A block over the cells of the stack is read after words have been pushed
over it; one over the running checksum, after that has been stored. -/
theorem unclear_misread :
    (¬ ∀ next (s : Stacked Unit Unit) blocks s',
      Folds next
        (fun call => Region.Apart ⟨crc32State, 4⟩ ⟨call.machine.si, call.machine.cx.toNat⟩ ∧
        Region.Apart ⟨crc32State, 4⟩ ⟨call.sp - 6, 8⟩) (s.step crc32Init) blocks s' →
      finalCrc32 s' = crc32 blocks.flatten) ∧
    ¬ ∀ next (s : Stacked Unit Unit) blocks s',
      Folds next
        (fun call => Region.Apart (crc32Cells call.sp) ⟨call.machine.si, call.machine.cx.toNat⟩ ∧
        Region.Apart ⟨crc32State, 4⟩ ⟨call.sp - 6, 8⟩) (s.step crc32Init) blocks s' →
      finalCrc32 s' = crc32 blocks.flatten := by
  have hstack : Region.Apart ⟨crc32State, 4⟩ ⟨0xFFFE - 6, 8⟩ :=
    Region.apart_of_le (by decide) (by decide)
  constructor
  · exact misread_of_ne _ 0xFFFC [0, 0x12] 0x41D912FF
      ⟨Region.apart_of_le (by decide) (by decide), hstack⟩ (by decide +kernel) (by decide +kernel)
        (by decide +kernel)
  · exact misread_of_ne _ crc32State [0xFF, 0xFF, 0xFF] 0xD2FD108D
      ⟨Region.apart_of_le (by decide) (by decide), hstack⟩ (by decide +kernel) (by decide +kernel)
        (by decide +kernel)

end VintageKvm.Dos
