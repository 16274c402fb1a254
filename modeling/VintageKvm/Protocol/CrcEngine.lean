import VintageKvm.Protocol.CrcRegister

/-!
# The CRC engines

The software engines of `crc.rs` take a message in pieces. Whatever the pieces,
they give the one-shot checksum of what has come in since the last reset
(`foldl_on`), and that is the remainder that defines it (`engines_agree`).
-/

namespace VintageKvm.Protocol

open Polynomial

/-! ## The engines -/

/-- What the two traits have in common, for a checksum of `w` bits. -/
class CrcEngine (σ : Type) (w : outParam Nat) where
  reset : σ → σ
  update : σ → List Byte → σ
  finalize : σ → BitVec w

abbrev Crc16Engine (σ : Type) : Type := CrcEngine σ 16
abbrev Crc32Engine (σ : Type) : Type := CrcEngine σ 32

structure SoftwareCrc16Ccitt where
  state : Word

/-- `SoftwareCrc16Ccitt::new`. -/
def SoftwareCrc16Ccitt.new : SoftwareCrc16Ccitt := ⟨Crc16.INIT⟩

instance : Crc16Engine SoftwareCrc16Ccitt where
  reset _ := ⟨Crc16.INIT⟩
  update e data := ⟨data.foldl Crc16.byteStep e.state⟩
  finalize e := e.state

structure SoftwareCrc32Reflected where
  state : DWord

/-- `SoftwareCrc32Reflected::new`. -/
def SoftwareCrc32Reflected.new : SoftwareCrc32Reflected := ⟨Crc32.INIT⟩

instance : Crc32Engine SoftwareCrc32Reflected where
  reset _ := ⟨Crc32.INIT⟩
  update e data := ⟨data.foldl Crc32.byteStep e.state⟩
  finalize e := e.state ^^^ Crc32.XOROUT

/-! ## Calls -/

/-- A call that changes an engine. -/
inductive CrcCall where
  | reset
  | update (data : List Byte)

namespace CrcCall

/-- What an engine makes of it. -/
def on {σ : Type} {w : Nat} [CrcEngine σ w] (e : σ) : CrcCall → σ
  | reset => CrcEngine.reset e
  | update data => CrcEngine.update e data

/-- What has come in since the last reset, after it. -/
def since (bs : List Byte) : CrcCall → List Byte
  | reset => []
  | update data => bs ++ data

/-- The message that calls make since the last reset, or since the engine was
made. -/
def message (calls : List CrcCall) : List Byte := calls.foldl since []

example : message [update [1, 2], reset, update [3], update [], update [4, 5]] = [3, 4, 5] := rfl

end CrcCall

section

variable {σ : Type} {w : Nat} [CrcEngine σ w] (state : σ → BitVec w)
  {f : BitVec w → Byte → BitVec w} {init : BitVec w}
  (hreset : ∀ e, state (CrcEngine.reset e) = init)
  (hupdate : ∀ e data, state (CrcEngine.update e data) = data.foldl f (state e))
include hreset hupdate

/-- A call goes on from what has come in. -/
theorem state_on (c : CrcCall) {e : σ} {bs : List Byte} (h : state e = bs.foldl f init) :
    state (c.on e) = (c.since bs).foldl f init := by
  cases c with
  | reset => exact hreset e
  | update data =>
    show state (CrcEngine.update e data) = (bs ++ data).foldl f init
    rw [hupdate, h, List.foldl_append]

/-- Any calls do. -/
theorem foldl_on (calls : List CrcCall) {e : σ} {bs : List Byte} (h : state e = bs.foldl f init) :
    state (calls.foldl CrcCall.on e) = (calls.foldl CrcCall.since bs).foldl f init := by
  induction calls generalizing e bs with
  | nil => exact h
  | cons c calls ih => exact ih (state_on state hreset hupdate c h)

end

theorem finalize_crc16 (calls : List CrcCall) :
    CrcEngine.finalize (calls.foldl CrcCall.on SoftwareCrc16Ccitt.new) =
      crc16 (CrcCall.message calls) :=
  foldl_on SoftwareCrc16Ccitt.state (fun _ => rfl) (fun _ _ => rfl) calls rfl

theorem finalize_crc32 (calls : List CrcCall) :
    CrcEngine.finalize (calls.foldl CrcCall.on SoftwareCrc32Reflected.new) =
      crc32 (CrcCall.message calls) :=
  congrArg (· ^^^ Crc32.XOROUT) (foldl_on SoftwareCrc32Reflected.state
    (fun _ => rfl) (fun _ _ => rfl) calls rfl)

/-- The engines give the one-shot checksums of the message, and these are the
remainders modulo their polynomials. -/
theorem engines_agree (calls : List CrcCall) (buf : List Byte) :
    CrcEngine.finalize (calls.foldl CrcCall.on SoftwareCrc16Ccitt.new) =
      crc16 (CrcCall.message calls) ∧
    CrcEngine.finalize (calls.foldl CrcCall.on SoftwareCrc32Reflected.new) =
      crc32 (CrcCall.message calls) ∧
    crc16 buf = Lfsr.remainder 16 (X ^ 16 + X ^ 12 + X ^ 5 + 1) (bitsOf buf) ∧
    crc32 buf = ~~~(Lfsr.remainder 32
      (X ^ 32 + X ^ 26 + X ^ 23 + X ^ 22 + X ^ 16 + X ^ 12 + X ^ 11 + X ^ 10 + X ^ 8 + X ^ 7 +
      X ^ 5 + X ^ 4 + X ^ 2 + X + 1) (reflectedBits buf)).reverse := by
  refine ⟨finalize_crc16 calls, finalize_crc32 calls, ?_, ?_⟩
  · rw [crc16_eq, divisor_crc16]
  · rw [crc32_eq, divisor_crc32]

end VintageKvm.Protocol
