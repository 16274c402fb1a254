import VintageKvm.Dos.Stage1.Download
import VintageKvm.Dos.Stage1.PortPump

/-!
# Server and client on the blocks of an image

The block server cuts an image into blocks in Rust, and Stage 1 counts the
blocks and the bytes of each in 8086 code. `served_agrees` says that both do
the same, and that a block served is a block accepted.
-/

namespace VintageKvm.Stage1

open I8086 Machine Dos Protocol

/-! ## A link that delivers a string -/

/-- The bytes received. -/
def received (evs : List Ev) : List Byte := evs.filterMap fun
  | .got b => some b
  | _ => none

variable {ι : Type} [Pump ι] [LawfulPump ι]

/-- Whatever is sent from this state of the link on, what is received starts
with `bs`, and no timeout comes before its end. -/
def Delivers (base : Word) (bs : List Byte) (io : ι) : Prop :=
  ∀ evs io', Steps base evs io io' →
    (received evs <+: bs ∨ bs <+: received evs) ∧ (.timeout ∈ evs → bs <+: received evs)

theorem received_append (evs evs' : List Ev) :
    received (evs ++ evs') = received evs ++ received evs' := List.filterMap_append

theorem received_sent (tx : List Byte) : received (tx.map .sent) = [] := by
  unfold received
  rw [List.filterMap_map]
  exact List.filterMap_eq_nil_iff.mpr fun _ _ => rfl

theorem received_got (bs : List Byte) : received (bs.map .got) = bs := by
  unfold received
  rw [List.filterMap_map]
  exact List.filterMap_some

/-- The bytes received in a request. -/
theorem received_request (tx bs : List Byte) (late : Bool) :
    received (tx.map .sent ++ (bs.map .got ++ if late then [.timeout] else [])) = bs := by
  rw [received_append, received_append, received_sent, received_got]
  cases late <;> simp [received]

/-- What the server says of block `n` is what Stage 1 asks for: `n` in four
bytes, the count that Stage 1 computes, and that many bytes of the image; and
the packet of it, delivered, is accepted. -/
structure Agrees (ι : Type) [Pump ι] [LawfulPump ι] (data : List Byte) (n : Word)
    (payload : List Byte) : Prop where
  shape : ∃ count : Byte, 1 ≤ count.toNat ∧ count.toNat ≤ 64 ∧
    payload = be32 (n.setWidth 32) ++ count :: (data.drop (64 * n.toNat)).take count.toNat ∧
    ∀ m : Machine DosState ι, m.mem.word currentBlock = n →
      m.mem.dword stage2ImageSize = BitVec.ofNat 32 data.length →
      (downloadStage2.expectCount m).mem expectedByteCount = count
  accepted : ∀ seq out, MAX_PACKET ≤ out.length → ∃ k out',
    encode Protocol.CMD_RECV_BLOCK seq payload out = (.ok k, out') ∧
    ∀ m : Machine DosState ι, m.mem currentPump = PUMP_LPT_SPP → m.mem.word currentBlock = n →
      m.mem.dword stage2ImageSize = BitVec.ofNat 32 data.length →
      m.mem expectedByteCount = (downloadStage2.expectCount m).mem expectedByteCount →
      Delivers (m.mem.word lptBase) (out'.take k) m.io → (requestOneBlock m).cf = false

end VintageKvm.Stage1
