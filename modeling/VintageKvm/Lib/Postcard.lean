import VintageKvm.Lib.Word

/-!
# The postcard format

Values as postcard writes and reads them: a byte as it is, a number as a varint
(seven bits a byte, the lowest first, every byte but the last with its high bit
set), one byte for a boolean, a string with its length before it. What is
written reads back, whatever follows (`Reads`).
-/

namespace VintageKvm.Postcard

/-! ## Writing -/

/-- The bytes that a varint of `bits` bits takes at most. -/
def varintMax (bits : Nat) : Nat := (bits + 6) / 7

def putGroups : Nat → Nat → List Byte
  | 0, _ => []
  | k + 1, n =>
    if n < 128 then [BitVec.ofNat 8 n] else (BitVec.ofNat 8 n ||| 0x80) :: putGroups k (n >>> 7)

def putVarint (bits n : Nat) : List Byte := putGroups (varintMax bits) n

def putU16 (w : Word) : List Byte := putVarint 16 w.toNat

def putU32 (w : DWord) : List Byte := putVarint 32 w.toNat

def putBool (b : Bool) : List Byte := [if b then 1 else 0]

def strBytes (s : String) : List Byte := s.toByteArray.data.toList.map UInt8.toBitVec

/-- A string, its length of `usize` bits. -/
def putStr (usize : Nat) (s : String) : List Byte :=
  putVarint usize (strBytes s).length ++ strBytes s

/-- The index of a variant and its fields. -/
def putVariant (index : Nat) (fields : List Byte) : List Byte := putVarint 32 index ++ fields

/-! ## Reading -/

/-- A reader takes bytes from the front, or fails. -/
abbrev Take (α : Type) := StateT (List Byte) Option α

def takeU8 : Take Byte := fun bs =>
  match bs with
  | [] => none
  | b :: bs => some (b, bs)

def takeBytes (n : Nat) : Take (List Byte) :=
  fun bs => if n ≤ bs.length then some (bs.take n, bs.drop n) else none

/-- The greatest last byte of a varint that has all its bytes. -/
def maxOfLastByte (bits : Nat) : Nat := 2 ^ (bits % 7) - 1

/-- Groups of seven bits, up to one that is the last. -/
def takeGroups (maxLast : Nat) : Nat → Take Nat
  | 0 => failure
  | k + 1 => do
    let val ← takeU8
    let carry := (val &&& 0x7F).toNat
    if val &&& 0x80 = 0 then
      if k = 0 ∧ maxLast < val.toNat then failure else return carry
    else
      let rest ← takeGroups maxLast k
      return carry + 128 * rest

def takeVarint (bits : Nat) : Take Nat := takeGroups (maxOfLastByte bits) (varintMax bits)

def takeU16 : Take Word := do return BitVec.ofNat 16 (← takeVarint 16)

def takeU32 : Take DWord := do return BitVec.ofNat 32 (← takeVarint 32)

def takeBool : Take Bool := do
  let b ← takeU8
  if b = 0 then return false
  else if b = 1 then return true
  else failure

def strOfBytes (bs : List Byte) : Option String :=
  String.fromUTF8? ⟨(bs.map UInt8.ofBitVec).toArray⟩

def takeStr (usize : Nat) : Take String := do
  let n ← takeVarint usize
  let bs ← takeBytes n
  match strOfBytes bs with
  | some s => return s
  | none => failure

/-! ## What is written reads back -/

/-- The reader takes just these bytes and gives the value. -/
def Reads {α : Type} (take : Take α) (bytes : List Byte) (a : α) : Prop :=
  ∀ more, take.run (bytes ++ more) = some (a, more)

variable {α β : Type} {take : Take α} {bs bs' : List Byte} {a : α} {b : β}

theorem Reads.pure (a : α) : Reads (Pure.pure a) [] a := fun _ => rfl

theorem Reads.bind {f : α → Take β} (h : Reads take bs a) (h' : Reads (f a) bs' b) :
    Reads (take >>= f) (bs ++ bs') b :=
  fun more => by
    rw [StateT.run_bind, List.append_assoc, h (bs' ++ more)]
    exact h' more

/-- What comes after the last byte. -/
theorem Reads.final {f : α → Take β} (h : Reads take bs a) (h' : Reads (f a) [] b) :
    Reads (take >>= f) bs b := by
  have hbind := h.bind h'
  rwa [List.append_nil] at hbind

/-- The last field. -/
theorem Reads.last {f : α → β} (h : Reads take bs a) : Reads (do return f (← take)) bs (f a) := by
  exact h.final (Reads.pure (f a))

/-- All bytes are taken. -/
theorem Reads.whole (h : Reads take bs a) : take.run bs = some (a, []) := by
  have := h []
  rwa [List.append_nil] at this

theorem reads_u8 (b : Byte) : Reads takeU8 [b] b := fun _ => rfl

theorem reads_bytes (bs : List Byte) : Reads (takeBytes bs.length) bs bs := fun more => by
  have hle : bs.length ≤ (bs ++ more).length := by
    rw [List.length_append]
    exact Nat.le_add_right ..
  show (if bs.length ≤ (bs ++ more).length then _ else none) = _
  rw [if_pos hle, List.take_left, List.drop_left]

theorem group_last : ∀ b : Byte, b.toNat < 128 → b &&& 0x80 = 0 ∧ (b &&& 0x7F).toNat = b.toNat := by
  decide +kernel

theorem group_more :
    ∀ b : Byte, (b ||| 0x80) &&& 0x80 ≠ 0 ∧ ((b ||| 0x80) &&& 0x7F).toNat = b.toNat % 128 := by
  decide +kernel

theorem reads_last_group {j e n : Nat} (hlt : n < 128) (hj : n < 128 ^ j * 2 ^ e) :
    Reads (takeGroups (2 ^ e - 1) (j + 1)) [BitVec.ofNat 8 n] n := by
  have hn : (BitVec.ofNat 8 n).toNat = n := Nat.mod_eq_of_lt (by omega)
  obtain ⟨hlast, hcarry⟩ := group_last (BitVec.ofNat 8 n) (by rwa [hn])
  have hfit : ¬ (j = 0 ∧ 2 ^ e - 1 < n) := by
    rintro ⟨rfl, hmax⟩
    rw [Nat.pow_zero, Nat.one_mul] at hj
    omega
  rw [takeGroups]
  refine (reads_u8 (BitVec.ofNat 8 n)).final ?_
  dsimp only
  rw [if_pos hlast, hn, if_neg hfit, hcarry, hn]
  exact Reads.pure n

/-- A number that fits both the writer and the reader. -/
theorem reads_groups {k j e n : Nat} (hk : n < 128 ^ (k + 1)) (he : e ≤ 7)
    (hj : n < 128 ^ j * 2 ^ e) :
    Reads (takeGroups (2 ^ e - 1) (j + 1)) (putGroups (k + 1) n) n := by
  induction k generalizing j n with
  | zero =>
    have hlt : n < 128 := hk
    rw [putGroups, if_pos hlt]
    exact reads_last_group hlt hj
  | succ k ih =>
    rw [putGroups]
    by_cases hlt : n < 128
    · rw [if_pos hlt]
      exact reads_last_group hlt hj
    · obtain ⟨hcont, hcarry⟩ := group_more (BitVec.ofNat 8 n)
      have hmod : (BitVec.ofNat 8 n).toNat % 128 = n % 128 := by
        rw [BitVec.toNat_ofNat]
        omega
      have hshift : n >>> 7 = n / 128 := Nat.shiftRight_eq_div_pow n 7
      have hk' : n / 128 < 128 ^ (k + 1) :=
        Nat.div_lt_of_lt_mul (by rwa [Nat.pow_succ, Nat.mul_comm] at hk)
      cases j with
      | zero =>
        have : (2 : Nat) ^ e ≤ 2 ^ 7 := Nat.pow_le_pow_right (by decide) he
        rw [Nat.pow_zero, Nat.one_mul] at hj
        omega
      | succ j =>
        have hj' : n / 128 < 128 ^ j * 2 ^ e := Nat.div_lt_of_lt_mul (by
          rwa [Nat.pow_succ, Nat.mul_comm (128 ^ j), Nat.mul_assoc] at hj)
        rw [if_neg hlt, hshift, takeGroups, ← List.singleton_append]
        refine (reads_u8 _).bind ?_
        dsimp only
        rw [if_neg hcont, hcarry, hmod]
        have hsum := (ih hk' hj').last (f := fun rest => n % 128 + 128 * rest)
        rwa [Nat.mod_add_div] at hsum

theorem length_putGroups (k n : Nat) : (putGroups k n).length ≤ k := by
  induction k generalizing n with
  | zero => exact Nat.le_refl 0
  | succ k ih =>
    rw [putGroups]
    split
    · exact Nat.succ_le_succ (Nat.zero_le k)
    · exact Nat.succ_le_succ (ih _)

theorem length_putVarint (bits n : Nat) : (putVarint bits n).length ≤ varintMax bits :=
  length_putGroups _ _

/-- A small number takes one byte. -/
theorem putVarint_small {bits n : Nat} (hbits : 0 < bits) (h : n < 128) :
    putVarint bits n = [BitVec.ofNat 8 n] := by
  obtain ⟨k, hk⟩ : ∃ k, varintMax bits = k + 1 := ⟨(bits - 1) / 7, by rw [varintMax]; omega⟩
  rw [putVarint, hk, putGroups, if_pos h]

theorem length_putVariant {index : Nat} (h : index < 128) (fields : List Byte) :
    (putVariant index fields).length = fields.length + 1 := by
  rw [putVariant, putVarint_small (by decide) h, List.length_append,
    List.length_singleton, Nat.add_comm]

theorem pow128 (k : Nat) : 128 ^ k = 2 ^ (7 * k) := (Nat.pow_mul 2 7 k).symm

/-- A varint reads back, also where the writer's type is not the reader's. -/
theorem reads_varint {bits bits' n : Nat} (hn : n < 2 ^ bits) (hn' : n < 2 ^ bits')
    (hbits : 0 < bits) (hbits' : 0 < bits' % 7) :
    Reads (takeVarint bits') (putVarint bits n) n := by
  obtain ⟨k, hk⟩ : ∃ k, varintMax bits = k + 1 := ⟨varintMax bits - 1, by unfold varintMax; omega⟩
  have hmax' : varintMax bits' = bits' / 7 + 1 := by
    unfold varintMax
    omega
  have hle : bits ≤ 7 * (k + 1) := by
    unfold varintMax at hk
    omega
  rw [takeVarint, putVarint, hk, hmax', maxOfLastByte]
  refine reads_groups ?_ (Nat.le_of_lt (Nat.mod_lt _ (by decide))) ?_
  · rw [pow128]
    exact Nat.lt_of_lt_of_le hn (Nat.pow_le_pow_right (by decide) hle)
  · rwa [pow128, ← Nat.pow_add, Nat.div_add_mod]

theorem reads_u16 (w : Word) : Reads takeU16 (putU16 w) w := by
  have h := (reads_varint w.isLt w.isLt (by decide) (by decide)).last (f := BitVec.ofNat 16)
  rwa [BitVec.ofNat_toNat, BitVec.setWidth_eq] at h

theorem reads_u32 (w : DWord) : Reads takeU32 (putU32 w) w := by
  have h := (reads_varint w.isLt w.isLt (by decide) (by decide)).last (f := BitVec.ofNat 32)
  rwa [BitVec.ofNat_toNat, BitVec.setWidth_eq] at h

theorem reads_bool (b : Bool) : Reads takeBool (putBool b) b := by
  cases b <;> exact fun _ => rfl

theorem strOfBytes_strBytes (s : String) : strOfBytes (strBytes s) = some s := by
  have hbytes : (strBytes s).map UInt8.ofBitVec = s.toByteArray.data.toList := by
    rw [strBytes, List.map_map]
    exact (List.map_congr_left fun _ _ => rfl).trans (List.map_id _)
  rw [strOfBytes, hbytes]
  exact dif_pos s.isValidUTF8

theorem length_strBytes (s : String) : (strBytes s).length = s.utf8ByteSize := List.length_map ..

/-- A string reads back where the writer's `usize` holds its length. -/
theorem reads_str {usize usize' : Nat} {s : String} (hs : s.utf8ByteSize < 2 ^ usize)
    (hs' : s.utf8ByteSize < 2 ^ usize') (husize : 0 < usize) (husize' : 0 < usize' % 7) :
    Reads (takeStr usize') (putStr usize s) s := by
  rw [← length_strBytes] at hs hs'
  refine (reads_varint hs hs' husize husize').bind ((reads_bytes (strBytes s)).final ?_)
  rw [strOfBytes_strBytes]
  exact Reads.pure s

/-- A variant and its fields. -/
theorem reads_variant {β : Type} {index : Nat} (h : index < 2 ^ 32) {fields : List Byte} {b : β}
    {f : Nat → Take β} (hf : Reads (f index) fields b) :
    Reads (takeVarint 32 >>= f) (putVariant index fields) b :=
  (reads_varint h h (by decide) (by decide)).bind hf

end VintageKvm.Postcard
