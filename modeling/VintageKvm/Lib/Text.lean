import VintageKvm.Lib.Word
import Mathlib.Data.List.DropRight

/-!
# Text in bounded buffers

Texts as lists of characters, with what `heapless::String`, `core::fmt` and
`str` do to them: writing what fits, trimming, splitting, and numbers in digits
both ways.
-/

namespace VintageKvm

abbrev Text := List Char

namespace Text

/-- The length of a text in bytes. -/
def len (s : Text) : Nat := (s.map Char.utf8Size).sum

/-- `heapless::String::push_str`: the whole text or nothing. -/
def pushStr (cap : Nat) (s piece : Text) : Option Text :=
  if len s + len piece ≤ cap then some (s ++ piece) else none

/-- `write!`: the pieces up to the first that does not fit, and whether all
did. -/
def write (cap : Nat) (s : Text) : List Text → Text × Bool
  | [] => (s, true)
  | piece :: pieces =>
    match pushStr cap s piece with
    | some s => write cap s pieces
    | none => (s, false)

/-- The characters that fit in `cap` bytes. -/
def cutTo (cap : Nat) : Text → Text
  | [] => []
  | c :: s => if c.utf8Size ≤ cap then c :: cutTo (cap - c.utf8Size) s else []

/-- `char::is_whitespace` -/
def isWhitespace (c : Char) : Bool :=
  (0x09 ≤ c.toNat && c.toNat ≤ 0x0D) || (0x2000 ≤ c.toNat && c.toNat ≤ 0x200A) ||
    [0x20, 0x85, 0xA0, 0x1680, 0x2028, 0x2029, 0x202F, 0x205F, 0x3000].contains c.toNat

/-- `u8::is_ascii_whitespace` -/
def isAsciiWhitespace (c : Char) : Bool := [0x20, 0x09, 0x0A, 0x0C, 0x0D].contains c.toNat

def trimStart (s : Text) : Text := s.dropWhile isWhitespace

def trim (s : Text) : Text := (trimStart s).rdropWhile isWhitespace

def splitAsciiWhitespace (s : Text) : List Text :=
  (s.splitOnP isAsciiWhitespace).filter (!·.isEmpty)

def decimal (n : Nat) : Text := Nat.toDigits 10 n

/-- What `{:x}` writes. -/
def hex (n : Nat) : Text := Nat.toDigits 16 n

def digit (radix : Nat) (c : Char) : Option Nat :=
  let d :=
    if '0' ≤ c ∧ c ≤ '9' then c.toNat - '0'.toNat
    else if 'a' ≤ c ∧ c ≤ 'z' then c.toNat - 'a'.toNat + 10
    else if 'A' ≤ c ∧ c ≤ 'Z' then c.toNat - 'A'.toNat + 10
    else radix
  if d < radix then some d else none

/-- The value of digits, none where it passes the bound on the way. -/
def parseDigits (radix bound : Nat) (s : Text) : Option Nat :=
  if s.isEmpty then none
  else s.foldlM (fun n c => do
    let n := radix * n + (← digit radix c)
    if n ≤ bound then some n else none) 0

/-- `u8::from_str_radix(_, 16)` -/
def parseHex (s : Text) : Option Byte :=
  (parseDigits 16 255 (if s.head? = some '+' then s.tail else s)).map (BitVec.ofNat 8)

/-- `str::parse::<i16>` -/
def parseI16 (s : Text) : Option Int :=
  if s.head? = some '-' then (parseDigits 10 32768 s.tail).map fun n => -(n : Int)
  else (parseDigits 10 32767 (if s.head? = some '+' then s.tail else s)).map fun n => (n : Int)

/-- `str::parse::<u64>` -/
def parseU64 (s : Text) : Option Nat :=
  parseDigits 10 (2 ^ 64 - 1) (if s.head? = some '+' then s.tail else s)

/-- `str::parse::<i64>` -/
def parseI64 (s : Text) : Option Int :=
  if s.head? = some '-' then (parseDigits 10 (2 ^ 63) s.tail).map fun n => -(n : Int)
  else (parseDigits 10 (2 ^ 63 - 1) (if s.head? = some '+' then s.tail else s)).map
    fun n => (n : Int)

/-- `str::split_once` -/
def splitOnce (c : Char) (s : Text) : Option (Text × Text) :=
  match s.dropWhile (· ≠ c) with
  | [] => none
  | _ :: v => some (s.takeWhile (· ≠ c), v)

/-- `str::as_bytes` -/
def bytes (s : Text) : List Byte := s.flatMap fun c => (String.utf8EncodeChar c).map UInt8.toBitVec

/-! ## What is written -/

variable {s t : Text} {cap : Nat}

theorem len_append (s t : Text) : len (s ++ t) = len s + len t := by
  rw [len, List.map_append, List.sum_append]
  rfl

theorem len_cons (c : Char) (s : Text) : len (c :: s) = c.utf8Size + len s := by
  rw [len, List.map_cons, List.sum_cons]
  rfl

theorem cutTo_eq (h : len s ≤ cap) : cutTo cap s = s := by
  induction s generalizing cap with
  | nil => rfl
  | cons c s ih =>
    rw [len_cons] at h
    rw [cutTo, if_pos (by omega), ih (by omega)]

theorem write_fits {piece : Text} {pieces : List Text} (h : len s + len piece ≤ cap) :
    write cap s (piece :: pieces) = write cap (s ++ piece) pieces := by
  rw [write, pushStr, if_pos h]

/-- What is written: some of the pieces. -/
theorem write_eq (cap : Nat) (s : Text) (pieces : List Text) :
    ∃ k, (write cap s pieces).1 = s ++ (pieces.take k).flatten := by
  induction pieces generalizing s with
  | nil => exact ⟨0, (List.append_nil s).symm⟩
  | cons piece pieces ih =>
    by_cases h : len s + len piece ≤ cap
    · obtain ⟨k, hk⟩ := ih (s ++ piece)
      refine ⟨k + 1, ?_⟩
      rw [write_fits h, hk, List.take_succ_cons, List.flatten_cons, List.append_assoc]
    · exact ⟨0, by rw [write, pushStr, if_neg h]; exact (List.append_nil s).symm⟩

theorem len_write (h : len s ≤ cap) (pieces : List Text) : len (write cap s pieces).1 ≤ cap := by
  induction pieces generalizing s with
  | nil => exact h
  | cons piece pieces ih =>
    by_cases hp : len s + len piece ≤ cap
    · rw [write_fits hp]
      exact ih (by rwa [len_append])
    · rw [write, pushStr, if_neg hp]
      exact h

theorem write_all {pieces : List Text} (h : len s + len pieces.flatten ≤ cap) :
    write cap s pieces = (s ++ pieces.flatten, true) := by
  induction pieces generalizing s with
  | nil => rw [write, List.flatten_nil, List.append_nil]
  | cons piece pieces ih =>
    rw [List.flatten_cons, len_append] at h
    rw [write_fits (by omega), ih (by rw [len_append]; omega), List.flatten_cons, List.append_assoc]

/-- No character of the text ends a line. -/
def Clean (s : Text) : Prop := ∀ c ∈ s, c ≠ '\r' ∧ c ≠ '\n'

instance (s : Text) : Decidable (Clean s) := List.decidableBAll _ s

theorem Clean.append (hs : Clean s) (ht : Clean t) : Clean (s ++ t) := fun c hc =>
  (List.mem_append.mp hc).elim (hs c) (ht c)

theorem Clean.flatten {ss : List Text} (h : ∀ s ∈ ss, Clean s) : Clean ss.flatten := fun c hc => by
  obtain ⟨s, hs, hcs⟩ := List.mem_flatten.mp hc
  exact h s hs c hcs

/-- There is no line end to take away. -/
theorem Clean.trimEnd (h : Clean s) : s.rdropWhile (fun c => c = '\r' ∨ c = '\n') = s := by
  rw [List.rdropWhile_eq_self_iff]
  intro hne hlast
  have := h _ (List.getLast_mem hne)
  exact (of_decide_eq_true hlast).elim this.1 this.2

theorem isDigit_decimal {n : Nat} {c : Char} (hc : c ∈ decimal n) : c.isDigit :=
  Nat.isDigit_of_mem_toDigits (by decide) (by decide) hc

theorem digit_ne {c d : Char} (hc : c.isDigit) (hd : d.isDigit = false) : c ≠ d := fun he => by
  rw [he, hd] at hc
  cases hc

theorem clean_decimal (n : Nat) : Clean (decimal n) := fun _ hc =>
  ⟨digit_ne (isDigit_decimal hc) (by decide), digit_ne (isDigit_decimal hc) (by decide)⟩

theorem utf8Size_ascii {c : Char} (hc : c.toNat < 128) : c.utf8Size = 1 :=
  Char.utf8Size_eq_one_iff.mpr (UInt32.le_iff_toNat_le.mpr (Nat.le_of_lt_succ hc))

theorem ascii_of_isDigit {c : Char} (hc : c.isDigit) : c.toNat < 128 := by
  have h9 : c.val ≤ '9'.val := (Bool.and_eq_true_iff.mp hc).2 |> of_decide_eq_true
  exact Nat.lt_of_le_of_lt (UInt32.le_iff_toNat_le.mp h9) (by decide)

theorem len_of_ascii (h : ∀ c ∈ s, c.toNat < 128) : len s = s.length := by
  induction s with
  | nil => rfl
  | cons c s ih =>
    rw [len_cons, utf8Size_ascii (h c (List.mem_cons_self ..)),
      ih fun d hd => h d (List.mem_cons_of_mem _ hd), List.length_cons, Nat.add_comm]

theorem len_decimal {n k : Nat} (hk : 0 < k) (hn : n < 10 ^ k) : len (decimal n) ≤ k := by
  rw [len_of_ascii fun c hc => ascii_of_isDigit (isDigit_decimal hc)]
  exact (Nat.length_toDigits_le_iff (by decide) hk).mpr hn

theorem mem_of_mem_splitOnP {p : Char → Bool} {c : Char} (ht : t ∈ s.splitOnP p)
    (hc : c ∈ t) : c ∈ s := by
  induction s generalizing t with
  | nil =>
    rw [List.splitOnP_nil, List.mem_singleton] at ht
    rwa [ht] at hc
  | cons x s ih =>
    rw [List.splitOnP_cons_eq_if_modifyHead] at ht
    split at ht
    · obtain rfl | ht := List.mem_cons.mp ht
      · cases hc
      · exact List.mem_cons_of_mem _ (ih ht hc)
    · obtain ⟨hd, tl, htl⟩ := List.exists_cons_of_ne_nil (List.splitOnP_ne_nil p s)
      rw [htl, List.modifyHead_cons] at ht
      obtain rfl | ht := List.mem_cons.mp ht
      · obtain rfl | hc := List.mem_cons.mp hc
        · exact List.mem_cons_self ..
        · exact List.mem_cons_of_mem _ (ih (htl ▸ List.mem_cons_self ..) hc)
      · exact List.mem_cons_of_mem _ (ih (htl ▸ List.mem_cons_of_mem _ ht) hc)

theorem mem_of_mem_trim {c : Char} (h : c ∈ trim s) : c ∈ s :=
  (List.dropWhile_suffix _).mem ((List.rdropWhile_prefix _ _).mem h)

theorem Clean.part (h : Clean s) (ht : t ∈ splitAsciiWhitespace (trim s)) : Clean t := fun c hc =>
  h c (mem_of_mem_trim (mem_of_mem_splitOnP (List.mem_of_mem_filter ht) hc))

theorem bytes_cons {c : Char} (hc : c.toNat < 128) (s : Text) :
    bytes (c :: s) = BitVec.ofNat 8 c.toNat :: bytes s := by
  rw [bytes, List.flatMap_cons, String.utf8EncodeChar_eq_singleton (utf8Size_ascii hc)]
  rfl

theorem intercalate_cons (c : Char) (s : Text) (ss : List Text) :
    [c].intercalate (s :: ss) = s ++ ss.flatMap fun t => c :: t := by
  induction ss generalizing s with
  | nil => rw [List.intercalate_singleton, List.flatMap_nil, List.append_nil]
  | cons t ss ih =>
    rw [List.intercalate_cons_cons, ih, List.flatMap_cons, List.append_assoc, List.cons_append]; rfl

/-- Lines that are each ended are split where they end. -/
theorem splitOn_lines {c : Char} {lines : List Text} (h : ∀ line ∈ lines, c ∉ line) :
    (lines.flatMap fun line => line ++ [c]).splitOn c = lines ++ [[]] := by
  induction lines with
  | nil => rfl
  | cons line lines ih =>
    rw [List.flatMap_cons, List.append_assoc, List.cons_append, List.nil_append,
      List.splitOn_append_cons_self_of_not_mem (h line (List.mem_cons_self ..)),
      ih fun l hl => h l (List.mem_cons_of_mem _ hl), List.cons_append]

/-- Words with blanks between them are split where they are. -/
theorem splitAsciiWhitespace_words {words : List Text}
    (h : ∀ w ∈ words, w ≠ [] ∧ ∀ c ∈ w, isAsciiWhitespace c = false) :
    splitAsciiWhitespace ([' '].intercalate words) = words := by
  induction words with
  | nil => rfl
  | cons w words ih =>
    obtain ⟨hne, hw⟩ := h w (List.mem_cons_self ..)
    have hkeep (ws : List Text) : (w :: ws).filter (!·.isEmpty) = w :: ws.filter (!·.isEmpty) :=
      List.filter_cons_of_pos (by rw [List.isEmpty_eq_false_iff.mpr hne]; rfl)
    cases words with
    | nil =>
      rw [List.intercalate_singleton, splitAsciiWhitespace, List.splitOnP_eq_singleton hw, hkeep]
      rfl
    | cons w' words =>
      have hrest := ih fun v hv => h v (List.mem_cons_of_mem _ hv)
      rw [splitAsciiWhitespace] at hrest
      rw [List.intercalate_cons_cons, List.append_assoc, List.singleton_append,
        splitAsciiWhitespace, List.splitOnP_append_cons_of_forall_mem hw ' '
        (by decide), hkeep, hrest]

theorem splitOnce_eq {c : Char} {k : Text} (h : c ∉ k) (v : Text) :
    splitOnce c (k ++ c :: v) = some (k, v) := by
  have hk : ∀ d ∈ k, decide (d ≠ c) = true := fun d hd => decide_eq_true fun he => h (he ▸ hd)
  have hc : decide (c ≠ c) = false := decide_eq_false fun hne => hne rfl
  rw [splitOnce, List.dropWhile_append_of_pos hk, List.takeWhile_append_of_pos hk,
    List.dropWhile_cons, List.takeWhile_cons,
    hc, if_neg Bool.false_ne_true, if_neg Bool.false_ne_true, List.append_nil]

theorem splitOnce_eq_none {c : Char} {s : Text} (h : c ∉ s) : splitOnce c s = none := by
  have hs : s.dropWhile (fun d => decide (d ≠ c)) = [] :=
    List.dropWhile_eq_nil_iff.mpr fun d hd => decide_eq_true fun he => h (he ▸ hd)
  rw [splitOnce, hs]

/-! ## Digits -/

theorem forall_mem_toDigits {radix : Nat} {p : Char → Prop} (h1 : 1 < radix)
    (hp : ∀ d < radix, p d.digitChar) (n : Nat) : ∀ c ∈ Nat.toDigits radix n, p c := by
  induction n using Nat.strongRecOn with
  | _ n ih =>
    intro c hc
    by_cases hlt : n < radix
    · rw [Nat.toDigits_of_lt_base hlt, List.mem_singleton] at hc
      rw [hc]
      exact hp n hlt
    · have hle := Nat.not_lt.mp hlt
      rw [Nat.toDigits_of_base_le h1 hle] at hc
      obtain hc | hc := List.mem_append.mp hc
      · exact ih _ (Nat.div_lt_self (by omega) h1) c hc
      · rw [List.mem_singleton.mp hc]
        exact hp _ (Nat.mod_lt _ (by omega))

theorem digit_digitChar {radix d : Nat} (hd : d < radix) (hr : radix ≤ 16) :
    digit radix d.digitChar = some d := by
  have hd16 : d < 16 := Nat.lt_of_lt_of_le hd hr
  have hdigit : ∀ d < 16, ∀ r, digit r (Nat.digitChar d) = if d < r then some d else none := by
    intro d hd r
    rcases d with _ | _ | _ | _ | _ | _ | _ | _ | _ | _ | _ | _ | _ | _ | _ | _ | d
    all_goals first | rfl | omega
  rw [hdigit d hd16, if_pos hd]

/-- Digits read back. -/
theorem foldlM_toDigits {radix bound n : Nat} (h1 : 1 < radix) (h16 : radix ≤ 16) (hn : n ≤ bound) :
    (Nat.toDigits radix n).foldlM (fun n c => do
      let n := radix * n + (← digit radix c)
      if n ≤ bound then some n else none) 0 = some n := by
  induction n using Nat.strongRecOn with
  | _ n ih =>
    by_cases hlt : n < radix
    · rw [Nat.toDigits_of_lt_base hlt, List.foldlM_cons, digit_digitChar hlt h16, Nat.mul_zero]
      simp only [Option.bind_eq_bind, Option.bind_some, Nat.zero_add, if_pos hn]
      rfl
    · have hle := Nat.not_lt.mp hlt
      have hdiv : n / radix < n := Nat.div_lt_self (by omega) h1
      have hmod : n % radix < radix := Nat.mod_lt _ (by omega)
      rw [Nat.toDigits_of_base_le h1 hle, List.foldlM_append, ih _ hdiv (by omega),
        Option.bind_eq_bind, Option.bind_some, List.foldlM_cons, digit_digitChar hmod h16]
      simp only [Option.bind_eq_bind, Option.bind_some, Nat.div_add_mod, if_pos hn]
      rfl

theorem ascii_hex {n : Nat} {c : Char} (hc : c ∈ hex n) : c.toNat < 128 :=
  forall_mem_toDigits (by decide) (p := fun c => c.toNat < 128) (by decide) n c hc

theorem toDigits_ne_nil (radix n : Nat) : Nat.toDigits radix n ≠ [] :=
  List.ne_nil_of_length_pos Nat.length_toDigits_pos

/-- What is written in digits reads back. -/
theorem parseDigits_toDigits {radix bound n : Nat} (h1 : 1 < radix) (h16 : radix ≤ 16)
    (hn : n ≤ bound) : parseDigits radix bound (Nat.toDigits radix n) = some n := by
  rw [parseDigits, List.isEmpty_eq_false_iff.mpr (toDigits_ne_nil radix n),
    if_neg Bool.false_ne_true]
  exact foldlM_toDigits h1 h16 hn

theorem parseU64_decimal {n : Nat} (hn : n < 2 ^ 64) : parseU64 (decimal n) = some n := by
  obtain ⟨c, cs, hcs⟩ := List.exists_cons_of_ne_nil (toDigits_ne_nil 10 n)
  have hplus : (decimal n).head? ≠ some '+' := by
    have hc : c.isDigit :=
      isDigit_decimal (n := n) (by rw [decimal, hcs]; exact List.mem_cons_self ..)
    rw [decimal, hcs, List.head?_cons]
    exact fun he => digit_ne hc (d := '+') (by decide) (Option.some.inj he)
  rw [parseU64, if_neg hplus]
  exact parseDigits_toDigits (by decide) (by decide) (Nat.le_sub_one_of_lt hn)

/-- Zeros before them change nothing. -/
theorem parseDigits_zeros {radix bound n : Nat} (h1 : 1 < radix) (h16 : radix ≤ 16)
    (hn : n ≤ bound) (k : Nat) :
    parseDigits radix bound (List.replicate k '0' ++ Nat.toDigits radix n) = some n := by
  have hne : List.replicate k '0' ++ Nat.toDigits radix n ≠ [] := fun he =>
    toDigits_ne_nil radix n (List.append_eq_nil_iff.mp he).2
  rw [parseDigits, List.isEmpty_eq_false_iff.mpr hne, if_neg Bool.false_ne_true, List.foldlM_append]
  induction k with
  | zero => exact foldlM_toDigits h1 h16 hn
  | succ k ih =>
    rw [List.replicate_succ, List.foldlM_cons, show digit radix '0' = some 0 from
      digit_digitChar (d := 0) (by omega) h16]
    simp only [Option.bind_eq_bind, Option.bind_some, Nat.mul_zero]
    exact ih fun he => toDigits_ne_nil radix n (List.append_eq_nil_iff.mp he).2

end Text

end VintageKvm
