import VintageKvm.Lib.Chunks
import VintageKvm.Lib.Text
import VintageKvm.Ps2.Classifier

/-!
# The DEBUG script of the bootstrap injector

The injector loads Stage 0 by typing it into DEBUG: the script as text, the
text as scancodes of the class's set. `typed_loads`: the keys read back to the
script, and the script leaves the binary in memory.
-/

namespace VintageKvm.Ps2

open Text (write pushStr bytes hex)

/-! ## Scancodes -/

def buildTable (entries : List (Char × Byte)) : List Byte :=
  entries.foldl (fun t e => t.set e.1.toNat e.2) (List.replicate 128 0)

def buildSet2Table : List Byte :=
  buildTable [
    ('a', 0x1C), ('b', 0x32), ('c', 0x21), ('d', 0x23), ('e', 0x24), ('f', 0x2B), ('g', 0x34),
    ('h', 0x33), ('i', 0x43), ('j', 0x3B), ('k', 0x42), ('l', 0x4B), ('m', 0x3A), ('n', 0x31),
    ('o', 0x44), ('p', 0x4D), ('q', 0x15), ('r', 0x2D), ('s', 0x1B), ('t', 0x2C), ('u', 0x3C),
    ('v', 0x2A), ('w', 0x1D), ('x', 0x22), ('y', 0x35), ('z', 0x1A),
    ('0', 0x45), ('1', 0x16), ('2', 0x1E), ('3', 0x26), ('4', 0x25), ('5', 0x2E), ('6', 0x36),
    ('7', 0x3D), ('8', 0x3E), ('9', 0x46),
    (' ', 0x29), ('\r', 0x5A), ('\t', 0x0D), ('\x08', 0x66), ('-', 0x4E), ('=', 0x55), ('[', 0x54),
    (']', 0x5B), (';', 0x4C), ('\x27', 0x52), (',', 0x41), ('.', 0x49), ('/', 0x4A), ('\x60', 0x0E),
    ('\x5C', 0x5D)]

def buildSet1Table : List Byte :=
  buildTable [
    ('q', 0x10), ('w', 0x11), ('e', 0x12), ('r', 0x13), ('t', 0x14), ('y', 0x15), ('u', 0x16),
    ('i', 0x17), ('o', 0x18), ('p', 0x19), ('a', 0x1E), ('s', 0x1F), ('d', 0x20), ('f', 0x21),
    ('g', 0x22), ('h', 0x23), ('j', 0x24), ('k', 0x25), ('l', 0x26), ('z', 0x2C), ('x', 0x2D),
    ('c', 0x2E), ('v', 0x2F), ('b', 0x30), ('n', 0x31), ('m', 0x32),
    ('1', 0x02), ('2', 0x03), ('3', 0x04), ('4', 0x05), ('5', 0x06), ('6', 0x07), ('7', 0x08),
    ('8', 0x09), ('9', 0x0A), ('0', 0x0B),
    (' ', 0x39), ('\r', 0x1C), ('\t', 0x0F), ('\x08', 0x0E), ('-', 0x0C), ('=', 0x0D), ('[', 0x1A),
    (']', 0x1B), (';', 0x27), ('\x27', 0x28), ('\x60', 0x29), ('\x5C', 0x2B), (',', 0x33),
    ('.', 0x34), ('/', 0x35)]

def SET2_TABLE : List Byte := buildSet2Table

def SET1_TABLE : List Byte := buildSet1Table

/-- None where the index is out of bounds. -/
def asciiToSet2 (c : Byte) : Option Byte := SET2_TABLE[c.toNat]?

def asciiToSet1 (c : Byte) : Option Byte := SET1_TABLE[c.toNat]?

/-! ## Typing -/

/-- The bytes of a key press and its release. -/
def typeScancodeAt (scancode : Byte) : List Byte := [scancode, 0xF0, scancode]

def typeScancodeXt (scancode : Byte) : List Byte := [scancode, scancode ||| 0x80]

/-- A text through a table; what the table does not have is skipped. -/
def typeKeys (asciiToSet : Byte → Option Byte) (typeScancode : Byte → List Byte) :
    List Byte → Option (List Byte)
  | [] => some []
  | c :: ascii => do
    let code ← asciiToSet c
    let keys ← typeKeys asciiToSet typeScancode ascii
    if code = 0 then some keys else some (typeScancode code ++ keys)

def typeAsciiAt : List Byte → Option (List Byte) := typeKeys asciiToSet2 typeScancodeAt

def typeAsciiXt : List Byte → Option (List Byte) := typeKeys asciiToSet1 typeScancodeXt

def typeAscii : MachineClass → List Byte → Option (List Byte)
  | .at_ | .ps2 => typeAsciiAt
  | .xt => typeAsciiXt

abbrev E_CHUNK : Nat := 16

abbrev STAGE0_ORIGIN : Word := 0x0100

/-- What ` {:02x}` writes. -/
def hexPieces (b : Byte) : List Text :=
  [[' '], List.replicate (2 - (hex b.toNat).length) '0', hex b.toNat]

/-- An `e` line as it is written into its buffer. -/
def eLine (addr : Word) (chunk : List Byte) : Text :=
  let cmd := (write 64 [] ["e ".toList, hex addr.toNat]).1
  let cmd := chunk.foldl (fun cmd b => (write 64 cmd (hexPieces b)).1) cmd
  (pushStr 64 cmd ['\r']).getD cmd

def typeChunks (cls : MachineClass) (addr : Word) : List (List Byte) → Option (List Byte)
  | [] => some []
  | chunk :: rest => do
    let keys ← typeAscii cls (bytes (eLine addr chunk))
    let more ← typeChunks cls (addr + BitVec.ofNat 16 chunk.length) rest
    some (keys ++ more)

def typeDebugStage0 (cls : MachineClass) (stage0Bin : List Byte) : Option (List Byte) := do
  let launch ← typeAscii cls (bytes "debug\r".toList)
  let load ← typeChunks cls STAGE0_ORIGIN (chunks E_CHUNK stage0Bin)
  let go ← typeAscii cls (bytes (write 16 [] ["g ".toList, hex STAGE0_ORIGIN.toNat, ['\r']]).1)
  some (launch ++ load ++ go)

/-! ## The script -/

/-- Two digits. -/
def hexByte (b : Byte) : Text := List.replicate (2 - (hex b.toNat).length) '0' ++ hex b.toNat

/-- DEBUG's command to enter bytes in memory. -/
def eCommand (addr : Word) (list : List Byte) : Text :=
  [' '].intercalate (['e'] :: hex addr.toNat :: list.map hexByte)

def eCommands (addr : Word) : List (List Byte) → List Text
  | [] => []
  | chunk :: rest => eCommand addr chunk :: eCommands (addr + BitVec.ofNat 16 chunk.length) rest

/-- The lines that DEBUG gets. -/
def commands (stage0Bin : List Byte) : List Text :=
  eCommands STAGE0_ORIGIN (chunks E_CHUNK stage0Bin) ++ ["g 100".toList]

/-! ## The host's side -/

/-- The one character of a table with a scancode. -/
def charOf (asciiToSet : Byte → Option Byte) (code : Byte) : Option Char :=
  match (List.range 128).filter fun c => asciiToSet (BitVec.ofNat 8 c) = some code with
  | [c] => if code = 0 then none else some (Char.ofNat c)
  | _ => none

/-- Presses and releases of Set 2 read as characters. -/
def readAt : List Byte → Option Text
  | [] => some []
  | code :: release :: code' :: keys => do
    let c ← if release = 0xF0 ∧ code' = code then charOf asciiToSet2 code else none
    return c :: (← readAt keys)
  | _ => none

/-- Presses and releases of Set 1 read as characters. -/
def readXt : List Byte → Option Text
  | [] => some []
  | code :: release :: keys => do
    let c ← if release = code ||| 0x80 then charOf asciiToSet1 code else none
    return c :: (← readXt keys)
  | _ => none

def readKeys : MachineClass → List Byte → Option Text
  | .at_ | .ps2 => readAt
  | .xt => readXt

namespace Debug

inductive Command where
  | enter (addr : Word) (list : List Byte)
  | go (addr : Word)

def parse (line : Text) : Option Command :=
  match line.splitOn ' ' with
  | ['e'] :: addr :: list => do
    let addr ← Text.parseDigits 16 0xFFFF addr
    let list ← list.mapM (Text.parseDigits 16 0xFF)
    some (.enter (BitVec.ofNat 16 addr) (list.map (BitVec.ofNat 8)))
  | [['g'], addr] => do
    let addr ← Text.parseDigits 16 0xFFFF addr
    some (.go (BitVec.ofNat 16 addr))
  | _ => none

/-- What an `e` command stores, byte by byte. -/
def stores (addr : Word) : List Byte → List (Word × Byte)
  | [] => []
  | b :: list => (addr, b) :: stores (addr + 1) list

/-- The stores of a session up to its `g`, and where that goes. -/
def session : List Text → Option (List (Word × Byte) × Word)
  | [] => none
  | line :: lines =>
    match parse line with
    | some (.enter addr list) => do
      let (written, start) ← session lines
      some (stores addr list ++ written, start)
    | some (.go addr) => some ([], addr)
    | none => none

/-- DEBUG started and its lines carried out. -/
def load (typed : Text) : Option (List (Word × Byte) × Word) :=
  match typed.splitOn '\r' with
  | line :: lines => if line = "debug".toList then session lines else none
  | [] => none

end Debug

/-! ## Keys -/

/-- The table has the characters of a text, each with a scancode of its own. -/
def Typable (asciiToSet : Byte → Option Byte) (s : Text) : Prop :=
  ∀ c ∈ s, c.toNat < 128 ∧ (asciiToSet (BitVec.ofNat 8 c.toNat)).bind (charOf asciiToSet) = some c

instance (asciiToSet : Byte → Option Byte) (s : Text) : Decidable (Typable asciiToSet s) :=
  List.decidableBAll _ s

theorem charOf_ne_zero {asciiToSet : Byte → Option Byte} {code : Byte} {c : Char}
    (h : charOf asciiToSet code = some c) : code ≠ 0 := by
  unfold charOf at h
  split at h
  · rintro rfl
    rw [if_pos rfl] at h
    cases h
  · cases h

/-- The keys of a text read back, whatever follows them. -/
theorem typeKeys_reads {asciiToSet : Byte → Option Byte} {typeScancode : Byte → List Byte}
    {read : List Byte → Option Text}
    (hread : ∀ {code c}, charOf asciiToSet code = some c →
      ∀ keys, read (typeScancode code ++ keys) = (read keys).map (c :: ·))
    {s : Text} (h : Typable asciiToSet s) :
    ∃ keys, typeKeys asciiToSet typeScancode (bytes s) = some keys ∧
      ∀ more, read (keys ++ more) = (read more).map (s ++ ·) := by
  induction s with
  | nil => exact ⟨[], rfl, fun more => (Option.map_id' ..).symm⟩
  | cons c s ih =>
    obtain ⟨keys, hkeys, hmore⟩ := ih fun d hd => h d (List.mem_cons_of_mem _ hd)
    obtain ⟨hc, hbind⟩ := h c (List.mem_cons_self ..)
    obtain ⟨code, hcode, hchar⟩ := Option.bind_eq_some_iff.mp hbind
    refine ⟨typeScancode code ++ keys, ?_, fun more => ?_⟩
    · rw [Text.bytes_cons hc, typeKeys, hcode, hkeys]
      exact if_neg (charOf_ne_zero hchar)
    · rw [List.append_assoc, hread hchar, hmore, Option.map_map]
      rfl

theorem readAt_key {code : Byte} {c : Char} (h : charOf asciiToSet2 code = some c)
    (keys : List Byte) : readAt (typeScancodeAt code ++ keys) = (readAt keys).map (c :: ·) := by
  rw [typeScancodeAt, List.cons_append, List.cons_append, List.cons_append, List.nil_append, readAt,
    if_pos ⟨rfl, rfl⟩, h]
  exact Option.map_eq_bind.symm

theorem readXt_key {code : Byte} {c : Char} (h : charOf asciiToSet1 code = some c)
    (keys : List Byte) : readXt (typeScancodeXt code ++ keys) = (readXt keys).map (c :: ·) := by
  rw [typeScancodeXt, List.cons_append, List.cons_append, List.nil_append, readXt, if_pos rfl, h]
  exact Option.map_eq_bind.symm

def asciiToSet : MachineClass → Byte → Option Byte
  | .at_ | .ps2 => asciiToSet2
  | .xt => asciiToSet1

variable {cls : MachineClass} {s t : Text} {addr : Word} {list : List Byte}

/-- A text is typed as keys that read back. -/
def Types (cls : MachineClass) (s : Text) (keys : List Byte) : Prop :=
  ∀ more, readKeys cls (keys ++ more) = (readKeys cls more).map (s ++ ·)

theorem typeAscii_reads (h : Typable (asciiToSet cls) s) :
    ∃ keys, typeAscii cls (bytes s) = some keys ∧ Types cls s keys := by
  cases cls with
  | xt => exact typeKeys_reads (fun h => readXt_key h) h
  | at_ => exact typeKeys_reads (fun h => readAt_key h) h
  | ps2 => exact typeKeys_reads (fun h => readAt_key h) h

theorem Types.append {keys keys' : List Byte} (h : Types cls s keys) (h' : Types cls t keys') :
    Types cls (s ++ t) (keys ++ keys') := fun more => by
  rw [List.append_assoc, h, h', Option.map_map]
  exact congrArg (Option.map · _) (funext fun r => (List.append_assoc s t r).symm)

theorem Types.nil (cls : MachineClass) : Types cls [] [] := fun _ => (Option.map_id' ..).symm

theorem Types.read {keys : List Byte} (h : Types cls s keys) : readKeys cls keys = some s := by
  have hnil : readKeys cls [] = some [] := by cases cls <;> rfl
  have := h []
  rwa [List.append_nil, hnil, Option.map_some, List.append_nil] at this

/-- The characters that a script consists of. -/
def scriptChars : Text := "debug 0123456789abcdef\r".toList

theorem typable_scriptChars (cls : MachineClass) : Typable (asciiToSet cls) scriptChars := by
  have h2 : Typable asciiToSet2 scriptChars := by decide +kernel
  have h1 : Typable asciiToSet1 scriptChars := by decide +kernel
  cases cls with
  | xt => exact h1
  | at_ => exact h2
  | ps2 => exact h2

theorem typable_of_subset (h : s ⊆ scriptChars) : Typable (asciiToSet cls) s := fun c hc =>
  typable_scriptChars cls c (h hc)

/-! ## Lines -/

theorem hex_subset (n : Nat) : hex n ⊆ scriptChars :=
  Text.forall_mem_toDigits (by decide) (p := (· ∈ scriptChars)) (by decide) n

theorem length_hex (n : Nat) {k : Nat} (hk : 0 < k) (hn : n < 16 ^ k) : (hex n).length ≤ k :=
  (Nat.length_toDigits_le_iff (by decide) hk).mpr hn

theorem hexByte_subset (b : Byte) : hexByte b ⊆ scriptChars :=
  List.append_subset.mpr
    ⟨fun c hc => by rw [List.eq_of_mem_replicate hc]; decide, hex_subset b.toNat⟩

theorem length_hexByte (b : Byte) : (hexByte b).length = 2 := by
  have := length_hex b.toNat (k := 2) (by decide) b.isLt
  rw [hexByte, List.length_append, List.length_replicate]
  omega

theorem eCommand_eq (addr : Word) (list : List Byte) :
    eCommand addr list = "e ".toList ++ hex addr.toNat ++ list.flatMap
      fun b => ' ' :: hexByte b := by
  rw [eCommand, Text.intercalate_cons, List.flatMap_cons, List.flatMap_map]
  rfl

theorem eCommand_subset (addr : Word) (list : List Byte) : eCommand addr list ⊆ scriptChars := by
  rw [eCommand_eq]
  refine List.append_subset.mpr ⟨List.append_subset.mpr ⟨by decide, hex_subset _⟩, ?_⟩
  intro c hc
  obtain ⟨b, -, hb⟩ := List.mem_flatMap.mp hc
  exact List.cons_subset.mpr ⟨by decide, hexByte_subset b⟩ hb

theorem ascii_of_subset (h : s ⊆ scriptChars) : ∀ c ∈ s, c.toNat < 128 := fun c hc =>
  have hall : scriptChars.all (fun c => c.toNat < 128) = true := by decide
  of_decide_eq_true (List.all_eq_true.mp hall c (h hc))

theorem length_list (list : List Byte) :
    (list.flatMap fun b => ' ' :: hexByte b).length = 3 * list.length := by
  induction list with
  | nil => rfl
  | cons b list ih =>
    rw [List.flatMap_cons, List.length_append, ih, List.length_cons, length_hexByte,
      List.length_cons]; omega

/-- The bytes of a chunk are all written where they fit. -/
theorem write_list {cmd : Text} (h : Text.len cmd + 3 * list.length ≤ 64) :
    list.foldl (fun cmd b => (write 64 cmd (hexPieces b)).1) cmd = cmd ++ list.flatMap
      fun b => ' ' :: hexByte b := by
  induction list generalizing cmd with
  | nil => exact (List.append_nil cmd).symm
  | cons b list ih =>
    rw [List.length_cons] at h
    have hflat : (hexPieces b).flatten = ' ' :: hexByte b := by
      rw [hexPieces, List.flatten_cons, List.flatten_cons, List.flatten_cons, List.flatten_nil,
        List.append_nil]
      rfl
    have hlen : Text.len (' ' :: hexByte b) = 3 := by
      rw [Text.len_of_ascii (ascii_of_subset (List.cons_subset.mpr ⟨by decide, hexByte_subset b⟩)),
        List.length_cons, length_hexByte]
    have hwrite : write 64 cmd (hexPieces b) = (cmd ++ ' ' :: hexByte b, true) := by
      rw [Text.write_all (by rw [hflat]; omega), hflat]
    rw [List.foldl_cons, hwrite, ih (by rw [Text.len_append]; omega), List.flatMap_cons,
      List.append_assoc]

/-- No line of the script is cut. -/
theorem eLine_eq (addr : Word) (h : list.length ≤ E_CHUNK) :
    eLine addr list = eCommand addr list ++ ['\r'] := by
  have hhex := length_hex addr.toNat (k := 4) (by decide) addr.isLt
  have hlen : Text.len (hex addr.toNat) = (hex addr.toNat).length :=
    Text.len_of_ascii fun _ => Text.ascii_hex
  have he : Text.len "e ".toList = 2 := rfl
  have hhead : write 64 [] ["e ".toList, hex addr.toNat] =
      ("e ".toList ++ hex addr.toNat, true) := by
    have hfit : Text.len [] + Text.len "e ".toList ≤ 64 := by decide
    rw [Text.write_fits hfit, Text.write_fits (by rw [List.nil_append]; omega)]
    rfl
  have hcmd : Text.len (eCommand addr list) = 2 + (hex addr.toNat).length + 3 * list.length := by
    rw [Text.len_of_ascii (ascii_of_subset (eCommand_subset addr list)), eCommand_eq,
      List.length_append, List.length_append, length_list]
    rfl
  have hcr : Text.len ['\r'] = 1 := rfl
  have hmax : list.length ≤ 16 := h
  rw [eLine, hhead]
  dsimp only
  rw [write_list (by rw [Text.len_append]; omega), ← eCommand_eq, pushStr, if_pos (by omega)]
  rfl

/-- A line and its end. -/
abbrev ended (line : Text) : Text := line ++ ['\r']

theorem typeChunks_reads (cls : MachineClass) {cs : List (List Byte)}
    (h : ∀ c ∈ cs, c.length ≤ E_CHUNK) (addr : Word) :
    ∃ keys, typeChunks cls addr cs = some keys ∧
      Types cls ((eCommands addr cs).flatMap ended) keys := by
  induction cs generalizing addr with
  | nil => exact ⟨[], rfl, Types.nil cls⟩
  | cons c cs ih =>
    have hline : Typable (asciiToSet cls) (eLine addr c) := by
      rw [eLine_eq addr (h c (List.mem_cons_self ..))]
      exact typable_of_subset (List.append_subset.mpr ⟨eCommand_subset addr c, by decide⟩)
    obtain ⟨keys, hkeys, htypes⟩ := typeAscii_reads hline
    obtain ⟨more, hmore, hrest⟩ :=
      ih (fun d hd => h d (List.mem_cons_of_mem _ hd)) (addr + BitVec.ofNat 16 c.length)
    refine ⟨keys ++ more, by rw [typeChunks, hkeys, hmore]; rfl, ?_⟩
    rw [eLine_eq addr (h c (List.mem_cons_self ..))] at htypes
    rw [eCommands, List.flatMap_cons]
    exact htypes.append hrest

/-- The whole script is typed, and its keys read back. -/
theorem typeDebugStage0_reads (cls : MachineClass) (stage0Bin : List Byte) :
    ∃ keys, typeDebugStage0 cls stage0Bin = some keys ∧
      Types cls (("debug".toList :: commands stage0Bin).flatMap ended) keys := by
  have hdebug : Typable (asciiToSet cls) "debug\r".toList := typable_of_subset (by decide)
  have hg : Typable (asciiToSet cls) "g 100\r".toList := typable_of_subset (by decide)
  have hchunks : ∀ c ∈ chunks E_CHUNK stage0Bin, c.length ≤ E_CHUNK := fun _ => length_of_mem_chunks
  obtain ⟨launch, hlaunch, htypes₁⟩ := typeAscii_reads hdebug
  obtain ⟨load, hload, htypes₂⟩ := typeChunks_reads cls hchunks STAGE0_ORIGIN
  obtain ⟨go, hgo, htypes₃⟩ := typeAscii_reads hg
  refine ⟨launch ++ load ++ go, ?_, ?_⟩
  · have hwrite : (write 16 [] ["g ".toList, hex STAGE0_ORIGIN.toNat, ['\r']]).1 =
        "g 100\r".toList := by decide
    rw [typeDebugStage0, hlaunch, hload, hwrite, hgo]
    rfl
  · rw [List.flatMap_cons, commands, List.flatMap_append, ← List.append_assoc]
    exact (htypes₁.append htypes₂).append htypes₃

/-! ## The session -/

open Debug

theorem notMem_hex {c : Char} (h : ∀ d < 16, Nat.digitChar d ≠ c) (n : Nat) : c ∉ hex n := fun hc =>
  Text.forall_mem_toDigits (by decide) (p := (· ≠ c)) h n c hc rfl

theorem notMem_hexByte {c : Char} (h : ∀ d < 16, Nat.digitChar d ≠ c) (b : Byte) :
    c ∉ hexByte b := by
  rw [hexByte, List.mem_append, not_or]
  exact ⟨fun hc => h 0 (by decide) (List.eq_of_mem_replicate hc).symm, notMem_hex h _⟩

theorem mapM_hexByte (list : List Byte) :
    (list.map hexByte).mapM (Text.parseDigits 16 0xFF) = some (list.map BitVec.toNat) := by
  induction list with
  | nil => rfl
  | cons b list ih =>
    have hb : Text.parseDigits 16 0xFF (hexByte b) = some b.toNat :=
      Text.parseDigits_zeros (by decide) (by decide) (by omega) _
    rw [List.map_cons, List.mapM_cons, hb, ih]
    rfl

theorem parse_eCommand (addr : Word) (list : List Byte) :
    parse (eCommand addr list) = some (.enter addr list) := by
  have hsplit : (eCommand addr list).splitOn ' ' = ['e'] :: hex addr.toNat :: list.map hexByte := by
    refine List.splitOn_intercalate _ (fun word hword => ?_) (List.cons_ne_nil _ _)
    obtain rfl | rfl | ⟨b, -, rfl⟩ : word = ['e'] ∨ word = hex addr.toNat ∨ ∃ b ∈ list,
        hexByte b = word := by
      simpa using hword
    · decide
    · exact notMem_hex (by decide) _
    · exact notMem_hexByte (by decide) b
  have haddr : Text.parseDigits 16 0xFFFF (hex addr.toNat) = some addr.toNat :=
    Text.parseDigits_toDigits (by decide) (by decide) (by omega)
  have hlist : (list.map BitVec.toNat).map (BitVec.ofNat 8) = list := by
    rw [List.map_map]
    refine (List.map_congr_left fun b _ => ?_).trans (List.map_id list)
    rw [Function.comp, BitVec.ofNat_toNat, BitVec.setWidth_eq, id]
  simp only [parse, hsplit, haddr, mapM_hexByte, Option.bind_eq_bind, Option.bind_some, hlist,
    BitVec.ofNat_toNat, BitVec.setWidth_eq]

theorem stores_append (addr : Word) (list more : List Byte) :
    stores addr (list ++ more) = stores addr list ++
      stores (addr + BitVec.ofNat 16 list.length) more := by
  induction list generalizing addr with
  | nil =>
    rw [List.length_nil, BitVec.add_zero]
    rfl
  | cons b list ih =>
    have hnext : addr + BitVec.ofNat 16 (b :: list).length =
        addr + 1 + BitVec.ofNat 16 list.length := by
      rw [List.length_cons, BitVec.ofNat_add, BitVec.add_assoc,
        BitVec.add_comm (BitVec.ofNat 16 list.length)]
      rfl
    rw [hnext, List.cons_append, stores, ih, stores, List.cons_append]

/-- The commands store the chunks one after the other. -/
theorem session_eCommands (addr : Word) (cs : List (List Byte)) (lines : List Text) :
    session (eCommands addr cs ++ lines) =
      (session lines).map fun r => (stores addr cs.flatten ++ r.1, r.2) := by
  induction cs generalizing addr with
  | nil => exact (Option.map_id' ..).symm
  | cons c cs ih =>
    rw [eCommands, List.cons_append, session, parse_eCommand]
    dsimp only
    rw [ih, List.flatten_cons, stores_append]
    cases session lines with
    | none => rfl
    | some r => exact congrArg (fun written => some (written, r.2)) (List.append_assoc ..).symm

/-- Stores that do not wrap around. -/
theorem stores_eq {addr : Word} {list : List Byte} (h : addr.toNat + list.length ≤ 2 ^ 16) :
    (stores addr list).map (fun w => (w.1.toNat, w.2)) =
      (list.zipIdx addr.toNat).map Prod.swap := by
  induction list generalizing addr with
  | nil => rfl
  | cons b list ih =>
    cases list with
    | nil => rfl
    | cons b' list =>
      rw [List.length_cons, List.length_cons] at h
      have hnext : (addr + 1).toNat = addr.toNat + 1 :=
        Nat.mod_eq_of_lt (by change addr.toNat + 1 < 2 ^ 16; omega)
      rw [stores, List.map_cons, ih (by rw [hnext, List.length_cons]; omega), hnext,
        List.zipIdx_cons, List.map_cons]
      rfl

theorem cr_notMem_eCommands {cs : List (List Byte)} {line : Text} (h : line ∈ eCommands addr cs) :
    '\r' ∉ line := by
  induction cs generalizing addr with
  | nil => cases h
  | cons c cs ih =>
    obtain rfl | h := List.mem_cons.mp h
    · rw [eCommand_eq, List.mem_append, List.mem_append, not_or, not_or]
      refine ⟨⟨by decide, notMem_hex (by decide) _⟩, fun hc => ?_⟩
      obtain ⟨b, -, hb⟩ := List.mem_flatMap.mp hc
      obtain hb | hb := List.mem_cons.mp hb
      · cases hb
      · exact notMem_hexByte (by decide) b hb
    · exact ih h

theorem cr_notMem {stage0Bin : List Byte} {line : Text}
    (h : line ∈ "debug".toList :: commands stage0Bin) : '\r' ∉ line := by
  obtain rfl | h := List.mem_cons.mp h
  · decide
  obtain h | h := List.mem_append.mp h
  · exact cr_notMem_eCommands h
  · rw [List.mem_singleton.mp h]
    decide

/-- The keys typed read back to the script, and the script leaves the binary
in memory from the origin on. -/
theorem typed_loads (cls : MachineClass) (stage0Bin : List Byte) (h : stage0Bin.length ≤ 0xFE00) :
    ∃ typed written,
      (typeDebugStage0 cls stage0Bin).bind (readKeys cls) = some typed ∧
      typed = ("debug".toList :: commands stage0Bin).flatMap ended ∧
      load typed = some (written, STAGE0_ORIGIN) ∧
      written.map (fun w => (w.1.toNat, w.2)) = (stage0Bin.zipIdx 0x100).map Prod.swap := by
  obtain ⟨keys, hkeys, htypes⟩ := typeDebugStage0_reads cls stage0Bin
  have hfits : STAGE0_ORIGIN.toNat + stage0Bin.length ≤ 2 ^ 16 := by
    show 0x100 + stage0Bin.length ≤ 2 ^ 16
    omega
  refine ⟨_, stores STAGE0_ORIGIN stage0Bin, ?_, rfl, ?_, stores_eq hfits⟩
  · rw [hkeys, Option.bind_some, htypes.read]
  · have hgo : session (["g 100".toList] ++ [[]]) = some ([], STAGE0_ORIGIN) := by decide
    rw [load, Text.splitOn_lines fun _ => cr_notMem, List.cons_append]
    dsimp only
    rw [if_pos rfl, commands, List.append_assoc, session_eCommands, chunks_flatten (by decide), hgo,
      Option.map_some, List.append_nil]

theorem typed_loads_three : ([0xEA, 0x00, 0xFF] : List Byte).length ≤ 0xFE00 ∧
    ∃ typed written,
      (typeDebugStage0 .xt [0xEA, 0x00, 0xFF]).bind (readKeys .xt) = some typed ∧
      typed = ("debug".toList :: commands [0xEA, 0x00, 0xFF]).flatMap ended ∧
      load typed = some (written, STAGE0_ORIGIN) ∧
      written.map (fun w => (w.1.toNat, w.2)) = [(0x100, 0xEA), (0x101, 0x00), (0x102, 0xFF)] :=
  ⟨by decide, typed_loads .xt [0xEA, 0x00, 0xFF] (by decide)⟩

end VintageKvm.Ps2
