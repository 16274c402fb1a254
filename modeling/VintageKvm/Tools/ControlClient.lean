import VintageKvm.Firmware.Usb.Control

/-!
# The control client

The client reads the lines of a reply and, for `stats`, makes JSON of them.
`stats_survive`: every counter of the firmware is in it, under its name.
-/

namespace VintageKvm.Tools.ControlClient

open Text
open Firmware.Usb (Rpc Terminator Ends lines sendStats statsLines OUT_CAP terminator_iff
  sendStats_whole len_statsLines statsLines_fit lines_sendStats statsLines_clean)

/-! ## JSON -/

inductive Value where
  | unsigned (n : Nat)
  | signed (i : Int)
  | string (s : Text)
  | object (entries : List (Text × Value))

/-- An object's entries, in the order of their keys. -/
abbrev Map := List (Text × Value)

def Map.insert (m : Map) (k : Text) (v : Value) : Map :=
  match m with
  | [] => [(k, v)]
  | (k', v') :: m =>
    if k = k' then (k, v) :: m
    else if k < k' then (k, v) :: (k', v') :: m
    else (k', v') :: Map.insert m k v

/-! ## The reply -/

/-- The lines of a reply, none where it does not end. -/
def readReply : List Text → Option (List Text)
  | [] => none
  | line :: rest =>
    let trimmed := line.rdropWhile fun c => c = '\r' ∨ c = '\n'
    if "vintage-kvm control".toList <+: trimmed then readReply rest
    else if Terminator line then some [trimmed]
    else (readReply rest).map (trimmed :: ·)

def kvValue (s : Text) : Value :=
  match parseU64 s with
  | some n => .unsigned n
  | none =>
    match parseI64 s with
    | some n => .signed n
    | none => .string s

/-- The pairs of a section. -/
def parseSection (section_ : Map) : List Text → Map
  | [] => section_
  | tok :: parts =>
    match splitOnce '=' tok with
    | some (k, v) => parseSection (section_.insert k (kvValue v)) parts
    | none => parseSection section_ parts

/-- One line of `stats`. -/
def parseLine (top : Map) (line : Text) : Map :=
  if "ok".toList <+: line then top
  else
    match splitAsciiWhitespace line with
    | [] => top
    | first :: parts =>
      match splitOnce '=' first with
      | some (k, v) => top.insert k (kvValue v)
      | none => top.insert first (.object (parseSection [] parts))

def parseStats (lines : List Text) : Value := .object (lines.foldl parseLine [])

/-! ## The counters -/

/-- The counters of the firmware as they should be read. -/
def statsOf (rpc : Rpc) : Value :=
  let n (w : DWord) : Value := .unsigned w.toNat
  .object [
    ("aux".toList, .object [
      ("clk_active".toList, n rpc.aux.clkActiveWords), ("errored".toList, n rpc.aux.framesErrored),
      ("fifo_ovr".toList, n rpc.auxFifoOverrun), ("frames".toList, n rpc.aux.framesTotal),
      ("glitches".toList, n rpc.aux.glitchesTotal), ("words".toList, n rpc.aux.words)]),
    ("kbd".toList, .object [
      ("clk_active".toList, n rpc.kbd.clkActiveWords), ("errored".toList, n rpc.kbd.framesErrored),
      ("fifo_ovr".toList, n rpc.kbdFifoOverrun), ("frames".toList, n rpc.kbd.framesTotal),
      ("glitches".toList, n rpc.kbd.glitchesTotal), ("self_tx".toList, n rpc.kbdSelfTxFrames),
      ("words".toList, n rpc.kbd.words)]),
    ("uptime_ms".toList, .unsigned rpc.uptimeMs.toNat),
    ("usb".toList, .object [("event_drops".toList, n rpc.usbEventDrops)])]

/-! ## A line read -/

/-- A name and a count as the firmware writes them. -/
def fieldText (f : Text × Nat) : Text := f.1 ++ '=' :: decimal f.2

/-- A name is one word without `=`. -/
def Name (k : Text) : Prop := k ≠ [] ∧ ∀ c ∈ k, isAsciiWhitespace c = false ∧ c ≠ '='

instance (k : Text) : Decidable (Name k) :=
  @instDecidableAnd _ _ inferInstance (List.decidableBAll _ k)

theorem Name.splitOnce {k : Text} (h : Name k) (v : Text) :
    splitOnce '=' (k ++ '=' :: v) = some (k, v) :=
  splitOnce_eq (fun hc => (h.2 _ hc).2 rfl) v

theorem Name.splitOnce_none {k : Text} (h : Name k) : Text.splitOnce '=' k = none :=
  splitOnce_eq_none fun hc => (h.2 _ hc).2 rfl

theorem Name.word {k : Text} (h : Name k) : k ≠ [] ∧ ∀ c ∈ k, isAsciiWhitespace c = false :=
  ⟨h.1, fun c hc => (h.2 c hc).1⟩

theorem isAsciiWhitespace_digit {c : Char} (hc : c.isDigit) : isAsciiWhitespace c = false := by
  have h0 : '0'.toNat ≤ c.toNat :=
    UInt32.le_iff_toNat_le.mp (of_decide_eq_true (Bool.and_eq_true_iff.mp hc).1)
  have h48 : 48 ≤ c.toNat := h0
  simp only [isAsciiWhitespace, List.contains_cons, List.contains_nil, Bool.or_false,
    Bool.or_eq_false_iff, beq_eq_false_iff_ne]
  omega

theorem Name.field {f : Text × Nat} (h : Name f.1) :
    fieldText f ≠ [] ∧ ∀ c ∈ fieldText f, isAsciiWhitespace c = false := by
  refine ⟨fun he => h.1 (List.append_eq_nil_iff.mp he).1, fun c hc => ?_⟩
  obtain hc | hc := List.mem_append.mp hc
  · exact (h.2 c hc).1
  obtain rfl | hc := List.mem_cons.mp hc
  · decide
  · exact isAsciiWhitespace_digit (isDigit_decimal hc)

theorem kvValue_decimal {n : Nat} (h : n < 2 ^ 64) : kvValue (decimal n) = .unsigned n := by
  rw [kvValue, parseU64_decimal h]

/-- Entries put in one after the other. -/
def insertAll (m : Map) (fields : List (Text × Nat)) : Map :=
  fields.foldl (fun m f => m.insert f.1 (.unsigned f.2)) m

theorem parseSection_fields {fields : List (Text × Nat)}
    (h : ∀ f ∈ fields, Name f.1 ∧ f.2 < 2 ^ 64) (m : Map) :
    parseSection m (fields.map fieldText) = insertAll m fields := by
  induction fields generalizing m with
  | nil => rfl
  | cons f fields ih =>
    obtain ⟨hname, hval⟩ := h f (List.mem_cons_self ..)
    rw [List.map_cons, parseSection, fieldText, hname.splitOnce]
    dsimp only
    rw [kvValue_decimal hval, ih fun g hg => h g (List.mem_cons_of_mem _ hg)]
    rfl

/-- A section of names and counts. -/
def sectionText (name : Text) (fields : List (Text × Nat)) : Text :=
  [' '].intercalate (name :: fields.map fieldText)

theorem parseLine_section {name : Text} {fields : List (Text × Nat)}
    (hok : ¬ "ok".toList <+: sectionText name fields)
    (hname : Name name) (h : ∀ f ∈ fields, Name f.1 ∧ f.2 < 2 ^ 64) (top : Map) :
    parseLine top (sectionText name fields) = top.insert name (.object (insertAll [] fields)) := by
  have hwords : ∀ w ∈ name :: fields.map fieldText, w ≠ [] ∧ ∀ c ∈ w,
      isAsciiWhitespace c = false := fun w hw => by
    obtain rfl | hw := List.mem_cons.mp hw
    · exact hname.word
    · obtain ⟨f, hf, rfl⟩ := List.mem_map.mp hw
      exact (h f hf).1.field
  rw [parseLine, if_neg hok, sectionText, splitAsciiWhitespace_words hwords]
  dsimp only
  rw [hname.splitOnce_none, parseSection_fields h]

theorem parseLine_field {f : Text × Nat} (hok : ¬ "ok".toList <+: fieldText f) (hname : Name f.1)
    (hval : f.2 < 2 ^ 64) (top : Map) :
    parseLine top (fieldText f) = top.insert f.1 (.unsigned f.2) := by
  have hword : splitAsciiWhitespace (fieldText f) = [fieldText f] := by
    have hwords : ∀ w ∈ [fieldText f], w ≠ [] ∧ ∀ c ∈ w, isAsciiWhitespace c = false := fun w hw =>
      List.mem_singleton.mp hw ▸ hname.field
    have hsplit := splitAsciiWhitespace_words hwords
    rwa [List.intercalate_singleton] at hsplit
  rw [parseLine, if_neg hok, hword]
  dsimp only
  rw [fieldText, hname.splitOnce]
  dsimp only
  rw [kvValue_decimal hval]

/-! ## The firmware's lines -/

variable (rpc : Rpc)

def uptimeField : Text × Nat := ("uptime_ms".toList, rpc.uptimeMs.toNat)

def kbdFields : List (Text × Nat) :=
  [("words".toList, rpc.kbd.words.toNat), ("clk_active".toList, rpc.kbd.clkActiveWords.toNat),
   ("frames".toList, rpc.kbd.framesTotal.toNat), ("errored".toList, rpc.kbd.framesErrored.toNat),
   ("self_tx".toList, rpc.kbdSelfTxFrames.toNat), ("fifo_ovr".toList, rpc.kbdFifoOverrun.toNat),
   ("glitches".toList, rpc.kbd.glitchesTotal.toNat)]

def auxFields : List (Text × Nat) :=
  [("words".toList, rpc.aux.words.toNat), ("clk_active".toList, rpc.aux.clkActiveWords.toNat),
   ("frames".toList, rpc.aux.framesTotal.toNat), ("errored".toList, rpc.aux.framesErrored.toNat),
   ("fifo_ovr".toList, rpc.auxFifoOverrun.toNat), ("glitches".toList, rpc.aux.glitchesTotal.toNat)]

def usbFields : List (Text × Nat) := [("event_drops".toList, rpc.usbEventDrops.toNat)]

/-- The lines of `stats` as names and counts. -/
def statsTexts : List Text :=
  [fieldText (uptimeField rpc), sectionText "kbd".toList (kbdFields rpc),
    sectionText "aux".toList (auxFields rpc),
   sectionText "usb".toList (usbFields rpc)]

/-- A field in the pieces that `write!` makes of it, and a section in its own. -/
def fieldPieces (f : Text × Nat) : List Text := [f.1 ++ ['='], decimal f.2]

def sectionPieces (name : Text) : List (Text × Nat) → List Text
  | [] => [name]
  | f :: fields =>
    (name ++ ' ' :: (f.1 ++ ['='])) :: decimal f.2 :: fields.flatMap
      fun g => [' ' :: (g.1 ++ ['=']), decimal g.2]

theorem fieldPieces_flatten (f : Text × Nat) : (fieldPieces f).flatten = fieldText f := by
  rw [fieldPieces, List.flatten_cons, List.flatten_cons, List.flatten_nil, List.append_nil,
    List.append_assoc]
  rfl

theorem sectionPieces_flatten (name : Text) (fields : List (Text × Nat)) :
    (sectionPieces name fields).flatten = sectionText name fields := by
  have hrest (fields : List (Text × Nat)) :
      (fields.flatMap fun g => [' ' :: (g.1 ++ ['=']), decimal g.2]).flatten =
        (fields.map fieldText).flatMap fun t => ' ' :: t := by
    induction fields with
    | nil => rfl
    | cons g fields ih =>
      rw [List.flatMap_cons, List.flatten_append, ih, List.map_cons, List.flatMap_cons,
        List.flatten_cons, List.flatten_cons, List.flatten_nil, List.append_nil, List.cons_append,
        List.append_assoc]
      rfl
  rw [sectionText, intercalate_cons]
  cases fields with
  | nil => rfl
  | cons f fields =>
    rw [sectionPieces, List.flatten_cons, List.flatten_cons, hrest, List.map_cons,
      List.flatMap_cons, fieldText]
    simp only [List.append_assoc, List.cons_append, List.nil_append]

theorem statsLines_eq : statsLines rpc =
    [fieldPieces (uptimeField rpc), sectionPieces "kbd".toList (kbdFields rpc),
      sectionPieces "aux".toList (auxFields rpc),
     sectionPieces "usb".toList (usbFields rpc)] := rfl

theorem statsTexts_eq : (statsLines rpc).map List.flatten = statsTexts rpc := by
  rw [statsLines_eq, List.map_cons, List.map_cons, List.map_cons, List.map_cons, List.map_nil,
    fieldPieces_flatten, sectionPieces_flatten, sectionPieces_flatten,
    sectionPieces_flatten, statsTexts]

theorem statsTexts_names : Name (uptimeField rpc).1 ∧ (uptimeField rpc).2 < 2 ^ 64 ∧
    (∀ f ∈ kbdFields rpc ++ auxFields rpc ++ usbFields rpc, Name f.1 ∧ f.2 < 2 ^ 64) := by
  have h32 (w : DWord) : w.toNat < 2 ^ 64 := Nat.lt_of_lt_of_le w.isLt (by decide)
  have hname : Name "uptime_ms".toList := by decide
  refine ⟨hname, rpc.uptimeMs.isLt, fun f hf => ⟨?_, ?_⟩⟩
  · have hnames : ∀ k ∈ (kbdFields rpc ++ auxFields rpc ++ usbFields rpc).map Prod.fst, Name k := by
      simp only [kbdFields, auxFields, usbFields, List.map_append, List.map_cons, List.map_nil]
      decide
    exact hnames _ (List.mem_map_of_mem hf)
  · simp only [kbdFields, auxFields, usbFields, List.cons_append, List.nil_append, List.mem_cons,
      List.not_mem_nil, or_false] at hf
    rcases hf with rfl | rfl | rfl | rfl | rfl | rfl | rfl | rfl | rfl | rfl | rfl | rfl | rfl | rfl
    all_goals exact h32 _

theorem parseStats_texts : parseStats (statsTexts rpc ++ ["ok".toList]) = statsOf rpc := by
  obtain ⟨hname, hval, hfields⟩ := statsTexts_names rpc
  have hkbd : ∀ f ∈ kbdFields rpc, Name f.1 ∧ f.2 < 2 ^ 64 := fun f hf =>
    hfields f (List.mem_append_left _ (List.mem_append_left _ hf))
  have haux : ∀ f ∈ auxFields rpc, Name f.1 ∧ f.2 < 2 ^ 64 := fun f hf =>
    hfields f (List.mem_append_left _ (List.mem_append_right _ hf))
  have husb : ∀ f ∈ usbFields rpc, Name f.1 ∧ f.2 < 2 ^ 64 :=
    fun f hf => hfields f (List.mem_append_right _ hf)
  have hok (top : Map) : parseLine top "ok".toList = top := if_pos (List.prefix_refl _)
  have hne {c : Char} {s : Text} (hc : s.head? = some c) (h : c ≠ 'o') : ¬ "ok".toList <+: s := by
    rintro ⟨t, rfl⟩
    exact h (Option.some.inj hc).symm
  rw [parseStats, statsTexts, List.cons_append, List.cons_append, List.cons_append,
    List.cons_append, List.nil_append, List.foldl_cons, List.foldl_cons, List.foldl_cons,
    List.foldl_cons, List.foldl_cons, List.foldl_nil, hok,
    parseLine_field (hne (c := 'u') rfl (by decide)) hname hval,
    parseLine_section (hne (c := 'k') rfl (by decide)) (by decide) hkbd,
    parseLine_section (hne (c := 'a') rfl (by decide)) (by decide) haux,
    parseLine_section (hne (c := 'u') rfl (by decide)) (by decide) husb]
  rfl

/-! ## The whole way -/

theorem readReply_eq {body : List Text}
    (h : ∀ l ∈ body, Clean l ∧ ¬ Ends l ∧ l.head? ≠ some 'v') {last : Text}
    (hlast : Clean last) (hends : Ends last) (hbanner : last.head? ≠ some 'v') :
    readReply (body ++ [last]) = some (body ++ [last]) := by
  have hno {l : Text} (hv : l.head? ≠ some 'v') : ¬ "vintage-kvm control".toList <+: l := by
    rintro ⟨t, rfl⟩
    exact hv rfl
  induction body with
  | nil =>
    rw [List.nil_append, readReply, hlast.trimEnd, if_neg (hno hbanner)]
    exact if_pos ((terminator_iff hlast).mpr hends)
  | cons l body ih =>
    obtain ⟨hclean, hopen, hv⟩ := h l (List.mem_cons_self ..)
    rw [List.cons_append, readReply, hclean.trimEnd, ih fun m hm => h m (List.mem_cons_of_mem _ hm),
      if_neg (hno hv)]
    exact if_neg fun ht => hopen ((terminator_iff hclean).mp ht)

theorem statsTexts_head : ∀ l ∈ statsTexts rpc, l.head? ≠ some 'v' := by
  intro l hl
  simp only [statsTexts, List.mem_cons, List.not_mem_nil, or_false] at hl
  obtain rfl | rfl | rfl | rfl := hl
  all_goals
    intro hv
    cases hv

/-- The text of `stats` is whole, and the client reads every counter from it. -/
theorem stats_survive :
    len (sendStats rpc) ≤ OUT_CAP ∧
      sendStats rpc = ((statsLines rpc).map fun l => l.flatten ++ ['\n']).flatten ++ "ok\n".toList ∧
      ∃ reply, readReply (lines (sendStats rpc)) = some reply ∧ parseStats reply = statsOf rpc := by
  refine ⟨?_, sendStats_whole rpc, statsTexts rpc ++ ["ok".toList], ?_, parseStats_texts rpc⟩
  · rw [sendStats_whole, len_append, len_statsLines]
    exact statsLines_fit rpc
  · rw [lines_sendStats, statsTexts_eq]
    refine readReply_eq (fun l hl => ?_) (by decide) (by decide) (by decide)
    obtain ⟨hclean, hends⟩ := statsLines_clean rpc l (statsTexts_eq rpc ▸ hl)
    exact ⟨hclean, hends, statsTexts_head rpc l hl⟩

end VintageKvm.Tools.ControlClient
