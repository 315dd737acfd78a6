import KaspaPqv.LmsWallet.Journal

/-!
# Opening a file of any text

What a journal writes into its file is ASCII, and for such a text a character is a byte. But
the file is opened whatever its text is. The fields of a line are then cut into pieces of two
bytes, which panics at a character of more; and each piece is read as the standard library
reads a number, which takes a plus sign in place of the first digit.

## What is proved

* `openText_eq_openJournal`, `openText_of_ascii` — any text is opened as a journal's own, unless
  that panics; and of an ASCII text it does not.
* `openText_wellFormed_iff` — exactly for which texts there is no panic, and the journal opens if
  and only if every line is blank or well formed.
* `not_openText_wellFormed` — a text at which it panics.
-/

namespace KaspaPqv.LmsWallet

open KaspaPqv.Lib

/-! ### Reading -/

/-- `from_hex`, of any text. -/
def fromHexText (s : List Char) : Outcome Unit Bytes :=
  if byteLen s % 2 ≠ 0 ∨ s = [] then .error () else hexBytes () s

/-- The next part of a line. -/
def nextPart (parts : List (List Char)) : Outcome Unit (List Char × List (List Char)) :=
  match parts with
  | [] => .error ()
  | part :: parts => .ok (part, parts)

/-- There must be no fifth part. -/
def noMoreParts (parts : List (List Char)) : Outcome Unit Unit := if parts = [] then .ok () else .error ()

/-- Read the parts of a line, one after the other. -/
def readParts (parts : List (List Char)) : Outcome Unit SpendRecord := do
  let (part, parts) ← nextPart parts
  let vaultId ← fromHexText part
  let (part, parts) ← nextPart parts
  let leaf ← .ofOption (parseU32 part) ()
  let (part, parts) ← nextPart parts
  let digest ← fromHexText part
  let (part, parts) ← nextPart parts
  let signature ← fromHexText part
  noMoreParts parts
  let vaultId ← .ofOption (toBlock 16 vaultId) ()
  let digest ← .ofOption (toBlock 32 digest) ()
  pure ⟨⟨vaultId, leaf⟩, digest, signature⟩

/-- `parse_line`, of any text. -/
def parseText (line : List Char) : Outcome Unit SpendRecord := readParts ((trim line).splitOn ':')

namespace FileJournal

/-- Take in one line of any text. -/
def loadText (path : String) (entries : Entries) (line : List Char) : Outcome UnreadableRecord Entries :=
  match parseText line with
  | .ok record => .ok (Function.update entries record.leaf (some record))
  | .error () => if trim line = [] then .ok entries else .error ⟨path, line⟩
  | .panic => .panic

/-- Open a journal whose file holds any text. -/
def openText (path : String) (text : List Char) : Outcome UnreadableRecord Entries :=
  (lines text).foldlM (loadText path) fun _ => none

end FileJournal

/-! ### The form of a line -/

/-- A decimal `u32`, digits only. -/
def IsU32 (s : List Char) : Prop := s ≠ [] ∧ (∀ c ∈ s, c.isDigit = true) ∧ Nat.ofDigitChars 10 s 0 < 2 ^ 32

/-- A non-empty even number of hex digits. -/
def IsHex (s : List Char) : Prop := s ≠ [] ∧ s.length % 2 = 0 ∧ ∀ c ∈ s, isAsciiHexdigit c = true

/-- Four fields, of 32 hex digits, a decimal `u32`, 64 hex digits, and hex digits. -/
def WellFormed (line : List Char) : Prop :=
  ∃ vaultId leaf digest signature, line.splitOn ':' = [vaultId, leaf, digest, signature] ∧
    (IsHex vaultId ∧ vaultId.length = 32) ∧ IsU32 leaf ∧ (IsHex digest ∧ digest.length = 64) ∧ IsHex signature

/-- Pairs of a digit or a plus sign and a digit. -/
def IsLooseHex (s : List Char) : Prop := s ≠ [] ∧ ∃ bs, Reads s bs

/-- The same four fields, where a plus sign may stand in front of the leaf, and in place of the first
digit of any pair. -/
def LooselyFormed (line : List Char) : Prop :=
  ∃ vaultId leaf digest signature, line.splitOn ':' = [vaultId, leaf, digest, signature] ∧
    (IsLooseHex vaultId ∧ vaultId.length = 32) ∧ IsU32 (stripPlus leaf) ∧
    (IsLooseHex digest ∧ digest.length = 64) ∧ IsLooseHex signature

/-- An even number of bytes, with a character that is cut behind the pairs that can be read. -/
def CutField (s : List Char) : Prop := byteLen s % 2 = 0 ∧ Cuts s

/-- The first field that cannot be read is cut. -/
inductive CutParts : List (List Char) → Prop where
  | vaultId {v : List Char} {parts : List (List Char)} : CutField v → CutParts (v :: parts)
  | digest {v n d : List Char} {parts : List (List Char)} : IsLooseHex v → IsU32 (stripPlus n) → CutField d →
      CutParts (v :: n :: d :: parts)
  | signature {v n d s : List Char} {parts : List (List Char)} : IsLooseHex v → IsU32 (stripPlus n) →
      IsLooseHex d → CutField s → CutParts (v :: n :: d :: s :: parts)

/-! ### Which fields are read -/

theorem fromHexText_eq_ok {s : List Char} {bs : Bytes} : fromHexText s = .ok bs ↔ s ≠ [] ∧ Reads s bs := by
  unfold fromHexText
  by_cases h : byteLen s % 2 ≠ 0 ∨ s = []
  · rw [if_pos h]
    constructor
    · intro h
      cases h
    · rintro ⟨hne, hreads⟩
      have hlen := length_of_reads hreads
      have hbytes := byteLen_of_reads hreads
      exact absurd (h.resolve_right hne) (by omega)
  · rw [if_neg h, hexBytes_eq_ok (by omega)]
    exact ⟨fun hreads => ⟨fun hnil => h (.inr hnil), hreads⟩, And.right⟩

theorem fromHexText_eq_panic {s : List Char} : fromHexText s = .panic ↔ CutField s := by
  unfold fromHexText CutField
  by_cases h : byteLen s % 2 ≠ 0 ∨ s = []
  · rw [if_pos h]
    constructor
    · intro h
      cases h
    · rintro ⟨heven, hcuts⟩
      rcases h with hodd | rfl
      · exact absurd heven hodd
      · cases hcuts
  · rw [if_neg h, hexBytes_eq_panic (by omega)]
    exact ⟨fun hcuts => ⟨by omega, hcuts⟩, And.right⟩

theorem exists_parseU32 {s : List Char} : (∃ n, parseU32 s = some n) ↔ IsU32 (stripPlus s) := by
  unfold parseU32 IsU32
  simp only [List.all_eq_true]
  constructor
  · rintro ⟨n, h⟩
    split_ifs at h with hs
    exact hs
  · intro h
    exact ⟨_, if_pos h⟩

/-! ### Which lines are read -/

theorem parseLine_eq_some {line : List Char} {r : SpendRecord} : parseLine line = some r ↔
    ∃ v n d s, (trim line).splitOn ':' = [v, n, d, s] ∧ parseFields v n d s = some r := by
  unfold parseLine
  constructor
  · intro h
    split at h
    · rename_i v n d s hsplit
      exact ⟨v, n, d, s, hsplit, h⟩
    · cases h
  · rintro ⟨v, n, d, s, hsplit, h⟩
    simp only [hsplit, h]

/-- What is read is loosely formed, and what is loosely formed is read. -/
theorem exists_parseLine {line : List Char} : (∃ r, parseLine line = some r) ↔ LooselyFormed (trim line) := by
  simp only [parseLine_eq_some, parseFields_eq_some]
  constructor
  · rintro ⟨r, v, n, d, s, hsplit, ⟨hv, hvault⟩, hn, ⟨hd, hdigest⟩, hs, hsignature⟩
    have hvlen := length_of_reads hvault
    have hdlen := length_of_reads hdigest
    rw [Block.length_bytes] at hvlen hdlen
    exact ⟨v, n, d, s, hsplit, ⟨⟨hv, _, hvault⟩, hvlen⟩, exists_parseU32.mp ⟨_, hn⟩, ⟨⟨hd, _, hdigest⟩, hdlen⟩,
      hs, _, hsignature⟩
  · rintro ⟨v, n, d, s, hsplit, ⟨⟨hv, vault, hvault⟩, hvlen⟩, hn, ⟨⟨hd, digest, hdigest⟩, hdlen⟩, hs, signature, hsignature⟩
    obtain ⟨leaf, hleaf⟩ := exists_parseU32.mpr hn
    have hv32 := length_of_reads hvault
    have hd64 := length_of_reads hdigest
    exact ⟨⟨⟨.ofBytes vault (by omega), leaf⟩, .ofBytes digest (by omega), signature⟩, v, n, d, s, hsplit, ⟨hv, hvault⟩,
      hleaf, ⟨hd, hdigest⟩, hs, hsignature⟩

section

variable {β : Type} {k : Bytes → Outcome Unit β} {s : List Char} {k' : List Char × List (List Char) → Outcome Unit β}
  {parts : List (List Char)}

theorem nextPart_bind_eq_ok {b : β} :
    (nextPart parts >>= k') = .ok b ↔ ∃ part rest, parts = part :: rest ∧ k' (part, rest) = .ok b := by
  cases parts <;> simp [nextPart]

theorem nextPart_bind_eq_panic :
    (nextPart parts >>= k') = .panic ↔ ∃ part rest, parts = part :: rest ∧ k' (part, rest) = .panic := by
  cases parts <;> simp [nextPart]

theorem fromHexText_bind_eq_ok {b : β} :
    (fromHexText s >>= k) = .ok b ↔ ∃ bs, (s ≠ [] ∧ Reads s bs) ∧ k bs = .ok b := by
  rw [Outcome.bind_eq_ok]
  simp only [fromHexText_eq_ok]

theorem fromHexText_bind_eq_panic :
    (fromHexText s >>= k) = .panic ↔ CutField s ∨ ∃ bs, (s ≠ [] ∧ Reads s bs) ∧ k bs = .panic := by
  rw [Outcome.bind_eq_panic]
  simp only [fromHexText_eq_ok, fromHexText_eq_panic]

end

/-- **The parts that are read**: four, as the four fields of a record. -/
theorem readParts_eq_ok {parts : List (List Char)} {r : SpendRecord} : readParts parts = .ok r ↔
    ∃ v n d s, parts = [v, n, d, s] ∧ parseFields v n d s = some r := by
  simp only [parseFields_eq_some]
  constructor
  · intro h
    obtain ⟨v, parts₁, rfl, h⟩ := nextPart_bind_eq_ok.mp h
    obtain ⟨vault, hv, h⟩ := fromHexText_bind_eq_ok.mp h
    obtain ⟨n, parts₂, rfl, h⟩ := nextPart_bind_eq_ok.mp h
    obtain ⟨leaf, hn, h⟩ := Outcome.ofOption_bind_eq_ok.mp h
    obtain ⟨d, parts₃, rfl, h⟩ := nextPart_bind_eq_ok.mp h
    obtain ⟨digest, hd, h⟩ := fromHexText_bind_eq_ok.mp h
    obtain ⟨s, parts₄, rfl, h⟩ := nextPart_bind_eq_ok.mp h
    obtain ⟨signature, hs, h⟩ := fromHexText_bind_eq_ok.mp h
    obtain ⟨⟨⟩, hnone, h⟩ := Outcome.bind_eq_ok.mp h
    obtain ⟨vault', hvault, h⟩ := Outcome.ofOption_bind_eq_ok.mp h
    obtain ⟨digest', hdigest, h⟩ := Outcome.ofOption_bind_eq_ok.mp h
    cases h
    obtain rfl : parts₄ = [] := by
      unfold noMoreParts at hnone
      split_ifs at hnone with hnil
      exact hnil
    obtain rfl := toBlock_eq_some.mp hvault
    obtain rfl := toBlock_eq_some.mp hdigest
    exact ⟨v, n, d, s, rfl, hv, hn, hd, hs⟩
  · rintro ⟨v, n, d, s, rfl, hv, hn, hd, hs⟩
    simp only [readParts, nextPart, noMoreParts, Outcome.bind_ok, fromHexText_eq_ok.mpr hv, fromHexText_eq_ok.mpr hd,
      fromHexText_eq_ok.mpr hs, hn, toBlock_eq_some.mpr rfl, Outcome.ofOption, if_true]
    rfl

/-- **A line is read** as the record it is read as in a journal's own text. -/
theorem parseText_eq_ok {line : List Char} {r : SpendRecord} : parseText line = .ok r ↔ parseLine line = some r := by
  rw [parseText, readParts_eq_ok, parseLine_eq_some]

/-- **The parts that panic.** -/
theorem readParts_eq_panic {parts : List (List Char)} : readParts parts = .panic ↔ CutParts parts := by
  constructor
  · intro h
    obtain ⟨v, parts₁, rfl, h⟩ := nextPart_bind_eq_panic.mp h
    rcases fromHexText_bind_eq_panic.mp h with hcut | ⟨vault, ⟨hv, hvault⟩, h⟩
    · exact .vaultId hcut
    obtain ⟨n, parts₂, rfl, h⟩ := nextPart_bind_eq_panic.mp h
    obtain ⟨leaf, hleaf, h⟩ := Outcome.ofOption_bind_eq_panic.mp h
    have hn := exists_parseU32.mp ⟨leaf, hleaf⟩
    obtain ⟨d, parts₃, rfl, h⟩ := nextPart_bind_eq_panic.mp h
    rcases fromHexText_bind_eq_panic.mp h with hcut | ⟨digest, ⟨hd, hdigest⟩, h⟩
    · exact .digest ⟨hv, vault, hvault⟩ hn hcut
    obtain ⟨s, parts₄, rfl, h⟩ := nextPart_bind_eq_panic.mp h
    rcases fromHexText_bind_eq_panic.mp h with hcut | ⟨signature, -, h⟩
    · exact .signature ⟨hv, vault, hvault⟩ hn ⟨hd, digest, hdigest⟩ hcut
    -- nothing that comes after the fields panics
    rcases Outcome.bind_eq_panic.mp h with hnone | ⟨-, -, h⟩
    · unfold noMoreParts at hnone
      split_ifs at hnone
    obtain ⟨vault', -, h⟩ := Outcome.ofOption_bind_eq_panic.mp h
    obtain ⟨digest', -, h⟩ := Outcome.ofOption_bind_eq_panic.mp h
    cases h
  · intro h
    cases h with
    | vaultId hcut =>
      simp only [readParts, nextPart, Outcome.bind_ok, fromHexText_eq_panic.mpr hcut, Outcome.bind_panic]
    | digest hv hn hcut =>
      obtain ⟨vault, hvault⟩ := hv.2
      obtain ⟨leaf, hleaf⟩ := exists_parseU32.mpr hn
      simp only [readParts, nextPart, Outcome.bind_ok, fromHexText_eq_ok.mpr ⟨hv.1, hvault⟩, hleaf, Outcome.ofOption,
        fromHexText_eq_panic.mpr hcut, Outcome.bind_panic]
    | signature hv hn hd hcut =>
      obtain ⟨vault, hvault⟩ := hv.2
      obtain ⟨leaf, hleaf⟩ := exists_parseU32.mpr hn
      obtain ⟨digest, hdigest⟩ := hd.2
      simp only [readParts, nextPart, Outcome.bind_ok, fromHexText_eq_ok.mpr ⟨hv.1, hvault⟩, hleaf, Outcome.ofOption,
        fromHexText_eq_ok.mpr ⟨hd.1, hdigest⟩, fromHexText_eq_panic.mpr hcut, Outcome.bind_panic]

theorem isLooseHex_of_isHex {s : List Char} (h : IsHex s) : IsLooseHex s := by
  obtain ⟨hne, hdigits⟩ := h
  obtain ⟨bs, hbs⟩ := exists_spells_iff.mpr hdigits
  exact ⟨hne, bs, hbs.reads⟩

/-- A well-formed line is loosely formed. -/
theorem looselyFormed_of_wellFormed {line : List Char} (h : WellFormed line) : LooselyFormed line := by
  obtain ⟨v, n, d, s, hsplit, ⟨hv, hvlen⟩, hn, ⟨hd, hdlen⟩, hs⟩ := h
  have hplus : '+' ∉ n := fun hmem => absurd (hn.2.1 _ hmem) (by decide)
  refine ⟨v, n, d, s, hsplit, ⟨isLooseHex_of_isHex hv, hvlen⟩, ?_, ⟨isLooseHex_of_isHex hd, hdlen⟩, isLooseHex_of_isHex hs⟩
  rwa [stripPlus_of_not_mem hplus]

/-! ### Which texts open -/

/-- A line that is taken in: blank, or loosely formed. -/
def Taken (line : List Char) : Prop := trim line = [] ∨ LooselyFormed (trim line)

/-- A line that panics. -/
def CutLine (line : List Char) : Prop := CutParts ((trim line).splitOn ':')

/-- Every line is blank or well formed. -/
def WellFormedText (text : List Char) : Prop := ∀ l ∈ lines text, trim l ≠ [] → WellFormed (trim l)

/-- The first line that is not taken in is refused without a panic. -/
def RefusedFirst (text : List Char) : Prop :=
  ∃ before l after, lines text = before ++ l :: after ∧ (∀ m ∈ before, Taken m) ∧ ¬Taken l ∧ ¬CutLine l

theorem CutParts.exists_cutField {parts : List (List Char)} (h : CutParts parts) : ∃ field ∈ parts, CutField field := by
  cases h with
  | vaultId hcut => exact ⟨_, by simp, hcut⟩
  | digest _ _ hcut => exact ⟨_, by simp, hcut⟩
  | signature _ _ _ hcut => exact ⟨_, by simp, hcut⟩

/-- Lines consist of characters of the text. -/
theorem mem_of_mem_lines {text l : List Char} (hl : l ∈ lines text) {c : Char} (hc : c ∈ l) : c ∈ text := by
  unfold lines at hl
  rcases List.mem_append.mp hl with hl | hl
  · obtain ⟨m, hm, rfl⟩ := List.mem_map.mp hl
    have hcm : c ∈ m := by
      unfold stripCr at hc
      split_ifs at hc
      · exact List.dropLast_subset m hc
      · exact hc
    exact (mem_scan.1 m hm c hcm).1
  · split_ifs at hl
    · cases hl
    · obtain rfl := List.mem_singleton.mp hl
      exact (mem_scan.2 c hc).1

namespace FileJournal

theorem loadText_eq_ok (path : String) (entries : Entries) (line : List Char) :
    (∃ entries', loadText path entries line = .ok entries') ↔ Taken line := by
  have hread : (∃ r, parseText line = .ok r) ↔ LooselyFormed (trim line) := by
    simp only [parseText_eq_ok, exists_parseLine]
  unfold loadText Taken
  rw [← hread]
  rcases hline : parseText line with r | ⟨⟩ | _
  · simp
  · by_cases hblank : trim line = []
    · simp [hblank]
    · simp [hblank]
  · have hcut : CutLine line := readParts_eq_panic.mp hline
    have hne : trim line ≠ [] := by
      intro hblank
      rw [CutLine, hblank] at hcut
      have hsplit : ([] : List Char).splitOn ':' = [[]] := rfl
      rw [hsplit] at hcut
      cases hcut with
      | vaultId h => cases h.2
    simp [hne]

theorem loadText_eq_panic (path : String) (entries : Entries) (line : List Char) :
    loadText path entries line = .panic ↔ CutLine line := by
  rw [CutLine, ← readParts_eq_panic, ← parseText]
  unfold loadText
  rcases parseText line with r | ⟨⟩ | _
  · simp
  · by_cases hblank : trim line = []
    · simp [hblank]
    · simp [hblank]
  · simp

/-- Of any line, the same is taken in as of a line of the journal's own text, unless it panics. -/
theorem loadText_eq_loadLine (path : String) (entries : Entries) (line : List Char) :
    loadText path entries line = .ofExcept (loadLine path entries line) ∨ loadText path entries line = .panic := by
  unfold loadText
  rcases hline : parseText line with r | ⟨⟩ | _
  · simp only [loadLine, parseText_eq_ok.mp hline]
    exact .inl rfl
  · have hnone : parseLine line = none := by
      cases h : parseLine line with
      | none => rfl
      | some r => cases hline.symm.trans (parseText_eq_ok.mpr h)
    left
    simp only [loadLine, hnone]
    split_ifs with hblank
    · rfl
    · rfl
  · exact .inr rfl

/-- **Opening any text** is opening it as a journal's own text, unless it panics. -/
theorem openText_eq_openJournal (path : String) (text : List Char) :
    openText path text = .ofExcept (openJournal path text) ∨ openText path text = .panic :=
  Outcome.foldlM_eq_ofExcept (loadText_eq_loadLine path) (lines text) _

/-- **Of an ASCII text** it does not panic. -/
theorem openText_of_ascii (path : String) {text : List Char} (h : ∀ c ∈ text, c.utf8Size = 1) :
    openText path text = .ofExcept (openJournal path text) := by
  refine (openText_eq_openJournal path text).resolve_right fun hpanic => ?_
  obtain ⟨l, hl, hcut⟩ := Outcome.exists_of_foldlM_panic (fun entries l => (loadText_eq_panic path entries l).mp) hpanic
  obtain ⟨field, hfield, -, hcuts⟩ := CutParts.exists_cutField hcut
  exact not_cuts_of_ascii (fun c hc => h c (mem_of_mem_lines hl (mem_of_mem_trim (mem_of_mem_splitOn hfield hc)))) hcuts

/-- **Which texts open.** -/
theorem openText_eq_ok (path : String) (text : List Char) :
    (∃ entries, openText path text = .ok entries) ↔ ∀ l ∈ lines text, Taken l :=
  Outcome.foldlM_eq_ok (loadText_eq_ok path) (lines text) _

/-- **Which texts are refused.** -/
theorem openText_eq_error (path : String) (text : List Char) :
    (∃ e, openText path text = .error e) ↔ RefusedFirst text :=
  Outcome.foldlM_eq_error (loadText_eq_ok path) (loadText_eq_panic path) (lines text) _

theorem taken_of_wellFormedText {text : List Char} (h : WellFormedText text) : ∀ l ∈ lines text, Taken l := by
  intro l hl
  by_cases hblank : trim l = []
  · exact .inl hblank
  · exact .inr (looselyFormed_of_wellFormed (h l hl hblank))

/-- **Opening any text** does not panic, and succeeds if and only if every line is blank or well formed:
this holds of a text exactly if every line of it is, or the first line that is not taken in is refused
without a panic. -/
theorem openText_wellFormed_iff (path : String) (text : List Char) :
    (openText path text ≠ .panic ∧ ((∃ entries, openText path text = .ok entries) ↔ WellFormedText text)) ↔
      WellFormedText text ∨ RefusedFirst text := by
  constructor
  · rintro ⟨hcalm, hopens⟩
    rcases h : openText path text with entries | e | _
    · exact .inl (hopens.mp ⟨entries, h⟩)
    · exact .inr ((openText_eq_error path text).mp ⟨e, h⟩)
    · exact absurd h hcalm
  · rintro (h | h)
    · obtain ⟨entries, hopen⟩ := (openText_eq_ok path text).mpr (taken_of_wellFormedText h)
      exact ⟨fun hpanic => (nomatch hopen.symm.trans hpanic), fun _ => h, fun _ => ⟨entries, hopen⟩⟩
    · obtain ⟨e, herror⟩ := (openText_eq_error path text).mpr h
      refine ⟨fun hpanic => (nomatch herror.symm.trans hpanic), ?_, fun hform => ?_⟩
      · rintro ⟨entries, hopen⟩
        cases herror.symm.trans hopen
      · obtain ⟨before, l, after, hlines, -, hrefused, -⟩ := h
        exact absurd (taken_of_wellFormedText hform l (by rw [hlines]; simp)) hrefused

/-- A letter and a sign of three bytes. -/
theorem openText_euro : openText "" ['a', '€'] = .panic := rfl

/-- **Not for every text.** -/
theorem not_openText_wellFormed : ¬∀ (path : String) (text : List Char),
    openText path text ≠ .panic ∧ ((∃ entries, openText path text = .ok entries) ↔ WellFormedText text) :=
  fun h => (h "" ['a', '€']).1 openText_euro

end FileJournal

end KaspaPqv.LmsWallet
