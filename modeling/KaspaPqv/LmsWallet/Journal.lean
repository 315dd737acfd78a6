import KaspaPqv.Lib.AppendLog
import KaspaPqv.Lib.DebugText
import KaspaPqv.Lib.Fallible
import KaspaPqv.LmsWallet.Record
import Mathlib.Logic.Function.Basic

/-!
# The spend journal

A one-time key signs once. `signOnce` asks a journal whether the leaf has signed before;
if it has not it signs, puts the record into the journal, and only then hands out the
signature. The journal of a wallet is an append-only file of lines, read into a map when
it is opened; `FileJournal.put` may fail at any of its steps, leaving part of its line in
the file.

## What is proved

* `signOnce_cases` — all that a call of `signOnce` can do.
* `lawful_memoryJournal`, `lawful_fileJournal` — a map, and a file that takes every line, are
  journals that never fail.
* `FileJournal.openJournal_ok` — what a journal that could be opened knows: the last readable
  record of each leaf, every line having been readable or blank.
* `FileJournal.put_cases` — all that a `put` can do to the file and the map.
* `lastRecord_append_piece`, `recalls_append_recordLine` — what a piece of a record's line,
  and the whole of it, do to what a file is read as, whatever it ended in before.
-/

namespace KaspaPqv.LmsWallet

open KaspaPqv.Lib

/-! ### Signing once -/

/-- What happened when a leaf was asked to sign. -/
inductive SignOutcome where
  /-- The leaf's first use. -/
  | signed (record : SpendRecord)
  /-- The leaf has signed this digest before. -/
  | alreadySigned (record : SpendRecord)
  deriving DecidableEq

/-- The record handed out. -/
def SignOutcome.record : SignOutcome → SpendRecord
  | .signed r => r
  | .alreadySigned r => r

/-- A durable record of which leaves have signed. A `put` that fails may have changed it. -/
structure SpendJournal (J : Type) where
  get : J → LeafId → Option SpendRecord
  put : J → SpendRecord → Except String Unit × J

/-- Sign `digest` with `leaf`, refusing to use the key for anything else. `sign` runs on
a key's state, and only if the leaf has no record. -/
def signOnce {J K : Type} (S : SpendJournal J) (journal : J) (leaf : LeafId) (digest : Block 32)
    (sign : K → Except String Bytes × K) (key : K) : Except String SignOutcome × J × K :=
  match S.get journal leaf with
  | some existing =>
    if existing.digest = digest then (.ok (.alreadySigned existing), journal, key)
    else
      let vault := String.ofList (toHex leaf.vaultId.bytes)
      let signed := String.ofList (toHex existing.digest.bytes)
      (.error (s!"leaf {leaf.leaf} of vault {vault} has already signed a different digest ({signed}). " ++
        "Signing again would expose the one-time key and allow an attacker to " ++
        "forge a spend of this UTXO. Rebroadcast the stored transaction instead; " ++
        "if it can never confirm, the funds at this leaf can only move via the " ++
        "signature already issued."), journal, key)
  | none =>
    match sign key with
    | (.error e, key) => (.error e, journal, key)
    | (.ok signature, key) =>
      let record : SpendRecord := ⟨leaf, digest, signature⟩
      match S.put journal record with
      | (.error e, journal) => (.error e, journal, key)
      | (.ok (), journal) => (.ok (.signed record), journal, key)

/-- **All that a call can do**: answer from the record of the leaf, refuse, fail to sign,
fail to put the record, or sign. -/
theorem signOnce_cases {J K : Type} (S : SpendJournal J) (journal : J) (leaf : LeafId) (digest : Block 32)
    (sign : K → Except String Bytes × K) (key : K) :
    (∃ r, S.get journal leaf = some r ∧ r.digest = digest ∧
      signOnce S journal leaf digest sign key = (.ok (.alreadySigned r), journal, key)) ∨
    (∃ r e, S.get journal leaf = some r ∧ r.digest ≠ digest ∧
      signOnce S journal leaf digest sign key = (.error e, journal, key)) ∨
    (S.get journal leaf = none ∧ ∃ e key', sign key = (.error e, key') ∧
      signOnce S journal leaf digest sign key = (.error e, journal, key')) ∨
    (S.get journal leaf = none ∧ ∃ signature key', sign key = (.ok signature, key') ∧
      ((∃ e journal', S.put journal ⟨leaf, digest, signature⟩ = (.error e, journal') ∧
          signOnce S journal leaf digest sign key = (.error e, journal', key')) ∨
        ∃ journal', S.put journal ⟨leaf, digest, signature⟩ = (.ok (), journal') ∧
          signOnce S journal leaf digest sign key =
            (.ok (.signed ⟨leaf, digest, signature⟩), journal', key'))) := by
  unfold signOnce
  rcases hget : S.get journal leaf with _ | r
  · rcases hsign : sign key with ⟨_ | signature, key'⟩
    · exact .inr (.inr (.inl ⟨rfl, _, _, rfl, rfl⟩))
    · refine .inr (.inr (.inr ⟨rfl, _, _, rfl, ?_⟩))
      rcases hput : S.put journal ⟨leaf, digest, signature⟩ with ⟨_ | ⟨⟩, journal'⟩
      · exact .inl ⟨_, _, rfl, by simp only [hput]⟩
      · exact .inr ⟨_, rfl, by simp only [hput]⟩
  · by_cases hdigest : r.digest = digest
    · exact .inl ⟨r, rfl, hdigest, if_pos hdigest⟩
    · exact .inr (.inl ⟨r, _, rfl, hdigest, if_neg hdigest⟩)

/-- The records of the leaves that have one. -/
abbrev Entries := LeafId → Option SpendRecord

/-- The journal that is only a map. -/
def memoryJournal : SpendJournal Entries where
  get entries leaf := entries leaf
  put entries record := (.ok (), Function.update entries record.leaf (some record))

/-- A journal that never fails, and answers with what was put last. -/
structure SpendJournal.Lawful {J : Type} (S : SpendJournal J) : Prop where
  put_ok : ∀ j r, ∃ j', S.put j r = (.ok (), j')
  get_put : ∀ j r j' leaf, S.put j r = (.ok (), j') →
    S.get j' leaf = if leaf = r.leaf then some r else S.get j leaf

theorem get_update (entries : Entries) (r : SpendRecord) (leaf : LeafId) :
    Function.update entries r.leaf (some r) leaf = if leaf = r.leaf then some r else entries leaf := by
  rw [Function.update_apply]

theorem lawful_memoryJournal : memoryJournal.Lawful where
  put_ok _ _ := ⟨_, rfl⟩
  get_put := by
    rintro entries r _ leaf ⟨⟩
    exact get_update entries r leaf

/-! ### The journal file -/

/-- A line without the carriage return that ends it. -/
def stripCr (line : List Char) : List Char := if line.getLast? = some '\r' then line.dropLast else line

/-- `str::lines`: the terminated lines, and what follows the last newline if it is not empty. -/
def lines (text : List Char) : List (List Char) :=
  (complete '\n' text).map stripCr ++ if pending '\n' text = [] then [] else [pending '\n' text]

/-- A line of a journal that is no record. -/
structure UnreadableRecord where
  path : String
  line : List Char

namespace UnreadableRecord

/-- How it is reported. -/
def text (chars : CharTable) (e : UnreadableRecord) : String :=
  s!"spend journal {e.path} contains an unreadable record; refusing to " ++
    "continue, because treating it as absent could allow a " ++ "one-time key to sign twice: " ++
    String.ofList (debugText chars e.line)

/-- The report shows the line. -/
theorem text_inj {chars : CharTable} {path : String} {line line' : List Char}
    (h : text chars ⟨path, line⟩ = text chars ⟨path, line'⟩) : line = line' := by
  unfold text at h
  exact message_inj h

end UnreadableRecord

namespace FileJournal

/-- Take in one line: a later record of a leaf replaces an earlier one, blank lines are
skipped, and an unreadable line is an error. -/
def loadLine (path : String) (entries : Entries) (line : List Char) : Except UnreadableRecord Entries :=
  match parseLine line with
  | some record => .ok (Function.update entries record.leaf (some record))
  | none => if trim line = [] then .ok entries else .error ⟨path, line⟩

/-- Open a journal whose file holds `text`; a missing file is an empty one. -/
def openJournal (path : String) (text : List Char) : Except UnreadableRecord Entries :=
  (lines text).foldlM (loadLine path) fun _ => none

/-- Where a `put` fails, the file being opened, written and synced in this order. -/
inductive Fault where
  | nowhere
  | atOpen
  /-- Only the first `n` characters of the line reach the file. -/
  | atWrite (n : ℕ)
  | atSync
  deriving DecidableEq

/-- The line of a record, with its newline. -/
def recordLine (record : SpendRecord) : List Char := recordText record ++ ['\n']

/-- Append a record to the file, make it durable, and enter it into the map. -/
def put (fault : Fault) (s : AppendFile Char × Entries) (record : SpendRecord) :
    Except String Unit × (AppendFile Char × Entries) :=
  match fault with
  | .atOpen => (.error "I/O error", s)
  | .atWrite n => (.error "I/O error", s.1.append ((recordLine record).take n), s.2)
  | .atSync => (.error "I/O error", s.1.append (recordLine record), s.2)
  | .nowhere => (.ok (), (s.1.append (recordLine record)).sync, Function.update s.2 record.leaf (some record))

end FileJournal

/-- The journal in a file, for a `put` that fails as given. -/
def fileJournal (fault : FileJournal.Fault) : SpendJournal (AppendFile Char × Entries) where
  get s leaf := s.2 leaf
  put := FileJournal.put fault

theorem lawful_fileJournal : (fileJournal .nowhere).Lawful where
  put_ok _ _ := ⟨_, rfl⟩
  get_put := by
    rintro s r _ leaf ⟨⟩
    exact get_update s.2 r leaf

namespace FileJournal

/-- **All that a `put` can do**: append a piece of the line and fail, or append the line,
sync, and enter the record. -/
theorem put_cases (fault : Fault) (file : AppendFile Char) (entries : Entries) (record : SpendRecord) :
    (∃ e x, x <+: recordLine record ∧ put fault (file, entries) record = (.error e, file.append x, entries)) ∨
    put fault (file, entries) record = (.ok (), (file.append (recordLine record)).sync,
      Function.update entries record.leaf (some record)) := by
  cases fault with
  | nowhere => exact .inr rfl
  | atOpen => exact .inl ⟨"I/O error", [], List.nil_prefix, by simp [put, AppendFile.append]⟩
  | atWrite n => exact .inl ⟨_, _, List.take_prefix n _, rfl⟩
  | atSync => exact .inl ⟨_, _, List.prefix_refl _, rfl⟩

/-- A line that no journal can be opened with: neither readable nor blank. -/
def Unreadable (line : List Char) : Prop := parseLine line = none ∧ trim line ≠ []

/-- The last record of a leaf, as lines are read one by one. -/
def noteRecord (leaf : LeafId) (found : Option SpendRecord) (line : List Char) : Option SpendRecord :=
  match parseLine line with
  | some r => if r.leaf = leaf then some r else found
  | none => found

/-- The last record of a leaf among some lines. -/
def lastRecord (leaf : LeafId) (ls : List (List Char)) : Option SpendRecord := ls.foldl (noteRecord leaf) none

theorem lastRecord_concat (leaf : LeafId) (ls : List (List Char)) (l : List Char) :
    lastRecord leaf (ls ++ [l]) = noteRecord leaf (lastRecord leaf ls) l := by
  rw [lastRecord, List.foldl_append]
  rfl

/-- Lines that name other leaves do not matter. -/
theorem lastRecord_append {leaf : LeafId} {ls : List (List Char)} (ms : List (List Char))
    (h : ∀ l ∈ ms, ∀ r, parseLine l = some r → r.leaf ≠ leaf) :
    lastRecord leaf (ls ++ ms) = lastRecord leaf ls := by
  induction ms using List.reverseRecOn with
  | nil => rw [List.append_nil]
  | append_singleton ms l ih =>
    rw [← List.append_assoc, lastRecord_concat, ih fun l hl => h l (by simp [hl])]
    unfold noteRecord
    split
    · rename_i r hr
      exact if_neg (h l (by simp) r hr)
    · rfl

theorem leaf_of_lastRecord {leaf : LeafId} {ls : List (List Char)} {r : SpendRecord}
    (h : lastRecord leaf ls = some r) : r.leaf = leaf := by
  induction ls using List.reverseRecOn with
  | nil => cases h
  | append_singleton ls l ih =>
    rw [lastRecord_concat, noteRecord] at h
    split at h
    · split_ifs at h with hleaf
      · exact Option.some.inj h ▸ hleaf
      · exact ih h
    · exact ih h

/-- **What a journal that could be opened knows.** -/
theorem openJournal_ok {path : String} {text : List Char} {entries : Entries}
    (h : openJournal path text = .ok entries) :
    (∀ l ∈ lines text, ¬Unreadable l) ∧ ∀ leaf, entries leaf = lastRecord leaf (lines text) := by
  unfold openJournal at h
  generalize lines text = ls at h ⊢
  induction ls using List.reverseRecOn generalizing entries with
  | nil =>
    cases h
    exact ⟨by simp, fun _ => rfl⟩
  | append_singleton ls l ih =>
    rw [List.foldlM_append, bind_eq_ok] at h
    obtain ⟨entries₁, hls, hl⟩ := h
    rw [List.foldlM_cons, bind_eq_ok] at hl
    obtain ⟨entries₂, hload, hnil⟩ := hl
    cases hnil
    obtain ⟨hread, hentries⟩ := ih hls
    simp only [List.mem_append, List.mem_singleton, lastRecord_concat, noteRecord, ← hentries]
    unfold loadLine at hload
    split at hload
    · rename_i r hr
      cases hload
      refine ⟨?_, fun leaf => ?_⟩
      · rintro m (hm | rfl)
        · exact hread m hm
        · exact fun hbad => nomatch hr.symm.trans hbad.1
      · by_cases hleaf : r.leaf = leaf
        · rw [if_pos hleaf, ← hleaf, Function.update_self]
        · rw [if_neg hleaf, Function.update_of_ne (Ne.symm hleaf)]
    · rename_i hr
      split_ifs at hload with hblank
      cases hload
      refine ⟨?_, fun leaf => rfl⟩
      rintro m (hm | rfl)
      · exact hread m hm
      · exact fun hbad => hbad.2 hblank

end FileJournal

open FileJournal

/-! ### The lines of the file -/

/-- Some line that was ended cannot be read. -/
def Poisoned (text : List Char) : Prop := ∃ l ∈ complete '\n' text, Unreadable l

/-- Opened with this text, a journal either fails or answers with `r` for its leaf. -/
def Recalls (r : SpendRecord) (text : List Char) : Prop :=
  Poisoned text ∨ lastRecord r.leaf (complete '\n' text) = some r

/-- Only newlines and what records are written with. -/
def Plain (text : List Char) : Prop := ∀ c ∈ text, c = '\n' ∨ isWhitespace c = false

theorem newline_not_mem_recordText (r : SpendRecord) : '\n' ∉ recordText r := fun h =>
  absurd (isWhitespace_recordText r _ h) (by decide)

theorem plain_recordLine (r : SpendRecord) : Plain (recordLine r) := by
  intro c hc
  rcases List.mem_append.mp hc with h | h
  · exact .inr (isWhitespace_recordText r c h)
  · exact .inl (by simpa using h)

theorem plain_flatMap_recordLine (records : List SpendRecord) : Plain (records.flatMap recordLine) := by
  intro c hc
  obtain ⟨r, -, hr⟩ := List.mem_flatMap.mp hc
  exact plain_recordLine r c hr

/-- The lines of records that were put are read one by one. -/
theorem complete_flatMap_recordLine (records : List SpendRecord) :
    complete '\n' (records.flatMap recordLine) = records.map recordText ∧
      pending '\n' (records.flatMap recordLine) = [] := by
  induction records using List.reverseRecOn with
  | nil => exact ⟨rfl, rfl⟩
  | append_singleton records record ih =>
    have hline := newline_not_mem_recordText record
    rw [List.flatMap_append, List.flatMap_singleton, recordLine, complete_append_line hline,
      pending_append_line hline, ih.1, ih.2, List.map_append]
    exact ⟨rfl, rfl⟩

theorem Poisoned.append {a : List Char} (h : Poisoned a) (x : List Char) : Poisoned (a ++ x) := by
  obtain ⟨l, hl, hbad⟩ := h
  exact ⟨l, (complete_isPrefix a x).subset hl, hbad⟩

section text

variable {text x : List Char} {r record : SpendRecord}

theorem Plain.isWhitespace_pending (h : Plain text) : ∀ c ∈ pending '\n' text, isWhitespace c = false := fun c hc =>
  (h c (mem_scan.2 c hc).1).resolve_left (mem_scan.2 c hc).2

/-- The lines a text of records is read as. -/
theorem Plain.lines_eq (h : Plain text) :
    lines text = complete '\n' text ++ if pending '\n' text = [] then [] else [pending '\n' text] := by
  have hstrip : ∀ l ∈ complete '\n' text, stripCr l = l := by
    intro l hl
    refine if_neg fun hlast => ?_
    obtain ⟨hmem, hne⟩ := mem_scan.1 l hl _ (List.mem_of_getLast? hlast)
    exact absurd ((h _ hmem).resolve_left hne) (by decide)
  rw [lines, List.map_congr_left hstrip, List.map_id']

/-- Behind an unfinished line, the text of a record still names only its leaf. -/
theorem parseLine_pending (h : Plain text) (hr : parseLine (pending '\n' text ++ recordText record) = some r) :
    r = record :=
  parseLine_append_recordText h.isWhitespace_pending hr

/-- A line that a record was put in is readable as the record, or not at all. -/
theorem unreadable_pending (h : Plain text)
    (hr : parseLine (pending '\n' text ++ recordText record) = none) :
    Unreadable (pending '\n' text ++ recordText record) := by
  refine ⟨hr, ?_⟩
  rw [trim_eq_self (List.forall_mem_append.mpr ⟨h.isWhitespace_pending, isWhitespace_recordText record⟩)]
  simp [recordText]

/-- **A piece of a record's line** leaves what is known of other leaves alone. -/
theorem lastRecord_append_piece (h : Plain text) (hx : x <+: recordLine record) {leaf : LeafId}
    (hleaf : record.leaf ≠ leaf) :
    lastRecord leaf (complete '\n' (text ++ x)) = lastRecord leaf (complete '\n' text) := by
  rcases prefix_line (newline_not_mem_recordText record) hx with rfl | hx
  · rw [complete_append_line (newline_not_mem_recordText record), lastRecord_append]
    simp only [List.mem_singleton, forall_eq]
    exact fun r hr => parseLine_pending h hr ▸ hleaf
  · rw [complete_append_of_not_mem hx]

theorem Recalls.append_piece (hr : Recalls r text) (h : Plain text) (hx : x <+: recordLine record)
    (hleaf : record.leaf ≠ r.leaf) : Recalls r (text ++ x) := by
  rcases hr with hbad | hr
  · exact .inl (hbad.append x)
  · exact .inr ((lastRecord_append_piece h hx hleaf).trans hr)

/-- **A whole line** makes its record the last one of its leaf, or the file unreadable. -/
theorem recalls_append_recordLine (h : Plain text) (record : SpendRecord) :
    Recalls record (text ++ recordLine record) := by
  rw [Recalls, Poisoned, recordLine, complete_append_line (newline_not_mem_recordText record)]
  rcases hr : parseLine (pending '\n' text ++ recordText record) with _ | r
  · exact .inl ⟨_, by simp, unreadable_pending h hr⟩
  · obtain rfl := parseLine_pending h hr
    right
    rw [lastRecord_concat, noteRecord, hr]
    exact if_pos rfl

end text

end KaspaPqv.LmsWallet
