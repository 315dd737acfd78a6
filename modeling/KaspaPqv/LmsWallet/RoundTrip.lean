import KaspaPqv.LmsWallet.Torn

/-!
# Opening a journal again

The journal in a file and the journal that is only a map are told the same records. Held in
memory the two always agree. Then the former is dropped, and opened again from its file.

A record may have any signature its type allows, the empty one too. That one is put like
any other, but as an empty field it is not read back, and the journal does not open again.

## What is proved

* `SpendJournal.get_after` — two journals that never fail agree after the same records.
* `reopened_iff` — the journal that is opened again agrees with the map exactly when no
  signature is empty.
-/

namespace KaspaPqv.LmsWallet

open KaspaPqv.Lib FileJournal

variable {J J' : Type}

/-- A journal after some records were put into it. -/
def SpendJournal.after (S : SpendJournal J) (journal : J) (records : List SpendRecord) : J :=
  records.foldl (fun journal record => (S.put journal record).2) journal

theorem SpendJournal.after_concat (S : SpendJournal J) (journal : J) (records : List SpendRecord) (r : SpendRecord) :
    S.after journal (records ++ [r]) = (S.put (S.after journal records) r).2 := by
  rw [SpendJournal.after, List.foldl_append]
  rfl

/-- What is found after one more record. -/
theorem SpendJournal.Lawful.get_after_concat {S : SpendJournal J} (hS : S.Lawful) (journal : J)
    (records : List SpendRecord) (r : SpendRecord) (leaf : LeafId) :
    S.get (S.after journal (records ++ [r])) leaf =
      if leaf = r.leaf then some r else S.get (S.after journal records) leaf := by
  obtain ⟨journal', hput⟩ := hS.put_ok (S.after journal records) r
  rw [S.after_concat, hput]
  exact hS.get_put _ r journal' leaf hput

/-- **Two journals that never fail** agree after the same records. -/
theorem SpendJournal.get_after {S : SpendJournal J} {T : SpendJournal J'} (hS : S.Lawful) (hT : T.Lawful)
    {journal : J} {journal' : J'} (h : ∀ leaf, S.get journal leaf = T.get journal' leaf)
    (records : List SpendRecord) (leaf : LeafId) :
    S.get (S.after journal records) leaf = T.get (T.after journal' records) leaf := by
  induction records using List.reverseRecOn with
  | nil => exact h leaf
  | append_singleton records r ih => rw [hS.get_after_concat, hT.get_after_concat, ih]

namespace FileJournal

/-- A `put` returns `Ok` only if none of its steps fails. -/
theorem put_ok_iff {fault : Fault} {s : AppendFile Char × Entries} {record : SpendRecord} :
    (put fault s record).1 = .ok () ↔ fault = .nowhere := by
  cases fault <;> simp [put]

/-- The map after some records. -/
def memoryAfter (records : List SpendRecord) : Entries := memoryJournal.after (fun _ => none) records

/-- The journal in the file, before it is dropped, agrees with the map. -/
theorem get_putAll (records : List SpendRecord) (leaf : LeafId) :
    (putAll records).2 leaf = memoryAfter records leaf := by
  have hempty : ∀ leaf, (fileJournal .nowhere).get (.empty, fun _ => none) leaf =
      memoryJournal.get (fun _ => none) leaf := fun _ => rfl
  exact SpendJournal.get_after lawful_fileJournal lawful_memoryJournal hempty records leaf

/-- **The last record of a leaf** on the lines is the one in the map. -/
theorem lastRecord_eq_memoryAfter {records : List SpendRecord} (hsig : ∀ r ∈ records, r.signature ≠ [])
    (leaf : LeafId) : lastRecord leaf (records.map recordText) = memoryAfter records leaf := by
  induction records using List.reverseRecOn with
  | nil => rfl
  | append_singleton records r ih =>
    have hparse := parseLine_recordText (hsig r (by simp))
    have hrest := ih fun r' hr' => hsig r' (by simp [hr'])
    have hafter := lawful_memoryJournal.get_after_concat (fun _ => none) records r leaf
    change memoryAfter (records ++ [r]) leaf = if leaf = r.leaf then some r else memoryAfter records leaf at hafter
    rw [List.map_append, List.map_singleton, lastRecord_concat, noteRecord, hparse, hafter, hrest]
    simp only [eq_comm]

/-- A record with an empty signature is not read back. -/
theorem unreadable_recordText {r : SpendRecord} (h : r.signature = []) : Unreadable (recordText r) := by
  have hparse := parseLine_headText_append r (s := []) (by rw [h]; exact List.nil_prefix)
  have htext : recordText r = headText r ++ [] := by rw [recordText_eq, h]; rfl
  refine ⟨by rw [htext, hparse]; rfl, ?_⟩
  rw [trim_eq_self (isWhitespace_recordText r)]
  simp [recordText]

/-- What the file holds. -/
theorem content_putAll (records : List SpendRecord) : (putAll records).1.content = records.flatMap recordLine := by
  rw [file_putAll]
  simp [AppendFile.content]

/-- **Opened again**, the journal in the file answers for every leaf as the map does, if and only if
no signature that was put is empty. -/
theorem reopened_iff (path : String) (records : List SpendRecord) :
    (∃ entries, openJournal path (putAll records).1.content = .ok entries ∧
      ∀ leaf, (fileJournal .nowhere).get ((putAll records).1, entries) leaf =
        memoryJournal.get (memoryJournal.after (fun _ => none) records) leaf) ↔
      ∀ r ∈ records, r.signature ≠ [] := by
  rw [content_putAll]
  constructor
  · rintro ⟨entries, hopen, -⟩ r hr hsig
    refine (openJournal_ok hopen).1 (recordText r) ?_ (unreadable_recordText hsig)
    rw [lines_flatMap_recordText]
    exact List.mem_map_of_mem hr
  · intro hsig
    obtain ⟨entries, hopen, -⟩ := openJournal_records path records hsig
    refine ⟨entries, hopen, fun leaf => ?_⟩
    change entries leaf = memoryAfter records leaf
    rw [(openJournal_ok hopen).2, lines_flatMap_recordText, lastRecord_eq_memoryAfter hsig]

/-- **Not after every run**: one record with an empty signature, and the journal does not open again. -/
theorem not_reopened : ¬∀ (path : String) (records : List SpendRecord),
    ∃ entries, openJournal path (putAll records).1.content = .ok entries ∧
      ∀ leaf, (fileJournal .nowhere).get ((putAll records).1, entries) leaf =
        memoryJournal.get (memoryJournal.after (fun _ => none) records) leaf := by
  intro h
  obtain ⟨entries, hopen, -⟩ := h "" [⟨leafA, Block.zero 32, []⟩]
  rw [content_putAll] at hopen
  refine (openJournal_ok hopen).1 (recordText ⟨leafA, Block.zero 32, []⟩) ?_ (unreadable_recordText rfl)
  rw [lines_flatMap_recordText]
  exact List.mem_map_of_mem (List.mem_singleton.mpr rfl)

end FileJournal

end KaspaPqv.LmsWallet
