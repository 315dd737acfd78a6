import KaspaPqv.LmsWallet.Journal

/-!
# Torn lines

A journal that was put some records, and a crash while one more is written: the file holds
the lines of the former and a piece of the last line. What a process reads from it next.

A piece that ends before the signature has too few fields, or an empty one, and a piece
that ends in the middle of a byte of the signature has an odd number of digits: neither can
be read, and the journal does not open. But a piece that ends behind one of the signature's
bytes, the last one excepted, is a line like any other, of a record with a shorter signature.

## What is proved

* `parseLine_take` — what a piece of a record's text is read as.
* `yieldsOnly_tornFile` — exactly when the journal is opened with no record that was not put.
-/

namespace KaspaPqv.LmsWallet

open KaspaPqv.Lib FileJournal

/-! ### What a whole text is read as -/

theorem toBlock_bytes {n : ℕ} (b : Block n) : toBlock n b.bytes = some b := toBlock_eq_some.mpr rfl

theorem bytes_ne_nil {n : ℕ} (hn : 0 < n) (b : Block n) : b.bytes ≠ [] := by
  intro h
  have := b.length_bytes
  rw [h, List.length_nil] at this
  omega

/-- The text of a record in front of its signature. -/
def headText (r : SpendRecord) : List Char :=
  toHex r.leaf.vaultId.bytes ++ ':' :: (Nat.toDigits 10 r.leaf.leaf.toNat ++ ':' :: (toHex r.digest.bytes ++ [':']))

theorem recordText_eq (r : SpendRecord) : recordText r = headText r ++ toHex r.signature := by
  simp [recordText, headText]

/-- A line that begins like a record is read as the record with the signature that follows. -/
theorem parseLine_headText_append (r : SpendRecord) {s : List Char} (hs : s <+: toHex r.signature) :
    parseLine (headText r ++ s) = (fromHex s).map fun signature => { r with signature } := by
  have hcolon : ':' ∉ s := fun h => colon_not_mem_toHex _ (hs.subset h)
  have hspace : ∀ c ∈ headText r ++ s, isWhitespace c = false := by
    have hcut : headText r ++ s <+: recordText r := by
      rw [recordText_eq]
      exact (List.prefix_append_right_inj _).mpr hs
    exact fun c hc => isWhitespace_recordText r c (hcut.subset hc)
  have hsplit : (headText r ++ s).splitOn ':' =
      [toHex r.leaf.vaultId.bytes, Nat.toDigits 10 r.leaf.leaf.toNat, toHex r.digest.bytes, s] := by
    simp only [headText, List.append_assoc, List.cons_append, List.nil_append]
    rw [List.splitOn_append_cons_self_of_not_mem (colon_not_mem_toHex _),
      List.splitOn_append_cons_self_of_not_mem (colon_not_mem_toDigits _),
      List.splitOn_append_cons_self_of_not_mem (colon_not_mem_toHex _), List.splitOn_eq_singleton hcolon]
  rw [parseLine, trim_eq_self hspace, hsplit]
  simp only [parseFields, parseU32_toDigits,
    fromHex_toHex_of_ne_nil (bytes_ne_nil (by norm_num : 0 < 16) r.leaf.vaultId),
    fromHex_toHex_of_ne_nil (bytes_ne_nil (by norm_num : 0 < 32) r.digest), Option.bind_eq_bind, Option.bind_some,
    toBlock_bytes]
  cases fromHex s with
  | none => rfl
  | some signature => rfl

/-- A piece of a record's text that ends before the signature has too few fields. -/
theorem parseLine_take_headText (r : SpendRecord) {n : ℕ} (hn : n < (headText r).length) :
    parseLine ((headText r).take n) = none := by
  have hcount : (headText r).count ':' = 3 := by
    simp [headText, List.count_eq_zero_of_not_mem, colon_not_mem_toHex, colon_not_mem_toDigits]
  -- the last character is a colon, and it is missing
  have hlast : (headText r).drop n ≠ [] := by simpa using hn
  have hmem : ':' ∈ (headText r).drop n := by
    have hget := List.getLast_mem hlast
    rw [List.getLast_drop] at hget
    simpa [headText] using hget
  have hsplit := congrArg (List.count ':') (List.take_append_drop n (headText r))
  rw [List.count_append, hcount] at hsplit
  have hpos := List.count_pos_iff.mpr hmem
  have hspace : ∀ c ∈ (headText r).take n, isWhitespace c = false := by
    intro c hc
    refine isWhitespace_recordText r c ?_
    rw [recordText_eq]
    exact List.mem_append_left _ (List.mem_of_mem_take hc)
  rw [parseLine, trim_eq_self hspace]
  split
  · rename_i hfour
    have hlen := congrArg List.length hfour
    rw [length_splitOn] at hlen
    simp only [List.length_cons, List.length_nil] at hlen
    omega
  · rfl

theorem toHex_take (bytes : Bytes) (k : ℕ) : toHex (bytes.take k) = (toHex bytes).take (2 * k) := by
  induction bytes generalizing k with
  | nil => simp [toHex]
  | cons b bytes ih =>
    cases k with
    | zero => rfl
    | succ k =>
      have htail := ih k
      simp only [toHex] at htail ⊢
      rw [List.take_succ_cons, List.flatMap_cons, htail, List.flatMap_cons, Nat.mul_succ]
      rfl

/-- The record with the signature cut off behind `k` bytes. -/
def SpendRecord.cut (r : SpendRecord) (k : ℕ) : SpendRecord := { r with signature := r.signature.take k }

/-- **What a piece of a record's text is read as**: the record with the bytes of the signature
that are there, if there is one and none of them is cut in half. -/
theorem parseLine_take (r r' : SpendRecord) {n : ℕ} (hn : n ≤ (recordText r).length) :
    parseLine ((recordText r).take n) = some r' ↔
      ∃ k, 0 < k ∧ k ≤ r.signature.length ∧ n = (headText r).length + 2 * k ∧ r' = r.cut k := by
  rw [recordText_eq, List.length_append, length_toHex] at hn
  rw [recordText_eq]
  by_cases hhead : n < (headText r).length
  · rw [List.take_append_of_le_length hhead.le, parseLine_take_headText r hhead]
    constructor
    · intro h
      cases h
    · rintro ⟨k, -, -, rfl, -⟩
      omega
  · obtain ⟨m, rfl⟩ := Nat.exists_eq_add_of_le (Nat.le_of_not_lt hhead)
    rw [List.take_length_add_append, parseLine_headText_append r (List.take_prefix _ _)]
    rcases Nat.even_or_odd' m with ⟨k, rfl | rfl⟩
    · rw [← toHex_take]
      by_cases hk : k = 0
      · subst hk
        constructor
        · intro h
          cases h
        · rintro ⟨k, hpos, -, hk, -⟩
          omega
      · have hne : r.signature.take k ≠ [] := by
          intro hnil
          have hlen := congrArg List.length hnil
          rw [List.length_take, List.length_nil] at hlen
          omega
        rw [fromHex_toHex_of_ne_nil hne, Option.map_some, Option.some.injEq]
        constructor
        · intro h
          exact ⟨k, Nat.pos_of_ne_zero hk, by omega, rfl, h.symm⟩
        · rintro ⟨k', -, -, hk', rfl⟩
          obtain rfl : k = k' := by omega
          rfl
    · have hodd : (List.take (2 * k + 1) (toHex r.signature)).length = 2 * k + 1 := by
        rw [List.length_take, length_toHex]
        omega
      rw [fromHex, if_pos (.inl (by omega))]
      constructor
      · intro h
        cases h
      · rintro ⟨k', -, -, hk', -⟩
        omega

/-! ### The file -/

namespace FileJournal

/-- The file and the map after some records were put into a new journal. -/
def putAll (records : List SpendRecord) : AppendFile Char × Entries :=
  records.foldl (fun s record => (put .nowhere s record).2) (.empty, fun _ => none)

/-- What the file holds after a crash during the next `put` that leaves `n` characters of its line. -/
def tornFile (records : List SpendRecord) (record : SpendRecord) (n : ℕ) : List Char :=
  (((putAll records).1.append (recordLine record)).crash n).content

/-- Opened with this text, a journal fails or holds only these records. -/
def YieldsOnly (path : String) (text : List Char) (records : List SpendRecord) : Prop :=
  ∀ entries, openJournal path text = .ok entries → ∀ leaf r, entries leaf = some r → r ∈ records

theorem file_putAll (records : List SpendRecord) : (putAll records).1 = ⟨records.flatMap recordLine, []⟩ := by
  induction records using List.reverseRecOn with
  | nil => rfl
  | append_singleton records record ih =>
    rw [putAll, List.foldl_append]
    change ((putAll records).1.append (recordLine record)).sync = _
    rw [ih]
    simp [AppendFile.append, AppendFile.sync, AppendFile.content]

theorem tornFile_eq (records : List SpendRecord) (record : SpendRecord) (n : ℕ) :
    tornFile records record n = records.flatMap recordLine ++ (recordLine record).take n := by
  rw [tornFile, file_putAll]
  rfl

theorem lines_flatMap_recordText (records : List SpendRecord) :
    lines (records.flatMap recordLine) = records.map recordText := by
  rw [(plain_flatMap_recordLine records).lines_eq, (complete_flatMap_recordLine records).1,
    (complete_flatMap_recordLine records).2, if_pos rfl, List.append_nil]

/-- The lines that are read after the crash: those of the records, and the piece if there is one. -/
theorem lines_tornFile (records : List SpendRecord) (record : SpendRecord) (n : ℕ) :
    lines (tornFile records record n) =
      records.map recordText ++ if n = 0 then [] else [(recordText record).take n] := by
  have hplain : Plain (records.flatMap recordLine ++ (recordLine record).take n) := by
    intro c hc
    rcases List.mem_append.mp hc with hc | hc
    · exact plain_flatMap_recordLine records c hc
    · exact plain_recordLine record c (List.mem_of_mem_take hc)
  obtain ⟨hcomplete, hpending⟩ := complete_flatMap_recordLine records
  rw [tornFile_eq, hplain.lines_eq]
  have hline := newline_not_mem_recordText record
  have htext : (recordText record).length ≠ 0 := by simp [recordText]
  by_cases hn : n ≤ (recordText record).length
  · have htake : (recordLine record).take n = (recordText record).take n := List.take_append_of_le_length hn
    have hpiece : '\n' ∉ (recordText record).take n := fun h => hline (List.mem_of_mem_take h)
    rw [htake, complete_append_of_not_mem hpiece, pending_append_of_not_mem hpiece, hcomplete, hpending, List.nil_append]
    by_cases h0 : n = 0
    · subst h0
      rfl
    · have hne : (recordText record).take n ≠ [] := by
        intro hnil
        have hlen := congrArg List.length hnil
        rw [List.length_take, List.length_nil] at hlen
        omega
      rw [if_neg hne, if_neg h0]
  · have htake : (recordLine record).take n = recordLine record := List.take_of_length_le (by simp [recordLine]; omega)
    rw [htake, recordLine, complete_append_line hline, pending_append_line hline, hcomplete, hpending, List.nil_append,
      if_pos rfl, List.append_nil, if_neg (by omega), List.take_of_length_le (by omega)]

/-- A record that was found is on one of the lines. -/
theorem exists_of_lastRecord {leaf : LeafId} {ls : List (List Char)} {r : SpendRecord}
    (h : lastRecord leaf ls = some r) : ∃ l ∈ ls, parseLine l = some r := by
  induction ls using List.reverseRecOn with
  | nil => cases h
  | append_singleton ls l ih =>
    rw [lastRecord_concat, noteRecord] at h
    split at h
    · rename_i r' hr'
      split_ifs at h with hleaf
      · cases h
        exact ⟨l, by simp, hr'⟩
      · obtain ⟨m, hm, hparse⟩ := ih h
        exact ⟨m, by simp [hm], hparse⟩
    · obtain ⟨m, hm, hparse⟩ := ih h
      exact ⟨m, by simp [hm], hparse⟩

/-- A journal opens if every line can be read. -/
theorem openJournal_of_readable (path : String) {text : List Char}
    (h : ∀ l ∈ lines text, ∃ r, parseLine l = some r) : ∃ entries, openJournal path text = .ok entries := by
  unfold openJournal
  generalize lines text = ls at h ⊢
  induction ls using List.reverseRecOn with
  | nil => exact ⟨_, rfl⟩
  | append_singleton ls l ih =>
    obtain ⟨entries, hls⟩ := ih fun m hm => h m (by simp [hm])
    obtain ⟨r, hr⟩ := h l (by simp)
    refine ⟨Function.update entries r.leaf (some r), ?_⟩
    rw [List.foldlM_append, hls]
    simp only [List.foldlM_cons, List.foldlM_nil, loadLine, hr]
    rfl

theorem length_recordText (r : SpendRecord) :
    (recordText r).length = (headText r).length + 2 * r.signature.length := by
  rw [recordText_eq, List.length_append, length_toHex]

theorem parseLine_recordText {r : SpendRecord} (h : r.signature ≠ []) : parseLine (recordText r) = some r := by
  have hparse := parseLine_headText_append r (List.prefix_refl _)
  rw [← recordText_eq, fromHex_toHex_of_ne_nil h] at hparse
  exact hparse

theorem lastRecord_map_recordText {leaf : LeafId} {records : List SpendRecord} (hsig : ∀ r ∈ records, r.signature ≠ []) :
    lastRecord leaf (records.map recordText) = none ↔ ∀ r ∈ records, r.leaf ≠ leaf := by
  induction records using List.reverseRecOn with
  | nil => simp [lastRecord]
  | append_singleton records r ih =>
    have hparse := parseLine_recordText (hsig r (by simp))
    rw [List.map_append, List.map_singleton, lastRecord_concat, noteRecord, hparse]
    by_cases hleaf : r.leaf = leaf
    · simp [hleaf]
    · have hrest := ih fun r' hr' => hsig r' (by simp [hr'])
      simp only [if_neg hleaf, hrest, List.forall_mem_append, List.forall_mem_singleton]
      exact ⟨fun h => ⟨h, hleaf⟩, And.left⟩

/-- **A file of records opens**, and has an entry for the leaves of the records. -/
theorem openJournal_records (path : String) (records : List SpendRecord) (hsig : ∀ r ∈ records, r.signature ≠ []) :
    ∃ entries, openJournal path (records.flatMap recordLine) = .ok entries ∧
      ∀ leaf, entries leaf = none ↔ ∀ r ∈ records, r.leaf ≠ leaf := by
  have hlines := lines_flatMap_recordText records
  have hread : ∀ l ∈ lines (records.flatMap recordLine), ∃ r, parseLine l = some r := by
    intro l hl
    rw [hlines] at hl
    obtain ⟨r, hr, rfl⟩ := List.mem_map.mp hl
    exact ⟨r, parseLine_recordText (hsig r hr)⟩
  obtain ⟨entries, hopen⟩ := openJournal_of_readable path hread
  refine ⟨entries, hopen, fun leaf => ?_⟩
  rw [(openJournal_ok hopen).2, hlines]
  exact lastRecord_map_recordText hsig

/-- Cut off behind a byte of the signature, the line is read as a record. -/
theorem openJournal_tornFile (path : String) {records : List SpendRecord} {record : SpendRecord}
    (hsig : ∀ r ∈ records, r.signature ≠ []) {k : ℕ} (hpos : 0 < k) (hk : k < record.signature.length) :
    ∃ entries, openJournal path (tornFile records record ((headText record).length + 2 * k)) = .ok entries ∧
      entries record.leaf = some (record.cut k) := by
  have hlen := length_recordText record
  have htorn := (parseLine_take record (record.cut k) (by omega)).mpr ⟨k, hpos, hk.le, rfl, rfl⟩
  have hlines := lines_tornFile records record ((headText record).length + 2 * k)
  rw [if_neg (by omega)] at hlines
  have hread : ∀ l ∈ lines (tornFile records record ((headText record).length + 2 * k)), ∃ r, parseLine l = some r := by
    intro l hl
    rw [hlines] at hl
    rcases List.mem_append.mp hl with hl | hl
    · obtain ⟨r, hr, rfl⟩ := List.mem_map.mp hl
      exact ⟨r, parseLine_recordText (hsig r hr)⟩
    · rw [List.mem_singleton.mp hl]
      exact ⟨_, htorn⟩
  obtain ⟨entries, hopen⟩ := openJournal_of_readable path hread
  refine ⟨entries, hopen, ?_⟩
  rw [(openJournal_ok hopen).2, hlines, lastRecord_concat, noteRecord, htorn]
  exact if_pos rfl

theorem cut_ne {record : SpendRecord} {k : ℕ} (hk : k < record.signature.length) : record.cut k ≠ record := by
  intro h
  have hlen := congrArg (fun r => r.signature.length) h
  simp only [SpendRecord.cut, List.length_take] at hlen
  omega

/-- **The record on the torn line.** A crash brings up a record that was not put exactly if the line
is cut behind one of the bytes of the signature but the last one, and the record that is then on
it is not by chance one of those put before. -/
theorem yieldsOnly_tornFile (path : String) (records : List SpendRecord) (record : SpendRecord) (n : ℕ)
    (hsig : ∀ r ∈ records ++ [record], r.signature ≠ []) :
    YieldsOnly path (tornFile records record n) (records ++ [record]) ↔
      ∀ k, 0 < k → k < record.signature.length → n = (headText record).length + 2 * k →
        record.cut k ∈ records := by
  constructor
  · rintro hyields k hpos hk rfl
    obtain ⟨entries, hopen, hentry⟩ :=
      openJournal_tornFile path (fun r hr => hsig r (List.mem_append_left _ hr)) hpos hk
    rcases List.mem_append.mp (hyields entries hopen _ _ hentry) with hmem | hmem
    · exact hmem
    · exact absurd (List.mem_singleton.mp hmem) (cut_ne hk)
  · intro hcut entries hopen leaf r hr
    rw [(openJournal_ok hopen).2, lines_tornFile] at hr
    obtain ⟨l, hl, hparse⟩ := exists_of_lastRecord hr
    have hlen := length_recordText record
    rcases List.mem_append.mp hl with hl | hl
    · obtain ⟨r', hr', rfl⟩ := List.mem_map.mp hl
      have hmem := List.mem_append_left [record] hr'
      rw [parseLine_recordText (hsig r' hmem)] at hparse
      exact Option.some.inj hparse ▸ hmem
    · by_cases h0 : n = 0
      · rw [if_pos h0] at hl
        exact absurd hl List.not_mem_nil
      · rw [if_neg h0, List.mem_singleton] at hl
        subst hl
        by_cases hn : n ≤ (recordText record).length
        · obtain ⟨k, hpos, hk, rfl, rfl⟩ := (parseLine_take record r hn).mp hparse
          rcases hk.lt_or_eq with hk | rfl
          · exact List.mem_append_left _ (hcut k hpos hk rfl)
          · simp [SpendRecord.cut]
        · rw [List.take_of_length_le (by omega), parseLine_recordText (hsig record (by simp))] at hparse
          exact Option.some.inj hparse ▸ by simp

/-- A record with a signature of two bytes. -/
def recordA : SpendRecord := ⟨leafA, blockOf 32 1, [0xab, 0xef]⟩

theorem length_headText_recordA : (headText recordA).length = 100 := by decide +kernel

/-- Cut off between the digits of a byte, its line cannot be read. -/
theorem yieldsOnly_tornFile_odd : YieldsOnly "journal" (tornFile [] recordA 101) [recordA] := by
  refine (yieldsOnly_tornFile "journal" [] recordA 101 (by decide)).mpr ?_
  intro k hpos hk hn
  have hhead := length_headText_recordA
  omega

/-- **A crash can bring up a record that was not put**: cut off behind the first byte. -/
theorem not_yieldsOnly_tornFile : ¬∀ (path : String) (records : List SpendRecord) (record : SpendRecord) (n : ℕ),
    (∀ r ∈ records ++ [record], r.signature ≠ []) → YieldsOnly path (tornFile records record n) (records ++ [record]) := by
  intro h
  have hyields := h "journal" [] recordA 102 (by decide)
  have hsig : ∀ r ∈ ([] : List SpendRecord), r.signature ≠ [] := by simp
  obtain ⟨entries, hopen, hentry⟩ :=
    @openJournal_tornFile "journal" [] recordA hsig 1 (by decide) (by decide)
  rw [length_headText_recordA] at hopen
  exact absurd (List.mem_singleton.mp (hyields entries hopen _ _ hentry)) (cut_ne (by decide))

end FileJournal

end KaspaPqv.LmsWallet
