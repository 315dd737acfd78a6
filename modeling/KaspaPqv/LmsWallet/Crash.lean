import KaspaPqv.LmsWallet.Journal

/-!
# Signing once across crashes

One process at a time over one journal file: it opens the journal, signs, and may be
restarted at any moment, after which the file holds all that was synced and a prefix of
the rest. A `put` may fail at any of its steps.

That a leaf signs once does not hold in all runs. A line cut off within its signature is
read as a record when the journal is opened, and a record that was never synced is
answered from like any other. It does hold in every run in which no journal is opened
while an unfinished line reads as a record, and no leaf is answered for from its record
while a line that names it is still to be synced.

## What is proved

* `Inv.step` — what the file, the map and the records handed out have to do with each
  other is kept by every careful step.
* `signsOnce_of_careful` — in every run of careful steps a leaf signs once.
* `not_signsOnce` — and in a run that is not, it hands out two signatures.
-/

namespace KaspaPqv.LmsWallet

open KaspaPqv.Lib FileJournal

/-! ### Runs -/

/-- A wallet and its journal file. -/
structure Wallet where
  file : AppendFile Char
  /-- The map of the journal, if the process has opened it. -/
  journal : Option Entries
  /-- The records handed out so far, by this process and those before it. -/
  returned : List SpendRecord

/-- What may happen. -/
inductive Event where
  | openJournal
  /-- A call of `signOnce`, with what the key would sign and where a `put` would fail. -/
  | signOnce (leaf : LeafId) (digest : Block 32) (signature : Except String Bytes) (fault : Fault)
  /-- A restart that leaves this much of what was not synced. -/
  | restart (survives : ℕ)

namespace Wallet

/-- No file yet, and no process. -/
def init : Wallet := ⟨.empty, none, []⟩

/-- One event. Without an open journal nothing can be signed. -/
def step (path : String) (s : Wallet) : Event → Wallet
  | .openJournal =>
    match openJournal path s.file.content with
    | .ok entries => { s with journal := some entries }
    | .error _ => s
  | .signOnce leaf digest signature fault =>
    match s.journal with
    | none => s
    | some entries =>
      match LmsWallet.signOnce (fileJournal fault) (s.file, entries) leaf digest
        (fun _ => (signature, ())) () with
      | (.ok outcome, (file, entries), _) => ⟨file, some entries, outcome.record :: s.returned⟩
      | (.error _, (file, entries), _) => ⟨file, some entries, s.returned⟩
  | .restart survives => ⟨s.file.crash survives, none, s.returned⟩

/-- A whole run. -/
def run (path : String) (events : List Event) : Wallet := events.foldl (step path) init

/-- All records handed out for a leaf are for one digest and have one signature. -/
def SignsOnce (s : Wallet) : Prop :=
  ∀ r ∈ s.returned, ∀ r' ∈ s.returned, r.leaf = r'.leaf → r.digest = r'.digest ∧ r.signature = r'.signature

/-- A step that does not run into a torn or an unsynced line: a journal is opened only if
what follows the last newline of its file does not read as a record, and a leaf is
answered for from its record only when no line that is not synced names it. -/
def Careful (s : Wallet) : Event → Prop
  | .openJournal => parseLine (pending '\n' s.file.content) = none
  | .signOnce leaf digest _ _ => ∀ entries r, s.journal = some entries → entries leaf = some r →
      r.digest = digest → ∀ l ∈ lines s.file.unsynced, ∀ r', parseLine l = some r' → r'.leaf ≠ leaf
  | .restart _ => True

/-- A run of careful steps. -/
def CarefulRun (path : String) (s : Wallet) : List Event → Prop
  | [] => True
  | e :: es => s.Careful e ∧ CarefulRun path (s.step path e) es

end Wallet

/-! ### The invariant -/

/-- What the file, the map and the records handed out have to do with each other. -/
structure Inv (s : Wallet) : Prop where
  plain : Plain s.file.content
  synced : pending '\n' s.file.synced = []
  /-- The map knows the last record of a leaf, unless the journal cannot be opened any more. -/
  known : ∀ entries, s.journal = some entries → ∀ leaf r, entries leaf = some r →
    r.leaf = leaf ∧ (Poisoned s.file.synced ∨ lastRecord leaf (complete '\n' s.file.content) = some r)
  /-- The map knows the records handed out. -/
  held : ∀ entries, s.journal = some entries → ∀ r ∈ s.returned, entries r.leaf = some r
  /-- So will the map of every later process. -/
  durable : ∀ r ∈ s.returned, s.file.Durable (Recalls r)
  once : ∀ r ∈ s.returned, ∀ r' ∈ s.returned, r.leaf = r'.leaf → r = r'

theorem Inv.init : Inv Wallet.init where
  plain := fun _ hc => nomatch hc
  synced := rfl
  known := fun _ h => nomatch h
  held := fun _ h => nomatch h
  durable := fun _ h => nomatch h
  once := fun _ h => nomatch h

/-- One more record handed out. -/
theorem once_cons {rs : List SpendRecord} {r : SpendRecord}
    (h : ∀ a ∈ rs, ∀ b ∈ rs, a.leaf = b.leaf → a = b) (hr : ∀ a ∈ rs, a.leaf = r.leaf → a = r) :
    ∀ a ∈ r :: rs, ∀ b ∈ r :: rs, a.leaf = b.leaf → a = b := by
  intro a ha b hb hleaf
  rcases List.mem_cons.mp ha with ha | ha
  · rcases List.mem_cons.mp hb with hb | hb
    · rw [ha, hb]
    · rw [ha, hr b hb (hleaf.symm.trans (congrArg _ ha))]
  · rcases List.mem_cons.mp hb with hb | hb
    · rw [hb, hr a ha (hleaf.trans (congrArg _ hb))]
    · exact h a ha b hb hleaf

namespace Inv

variable {path : String} {s : Wallet} {entries : Entries}

theorem restart (h : Inv s) (survives : ℕ) : Inv ⟨s.file.crash survives, none, s.returned⟩ where
  plain := fun c hc => h.plain c ((s.file.content_crash_isPrefix survives).subset hc)
  synced := h.synced
  known := fun _ h => nomatch h
  held := fun _ h => nomatch h
  durable := fun r hr => (h.durable r hr).crash survives
  once := h.once

/-- A journal that could be opened knows the last record of every leaf, if it did not
take an unfinished line for a record. -/
theorem openJournal (h : Inv s) (hend : parseLine (pending '\n' s.file.content) = none)
    (hopen : FileJournal.openJournal path s.file.content = .ok entries) :
    Inv { s with journal := some entries } := by
  obtain ⟨hread, hentries⟩ := openJournal_ok hopen
  rw [h.plain.lines_eq] at hread hentries
  have hpending : pending '\n' s.file.content = [] := by
    by_contra hne
    refine hread _ (List.mem_append_right _ (by rw [if_neg hne]; exact List.mem_singleton_self _)) ⟨hend, ?_⟩
    rwa [trim_eq_self h.plain.isWhitespace_pending]
  rw [if_pos hpending, List.append_nil] at hread hentries
  refine ⟨h.plain, h.synced, ?_, ?_, h.durable, h.once⟩
  · rintro _ ⟨⟩ leaf r hr
    rw [hentries] at hr
    exact ⟨leaf_of_lastRecord hr, .inr hr⟩
  · rintro _ ⟨⟩ r hr
    rw [hentries]
    exact (h.durable r hr).now.resolve_left fun ⟨l, hl, hbad⟩ => hread l hl hbad

/-- A `put` that fails may leave a piece of its line behind. -/
theorem putFailed (h : Inv s) (hj : s.journal = some entries) {record : SpendRecord}
    (hnew : entries record.leaf = none) {x : List Char} (hx : x <+: recordLine record) :
    Inv ⟨s.file.append x, some entries, s.returned⟩ where
  plain := by
    intro c hc
    rw [AppendFile.content_append] at hc
    exact (List.mem_append.mp hc).elim (h.plain c) fun hc => plain_recordLine record c (hx.subset hc)
  synced := h.synced
  known := by
    rintro _ ⟨⟩ leaf r hr
    obtain ⟨hleaf, hlast⟩ := h.known entries hj leaf r hr
    have hne : record.leaf ≠ leaf := fun heq => by simp [← heq, hnew] at hr
    refine ⟨hleaf, hlast.imp_right fun hlast => ?_⟩
    rw [AppendFile.content_append, lastRecord_append_piece h.plain hx hne, hlast]
  held := by
    rintro _ ⟨⟩
    exact h.held entries hj
  durable := by
    intro r hr
    have hne : record.leaf ≠ r.leaf := fun heq => by simpa [← heq, hnew] using h.held entries hj r hr
    exact (h.durable r hr).append fun y hy => (h.durable r hr).now.append_piece h.plain (hy.trans hx) hne
  once := h.once

/-- A `put` that succeeds makes its record the one its leaf is answered for with. -/
theorem put (h : Inv s) (hj : s.journal = some entries) {record : SpendRecord}
    (hnew : entries record.leaf = none) :
    Inv ⟨(s.file.append (recordLine record)).sync, some (Function.update entries record.leaf (some record)),
      record :: s.returned⟩ := by
  have happend := h.putFailed hj hnew (List.prefix_refl _)
  have hrecalls := recalls_append_recordLine h.plain record
  have hne : ∀ r ∈ s.returned, r.leaf ≠ record.leaf := fun r hr heq => by
    simpa [heq, hnew] using h.held entries hj r hr
  rw [← AppendFile.content_append] at hrecalls
  refine ⟨?_, ?_, ?_, ?_, ?_, ?_⟩
  · rw [AppendFile.content_sync]
    exact happend.plain
  · rw [AppendFile.synced_sync, AppendFile.content_append]
    exact pending_append_line (newline_not_mem_recordText record)
  · rintro _ ⟨⟩ leaf r hr
    rw [AppendFile.content_sync, AppendFile.synced_sync]
    by_cases hleaf : leaf = record.leaf
    · subst hleaf
      rw [Function.update_self] at hr
      obtain rfl := Option.some.inj hr
      exact ⟨rfl, hrecalls⟩
    · rw [Function.update_of_ne hleaf] at hr
      obtain ⟨hr', hlast⟩ := happend.known entries rfl leaf r hr
      refine ⟨hr', hlast.imp_left fun hbad => ?_⟩
      rw [AppendFile.content_append, AppendFile.content, List.append_assoc]
      exact hbad.append _
  · rintro _ ⟨⟩ r hr
    rcases List.mem_cons.mp hr with rfl | hr
    · exact Function.update_self ..
    · rw [Function.update_of_ne (hne r hr)]
      exact h.held entries hj r hr
  · refine List.forall_mem_cons.mpr ⟨?_, fun r hr => (happend.durable r hr).sync⟩
    intro p hs hp
    rw [AppendFile.content_sync] at hp
    rwa [← hs.eq_of_length_le hp.length_le]
  · exact once_cons h.once fun r hr hleaf => absurd hleaf (hne r hr)

/-- A leaf may be answered for from its record if no line that names it is to be synced. -/
theorem answer (h : Inv s) (hj : s.journal = some entries) {leaf : LeafId} {r : SpendRecord}
    (hr : entries leaf = some r)
    (hsynced : ∀ l ∈ lines s.file.unsynced, ∀ r', parseLine l = some r' → r'.leaf ≠ leaf) :
    Inv { s with returned := r :: s.returned } := by
  obtain ⟨rfl, hlast⟩ := h.known entries hj leaf r hr
  have hplain : Plain s.file.unsynced := fun c hc => h.plain c (List.mem_append_right _ hc)
  rw [hplain.lines_eq] at hsynced
  have hdurable : s.file.Durable (Recalls r) := by
    rintro p ⟨x, rfl⟩ hp
    have hx : x <+: s.file.unsynced := (List.prefix_append_right_inj _).mp hp
    have hnone : ∀ y, y <+: s.file.unsynced →
        lastRecord r.leaf (complete '\n' (s.file.synced ++ y)) = lastRecord r.leaf (complete '\n' s.file.synced) := by
      rintro y ⟨z, hz⟩
      rw [complete_append_of_pending h.synced]
      refine lastRecord_append _ fun l hl => hsynced l (List.mem_append_left _ ?_)
      rw [← hz]
      exact (complete_isPrefix y z).subset hl
    rcases hlast with hbad | hlast
    · exact .inl (hbad.append x)
    · right
      rw [hnone x hx, ← hlast]
      exact (hnone _ (List.prefix_refl _)).symm
  refine ⟨h.plain, h.synced, h.known, ?_, List.forall_mem_cons.mpr ⟨hdurable, h.durable⟩, ?_⟩
  · intro entries' hj'
    obtain rfl : entries = entries' := Option.some.inj (hj.symm.trans hj')
    exact List.forall_mem_cons.mpr ⟨hr, h.held entries hj⟩
  · refine once_cons h.once fun r' hr' hleaf => ?_
    have := h.held entries hj r' hr'
    rw [hleaf, hr] at this
    exact (Option.some.inj this).symm

end Inv

/-- **All that a call can do to a wallet** with an open journal: nothing, answer from the
record of the leaf, or put a record, which may fail. -/
theorem Wallet.step_signOnce (path : String) {s : Wallet} {entries : Entries} (hj : s.journal = some entries)
    (leaf : LeafId) (digest : Block 32) (signature : Except String Bytes) (fault : Fault) :
    let s' := s.step path (.signOnce leaf digest signature fault)
    s' = s ∨
    (∃ r, entries leaf = some r ∧ r.digest = digest ∧ s' = { s with returned := r :: s.returned }) ∨
    ∃ record : SpendRecord, entries record.leaf = none ∧
      ((∃ x, x <+: recordLine record ∧ s' = ⟨s.file.append x, some entries, s.returned⟩) ∨
        s' = ⟨(s.file.append (recordLine record)).sync,
          some (Function.update entries record.leaf (some record)), record :: s.returned⟩) := by
  obtain ⟨file, journal, returned⟩ := s
  obtain rfl : journal = some entries := hj
  simp only [Wallet.step]
  rcases signOnce_cases (fileJournal fault) (file, entries) leaf digest (fun _ => (signature, ())) () with
    ⟨r, hr, hdigest, h⟩ | ⟨r, e, -, -, h⟩ | ⟨-, e, _, -, h⟩ | ⟨hnone, sig, _, -, h⟩
  · rw [h]
    exact .inr (.inl ⟨r, hr, hdigest, rfl⟩)
  · rw [h]
    exact .inl rfl
  · rw [h]
    exact .inl rfl
  · refine .inr (.inr ⟨⟨leaf, digest, sig⟩, hnone, ?_⟩)
    rcases put_cases fault file entries ⟨leaf, digest, sig⟩ with ⟨e, x, hx, hput⟩ | hput
    · rcases h with ⟨e', journal, hput', h⟩ | ⟨journal, hput', h⟩
      · cases hput.symm.trans hput'
        rw [h]
        exact .inl ⟨x, hx, rfl⟩
      · cases hput.symm.trans hput'
    · rcases h with ⟨e', journal, hput', h⟩ | ⟨journal, hput', h⟩
      · cases hput.symm.trans hput'
      · cases hput.symm.trans hput'
        rw [h]
        exact .inr rfl

namespace Inv

variable {path : String} {s : Wallet}

/-- **Every careful step keeps the invariant.** -/
theorem step (h : Inv s) (e : Event) (he : s.Careful e) : Inv (s.step path e) := by
  cases e with
  | openJournal =>
    unfold Wallet.step
    rcases hopen : FileJournal.openJournal path s.file.content with _ | entries
    · simpa only [hopen] using h
    · simpa only [hopen] using h.openJournal he hopen
  | restart survives => exact h.restart survives
  | signOnce leaf digest signature fault =>
    rcases hj : s.journal with _ | entries
    · have hstep : s.step path (.signOnce leaf digest signature fault) = s := by simp only [Wallet.step, hj]
      rwa [hstep]
    · rcases Wallet.step_signOnce path hj leaf digest signature fault with
        heq | ⟨r, hr, hdigest, heq⟩ | ⟨record, hnone, ⟨x, hx, heq⟩ | heq⟩
      · rwa [heq]
      · rw [heq]
        exact h.answer hj hr (he entries r hj hr hdigest)
      · rw [heq]
        exact h.putFailed hj hnone hx
      · rw [heq]
        exact h.put hj hnone

/-- What the invariant is for. -/
theorem signsOnce (h : Inv s) : s.SignsOnce := fun r hr r' hr' hleaf => by
  obtain rfl := h.once r hr r' hr' hleaf
  exact ⟨rfl, rfl⟩

/-- **Every careful run keeps the invariant.** -/
theorem run (h : Inv s) (es : List Event) (hes : Wallet.CarefulRun path s es) :
    Inv (es.foldl (Wallet.step path) s) := by
  induction es generalizing s with
  | nil => exact h
  | cons e es ih => exact ih (h.step e hes.1) hes.2

end Inv

/-- **A leaf signs once** in every run of careful steps. -/
theorem signsOnce_of_careful (path : String) (es : List Event) (h : Wallet.CarefulRun path Wallet.init es) :
    (Wallet.run path es).SignsOnce :=
  (Inv.init.run es h).signsOnce

/-- A run in which the file cannot be opened at first, and a signature is asked for again
after a restart. -/
def quietRun : List Event :=
  [.openJournal, .signOnce leafA (blockOf 32 1) (.ok [0xab, 0xef]) .atOpen,
    .signOnce leafA (blockOf 32 1) (.ok [0xab, 0xef]) .nowhere, .restart 0, .openJournal,
    .signOnce leafA (blockOf 32 1) (.ok [0xab, 0xef]) .nowhere]

/-- A run in which the line of the first leaf is cut off within its signature and read back
as a record, twice: as it was cut off, and with the beginning of another line behind it. -/
def tornRun : List Event :=
  [.openJournal, .signOnce leafA (blockOf 32 1) (.ok [0xab, 0xef]) (.atWrite 102),
    .restart 102, .openJournal, .signOnce leafA (blockOf 32 1) (.ok [0xab, 0xef]) .nowhere,
    .signOnce leafB (blockOf 32 2) (.ok [1]) (.atWrite 2),
    .restart 104, .openJournal, .signOnce leafA (blockOf 32 1) (.ok [0xab, 0xef]) .nowhere]

theorem returned_tornRun : (Wallet.run "journal" tornRun).returned =
    [⟨leafA, blockOf 32 1, [0xab, 0xcd]⟩, ⟨leafA, blockOf 32 1, [0xab]⟩] := by
  decide +kernel

/-- **Not every run signs once.** -/
theorem not_signsOnce : ¬∀ (path : String) (es : List Event), (Wallet.run path es).SignsOnce := by
  intro h
  have htorn := h "journal" tornRun
  rw [Wallet.SignsOnce, returned_tornRun] at htorn
  exact absurd (htorn _ List.mem_cons_self _ (List.mem_cons_of_mem _ List.mem_cons_self) rfl).2 (by decide)

/-- Where everything is synced and every line is ended, any step is careful. -/
theorem careful_of_synced {s : Wallet} (h : s.file.unsynced = []) (hend : pending '\n' s.file.content = [])
    (e : Event) : s.Careful e := by
  cases e with
  | openJournal =>
    rw [Wallet.Careful, hend]
    rfl
  | restart => trivial
  | signOnce =>
    intro _ _ _ _ _ l hl
    rw [h] at hl
    exact absurd hl List.not_mem_nil

theorem carefulRun_of_synced {path : String} {s : Wallet} {es : List Event}
    (h : ∀ n < es.length, ((es.take n).foldl (Wallet.step path) s).file.unsynced = [] ∧
      pending '\n' ((es.take n).foldl (Wallet.step path) s).file.content = []) :
    Wallet.CarefulRun path s es := by
  induction es generalizing s with
  | nil => trivial
  | cons e es ih =>
    have hfirst := h 0 (by simp)
    refine ⟨careful_of_synced hfirst.1 hfirst.2 e, ih fun n hn => ?_⟩
    exact h (n + 1) (by simpa using hn)

theorem signsOnce_quietRun :
    (Wallet.run "journal" quietRun).returned.length = 2 ∧ (Wallet.run "journal" quietRun).SignsOnce :=
  ⟨by decide +kernel, signsOnce_of_careful "journal" quietRun (carefulRun_of_synced (by decide +kernel))⟩

end KaspaPqv.LmsWallet
