import KaspaPqv.LmsWallet.Journal

/-!
# Several wallets on one journal

Several processes on the same journal file, none of which ever fails: each opens the
journal, and calls `signOnce`, whose lookup, signature and `put` are separate steps that
may interleave with those of the others. A lookup asks the map loaded when the journal was
opened; a `put` only appends. Nothing locks the file.

That a leaf signs once does not hold in all interleavings. It does hold in every run in
which a process that finds no record of a leaf is right about it: neither another
process's map, nor a call another process is in the middle of, has a different digest for
the leaf.

## What is proved

* `call_eq_signOnce` — the three steps without interruption are `signOnce`.
* `Agree.step` — that all processes are on one digest for a leaf, the one in the file, is
  kept by every step that meets the condition.
* `oneDigest_of_informed` — in every run of such steps a leaf signs one digest.
* `not_oneDigest` — and in a run of two processes that is not, it signs two.
-/

namespace KaspaPqv.LmsWallet

open KaspaPqv.Lib FileJournal

/-- Where a process is in a call of `signOnce`. -/
inductive Call where
  | idle
  /-- The leaf was found to have no record. -/
  | signing (leaf : LeafId) (digest : Block 32)
  /-- The record is about to be put. -/
  | putting (record : SpendRecord)

/-- A process, with the records it has handed out. -/
structure Process where
  journal : Option Entries
  call : Call
  returned : List SpendRecord

/-- The processes and the file they share. -/
structure Shared (ι : Type) where
  text : List Char
  proc : ι → Process

/-- What a process does next. -/
inductive Action where
  | openJournal
  /-- The lookup at the start of a call. -/
  | lookUp (leaf : LeafId) (digest : Block 32)
  /-- The signature, if the key makes one. -/
  | sign (signature : Except String Bytes)
  /-- The line is appended and synced, and the signature handed out. -/
  | put

/-- One step of a process on the file; a step out of turn does nothing. -/
def Process.step (path : String) (text : List Char) (P : Process) : Action → List Char × Process
  | .openJournal =>
    match P.call, openJournal path text with
    | .idle, .ok entries => (text, { P with journal := some entries })
    | _, _ => (text, P)
  | .lookUp leaf digest =>
    match P.call, P.journal with
    | .idle, some entries =>
      match entries leaf with
      | some existing =>
        if existing.digest = digest then (text, { P with returned := existing :: P.returned })
        else (text, P)
      | none => (text, { P with call := .signing leaf digest })
    | _, _ => (text, P)
  | .sign signature =>
    match P.call, signature with
    | .signing leaf digest, .ok signature => (text, { P with call := .putting ⟨leaf, digest, signature⟩ })
    | .signing _ _, .error _ => (text, { P with call := .idle })
    | _, _ => (text, P)
  | .put =>
    match P.call, P.journal with
    | .putting record, some entries => (text ++ recordLine record,
        ⟨some (Function.update entries record.leaf (some record)), .idle, record :: P.returned⟩)
    | _, _ => (text, P)

namespace Process

/-- The map of the process has a record of the leaf with this digest. -/
def Knows (P : Process) (leaf : LeafId) (digest : Block 32) : Prop :=
  ∃ entries r, P.journal = some entries ∧ entries leaf = some r ∧ r.digest = digest

/-- The process is in a call for the leaf and this digest. -/
def Asks (P : Process) (leaf : LeafId) (digest : Block 32) : Prop :=
  P.call = .signing leaf digest ∨ ∃ signature, P.call = .putting ⟨leaf, digest, signature⟩

@[simp] theorem asks_idle {journal : Option Entries} {returned : List SpendRecord} {leaf : LeafId}
    {d : Block 32} : ¬(⟨journal, .idle, returned⟩ : Process).Asks leaf d := by
  simp [Asks]

@[simp] theorem asks_signing {journal : Option Entries} {returned : List SpendRecord} {leaf leaf' : LeafId}
    {d d' : Block 32} :
    (⟨journal, .signing leaf d, returned⟩ : Process).Asks leaf' d' ↔ leaf = leaf' ∧ d = d' := by
  simp [Asks]

@[simp] theorem asks_putting {journal : Option Entries} {returned : List SpendRecord} {record : SpendRecord}
    {leaf : LeafId} {d : Block 32} :
    (⟨journal, .putting record, returned⟩ : Process).Asks leaf d ↔ record.leaf = leaf ∧ record.digest = d := by
  obtain ⟨leaf', d', signature⟩ := record
  simp [Asks]

/-- What each process keeps up by itself: in a call its journal is open, its records stand under
their leaves, and it knows the records it has handed out. -/
structure Kept (P : Process) : Prop where
  opened : ∀ leaf d, P.Asks leaf d → ∃ entries, P.journal = some entries
  keyed : ∀ entries leaf r, P.journal = some entries → entries leaf = some r → r.leaf = leaf
  held : ∀ r ∈ P.returned, P.Knows r.leaf r.digest

/-- A process that has put a record. -/
def afterPut (P : Process) (entries : Entries) (record : SpendRecord) : Process :=
  ⟨some (Function.update entries record.leaf (some record)), .idle, record :: P.returned⟩

theorem Asks.unique {P : Process} {leaf : LeafId} {d d' : Block 32} (h : P.Asks leaf d) (h' : P.Asks leaf d') :
    d = d' := by
  rcases h with h | ⟨_, h⟩ <;> rcases h' with h' | ⟨_, h'⟩ <;> cases h.symm.trans h' <;> rfl

/-- **All that a step can do.** -/
theorem step_cases (path : String) (text : List Char) (P : Process) (a : Action) :
    P.step path text a = (text, P) ∨
    (∃ entries, P.call = .idle ∧ openJournal path text = .ok entries ∧
      P.step path text a = (text, { P with journal := some entries })) ∨
    (∃ entries leaf r, P.journal = some entries ∧ entries leaf = some r ∧
      P.step path text a = (text, { P with returned := r :: P.returned })) ∨
    (∃ entries leaf digest, a = .lookUp leaf digest ∧ P.call = .idle ∧ P.journal = some entries ∧
      entries leaf = none ∧ P.step path text a = (text, { P with call := .signing leaf digest })) ∨
    (∃ leaf digest, P.call = .signing leaf digest ∧
      (P.step path text a = (text, { P with call := .idle }) ∨
        ∃ signature, P.step path text a = (text, { P with call := .putting ⟨leaf, digest, signature⟩ }))) ∨
    ∃ entries record, P.call = .putting record ∧ P.journal = some entries ∧
      P.step path text a = (text ++ recordLine record,
        ⟨some (Function.update entries record.leaf (some record)), .idle, record :: P.returned⟩) := by
  obtain ⟨journal, call, returned⟩ := P
  cases a with
  | openJournal =>
    rcases call with _ | ⟨leaf, digest⟩ | record
    · rcases hopen : FileJournal.openJournal path text with _ | entries
      · exact .inl (by simp only [step, hopen])
      · exact .inr (.inl ⟨entries, rfl, rfl, by simp only [step, hopen]⟩)
    · exact .inl rfl
    · exact .inl rfl
  | lookUp leaf digest =>
    rcases journal with _ | entries
    · cases call <;> exact .inl rfl
    rcases call with _ | ⟨leaf', digest'⟩ | record
    · rcases hget : entries leaf with _ | r
      · exact .inr (.inr (.inr (.inl ⟨entries, leaf, digest, rfl, rfl, rfl, hget, by simp only [step, hget]⟩)))
      · by_cases hdigest : r.digest = digest
        · exact .inr (.inr (.inl ⟨entries, leaf, r, rfl, hget, by simp only [step, hget, if_pos hdigest]⟩))
        · exact .inl (by simp only [step, hget, if_neg hdigest])
    · exact .inl rfl
    · exact .inl rfl
  | sign signature =>
    rcases call with _ | ⟨leaf, digest⟩ | record
    · exact .inl rfl
    · rcases signature with e | signature
      · exact .inr (.inr (.inr (.inr (.inl ⟨leaf, digest, rfl, .inl rfl⟩))))
      · exact .inr (.inr (.inr (.inr (.inl ⟨leaf, digest, rfl, .inr ⟨signature, rfl⟩⟩))))
    · exact .inl rfl
  | put =>
    rcases call with _ | ⟨leaf, digest⟩ | record
    · exact .inl rfl
    · exact .inl rfl
    · rcases journal with _ | entries
      · exact .inl rfl
      · exact .inr (.inr (.inr (.inr (.inr ⟨entries, record, rfl, rfl, rfl⟩))))

/-- **The steps of a call without interruption** are `signOnce` on a journal that does not fail. -/
theorem call_eq_signOnce (path : String) (file : AppendFile Char) (entries : Entries)
    (returned : List SpendRecord) (leaf : LeafId) (digest : Block 32) (signature : Except String Bytes) :
    let call := [Action.lookUp leaf digest, .sign signature, .put]
    let (result, (file', entries'), _) := signOnce (fileJournal .nowhere) (file, entries) leaf digest
      (fun key : Unit => (signature, key)) ()
    call.foldl (fun s a => Process.step path s.1 s.2 a) (file.content, ⟨some entries, .idle, returned⟩) =
      (file'.content, ⟨some entries', .idle, (result.toOption.map SignOutcome.record).toList ++ returned⟩) := by
  rcases hget : entries leaf with _ | r
  · cases signature with
    | error e => simp [signOnce, fileJournal, step, hget, Except.toOption]
    | ok signature =>
      simp [signOnce, fileJournal, FileJournal.put, step, hget, Except.toOption, SignOutcome.record]
  · by_cases hdigest : r.digest = digest
    · simp [signOnce, fileJournal, step, hget, hdigest, Except.toOption, SignOutcome.record]
    · simp [signOnce, fileJournal, step, hget, hdigest, Except.toOption]

end Process

namespace Shared

variable {ι : Type} [DecidableEq ι]

/-- The file earlier wallets left, and nothing open. -/
def init (records : List SpendRecord) : Shared ι := ⟨records.flatMap recordLine, fun _ => ⟨none, .idle, []⟩⟩

/-- One step of process `p`. -/
def step (path : String) (s : Shared ι) (p : ι) (a : Action) : Shared ι :=
  let (text, P) := (s.proc p).step path s.text a
  ⟨text, Function.update s.proc p P⟩

/-- The others stay as they are. -/
theorem proc_step_of_ne (path : String) (s : Shared ι) {p q : ι} (h : q ≠ p) (a : Action) :
    (s.step path p a).proc q = s.proc q :=
  Function.update_of_ne h ..

/-- A whole run: which process does what. -/
def run (path : String) (s : Shared ι) (actions : List (ι × Action)) : Shared ι :=
  actions.foldl (fun s pa => s.step path pa.1 pa.2) s

/-- No leaf has signatures over two digests handed out by two processes. -/
def OneDigest (s : Shared ι) : Prop :=
  ∀ p q, p ≠ q → ∀ r ∈ (s.proc p).returned, ∀ r' ∈ (s.proc q).returned, r.leaf = r'.leaf → r.digest = r'.digest

/-- The process has a record of the leaf, or is in a call for it, with this digest. -/
def On (s : Shared ι) (p : ι) (leaf : LeafId) (digest : Block 32) : Prop :=
  (s.proc p).Knows leaf digest ∨ (s.proc p).Asks leaf digest

/-- A step that is not a lookup finding no record of a leaf that another process is on
a different digest for. -/
def Informed (s : Shared ι) (p : ι) : Action → Prop
  | .lookUp leaf digest => (s.proc p).call = .idle →
      ∀ entries, (s.proc p).journal = some entries → entries leaf = none → ∀ q ≠ p, ∀ d, s.On q leaf d → d = digest
  | _ => True

/-- A run of informed steps. -/
def InformedRun (path : String) (s : Shared ι) : List (ι × Action) → Prop
  | [] => True
  | pa :: actions => s.Informed pa.1 pa.2 ∧ InformedRun path (s.step path pa.1 pa.2) actions

theorem informedRun_append {path : String} {s : Shared ι} {a b : List (ι × Action)} :
    s.InformedRun path (a ++ b) ↔ s.InformedRun path a ∧ (s.run path a).InformedRun path b := by
  induction a generalizing s with
  | nil => simp [InformedRun, run]
  | cons pa a ih => rw [List.cons_append, InformedRun, InformedRun, ih, and_assoc, run, run, List.foldl_cons]

omit [DecidableEq ι] in
/-- Looking up a leaf the map has a record of is always right. -/
theorem informed_of_has {s : Shared ι} {p : ι} {leaf : LeafId} {digest : Block 32} {r : SpendRecord}
    (h : (s.proc p).journal.bind (fun entries => entries leaf) = some r) :
    s.Informed p (.lookUp leaf digest) := by
  intro _ entries hj hnone
  rw [hj, Option.bind_some, hnone] at h
  cases h

end Shared

/-! ### The invariant -/

/-- The last record of a leaf in the file is the one the maps have for it; a map without
one was loaded before some process put it. -/
structure Filed {ι : Type} (s : Shared ι) : Prop where
  known : ∀ p leaf d, (s.proc p).Knows leaf d →
    ∃ r, lastRecord leaf (complete '\n' s.text) = some r ∧ r.digest = d
  put : ∀ leaf r, lastRecord leaf (complete '\n' s.text) = some r →
    ∀ q entries, (s.proc q).journal = some entries → entries leaf = none → ∃ p, (s.proc p).Knows leaf r.digest

/-- The processes agree about each leaf, among themselves and with the file. -/
structure Agree {ι : Type} [DecidableEq ι] (s : Shared ι) : Prop where
  plain : Plain s.text
  ended : pending '\n' s.text = []
  /-- In a call, the journal is open. -/
  opened : ∀ p leaf d, (s.proc p).Asks leaf d → ∃ entries, (s.proc p).journal = some entries
  keyed : ∀ p entries leaf r, (s.proc p).journal = some entries → entries leaf = some r → r.leaf = leaf
  /-- A process knows the records it has handed out. -/
  held : ∀ p, ∀ r ∈ (s.proc p).returned, (s.proc p).Knows r.leaf r.digest
  one : ∀ p q leaf d d', s.On p leaf d → s.On q leaf d' → d = d'
  /-- Unless the file cannot be opened any more. -/
  filed : Poisoned s.text ∨ Filed s

namespace Agree

variable {ι : Type} [DecidableEq ι] {path : String} {s : Shared ι} {p : ι} {P : Process} {entries : Entries}

theorem init (records : List SpendRecord) : Agree (Shared.init records : Shared ι) where
  plain := plain_flatMap_recordLine records
  ended := (complete_flatMap_recordLine records).2
  opened := by simp [Shared.init, Process.Asks]
  keyed := by simp [Shared.init]
  held := by simp [Shared.init]
  one := by simp [Shared.init, Shared.On, Process.Knows, Process.Asks]
  filed := .inr ⟨by simp [Shared.init, Process.Knows], by simp [Shared.init]⟩

/-- All processes keep their part up, if the one that takes a step does. -/
theorem kept_update (h : Agree s) (hP : P.Kept) : ∀ q, (Function.update s.proc p P q).Kept :=
  (Function.forall_update_iff s.proc fun _ Q => Q.Kept).mpr ⟨hP, fun q _ => ⟨h.opened q, h.keyed q, h.held q⟩⟩

/-- A step that does not touch the journal: whoever the process asks for is the one
everybody is on. -/
theorem call (h : Agree s) (hj : P.journal = (s.proc p).journal)
    (hasks : ∀ leaf d, P.Asks leaf d → (∃ entries, P.journal = some entries) ∧ ∀ q d', s.On q leaf d' → d' = d)
    (hreturned : ∀ r ∈ P.returned, P.Knows r.leaf r.digest) :
    Agree ⟨s.text, Function.update s.proc p P⟩ := by
  have hjournal : ∀ q, (Function.update s.proc p P q).journal = (s.proc q).journal :=
    (Function.forall_update_iff s.proc fun q Q => Q.journal = (s.proc q).journal).mpr ⟨hj, fun _ _ => rfl⟩
  have hknows (q : ι) (leaf : LeafId) (d : Block 32) :
      (Function.update s.proc p P q).Knows leaf d ↔ (s.proc q).Knows leaf d := by
    rw [Process.Knows, Process.Knows, hjournal]
  have hon (leaf : LeafId) (d : Block 32) (q : ι)
      (ho : (⟨s.text, Function.update s.proc p P⟩ : Shared ι).On q leaf d) : s.On q leaf d ∨ P.Asks leaf d := by
    have hask : ∀ q, (Function.update s.proc p P q).Asks leaf d → s.On q leaf d ∨ P.Asks leaf d :=
      (Function.forall_update_iff s.proc fun q Q => Q.Asks leaf d → s.On q leaf d ∨ P.Asks leaf d).mpr
        ⟨.inr, fun q _ ha => .inl (.inr ha)⟩
    exact ho.elim (fun hk => .inl (.inl ((hknows q leaf d).mp hk))) (hask q)
  have hkept := h.kept_update (p := p) (P := P) ⟨fun leaf d ha => (hasks leaf d ha).1,
    fun entries leaf r hq hr => h.keyed p entries leaf r (hj.symm.trans hq) hr, hreturned⟩
  refine ⟨h.plain, h.ended, fun q => (hkept q).opened, fun q => (hkept q).keyed, fun q => (hkept q).held, ?_, ?_⟩
  · intro q q' leaf d d' ho ho'
    rcases hon leaf d q ho with ho | ha
    · rcases hon leaf d' q' ho' with ho' | ha'
      · exact h.one q q' leaf d d' ho ho'
      · exact (hasks leaf d' ha').2 q d ho
    · rcases hon leaf d' q' ho' with ho' | ha'
      · exact ((hasks leaf d ha).2 q' d' ho').symm
      · exact ha.unique ha'
  · refine h.filed.imp_right fun hf => ⟨fun q leaf d hk => ?_, fun leaf r hr q entries hq hnone => ?_⟩
    · exact hf.known q leaf d ((hknows q leaf d).mp hk)
    · rw [hjournal] at hq
      obtain ⟨q', hq'⟩ := hf.put leaf r hr q entries hq hnone
      exact ⟨q', (hknows q' leaf _).mpr hq'⟩

/-- A journal that could be opened has the last record of each leaf in the file. -/
theorem openJournal (h : Agree s) (hopen : FileJournal.openJournal path s.text = .ok entries) :
    Agree ⟨s.text, Function.update s.proc p { s.proc p with journal := some entries }⟩ := by
  obtain ⟨hread, hentries⟩ := openJournal_ok hopen
  rw [h.plain.lines_eq, if_pos h.ended, List.append_nil] at hread hentries
  have hf : Filed s := h.filed.resolve_left fun ⟨l, hl, hbad⟩ => hread l hl hbad
  have hself (leaf : LeafId) (d : Block 32) :
      ({ s.proc p with journal := some entries } : Process).Knows leaf d ↔
        ∃ r, lastRecord leaf (complete '\n' s.text) = some r ∧ r.digest = d := by
    constructor
    · rintro ⟨_, r, ⟨⟩, hr, hd⟩
      exact ⟨r, by rw [← hentries, hr], hd⟩
    · rintro ⟨r, hr, hd⟩
      exact ⟨entries, r, rfl, by rw [hentries, hr], hd⟩
  have hknows {leaf : LeafId} {r : SpendRecord} (hr : lastRecord leaf (complete '\n' s.text) = some r)
      {q : ι} {d : Block 32} (hk : (s.proc q).Knows leaf d) : d = r.digest := by
    obtain ⟨r', hr', hd⟩ := hf.known q leaf d hk
    obtain rfl := Option.some.inj (hr.symm.trans hr')
    exact hd.symm
  have hnew {leaf : LeafId} {r : SpendRecord} (hr : lastRecord leaf (complete '\n' s.text) = some r)
      {q : ι} {d : Block 32} (ho : s.On q leaf d) : d = r.digest := by
    rcases ho with hk | ha
    · exact hknows hr hk
    · -- in a call for a leaf, the map may have been loaded before its record was put
      obtain ⟨entries', hq⟩ := h.opened q leaf d ha
      rcases hget : entries' leaf with _ | r'
      · obtain ⟨q', hq'⟩ := hf.put leaf r hr q entries' hq hget
        exact h.one q q' leaf d r.digest (.inr ha) (.inl hq')
      · have hk : (s.proc q).Knows leaf r'.digest := ⟨entries', r', hq, hget, rfl⟩
        rw [h.one q q leaf d r'.digest (.inr ha) (.inl hk), hknows hr hk]
  have hon (leaf : LeafId) (d : Block 32) :
      ∀ q, (⟨s.text, Function.update s.proc p { s.proc p with journal := some entries }⟩ : Shared ι).On q leaf d →
        s.On q leaf d ∨ ∃ r, lastRecord leaf (complete '\n' s.text) = some r ∧ r.digest = d :=
    (Function.forall_update_iff s.proc fun q Q => Q.Knows leaf d ∨ Q.Asks leaf d → s.On q leaf d ∨ _).mpr
      ⟨fun ho => ho.elim (fun hk => .inr ((hself leaf d).mp hk)) fun ha => .inl (.inr ha), fun _ _ ho => .inl ho⟩
  have hkeyed : ∀ entries' leaf r, some entries = some entries' → entries' leaf = some r → r.leaf = leaf := by
    intro entries' leaf r hq hr
    cases hq
    rw [hentries] at hr
    exact leaf_of_lastRecord hr
  have hkept := h.kept_update (p := p) (P := { s.proc p with journal := some entries }) ⟨fun _ _ _ => ⟨entries, rfl⟩, hkeyed,
    fun r hr => (hself _ _).mpr (hf.known p _ _ (h.held p r hr))⟩
  refine ⟨h.plain, h.ended, fun q => (hkept q).opened, fun q => (hkept q).keyed, fun q => (hkept q).held, ?_, .inr ⟨?_, ?_⟩⟩
  · intro q q' leaf d d' ho ho'
    rcases hon leaf d q ho with ho | ⟨r, hr, rfl⟩
    · rcases hon leaf d' q' ho' with ho' | ⟨r, hr, rfl⟩
      · exact h.one q q' leaf d d' ho ho'
      · exact hnew hr ho
    · rcases hon leaf d' q' ho' with ho' | ⟨r', hr', rfl⟩
      · exact (hnew hr ho').symm
      · rw [Option.some.inj (hr.symm.trans hr')]
  · exact (Function.forall_update_iff s.proc fun _ Q => ∀ leaf d, Q.Knows leaf d →
      ∃ r, lastRecord leaf (complete '\n' s.text) = some r ∧ r.digest = d).mpr
        ⟨fun leaf d => (hself leaf d).mp, fun q _ => hf.known q⟩
  · intro leaf r hr q entries' hq hnone
    refine ⟨p, ?_⟩
    simp only [Function.update_self]
    exact (hself leaf r.digest).mpr ⟨r, hr, rfl⟩

/-- A record put is the last one of its leaf in the file, if it can be read. -/
theorem put (h : Agree s) {record : SpendRecord} (hcall : (s.proc p).call = .putting record)
    (hj : (s.proc p).journal = some entries) :
    Agree ⟨s.text ++ recordLine record, Function.update s.proc p ((s.proc p).afterPut entries record)⟩ := by
  have hask : (s.proc p).Asks record.leaf record.digest := .inr ⟨record.signature, hcall⟩
  have hself : ((s.proc p).afterPut entries record).Knows record.leaf record.digest :=
    ⟨_, record, rfl, Function.update_self .., rfl⟩
  have hkeep {leaf : LeafId} (hleaf : leaf ≠ record.leaf) (d : Block 32) :
      ((s.proc p).afterPut entries record).Knows leaf d ↔ (s.proc p).Knows leaf d := by
    simp [Process.Knows, Process.afterPut, hj, Function.update_of_ne hleaf]
  have hother {leaf : LeafId} (hleaf : leaf ≠ record.leaf) (d : Block 32) :
      ∀ q, (Function.update s.proc p ((s.proc p).afterPut entries record) q).Knows leaf d ↔ (s.proc q).Knows leaf d :=
    (Function.forall_update_iff s.proc fun q Q => Q.Knows leaf d ↔ (s.proc q).Knows leaf d).mpr
      ⟨hkeep hleaf d, fun _ _ => Iff.rfl⟩
  -- who is on a digest after the step was on it before
  have honSelf (leaf : LeafId) (d : Block 32) (ho : ((s.proc p).afterPut entries record).Knows leaf d ∨
      ((s.proc p).afterPut entries record).Asks leaf d) : s.On p leaf d := by
    have hk := ho.resolve_right Process.asks_idle
    by_cases hleaf : leaf = record.leaf
    · obtain ⟨_, r, ⟨⟩, hr, rfl⟩ := hk
      rw [hleaf, Function.update_self] at hr
      obtain rfl := Option.some.inj hr
      exact .inr (hleaf ▸ hask)
    · exact .inl ((hkeep hleaf d).mp hk)
  have hon (leaf : LeafId) (d : Block 32) : ∀ q, (⟨s.text ++ recordLine record,
      Function.update s.proc p ((s.proc p).afterPut entries record)⟩ : Shared ι).On q leaf d → s.On q leaf d :=
    (Function.forall_update_iff s.proc fun q Q => Q.Knows leaf d ∨ Q.Asks leaf d → s.On q leaf d).mpr
      ⟨honSelf leaf d, fun _ _ ho => ho⟩
  have hkeyed : ∀ entries' leaf r, some (Function.update entries record.leaf (some record)) = some entries' →
      entries' leaf = some r → r.leaf = leaf := by
    intro entries' leaf r hq hr
    cases hq
    by_cases hleaf : leaf = record.leaf
    · rw [hleaf, Function.update_self] at hr
      rw [hleaf, Option.some.inj hr]
    · rw [Function.update_of_ne hleaf] at hr
      exact h.keyed p entries leaf r hj hr
  have hheld : ∀ r ∈ record :: (s.proc p).returned, ((s.proc p).afterPut entries record).Knows r.leaf r.digest := by
    refine List.forall_mem_cons.mpr ⟨hself, fun r hr => ?_⟩
    by_cases hleaf : r.leaf = record.leaf
    · rw [hleaf, h.one p p record.leaf r.digest record.digest (.inl (hleaf ▸ h.held p r hr)) (.inr hask)]
      exact hself
    · exact (hkeep hleaf _).mpr (h.held p r hr)
  have hkept := h.kept_update (p := p) (P := (s.proc p).afterPut entries record)
    ⟨fun _ _ ha => absurd ha Process.asks_idle, hkeyed, hheld⟩
  have hline := recalls_append_recordLine h.plain record
  have hlast {leaf : LeafId} (hleaf : leaf ≠ record.leaf) :=
    lastRecord_append_piece h.plain (List.prefix_refl (recordLine record)) (Ne.symm hleaf)
  refine ⟨?_, ?_, fun q => (hkept q).opened, fun q => (hkept q).keyed, fun q => (hkept q).held, ?_, ?_⟩
  · exact fun c hc => (List.mem_append.mp hc).elim (h.plain c) (plain_recordLine record c)
  · exact pending_append_line (newline_not_mem_recordText record)
  · exact fun q q' leaf d d' ho ho' => h.one q q' leaf d d' (hon leaf d q ho) (hon leaf d' q' ho')
  · rcases h.filed with hbad | hf
    · exact .inl (hbad.append _)
    rcases hline with hbad | hline
    · exact .inl hbad
    refine .inr ⟨fun q leaf d hk => ?_, fun leaf r hr q entries' hq hnone => ?_⟩
    · by_cases hleaf : leaf = record.leaf
      · subst hleaf
        exact ⟨record, hline, h.one p q record.leaf _ d (.inr hask) (hon record.leaf d q (.inl hk))⟩
      · rw [hlast hleaf]
        exact hf.known q leaf d ((hother hleaf d q).mp hk)
    · by_cases hleaf : leaf = record.leaf
      · subst hleaf
        obtain rfl := Option.some.inj (hline.symm.trans hr)
        exact ⟨p, by simpa only [Function.update_self] using hself⟩
      · rw [hlast hleaf] at hr
        have hput : ∀ entries', some (Function.update entries record.leaf (some record)) = some entries' →
            entries' leaf = none → ∃ p', (s.proc p').Knows leaf r.digest := by
          rintro _ ⟨⟩ hnone
          rw [Function.update_of_ne hleaf] at hnone
          exact hf.put leaf r hr p entries hj hnone
        obtain ⟨p', hp'⟩ := (Function.forall_update_iff s.proc fun _ Q => ∀ entries', Q.journal = some entries' →
          entries' leaf = none → ∃ p', (s.proc p').Knows leaf r.digest).mpr ⟨hput, fun q _ => hf.put leaf r hr q⟩ q
            entries' hq hnone
        exact ⟨p', (hother hleaf _ p').mpr hp'⟩

/-- **Every informed step keeps the agreement.** -/
theorem step (h : Agree s) (p : ι) (a : Action) (ha : s.Informed p a) : Agree (s.step path p a) := by
  have hself : Agree ⟨s.text, Function.update s.proc p (s.proc p)⟩ := by rwa [Function.update_eq_self]
  have hasks : ∀ leaf d, (s.proc p).Asks leaf d →
      (∃ entries, (s.proc p).journal = some entries) ∧ ∀ q d', s.On q leaf d' → d' = d := fun leaf d ha =>
    ⟨h.opened p leaf d ha, fun q d' ho => h.one q p leaf d' d ho (.inr ha)⟩
  unfold Shared.step
  rcases Process.step_cases path s.text (s.proc p) a with heq | ⟨entries, -, hopen, heq⟩ |
    ⟨entries, leaf, r, hj, hr, heq⟩ | ⟨entries, leaf, digest, rfl, hidle, hj, hnone, heq⟩ |
    ⟨leaf, digest, hcall, heq | ⟨signature, heq⟩⟩ | ⟨entries, record, hcall, hj, heq⟩
  · rwa [heq]
  · rw [heq]
    exact h.openJournal hopen
  · rw [heq]
    refine h.call rfl hasks (List.forall_mem_cons.mpr ⟨?_, h.held p⟩)
    rw [h.keyed p entries leaf r hj hr]
    exact ⟨entries, r, hj, hr, rfl⟩
  · rw [heq]
    refine h.call rfl (fun leaf' d' hask => ?_) (h.held p)
    obtain ⟨rfl, rfl⟩ := Process.asks_signing.mp hask
    refine ⟨⟨entries, hj⟩, fun q d ho => ?_⟩
    by_cases hq : q = p
    · subst hq
      rcases ho with ⟨entries', r, hj', hr, -⟩ | ho | ⟨_, ho⟩
      · rw [Option.some.inj (hj'.symm.trans hj), hnone] at hr
        cases hr
      · cases hidle.symm.trans ho
      · cases hidle.symm.trans ho
    · exact ha hidle entries hj hnone q hq d ho
  · rw [heq]
    exact h.call rfl (fun leaf' d' hask => absurd hask Process.asks_idle) (h.held p)
  · rw [heq]
    refine h.call rfl (fun leaf' d' hask => ?_) (h.held p)
    obtain ⟨rfl, rfl⟩ := Process.asks_putting.mp hask
    exact hasks _ _ (.inl hcall)
  · rw [heq]
    exact h.put hcall hj

theorem run (h : Agree s) (actions : List (ι × Action)) (hinformed : s.InformedRun path actions) :
    Agree (s.run path actions) := by
  induction actions generalizing s with
  | nil => exact h
  | cons pa actions ih => exact ih (h.step pa.1 pa.2 hinformed.1) hinformed.2

/-- What the agreement is for. -/
theorem oneDigest (h : Agree s) : s.OneDigest := by
  intro p q _ r hr r' hr' hleaf
  have hknows := h.held p r hr
  rw [hleaf] at hknows
  exact h.one p q r'.leaf r.digest r'.digest (.inl hknows) (.inl (h.held q r' hr'))

end Agree

/-- **No leaf signs two digests** in a run of informed steps, whatever records the file had. -/
theorem oneDigest_of_informed {ι : Type} [DecidableEq ι] (path : String) (records : List SpendRecord)
    (actions : List (ι × Action)) (h : (Shared.init records).InformedRun path actions) :
    ((Shared.init records).run path actions).OneDigest :=
  ((Agree.init records).run actions h).oneDigest

/-- A second process opens the journal after the first one has signed, and is asked for
the same digest and for another one. -/
def laterRun : List (Bool × Action) :=
  [(false, .openJournal), (false, .lookUp leafA (blockOf 32 1)), (false, .sign (.ok [1])), (false, .put),
    (true, .openJournal)] ++
  [(true, .lookUp leafA (blockOf 32 1)), (true, .lookUp leafA (blockOf 32 2))]

theorem oneDigest_laterRun :
    (((Shared.init []).run "journal" laterRun).proc true).returned = [⟨leafA, blockOf 32 1, [1]⟩] ∧
      ((Shared.init []).run "journal" laterRun).OneDigest := by
  refine ⟨by decide +kernel, oneDigest_of_informed "journal" [] laterRun ?_⟩
  refine Shared.informedRun_append.mpr ⟨⟨trivial, ?_, trivial, trivial, trivial, trivial⟩, ?_, ?_, trivial⟩
  · rintro - _ - - (_ | _) hq d ho
    · exact absurd rfl hq
    · simp only [Shared.On, Process.Knows, Process.Asks, Shared.proc_step_of_ne _ _ hq] at ho
      rcases ho with ⟨_, _, h, -⟩ | h | ⟨_, h⟩ <;> cases h
  · exact Shared.informed_of_has (r := ⟨leafA, blockOf 32 1, [1]⟩) (by decide +kernel)
  · exact Shared.informed_of_has (r := ⟨leafA, blockOf 32 1, [1]⟩) (by decide +kernel)

/-- Both processes open the journal before the first one signs. -/
def staleRun : List (Bool × Action) :=
  [(false, .openJournal), (true, .openJournal),
    (false, .lookUp leafA (blockOf 32 1)), (false, .sign (.ok [1])), (false, .put),
    (true, .lookUp leafA (blockOf 32 2)), (true, .sign (.ok [2])), (true, .put)]

theorem returned_staleRun (p : Bool) : (((Shared.init []).run "journal" staleRun).proc p).returned =
    if p then [⟨leafA, blockOf 32 2, [2]⟩] else [⟨leafA, blockOf 32 1, [1]⟩] := by
  revert p
  decide +kernel

/-- **Not in every interleaving.** -/
theorem not_oneDigest : ¬∀ (path : String) (records : List SpendRecord) (actions : List (Bool × Action)),
    ((Shared.init records).run path actions).OneDigest := by
  intro h
  have hdigest := h "journal" [] staleRun false true (by decide) ⟨leafA, blockOf 32 1, [1]⟩
    (by rw [returned_staleRun]; simp) ⟨leafA, blockOf 32 2, [2]⟩ (by rw [returned_staleRun]; simp) rfl
  exact absurd hdigest (by decide)

end KaspaPqv.LmsWallet
