import KaspaPqv.LmsWallet.ChangeLeaf
import KaspaPqv.LmsWallet.RoundTrip
import KaspaPqv.LmsWallet.Unlock

/-!
# Every broadcast has its record

Calls of `run` for any vaults share one journal, while coins come and go. Whatever they are asked
for, and in whatever order, a transaction is broadcast only under a record of the journal: its
witness is the signature of the record, and its digest is the record's. Records are only ever
added, at most one for a leaf. So all that is broadcast for one leaf has one digest.

## What is proved

* `run_backed` — what one call does to the records, and under which it broadcasts.
* `broadcasts_backed` — in every run the records are kept, and every broadcast has one.
-/

namespace KaspaPqv.LmsWallet

open KaspaPqv.Lib KaspaPqv.Script KaspaPqv.VaultCore KaspaPqv.LmsScript FileJournal

/-! ### The records of a file -/

/-- What is read back of a file of records is one of them. -/
theorem mem_of_openJournal {path : String} {records : List SpendRecord} {entries : Entries} {leaf : LeafId}
    {r : SpendRecord} (hsig : ∀ r ∈ records, r.signature ≠ [])
    (hopen : openJournal path (records.flatMap recordLine) = .ok entries) (hr : entries leaf = some r) :
    r ∈ records ∧ r.leaf = leaf := by
  rw [(openJournal_ok hopen).2, lines_flatMap_recordText] at hr
  refine ⟨?_, leaf_of_lastRecord hr⟩
  obtain ⟨l, hl, hparse⟩ := exists_of_lastRecord hr
  obtain ⟨r', hr', rfl⟩ := List.mem_map.mp hl
  rw [parseLine_recordText (hsig r' hr')] at hparse
  exact Option.some.inj hparse ▸ hr'

theorem not_mem_of_openJournal {path : String} {records : List SpendRecord} {entries : Entries} {leaf : LeafId}
    (hsig : ∀ r ∈ records, r.signature ≠ []) (hopen : openJournal path (records.flatMap recordLine) = .ok entries)
    (hnone : entries leaf = none) : leaf ∉ records.map SpendRecord.leaf := by
  rw [(openJournal_ok hopen).2, lines_flatMap_recordText, lastRecord_map_recordText hsig] at hnone
  intro hmem
  obtain ⟨r, hr, hleaf⟩ := List.mem_map.mp hmem
  exact hnone r hr hleaf

namespace World

/-- The view of a transaction with one input. -/
structure HasView (t : MassTransaction) (v : SpendView) : Prop where
  version_eq : t.version = v.txVersion
  inputs_eq : t.inputs.map TransactionInput.previousOutpoint = [⟨v.outpointTxid, v.outpointIndex⟩]
  outputs_eq : t.outputs = toOutputs v.outputs

/-- Two transactions move one coin, to the same outputs. -/
structure SameSpend (t t' : MassTransaction) : Prop where
  version_eq : t.version = t'.version
  inputs_eq : t.inputs.map TransactionInput.previousOutpoint = t'.inputs.map TransactionInput.previousOutpoint
  outputs_eq : t.outputs = t'.outputs

theorem HasView.sameSpend {t t' : MassTransaction} {v : SpendView} (h : HasView t v) (h' : HasView t' v) :
    SameSpend t t' :=
  ⟨h.version_eq.trans h'.version_eq.symm, h.inputs_eq.trans h'.inputs_eq.symm, h.outputs_eq.trans h'.outputs_eq.symm⟩

/-- A transaction carries the signature of a record, and the digest of the record is its own; whether it unlocks
its coin is up to the signature. -/
def BackedBy {NodeParams : Type} (kaspa : Kaspa NodeParams) (sha256 : Bytes → Block 32) (r : SpendRecord)
    (t : MassTransaction) : Prop :=
  ∃ (v : SpendView) (publicKey : LmsPublicKey) (is : List Instr) (coin : UtxoEntry),
    HasView t v ∧ bindingDigest sha256 v = .ok r.digest ∧ r.leaf.vaultId = publicKey.id ∧
    (emitVaultScript vaultParams publicKey r.leaf.leaf.toNat canonicalOutputCount :
      Gen Unit Instr String Unit).code () = .ok is ∧
    Carries kaspa is (signatureItems r.signature).reverse t coin ∧ ∀ c, Sees c t →
      (Unlocks sha256 is (signatureItems r.signature).reverse c ↔
        Signs sha256 publicKey r.leaf.leaf r.signature r.digest)

/-- Two different views of these transactions are written to strings with one hash. -/
def Collide (sha256 : Bytes → Block 32) (t t' : MassTransaction) : Prop :=
  ∃ v v' pre pre', HasView t v ∧ HasView t' v' ∧ bindingPreimage v = .ok pre ∧ bindingPreimage v' = .ok pre' ∧
    pre ≠ pre' ∧ sha256 pre = sha256 pre'

/-- The file holds these records, at most one for a leaf, and every broadcast has one. -/
structure Backed {NodeParams : Type} (kaspa : Kaspa NodeParams) (sha256 : Bytes → Block 32) (s : World)
    (records : List SpendRecord) : Prop where
  file : s.file = ⟨records.flatMap recordLine, []⟩
  signed : ∀ r ∈ records, r.signature ≠ []
  once : (records.map SpendRecord.leaf).Nodup
  mempool : ∀ t ∈ s.mempool, ∃ r ∈ records, BackedBy kaspa sha256 r t

section

variable {NodeParams Prefix Address K : Type} {kaspa : Kaspa NodeParams} {lib : AddressLib Prefix Address}
  {engine : ScriptEngine} {sha256 : Bytes → Block 32} {lms : LmsLib K} {client : Client Address}
  {req : SpendRequest NodeParams Prefix Address} {records : List SpendRecord}

/-- What a call may do to the records: nothing, or add one for a leaf that has none. -/
inductive Extends (records : List SpendRecord) : List SpendRecord → Prop
  | same : Extends records records
  | add (r : SpendRecord) (hsigned : r.signature ≠ []) (hnew : r.leaf ∉ records.map SpendRecord.leaf) :
      Extends records (records ++ [r])

theorem Extends.isPrefix {records' : List SpendRecord} (h : Extends records records') : records <+: records' := by
  cases h with
  | same => exact List.prefix_refl _
  | add r => exact List.prefix_append _ _

theorem file_record (records : List SpendRecord) (r : SpendRecord) :
    ((⟨records.flatMap recordLine, []⟩ : AppendFile Char).append (recordLine r)).sync =
      ⟨(records ++ [r]).flatMap recordLine, []⟩ := by
  simp [AppendFile.append, AppendFile.sync, AppendFile.content]

theorem ne_nil_of_length {signature : Bytes} (h : signature.length = signatureLen vaultParams) : signature ≠ [] := by
  rintro rfl
  exact absurd h (by decide)

/-- **One call of `buildSpend`**: the file holds the records it held, and perhaps one more; and what is returned is
backed by one of them. -/
theorem buildSpend_backed {key : LmsSigningKey K} (hkey : key.Honest) (hsig : ∀ r ∈ records, r.signature ≠ [])
    {path : String} {entries : Entries} (hopen : openJournal path (records.flatMap recordLine) = .ok entries)
    {call : SpendCall NodeParams K} (hversion : call.txVersion = 1) {result : Except String SignedSpend}
    {journal' : AppendFile Char × Entries} {k' : K}
    (h : buildSpend kaspa sha256 (fileJournal .nowhere) key (⟨records.flatMap recordLine, []⟩, entries) call =
      (result, journal', k')) :
    ∃ records', Extends records records' ∧ journal'.1 = ⟨records'.flatMap recordLine, []⟩ ∧
      ∀ signed, result = .ok signed → ∃ r ∈ records', ∀ budgetUnits t coin,
        buildTx kaspa signed call.utxo 1 call.outputs budgetUnits = (t, coin) → BackedBy kaspa sha256 r t := by
  have hjournal := buildSpend_journal kaspa sha256 (fileJournal .nowhere) hkey
    (⟨records.flatMap recordLine, []⟩, entries) call
  rw [h] at hjournal
  cases result with
  | error e =>
    rcases hjournal with ⟨hsame, -⟩ | ⟨hnone, r, hleaf, hlen, hput⟩
    · exact ⟨records, .same, congrArg Prod.fst hsame, fun _ h => by cases h⟩
    · refine ⟨records ++ [r], .add r (ne_nil_of_length hlen) ?_, ?_, fun _ h => by cases h⟩
      · rw [hleaf]
        exact not_mem_of_openJournal hsig hopen hnone
      · exact (congrArg Prod.fst hput).trans (file_record records r)
  | ok signed =>
    obtain ⟨is, r, hcode, hrecord, hlen, hdigest, htakes⟩ := buildSpend_takes h
    have hbacked (hleaf : r.leaf = call.leafId) : ∀ budgetUnits t coin,
        buildTx kaspa signed call.utxo 1 call.outputs budgetUnits = (t, coin) → BackedBy kaspa sha256 r t := by
      intro budgetUnits t coin hbuilt
      rw [hversion] at htakes hdigest
      obtain ⟨hcarries, hiff⟩ := htakes budgetUnits t coin hbuilt
      obtain ⟨rfl, rfl⟩ := Prod.mk.inj hbuilt
      refine ⟨⟨1, call.utxo.txid, call.utxo.index, call.outputs⟩, call.vault.publicKey, is, _, ⟨rfl, rfl, rfl⟩, hdigest,
        by rw [hleaf]; rfl, ?_, hcarries, ?_⟩
      · rw [hleaf]
        exact hcode
      · rw [hleaf]
        exact hiff
    rcases hrecord with hold | ⟨hnone, hleaf, -, hput⟩
    · obtain ⟨hmem, hleaf⟩ := mem_of_openJournal hsig hopen hold
      have hsame : journal' = (⟨records.flatMap recordLine, []⟩, entries) := by
        rcases hjournal with ⟨hsame, -⟩ | ⟨hnone, -⟩
        · exact hsame
        · cases hold.symm.trans hnone
      refine ⟨records, .same, congrArg Prod.fst hsame, fun signed' h => ?_⟩
      obtain rfl := Except.ok.inj h
      exact ⟨r, hmem, hbacked hleaf⟩
    · refine ⟨records ++ [r], .add r (ne_nil_of_length hlen) ?_, ?_, fun signed' h => ?_⟩
      · rw [hleaf]
        exact not_mem_of_openJournal hsig hopen hnone
      · obtain ⟨-, rfl⟩ := Prod.mk.inj hput
        exact file_record records r
      · obtain rfl := Except.ok.inj h
        exact ⟨r, by simp, hbacked hleaf⟩

/-- **One call of `run`**, on a file of records. -/
theorem run_backed (hkey : lms.signingKey.Honest) (hsig : ∀ r ∈ records, r.signature ≠ []) :
    ∃ records', Extends records records' ∧
      (run kaspa lib engine sha256 lms client req ⟨records.flatMap recordLine, []⟩).file =
        ⟨records'.flatMap recordLine, []⟩ ∧
      ∀ t, (run kaspa lib engine sha256 lms client req ⟨records.flatMap recordLine, []⟩).broadcast = some t →
        ∃ r ∈ records', BackedBy kaspa sha256 r t := by
  have hcontent : (⟨records.flatMap recordLine, []⟩ : AppendFile Char).content = records.flatMap recordLine :=
    List.append_nil _
  cases hcast : (run kaspa lib engine sha256 lms client req ⟨records.flatMap recordLine, []⟩).broadcast with
  | some t =>
    obtain ⟨utxo, outputs, entries, signingKey, signed, journal, k, -, hopen, hbuild, hfile, budgetUnits, coin, hbuilt⟩ :=
      run_broadcast hcast
    rw [hcontent] at hopen
    obtain ⟨records', hextends, hjournal, hbacked⟩ := buildSpend_backed hkey hsig hopen rfl hbuild
    refine ⟨records', hextends, hfile.trans hjournal, fun t' ht' => ?_⟩
    obtain rfl := Option.some.inj ht'
    obtain ⟨r, hr, hrecord⟩ := hbacked signed rfl
    exact ⟨r, hr, hrecord budgetUnits t coin hbuilt⟩
  | none =>
    rcases run_cases kaspa lib engine sha256 hkey client req ⟨records.flatMap recordLine, []⟩ with
      ⟨hfile, -⟩ | ⟨utxo, outputs, entries, -, hopen, ⟨hfile, -⟩ | ⟨hnone, r, hleaf, hlen, hfile⟩, -⟩
    · exact ⟨records, .same, hfile, fun t ht => by cases ht⟩
    · exact ⟨records, .same, hfile, fun t ht => by cases ht⟩
    · rw [hcontent] at hopen
      refine ⟨records ++ [r], .add r (ne_nil_of_length hlen) ?_, hfile.trans (file_record records r), fun t ht => by cases ht⟩
      rw [hleaf]
      exact not_mem_of_openJournal hsig hopen hnone

/-! ### A run -/

/-- Records that are added keep what was backed. -/
theorem Backed.extend {s : World} {records' : List SpendRecord} (h : Backed kaspa sha256 s records)
    (hextends : Extends records records') {file : AppendFile Char} (hfile : file = ⟨records'.flatMap recordLine, []⟩)
    {broadcast : Option MassTransaction} (hcast : ∀ t, broadcast = some t → ∃ r ∈ records', BackedBy kaspa sha256 r t) :
    Backed kaspa sha256 { s with file := file, mempool := s.mempool ++ broadcast.toList } records' where
  file := hfile
  signed := by
    cases hextends with
    | same => exact h.signed
    | add r hsigned hnew =>
      intro r' hr'
      rcases List.mem_append.mp hr' with hr' | hr'
      · exact h.signed r' hr'
      · exact List.mem_singleton.mp hr' ▸ hsigned
  once := by
    cases hextends with
    | same => exact h.once
    | add r hsigned hnew =>
      rw [List.map_append, List.map_singleton]
      exact List.nodup_append.mpr ⟨h.once, List.nodup_singleton _, fun a ha b hb hab => hnew (by
        rw [← List.mem_singleton.mp hb, ← hab]
        exact ha)⟩
  mempool t ht := by
    rcases List.mem_append.mp ht with ht | ht
    · obtain ⟨r, hr, hbacked⟩ := h.mempool t ht
      exact ⟨r, hextends.isPrefix.subset hr, hbacked⟩
    · exact hcast t (Option.mem_toList.mp ht)

variable {node : List Coin → Client Address}

/-- **One event** keeps the records, and what was backed. -/
theorem Backed.step {s : World} (h : Backed kaspa sha256 s records) (hkey : lms.signingKey.Honest)
    (e : Event NodeParams Prefix Address) :
    ∃ records', records <+: records' ∧ Backed kaspa sha256 (s.step kaspa lib engine sha256 lms node e) records' := by
  cases e with
  | deposit coin =>
    refine ⟨records, List.prefix_refl _, ?_⟩
    rw [World.step]
    split_ifs
    · exact h
    · exact ⟨h.file, h.signed, h.once, h.mempool⟩
  | confirm t txid blockDaaScore =>
    refine ⟨records, List.prefix_refl _, ?_⟩
    rw [World.step]
    split_ifs
    · exact ⟨h.file, h.signed, h.once, h.mempool⟩
    · exact h
  | run req =>
    obtain ⟨records', hextends, hfile, hcast⟩ := run_backed hkey h.signed
    rw [← h.file] at hfile hcast
    exact ⟨records', hextends.isPrefix, h.extend hextends hfile hcast⟩

/-- **A run.** -/
theorem Backed.run {s : World} (h : Backed kaspa sha256 s records) (hkey : lms.signingKey.Honest)
    (events : List (Event NodeParams Prefix Address)) :
    ∃ records', records <+: records' ∧
      Backed kaspa sha256 (events.foldl (World.step kaspa lib engine sha256 lms node) s) records' := by
  induction events generalizing s records with
  | nil => exact ⟨records, List.prefix_refl _, h⟩
  | cons e events ih =>
    obtain ⟨records₁, hprefix₁, h₁⟩ := h.step hkey e
    obtain ⟨records₂, hprefix₂, h₂⟩ := ih h₁
    exact ⟨records₂, hprefix₁.trans hprefix₂, h₂⟩

/-- **What is broadcast under one record** is one spend, or two views collide. -/
theorem BackedBy.sameSpend {r : SpendRecord} {t t' : MassTransaction} (h : BackedBy kaspa sha256 r t)
    (h' : BackedBy kaspa sha256 r t') : SameSpend t t' ∨ Collide sha256 t t' := by
  obtain ⟨v, -, -, -, hview, hdigest, -⟩ := h
  obtain ⟨v', -, -, -, hview', hdigest', -⟩ := h'
  obtain ⟨pre, hpre, hhash⟩ := map_eq_ok.mp hdigest
  obtain ⟨pre', hpre', hhash'⟩ := map_eq_ok.mp hdigest'
  by_cases heq : pre = pre'
  · subst heq
    obtain ⟨hfits, hlayout⟩ := bindingPreimage_eq_ok.mp hpre
    obtain ⟨hfits', hlayout'⟩ := bindingPreimage_eq_ok.mp hpre'
    obtain rfl := delimited_layout.injective hfits hfits' (hlayout.symm.trans hlayout')
    exact .inl (hview.sameSpend hview')
  · exact .inr ⟨v, v', pre, pre', hview, hview', hpre, hpre', heq, hhash.trans hhash'.symm⟩

variable (lib engine lms node) in
/-- **No leaf is used for two spends**, whatever is asked for, of whatever vaults, and whatever happens in between:
the records of the journal are kept, at most one for a leaf; every broadcast has one; and two broadcasts with a
record of one leaf are the same spend, unless SHA-256 collides on what they were signed for. -/
theorem broadcasts_backed {s : World} (h : Backed kaspa sha256 s records) (hkey : lms.signingKey.Honest)
    (events : List (Event NodeParams Prefix Address)) :
    ∃ records', records <+: records' ∧
      Backed kaspa sha256 (events.foldl (World.step kaspa lib engine sha256 lms node) s) records' ∧
      ∀ r ∈ records', ∀ r' ∈ records', r.leaf = r'.leaf → ∀ t t', BackedBy kaspa sha256 r t →
        BackedBy kaspa sha256 r' t' → SameSpend t t' ∨ Collide sha256 t t' := by
  obtain ⟨records', hprefix, hbacked⟩ := h.run hkey events
  refine ⟨records', hprefix, hbacked, fun r hr r' hr' hleaf t t' ht ht' => ?_⟩
  obtain rfl := List.inj_on_of_nodup_map hbacked.once hr hr' hleaf
  exact ht.sameSpend ht'

end

/-- A payment to leaf 0, and two spends of it. -/
theorem broadcasts_backed_test : ∃ records', Backed scriptKaspa testHash
    ([.deposit (LmsWallet.coinAt 0), .run TestSpend.first.request, .run TestSpend.first.request].foldl
      (World.step scriptKaspa testLib testEngine testHash testLms testClient) testWorld) records' := by
  have h : Backed scriptKaspa testHash testWorld [] :=
    ⟨rfl, by simp, List.nodup_nil, fun t ht => by cases ht⟩
  obtain ⟨records', -, hbacked, -⟩ := broadcasts_backed testLib testEngine testLms testClient h
    honest_testKey [.deposit (LmsWallet.coinAt 0), .run TestSpend.first.request, .run TestSpend.first.request]
  exact ⟨records', hbacked⟩

end World

end KaspaPqv.LmsWallet
