import KaspaPqv.LmsScript.Redeem
import KaspaPqv.LmsWallet.Run
import KaspaPqv.VaultCore.Unlock

/-!
# What the stateful wallet broadcasts

The signing is done by a library, and a signature may also come from the journal. The wallet cuts
it into the items of a witness and does not look at it. So what is broadcast unlocks its coin
exactly if the signature is one of the digest under the key of the vault; nothing else that the
wallet puts together can be wrong.

## What is proved

* `reverse_signatureItems` — the items are the parts of the signature.
* `buildSpend_takes` — whether what `buildSpend` returns unlocks its coin.
* `run_steps`, `run_broadcast` — where a transaction that is broadcast comes from.
-/

namespace KaspaPqv.LmsWallet

open KaspaPqv.Lib KaspaPqv.Script KaspaPqv.VaultCore KaspaPqv.LmsScript

/-! ### The parts of a signature -/

/-- The randomizer. -/
def signatureC (signature : Bytes) : Bytes := slice signature 8 40

/-- The chain values. -/
def signatureY (signature : Bytes) (i : ℕ) : Bytes :=
  slice (slice signature 40 (40 + vaultParams.p * 32)) (i * 32) ((i + 1) * 32)

/-- The path. -/
def signaturePath (signature : Bytes) (i : ℕ) : Bytes :=
  slice (signature.drop (40 + vaultParams.p * 32 + 4)) (i * 32) ((i + 1) * 32)

/-- The signature is one of the message under the key, at the leaf. -/
def Signs (sha256 : Bytes → Block 32) (key : LmsPublicKey) (leaf : UInt32) (signature : Bytes) (message : Block 32) : Prop :=
  Rfc8554.Accepts sha256 vaultParams.w vaultParams.h key.id.bytes key.root.bytes leaf.toNat (signatureC signature)
    (signatureY signature) (signaturePath signature) message.bytes

/-- **The items of a signature** are those of a witness of its parts. -/
theorem reverse_signatureItems {signature : Bytes} (h : signature.length = signatureLen vaultParams) :
    (signatureItems signature).reverse =
      witnessItems vaultParams (signatureC signature) (signatureY signature) (signaturePath signature) := by
  have hlen : signature.length = 4780 := h
  have hp : vaultParams.p = 133 := rfl
  have hh : vaultParams.h = 15 := rfl
  have hy : (slice signature 40 (40 + vaultParams.p * 32)).length / 32 = vaultParams.p := by
    rw [length_slice, hp]
    omega
  have hpath : (signature.drop (40 + vaultParams.p * 32 + 4)).length / 32 = vaultParams.h := by
    rw [List.length_drop, hp, hh]
    omega
  simp only [signatureItems, List.reverse_append, List.reverse_reverse, List.reverse_singleton, chunksExact, hy, hpath]
  rfl

/-! ### What a call returns -/

section

variable {NodeParams J K : Type} {kaspa : Kaspa NodeParams} {sha256 : Bytes → Block 32} {S : SpendJournal J}
  {key : LmsSigningKey K} {journal journal' : J} {call : SpendCall NodeParams K} {k' : K} {signed : SignedSpend}

/-- The record that a call takes its signature from: it was in the journal, or the key has signed and it was put there. -/
def RecordOf (S : SpendJournal J) (key : LmsSigningKey K) (journal journal' : J) (call : SpendCall NodeParams K) (k' : K)
    (r : SpendRecord) : Prop :=
  S.get journal call.leafId = some r ∨
    S.get journal call.leafId = none ∧ r.leaf = call.leafId ∧
      key.signInternal call.signingKey r.digest = (some r.signature, k') ∧ S.put journal r = (.ok (), journal')

/-- **What a call takes to return a spend**: the checks, a record of the digest, and what is put together of the two. -/
theorem buildSpend_eq_ok (h : buildSpend kaspa sha256 S key journal call = (.ok signed, journal', k')) :
    ∃ report outcome, checkSpend kaspa sha256 call = .ok (report, outcome.record.digest) ∧
      RecordOf S key journal journal' call k' outcome.record ∧
      assembleSpend kaspa call report outcome.record.digest outcome = .ok signed := by
  unfold buildSpend at h
  rcases hcheck : checkSpend kaspa sha256 call with e | ⟨report, digest⟩
  · simp only [hcheck] at h
    cases h
  simp only [hcheck] at h
  rcases signOnce_cases S journal ⟨call.vault.publicKey.id, call.utxo.leaf⟩ digest
      (signAt key call.utxo.leaf digest) call.signingKey with
    ⟨r, hr, rfl, hcall⟩ | ⟨r, e, -, -, hcall⟩ | ⟨-, e, key', -, hcall⟩ | ⟨hnone, signature, key', hsign, hcall⟩
  · simp only [hcall, Prod.mk.injEq] at h
    exact ⟨report, .alreadySigned r, rfl, .inl hr, h.1⟩
  · simp only [hcall, Prod.mk.injEq] at h
    cases h.1
  · simp only [hcall, Prod.mk.injEq] at h
    cases h.1
  · rcases hcall with ⟨e, journal₁, -, hcall⟩ | ⟨journal₁, hput, hcall⟩
    · simp only [hcall, Prod.mk.injEq] at h
      cases h.1
    · simp only [hcall, Prod.mk.injEq] at h
      obtain ⟨hassemble, rfl, rfl⟩ := h
      refine ⟨report, .signed ⟨⟨call.vault.publicKey.id, call.utxo.leaf⟩, digest, signature⟩, rfl,
        .inr ⟨hnone, rfl, ?_, hput⟩, hassemble⟩
      unfold signAt at hsign
      split_ifs at hsign
      · rcases hinternal : key.signInternal call.signingKey digest with ⟨_ | signature', k₁⟩
        · simp only [hinternal, Prod.mk.injEq] at hsign
          cases hsign.1
        · simp only [hinternal, Prod.mk.injEq] at hsign
          obtain ⟨hsignature, rfl⟩ := hsign
          obtain rfl := Except.ok.inj hsignature
          exact hinternal
      · cases (Prod.mk.inj hsign).1

/-- **What is returned unlocks its coin exactly if the signature is one of the digest**: the coin is locked by the
script of the vault's key at the leaf, the input carries the script and the parts of a signature of
the right length, which the journal has or the key has made, and in the transaction the script takes
them if and only if the RFC does. -/
theorem buildSpend_takes (h : buildSpend kaspa sha256 S key journal call = (.ok signed, journal', k')) :
    ∃ is r, (emitVaultScript vaultParams call.vault.publicKey call.utxo.leaf.toNat canonicalOutputCount :
        Gen Unit Instr String Unit).code () = .ok is ∧
      RecordOf S key journal journal' call k' r ∧ r.signature.length = signatureLen vaultParams ∧
      bindingDigest sha256 ⟨call.txVersion, call.utxo.txid, call.utxo.index, call.outputs⟩ = .ok r.digest ∧
      ∀ budgetUnits t coin, buildTx kaspa signed call.utxo call.txVersion call.outputs budgetUnits = (t, coin) →
        Carries kaspa is (signatureItems r.signature).reverse t coin ∧ ∀ c, Sees c t →
          (Unlocks sha256 is (signatureItems r.signature).reverse c ↔
            Signs sha256 call.vault.publicKey call.utxo.leaf r.signature r.digest) := by
  obtain ⟨report, outcome, hcheck, hrecord, hassemble⟩ := buildSpend_eq_ok h
  have hchecked := checkSpend_checked kaspa hcheck
  rw [checkSpend, ensure_bind_eq_ok, ensure_bind_eq_ok, bind_eq_ok] at hcheck
  obtain ⟨hcount, -, r, -, hcheck⟩ := hcheck
  obtain ⟨digest, hdigest, hpure⟩ := bind_eq_ok.mp hcheck
  obtain ⟨-, rfl⟩ := Prod.mk.inj (Except.ok.inj hpure)
  obtain ⟨redeemScript, hredeem, hassemble⟩ := bind_eq_ok.mp hassemble
  obtain ⟨witness, hwitness, hassemble⟩ := bind_eq_ok.mp hassemble
  obtain ⟨signatureScript, hscript, hpure⟩ := bind_eq_ok.mp hassemble
  obtain ⟨hleaf, hredeem⟩ := ensure_bind_eq_ok.mp hredeem
  obtain ⟨is, hcode, hbuild⟩ := bind_eq_ok.mp hredeem
  obtain rfl := Except.ok.inj hbuild
  have hlen : outcome.record.signature.length = signatureLen vaultParams := by
    rw [witnessPushes, ensure_bind_eq_ok] at hwitness
    exact hwitness.1
  obtain rfl := Except.ok.inj ((witnessPushes_eq_items hlen).symm.trans hwitness)
  obtain rfl := Except.ok.inj hpure
  refine ⟨is, outcome.record, hcode, hrecord, hlen, hdigest, fun budgetUnits t coin hbuilt => ?_⟩
  obtain ⟨rfl, rfl⟩ := Prod.mk.inj hbuilt
  refine ⟨⟨rfl, _, _, _, _, rfl, mapError_eq_ok.mp hscript, fun env => ?_⟩, fun c hsees => ?_⟩
  · have hpushes := @execute_pushes env (signatureItems outcome.record.signature) [] []
    rw [List.append_nil, List.append_nil] at hpushes
    exact hpushes
  · have hinputs : [(⟨call.utxo.txid, call.utxo.index⟩ : Outpoint)] = [⟨call.utxo.txid, call.utxo.index⟩] := rfl
    have hrebuilt := hsees.rebuiltDigest_eq hinputs rfl hdigest
    rw [hcount] at hrebuilt
    have hexec := execute_leaf (P := vaultParams) (by decide) (.inl rfl) (UInt32.lt_iff_toNat_lt.mp hleaf) hcode
      ⟨sha256, some c⟩ (signatureC outcome.record.signature) (signatureY outcome.record.signature)
      (signaturePath outcome.record.signature)
    rw [← reverse_signatureItems hlen, hrebuilt, Option.map_some] at hexec
    rw [Unlocks, hexec, Signs, Rfc8554.Accepts]
    constructor
    · rintro ⟨item, hitem, htrue⟩
      obtain ⟨rfl, -⟩ := List.cons.inj (Option.some.inj hitem)
      exact isTrue_decide.mp htrue
    · intro hsigns
      exact ⟨_, rfl, isTrue_decide.mpr hsigns⟩

end

/-! ### What is broadcast -/

section

variable {NodeParams Prefix Address K : Type} {kaspa : Kaspa NodeParams} {lib : AddressLib Prefix Address}
  {engine : ScriptEngine} {sha256 : Bytes → Block 32} {lms : LmsLib K} {client : Client Address}
  {req : SpendRequest NodeParams Prefix Address} {file : AppendFile Char} {t : MassTransaction}

/-- **How a transaction comes to be broadcast**: every step of the call succeeds. -/
theorem run_steps (h : (run kaspa lib engine sha256 lms client req file).broadcast = some t) :
    ∃ utxo outputs entries signingKey signed journal k assembled,
      planSpend kaspa lib client req = .ok (utxo, outputs) ∧
      FileJournal.openJournal req.journalPath file.content = .ok entries ∧
      signingKeyAt lms req.xi utxo.leaf = .ok signingKey ∧
      buildSpend kaspa sha256 (fileJournal .nowhere) lms.signingKey (file, entries)
        (req.call utxo outputs signingKey) = (.ok signed, journal, k) ∧
      assemble kaspa engine signed utxo 1 outputs = .ok assembled ∧ assembled.tx = t := by
  unfold run at h
  split at h
  · cases h
  · rename_i utxo outputs hplan
    split at h
    · cases h
    · rename_i entries hopen
      split at h
      · cases h
      · rename_i signingKey hposition
        split at h
        · cases h
        · rename_i signed file' entries' k hbuild
          split at h
          · cases h
          · rename_i broadcast hcast
            obtain rfl : broadcast = some t := h
            obtain ⟨assembled, hassembled, hrest⟩ := bind_eq_ok.mp hcast
            split_ifs at hrest
            · cases Except.ok.inj hrest
            · obtain ⟨_, -, hpure⟩ := bind_eq_ok.mp hrest
              exact ⟨utxo, outputs, entries, signingKey, signed, _, k, assembled, hplan, hopen, hposition, hbuild,
                hassembled, Option.some.inj (Except.ok.inj hpure)⟩

/-- The journal after a call that has built a spend, whatever became of the spend. -/
theorem file_of_buildSpend {utxo : VaultUtxo} {outputs : List OutputView} {entries : Entries} {signingKey k : K}
    {signed : SignedSpend} {journal : AppendFile Char × Entries} (hplan : planSpend kaspa lib client req = .ok (utxo, outputs))
    (hopen : FileJournal.openJournal req.journalPath file.content = .ok entries)
    (hposition : signingKeyAt lms req.xi utxo.leaf = .ok signingKey)
    (hbuild : buildSpend kaspa sha256 (fileJournal .nowhere) lms.signingKey (file, entries)
      (req.call utxo outputs signingKey) = (.ok signed, journal, k)) :
    (run kaspa lib engine sha256 lms client req file).file = journal.1 := by
  unfold run
  simp only [hplan, hopen, hposition, hbuild]
  cases broadcastSpend kaspa engine client req utxo outputs signed <;> rfl

/-- **A transaction that is broadcast** was assembled of a spend that was built of a plan. -/
theorem run_broadcast (h : (run kaspa lib engine sha256 lms client req file).broadcast = some t) :
    ∃ utxo outputs entries signingKey signed journal k, planSpend kaspa lib client req = .ok (utxo, outputs) ∧
      FileJournal.openJournal req.journalPath file.content = .ok entries ∧
      buildSpend kaspa sha256 (fileJournal .nowhere) lms.signingKey (file, entries)
        (req.call utxo outputs signingKey) = (.ok signed, journal, k) ∧
      (run kaspa lib engine sha256 lms client req file).file = journal.1 ∧
      ∃ budgetUnits coin, buildTx kaspa signed utxo 1 outputs budgetUnits = (t, coin) := by
  obtain ⟨utxo, outputs, entries, signingKey, signed, journal, k, assembled, hplan, hopen, hposition, hbuild, hassembled,
    rfl⟩ := run_steps h
  exact ⟨utxo, outputs, entries, signingKey, signed, journal, k, hplan, hopen, hbuild,
    file_of_buildSpend hplan hopen hposition hbuild, assembled.declaredBudgetUnits, assembled.utxo,
    (assemble_eq_ok kaspa engine hassembled).1.symm⟩

end

end KaspaPqv.LmsWallet
