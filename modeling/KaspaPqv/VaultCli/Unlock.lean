import KaspaPqv.LmsWallet.Unlock
import KaspaPqv.SlhWallet.Unlock
import KaspaPqv.VaultCli.Conservation

/-!
# What the commands broadcast unlocks its coin

From the seed to the engine: the key, the vault, the plan, the checks, the signature, the witness
and the transaction of one call, put together. The stateless command makes its signatures itself,
so all that it broadcasts unlocks its coin. The other command leaves them to a library and to the
journal, so what it broadcasts unlocks its coin if and only if these are right.

## What is proved

* `cmdSpend_unlocks` — of a transaction that `cmd_spend` broadcasts.
* `run_unlocks` — of one that `spend_cmd::run` broadcasts.
-/

namespace KaspaPqv.VaultCli

open KaspaPqv.Lib KaspaPqv.Script KaspaPqv.VaultCore
open LmsWallet (AddressLib Client LmsLib ScriptEngine)

section

open SlhWallet SlhScript

variable {NodeParams Prefix Address Node ChildNumber : Type} {B : Bip32 Node ChildNumber} {sha256 : Bytes → Block 32}

/-- A vault that is opened with its key is that of one seed. -/
theorem openVaultWithKey_eq_ok {resolved : Resolved Node} {scheme : Scheme} {vault : SlhVault} {keypair : Keypair}
    (h : openVaultWithKey B sha256 resolved scheme = .ok (vault, keypair)) :
    ∃ p ∈ Params.ALL, vault = .fromPublicKey p keypair.publicKey ∧ keypair.publicKey = keypair.secret.publicKey ∧
      ∃ seeds, keypair.secret.Sound sha256 p seeds := by
  obtain ⟨p, hset, h⟩ := Outcome.ofOption_bind_eq_ok.mp h
  obtain ⟨xi, -, hvault⟩ := Outcome.ofExcept_bind_eq_ok.mp h
  obtain ⟨keypair', hkeypair, hpublic, hsound⟩ := SlhVault.fromXi_eq_ok sha256 (paramsFor_mem hset) xi
  rw [hkeypair] at hvault
  cases hvault
  exact ⟨p, paramsFor_mem hset, rfl, hpublic, _, hsound⟩

/-- **What `cmd_spend` broadcasts unlocks its coin**: for every key material, scheme, request and node, a
transaction that is broadcast spends the coin of the plan, is paid as planned, and carries items that
the redeem script of the plan's vault takes in it. -/
theorem cmdSpend_unlocks [DecidableEq Prefix] (B : Bip32 Node ChildNumber) (kaspa : Kaspa NodeParams)
    (sha256 : Bytes → Block 32) (engine : ScriptEngine) (cli : Surroundings NodeParams Prefix Address) (args : Args)
    (resolved : Resolved Node) (scheme : Scheme) (addressPrefix : Prefix) {t : MassTransaction}
    (h : cmdSpend B kaspa sha256 engine cli args resolved scheme addressPrefix = .ok (some t)) :
    ∃ plan v items coin, planSpend B kaspa sha256 cli args resolved scheme addressPrefix = .ok plan ∧
      buildVaultScript plan.vault.publicKey plan.vault.plan canonicalOutputCount = .ok v ∧
      t.inputs.map TransactionInput.previousOutpoint = [⟨plan.utxo.txid, plan.utxo.index⟩] ∧
      coin.amount = plan.utxo.amount ∧ t.outputs = toOutputs plan.outputs ∧
      Carries kaspa v.script items t coin ∧ ∀ c, Sees c t → Unlocks sha256 v.script items c := by
  obtain ⟨plan, spend, hplan, hbuild, rfl⟩ := cmdSpend_eq_ok h
  obtain ⟨-, -, -, -, -, -, -, hopen, -, -, -, -, -⟩ := planSpend_eq_ok.mp hplan
  obtain ⟨p, hp, hvault, hpublic, seeds, hsound⟩ := openVaultWithKey_eq_ok hopen
  obtain ⟨digest, signature, -, -, -, hassemble⟩ := buildSpend_eq_ok.mp hbuild
  obtain ⟨-, -, ⟨scripts, -, hbuilt⟩, -⟩ := assembleSpend_eq_ok hassemble
  obtain ⟨htx, hcoin⟩ := Prod.mk.inj hbuilt
  rw [SpendPlan.build, hvault] at hbuild
  obtain ⟨v, items, hv, hcarries, htakes⟩ := buildSpend_unlocks hp hsound hpublic hbuild
  refine ⟨plan, v, items, spend.utxo, hplan, by rw [hvault]; exact hv, ?_, by rw [hcoin], by rw [htx],
    hcarries, htakes⟩
  rw [htx]
  rfl

/-- Half of the coins, broadcast. -/
theorem cmdSpend_unlocks_test : ∃ (t : MassTransaction) (v : VaultScript) (items : List Bytes),
    t.inputs.map TransactionInput.previousOutpoint = [⟨Block.zero 32, 0⟩] ∧
      ∀ c, Sees c t → Unlocks LmsWallet.testHash v.script items c := by
  obtain ⟨keypair, xi, hsound, hplan⟩ := planSpend_testCli LmsWallet.testHash
  obtain ⟨spend, hspend⟩ := buildSpend_testCli hsound
  have hcmd : cmdSpend pathTree scriptHashKaspa LmsWallet.testHash LmsWallet.testEngine testCli
      { testArgs with dryRun := false } testResolved .slhDsaSha2_128s () = .ok (some spend.tx) := by
    refine Outcome.bind_eq_ok.mpr ⟨_, hplan, Outcome.bind_eq_ok.mpr ⟨spend, Outcome.mapError_eq_ok.mpr hspend, ?_⟩⟩
    rfl
  obtain ⟨plan, v, items, -, hplan', -, hinputs, -, -, -, htakes⟩ := cmdSpend_unlocks pathTree scriptHashKaspa
    LmsWallet.testHash LmsWallet.testEngine testCli _ testResolved .slhDsaSha2_128s () hcmd
  obtain rfl := Outcome.ok.inj (hplan.symm.trans hplan')
  exact ⟨spend.tx, v, items, hinputs, htakes⟩

end

section

open LmsWallet LmsScript

variable {NodeParams Prefix Address K : Type}

/-- **What `run` broadcasts unlocks its coin exactly if the signature is right**: a transaction that is
broadcast spends the coin of the plan and is paid as planned; it carries the parts of a signature,
which was in the journal under the leaf of the coin or was made by the key and put there, over the digest
of the transaction; and the redeem script of the vault at this leaf takes them in it if and only if
the RFC takes the signature. -/
theorem run_unlocks (kaspa : Kaspa NodeParams) (lib : AddressLib Prefix Address) (engine : ScriptEngine)
    (sha256 : Bytes → Block 32) (lms : LmsLib K) (client : Client Address) (req : SpendRequest NodeParams Prefix Address)
    (file : AppendFile Char) {t : MassTransaction}
    (h : (run kaspa lib engine sha256 lms client req file).broadcast = some t) :
    ∃ utxo outputs is r coin, planSpend kaspa lib client req = .ok (utxo, outputs) ∧
      (emitVaultScript vaultParams req.vault.publicKey utxo.leaf.toNat canonicalOutputCount :
        Gen Unit Instr String Unit).code () = .ok is ∧
      t.inputs.map TransactionInput.previousOutpoint = [⟨utxo.txid, utxo.index⟩] ∧
      coin.amount = utxo.amount ∧ t.outputs = toOutputs outputs ∧
      (∃ entries signingKey journal k, FileJournal.openJournal req.journalPath file.content = .ok entries ∧
        RecordOf (fileJournal .nowhere) lms.signingKey (file, entries) journal (req.call utxo outputs signingKey) k r) ∧
      bindingDigest sha256 ⟨1, utxo.txid, utxo.index, outputs⟩ = .ok r.digest ∧
      Carries kaspa is (signatureItems r.signature).reverse t coin ∧ ∀ c, Sees c t →
        (Unlocks sha256 is (signatureItems r.signature).reverse c ↔
          Signs sha256 req.vault.publicKey utxo.leaf r.signature r.digest) := by
  obtain ⟨utxo, outputs, entries, signingKey, signed, journal, k, hplan, hopen, hbuild, -, budgetUnits, coin, hbuilt⟩ :=
    run_broadcast h
  obtain ⟨is, r, hcode, hrecord, -, hdigest, hall⟩ := buildSpend_takes hbuild
  obtain ⟨hcarries, htakes⟩ := hall budgetUnits t coin hbuilt
  obtain ⟨htx, hcoin⟩ := Prod.mk.inj hbuilt
  refine ⟨utxo, outputs, is, r, coin, hplan, hcode, by rw [← htx]; rfl, by rw [← hcoin], by rw [← htx], ?_, hdigest,
    hcarries, htakes⟩
  exact ⟨entries, signingKey, journal, k, hopen, hrecord⟩

/-- The coin of the first leaf, spent by a key whose signatures are zeros. -/
theorem run_unlocks_test : ∃ (t : MassTransaction) (is : List Instr) (r : SpendRecord),
    t.inputs.map TransactionInput.previousOutpoint = [(LmsWallet.coinAt 0).outpoint] ∧ ∀ c, Sees c t →
      (Unlocks testHash is (signatureItems r.signature).reverse c ↔
        Signs testHash testVault.publicKey 0 r.signature r.digest) := by
  have hfunded : testVault.OnlyFunded scriptKaspa [LmsWallet.coinAt 0] scanWindow 0 (LmsWallet.coinAt 0) :=
    World.onlyFunded_coinAt (by decide) fun _ hc => by cases hc
  obtain ⟨r, t, -, -, hinputs, -, hrun⟩ := TestSpend.first.run_eq testHash .empty (fun _ => none) hfunded rfl (by decide) rfl rfl
  have hbroadcast : (run scriptKaspa testLib testEngine testHash testLms (testClient [LmsWallet.coinAt 0]) TestSpend.first.request
      .empty).broadcast = some t := by rw [hrun]
  obtain ⟨utxo, outputs, is, r', coin, hplan, -, -, -, -, -, -, -, htakes⟩ := run_unlocks scriptKaspa testLib testEngine
    testHash testLms (testClient [LmsWallet.coinAt 0]) TestSpend.first.request .empty hbroadcast
  obtain ⟨rfl, -⟩ := Prod.mk.inj (Except.ok.inj ((TestSpend.first.planSpend_eq hfunded rfl).symm.trans hplan))
  exact ⟨t, is, r', hinputs, htakes⟩

end

end KaspaPqv.VaultCli
